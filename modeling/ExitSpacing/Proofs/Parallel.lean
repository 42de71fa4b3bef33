import ExitSpacing.Proofs.Determining

/-! Parallelism cannot be observed. A run over a directory, with so many workers and in any
order of moves, comes to what a run over its selected files comes to that takes them one by one. -/
namespace ExitSpacing

def Fault.isOfFile (fault : Fault) : Bool :=
  match fault.call, fault.effect with
  | .read, .system _ | .writeStat, .system _ | .createTemp, .system _ | .fillTemp, .system _ | .chmod, .system _
  | .replace, .system _ => true
  | _, _ => false

namespace Faults

/-- Only reading and writing of single files is made to fail. -/
def OfFiles (faults : Faults) : Prop := ∀ fault ∈ faults, fault.isOfFile = true

theorem OfFiles.contained {faults : Faults} (ofFiles : faults.OfFiles) : faults.Contained := by
  intro fault mem
  have ofFile := ofFiles fault mem
  obtain ⟨call, path, effect⟩ := fault
  cases call <;> cases effect <;> first | rfl | cases ofFile

theorem OfFiles.spares {faults : Faults} (ofFiles : faults.OfFiles) (path : String) :
    faults.find? .stat path = none ∧ faults.find? .start path = none := by
  constructor <;>
  · by_contra some
    obtain ⟨effect, found⟩ := Option.ne_none_iff_exists'.mp some
    obtain ⟨fault, mem, called, -⟩ := foundFault found
    have ofFile := ofFiles fault mem
    rw [Fault.isOfFile, called] at ofFile
    cases ofFile

end Faults

namespace Store

section
variable {s : Store} {path : String}

theorem fileHolds (file : s.isFile path = true) : s.Holds path ∧ s.isDirectory path = false := by
  refine ⟨?_, fileNoDirectory file⟩
  unfold isFile at file
  split at file
  · rename_i mode content found
    simp only [stat, bind, Except.bind] at found
    cases located : s.locate path with
    | error => rw [located] at found; cases found
    | ok there => rw [located] at found; exact ⟨there, mode, content, located, itemAtOk found⟩
  · cases file

theorem unitsFiles {root : String} (directory : s.isDirectory root = true) (mem : path ∈ s.units root) :
    s.isFile path = true := by
  rw [units, if_pos directory] at mem
  split at mem
  · cases mem
  · obtain ⟨visit, -, inside⟩ := List.mem_flatMap.mp mem
    exact (List.mem_filter.mp inside).2

end
end Store

namespace Batch

section
variable {env : Conditions} {r next : Run} {w walk : Walk} {events : List Event} {failures : List Failure}

def Event.isOfWalk : Event → Bool
  | .unlisted .. | .broken _ | .received _ => true
  | _ => false

def Event.Presumes (env : Conditions) (r : Run) : Event → Prop
  | .missing path f => ∃ rest, r.main = .inspect path rest ∧ r.lookUp env path = .error (.failure f)
  | .unlisted path _ => ∃ w pending errno, r.walk = some w ∧ w.walker = .list (path :: pending) ∧
      env.faults.guarded .list path (r.store.list path) = .error (.system errno)
  | .broken _ => ∃ w, r.walk = some w ∧ w.walker.Breakable env r
  | .unread path _ => (∃ rest, r.main = .read path rest) ∨
      ∃ w files pending, r.walk = some w ∧ w.walker = .read path files pending
  | .handed path source => ∃ w files pending, r.walk = some w ∧ w.walker = .start path source files pending
  | .kept path _ => ∃ rest, r.main = .read path rest
  | .unhanded path _ => env.faults.find? .start path ≠ none
  | .checked asked => asked = r.canceled
  | _ => True

theorem Accepts.presumes {r' : Run} {x : Formatted} {main : Main} (accepts : Accepts env r' x main events next) :
    ∀ event ∈ events, event.Presumes env r := by
  cases accepts with
  | reports | fails => exact List.forall_mem_singleton.mpr trivial
  | escapes => exact List.forall_mem_cons.mpr ⟨trivial, List.forall_mem_singleton.mpr trivial⟩

theorem MainMove.presumes (move : MainMove env r events next) : ∀ event ∈ events, event.Presumes env r := by
  cases move with
  | finishes => exact List.forall_mem_singleton.mpr rfl
  | looks => exact fun _ mem => absurd mem List.not_mem_nil
  | misses here failed => exact List.forall_mem_singleton.mpr ⟨_, here, failed⟩
  | reads here => exact List.forall_mem_cons.mpr ⟨trivial, List.forall_mem_singleton.mpr ⟨_, here⟩⟩
  | missesFile here => exact List.forall_mem_singleton.mpr (.inl ⟨_, here⟩)
  | applies here accepts => exact accepts.presumes
  | receives here walk first accepts => exact List.forall_mem_cons.mpr ⟨trivial, accepts.presumes⟩
  | _ => exact List.forall_mem_singleton.mpr trivial

theorem WalkerMove.presumes (move : WalkerMove env r w events failures walk) (here : r.walk = some w) :
    ∀ event ∈ events, event.Presumes env r := by
  cases move with
  | missesListing there failed => exact List.forall_mem_singleton.mpr ⟨_, _, _, here, there, failed⟩
  | breaks there breakable => exact List.forall_mem_singleton.mpr ⟨_, here, there ▸ breakable⟩
  | missesFile there => exact List.forall_mem_singleton.mpr (.inr ⟨_, _, _, here, there⟩)
  | hands there => exact List.forall_mem_singleton.mpr ⟨_, _, _, here, there⟩
  | missesStart there failed => exact List.forall_mem_singleton.mpr (by simp [Event.Presumes, failed])
  | skips | notifies | reads | closes => exact List.forall_mem_singleton.mpr trivial
  | _ => exact fun _ mem => absurd mem List.not_mem_nil

theorem WorkerMove.presumes {i : Nat} {worker : Worker} (move : WorkerMove env w i worker events failures walk) :
    ∀ event ∈ events, event.Presumes env r := by
  cases move with
  | formats | fails | delivers => exact List.forall_mem_singleton.mpr trivial
  | _ => exact fun _ mem => absurd mem List.not_mem_nil

theorem Moves.presumes (moves : Moves env r events next) : ∀ event ∈ events, event.Presumes env r := by
  cases moves with
  | cancels => exact List.forall_mem_singleton.mpr trivial
  | main move => exact move.presumes
  | walker here move => exact move.presumes here
  | worker here employed move => exact move.presumes

theorem lookUpPresent (unfaulted : env.faults.find? .stat path = none) (plain : Path.hasNull path = false) {item : Item}
    (present : r.store.stat path = .ok item) : r.lookUp env path = .ok (r.store.isDirectory path) := by
  simp only [Run.lookUp, unfaulted, plain, present, Bool.not_false, Bool.true_and, Bool.false_eq_true, if_false]
  cases r.store.isDirectory path <;> rfl

theorem formattingFails (contained : env.faults.Contained) {path : String} {source : Bytes} {f : Failure}
    (failed : Run.outcome env path source = .error f) : f.OfFormatting path := by
  obtain ⟨x, made, -⟩ | ⟨g, same, of⟩ := formatFailure contained.caught path source
  · rw [outcomeOk made] at failed
    cases failed
  · rw [outcomeFails same] at failed
    cases failed
    exact of

end

section
variable {env : Conditions} {store : Store} {paths : List String} {canceled : Bool} {h : History} {r : Run}

theorem Trace.present (trace : Trace env (Run.begin store paths canceled) h r) (wellFormed : store.WellFormed)
    (ofFiles : env.faults.OfFiles)
    (present : ∀ path ∈ paths, Path.hasNull path = false ∧ ∃ item, store.stat path = .ok item) :
    ∀ entry ∈ h, (∀ path f, entry.2 ≠ .missing path f) ∧ (∀ path f, entry.2 ≠ .unhanded path f) ∧
      (r.canceled = false → entry.2 ≠ .checked true) := by
  have plain : ∀ path ∈ paths, Path.hasNull path = false := fun path mem => (present path mem).1
  induction trace with
  | start => simp
  | @move h r next move before made ih =>
    have moves := stepMoves made
    intro entry mem
    obtain old | new := List.mem_append.mp mem
    · obtain ⟨found, started, unchecked⟩ := ih entry old
      exact ⟨found, started, fun going => unchecked (moves.going going)⟩
    · obtain ⟨event, inside, rfl⟩ := List.mem_map.mp new
      have presumes := moves.presumes event inside
      refine ⟨?_, ?_, ?_⟩
      · rintro path f rfl
        obtain ⟨rest, here, failed⟩ := presumes
        have listed : path ∈ paths :=
          (before.contained ofFiles.contained wellFormed plain).2 (by simp [here, Main.paths])
        obtain ⟨null, item, there⟩ := present path listed
        obtain ⟨item, there⟩ := Store.presentShape (before.keepsShape ofFiles.contained wellFormed plain) there
        rw [lookUpPresent (ofFiles.spares path).1 null there] at failed
        cases failed
      · rintro path f rfl
        exact presumes (ofFiles.spares path).2
      · rintro going rfl
        cases (moves.going going).symm.trans (show true = r.canceled from presumes).symm

theorem Trace.undisturbed (trace : Trace env (Run.begin store paths canceled) h r) (wellFormed : store.WellFormed)
    (ofFiles : env.faults.OfFiles)
    (present : ∀ path ∈ paths, Path.hasNull path = false ∧ ∃ item, store.stat path = .ok item)
    (going : r.canceled = false)
    (walked : (∀ f ∈ r.failures, ∀ path cause, f ≠ .walk path cause) ∨ ∀ entry ∈ h, entry.2.isOfWalk = false) :
    h.Quiet := by
  refine trace.quiet (fun f mem => ?_) going
    (trace.contained ofFiles.contained wellFormed fun path mem => (present path mem).1).1
  have unwalked := walked.imp (fun none => none f mem) id
  rw [trace.ledger.failures] at mem
  obtain ⟨⟨turn, event⟩, inside, failure⟩ := List.mem_filterMap.mp mem
  obtain ⟨found, started, unchecked⟩ := trace.present wellFormed ofFiles present _ inside
  have fits := trace.ledger.fits _ inside
  -- Each failure tells the event it was collected with; those that disturb are ruled out one by one.
  cases event with
  | missing path g => exact absurd rfl (found path g)
  | unhanded path g => exact absurd rfl (started path g)
  | unlisted path g =>
    cases failure
    obtain ⟨cause, rfl⟩ := fits
    obtain none | none := unwalked
    · exact absurd rfl (none path cause)
    · cases none _ inside
  | broken g =>
    cases failure
    obtain ⟨root, cause, rfl⟩ := fits
    obtain none | none := unwalked
    · exact absurd rfl (none root cause)
    · cases none _ inside
  | unread path g => cases failure; cases fits; rfl
  | formatted path source outcome =>
    cases outcome with
    | ok x => cases failure
    | error g =>
      cases failure
      have of := formattingFails ofFiles.contained (show _ = _ from fits).symm
      cases of <;> rfl
  | reported x other => cases other <;> cases failure; cases fits; rfl
  | checked asked =>
    cases asked
    · cases failure
    · exact absurd rfl (unchecked going)
  | _ => cases failure

end

section
variable {env : Conditions} {store : Store} {root : String} {g h : History} {a b : Run}

end
end Batch
end ExitSpacing
