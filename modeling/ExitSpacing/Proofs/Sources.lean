import ExitSpacing.Proofs.Accounting

/-! Where what is in hand comes from: every source was read by the run, every result was made
of such a source, and no run that ends as it should changes the shape of the store. -/
namespace ExitSpacing.Batch

namespace History

def Read (h : History) (path : String) (source : Bytes) : Prop := ∃ turn, (turn, Event.read path source) ∈ h

theorem Read.append {h : History} {path : String} {source : Bytes} (read : h.Read path source) (more : History) :
    Read (h ++ more) path source := by
  obtain ⟨turn, mem⟩ := read
  exact ⟨turn, List.mem_append_left _ mem⟩

theorem readNow {events : List Event} {path : String} {source : Bytes} (mem : .read path source ∈ events) (h : History)
    (turn : Nat) : Read (h ++ events.map (turn, ·)) path source :=
  ⟨turn, List.mem_append_right _ (List.mem_map_of_mem mem)⟩

end History

def Duty.Sourced (env : Conditions) (h : History) : Duty → Prop
  | .format path source => h.Read path source
  | .report x => ∃ source, h.Read x.unit source ∧ Run.outcome env x.unit source = .ok x

theorem Duty.Sourced.append {env : Conditions} {h : History} {duty : Duty} (sourced : duty.Sourced env h) (more : History) :
    duty.Sourced env (h ++ more) := by
  cases duty with
  | format => exact History.Read.append sourced more
  | report x =>
    obtain ⟨source, read, made⟩ := sourced
    exact ⟨source, read.append more, made⟩

def Walker.started? : Walker → Option (String × Bytes)
  | .start file source _ _ => some (file, source)
  | _ => none

section
variable {env : Conditions} {r next : Run} {w walk : Walk} {events : List Event} {failures : List Failure}

theorem outcomeUnit {path : String} {source : Bytes} {x : Formatted} (made : Run.outcome env path source = .ok x) :
    x.unit = path ∧ (x.modified = false → x.content = source) := by
  unfold Run.outcome Run.formatUnit at made
  cases fault : env.faults.find? .format path with
  | some effect =>
    rw [fault] at made
    cases effect <;> cases made
  | none =>
    simp only [fault] at made
    obtain ⟨y, formatted, unit, kept⟩ | ⟨f, failed, -⟩ := formatCases env.parser env.settings.toBlockRule path source
    · rw [formatted] at made
      cases made
      exact ⟨unit, kept⟩
    · rw [failed] at made
      cases made

structure Sourced (env : Conditions) (h : History) (r : Run) : Prop where
  starting : ∀ w path source, r.walk = some w → w.walker.started? = some (path, source) → h.Read path source
  inHand : ∀ duty ∈ r.duties, duty.Sourced env h

theorem WalkerMove.started (move : WalkerMove env r w events failures walk) {path : String} {source : Bytes}
    (there : walk.walker.started? = some (path, source)) : .read path source ∈ events := by
  cases move with
  | reads => cases there; simp
  | _ => cases there

theorem WalkerMove.raised (move : WalkerMove env r w events failures walk) {duty : Duty}
    (raised : duty ∈ events.flatMap Event.raises) :
    ∃ path source, duty = .format path source ∧ w.walker.started? = some (path, source) := by
  cases move with
  | hands here =>
    simp only [Event.raises, List.flatMap_cons, List.flatMap_nil, List.append_nil, List.mem_singleton] at raised
    exact ⟨_, _, raised, by rw [here]; rfl⟩
  | _ => simp [Event.raises] at raised

theorem WorkerMove.raised {i : Nat} {worker : Worker} (move : WorkerMove env w i worker events failures walk) {duty : Duty}
    (raised : duty ∈ events.flatMap Event.raises) :
    ∃ x, duty = .report x ∧ worker.duty? = some (.format worker.path worker.source) ∧
      Run.outcome env worker.path worker.source = .ok x := by
  cases move with
  | formats here made =>
    simp only [Event.raises, List.flatMap_cons, List.flatMap_nil, List.append_nil, List.mem_singleton] at raised
    exact ⟨_, raised, by simp [Worker.duty?, here], made⟩
  | _ => simp [Event.raises] at raised

theorem madeFrom {h : History} {path : String} {source : Bytes} {x : Formatted} (read : h.Read path source)
    (made : Run.outcome env path source = .ok x) : Duty.Sourced env h (.report x) := by
  obtain ⟨rfl, -⟩ := outcomeUnit made
  exact ⟨source, read, made⟩

theorem MainMove.raised {h : History} (move : MainMove env r events next) (sourced : Sourced env h r) :
    ∀ duty ∈ events.flatMap Event.raises, duty.Sourced env (h ++ events.map (next.turn, ·)) := by
  intro duty raised
  cases move with
  | reads here found =>
    simp only [Event.raises, List.flatMap_cons, List.flatMap_nil, List.append_nil, List.nil_append,
      List.mem_singleton] at raised
    subst raised
    exact History.readNow (by simp) h _
  | @formats path source rest x log here made =>
    simp only [Event.raises, List.flatMap_cons, List.flatMap_nil, List.append_nil, List.mem_singleton] at raised
    subst raised
    have inHand : Duty.format path source ∈ r.duties := by simp [Run.duties, here, Main.duties]
    exact (madeFrom (sourced.inHand _ inHand) (outcomeOk made)).append _
  | applies here accepts =>
    obtain ⟨trouble, ended, -⟩ | ⟨-, none, -⟩ := accepts.duties
    · cases accepts <;> simp [Event.raises] at raised
    · simp [none] at raised
  | receives here walk first accepts =>
    cases accepts <;> simp [Event.raises] at raised
  | _ => simp [Event.raises] at raised

theorem Moves.raised {h : History} (moves : Moves env r events next) (sourced : Sourced env h r) :
    ∀ duty ∈ events.flatMap Event.raises, duty.Sourced env (h ++ events.map (next.turn, ·)) := by
  intro duty raised
  cases moves with
  | cancels => simp [Event.raises] at raised
  | main move => exact move.raised sourced duty raised
  | walker here move =>
    obtain ⟨path, source, rfl, started⟩ := move.raised raised
    exact History.Read.append (sourced.starting _ path source here started) _
  | @worker w i worker _ _ _ _ _ here employed move =>
    obtain ⟨x, rfl, working, made⟩ := move.raised raised
    have inHand : Duty.format worker.path worker.source ∈ r.duties := by
      simp only [Run.duties, here, Option.elim_some, Walk.duties, List.mem_append, List.mem_filterMap]
      exact .inr (.inl ⟨_, List.mem_of_getElem? employed, working⟩)
    exact (madeFrom (sourced.inHand _ inHand) made).append _

theorem MainMove.walker (move : MainMove env r events next) (there : next.walk = some walk) :
    (walk.walker = .begin ∧ ∃ rest, r.main = .inspect walk.root rest ∧ r.lookUp env walk.root = .ok true) ∨
      ∃ w, r.walk = some w ∧ walk.walker = w.walker ∧ walk.root = w.root := by
  cases move with
  | finishes here =>
    obtain ⟨log, finish⟩ := finishIs r
    rw [finish] at there
    exact .inr ⟨walk, there, rfl, rfl⟩
  | opens | looks | misses | reads | missesFile | formats | fails | escapes => exact .inr ⟨walk, there, rfl, rfl⟩
  | walks here found =>
    cases there
    exact .inl ⟨rfl, _, here, found⟩
  | applies here accepts =>
    obtain ⟨-, -, same, -⟩ := accepts.silent
    exact .inr ⟨walk, same.symm.trans there, rfl, rfl⟩
  | closes => cases there
  | notes here walks first =>
    cases there
    exact .inr ⟨_, walks, rfl, rfl⟩
  | receives here walks first accepts =>
    obtain ⟨-, -, same, -⟩ := accepts.silent
    cases same.symm.trans there
    exact .inr ⟨_, walks, rfl, rfl⟩

theorem WorkerMove.walker {i : Nat} {worker : Worker} (move : WorkerMove env w i worker events failures walk) :
    walk.walker = w.walker := by
  cases move <;> rfl

theorem Moves.started {h : History} (moves : Moves env r events next) (sourced : Sourced env h r)
    {path : String} {source : Bytes} (here : next.walk = some w) (there : w.walker.started? = some (path, source)) :
    History.Read (h ++ events.map (next.turn, ·)) path source := by
  cases moves with
  | cancels => exact (sourced.starting w path source here there).append _
  | walker before move =>
    cases here
    exact History.readNow (move.started there) h _
  | worker before employed move =>
    cases here
    rw [move.walker] at there
    exact (sourced.starting _ path source before there).append _
  | main move =>
    obtain ⟨begun, -⟩ | ⟨before, walks, same, -⟩ := move.walker here
    · rw [begun] at there
      cases there
    · rw [same] at there
      exact (sourced.starting before path source walks there).append _

theorem Moves.sourced {h : History} (moves : Moves env r events next) (steady : r.Steady) (sourced : Sourced env h r) :
    next.Escaped ∨ Sourced env (h ++ events.map (next.turn, ·)) next := by
  refine (moves.duties steady).imp id fun balance => ⟨fun w path source here there => moves.started sourced here there, ?_⟩
  intro duty mem
  obtain old | new := List.mem_append.mp (balance.subset (List.mem_append_left _ mem))
  · exact (sourced.inHand duty old).append _
  · exact moves.raised sourced duty new

end

theorem Trace.sourced {env : Conditions} {store : Store} {paths : List String} {canceled : Bool} {h : History} {r : Run}
    (trace : Trace env (Run.begin store paths canceled) h r) : r.Escaped ∨ Sourced env h r :=
  (trace.keeps (P := fun h r => r.Steady ∧ (r.Escaped ∨ Sourced env h r))
    ⟨.begin store paths canceled, .inr ⟨by simp [Run.begin], by simp [Run.begin, Run.duties, Main.duties]⟩⟩
    fun held moves => ⟨moves.steady held.1,
      held.2.elim (fun escaped => .inl (escaped.move moves)) fun sourced => moves.sourced held.1 sourced⟩).2

theorem Trace.raised {env : Conditions} {store : Store} {paths : List String} {canceled : Bool} {h : History} {r : Run}
    (trace : Trace env (Run.begin store paths canceled) h r) (unescaped : ¬ r.Escaped) :
    ∀ duty ∈ h.raised, duty.Sourced env h := by
  induction trace with
  | start => simp [History.raised]
  | @move h r next move before made ih =>
    have moves := stepMoves made
    have going : ¬ r.Escaped := fun escaped => unescaped (escaped.move moves)
    intro duty mem
    rw [History.raisedAppend] at mem
    obtain old | new := List.mem_append.mp mem
    · exact (ih going duty old).append _
    · exact moves.raised (before.sourced.resolve_left going) duty new

section
variable {env : Conditions} {r next : Run} {w walk : Walk} {events : List Event} {failures : List Failure}

theorem readFileOk {path : String} {source : Bytes} (ok : r.readFile env path = .ok source) :
    env.faults.find? .read path = none ∧ r.store.read path = .ok source := by
  unfold Run.readFile at ok
  split at ok
  · rename_i found
    cases ok
    exact Faults.guardedOk found
  · cases ok
  · cases ok

def Event.Tells (env : Conditions) (r : Run) : Event → Prop
  | .read path source => r.readFile env path = .ok source
  | .unread path f => r.readFile env path = .error (.failure f)
  | _ => True

theorem Moves.tells (moves : Moves env r events next) : ∀ event ∈ events, event.Tells env r := by
  cases moves with
  | cancels => simp [Event.Tells]
  | main move =>
    cases move with
    | reads here found => simpa [Event.Tells] using found
    | missesFile here failed => simpa [Event.Tells] using failed
    | applies here accepts => cases accepts <;> simp [Event.Tells]
    | receives here walks first accepts => cases accepts <;> simp [Event.Tells]
    | _ => simp [Event.Tells]
  | walker here move =>
    cases move with
    | reads here found => simpa [Event.Tells] using found
    | missesFile here failed => simpa [Event.Tells] using failed
    | _ => simp [Event.Tells]
  | worker here employed move => cases move <;> simp [Event.Tells]

theorem Moves.read (moves : Moves env r events next) {path : String} {source : Bytes}
    (mem : .read path source ∈ events) : r.readFile env path = .ok source :=
  moves.tells _ mem

def reportResult : Option Failure → Except Trouble Unit
  | none => .ok ()
  | some f => .error (.failure f)

inductive Stored (env : Conditions) (r : Run) (events : List Event) (next : Run) : Prop where
  | keeps (same : next.store = r.store) (unreported : ∀ x failure, .reported x failure ∉ events)
  | reports {x failure} (inHand : .report x ∈ r.duties) (reported : .reported x failure ∈ events)
      (only : ∀ y other, .reported y other ∈ events → y = x ∧ other = failure)
      (store : next.store = (x.report env.settings env.faults r.store).store)
      (result : (x.report env.settings env.faults r.store).result = reportResult failure)
      (collected : next.failures = r.failures ++ failure.toList)
  | escapes (escaped : next.Escaped)

theorem Accepts.stored {r' : Run} {x : Formatted} {main : Main} (accepts : Accepts env r' x main events next)
    (inHand : .report x ∈ r.duties) (same : r'.store = r.store) (collected : r'.failures = r.failures) :
    Stored env r events next := by
  cases accepts with
  | reports fine =>
    refine .reports inHand (show Event.reported x none ∈ _ from .head _) (by simp) (by rw [same]) ?_ (by simp [collected])
    rw [← same, fine]
    rfl
  | @fails log f failed =>
    refine .reports inHand (show Event.reported x (some f) ∈ _ from .head _) (by simp) (by rw [same]) ?_
      (by simp [collected])
    rw [← same, failed]
    rfl
  | escapes failed other => exact .escapes ⟨_, rfl, other⟩

theorem Moves.stored (moves : Moves env r events next) : Stored env r events next := by
  cases moves with
  | cancels => exact .keeps rfl (by simp)
  | walker here move => exact .keeps rfl (by cases move <;> simp)
  | worker here employed move => exact .keeps rfl (by cases move <;> simp)
  | main move =>
    cases move with
    | finishes here =>
      obtain ⟨log, finish⟩ := finishIs r
      rw [finish]
      exact .keeps rfl (by simp)
    | applies here accepts => exact accepts.stored (by simp [Run.duties, here, Main.duties]) rfl rfl
    | @receives rest w x queue events _ here walks first accepts =>
      have inHand : Duty.report x ∈ r.duties := by
        simp [Run.duties, walks, Walk.duties, first, Message.duty?]
      obtain ⟨same, unreported⟩ | ⟨inHand, reported, only, store, result, collected⟩ | escaped :=
        accepts.stored inHand rfl rfl
      · exact .keeps same (by simpa using unreported)
      · exact .reports inHand (.tail _ reported) (by simpa using only) store result collected
      · exact .escapes escaped
    | _ => exact .keeps rfl (by simp)

/-- No temporary file is left behind: each can be removed, or no write has failed. -/
def Run.Tidy (env : Conditions) (r : Run) : Prop :=
  (∀ path, env.faults.find? .unlink path = none) ∨ ∀ f ∈ r.failures, ∀ unit, ¬ f.OfAccess unit "write"

theorem Run.Tidy.before (tidy : next.Tidy env) (moves : Moves env r events next) : r.Tidy env := by
  refine tidy.imp id fun unwritten f mem => unwritten f ?_
  rw [moves.books.failures]
  exact List.mem_append_left _ mem

structure Shaped (store : Store) (h : History) (r : Run) : Prop where
  shape : r.store.blank = store.blank
  held : ∀ path source, h.Read path source → store.Holds path

theorem Duty.Sourced.holds {store : Store} {h : History} {x : Formatted} (shaped : Shaped store h r)
    (sourced : Duty.Sourced env h (.report x)) : r.store.Holds x.unit := by
  obtain ⟨source, read, -⟩ := sourced
  exact (shaped.held _ _ read).shape shaped.shape.symm

theorem Moves.shaped {store : Store} {h : History} (moves : Moves env r events next) (unique : store.Unique)
    (sourced : Sourced env h r) (shaped : Shaped store h r) (tidy : next.Tidy env) :
    next.Escaped ∨ Shaped store (h ++ events.map (next.turn, ·)) next := by
  have held : ∀ path source, History.Read (h ++ events.map (next.turn, ·)) path source → store.Holds path := by
    rintro path source ⟨turn, mem⟩
    obtain old | new := List.mem_append.mp mem
    · exact shaped.held path source ⟨turn, old⟩
    · obtain ⟨event, mem, same⟩ := List.mem_map.mp new
      cases same
      exact (Store.readHolds (readFileOk (moves.read mem)).2).shape shaped.shape
  obtain ⟨same, -⟩ | ⟨inHand, -, -, same, result, collected⟩ | escaped := moves.stored
  · exact .inr ⟨by rw [same]; exact shaped.shape, held⟩
  · rename_i x failure
    refine .inr ⟨?_, held⟩
    rw [same]
    have holds := (sourced.inHand _ inHand).holds shaped
    cases written : x.isWritten env.settings with
    | false => rw [(Formatted.reportUnwritten env.faults r.store written).2]; exact shaped.shape
    | true =>
      obtain ⟨done, located, kept⟩ | ⟨failed, kept⟩ | ⟨failed, other, -⟩ :=
        Formatted.reportWritten env.faults (unique.shape shaped.shape.symm) holds written
      · rw [kept, Store.rewriteBlank]; exact shaped.shape
      · obtain can | unwritten := tidy
        · rw [kept can]; exact shaped.shape
        · rw [failed] at result
          cases failure with
          | none => cases result
          | some f =>
            cases result
            exact absurd (Formatted.reportFails failed) (unwritten _ (by simp [collected]) x.unit)
      · rw [failed] at result
        cases failure with
        | none => cases result
        | some f => cases result; exact absurd rfl (other f)
  · exact .inl escaped

end

theorem Trace.shaped {env : Conditions} {store : Store} {paths : List String} {canceled : Bool} {h : History} {r : Run}
    (trace : Trace env (Run.begin store paths canceled) h r) (unique : store.Unique)
    (tidy : r.Tidy env) : r.Escaped ∨ Shaped store h r := by
  refine (trace.keeps (P := fun h r => r.Steady ∧ (r.Escaped ∨ Sourced env h r) ∧
      (r.Tidy env → r.Escaped ∨ Shaped store h r))
    ⟨.begin store paths canceled, .inr ⟨by simp [Run.begin], by simp [Run.begin, Run.duties, Main.duties]⟩,
      fun _ => .inr ⟨rfl, fun path source ⟨turn, mem⟩ => absurd mem (List.not_mem_nil)⟩⟩ ?_).2.2 tidy
  rintro h r events next ⟨steady, sourced, shaped⟩ moves
  refine ⟨moves.steady steady, ?_, fun tidy => ?_⟩
  · exact sourced.elim (fun escaped => .inl (escaped.move moves)) fun sourced => moves.sourced steady sourced
  · obtain escaped | sourced := sourced
    · exact .inl (escaped.move moves)
    · obtain escaped | shaped := shaped (tidy.before moves)
      · exact .inl (escaped.move moves)
      · exact moves.shaped unique sourced shaped tidy

theorem Trace.sound {env : Conditions} {store : Store} {paths : List String} {canceled : Bool} {h : History} {r : Run}
    (trace : Trace env (Run.begin store paths canceled) h r) (unique : store.Unique)
    (removes : ∀ path, env.faults.find? .unlink path = none) (unescaped : ¬ r.Escaped) :
    Sourced env h r ∧ Shaped store h r :=
  ⟨trace.sourced.resolve_left unescaped, (trace.shaped unique (.inl removes)).resolve_left unescaped⟩

end ExitSpacing.Batch
