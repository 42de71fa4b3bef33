import ExitSpacing.Proofs.Units

/-! The store that a run leaves. A file that several paths lead to may be read before or after
it was written, and be written once or again: where formatting twice is formatting once, it
ends with the bytes that its first ones are formatted to, in every order of moves. -/
namespace ExitSpacing

def Item.refresh (f : Bytes → Bytes) : Item → Item
  | .file mode content => .file mode (f content)
  | item => item

namespace Store

def refresh (s : Store) (f : Bytes → Bytes) (there : List Location) : Store :=
  { s with items := s.items.map fun entry => (entry.1, if entry.1 ∈ there then entry.2.refresh f else entry.2) }

/-- Where the paths of a list, and the files that they stand for, lead. -/
def targets (s : Store) (paths : List String) : List Location :=
  (paths.flatMap s.units).filterMap fun path => (s.locate path).toOption

section
variable {s : Store} {f : Bytes → Bytes} {there : List Location}

theorem refreshNothing : s.refresh f [] = s := by
  simp [refresh]

theorem refreshBlank : (s.refresh f there).blank = s.blank := by
  simp only [refresh, blank, List.map_map, Store.mk.injEq, and_true]
  refine List.map_congr_left fun entry _ => ?_
  simp only [Function.comp_apply]
  split
  · cases entry.2 <;> rfl
  · rfl

theorem refreshFind (location : Location) :
    (s.refresh f there).find? location =
      (s.find? location).map fun item => if location ∈ there then item.refresh f else item :=
  mapFind s (s.refresh f there) (f := fun location item => if location ∈ there then item.refresh f else item) rfl rfl
    (fun _ _ => ite_self _) location

theorem refreshMore (unique : s.Unique) {location : Location} {mode : Nat} {first : Bytes}
    (held : s.find? location = some (.file mode first)) :
    (s.refresh f there).rewrite location (f first) = s.refresh f (location :: there) := by
  simp only [refresh, rewrite, List.map_map, Store.mk.injEq, and_true]
  refine List.map_congr_left fun entry mem => ?_
  simp only [Function.comp_apply, List.mem_cons]
  by_cases here : entry.1 = location
  · rw [unique.only held (List.mem_append_right _ mem) here]
    simp only [beq_self_eq_true, if_true, true_or]
    split <;> rfl
  · simp [here]

theorem refreshSame {a b : List Location}
    (same : ∀ entry ∈ s.items, (entry.1 ∈ a ↔ entry.1 ∈ b) ∨ entry.2.refresh f = entry.2) :
    s.refresh f a = s.refresh f b := by
  simp only [refresh, Store.mk.injEq, and_true]
  refine List.map_congr_left fun entry mem => ?_
  obtain alike | still := same entry mem
  · simp only [alike]
  · simp only [still, ite_self]

end
end Store

def Settings.writes (s : Settings) : Bool := s.write && !s.dryRun

namespace Batch

/-- The bytes that a source is formatted to. A source that is refused stays as it is. -/
def Conditions.refresh (env : Conditions) (source : Bytes) : Bytes :=
  match format env.parser env.settings.toBlockRule "" source with
  | .ok x => x.content
  | .error _ => source

section
variable {env : Conditions} {r next : Run} {events : List Event}

theorem Conditions.refreshCases (env : Conditions) (path : String) (source : Bytes) :
    (∃ x, format env.parser env.settings.toBlockRule path source = .ok x ∧ x.content = env.refresh source) ∨
      ∃ trouble, format env.parser env.settings.toBlockRule path source = .error trouble ∧ env.refresh source = source := by
  have bytes := formatBytes env.parser env.settings.toBlockRule path "" source
  unfold Conditions.refresh
  cases named : format env.parser env.settings.toBlockRule path source <;>
    cases unnamed : format env.parser env.settings.toBlockRule "" source <;> rw [named, unnamed] at bytes
  · exact .inr ⟨_, rfl, rfl⟩
  · cases bytes
  · cases bytes
  · exact .inl ⟨_, rfl, Option.some.inj bytes⟩

theorem refreshed {path : String} {source : Bytes} {x : Formatted} (made : Run.outcome env path source = .ok x) :
    x.content = env.refresh source := by
  unfold Run.outcome Run.formatUnit at made
  cases fault : env.faults.find? .format path with
  | some effect => rw [fault] at made; cases effect <;> cases made
  | none =>
    simp only [fault] at made
    obtain ⟨y, formatted, bytes⟩ | ⟨trouble, formatted, -⟩ := env.refreshCases path source
    · rw [formatted] at made; cases made; exact bytes
    · rw [formatted] at made; cases trouble <;> cases made

theorem unrefreshed {path unit : String} {source : Bytes} {f : Failure} (failed : Run.outcome env path source = .error f)
    (of : f.OfFormatting unit) : env.refresh source = source := by
  unfold Run.outcome Run.formatUnit at failed
  cases fault : env.faults.find? .format path with
  | some effect => rw [fault] at failed; cases effect <;> cases failed <;> cases of
  | none =>
    simp only [fault] at failed
    obtain ⟨y, formatted, -⟩ | ⟨-, -, same⟩ := env.refreshCases path source
    · rw [formatted] at failed; cases failed
    · exact same

/-- The store that a run without failed writes has come to: the files at these locations were
written, and each file that was read was as at the start, or was written before. -/
structure Refreshed (env : Conditions) (store : Store) (h : History) (r : Run) (there : List Location) : Prop where
  now : r.store = store.refresh env.refresh there
  earned : ∀ location ∈ there, ∃ x ∈ h.reports, store.locate x.unit = .ok location
  read : ∀ path source, h.Read path source → ∃ location mode first, store.locate path = .ok location ∧
    store.find? location = some (.file mode first) ∧
      (source = first ∨ location ∈ there ∧ source = env.refresh first)
  written : ∀ x ∈ h.reports, x.isWritten env.settings = true → ∃ location ∈ there, store.locate x.unit = .ok location

theorem Refreshed.reads {store : Store} {h : History} {there : List Location} (state : Refreshed env store h r there)
    {path : String} {source : Bytes} (ok : r.store.read path = .ok source) :
    ∃ location mode first, store.locate path = .ok location ∧ store.find? location = some (.file mode first) ∧
      (source = first ∨ location ∈ there ∧ source = env.refresh first) := by
  obtain ⟨location, mode, located, found⟩ := Store.readFinds ok
  rw [state.now] at located found
  rw [Store.locateShape Store.refreshBlank] at located
  rw [Store.refreshFind] at found
  obtain ⟨item, held, same⟩ := Option.map_eq_some_iff.mp found
  refine ⟨location, mode, ?_⟩
  split at same
  · rename_i there
    cases item <;> cases same
    exact ⟨_, located, held, .inr ⟨there, rfl⟩⟩
  · subst same
    exact ⟨_, located, held, .inl rfl⟩

/-- Formatting twice is formatting once, for the bytes of a store. -/
def Conditions.Idempotent (env : Conditions) (store : Store) : Prop :=
  ∀ location mode source, store.find? location = some (.file mode source) →
    env.refresh (env.refresh source) = env.refresh source

theorem Refreshed.writes {store : Store} {h : History} {there : List Location} (state : Refreshed env store h r there)
    (unique : store.Unique) (idempotent : env.Idempotent store) {x : Formatted}
    (sourced : Duty.Sourced env h (.report x)) {location : Location} (located : r.store.locate x.unit = .ok location) :
    store.locate x.unit = .ok location ∧
      r.store.rewrite location x.content = store.refresh env.refresh (location :: there) := by
  obtain ⟨source, read, made⟩ := sourced
  obtain ⟨place, mode, first, located', held, bytes⟩ := state.read _ _ read
  rw [state.now, Store.locateShape Store.refreshBlank] at located
  obtain rfl : place = location := Except.ok.inj (located'.symm.trans located)
  have content : x.content = env.refresh first := by
    rw [Batch.refreshed made]
    obtain rfl | ⟨-, rfl⟩ := bytes
    · rfl
    · exact idempotent place mode first held
  refine ⟨located, ?_⟩
  rw [state.now, content]
  exact Store.refreshMore unique held

theorem Refreshed.extend {store : Store} {h : History} {there more : List Location} (state : Refreshed env store h r there)
    (moves : Moves env r events next) (subset : there ⊆ more) (now : next.store = store.refresh env.refresh more)
    (earned : ∀ location ∈ more, location ∈ there ∨
      ∃ x failure, .reported x failure ∈ events ∧ store.locate x.unit = .ok location)
    (new : ∀ x failure, .reported x failure ∈ events → x.isWritten env.settings = true →
      ∃ location ∈ more, store.locate x.unit = .ok location) :
    Refreshed env store (h ++ events.map (next.turn, ·)) next more where
  now := now
  earned location mem := by
    simp only [History.reports, List.filterMap_append, List.filterMap_map, List.mem_append]
    obtain old | ⟨x, failure, new, located⟩ := earned location mem
    · obtain ⟨x, mem, located⟩ := state.earned location old
      exact ⟨x, .inl mem, located⟩
    · exact ⟨x, .inr (List.mem_filterMap.mpr ⟨_, new, rfl⟩), located⟩
  read path source read := by
    obtain ⟨turn, mem⟩ := read
    obtain old | new := List.mem_append.mp mem
    · obtain ⟨location, mode, first, located, held, bytes⟩ := state.read path source ⟨turn, old⟩
      exact ⟨location, mode, first, located, held, bytes.imp id (.imp (subset ·) id)⟩
    · obtain ⟨event, inside, same⟩ := List.mem_map.mp new
      cases same
      obtain ⟨location, mode, first, located, held, bytes⟩ := state.reads (readFileOk (moves.read inside)).2
      exact ⟨location, mode, first, located, held, bytes.imp id (.imp (subset ·) id)⟩
  written x mem writes := by
    simp only [History.reports, List.filterMap_append, List.filterMap_map, List.mem_append] at mem
    obtain old | now := mem
    · obtain ⟨location, mem, located⟩ := state.written x old writes
      exact ⟨location, subset mem, located⟩
    · obtain ⟨event, inside, reported⟩ := List.mem_filterMap.mp now
      cases event <;> cases reported
      exact new _ _ inside writes

theorem Moves.refreshed {store : Store} {h : History} {there : List Location} (moves : Moves env r events next)
    (unique : store.Unique) (idempotent : env.Idempotent store) (sourced : Sourced env h r) (unescaped : ¬ next.Escaped)
    (unwritten : ∀ f ∈ next.failures, ∀ unit, ¬ f.OfAccess unit "write") (state : Refreshed env store h r there) :
    ∃ more, Refreshed env store (h ++ events.map (next.turn, ·)) next more := by
  -- A move that writes nothing leaves the locations as they are.
  have still (same : next.store = r.store)
      (new : ∀ x failure, .reported x failure ∈ events → x.isWritten env.settings = false) :
      Refreshed env store (h ++ events.map (next.turn, ·)) next there := by
    refine state.extend moves (List.Subset.refl _) (same.trans state.now) (fun _ => .inl) fun x failure mem writes => ?_
    rw [new x failure mem] at writes
    cases writes
  obtain ⟨same, unreported⟩ | ⟨inHand, reported, only, same, result, collected⟩ | escaped := moves.stored
  · exact ⟨there, still same fun x failure mem => absurd mem (unreported x failure)⟩
  · rename_i x failure
    have made := sourced.inHand _ inHand
    cases writes : x.isWritten env.settings with
    | false =>
      rw [(Formatted.reportUnwritten env.faults r.store writes).2] at same
      exact ⟨there, still same fun y other mem => (only y other mem).1 ▸ writes⟩
    | true =>
      have shape : store.blank = r.store.blank := by rw [state.now, Store.refreshBlank]
      obtain ⟨source, was, -⟩ := id made
      obtain ⟨place, mode, first, located, held, -⟩ := state.read _ _ was
      have holds : r.store.Holds x.unit := Store.Holds.shape ⟨place, mode, first, located, held⟩ shape
      obtain ⟨done, located, kept⟩ | ⟨failed, -⟩ | ⟨failed, other, -⟩ :=
        Formatted.reportWritten env.faults (unique.shape shape) holds writes
      · rename_i location
        obtain ⟨located, bytes⟩ := state.writes unique idempotent made located
        refine ⟨location :: there, state.extend moves (List.subset_cons_self _ _) (by rw [same, kept, bytes]) ?_ ?_⟩
        · intro other mem
          obtain rfl | old := List.mem_cons.mp mem
          · exact .inr ⟨x, failure, reported, located⟩
          · exact .inl old
        · intro y other mem _
          rw [(only y other mem).1]
          exact ⟨location, List.mem_cons_self .., located⟩
      · rw [failed] at result
        cases failure with
        | none => cases result
        | some f =>
          cases result
          exact absurd (Formatted.reportFails failed) (unwritten _ (by simp [collected]) _)
      · rw [failed] at result
        cases failure with
        | none => cases result
        | some f => cases result; exact absurd rfl (other f)
  · exact absurd escaped unescaped

theorem Accepts.unwritten {x : Formatted} {main : Main} (accepts : Accepts env r x main events next)
    (writes : env.settings.writes = false) : next.store = r.store := by
  have unwritten : x.isWritten env.settings = false := by
    simp only [Settings.writes] at writes
    simp only [Formatted.isWritten, Bool.and_assoc, Bool.and_comm (!env.settings.dryRun), writes, Bool.and_false]
  have same := (Formatted.reportUnwritten env.faults r.store unwritten).2
  cases accepts <;> exact same

theorem Moves.unwritten (moves : Moves env r events next) (writes : env.settings.writes = false) :
    next.store = r.store := by
  cases moves with
  | cancels | walker | worker => rfl
  | main move =>
    cases move with
    | finishes here =>
      obtain ⟨log, finish⟩ := finishIs r
      rw [finish]
    | applies here accepts => exact accepts.unwritten writes
    | receives here walk first accepts => exact accepts.unwritten writes
    | _ => rfl

end

section
variable {env : Conditions} {store : Store} {paths : List String} {canceled : Bool} {h : History} {r : Run}

theorem Trace.unwritten (trace : Trace env (Run.begin store paths canceled) h r) (writes : env.settings.writes = false) :
    r.store = store :=
  trace.keeps (P := fun _ r => r.store = store) rfl fun same moves => (moves.unwritten writes).trans same

theorem Trace.refreshed (trace : Trace env (Run.begin store paths canceled) h r) (unique : store.Unique)
    (idempotent : env.Idempotent store) (unescaped : ¬ r.Escaped)
    (unwritten : ∀ f ∈ r.failures, ∀ unit, ¬ f.OfAccess unit "write") : ∃ there, Refreshed env store h r there := by
  induction trace with
  | start => 
    refine ⟨[], Store.refreshNothing.symm, by simp, fun path source ⟨turn, mem⟩ => absurd mem List.not_mem_nil, ?_⟩
    simp [History.reports]
  | @move h r next move before made ih =>
    have moves := stepMoves made
    have going : ¬ r.Escaped := fun escaped => unescaped (escaped.move moves)
    have earlier : ∀ f ∈ r.failures, ∀ unit, ¬ f.OfAccess unit "write" := by
      intro f mem
      refine unwritten f ?_
      rw [moves.books.failures]
      exact List.mem_append_left _ mem
    obtain ⟨there, state⟩ := ih going earlier
    exact moves.refreshed unique idempotent (before.sourced.resolve_left going) unescaped unwritten state

theorem Trace.taken (trace : Trace env (Run.begin store paths canceled) h r) (wellFormed : store.WellFormed)
    (checked : r.Checked) (going : r.canceled = false) (formatting : ∀ f ∈ r.failures, ∃ unit, f.OfFormatting unit) :
    (h.tasks.map Prod.fst).Perm (paths.flatMap store.units) := by
  have ofUnits (f : Failure) (mem : f ∈ r.failures) : f.isOfUnit = true := by
    obtain ⟨unit, of⟩ := formatting f mem
    cases of <;> rfl
  have unread : h.unread = [] := by
    refine List.eq_nil_iff_forall_not_mem.mpr fun entry mem => ?_
    have accounted := trace.ledger.accounted trace.drained.2 checked
    have access := accounted.unread entry mem
    have collected : entry.2 ∈ r.failures :=
      accounted.failures.mem_iff.mpr (List.mem_append_left _ (List.mem_append_right _ (List.mem_map_of_mem mem)))
    obtain ⟨unit, of⟩ := formatting _ collected
    generalize entry.2 = f at access of
    cases access
    cases of
  have begun := trace.begunGoing going
  subst begun
  -- Failures of formatting alone say that nothing kept the run from a file.
  have quiet := trace.quiet ofUnits going checked.unescaped
  have tidy : r.Tidy env := by
    refine .inr fun f mem unit access => ?_
    obtain ⟨other, of⟩ := formatting f mem
    cases access
    cases of
  have units := (trace.surveyed wellFormed tidy quiet.unstopped).units
  rw [quiet.faced, metTasks unread] at units
  exact .of_eq (by simpa [Run.ahead, checked.ended] using units)

theorem Refreshed.reached {there : List Location} (state : Refreshed env store h r there) (accounted : Accounted env h r)
    (taken : (h.tasks.map Prod.fst).Perm (paths.flatMap store.units)) {location : Location} (mem : location ∈ there) :
    location ∈ store.targets paths := by
  obtain ⟨x, reported, located⟩ := state.earned location mem
  rw [accounted.reported] at reported
  obtain ⟨task, took, result⟩ := List.mem_filterMap.mp (accounted.results.subset reported)
  obtain ⟨y, made, -, unit⟩ | ⟨-, failed, -⟩ := accounted.either task took
  · obtain rfl : x = y := Option.some.inj (result.symm.trans made)
    refine List.mem_filterMap.mpr ⟨x.unit, taken.subset ?_, by rw [located]; rfl⟩
    exact unit ▸ List.mem_map_of_mem took
  · rw [failed] at result
    cases result

theorem Refreshed.unwritten {there : List Location} (state : Refreshed env store h r there) (accounted : Accounted env h r)
    (writes : env.settings.writes = true) (formatting : ∀ f ∈ r.failures, ∃ unit, f.OfFormatting unit)
    {path : String} {source : Bytes} (took : (path, source) ∈ h.tasks) (read : h.Read path source) {location : Location}
    (located : store.locate path = .ok location) (apart : location ∉ there) :
    ∃ mode first, store.find? location = some (.file mode first) ∧ env.refresh first = first := by
  obtain ⟨place, mode, first, located', held, bytes⟩ := state.read path source read
  obtain rfl : place = location := Except.ok.inj (located'.symm.trans located)
  -- A location that was not written has only ever been read as it was at the start.
  obtain rfl : source = first := bytes.resolve_right fun written => apart written.1
  refine ⟨mode, source, held, ?_⟩
  cases outcome : Run.outcome env path source with
  | ok x =>
    obtain ⟨rfl, kept⟩ := outcomeUnit outcome
    have result : x ∈ r.results :=
      accounted.results.mem_iff.mpr (List.mem_filterMap.mpr ⟨_, took, by simp [resultOf, outcome, Except.toOption]⟩)
    cases modified : x.modified with
    | false => rw [← refreshed outcome, kept modified]
    | true =>
      have written : x.isWritten env.settings = true := by
        simp only [Settings.writes, Bool.and_eq_true] at writes
        simp [Formatted.isWritten, modified, writes]
      obtain ⟨other, mem, there'⟩ := state.written x (accounted.reported ▸ result) written
      obtain rfl : place = other := Except.ok.inj (located.symm.trans there')
      exact absurd mem apart
  | error f =>
    have failed : f ∈ r.failures := by
      refine accounted.failures.mem_iff.mpr (List.mem_append_left _ (List.mem_append_left _ ?_))
      exact List.mem_filterMap.mpr ⟨_, took, by simp [failureOf, outcome]⟩
    obtain ⟨unit, of⟩ := formatting f failed
    exact unrefreshed outcome of

/-- Where formatting twice is formatting once, the store that a run leaves does not depend on
the order of its moves, not even where several paths lead to one file: undisturbed and without
failures but of formatting, it has changed the bytes of the files that its list stands for to
what their first bytes are formatted to, and nothing else. A run that only reports changes nothing. -/
theorem storeRefreshed (wellFormed : store.WellFormed) (trace : Trace env (Run.begin store paths canceled) h r) :
    (env.settings.writes = false → r.store = store) ∧
      (env.settings.writes = true → r.Checked → r.canceled = false → (∀ f ∈ r.failures, ∃ unit, f.OfFormatting unit) →
        env.Idempotent store → r.store = store.refresh env.refresh (store.targets paths)) := by
  refine ⟨trace.unwritten, fun writes checked going formatting idempotent => ?_⟩
  have unfailed (f : Failure) (mem : f ∈ r.failures) (unit : String) : ¬ f.OfAccess unit "write" := by
    intro access
    obtain ⟨other, of⟩ := formatting f mem
    cases access
    cases of
  obtain ⟨there, state⟩ := trace.refreshed wellFormed.unique idempotent checked.unescaped unfailed
  have taken := trace.taken wellFormed checked going formatting
  have accounted := trace.ledger.accounted trace.drained.2 checked
  rw [state.now]
  refine Store.refreshSame fun entry mem => ?_
  -- Each entry: written in this run; or due to be written and already as it should be; or no target.
  by_cases here : entry.1 ∈ there
  · exact .inl ⟨fun _ => state.reached accounted taken here, fun _ => here⟩
  · by_cases target : entry.1 ∈ store.targets paths
    · obtain ⟨path, unit, place⟩ := List.mem_filterMap.mp target
      obtain ⟨task, took, rfl⟩ := List.mem_map.mp (taken.symm.subset unit)
      have located : store.locate task.1 = .ok entry.1 := by
        cases located : store.locate task.1 <;> rw [located] at place <;> cases place
        rfl
      have read : h.Read task.1 task.2 := by
        refine trace.raised checked.unescaped (.format task.1 task.2) ?_
        rw [← raisedTasks] at took
        obtain ⟨duty, raised, same⟩ := List.mem_filterMap.mp took
        cases duty <;> cases same
        exact raised
      obtain ⟨mode, first, held, same⟩ := state.unwritten accounted writes formatting took read located here
      rw [wellFormed.unique.only held (List.mem_append_right _ mem) rfl]
      exact .inr (by rw [Item.refresh, same])
    · exact .inl ⟨fun mem => absurd mem here, fun mem => absurd mem target⟩

end

def writing : Conditions :=
  { settings := { write := true, parallelism := 2, parallelism_pos := Nat.two_pos }, parser := Go.parse }

theorem writesLinked (content : Bytes) {x : Formatted} (unit : x.unit = "d/a.go" ∨ x.unit = "d/b.go")
    (modified : x.modified = true) :
    (x.report writing.settings writing.faults (linkedStore content)).result = .ok () ∧
      (x.report writing.settings writing.faults (linkedStore content)).store = linkedStore x.content := by
  have plain : Path.hasNull x.unit = false := by
    obtain unit | unit := unit <;> rw [unit] <;> decide +kernel
  have located : (linkedStore content).locate x.unit = .ok ["d", "a.go"] := by
    obtain unit | unit := unit <;> rw [unit]
    · exact (linkedPlaces content).2.1
    · exact (linkedPlaces content).2.2
  have held := (linkedFinds content).2.1
  have roomy : InPlace.room (linkedStore content) (InPlace.tempFor (linkedStore content) ["d", "a.go"]) =
      .ok (InPlace.tempFor (linkedStore content) ["d", "a.go"]) := by
    rw [← InPlace.Write.roomBlank, ← InPlace.Write.tempBlank]
    change InPlace.room (linkedStore []) (InPlace.tempFor (linkedStore []) ["d", "a.go"]) =
      .ok (InPlace.tempFor (linkedStore []) ["d", "a.go"])
    decide +kernel
  have written : x.isWritten writing.settings = true := by simp [Formatted.isWritten, writing, modified]
  have done : (x.report writing.settings writing.faults (linkedStore content)).result = .ok () := by
    have unfaulted (call : Call) : writing.faults.find? call ((linkedStore content).shown ["d", "a.go"]) = none := rfl
    simpa [Formatted.report, written] using InPlace.Write.runSucceeds plain located held roomy x.content unfaulted
  refine ⟨done, ?_⟩
  obtain ⟨-, there, kept⟩ | ⟨failed, -⟩ | ⟨failed, -, -⟩ := Formatted.reportWritten writing.faults
    (linkedWellFormed content).unique ⟨_, _, _, located, held⟩ written
  · obtain rfl := Except.ok.inj (located.symm.trans there)
    exact kept
  · rw [done] at failed; cases failed
  · rw [done] at failed; cases failed

theorem linkedRefresh : writing.refresh exitSource = exitSpaced ∧ writing.refresh exitSpaced = exitSpaced := by
  have accepted : (Go.parse exitSpaced).hasError = false := by decide +kernel
  have applied : ((⟨"", exitSpaced, (Go.parse exitSpaced).blocks⟩ : Document).apply {}).1.text = exitSpaced := by
    decide +kernel
  obtain ⟨x, first, -, content, -⟩ := exitFormats ""
  obtain ⟨y, second, same, -⟩ := formatText {} accepted (applied ▸ accepted)
  have rule : writing.settings.toBlockRule = {} := rfl
  have parser : writing.parser = Go.parse := rfl
  simp [Conditions.refresh, rule, parser, first, second, content, same, applied]

theorem linkedIdempotent : writing.Idempotent (linkedStore exitSource) := by
  intro location mode source held
  have file : source = exitSource := by
    have same : location = ["d", "a.go"] ∧ mode = 0o644 ∧ source = exitSource := by
      simpa [Store.entries, Store.chain, linkedStore, Home.root] using Store.findMem held
    exact same.2.2
  rw [file, linkedRefresh.1, linkedRefresh.2]

theorem linkedRefreshed :
    (∃ h r, Trace reporting (Run.begin (linkedStore exitSource) ["d"] false) h r ∧ r.Checked ∧
      r.store = linkedStore exitSource) ∧
    ∃ h r, Trace writing (Run.begin (linkedStore exitSource) ["d"] false) h r ∧ r.Checked ∧
      r.store = linkedStore exitSpaced := by
  have wellFormed := linkedWellFormed exitSource
  obtain ⟨g, a, reported, aChecked, -⟩ := reportsBoth
  obtain ⟨x, first, xUnit, xContent, xModified⟩ := exitFormats "d/a.go"
  obtain ⟨y, second, yUnit, yContent, yModified⟩ := exitFormats "d/b.go"
  have unfaulted (call : Call) (path : String) : writing.faults.find? call path = none := rfl
  obtain ⟨h, r, trace, checked, going, -, -, none⟩ := overtaken unfaulted rfl first second
    (writesLinked exitSource (.inr yUnit) yModified) (writesLinked _ (.inl xUnit) xModified).1
  have refreshed := (storeRefreshed wellFormed trace).2 rfl checked going (by simp [none]) linkedIdempotent
  have targets : (linkedStore exitSource).targets ["d"] = [["d", "a.go"], ["d", "a.go"]] := by
    simp [Store.targets, linkedUnits, linkedPlaces, Except.toOption]
  refine ⟨⟨g, a, reported, aChecked, (storeRefreshed wellFormed reported).1 rfl⟩, h, r, trace, checked, ?_⟩
  rw [refreshed, targets]
  simp [Store.refresh, linkedStore, Item.refresh, linkedRefresh]

end Batch
end ExitSpacing
