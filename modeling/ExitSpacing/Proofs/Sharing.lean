import ExitSpacing.Proofs.Isolating

/-! Files that several paths lead to. A write comes to the same by each of them. So where what a
file is formatted to is formatted to itself, the file fails under each of its paths as it does at
the start, whether it was written before it is read or not. -/
namespace ExitSpacing

namespace InPlace.Write

def under (w : Write) (path : String) : Write := { w with path }

def Fails (w : Write) : Prop := ∃ trouble, w.stage = .finished (.error trouble)

theorem refuseEarlyFails (w : Write) (effect : Effect) : (w.refuseEarly effect).Fails := by
  cases effect <;> exact ⟨_, rfl⟩

theorem refuseLateUnder (w : Write) (path : String) (temp : Location) (effect : Effect) :
    (w.under path).refuseLate temp effect = (w.refuseLate temp effect).under path := by
  cases effect <;> rfl

section
variable {faults : Faults} {w : Write} {path : String}

theorem stepUnder (faults : Faults) (w : Write) (path : String) :
    (w.under path).step faults = (w.step faults).under path ∨
      (w.step faults).Fails ∧ ((w.under path).step faults).Fails := by
  have same : (w.under path).stage = w.stage ∧ (w.under path).shown = w.shown ∧ (w.under path).store = w.store ∧
      (w.under path).target = w.target ∧ (w.under path).place = w.place := ⟨rfl, rfl, rfl, rfl, rfl⟩
  cases here : w.stage with
  | start =>
    simp only [step, same, here]
    generalize faults.guarded .writeStat w.shown _ = found
    cases found with
    | ok => exact .inl rfl
    | error effect => exact .inr ⟨refuseEarlyFails w effect, refuseEarlyFails (w.under path) effect⟩
  | checked mode =>
    simp only [step, same, here]
    generalize faults.guarded .createTemp w.shown _ = room
    cases room with
    | ok => exact .inl rfl
    | error effect => exact .inr ⟨refuseEarlyFails w effect, refuseEarlyFails (w.under path) effect⟩
  | created mode temp =>
    simp only [step, same, here]
    cases faults.find? .fillTemp w.shown with
    | none => exact .inl rfl
    | some effect => exact .inl (refuseLateUnder w path temp effect)
  | filled mode temp =>
    simp only [step, same, here]
    cases faults.find? .chmod w.shown with
    | none => exact .inl rfl
    | some effect => exact .inl (refuseLateUnder w path temp effect)
  | moded temp =>
    simp only [step, same, here, show (w.under path).moved temp = w.moved temp from rfl]
    generalize faults.guarded .replace w.shown _ = moved
    cases moved with
    | ok => exact .inl rfl
    | error effect => exact .inl (refuseLateUnder w path temp effect)
  | failed temp errno =>
    simp only [step, same, here]
    refine .inr ?_
    split <;> exact ⟨⟨_, rfl⟩, ⟨_, rfl⟩⟩
  | finished result =>
    have rests (w : Write) (here : w.stage = .finished result) : w.step faults = w := by simp only [step, here]
    exact .inl (by rw [rests w here, rests (w.under path) here])

theorem runUnder (faults : Faults) (w : Write) (path : String) :
    ((w.under path).run faults).result = .ok () ↔ (w.run faults).result = .ok () := by
  have failed (ns : List Nat) {w : Write} (fails : w.Fails) : (ns.foldl (fun w _ => w.step faults) w).Fails := by
    obtain ⟨trouble, here⟩ := fails
    rw [List.foldl_fixed' (fun _ => by simp only [step, here])]
    exact ⟨trouble, here⟩
  have all : ∀ (ns : List Nat) (w : Write),
      ns.foldl (fun w _ => w.step faults) (w.under path) = (ns.foldl (fun w _ => w.step faults) w).under path ∨
        (ns.foldl (fun w _ => w.step faults) w).Fails ∧ (ns.foldl (fun w _ => w.step faults) (w.under path)).Fails := by
    intro ns
    induction ns with
    | nil => exact fun w => .inl rfl
    | cons n ns ih =>
      intro w
      rw [List.foldl_cons, List.foldl_cons]
      obtain same | ⟨fails, failsUnder⟩ := stepUnder faults w path
      · rw [same]
        exact ih _
      · exact .inr ⟨failed ns fails, failed ns failsUnder⟩
  obtain same | ⟨⟨t, fails⟩, ⟨t', failsUnder⟩⟩ := all (List.range stepLimit) w
  · rw [run, same]
    rfl
  · simp [run, result, fails, failsUnder]

theorem succeedsUnder {s : Store} {other : String} {target : Location} (located : s.locate path = .ok target)
    (again : s.locate other = .ok target) (plain : Path.hasNull path = false) (plain' : Path.hasNull other = false)
    (a b : Bytes) :
    ((begin s path a).run faults).result = .ok () ↔ ((begin s other b).run faults).result = .ok () := by
  have starts : begin s path b = (begin s other b).under path := by
    simp [begin, under, Store.realPathLocated located, Store.realPathLocated again, plain, plain']
  rw [resultShape faults rfl path a b, starts, runUnder]

end
end InPlace.Write

namespace Store

variable {s t : Store} {path : String}

theorem blankRead (s : Store) (path : String) : s.blank.read path = (s.read path).map fun _ => [] := by
  simp only [read, blankStat, bind, Except.bind]
  cases s.stat path with
  | error => rfl
  | ok item =>
    cases item with
    | file mode content =>
      simp only [Except.map, Item.blank]
      split <;> rfl
    | directory | link => rfl

theorem readShape (same : s.blank = t.blank) :
    ((s.read path).map fun _ => ([] : Bytes)) = (t.read path).map fun _ => [] := by
  rw [← blankRead, same, blankRead]

end Store

namespace Batch

def Event.Recalls (env : Conditions) (store : Store) : Event → Prop
  | .read path _ => ∃ first, env.readOf store path = .ok first
  | .unread path f => env.readOf store path = .error (.failure f)
  | _ => True

def Conditions.Settles (env : Conditions) (source : Bytes) : Prop :=
  ∀ unit x, Run.outcome env unit source = .ok x → ∀ other, ∃ y, Run.outcome env other x.content = .ok y ∧ y.modified = false

/-- What the file at a location may hold: its first bytes, or those of a result of them that was written. -/
def Conditions.Wrote (env : Conditions) (store : Store) (location : Location) (first bytes : Bytes) : Prop :=
  bytes = first ∨ ∃ x, Run.outcome env x.unit first = .ok x ∧ env.lands store x = true ∧
    store.locate x.unit = .ok location ∧ x.content = bytes

structure Shares (env : Conditions) (store : Store) (location : Location) (mode : Nat) (first : Bytes) (h : History)
    (r : Run) : Prop where
  now : ∃ bytes, r.store.find? location = some (.file mode bytes) ∧ env.Wrote store location first bytes
  read : ∀ path source, h.Read path source → store.locate path = .ok location → env.Wrote store location first source

section
variable {env : Conditions} {store : Store} {h : History} {r next : Run} {events : List Event} {path : String}
  {location : Location} {mode : Nat} {first : Bytes}

variable (env) in
theorem readOfShape (shape : r.store.blank = store.blank) (path : String) :
    ((r.readFile env path).map fun _ => ([] : Bytes)) = (env.readOf store path).map fun _ => [] := by
  have same : ((env.faults.guarded .read path (r.store.read path)).map fun _ => ([] : Bytes)) =
      (env.faults.guarded .read path (store.read path)).map fun _ => [] := by
    rw [← InPlace.Write.guardedMap, ← InPlace.Write.guardedMap, Store.readShape shape]
  simp only [Conditions.readOf, Run.readFile, Run.begin]
  generalize env.faults.guarded .read path (r.store.read path) = now at same ⊢
  generalize env.faults.guarded .read path (store.read path) = first at same ⊢
  cases now with
  | ok =>
    cases first with
    | ok => rfl
    | error => cases same
  | error effect =>
    cases first with
    | ok => cases same
    | error => cases same; cases effect <;> rfl

theorem Event.Tells.recalls {event : Event} (tells : event.Tells env r) (shape : r.store.blank = store.blank) :
    event.Recalls env store := by
  have alike := readOfShape env shape
  cases event with
  | read path source =>
    have same := alike path
    rw [show r.readFile env path = .ok source from tells] at same
    cases first : env.readOf store path with
    | ok bytes => exact ⟨bytes, first⟩
    | error => rw [first] at same; cases same
  | unread path f =>
    have same := alike path
    rw [show r.readFile env path = .error (.failure f) from tells] at same
    cases first : env.readOf store path with
    | ok => rw [first] at same; cases same
    | error => rw [first] at same; cases same; exact first
  | _ => trivial

theorem outcomeFormatted (contained : env.faults.Contained) (path : String) (source : Bytes) (x : Formatted) :
    Run.outcome env path source = .ok x ↔ format env.parser env.settings.toBlockRule path source = .ok x := by
  have unfaulted : env.faults.find? .format path = none := by
    by_contra some
    obtain ⟨effect, found⟩ := Option.ne_none_iff_exists'.mp some
    cases contained.caught.found found
  simp only [Run.outcome, Run.formatUnit, unfaulted]
  cases format env.parser env.settings.toBlockRule path source with
  | ok y => simp
  | error trouble => cases trouble <;> simp

theorem outcomeOther (contained : env.faults.Contained) {source : Bytes} {x : Formatted}
    (made : Run.outcome env path source = .ok x) (other : String) : ∃ y, Run.outcome env other source = .ok y := by
  simp only [outcomeFormatted contained] at made ⊢
  have bytes := formatBytes env.parser env.settings.toBlockRule path other source
  cases again : format env.parser env.settings.toBlockRule other source with
  | ok y => exact ⟨y, rfl⟩
  | error => rw [made, again] at bytes; cases bytes

theorem settlesFaithful (contained : env.faults.Contained) {source : Bytes} (faithful : Faithful env.parser source) :
    env.Settles source := by
  intro unit x made other
  simp only [outcomeFormatted contained] at made ⊢
  generalize env.settings.toBlockRule = rule at made ⊢
  have accepted : (env.parser source).hasError = false := by
    cases refused : (env.parser source).hasError with
    | false => rfl
    | true => simp [format, Document.parse, refused, Except.mapError, bind, Except.bind] at made
  have fresh := treeFresh unit source (env.parser source)
  have round := roundOf faithful.laid faithful.located fresh.unmarked rule
  obtain ⟨edits, text⟩ := Document.appliesRound fresh faithful.laid faithful.located rule
  obtain ⟨acceptedText, reparsed⟩ := faithful.rendered unit rule
  obtain ⟨y, ran, content, -⟩ := formatText rule accepted acceptedText
  obtain rfl : y = x := Except.ok.inj (ran.symm.trans made)
  have document : (⟨other, y.content, (env.parser y.content).blocks⟩ : Document) =
      Round.document other source (env.parser source).blocks rule := by
    rw [content, reparsed, edits, text]
    rfl
  have nothing := secondNothing round other (Nat.le_refl rule.blockSize)
  rw [← document] at nothing
  -- An unmodified text is the one that was accepted already.
  have still := Document.unmodifiedText nothing
  obtain ⟨z, again, -, unmodified⟩ := formatText rule (content ▸ acceptedText) (by rw [still]; exact content ▸ acceptedText)
  exact ⟨z, again, unmodified.trans nothing⟩

theorem Moves.reportedInHand (moves : Moves env r events next) (unescaped : ¬ next.Escaped) {x : Formatted}
    (mem : x ∈ events.filterMap Event.reported?) : .report x ∈ r.duties := by
  obtain ⟨event, inside, reported⟩ := List.mem_filterMap.mp mem
  cases event with
  | reported y failure =>
    cases reported
    obtain ⟨-, unreported⟩ | ⟨inHand, -, only, -⟩ | escaped := moves.stored
    · exact absurd inside (unreported x failure)
    · exact (only x failure inside).1 ▸ inHand
    · exact absurd escaped unescaped
  | _ => cases reported

theorem Shares.lands (shares : Shares env store location mode first h r) (settles : env.Settles first) {x : Formatted}
    (sourced : Duty.Sourced env h (.report x)) (located : store.locate x.unit = .ok location)
    (lands : env.lands store x = true) : env.Wrote store location first x.content := by
  obtain ⟨source, read, made⟩ := sourced
  obtain rfl | ⟨y, before, -, -, rfl⟩ := shares.read x.unit source read located
  · exact .inr ⟨x, made, lands, located, rfl⟩
  -- Made of bytes that were written before, it would be unmodified, and then it is not written.
  · obtain ⟨z, again, unmodified⟩ := settles y.unit y before x.unit
    obtain rfl : z = x := Except.ok.inj (again.symm.trans made)
    simp [Conditions.lands, Formatted.isWritten, unmodified] at lands

theorem Shares.move (shares : Shares env store location mode first h r) (moves : Moves env r events next)
    (unique : store.Unique) (removes : ∀ path, env.faults.find? .unlink path = none) (sourced : Sourced env h r)
    (shaped : Shaped store h r) (unescaped : ¬ next.Escaped) (settles : env.Settles first) :
    Shares env store location mode first (h ++ events.map (next.turn, ·)) next := by
  obtain ⟨bytes, held, wrote⟩ := shares.now
  constructor
  · obtain ⟨same, -⟩ | ⟨x, there, reported, -, lands, located, same⟩ := moves.lands unique removes sourced shaped unescaped
    · exact ⟨bytes, same ▸ held, wrote⟩
    · rw [same]
      -- The path of the result may be another one: what counts is whether it leads to this location.
      by_cases here : location = there
      · subst here
        refine ⟨x.content, by rw [Store.rewriteThere, held]; rfl, ?_⟩
        exact shares.lands settles (sourced.inHand _ (moves.reportedInHand unescaped reported)) located lands
      · exact ⟨bytes, by rw [Store.rewriteFind _ _ here, held], wrote⟩
  · rintro path source ⟨turn, mem⟩ located
    obtain old | new := List.mem_append.mp mem
    · exact shares.read path source ⟨turn, old⟩ located
    · obtain ⟨event, inside, same⟩ := List.mem_map.mp new
      cases same
      obtain ⟨there, mode, located', found⟩ := Store.readFinds (readFileOk (moves.read inside)).2
      rw [Store.locateShape shaped.shape] at located'
      obtain rfl := Except.ok.inj (located.symm.trans located')
      cases held.symm.trans found
      exact wrote

end

section
variable {env : Conditions} {store : Store} {paths : List String} {canceled : Bool} {h : History} {r : Run}

theorem Trace.recalls (trace : Trace env (Run.begin store paths canceled) h r) (unique : store.Unique)
    (removes : ∀ path, env.faults.find? .unlink path = none) (unescaped : ¬ r.Escaped) :
    ∀ entry ∈ h, entry.2.Recalls env store := by
  induction trace with
  | start => simp
  | @move h r next move before made ih =>
    have moves := stepMoves made
    have going : ¬ r.Escaped := fun escaped => unescaped (escaped.move moves)
    refine List.forall_mem_append.mpr ⟨ih going, fun entry mem => ?_⟩
    obtain ⟨event, inside, rfl⟩ := List.mem_map.mp mem
    exact (moves.tells event inside).recalls (before.sound unique removes going).2.shape

theorem Trace.shares (trace : Trace env (Run.begin store paths canceled) h r) (unique : store.Unique)
    (removes : ∀ path, env.faults.find? .unlink path = none) (unescaped : ¬ r.Escaped) {location : Location} {mode : Nat}
    {first : Bytes} (held : store.find? location = some (.file mode first)) (settles : env.Settles first) :
    Shares env store location mode first h r := by
  induction trace with
  | start =>
    refine ⟨⟨first, held, .inl rfl⟩, ?_⟩
    rintro path source ⟨turn, mem⟩
    cases mem
  | @move h r next move before made ih =>
    have moves := stepMoves made
    have going : ¬ r.Escaped := fun escaped => unescaped (escaped.move moves)
    obtain ⟨sourced, shaped⟩ := before.sound unique removes going
    exact (ih going).move moves unique removes sourced shaped unescaped settles

end

section
variable {env : Conditions} {store : Store} {paths : List String} {h : History} {r : Run} {path : String}
  {location : Location} {mode : Nat} {first : Bytes}

theorem landsWritten (wellFormed : store.WellFormed) (contained : env.faults.Contained) {x : Formatted}
    (located : store.locate x.unit = .ok location) (held : store.find? location = some (.file mode first))
    (lands : env.lands store x = true) :
    ((InPlace.Write.begin store x.unit x.content).run env.faults).result = .ok () := by
  simp only [Conditions.lands, Bool.and_eq_true, Option.isNone_iff_eq_none] at lands
  obtain ⟨written, unfailing⟩ := lands
  have holds : store.Holds x.unit := ⟨location, mode, first, located, held⟩
  obtain ⟨done, -, -⟩ | ⟨failed, -⟩ | ⟨-, -, cause⟩ := Formatted.reportWritten env.faults wellFormed.unique holds written
  · simpa [Formatted.report, written] using done
  · simp [Conditions.writeFailure, failed] at unfailing
  · obtain escapes | null := cause
    · exact absurd contained.caught escapes
    · rw [holds.plain wellFormed] at null
      cases null

theorem failuresWrote (wellFormed : store.WellFormed) (contained : env.faults.Contained)
    (located : store.locate path = .ok location) (held : store.find? location = some (.file mode first))
    (settles : env.Settles first) {bytes : Bytes} (wrote : env.Wrote store location first bytes) :
    env.failuresFor store path (.ok bytes) = env.failuresFor store path (.ok first) := by
  obtain rfl | ⟨x, made, lands, there, rfl⟩ := wrote
  · rfl
  obtain ⟨y, again⟩ := outcomeOther contained made path
  obtain ⟨z, settled, unmodified⟩ := settles x.unit x made path
  have holds (unit : String) (there : store.locate unit = .ok location) : store.Holds unit :=
    ⟨location, mode, first, there, held⟩
  have done := landsWritten wellFormed contained there held lands
  -- The write that there was went by another path, but to the same place.
  have spared (y : Formatted) (named : y.unit = path) : env.writeFailure store y = none := by
    subst named
    have fine : (y.report env.settings env.faults store).result = .ok () := by
      unfold Formatted.report
      split
      · exact (InPlace.Write.succeedsUnder there located ((holds _ there).plain wellFormed)
          ((holds _ located).plain wellFormed) x.content y.content).mp done
      · rfl
    simp only [Conditions.writeFailure, fine]
  simp [Conditions.failuresFor, again, settled, spared y (outcomeUnit again).1, spared z (outcomeUnit settled).1]

/-- What a run writes does not show in the failures of a file: it writes nothing, or no earlier file of its
list leads to the same place, or formatting the file twice is formatting it once. -/
def Conditions.WritesUnseen (env : Conditions) (store : Store) (units : List String) (path : String) : Prop :=
  env.settings.writes = false ∨ store.Foremost units path ∨
    ∀ mode source, store.stat path = .ok (.file mode source) → env.Settles source

theorem Trace.failsFirst (trace : Trace env (Run.begin store paths false) h r) (wellFormed : store.WellFormed)
    (contained : env.faults.Contained) (quiet : h.Quiet) (unseen : env.WritesUnseen store (paths.flatMap store.units) path)
    {found : Except Failure Bytes} (face : (path, found) ∈ h.faces) :
    env.failuresFor store path found = env.failuresFor store path (env.lookOf store path) := by
  obtain ⟨turn, event, mem, look⟩ := looksFaces quiet face
  rw [Conditions.WritesUnseen, ← or_assoc] at unseen
  obtain apart | settles := unseen
  · rw [trace.looksFirst wellFormed contained.removes quiet.unstopped apart mem look]
  · have unescaped := trace.unescaped quiet.unstopped
    have recalls := trace.recalls wellFormed.unique contained.removes unescaped
    have took {source : Bytes} (task : event.task? = some (path, source)) :
        env.failuresFor store path (.ok source) = env.failuresFor store path (env.lookOf store path) := by
      have read := trace.taskRead unescaped (List.mem_filterMap.mpr ⟨_, mem, task⟩)
      obtain ⟨turn, mem⟩ := id read
      obtain ⟨first, ok⟩ := recalls _ mem
      have atStart : store.read path = .ok first := (readFileOk ok).2
      obtain ⟨location, mode, located, held⟩ := Store.readFinds atStart
      have settled : env.Settles first :=
        settles mode first (by simp [Store.stat, located, bind, Except.bind, Store.itemAt, held])
      have shares := trace.shares wellFormed.unique contained.removes unescaped held settled
      rw [Conditions.lookOf, ok]
      exact failuresWrote wellFormed contained located held settled (shares.read path source read located)
    cases event <;> cases look
    · have failed : env.readOf store path = .error (.failure _) := recalls _ mem
      simp only [Conditions.lookOf, failed]
    · exact took rfl
    · exact took rfl

end
end Batch
end ExitSpacing
