import ExitSpacing.Proofs.Refreshing

/-! What a run comes to is determined by the files that its list stands for. Where nothing is
written, or no two of them lead to one place, each is read as it is at the start: its result,
its failures and its text do not depend on the order of the moves. -/
namespace ExitSpacing

namespace Store

def Apart (s : Store) (a b : String) : Prop := ∀ location, s.locate a = .ok location → s.locate b ≠ .ok location

theorem Apart.symm {s : Store} {a b : String} (apart : s.Apart a b) : s.Apart b a :=
  fun location there here => apart location here there

def Foremost (s : Store) (units : List String) (path : String) : Prop :=
  units.Pairwise fun earlier unit => unit = path → s.Apart earlier unit

theorem foremost {s : Store} {units : List String} (apart : units.Pairwise s.Apart) (path : String) :
    s.Foremost units path := by
  refine apart.imp ?_
  exact fun apart _ => apart

theorem readSame {s t : Store} {path : String} (located : s.locate path = t.locate path)
    (same : ∀ location, t.locate path = .ok location → s.find? location = t.find? location) :
    s.read path = t.read path := by
  simp only [read, stat, located]
  cases there : t.locate path with
  | error => rfl
  | ok location => simp only [bind, Except.bind, itemAt, same location there]

end Store

namespace Batch

section
variable {env : Conditions} {s : Store} {r next : Run} {w walk : Walk} {events : List Event} {failures : List Failure}

theorem Moves.looksAhead (moves : Moves env r events next) (steady : r.Steady) (unescaped : ¬ r.Escaped)
    {event : Event} {path : String} (mem : event ∈ events) (looked : event.looked? = some path) :
    path ∈ r.ahead s := by
  cases moves with
  | cancels => simp_all [Event.looked?]
  | main move =>
    cases move with
    | reads here =>
      simp only [List.mem_cons, List.not_mem_nil, or_false] at mem
      obtain rfl | rfl := mem <;> cases looked
      simp [Run.ahead, here]
    | missesFile here =>
      obtain rfl := List.mem_singleton.mp mem
      cases looked
      simp [Run.ahead, here]
    | applies here accepts => rw [(accepts.looks event mem).1] at looked; cases looked
    | receives here walk first accepts =>
      obtain rfl | mem := List.mem_cons.mp mem
      · cases looked
      · rw [(accepts.looks event mem).1] at looked; cases looked
    | _ => simp_all [Event.looked?]
  | walker here move =>
    obtain ⟨rest, drains⟩ := ((steady.walking _ here).2).resolve_right unescaped
    cases move with
    | reads there | missesFile there => simp_all [Event.looked?, Run.ahead, Walk.ahead]
    | _ => simp_all [Event.looked?]
  | worker here employed move => cases move <;> simp_all [Event.looked?]

end

namespace Conditions

def readOf (env : Conditions) (s : Store) (path : String) : Except Trouble Bytes :=
  (Run.begin s [] false).readFile env path

def writeFailure (env : Conditions) (s : Store) (x : Formatted) : Option Failure :=
  match (x.report env.settings env.faults s).result with
  | .error (.failure f) => some f
  | _ => none

/-- Whether a result changes its file: it is to be written, and the write does not fail. -/
def lands (env : Conditions) (s : Store) (x : Formatted) : Bool :=
  x.isWritten env.settings && (env.writeFailure s x).isNone

theorem readOfSame {env : Conditions} {s : Store} {r : Run} {path : String}
    (same : r.store.read path = s.read path) : r.readFile env path = env.readOf s path := by
  simp only [readOf, Run.readFile, Run.begin, same]

theorem landsShape {env : Conditions} {s t : Store} (same : s.blank = t.blank) (x : Formatted) :
    env.lands s x = env.lands t x := by
  simp only [lands, writeFailure, x.reportShape env.settings env.faults same]

end Conditions

section
variable {env : Conditions} {s store : Store} {h : History} {r next : Run} {events : List Event}

theorem reportLands (removes : ∀ path, env.faults.find? .unlink path = none) (unique : s.Unique) {x : Formatted}
    (holds : s.Holds x.unit) {failure : Option Failure}
    (result : (x.report env.settings env.faults s).result = reportResult failure) :
    (env.lands s x = false ∧ (x.report env.settings env.faults s).store = s) ∨
      env.lands s x = true ∧ ∃ there, s.locate x.unit = .ok there ∧
        (x.report env.settings env.faults s).store = s.rewrite there x.content := by
  cases writes : x.isWritten env.settings with
  | false => exact .inl ⟨by simp [Conditions.lands, writes], (Formatted.reportUnwritten env.faults s writes).2⟩
  | true =>
    obtain ⟨done, located, kept⟩ | ⟨failed, kept⟩ | ⟨failed, other, -⟩ :=
      Formatted.reportWritten env.faults unique holds writes
    · exact .inr ⟨by simp [Conditions.lands, Conditions.writeFailure, writes, done], _, located, kept⟩
    · exact .inl ⟨by simp [Conditions.lands, Conditions.writeFailure, writes, failed], kept removes⟩
    · rw [failed] at result
      cases failure with
      | none => cases result
      | some f => cases result; exact absurd rfl (other f)

theorem Moves.lands (moves : Moves env r events next) (unique : store.Unique)
    (removes : ∀ path, env.faults.find? .unlink path = none) (sourced : Sourced env h r) (shaped : Shaped store h r)
    (unescaped : ¬ next.Escaped) :
    (next.store = r.store ∧ ∀ x ∈ events.filterMap Event.reported?, env.lands store x = false) ∨
      ∃ x there, x ∈ events.filterMap Event.reported? ∧ (∀ y ∈ events.filterMap Event.reported?, y = x) ∧
        env.lands store x = true ∧ store.locate x.unit = .ok there ∧ next.store = r.store.rewrite there x.content := by
  have mentions {y : Formatted} (mem : y ∈ events.filterMap Event.reported?) :
      ∃ failure, .reported y failure ∈ events := by
    obtain ⟨event, inside, reported⟩ := List.mem_filterMap.mp mem
    cases event <;> cases reported
    exact ⟨_, inside⟩
  obtain ⟨same, unreported⟩ | ⟨inHand, reported, only, same, result, -⟩ | escaped := moves.stored
  · refine .inl ⟨same, fun y mem => ?_⟩
    obtain ⟨failure, inside⟩ := mentions mem
    exact absurd inside (unreported y failure)
  · rename_i x failure
    have one : ∀ y ∈ events.filterMap Event.reported?, y = x := by
      intro y mem
      obtain ⟨failure, inside⟩ := mentions mem
      exact (only y failure inside).1
    rw [same]
    obtain ⟨idle, kept⟩ | ⟨lands, there, located, kept⟩ :=
      reportLands removes (unique.shape shaped.shape.symm) ((sourced.inHand _ inHand).holds shaped) result
    · rw [Conditions.landsShape shaped.shape] at idle
      exact .inl ⟨kept, fun y mem => one y mem ▸ idle⟩
    · rw [Conditions.landsShape shaped.shape] at lands
      rw [Store.locateShape shaped.shape] at located
      exact .inr ⟨x, there, List.mem_filterMap.mpr ⟨_, reported, rfl⟩, one, lands, located, kept⟩
  · exact absurd escaped unescaped

end

section
variable {env : Conditions} {store : Store} {paths : List String} {canceled : Bool} {h : History} {r : Run}

theorem Trace.untouched (trace : Trace env (Run.begin store paths canceled) h r) (unique : store.Unique)
    (removes : ∀ path, env.faults.find? .unlink path = none) (unescaped : ¬ r.Escaped) {location : Location}
    (apart : ∀ x ∈ h.reports, store.locate x.unit ≠ .ok location) : r.store.find? location = store.find? location := by
  induction trace with
  | start => rfl
  | @move h r next move before made ih =>
    have moves := stepMoves made
    have going : ¬ r.Escaped := fun escaped => unescaped (escaped.move moves)
    obtain ⟨sourced, shaped⟩ := before.sound unique removes going
    generalize r.events env move = events at moves apart
    simp only [History.reports, List.filterMap_append, List.filterMap_map, List.mem_append] at apart
    have earlier := ih going fun x mem => apart x (.inl mem)
    obtain ⟨same, -⟩ | ⟨x, there, reported, -, -, located, same⟩ := moves.lands unique removes sourced shaped unescaped
    · rw [same, earlier]
    · have differ := apart x (.inr reported)
      rw [same, Store.rewriteFind, earlier]
      rintro rfl
      exact differ located

theorem tasksFaced {task : String × Bytes} (mem : task ∈ h.tasks) : task.1 ∈ h.faced := by
  obtain ⟨entry, inside, found⟩ := List.mem_filterMap.mp mem
  refine List.mem_filterMap.mpr ⟨entry, inside, ?_⟩
  cases event : entry.2 <;> rw [event] at found <;> cases found <;> rfl

theorem Trace.triedFaced (trace : Trace env (Run.begin store paths canceled) h r) (unescaped : ¬ r.Escaped) :
    ∀ task ∈ h.tried, task.1 ∈ h.faced := by
  intro task mem
  refine tasksFaced ?_
  rw [← settledTasks] at mem
  rw [← raisedTasks]
  obtain ⟨duty, settled, same⟩ := List.mem_filterMap.mp mem
  have balance := trace.ledger.balance.resolve_left unescaped
  exact List.mem_filterMap.mpr ⟨duty, balance.subset (List.mem_append_left _ settled), same⟩

theorem Trace.reportedFaced (trace : Trace env (Run.begin store paths canceled) h r) (unescaped : ¬ r.Escaped) :
    ∀ x ∈ h.reports, x.unit ∈ h.faced := by
  intro x reported
  -- Back through the books: what was reported was made, of a task that was tried.
  have made : x ∈ h.made := by
    rw [← settledResults] at reported
    rw [← raisedResults]
    obtain ⟨duty, settled, same⟩ := List.mem_filterMap.mp reported
    have balance := trace.ledger.balance.resolve_left unescaped
    exact List.mem_filterMap.mpr ⟨duty, balance.subset (List.mem_append_left _ settled), same⟩
  rw [trace.ledger.made] at made
  obtain ⟨task, tried, result⟩ := List.mem_filterMap.mp made
  obtain ⟨y, same, -, unit⟩ | ⟨-, failed, -⟩ := eitherOutcome env task
  · obtain rfl : x = y := Option.some.inj (result.symm.trans same)
    rw [unit]
    exact trace.triedFaced unescaped task tried
  · rw [failed] at result
    cases result

theorem Trace.readsFirst (trace : Trace env (Run.begin store paths false) h r) (wellFormed : store.WellFormed)
    (removes : ∀ path, env.faults.find? .unlink path = none) (unstopped : h.Unstopped) {path : String}
    (apart : env.settings.writes = false ∨ store.Foremost (paths.flatMap store.units) path) :
    ∀ entry ∈ h, entry.2.looked? = some path → entry.2.Tells env (Run.begin store [] false) := by
  induction trace with
  | start => simp
  | @move h r next move before made ih =>
    have moves := stepMoves made
    have going : h.Unstopped := fun entry mem => unstopped entry (List.mem_append_left _ mem)
    have unescaped := before.unescaped going
    intro entry mem looked
    obtain old | new := List.mem_append.mp mem
    · exact ih going entry old looked
    · obtain ⟨event, inside, rfl⟩ := List.mem_map.mp new
      have same : r.readFile env path = env.readOf store path := by
        refine Conditions.readOfSame ?_
        obtain writes | apart := apart
        · rw [before.unwritten writes]
        · obtain ⟨-, shaped⟩ := before.sound wellFormed.unique removes unescaped
          have units := (before.surveyed wellFormed (.inl removes) going).units
          have ahead := moves.looksAhead (s := store) before.steady unescaped inside looked
          -- What is read is still ahead, what was written has been faced.
          have split := List.pairwise_append.mp (units ▸ apart : store.Foremost (h.faced ++ r.ahead store) path)
          refine Store.readSame (Store.locateShape shaped.shape path) fun location located => ?_
          refine before.untouched wellFormed.unique removes unescaped fun x reported there => ?_
          exact split.2.2 x.unit (before.reportedFaced unescaped x reported) path ahead rfl location there located
      have tells := moves.tells event inside
      cases event with
      | read =>
        cases looked
        exact same.symm.trans tells
      | unread =>
        cases looked
        exact same.symm.trans tells
      | _ => trivial

theorem Trace.reportsFirst (trace : Trace env (Run.begin store paths canceled) h r) (unique : store.Unique)
    (removes : ∀ path, env.faults.find? .unlink path = none) (unescaped : ¬ r.Escaped) :
    ∀ turn x failure, (turn, .reported x failure) ∈ h →
      (x.report env.settings env.faults store).result = reportResult failure := by
  induction trace with
  | start => simp
  | @move h r next move before made ih =>
    have moves := stepMoves made
    have going : ¬ r.Escaped := fun escaped => unescaped (escaped.move moves)
    have shape := (before.sound unique removes going).2.shape
    intro turn x failure mem
    obtain old | new := List.mem_append.mp mem
    · exact ih going turn x failure old
    · obtain ⟨event, inside, same⟩ := List.mem_map.mp new
      cases same
      obtain ⟨-, unreported⟩ | ⟨-, -, only, -, result, -⟩ | escaped := moves.stored
      · exact absurd inside (unreported x failure)
      · obtain ⟨rfl, rfl⟩ := only x failure inside
        rw [← result]
        exact (x.reportShape env.settings env.faults shape).symm
      · exact absurd escaped unescaped

end

def Event.look? : Event → Option (String × Except Failure Bytes)
  | .handed path source | .kept path source => some (path, .ok source)
  | .unread path f => some (path, .error f)
  | _ => none

def Event.face? : Event → Option (String × Except Failure Bytes)
  | .missing path f => some (path, .error f)
  | event => event.look?

def Event.skipped? : Event → Option String
  | .received (.skipped path) => some path
  | _ => none

namespace History

def faces (h : History) : List (String × Except Failure Bytes) := h.filterMap (·.2.face?)

def skips (h : History) : List String := h.filterMap (·.2.skipped?)

end History

namespace Conditions

def lookOf (env : Conditions) (s : Store) (path : String) : Except Failure Bytes :=
  match env.readOf s path with
  | .ok source => .ok source
  | .error (.failure f) => .error f
  | .error trouble => .error (.other trouble.text)

def resultFor (env : Conditions) (path : String) : Except Failure Bytes → Option Formatted
  | .ok source => resultOf env (path, source)
  | .error _ => none

/-- The failures of a file: it cannot be looked up or read, or not be formatted, or not be written. -/
def failuresFor (env : Conditions) (s : Store) (path : String) : Except Failure Bytes → List Failure
  | .error f => [f]
  | .ok source => match Run.outcome env path source with
    | .error f => [f]
    | .ok x => (env.writeFailure s x).toList

end Conditions

section
variable {env : Conditions} {store : Store} {paths : List String} {canceled : Bool} {h : History} {r : Run}

theorem facesFaced (h : History) : h.faces.map Prod.fst = h.faced := by
  rw [History.faces, History.faced, List.map_filterMap]
  refine List.filterMap_congr fun entry _ => ?_
  cases entry.2 <;> rfl

theorem facesTasks (h : History) :
    h.tasks = h.faces.filterMap fun face => face.2.toOption.map fun source => (face.1, source) := by
  rw [History.faces, History.tasks, List.filterMap_filterMap]
  refine List.filterMap_congr fun entry _ => ?_
  cases entry.2 <;> rfl

theorem facesKnown {find : String → Except Failure Bytes} (known : ∀ face ∈ h.faces, face.2 = find face.1) :
    h.faces = h.faced.map fun path => (path, find path) := by
  rw [← facesFaced, List.map_map]
  exact (List.map_id _).symm.trans (List.map_congr_left fun face mem => Prod.ext rfl (known face mem))

/-- What a run comes to, by what the files that its list stands for are found to be. -/
structure Determined (env : Conditions) (store : Store) (find : String → Except Failure Bytes) (units : List String)
    (h : History) (r : Run) : Prop where
  results : r.results.Perm (units.filterMap fun path => env.resultFor path (find path))
  failures : r.failures.Perm (units.flatMap fun path => env.failuresFor store path (find path))
  printed : r.printed.Perm (r.results.flatMap (fun x => (x.notice env.settings).toList) ++
    h.skips.flatMap fun path => (skipNotice env.settings path).toList)

theorem Trace.taskRead (trace : Trace env (Run.begin store paths canceled) h r) (unescaped : ¬ r.Escaped)
    {path : String} {source : Bytes} (task : (path, source) ∈ h.tasks) : h.Read path source := by
  refine trace.raised unescaped (.format path source) ?_
  rw [← raisedTasks] at task
  obtain ⟨duty, raised, same⟩ := List.mem_filterMap.mp task
  cases duty <;> cases same
  exact raised

theorem Trace.looksFirst (trace : Trace env (Run.begin store paths false) h r) (wellFormed : store.WellFormed)
    (removes : ∀ path, env.faults.find? .unlink path = none) (unstopped : h.Unstopped) {path : String}
    (apart : env.settings.writes = false ∨ store.Foremost (paths.flatMap store.units) path)
    {turn : Nat} {event : Event} {found : Except Failure Bytes} (mem : (turn, event) ∈ h)
    (look : event.look? = some (path, found)) : found = env.lookOf store path := by
  have tells := trace.readsFirst wellFormed removes unstopped apart
  have read {source : Bytes} (took : event.task? = some (path, source)) : env.readOf store path = .ok source := by
    obtain ⟨turn, mem⟩ := trace.taskRead (trace.unescaped unstopped) (List.mem_filterMap.mpr ⟨_, mem, took⟩)
    exact tells _ mem rfl
  cases event <;> cases look
  · have failed : env.readOf store path = .error (.failure _) := tells _ mem rfl
    simp only [Conditions.lookOf, failed]
  · simp only [Conditions.lookOf, read rfl]
  · simp only [Conditions.lookOf, read rfl]

theorem looksFaces (quiet : h.Quiet) {path : String} {found : Except Failure Bytes} (face : (path, found) ∈ h.faces) :
    ∃ turn event, (turn, event) ∈ h ∧ event.look? = some (path, found) := by
  obtain ⟨⟨turn, event⟩, mem, same⟩ := List.mem_filterMap.mp face
  have undisturbed := quiet _ mem
  refine ⟨turn, event, mem, ?_⟩
  cases event with
  | missing => cases undisturbed
  | _ => exact same

def faceFailure : Except Failure Bytes → Option Failure
  | .ok _ => none
  | .error f => some f

theorem Trace.failuresSplit (trace : Trace env (Run.begin store paths canceled) h r) (unique : store.Unique)
    (removes : ∀ path, env.faults.find? .unlink path = none) (unstopped : h.Unstopped) :
    h.failures.Perm (h.tried.filterMap (failureOf env) ++ h.faces.filterMap (fun face => faceFailure face.2) ++
      h.reports.filterMap (env.writeFailure store)) := by
  have result := trace.reportsFirst unique removes (trace.unescaped unstopped)
  -- No event is of two kinds, so each failure falls into one of the three parts.
  have each : ∀ entry ∈ h, entry.2.failure?.toList = (entry.2.tried?.bind (failureOf env)).toList ++
      (entry.2.face?.bind fun face => faceFailure face.2).toList ++
      (entry.2.reported?.bind (env.writeFailure store)).toList := by
    rintro ⟨turn, event⟩ mem
    have going := unstopped _ mem
    have fits := trace.ledger.fits _ mem
    cases event with
    | formatted path source outcome =>
      cases outcome <;> simp [Event.failure?, Event.tried?, Event.face?, Event.look?, Event.reported?, failureOf,
        ← show _ = Run.outcome env path source from fits]
    | reported x failure =>
      have same := result turn x failure mem
      cases failure <;> simp [Event.tried?, Event.face?, Event.look?, Event.failure?, Event.reported?,
        Conditions.writeFailure, same, reportResult]
    | checked asked =>
      cases going
      rfl
    | unlisted | broken | unhanded => cases going
    | _ => rfl
  have whole : h.failures = h.flatMap fun entry => (entry.2.tried?.bind (failureOf env)).toList ++
      (entry.2.face?.bind fun face => faceFailure face.2).toList ++
      (entry.2.reported?.bind (env.writeFailure store)).toList := by
    rw [History.failures, List.filterMap_eq_flatMap_toList]
    exact List.flatMap_congr each
  rw [whole, History.tried, History.faces, History.reports, List.filterMap_filterMap, List.filterMap_filterMap,
    List.filterMap_filterMap, List.filterMap_eq_flatMap_toList, List.filterMap_eq_flatMap_toList,
    List.filterMap_eq_flatMap_toList]
  exact (((List.flatMap_append_perm _ _ _).append_right _).trans (List.flatMap_append_perm _ _ _)).symm

theorem printedSplit (h : History) (settings : Settings) :
    (h.printed settings).Perm (h.reports.flatMap (fun x => (x.notice settings).toList) ++
      h.skips.flatMap fun path => (skipNotice settings path).toList) := by
  have each (entry : Nat × Event) : entry.2.printed settings =
      entry.2.reported?.toList.flatMap (fun x => (x.notice settings).toList) ++
        entry.2.skipped?.toList.flatMap fun path => (skipNotice settings path).toList := by
    cases event : entry.2 with
    | received m => cases m <;> simp [Event.printed, Event.reported?, Event.skipped?]
    | _ => simp [Event.printed, Event.reported?, Event.skipped?]
  simp only [History.printed, each]
  refine (List.flatMap_append_perm _ _ _).symm.trans (.of_eq ?_)
  simp only [History.reports, History.skips, List.filterMap_eq_flatMap_toList, List.flatMap_assoc]

theorem failuresParts (env : Conditions) (s : Store) (path : String) (found : Except Failure Bytes) :
    env.failuresFor s path found = (found.toOption.bind fun source => failureOf env (path, source)).toList ++
      (faceFailure found).toList ++ ((env.resultFor path found).bind (env.writeFailure s)).toList := by
  cases found with
  | error f => simp [Conditions.failuresFor, Conditions.resultFor, faceFailure, Except.toOption]
  | ok source =>
    cases outcome : Run.outcome env path source <;>
      simp [Conditions.failuresFor, Conditions.resultFor, faceFailure, Except.toOption, failureOf, resultOf, outcome]

theorem Trace.resultsFaced (trace : Trace env (Run.begin store paths canceled) h r) (checked : r.Checked) :
    r.results.Perm (h.faces.filterMap fun face => env.resultFor face.1 face.2) := by
  refine (trace.ledger.accounted trace.drained.2 checked).results.trans (.of_eq ?_)
  rw [facesTasks, List.filterMap_filterMap]
  refine List.filterMap_congr fun face _ => ?_
  cases found : face.2 <;> simp [Conditions.resultFor, Except.toOption]

theorem Trace.failuresFaced (trace : Trace env (Run.begin store paths canceled) h r) (unique : store.Unique)
    (removes : ∀ path, env.faults.find? .unlink path = none) (unstopped : h.Unstopped) (checked : r.Checked) :
    r.failures.Perm (h.faces.flatMap fun face => env.failuresFor store face.1 face.2) := by
  have tried : h.tried.Perm h.tasks := by
    have settled := (trace.ledger.settled checked).filterMap Duty.task?
    rwa [settledTasks, raisedTasks] at settled
  have formatting : h.tasks.filterMap (failureOf env) = h.faces.flatMap fun face =>
      (face.2.toOption.bind fun source => failureOf env (face.1, source)).toList := by
    rw [facesTasks, List.filterMap_filterMap, ← List.filterMap_eq_flatMap_toList]
    refine List.filterMap_congr fun face _ => ?_
    cases found : face.2 <;> simp [Except.toOption]
  have writing : (h.reports.filterMap (env.writeFailure store)).Perm
      (h.faces.flatMap fun face => ((env.resultFor face.1 face.2).bind (env.writeFailure store)).toList) := by
    rw [← trace.ledger.results, ← List.filterMap_eq_flatMap_toList, ← List.filterMap_filterMap]
    exact (trace.resultsFaced checked).filterMap _
  rw [trace.ledger.failures]
  refine (trace.failuresSplit unique removes unstopped).trans ?_
  have facing : h.faces.filterMap (fun face => faceFailure face.2) =
      h.faces.flatMap fun face => (faceFailure face.2).toList := List.filterMap_eq_flatMap_toList ..
  rw [facing, funext fun face : String × Except Failure Bytes => failuresParts env store face.1 face.2]
  refine .trans (.append (.append_right _ ((tried.filterMap _).trans (.of_eq formatting))) writing) ?_
  exact ((List.flatMap_append_perm _ _ _).append_right _).trans (List.flatMap_append_perm _ _ _)

theorem Trace.determined (trace : Trace env (Run.begin store paths false) h r) (wellFormed : store.WellFormed)
    (removes : ∀ path, env.faults.find? .unlink path = none) (unstopped : h.Unstopped) (checked : r.Checked)
    {find : String → Except Failure Bytes} (known : ∀ face ∈ h.faces, face.2 = find face.1) :
    Determined env store find (paths.flatMap store.units) h r := by
  have faces : h.faces = (paths.flatMap store.units).map fun path => (path, find path) := by
    have units := (trace.surveyed wellFormed (.inl removes) unstopped).units
    rw [facesKnown known, ← units]
    simp [Run.ahead, checked.ended]
  refine ⟨?_, ?_, ?_⟩
  · have results := trace.resultsFaced checked
    rwa [faces, List.filterMap_map] at results
  · have failures := trace.failuresFaced wellFormed.unique removes unstopped checked
    rwa [faces, List.flatMap_map] at failures
  · rw [trace.ledger.printed, trace.ledger.results]
    exact printedSplit h env.settings

end
end Batch
end ExitSpacing
