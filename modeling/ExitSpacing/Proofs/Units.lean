import ExitSpacing.Proofs.Phases
import ExitSpacing.Proofs.Composition
import ExitSpacing.Proofs.Progress

/-! No unit is lost or counted twice: what a run that came to its final check did with each of
them, whatever the order of its moves, its faults and the moment it was asked to stop. -/
namespace ExitSpacing.Batch

def resultOf (env : Conditions) (task : String × Bytes) : Option Formatted :=
  (Run.outcome env task.1 task.2).toOption

def failureOf (env : Conditions) (task : String × Bytes) : Option Failure :=
  match Run.outcome env task.1 task.2 with
  | .ok _ => none
  | .error f => some f

namespace Event

def isFormatted : Event → Bool
  | .formatted .. => true
  | _ => false

def unread? : Event → Option (String × Failure)
  | .unread path f => some (path, f)
  | _ => none

end Event

namespace History

def unread (h : History) : List (String × Failure) := h.filterMap (·.2.unread?)

def otherFailures (h : History) : List Failure :=
  History.failures (h.filter fun entry => !entry.2.isFormatted && entry.2.unread?.isNone)

end History

/-- What became of the units of a run that came to its final check. -/
structure Accounted (env : Conditions) (h : History) (r : Run) : Prop where
  drained : ∀ turn root, root ∈ h.walks turn → ∃ front, .closed ∉ front ∧ h.sent turn = front ++ [.closed] ∧
    h.received turn = h.sent turn
  reported : h.reports = r.results
  results : r.results.Perm (h.tasks.filterMap (resultOf env))
  failures : r.failures.Perm (h.tasks.filterMap (failureOf env) ++ h.unread.map Prod.snd ++ h.otherFailures)
  either : ∀ task ∈ h.tasks, (∃ x, resultOf env task = some x ∧ failureOf env task = none ∧ x.unit = task.1) ∨
    ∃ f, resultOf env task = none ∧ failureOf env task = some f ∧ f.Names task.1
  unread : ∀ entry ∈ h.unread, entry.2.OfAccess entry.1 "read"

section
variable {env : Conditions} {h : History} {r : Run}

theorem outcomeFailure {path : String} {source : Bytes} {f : Failure} (failed : Run.outcome env path source = .error f) :
    f.OfFormatting path ∨ ∃ message : String, f = .other s!"{path}: {message}" := by
  unfold Run.outcome Run.formatUnit at failed
  cases fault : env.faults.find? .format path with
  | some effect =>
    rw [fault] at failed
    cases effect <;> cases failed <;> exact .inr ⟨_, rfl⟩
  | none =>
    simp only [fault] at failed
    obtain ⟨x, made, -⟩ | ⟨g, failed', of⟩ := formatCases env.parser env.settings.toBlockRule path source
    · rw [made] at failed; cases failed
    · rw [failed'] at failed; cases failed; exact .inl of

theorem outcomeNames {path : String} {source : Bytes} {f : Failure} (failed : Run.outcome env path source = .error f) :
    f.Names path := by
  obtain of | ⟨message, rfl⟩ := outcomeFailure failed
  · exact of.names
  · have colon : ": " = ":" ++ " " := by decide
    refine ⟨" " ++ message, ?_⟩
    simp only [Failure.text, toString, String.append_assoc]
    rw [colon]
    simp only [String.append_assoc]

variable (env) in
theorem eitherOutcome (task : String × Bytes) :
    (∃ x, resultOf env task = some x ∧ failureOf env task = none ∧ x.unit = task.1) ∨
      ∃ f, resultOf env task = none ∧ failureOf env task = some f ∧ f.Names task.1 := by
  cases outcome : Run.outcome env task.1 task.2 with
  | ok x => exact .inl ⟨x, by simp [resultOf, outcome, Except.toOption], by simp [failureOf, outcome], (outcomeUnit outcome).1⟩
  | error f =>
    exact .inr ⟨f, by simp [resultOf, outcome, Except.toOption], by simp [failureOf, outcome], outcomeNames outcome⟩

theorem projected (h : History) {f : Event → List Duty} {g : Duty → Option α} {part : Event → Option α}
    (each : ∀ event, (f event).filterMap g = (part event).toList) :
    (h.flatMap (f ·.2)).filterMap g = h.filterMap (part ·.2) := by
  rw [List.filterMap_flatMap, List.filterMap_eq_flatMap_toList]
  exact List.flatMap_congr fun entry _ => each entry.2

theorem settledTasks (h : History) : h.settled.filterMap Duty.task? = h.tried :=
  projected h fun event => by cases event <;> rfl

theorem settledResults (h : History) : h.settled.filterMap Duty.result? = h.reports :=
  projected h fun event => by cases event <;> rfl

theorem raisedTasks (h : History) : h.raised.filterMap Duty.task? = h.tasks :=
  projected h fun event => by
    cases event with
    | formatted path source outcome => cases outcome <;> rfl
    | _ => rfl

theorem raisedResults (h : History) : h.raised.filterMap Duty.result? = h.made :=
  projected h fun event => by
    cases event with
    | formatted path source outcome => cases outcome <;> rfl
    | _ => rfl

theorem Ledger.made (ledger : Ledger env h r) : h.made = h.tried.filterMap (resultOf env) := by
  rw [History.made, History.tried, List.filterMap_filterMap]
  refine List.filterMap_congr fun entry mem => ?_
  have fits := ledger.fits entry mem
  cases event : entry.2 with
  | formatted path source outcome =>
    rw [event] at fits
    cases outcome <;> simp [Event.made?, Event.tried?, resultOf, ← show _ = Run.outcome env path source from fits,
      Except.toOption]
  | _ => rfl

theorem History.failuresSplit (h : History) (p : Nat × Event → Bool) :
    (failures (h.filter p) ++ failures (h.filter fun entry => !p entry)).Perm h.failures := by
  rw [failures, failures, ← List.filterMap_append]
  exact (List.filter_append_perm p h).filterMap _

theorem Ledger.formatFailures (ledger : Ledger env h r) :
    History.failures (h.filter (·.2.isFormatted)) = h.tried.filterMap (failureOf env) := by
  rw [History.failures, History.tried, List.filterMap_filter, List.filterMap_filterMap]
  refine List.filterMap_congr fun entry mem => ?_
  have fits := ledger.fits entry mem
  cases event : entry.2 with
  | formatted path source outcome =>
    rw [event] at fits
    cases outcome <;> simp [Event.isFormatted, Event.failure?, Event.tried?, failureOf,
      ← show _ = Run.outcome env path source from fits]
  | _ => rfl

theorem History.readFailures (h : History) :
    failures ((h.filter fun entry => !entry.2.isFormatted).filter (·.2.unread?.isSome)) = h.unread.map Prod.snd := by
  rw [failures, unread, List.filterMap_filter, List.filterMap_filter, List.map_filterMap]
  refine List.filterMap_congr fun entry mem => ?_
  cases event : entry.2 <;> rfl

theorem Ledger.failuresSplit (ledger : Ledger env h r) :
    h.failures.Perm (h.tried.filterMap (failureOf env) ++ h.unread.map Prod.snd ++ h.otherFailures) := by
  have first := h.failuresSplit (·.2.isFormatted)
  have second := History.failuresSplit (h.filter fun entry => !entry.2.isFormatted) (·.2.unread?.isSome)
  rw [ledger.formatFailures] at first
  rw [h.readFailures, List.filter_filter] at second
  refine first.symm.trans ?_
  rw [List.append_assoc]
  refine (second.symm.trans (.of_eq ?_)).append_left _
  refine congrArg (_ ++ History.failures ·) (List.filter_congr fun entry _ => ?_)
  rw [Bool.and_comm, Option.not_isSome]

theorem Ledger.settled (ledger : Ledger env h r) (checked : r.Checked) : h.settled.Perm h.raised := by
  obtain ⟨trouble, ended, other⟩ | balance := ledger.balance
  · rw [checked.ended] at ended
    exact absurd (Run.verdictError (Main.ended.inj ended)) (other _)
  · simpa [Run.duties, checked.ended, checked.alone, Main.duties] using balance

theorem Ledger.accounted (ledger : Ledger env h r) (drained : Drained h r) (checked : r.Checked) : Accounted env h r where
  drained turn root mem := by
    obtain ⟨received, ⟨none, -⟩ | ⟨_, front, -, fresh, sent⟩⟩ := drained.ended turn (.inr checked.alone)
    · rw [none] at mem
      cases mem
    · exact ⟨front, fresh, sent, received⟩
  reported := ledger.results.symm
  results := by
    have reports := (ledger.settled checked).filterMap Duty.result?
    have tasks := (ledger.settled checked).filterMap Duty.task?
    rw [settledResults, raisedResults, ledger.made] at reports
    rw [settledTasks, raisedTasks] at tasks
    rw [ledger.results]
    exact reports.trans (tasks.filterMap _)
  failures := by
    have tasks := (ledger.settled checked).filterMap Duty.task?
    rw [settledTasks, raisedTasks] at tasks
    rw [ledger.failures, List.append_assoc]
    refine ledger.failuresSplit.trans ?_
    rw [List.append_assoc]
    exact (tasks.filterMap _).append_right _
  either task _ := eitherOutcome env task
  unread := by
    rintro entry mem
    obtain ⟨⟨turn, event⟩, inside, unread⟩ := List.mem_filterMap.mp mem
    have fits := ledger.fits _ inside
    cases event <;> cases unread
    exact fits

theorem metTasks (none : h.unread = []) : h.met = h.tasks.map Prod.fst := by
  rw [History.met, History.tasks, List.map_filterMap]
  refine List.filterMap_congr fun entry mem => ?_
  have read := List.filterMap_eq_nil_iff.mp none entry mem
  cases event : entry.2 with
  | unread path f =>
    rw [event] at read
    cases read
  | _ => rfl

theorem Accounted.allMade (accounted : Accounted env h r) (none : r.failures = []) :
    h.unread = [] ∧ (r.results.map Formatted.unit).Perm (h.tasks.map Prod.fst) := by
  have parts := accounted.failures
  rw [none, List.nil_perm, List.append_eq_nil_iff, List.append_eq_nil_iff] at parts
  refine ⟨List.map_eq_nil_iff.mp parts.1.2, ?_⟩
  refine (accounted.results.map _).trans (.of_eq ?_)
  rw [List.map_filterMap, ← List.filterMap_eq_map]
  refine List.filterMap_congr fun task mem => ?_
  obtain ⟨x, made, -, unit⟩ | ⟨f, -, failed, -⟩ := accounted.either task mem
  · simp [made, unit]
  · rw [List.filterMap_eq_nil_iff.mp parts.1.1 task mem] at failed
    cases failed

end

section
variable {env : Conditions} {store : Store} {paths : List String} {canceled : Bool} {h : History} {r : Run}

theorem Trace.begunGoing {start : Run} (trace : Trace env start h r) (going : r.canceled = false) :
    start.canceled = false := by
  induction trace with
  | start => exact going
  | move move before made ih => exact ih ((stepMoves made).going going)

theorem Trace.returned (trace : Trace env (Run.begin store paths canceled) h r) (wellFormed : store.WellFormed)
    (ok : r.main = .ended (.ok ())) : r.failures = [] ∧ h.met.Perm (paths.flatMap store.units) := by
  induction trace with
  | start => cases ok
  | @move h r next move before made ih =>
    have steady := before.steady
    have busy {w : Walk} (walk : r.walk = some w) : r.main ≠ .ended (.ok ()) := by
      intro ended
      obtain ⟨rest, drains⟩ | ⟨trouble, escaped, -⟩ := (steady.walking w walk).2
      · cases drains.symm.trans ended
      · cases escaped.symm.trans ended
    have moves := stepMoves made
    generalize r.events env move = events at moves
    cases moves with
    | cancels =>
      rw [History.metAppend]
      simpa [List.filterMap_cons, Event.met?] using ih ok
    | walker here | worker here => exact absurd ok (busy here)
    | main moved =>
      cases moved with
      | @finishes left here last =>
        -- No other move ends a run well, and this one only without a failure or a request to stop.
        obtain ⟨log, finish⟩ := finishIs r
        rw [finish] at ok
        have none := Run.verdictOk (Main.ended.inj ok)
        have going : r.canceled = false := by
          by_contra asked
          rw [Bool.not_eq_false] at asked
          simp [asked] at none
        rw [going] at none
        simp only [Bool.false_eq_true, if_false, List.append_nil] at none
        have unescaped : ¬ r.Escaped := by
          rintro ⟨trouble, escaped, -⟩
          cases here.symm.trans escaped
        have begun : canceled = false := before.begunGoing going
        subst begun
        have quiet := before.quiet (by simp [none]) going unescaped
        have surveyed := (before.surveyed wellFormed (.inr (by simp [none])) quiet.unstopped).units
        rw [quiet.faced] at surveyed
        have finished : left = [] := last.resolve_right (by rw [going]; exact Bool.false_ne_true)
        refine ⟨by rw [finish]; simp [none, going], ?_⟩
        rw [History.metAppend]
        exact .of_eq (by simpa [List.filterMap_cons, Event.met?, Run.ahead, here, finished] using surveyed)
      | applies here accepts => cases accepts <;> cases ok
      | receives here walk first accepts => cases accepts <;> cases ok
      | notes here => cases here.symm.trans ok
      | _ => cases ok

/-- Nothing but the final check ends the run, and then all that was handed out is accounted for. -/
structure Finishes (env : Conditions) (h : History) (r : Run) : Prop where
  ended : ∀ result, r.main = .ended result → r.Checked ∧ Accounted env h r
  ends : ∃ later last, Trace env r later last ∧ last.canceled = r.canceled ∧ last.Checked

theorem Trace.finishes (trace : Trace env (Run.begin store paths canceled) h r) (caught : env.faults.Caught)
    (wellFormed : store.WellFormed) (plain : ∀ path ∈ paths, Path.hasNull path = false) : Finishes env h r where
  ended result ended := by
    have ⟨steady, drained⟩ := trace.drained
    have checked := (steady.ended result ended).resolve_right (trace.caught caught wellFormed plain).1
    exact ⟨checked, trace.ledger.accounted drained checked⟩
  ends := trace.ends caught wellFormed plain

/-- No unit is lost or counted twice. Under faults that are caught where they happen a run over
plain paths comes to its final check. Then the queue of each walk was closed once and drained, each file that was
handed out came to one reported result or one failure that names it, each file that could not
be read came to one failure, and if the run returned, every file that its list stands for has
one result for each time. -/
theorem unitsAccounted (wellFormed : store.WellFormed) (trace : Trace env (Run.begin store paths canceled) h r) :
    (env.faults.Caught → (∀ path ∈ paths, Path.hasNull path = false) →
        (∀ result, r.main = .ended result → r.Checked) ∧
          ∃ later last, Trace env r later last ∧ last.canceled = r.canceled ∧ last.Checked) ∧
      (r.Checked → Accounted env h r ∧
        (r.main = .ended (.ok ()) → (r.results.map Formatted.unit).Perm (paths.flatMap store.units))) := by
  refine ⟨fun caught plain => ?_, fun checked => ?_⟩
  · have finishes := trace.finishes caught wellFormed plain
    exact ⟨fun result ended => (finishes.ended result ended).1, finishes.ends⟩
  · have accounted := trace.ledger.accounted trace.drained.2 checked
    refine ⟨accounted, fun ok => ?_⟩
    obtain ⟨none, met⟩ := trace.returned wellFormed ok
    obtain ⟨read, units⟩ := accounted.allMade none
    rw [metTasks read] at met
    exact units.trans met

end

open Bytes in
def exitSource : Bytes := ofString "func f() \x7b\n\ta()\n\treturn\n\x7d\n"

open Bytes in
def exitSpaced : Bytes := ofString "func f() \x7b\n\ta()\n\n\treturn\n\x7d\n"

def exitBlocks : List Block :=
  [⟨"block", [.statement ⟨⟨0, 0⟩, "expression_statement", .plain, 2, 2, 2, 12, 15⟩,
    .statement ⟨⟨0, 1⟩, "return_statement", .returning, 3, 3, 2, 17, 23⟩]⟩]

theorem formatsAs {parser : Parser} {source spaced : Bytes} {blocks : List Block} {e : Edit} (path : String)
    (accepted : (parser source).hasError = false ∧ (parser spaced).hasError = false)
    (parsed : (parser source).blocks = blocks) (asked : ((gapsOf blocks).filter (Block.asks {})).map (gapEdit source) = [e])
    (window : e.start ≤ e.stop ∧ e.stop ≤ source.length) (text : Edit.joined source [e] source.length = spaced) :
    ∃ x, format parser {} path source = .ok x ∧ x.unit = path ∧ x.content = spaced ∧ x.modified = true := by
  subst parsed
  have applied := Document.appliedAs path rfl (.of_eq asked) ⟨by simpa using window.1, List.pairwise_singleton ..⟩
    (by simpa using window.2)
  rw [text] at applied
  obtain ⟨x, made, content, modified⟩ := formatText {} accepted.1 (by rw [applied.1]; exact accepted.2)
  obtain ⟨y, same, unit, -⟩ | ⟨f, failed, -⟩ := formatCases parser {} path source
  · cases made.symm.trans same
    exact ⟨x, made, unit, content.trans applied.1, modified.trans applied.2⟩
  · cases made.symm.trans failed

theorem exitFormats (path : String) : ∃ x, format Go.parse {} path exitSource = .ok x ∧ x.unit = path ∧
    x.content = exitSpaced ∧ x.modified = true := by
  have accepted : (Go.parse exitSource).hasError = false ∧ (Go.parse exitSpaced).hasError = false := by decide +kernel
  have blocks : (Go.parse exitSource).blocks = exitBlocks := by decide +kernel
  have asked : ((gapsOf exitBlocks).filter (Block.asks {})).map (gapEdit exitSource) = [⟨16, 16, [Bytes.lineFeed]⟩] := by
    decide +kernel
  exact formatsAs path accepted blocks asked (by decide +kernel) (by decide +kernel)

def linkedStore (content : Bytes) : Store where
  items := [(["d"], .directory Store.directoryMode), (["d", "a.go"], .file 0o644 content), (["d", "b.go"], .link "a.go")]

section
variable (content : Bytes)

theorem linkedKeys : (linkedStore content).keys = [[], ["d"], ["d", "a.go"], ["d", "b.go"]] := rfl

theorem linkedWellFormed : (linkedStore content).WellFormed where
  unique := by
    rw [Store.Unique, linkedKeys]
    decide
  named := by
    rw [linkedKeys]
    decide

theorem linkedFinds : (linkedStore content).find? ["d"] = some (.directory Store.directoryMode) ∧
    (linkedStore content).find? ["d", "a.go"] = some (.file 0o644 content) ∧
    (linkedStore content).find? ["d", "b.go"] = some (.link "a.go") := ⟨rfl, rfl, rfl⟩

theorem linkedEntries : (linkedStore content).entry [] "d" = .ok (.directory Store.directoryMode) ∧
    (linkedStore content).entry ["d"] "a.go" = .ok (.file 0o644 content) ∧
    (linkedStore content).entry ["d"] "b.go" = .ok (.link "a.go") := ⟨rfl, rfl, rfl⟩

theorem linkedPlaces : (linkedStore content).locate "d" = .ok ["d"] ∧
    (linkedStore content).locate "d/a.go" = .ok ["d", "a.go"] ∧
    (linkedStore content).locate "d/b.go" = .ok ["d", "a.go"] := by
  have named : Path.isTurn "d" = false ∧ Path.isTurn "a.go" = false ∧ Path.isTurn "b.go" = false := by decide
  have relative : Path.isAbsolute "d" = false ∧ Path.isAbsolute "a.go" = false ∧ Path.isAbsolute "d/a.go" = false ∧
      Path.isAbsolute "d/b.go" = false := by decide
  have splits : Path.split "d" = ["d"] ∧ Path.split "a.go" = ["a.go"] ∧ Path.split "d/a.go" = ["d", "a.go"] ∧
      Path.split "d/b.go" = ["d", "b.go"] := by decide
  have short : "d".utf8ByteSize = 1 ∧ "d/a.go".utf8ByteSize = 6 ∧ "d/b.go".utf8ByteSize = 6 := by decide
  have home : (linkedStore content).home.names = [] := rfl
  simp [Store.locate, Store.origin, Store.follow, Store.pathLimit, Store.linkLimit, linkedEntries, named, relative, splits,
    short, home]

theorem linkedFiles : (linkedStore content).isDirectory "d" = true ∧ (linkedStore content).isFile "d/a.go" = true ∧
    (linkedStore content).isFile "d/b.go" = true ∧ (linkedStore content).read "d/a.go" = .ok content ∧
    (linkedStore content).read "d/b.go" = .ok content := by
  have readable : Store.isReadable 0o644 = true := by decide
  simp [Store.isDirectory, Item.isDirectory, Store.isFile, Store.read, Store.stat, bind, Except.bind, Store.itemAt,
    linkedPlaces, linkedFinds, readable]

theorem linkedListing : (linkedStore content).list "d" = .ok ⟨[], [], ["a.go", "b.go"]⟩ := by
  have names : (linkedStore content).namesBelow ["d"] = ["a.go", "b.go"] := rfl
  have other : (linkedStore content).isDirectory "d/b.go" = false := by
    simp [Store.isDirectory, Item.isDirectory, Store.stat, bind, Except.bind, Store.itemAt, linkedPlaces, linkedFinds]
  have join : Path.join "d" "b.go" = "d/b.go" := by decide
  rw [Store.listFound (linkedPlaces content).1 (linkedFinds content).1 (by decide)]
  simp [Store.listing, Store.isBranch, names, linkedFinds, join, other]

theorem linkedVisit : Visit.ofListing "d" ⟨[], [], ["a.go", "b.go"]⟩ = ⟨[], ["d/a.go", "d/b.go"], []⟩ := by
  have sorted : ascending ["a.go", "b.go"] = ["a.go", "b.go"] := List.mergeSort_of_pairwise (by decide)
  have nothing : ascending [] = [] := List.mergeSort_nil
  simp only [Visit.ofListing, sorted, nothing, List.append_nil]
  decide

theorem directoryWalked : Path.isSkippedDirectory (Path.baseName "d") = false := by decide

theorem linkedUnits : (linkedStore content).units "d" = ["d/a.go", "d/b.go"] := by
  have visits (depth : Nat) : (linkedStore content).visitsTo (depth + 1) "d" = [⟨[], ["d/a.go", "d/b.go"], []⟩] := by
    simp [Store.visitsTo, linkedListing, linkedVisit]
  have once : (linkedStore content).visits "d" = _ := visits 4095
  simp [Store.units, Store.selection, once, linkedFiles, directoryWalked]

end

/-- The first file is at work, and a slot is taken for the second. -/
def bothTaken (slots : Nat) : Walk where
  root := "d"
  walker := .read "d/b.go" [] []
  workers := [{ path := "d/a.go", source := exitSource }]
  joining := [0]
  free := slots - 2

theorem takesBoth {env : Conditions} (rest : List String)
    (unfaulted : ∀ call, call ≠ .start → ∀ path, env.faults.find? call path = none)
    (starts : env.faults.find? .start "d/a.go" = none) (two : env.settings.parallelism = 2) :
    ∃ log, Phase env (Run.begin (linkedStore exitSource) ("d" :: rest) false) ([.main, .main] ++ List.replicate 13 .walker)
      [(1, .opened "d"), (1, .walked "d"), (1, .read "d/a.go" exitSource), (1, .handed "d/a.go" exitSource)]
      [(1, .taken "d/a.go"), (1, .taken "d/b.go")]
      (Run.withWalk { main := .drain rest, log, store := linkedStore exitSource, openings := [⟨"d", 0, 0, 0⟩] }
        (bothTaken env.settings.parallelism)) := by
  obtain ⟨directory, first, second, reads, -⟩ := linkedFiles exitSource
  have plain : Path.hasNull "d" = false := by decide
  have listed : env.faults.guarded .list "d" ((linkedStore exitSource).list "d") = .ok ⟨[], [], ["a.go", "b.go"]⟩ := by
    simp [Faults.guarded, Except.mapError, unfaulted, linkedListing]
  have source : env.faults.guarded .read "d/a.go" ((linkedStore exitSource).read "d/a.go") = .ok exitSource := by
    simp [Faults.guarded, Except.mapError, unfaulted, reads]
  have slots : env.settings.parallelism ≠ 0 ∧ env.settings.parallelism - 1 ≠ 0 := by omega
  have begun : Phase env (Run.begin (linkedStore exitSource) ("d" :: rest) false) _ _ _ _ := .walks rfl rfl plain directory
  have first := (begun.append (.lists rfl rfl rfl directoryWalked listed linkedVisit)).append
    (.takes rfl rfl rfl (unfaulted .isFile (by decide) _) first slots.1)
  have second := ((first.append (.hands rfl source starts)).append (.strikes rfl)).append
    (.takes rfl rfl rfl (unfaulted .isFile (by decide) _) second slots.2)
  exact ⟨_, second⟩

theorem overtaken {env : Conditions} {x y : Formatted} (unfaulted : ∀ call path, env.faults.find? call path = none)
    (two : env.settings.parallelism = 2) (first : Run.formatUnit env "d/a.go" exitSource = .ok x)
    (second : Run.formatUnit env "d/b.go" exitSource = .ok y) {written : Store}
    (overtakes : (y.report env.settings env.faults (linkedStore exitSource)).result = .ok () ∧
      (y.report env.settings env.faults (linkedStore exitSource)).store = written)
    (follows : (x.report env.settings env.faults written).result = .ok ()) :
    ∃ h r, Trace env (Run.begin (linkedStore exitSource) ["d"] false) h r ∧ r.Checked ∧ r.canceled = false ∧
      r.main = .ended (.ok ()) ∧ r.results = [y, x] ∧ r.failures = [] := by
  obtain ⟨fine, rfl⟩ := overtakes
  have source : env.faults.guarded .read "d/b.go" ((linkedStore exitSource).read "d/b.go") = .ok exitSource := by
    simp [Faults.guarded, Except.mapError, unfaulted, linkedFiles]
  obtain ⟨log, taken⟩ := takesBoth [] (fun call _ path => unfaulted call path) (unfaulted .start _) two
  have handed := (taken.append (.hands rfl source (unfaulted .start _))).append (.strikes rfl)
  have waits := (handed.append (.passes rfl)).append (.leaves rfl)
  have overtakes := (waits.append (.works (i := 1) rfl second)).append (.receives rfl rfl fine)
  have follows := (overtakes.append (.works (i := 0) rfl first)).append (.receives rfl rfl follows)
  have done := ((follows.append (.joins rfl rfl)).append (.closes rfl rfl)).append (.finishes rfl rfl)
  exact ⟨_, _, done.trace, ⟨rfl, rfl⟩, rfl, rfl, rfl, rfl⟩

def reporting : Conditions := { settings := { dryRun := true, parallelism := 2 }, parser := Go.parse }

def unreadable : Conditions := { reporting with faults := [⟨.read, none, .system .denied⟩] }

theorem reportsBoth : ∃ h r, Trace reporting (Run.begin (linkedStore exitSource) ["d"] false) h r ∧ r.Checked ∧
    r.canceled = false ∧ r.main = .ended (.ok ()) ∧ r.results.length = 2 ∧ r.failures = [] := by
  obtain ⟨x, first, -⟩ := exitFormats "d/a.go"
  obtain ⟨y, second, -⟩ := exitFormats "d/b.go"
  have kept (z : Formatted) : z.isWritten reporting.settings = false := by simp [Formatted.isWritten, reporting]
  have unwritten (z : Formatted) := Formatted.reportUnwritten reporting.faults (linkedStore exitSource) (kept z)
  have unfaulted (call : Call) (path : String) : reporting.faults.find? call path = none := rfl
  obtain ⟨h, r, trace, checked, going, ended, results, failures⟩ :=
    overtaken unfaulted rfl first second (unwritten y) (unwritten x).1
  exact ⟨h, r, trace, checked, going, ended, by rw [results]; rfl, failures⟩

theorem linkedAccounted :
    (∃ h r, Trace reporting (Run.begin (linkedStore exitSource) ["d"] false) h r ∧ r.main = .ended (.ok ()) ∧
      Accounted reporting h r ∧ (r.results.map Formatted.unit).Perm ["d/a.go", "d/b.go"]) ∧
    ∃ h r, Trace unreadable (Run.begin (linkedStore exitSource) ["d"] false) h r ∧ r.Checked := by
  have wellFormed := linkedWellFormed exitSource
  obtain ⟨h, r, trace, checked, -, ended, -⟩ := reportsBoth
  obtain ⟨accounted, units⟩ := (unitsAccounted wellFormed trace).2 checked
  have units := units ended
  rw [List.flatMap_singleton, linkedUnits] at units
  have caught : unreadable.faults.Caught := by simp [Faults.Caught, unreadable, Fault.isCaught, Fault.isContained]
  have plain : ∀ path ∈ ["d"], Path.hasNull path = false := by decide +kernel
  obtain ⟨-, later, last, more, -, done⟩ := (unitsAccounted wellFormed .start).1 caught plain
  exact ⟨⟨h, r, trace, ended, accounted, units⟩, later, last, more, done⟩

end ExitSpacing.Batch
