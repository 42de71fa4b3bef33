import ExitSpacing.Proofs.Growing
import ExitSpacing.Proofs.Isolating

/-! A run that only reports foretells what a run that writes comes to. The two read other stores in
the end and make their moves in other orders, but where no two files of the list lead to one place
both make one result of each. A result that is marked as modified differs from its source, so what
would be modified is what changes. -/
namespace ExitSpacing

namespace Batch

section
variable {env : Conditions} {s : Store} {units : List String} {find : String → Except Failure Bytes} {h : History}
  {r : Run}

theorem resultMade {path : String} {found : Except Failure Bytes} {x : Formatted}
    (result : env.resultFor path found = some x) :
    ∃ source, found = .ok source ∧ Run.outcome env path source = .ok x := by
  cases found with
  | error => cases result
  | ok source =>
    refine ⟨source, rfl, ?_⟩
    simp only [Conditions.resultFor, resultOf] at result
    cases outcome : Run.outcome env path source <;> rw [outcome] at result <;> cases result
    rfl

theorem outcomeFormats {path : String} {source : Bytes} {x : Formatted} (made : Run.outcome env path source = .ok x) :
    format env.parser env.settings.toBlockRule path source = .ok x := by
  unfold Run.outcome Run.formatUnit at made
  cases fault : env.faults.find? .format path with
  | some effect => rw [fault] at made; cases effect <;> cases made
  | none =>
    simp only [fault] at made
    split at made
    · rename_i formats
      cases made
      exact formats
    · cases made
    · cases made

theorem dryWrites (dry : env.settings.dryRun = true) (x : Formatted) : env.writeFailure s x = none := by
  have unwritten : x.isWritten env.settings = false := by simp [Formatted.isWritten, dry]
  simp only [Conditions.writeFailure, (Formatted.reportUnwritten env.faults s unwritten).1]

theorem Determined.found (determined : Determined env s find units h r) {x : Formatted} :
    x ∈ r.results ↔ x.unit ∈ units ∧ env.resultFor x.unit (find x.unit) = some x := by
  rw [determined.results.mem_iff, List.mem_filterMap]
  refine ⟨?_, fun ⟨mem, result⟩ => ⟨x.unit, mem, result⟩⟩
  rintro ⟨path, mem, result⟩
  obtain rfl := resultUnit result
  exact ⟨mem, result⟩

theorem Determined.unfailing (determined : Determined env s find units h r)
    (unwritten : ∀ f ∈ r.failures, ∀ unit, ¬ f.OfAccess unit "write") {x : Formatted} (mem : x ∈ r.results) :
    env.failuresFor s x.unit (find x.unit) = [] := by
  obtain ⟨listed, result⟩ := determined.found.mp mem
  obtain ⟨source, found, made⟩ := resultMade result
  cases fails : env.writeFailure s x with
  | none => simp only [Conditions.failuresFor, found, made, fails, Option.toList_none]
  | some f =>
    refine absurd (writeFails fails) (unwritten f (determined.failures.symm.subset ?_) _)
    exact List.mem_flatMap.mpr ⟨x.unit, listed, by simp [Conditions.failuresFor, found, made, fails]⟩

theorem Determined.only (determined : Determined env s find units h r) (apart : units.Pairwise s.Apart)
    (reads : ∀ path source, find path = .ok source → s.read path = .ok source) (unit : String) :
    (r.results.filter fun x => x.unit == unit) =
      (if unit ∈ units then env.resultFor unit (find unit) else none).toList := by
  by_cases mem : unit ∈ units
  · rw [if_pos mem]
    cases result : env.resultFor unit (find unit) with
    | some x =>
      cases found : find unit with
      | error => rw [found] at result; cases result
      | ok source =>
        obtain ⟨there, mode, located, -⟩ := Store.readFinds (reads unit source found)
        exact determined.single (Store.unitOnce apart mem located) result
    | none =>
      refine List.filter_eq_nil_iff.mpr fun x inside same => ?_
      obtain ⟨-, other⟩ := determined.found.mp inside
      rw [eq_of_beq same, result] at other
      cases other
  · rw [if_neg mem]
    exact List.filter_eq_nil_iff.mpr fun x inside same => mem (eq_of_beq same ▸ (determined.found.mp inside).1)

end

section
variable {env : Conditions} {settings : Settings} (rule : settings.toBlockRule = env.settings.toBlockRule)
include rule

theorem outcomeRule (path : String) (source : Bytes) :
    Run.outcome { env with settings } path source = Run.outcome env path source := by
  simp only [Run.outcome, Run.formatUnit, rule]

theorem resultRule (path : String) (found : Except Failure Bytes) :
    Conditions.resultFor { env with settings } path found = env.resultFor path found := by
  cases found with
  | error => rfl
  | ok source => simp only [Conditions.resultFor, resultOf, outcomeRule rule]

theorem failuresWrites {s : Store} {path : String} {found : Except Failure Bytes}
    (writes : settings.writes = env.settings.writes) :
    Conditions.failuresFor { env with settings } s path found = env.failuresFor s path found := by
  have written (x : Formatted) : x.isWritten settings = x.isWritten env.settings := by
    simp only [Settings.writes] at writes
    simp only [Formatted.isWritten, Bool.and_assoc, Bool.and_comm (!_) _, writes]
  cases found with
  | error => rfl
  | ok source =>
    simp only [Conditions.failuresFor, outcomeRule rule, Conditions.writeFailure, Formatted.report, written,
      apply_ite Report.result]

theorem failuresRule {s : Store} {path : String} {found : Except Failure Bytes} (dry : env.settings.dryRun = true)
    (unfailing : (env.resultFor path found).isSome → Conditions.failuresFor { env with settings } s path found = []) :
    Conditions.failuresFor { env with settings } s path found = env.failuresFor s path found := by
  cases found with
  | error => rfl
  | ok source =>
    cases outcome : Run.outcome env path source with
    | error f => simp only [Conditions.failuresFor, outcomeRule rule, outcome]
    | ok x =>
      rw [unfailing (by simp [Conditions.resultFor, resultOf, outcome, Except.toOption])]
      simp only [Conditions.failuresFor, outcome, dryWrites dry, Option.toList_none]

end

def History.Foretells (h : History) (settings : Settings) (unit : String) : Prop :=
  ∃ changes, unit ++ ": would be modified\n" ++ changes ∈ h.told settings unit

inductive SameLog (unit : String) : List String → List String → Prop where
  | changes (changes : String) :
    SameLog unit [unit ++ ": would be modified\n" ++ changes] [unit ++ ": formatted\n" ++ changes]
  | words (texts : List String) : SameLog unit texts texts

theorem noticeForetells {settings : Settings} (dry : settings.dryRun = true) (x : Formatted) :
    (∃ changes, x.unit ++ ": would be modified\n" ++ changes ∈ (x.notice settings).toList) ↔ x.modified = true := by
  simp only [Option.mem_toList, Formatted.notice, dry, if_true]
  cases x.modified with
  | true => exact iff_of_true ⟨_, rfl⟩ rfl
  | false =>
    refine iff_of_false ?_ Bool.false_ne_true
    rintro ⟨changes, said⟩
    simp only [Bool.not_false, if_true] at said
    split at said
    · have words := congrArg String.toList (Option.some.inj said)
      simp [toString, String.toList_append] at words
    · cases said

theorem noticeLogs {reporting writing : Settings} (dry : reporting.dryRun = true) (writes : writing.writes = true)
    (verbose : reporting.verbose = true) (verbosely : writing.verbose = true) (x : Formatted) :
    SameLog x.unit (x.notice reporting).toList (x.notice writing).toList := by
  simp only [Settings.writes, Bool.and_eq_true, Bool.not_eq_true'] at writes
  simp only [Formatted.notice, dry, verbose, verbosely, writes, if_true, Bool.false_eq_true, if_false]
  cases x.modified with
  | true => exact .changes x.details
  | false => exact .words _

/-- What a run that only reports, which comes to `a`, foretells of one that writes, which comes to `b`. -/
structure Foretold (store : Store) (units : List String) (reporting writing : Settings) (g h : History) (a b : Run) :
    Prop where
  unchanged : a.store = store
  units : ∀ unit, g.Foretells reporting unit ↔ unit ∈ units ∧ b.store.read unit ≠ store.read unit
  only : ∀ location, b.store.find? location ≠ store.find? location →
    ∃ unit, g.Foretells reporting unit ∧ store.locate unit = .ok location
  logs : reporting.verbose = true → writing.verbose = true → ∀ unit,
    SameLog unit (g.told reporting unit) (h.told writing unit)
  failures : a.failures.Perm b.failures
  ends : a.main = .ended (.ok ()) ∧ b.main = .ended (.ok ()) ∨
    a.main = .ended (.error (.failure (.batch a.failures))) ∧ b.main = .ended (.error (.failure (.batch b.failures)))

theorem foretells {settings : Settings} (dry : settings.dryRun = true) (h : History) (unit : String) :
    h.Foretells settings unit ↔ ∃ x ∈ h.reports, x.unit = unit ∧ x.modified = true := by
  simp only [History.Foretells, toldReports, List.mem_flatMap, List.mem_filter, beq_iff_eq]
  constructor
  · rintro ⟨changes, x, ⟨mem, rfl⟩, said⟩
    exact ⟨x, mem, rfl, (noticeForetells dry x).mp ⟨changes, said⟩⟩
  · rintro ⟨x, mem, rfl, modified⟩
    obtain ⟨changes, said⟩ := (noticeForetells dry x).mpr modified
    exact ⟨changes, x, ⟨mem, rfl⟩, said⟩

section
variable {env : Conditions} {store : Store} {paths : List String} {canceled : Bool} {h : History} {r : Run}

theorem Trace.changesModified (trace : Trace env (Run.begin store paths canceled) h r) (unique : store.Unique)
    (removes : ∀ path, env.faults.find? .unlink path = none) (unescaped : ¬ r.Escaped)
    (separate : h.reports.Pairwise fun x y => store.Apart x.unit y.unit) {location : Location}
    (differs : r.store.find? location ≠ store.find? location) :
    ∃ x ∈ h.reports, x.modified = true ∧ store.locate x.unit = .ok location := by
  obtain ⟨x, mem, located⟩ : ∃ x ∈ h.reports, store.locate x.unit = .ok location := by
    by_contra none
    exact differs (trace.untouched unique removes unescaped fun x mem located => none ⟨x, mem, located⟩)
  refine ⟨x, mem, ?_, located⟩
  by_contra unmodified
  rw [Bool.not_eq_true] at unmodified
  refine differs ((trace.reportedBytes unique removes unescaped separate x mem location located).trans ?_)
  simp [Conditions.lands, Formatted.isWritten, unmodified]

theorem Trace.modifiedChanges (trace : Trace env (Run.begin store paths false) h r) (wellFormed : store.WellFormed)
    (ofUnits : env.faults.OfUnits) (plain : ∀ path ∈ paths, Path.hasNull path = false)
    (opens : ∀ path ∈ paths, store.Opens path) (apart : (paths.flatMap store.units).Pairwise store.Apart)
    (laid : ∀ unit ∈ paths.flatMap store.units, ∀ source, store.read unit = .ok source →
      (env.parser source).hasError = false → Laid source (env.parser source).blocks)
    (writes : env.settings.writes = true) (checked : r.Checked) (going : r.canceled = false)
    (unwritten : ∀ f ∈ r.failures, ∀ unit, ¬ f.OfAccess unit "write") (unit : String) :
    (∃ x ∈ r.results, x.unit = unit ∧ x.modified = true) ↔
      unit ∈ paths.flatMap store.units ∧ r.store.read unit ≠ store.read unit := by
  have determined := trace.unitsDetermined wellFormed ofUnits plain opens apart checked going
  have reports : h.reports = r.results := trace.ledger.results.symm
  constructor
  · rintro ⟨x, mem, rfl, modified⟩
    have listed := (determined.found.mp mem).1
    obtain ⟨source, y, read, made, one, -, left⟩ :=
      trace.spares wellFormed ofUnits plain opens apart checked going listed (determined.unfailing unwritten mem)
    have alone : x ∈ r.results.filter fun z => z.unit == x.unit := by simp [mem]
    rw [one, List.mem_singleton] at alone
    subst alone
    have written : x.isWritten env.settings = true := by
      simp only [Settings.writes, Bool.and_eq_true] at writes
      simp [Formatted.isWritten, modified, writes]
    refine ⟨listed, fun still => ?_⟩
    rw [left, read, if_pos written] at still
    have formats := outcomeFormats made
    exact (formatChanges formats (laid _ listed source read (formatAccepted formats))).mp modified (Except.ok.inj still)
  · rintro ⟨listed, differs⟩
    obtain ⟨location, located, differ⟩ :
        ∃ location, store.locate unit = .ok location ∧ r.store.find? location ≠ store.find? location := by
      by_contra none
      push Not at none
      exact differs (Store.readSame (Store.locateShape (trace.keepsShape ofUnits.contained wellFormed plain) unit) none)
    obtain ⟨x, mem, modified, there⟩ := trace.changesModified wellFormed.unique ofUnits.contained.removes
      checked.unescaped (reports ▸ determined.separate apart) differ
    rw [reports] at mem
    refine ⟨x, mem, ?_, modified⟩
    -- The place is that of one file of the list only.
    have symm : Std.Symm store.Apart := ⟨fun _ _ apart => apart.symm⟩
    by_contra other
    exact apart.forall (determined.found.mp mem).1 listed other location there located

end

section
variable {env : Conditions} {settings : Settings} {store : Store} {paths : List String} {g h : History} {a b : Run}

/-- A run that only reports foretells one that writes. Both are over one list, in one store where no two
files of the list lead to one place, with settings that have one rule; single units may fail in both to
be looked up or read, and none fails to be written. Either can always go on to its end. -/
theorem reportForetells (wellFormed : store.WellFormed) (plain : ∀ path ∈ paths, Path.hasNull path = false)
    (opens : ∀ path ∈ paths, store.Opens path) (apart : (paths.flatMap store.units).Pairwise store.Apart)
    (ofUnits : env.faults.OfUnits)
    (laid : ∀ unit ∈ paths.flatMap store.units, ∀ source, store.read unit = .ok source →
      (env.parser source).hasError = false → Laid source (env.parser source).blocks)
    (dry : env.settings.dryRun = true) (writes : settings.writes = true)
    (rule : settings.toBlockRule = env.settings.toBlockRule)
    (first : Trace env (Run.begin store paths false) g a)
    (second : Trace { env with settings } (Run.begin store paths false) h b) :
    ((∃ later last, Trace env a later last ∧ last.canceled = a.canceled ∧ last.Checked) ∧
      ∃ later last, Trace { env with settings } b later last ∧ last.canceled = b.canceled ∧ last.Checked) ∧
    ∀ p q, a.main = .ended p → b.main = .ended q → a.canceled = false → b.canceled = false →
      (∀ f ∈ b.failures, ∀ unit, ¬ f.OfAccess unit "write") →
      Foretold store (paths.flatMap store.units) env.settings settings g h a b := by
  have caught := ofUnits.contained.caught
  refine ⟨⟨first.ends caught wellFormed plain, second.ends caught wellFormed plain⟩, ?_⟩
  intro p q aEnded bEnded aGoing bGoing unwritten
  have removes := ofUnits.contained.removes
  have aChecked := (first.steady.ended p aEnded).resolve_right (first.contained ofUnits.contained wellFormed plain).1
  have bChecked := (second.steady.ended q bEnded).resolve_right (second.contained ofUnits.contained wellFormed plain).1
  have aDetermined := first.unitsDetermined wellFormed ofUnits plain opens apart aChecked aGoing
  have bDetermined := second.unitsDetermined wellFormed ofUnits plain opens apart bChecked bGoing
  have faces : Conditions.faceOf { env with settings } store paths = env.faceOf store paths := rfl
  rw [faces] at bDetermined
  have aReports : g.reports = a.results := first.ledger.results.symm
  have bReports : h.reports = b.results := second.ledger.results.symm
  have same {x : Formatted} : x ∈ a.results ↔ x ∈ b.results := by
    rw [aDetermined.found, bDetermined.found, resultRule rule]
  have foretold (unit : String) :
      g.Foretells env.settings unit ↔ ∃ x ∈ b.results, x.unit = unit ∧ x.modified = true := by
    rw [foretells dry, aReports]
    simp only [same]
  -- A file with a result fails in neither run: one does not write, and in the other nothing fails to be written.
  have failures : a.failures.Perm b.failures := by
    refine aDetermined.failures.trans (.trans (.of_eq ?_) bDetermined.failures.symm)
    refine List.flatMap_congr fun path mem => (failuresRule rule dry fun some => ?_).symm
    obtain ⟨x, result⟩ := Option.isSome_iff_exists.mp some
    obtain rfl := resultUnit result
    exact bDetermined.unfailing unwritten (bDetermined.found.mpr ⟨mem, (resultRule rule _ _).trans result⟩)
  refine ⟨first.unwritten (by simp [Settings.writes, dry]), fun unit => ?_, fun location differs => ?_, ?_, failures, ?_⟩
  · rw [foretold]
    exact second.modifiedChanges wellFormed ofUnits plain opens apart laid writes bChecked bGoing unwritten unit
  · obtain ⟨x, mem, modified, located⟩ := second.changesModified wellFormed.unique removes bChecked.unescaped
      (bReports ▸ bDetermined.separate apart) differs
    exact ⟨x.unit, (foretold x.unit).mpr ⟨x, bReports ▸ mem, rfl, modified⟩, located⟩
  · intro verbose verbosely unit
    have reads (path : String) (source : Bytes) (found : env.faceOf store paths path = .ok source) := faceOk found
    rw [toldReports, toldReports, aReports, bReports, aDetermined.only apart reads, bDetermined.only apart reads,
      resultRule rule]
    split
    · cases result : env.resultFor unit (env.faceOf store paths unit) with
      | none => exact .words []
      | some x =>
        obtain rfl := resultUnit result
        simpa using noticeLogs dry writes verbose verbosely x
    · exact .words []
  · rw [aChecked.ended, bChecked.ended, Run.verdict, Run.verdict, ← failures.isEmpty_eq]
    cases a.failures.isEmpty with
    | true => exact .inl ⟨rfl, rfl⟩
    | false => exact .inr ⟨rfl, rfl⟩

end

def previewing : Conditions where
  settings := { dryRun := true, verbose := true, parallelism := 2, parallelism_pos := Nat.two_pos }
  parser := Go.parse

def writingAloud : Settings := { write := true, verbose := true, parallelism := 2, parallelism_pos := Nat.two_pos }

theorem exitLaid : Laid exitSource (Go.parse exitSource).blocks := by
  have blocks : (Go.parse exitSource).blocks = exitBlocks := by decide +kernel
  rw [blocks]
  decide +kernel

theorem pairWrites {name : String} (here : name = "a.go" ∨ name = "b.go") :
    Conditions.failuresAt { previewing with settings := writingAloud } pairStore ["a.go", "b.go"] name = [] := by
  have unfaulted (call : Call) (_ : call ≠ .replace) (_ : call ≠ .unlink) : Faults.find? [] call name = none := rfl
  obtain ⟨x, -, unit, written, fails⟩ := pairFails here unfaulted
  have done := (pairReports here unfaulted unit written).1 rfl rfl
  have quiet : (writingUnder []).failuresAt pairStore ["a.go", "b.go"] name = [] := by
    rw [fails]
    simp only [Conditions.writeFailure, writingUnder, done, Option.toList_none]
  have rule : writingAloud.toBlockRule = (writingUnder []).settings.toBlockRule := rfl
  exact (failuresWrites rule rfl).trans quiet

theorem pairForetold : ∃ g a h b, Trace previewing (Run.begin pairStore ["a.go", "b.go"] false) g a ∧
    Trace { previewing with settings := writingAloud } (Run.begin pairStore ["a.go", "b.go"] false) h b ∧
    Foretold pairStore ["a.go", "b.go"] previewing.settings writingAloud g h a b ∧
    g.Foretells previewing.settings "a.go" ∧ b.store.read "a.go" = .ok exitSpaced := by
  have plain : ∀ path ∈ ["a.go", "b.go"], Path.hasNull path = false := by simp [pairPlain]
  have ofUnits : previewing.faults.OfUnits := by simp [Faults.OfUnits, previewing]
  have laid : ∀ unit ∈ ["a.go", "b.go"].flatMap pairStore.units, ∀ source, pairStore.read unit = .ok source →
      (previewing.parser source).hasError = false → Laid source (previewing.parser source).blocks := by
    rw [pairUnits]
    intro unit mem source read _
    obtain rfl : source = exitSource := by
      obtain rfl | rfl := by simpa using mem
      · exact Except.ok.inj (read.symm.trans pairFiles.2.2.2.2.1)
      · exact Except.ok.inj (read.symm.trans pairFiles.2.2.2.2.2)
    exact exitLaid
  have writes : writingAloud.writes = true := rfl
  have rule : writingAloud.toBlockRule = previewing.settings.toBlockRule := rfl
  have begunA : Trace previewing (Run.begin pairStore ["a.go", "b.go"] false) [] _ := .start
  have begunB : Trace { previewing with settings := writingAloud } (Run.begin pairStore ["a.go", "b.go"] false) [] _ :=
    .start
  obtain ⟨⟨g, a, first, aGoing, aChecked⟩, h, b, second, bGoing, bChecked⟩ :=
    (reportForetells pairWellFormed plain pairOpens pairApart ofUnits laid rfl writes rule begunA begunB).1
  have listed : "a.go" ∈ ["a.go", "b.go"].flatMap pairStore.units := by rw [pairUnits]; simp
  have determined := second.unitsDetermined pairWellFormed ofUnits plain pairOpens pairApart bChecked bGoing
  have none : b.failures = [] := by
    refine (determined.failures.trans (.of_eq (List.flatMap_eq_nil_iff.mpr fun name mem => ?_))).eq_nil
    rw [pairUnits] at mem
    exact pairWrites (by simpa using mem)
  have foretold := (reportForetells pairWellFormed plain pairOpens pairApart ofUnits laid rfl writes rule first second).2 _ _
    aChecked.ended bChecked.ended aGoing bGoing (by simp [none])
  rw [pairUnits] at foretold
  have written : b.store.read "a.go" = .ok exitSpaced := by
    obtain ⟨source, x, read, made, -, -, left⟩ := second.spares pairWellFormed ofUnits plain pairOpens pairApart bChecked bGoing
      listed (pairWrites (.inl rfl))
    obtain rfl := Except.ok.inj (read.symm.trans pairFiles.2.2.2.2.1)
    obtain ⟨y, formats, -, content, modified⟩ := exitFormats "a.go"
    obtain rfl : y = x := Except.ok.inj (formats.symm.trans (outcomeFormats made))
    rw [left, ← content]
    simp [Formatted.isWritten, writingAloud, modified]
  refine ⟨g, a, h, b, first, second, foretold, (foretold.units "a.go").mpr ⟨by simp, ?_⟩, written⟩
  rw [written, pairFiles.2.2.2.2.1]
  exact fun same => absurd (congrArg List.length (Except.ok.inj same)) (by decide +kernel)

end Batch
end ExitSpacing
