import ExitSpacing.Proofs.Facing

/-! One unit's failure does not touch another. Whatever fails for single units, as long as the
temporary files of failed writes can be removed, a run comes to its end, every other file has the
result, the report and the bytes that it has in any other run, and the failure of each file is
named. A temporary file that is found gone when it is to be removed ends no run either. -/
namespace ExitSpacing

namespace Store

section
variable {s t : Store}

theorem Child.shape {directory name : String} {item : Item} (child : s.Child directory name item)
    (same : s.blank = t.blank) : ∃ other, t.Child directory name other ∧ other.isDirectory = item.isDirectory := by
  obtain ⟨location, mode, located, directory, readable, held⟩ := child
  obtain ⟨there, directory, alike⟩ := findShape same directory
  obtain ⟨other, held, alike'⟩ := findShape same held
  have kind := congrArg Item.isDirectory alike'
  rw [Item.blankIsDirectory, Item.blankIsDirectory] at kind
  cases there with
  | file | link => cases alike
  | directory => cases alike; exact ⟨other, ⟨location, mode, locateShape same _ ▸ located, directory, readable, held⟩, kind⟩

theorem Entered.shape {root directory : String} (entered : s.Entered root directory) (same : s.blank = t.blank) :
    t.Entered root directory := by
  induction entered with
  | root => exact .root
  | inner _ child passable ih =>
    obtain ⟨other, child, kind⟩ := child.shape same
    exact ih.inner child ⟨passable.1, kind.trans passable.2⟩

theorem Opens.shape {path : String} (opens : s.Opens path) (same : s.blank = t.blank) : t.Opens path := by
  intro there directory walks
  rw [← listShape same]
  exact opens (isDirectoryShape same path ▸ there) directory ⟨walks.opened, walks.entered.shape same.symm⟩

theorem unitsShape (same : s.blank = t.blank) (path : String) : s.units path = t.units path := by
  have visits (depth : Nat) (path : String) : s.visitsTo depth path = t.visitsTo depth path := by
    induction depth generalizing path with
    | zero => rfl
    | succ depth ih =>
      simp only [visitsTo, listShape same, funext ih]
  have files : s.isFile = t.isFile := funext (isFileShape same)
  simp only [units, selection, Store.visits, visits, files, isDirectoryShape same]

end
end Store

namespace Batch

def History.told (h : History) (settings : Settings) (unit : String) : List String :=
  (h.filter fun entry => entry.2.reported?.any fun x => x.unit == unit).flatMap (·.2.printed settings)

theorem toldReports (h : History) (settings : Settings) (unit : String) :
    h.told settings unit = (h.reports.filter fun x => x.unit == unit).flatMap fun x => (x.notice settings).toList := by
  rw [History.told, History.reports, List.filter_filterMap, List.filterMap_eq_flatMap_toList, List.flatMap_assoc]
  induction h with
  | nil => rfl
  | cons entry h ih =>
    obtain ⟨turn, event⟩ := entry
    rw [List.flatMap_cons, ← ih, List.filter_cons]
    cases event with
    | reported x failure =>
      by_cases same : x.unit = unit <;> simp [Event.reported?, Event.printed, Option.filter, same]
    | _ => simp [Event.reported?]

section
variable {env : Conditions} {s : Store} {units : List String} {h : History} {r : Run}

theorem resultUnit {path : String} {found : Except Failure Bytes} {x : Formatted}
    (result : env.resultFor path found = some x) : x.unit = path := by
  cases found with
  | error => cases result
  | ok source =>
    obtain ⟨y, made, -, unit⟩ | ⟨-, failed, -⟩ := eitherOutcome env (path, source)
    · obtain rfl : x = y := Option.some.inj (result.symm.trans made)
      exact unit
    · cases result.symm.trans failed

theorem Determined.single {find : String → Except Failure Bytes} (determined : Determined env s find units h r)
    {unit : String} (once : units.filter (· == unit) = [unit]) {x : Formatted}
    (result : env.resultFor unit (find unit) = some x) : (r.results.filter fun y => y.unit == unit) = [x] := by
  have each (path : String) : Option.filter (fun y => y.unit == unit) (env.resultFor path (find path)) =
      if path == unit then env.resultFor path (find path) else none := by
    cases made : env.resultFor path (find path) with
    | none => simp
    | some y => cases same : path == unit <;> simp [Option.filter, resultUnit made, same]
  refine ((determined.results.filter _).trans (.of_eq ?_)).eq_singleton
  rw [List.filter_filterMap, funext each, ← List.filterMap_filter, once]
  simp [result]

theorem Determined.separate {find : String → Except Failure Bytes} (determined : Determined env s find units h r)
    (apart : units.Pairwise s.Apart) : r.results.Pairwise fun x y => s.Apart x.unit y.unit := by
  refine (determined.results.pairwise_iff fun apart => apart.symm).mpr (List.pairwise_filterMap.mpr ?_)
  exact apart.imp fun apart x first y second => (resultUnit first).symm ▸ (resultUnit second).symm ▸ apart

theorem spared {path : String} {found : Except Failure Bytes} (none : env.failuresFor s path found = []) :
    ∃ source x, found = .ok source ∧ env.resultFor path found = some x ∧ Run.outcome env path source = .ok x ∧
      env.writeFailure s x = .none := by
  cases found with
  | error f => cases none
  | ok source =>
    cases outcome : Run.outcome env path source with
    | error f => simp [Conditions.failuresFor, outcome] at none
    | ok x =>
      refine ⟨source, x, rfl, by simp [Conditions.resultFor, resultOf, outcome, Except.toOption], outcome, ?_⟩
      simpa [Conditions.failuresFor, outcome] using none

end

section
variable {env : Conditions} {s : Store} {paths : List String} {path : String} {source : Bytes}

theorem faceOk (found : env.faceOf s paths path = .ok source) : s.read path = .ok source := by
  have look : env.lookOf s path = .ok source := by
    unfold Conditions.faceOf at found
    split at found
    · cases found
    · exact found
  unfold Conditions.lookOf at look
  split at look
  · rename_i ok
    cases look
    exact (readFileOk ok).2
  · cases look
  · cases look

/-- What a file of the list fails with: it cannot be looked up or read, or not be formatted, or not be written. -/
def Conditions.failuresAt (env : Conditions) (s : Store) (paths : List String) (path : String) : List Failure :=
  env.failuresFor s path (env.faceOf s paths path)

theorem faceFails (contained : env.faults.Contained) {f : Failure} (failed : env.faceOf s paths path = .error f) :
    f.OfAccess path "stat" ∨ f.OfAccess path "read" := by
  unfold Conditions.faceOf at failed
  split at failed
  · rename_i g missing
    cases failed
    refine .inl ?_
    split at missing
    · unfold Conditions.missing at missing
      split at missing
      · rename_i same
        cases missing
        exact lookUpFails same
      · cases missing
    · cases missing
  · refine .inr ?_
    unfold Conditions.lookOf at failed
    split at failed
    · cases failed
    · rename_i same
      cases failed
      exact readFails same
    · rename_i trouble other same
      obtain ⟨g, rfl⟩ := readFailure contained.caught same
      exact absurd rfl (other g)

theorem writeFails {x : Formatted} {f : Failure} (fails : env.writeFailure s x = some f) : f.OfAccess x.unit "write" := by
  unfold Conditions.writeFailure at fails
  split at fails
  · rename_i failed
    cases fails
    exact Formatted.reportFails failed
  · cases fails

theorem failuresAbout (contained : env.faults.Contained) {found : Except Failure Bytes}
    (unfound : ∀ f, found = .error f → f.unit? = some path) {f : Failure} (mem : f ∈ env.failuresFor s path found) :
    f.unit? = some path := by
  cases found with
  | error g =>
    cases List.mem_singleton.mp mem
    exact unfound f rfl
  | ok source =>
    simp only [Conditions.failuresFor] at mem
    split at mem
    · rename_i g failed
      cases List.mem_singleton.mp mem
      exact (formattingFails contained failed).unit
    · rename_i x made
      obtain ⟨rfl, -⟩ := outcomeUnit made
      exact (writeFails (Option.mem_toList.mp mem)).unit

theorem failuresNamed (contained : env.faults.Contained) {f : Failure} (mem : f ∈ env.failuresAt s paths path) :
    f.Names path := by
  refine Failure.unitNamed (failuresAbout contained (fun f failed => ?_) mem)
  exact (faceFails contained failed).elim Failure.OfAccess.unit Failure.OfAccess.unit

variable (env) in
theorem outcomeUnfaulted (contained : env.faults.Contained) (path : String) (source : Bytes) :
    Run.outcome env path source = Run.outcome { env with faults := [] } path source := by
  cases found : env.faults.find? .format path with
  | some effect =>
    cases contained.caught.found found
  | none =>
    simp only [Run.outcome, Run.formatUnit, found]
    rfl

end

section
variable {env : Conditions} {store : Store} {paths : List String} {canceled : Bool} {h : History} {r : Run}

theorem Trace.reportedBytes (trace : Trace env (Run.begin store paths canceled) h r) (unique : store.Unique)
    (removes : ∀ path, env.faults.find? .unlink path = none) (unescaped : ¬ r.Escaped)
    (apart : h.reports.Pairwise fun x y => store.Apart x.unit y.unit) :
    ∀ x ∈ h.reports, ∀ location, store.locate x.unit = .ok location →
      r.store.find? location =
        (store.find? location).map (if env.lands store x then Store.withContent x.content else id) := by
  induction trace with
  | start => exact fun x mem => absurd mem List.not_mem_nil
  | @move h r next move before made ih =>
    have moves := stepMoves made
    have going : ¬ r.Escaped := fun escaped => unescaped (escaped.move moves)
    obtain ⟨sourced, shaped⟩ := before.sound unique removes going
    generalize r.events env move = events at moves apart
    simp only [History.reports, List.filterMap_append, List.filterMap_map] at apart ⊢
    obtain ⟨early, -, across⟩ := List.pairwise_append.mp apart
    have kept := ih going early
    -- No place is reported twice, so what is reported now has its first bytes still.
    have fresh {x : Formatted} (new : x ∈ events.filterMap Event.reported?) {location : Location}
        (located : store.locate x.unit = .ok location) : r.store.find? location = store.find? location :=
      before.untouched unique removes going fun y old there => across y old x new location there located
    intro x mem location located
    obtain ⟨same, idle⟩ | ⟨y, there, reported, only, lands, place, same⟩ :=
      moves.lands unique removes sourced shaped unescaped
    · rw [same]
      obtain old | new := List.mem_append.mp mem
      · exact kept x old location located
      · rw [fresh new located, idle x new]
        simp
    · rw [same]
      obtain old | new := List.mem_append.mp mem
      · have differ : location ≠ there := by
          rintro rfl
          exact across x old y reported location located place
        rw [Store.rewriteFind _ _ differ]
        exact kept x old location located
      · obtain rfl := only x new
        obtain rfl := Except.ok.inj (located.symm.trans place)
        rw [Store.rewriteThere, fresh new located, if_pos lands]

theorem Trace.spares (trace : Trace env (Run.begin store paths false) h r) (wellFormed : store.WellFormed)
    (ofUnits : env.faults.OfUnits) (plain : ∀ path ∈ paths, Path.hasNull path = false)
    (opens : ∀ path ∈ paths, store.Opens path) (apart : (paths.flatMap store.units).Pairwise store.Apart)
    (checked : r.Checked) (going : r.canceled = false) {unit : String} (mem : unit ∈ paths.flatMap store.units)
    (none : env.failuresAt store paths unit = []) :
    ∃ source x, store.read unit = .ok source ∧ Run.outcome env unit source = .ok x ∧
      (r.results.filter fun y => y.unit == unit) = [x] ∧ h.told env.settings unit = (x.notice env.settings).toList ∧
      r.store.read unit = .ok (if x.isWritten env.settings then x.content else source) := by
  have removes := ofUnits.contained.removes
  have determined := trace.unitsDetermined wellFormed ofUnits plain opens apart checked going
  obtain ⟨source, x, found, result, made, written⟩ := spared none
  have read := faceOk found
  obtain ⟨there, mode, located, held⟩ := Store.readFinds read
  have one := determined.single (Store.unitOnce apart mem located) result
  have reports : h.reports = r.results := trace.ledger.results.symm
  refine ⟨source, x, read, made, one, by rw [toldReports, reports, one]; simp, ?_⟩
  have separate : h.reports.Pairwise fun x y => store.Apart x.unit y.unit := reports ▸ determined.separate apart
  have reported : x ∈ h.reports := by
    have inside : x ∈ r.results.filter fun y => y.unit == unit := by simp [one]
    exact reports ▸ (List.mem_filter.mp inside).1
  obtain ⟨rfl, -⟩ := outcomeUnit made
  have shape := trace.keepsShape ofUnits.contained wellFormed plain
  refine Store.readAnew read (Store.locateShape shape _) fun location place => ?_
  obtain rfl := Except.ok.inj (located.symm.trans place)
  rw [trace.reportedBytes wellFormed.unique removes checked.unescaped separate x reported there located, held]
  cases writes : x.isWritten env.settings <;> simp [Conditions.lands, writes, written, Store.withContent]

end

section
variable {env : Conditions} {faults : Faults} {s t : Store} {paths : List String} {g h : History} {a b : Run}

/-- One unit's failure does not touch another. Two runs over one list are compared, in stores that differ
in the bytes of files only, where no two files of the list lead to one place. Single units may fail in
both: to be looked up, read, formatted or written, but not to have the temporary file of a failed write
removed. The run can always go on to its end, and each file that nothing fails for in either has the
one result, the text and the bytes in both. A file that something fails for is named in the failure that
the run ends in. Where a temporary file is no longer there when it is to be removed, the run still ends
in its final check only, and accounts for every file that it handed out. -/
theorem failuresIsolated (wellFormed : s.WellFormed) (shape : s.blank = t.blank)
    (plain : ∀ path ∈ paths, Path.hasNull path = false) (opens : ∀ path ∈ paths, s.Opens path)
    (apart : (paths.flatMap s.units).Pairwise s.Apart) (failing : env.faults.OfUnits) (other : faults.OfUnits)
    (first : Trace env (Run.begin s paths false) g a)
    (second : Trace { env with faults } (Run.begin t paths false) h b) :
    (∃ later last, Trace env a later last ∧ last.canceled = a.canceled ∧ last.Checked) ∧
      (∀ p q, a.main = .ended p → b.main = .ended q → a.canceled = false → b.canceled = false →
        (∀ unit ∈ paths.flatMap s.units, env.failuresAt s paths unit = [] →
          Conditions.failuresAt { env with faults } t paths unit = [] → s.read unit = t.read unit →
          ∃ x, (a.results.filter fun y => y.unit == unit) = [x] ∧ (b.results.filter fun y => y.unit == unit) = [x] ∧
            g.told env.settings unit = h.told env.settings unit ∧ a.store.read unit = b.store.read unit) ∧
        ∀ unit ∈ paths.flatMap s.units, env.failuresAt s paths unit ≠ [] →
          p = .error (.failure (.batch a.failures)) ∧ ∃ f ∈ a.failures, f.Names unit) ∧
      ∀ caught : Faults, caught.Caught → ∀ canceled h r,
        Trace { env with faults := caught } (Run.begin s paths canceled) h r →
          Finishes { env with faults := caught } h r := by
  have units : paths.flatMap t.units = paths.flatMap s.units :=
    List.flatMap_congr fun path _ => (Store.unitsShape shape path).symm
  have apart' : (paths.flatMap t.units).Pairwise t.Apart := by
    rw [units]
    refine apart.imp fun apart location => ?_
    rw [← Store.locateShape shape, ← Store.locateShape shape]
    exact apart location
  have wellFormed' := wellFormed.shape shape
  have opens' (path : String) (mem : path ∈ paths) : t.Opens path := (opens path mem).shape shape
  refine ⟨first.ends failing.contained.caught wellFormed plain, fun p q aEnded bEnded aGoing bGoing => ?_,
    fun caught held canceled h r trace => trace.finishes held wellFormed plain⟩
  have aChecked := (first.steady.ended p aEnded).resolve_right (first.contained failing.contained wellFormed plain).1
  have bChecked := (second.steady.ended q bEnded).resolve_right (second.contained other.contained wellFormed' plain).1
  refine ⟨fun unit mem here there same => ?_, fun unit mem fails => ?_⟩
  · obtain ⟨source, x, read, made, one, told, left⟩ :=
      first.spares wellFormed failing plain opens apart aChecked aGoing mem here
    obtain ⟨source', y, read', made', one', told', left'⟩ :=
      second.spares wellFormed' other plain opens' apart' bChecked bGoing (units ▸ mem) there
    obtain rfl : source = source' := Except.ok.inj (read.symm.trans (same.trans read'))
    -- The faults differ, but none of them reaches the formatting, so both make one result of one source.
    rw [outcomeUnfaulted env failing.contained] at made
    rw [outcomeUnfaulted { env with faults } other.contained] at made'
    obtain rfl : x = y := Except.ok.inj (made.symm.trans made')
    exact ⟨x, one, one', told.trans told'.symm, left.trans left'.symm⟩
  · obtain ⟨f, inside⟩ := List.exists_mem_of_ne_nil _ fails
    have determined := first.unitsDetermined wellFormed failing plain opens apart aChecked aGoing
    have collected : f ∈ a.failures :=
      determined.failures.symm.subset (List.mem_flatMap.mpr ⟨unit, mem, inside⟩)
    refine ⟨?_, f, collected, failuresNamed failing.contained inside⟩
    obtain rfl := Main.ended.inj (aEnded.symm.trans aChecked.ended)
    cases verdict : Run.verdict a.failures with
    | ok => rw [Run.verdictOk verdict] at collected; cases collected
    | error trouble => rw [Run.verdictError verdict]

end

def pairStore : Store where
  items := [(["a.go"], .file 0o644 exitSource), (["b.go"], .file 0o644 exitSource)]

theorem pairKeys : pairStore.keys = [[], ["a.go"], ["b.go"]] := rfl

theorem pairWellFormed : pairStore.WellFormed where
  unique := by
    rw [Store.Unique, pairKeys]
    decide
  named := by
    rw [pairKeys]
    decide

theorem pairFinds : pairStore.find? ["a.go"] = some (.file 0o644 exitSource) ∧
    pairStore.find? ["b.go"] = some (.file 0o644 exitSource) := ⟨rfl, rfl⟩

theorem pairPlaces : pairStore.locate "a.go" = .ok ["a.go"] ∧ pairStore.locate "b.go" = .ok ["b.go"] := by
  have entries : pairStore.entry [] "a.go" = .ok (.file 0o644 exitSource) ∧
      pairStore.entry [] "b.go" = .ok (.file 0o644 exitSource) := ⟨rfl, rfl⟩
  have named : Path.isTurn "a.go" = false ∧ Path.isTurn "b.go" = false := by decide
  have relative : Path.isAbsolute "a.go" = false ∧ Path.isAbsolute "b.go" = false := by decide
  have splits : Path.split "a.go" = ["a.go"] ∧ Path.split "b.go" = ["b.go"] := by decide
  have short : "a.go".utf8ByteSize = 4 ∧ "b.go".utf8ByteSize = 4 := by decide
  have home : pairStore.home.names = [] := rfl
  simp [Store.locate, Store.origin, Store.follow, Store.pathLimit, Store.linkLimit, entries, named, relative, splits, short,
    home]

theorem pairFiles : pairStore.stat "a.go" = .ok (.file 0o644 exitSource) ∧
    pairStore.stat "b.go" = .ok (.file 0o644 exitSource) ∧ pairStore.isDirectory "a.go" = false ∧
    pairStore.isDirectory "b.go" = false ∧ pairStore.read "a.go" = .ok exitSource ∧
    pairStore.read "b.go" = .ok exitSource := by
  have readable : Store.isReadable 0o644 = true := by decide
  simp [Store.isDirectory, Item.isDirectory, Store.read, Store.stat, bind, Except.bind, Store.itemAt, pairPlaces,
    pairFinds, readable]

theorem pairPlain : Path.hasNull "a.go" = false ∧ Path.hasNull "b.go" = false := by decide

theorem pairUnits : ["a.go", "b.go"].flatMap pairStore.units = ["a.go", "b.go"] := by
  simp [Store.units, pairFiles]

theorem pairApart : (["a.go", "b.go"].flatMap pairStore.units).Pairwise pairStore.Apart := by
  rw [pairUnits]
  simp [Store.Apart, pairPlaces]

theorem pairOpens : ∀ path ∈ ["a.go", "b.go"], pairStore.Opens path := by
  simp [Store.Opens, pairFiles]

def writingUnder (faults : Faults) : Conditions := { writing with faults }

section
variable {faults : Faults} {name : String} (here : name = "a.go" ∨ name = "b.go")
  (unfaulted : ∀ call, call ≠ .replace → call ≠ .unlink → faults.find? call name = none)
include here unfaulted

theorem pairFails : ∃ x, Run.formatUnit (writingUnder faults) name exitSource = .ok x ∧ x.unit = name ∧
    x.isWritten writing.settings = true ∧
    (writingUnder faults).failuresAt pairStore ["a.go", "b.go"] name =
      ((writingUnder faults).writeFailure pairStore x).toList := by
  obtain ⟨x, made, unit, -, modified⟩ := exitFormats name
  have free : faults.find? .stat name = none ∧ faults.find? .read name = none ∧ faults.find? .format name = none := by
    refine ⟨unfaulted _ ?_ ?_, unfaulted _ ?_ ?_, unfaulted _ ?_ ?_⟩ <;> decide
  have formats : Run.formatUnit (writingUnder faults) name exitSource = .ok x := by
    have rule : writing.settings.toBlockRule = {} := rfl
    have parser : writing.parser = Go.parse := rfl
    simp [writingUnder, Run.formatUnit, free, rule, parser, made]
  have face : (writingUnder faults).faceOf pairStore ["a.go", "b.go"] name = .ok exitSource := by
    obtain rfl | rfl := here <;>
      simp [writingUnder, Conditions.faceOf, Conditions.missing, Conditions.lookOf, Conditions.readOf, Run.lookUp,
        Run.readFile, Faults.guarded, Run.begin, free, pairPlain, pairFiles, Except.mapError]
  refine ⟨x, formats, unit, by simp [Formatted.isWritten, writing, modified], ?_⟩
  simp only [Conditions.failuresAt, Conditions.failuresFor, face, outcomeOk formats]

theorem pairReports {x : Formatted} (unit : x.unit = name) (written : x.isWritten writing.settings = true) :
    (faults.find? .replace name = none → faults.find? .unlink name = none →
      (x.report writing.settings faults pairStore).result = .ok ()) ∧
    ∀ errno, faults.find? .replace name = some (.system errno) →
      (x.report writing.settings faults pairStore).result = match faults.find? .unlink name with
        | none | some (.system .notFound) => .error (.failure (.inaccessible name "write" (.system errno none)))
        | some effect => .error effect.trouble := by
  have shown : pairStore.shown [name] = name := by obtain rfl | rfl := here <;> rfl
  have plain : Path.hasNull name = false := by obtain rfl | rfl := here <;> decide
  have located : pairStore.locate name = .ok [name] := by
    obtain rfl | rfl := here
    · exact pairPlaces.1
    · exact pairPlaces.2
  have held : pairStore.find? [name] = some (.file 0o644 exitSource) := by obtain rfl | rfl := here <;> rfl
  have roomy : InPlace.room pairStore (InPlace.tempFor pairStore [name]) = .ok (InPlace.tempFor pairStore [name]) := by
    rw [← InPlace.Write.roomBlank, ← InPlace.Write.tempBlank]
    obtain rfl | rfl := here <;> decide +kernel
  simp only [Formatted.report, written, if_true, unit]
  refine ⟨fun replaces removes => ?_, fun errno blocked => ?_⟩
  · refine InPlace.Write.runSucceeds plain located held roomy x.content fun call => ?_
    rw [shown]
    by_cases replacing : call = .replace
    · rw [replacing, replaces]
    · by_cases removing : call = .unlink
      · rw [removing, removes]
      · exact unfaulted call replacing removing
  · rw [← shown] at unfaulted blocked ⊢
    exact InPlace.Write.runBlocked plain located held roomy x.content unfaulted blocked

end

def blockedFirst : Fault := ⟨.replace, some "a.go", .system .inputOutput⟩

def keptFirst : Fault := ⟨.unlink, some "a.go", .system .notPermitted⟩

def goneFirst : Fault := ⟨.unlink, some "a.go", .system .notFound⟩

theorem sameFirst : Path.isSame "a.go" "a.go" = true ∧ Path.isSame "b.go" "a.go" = false := by decide

theorem blockedFinds (call : Call) : Faults.find? [blockedFirst] call "b.go" = none ∧
    (call ≠ .replace → Faults.find? [blockedFirst] call "a.go" = none) ∧
    Faults.find? [blockedFirst] .replace "a.go" = some (.system .inputOutput) := by
  cases call <;> simp [Faults.find?, blockedFirst, sameFirst]

theorem keptFinds (call : Call) :
    (call ≠ .replace → call ≠ .unlink → Faults.find? [blockedFirst, keptFirst] call "a.go" = none) ∧
    Faults.find? [blockedFirst, keptFirst] .replace "a.go" = some (.system .inputOutput) ∧
    Faults.find? [blockedFirst, keptFirst] .unlink "a.go" = some (.system .notPermitted) ∧
    Faults.find? [blockedFirst, keptFirst] call "b.go" = none := by
  cases call <;> simp [Faults.find?, blockedFirst, keptFirst, sameFirst]

theorem pairSpares {faults : Faults} (unfaulted : ∀ call, faults.find? call "b.go" = none) :
    (writingUnder faults).failuresAt pairStore ["a.go", "b.go"] "b.go" = [] := by
  obtain ⟨x, -, unit, written, fails⟩ := pairFails (.inr rfl) fun call _ _ => unfaulted call
  have done := (pairReports (.inr rfl) (fun call _ _ => unfaulted call) unit written).1 (unfaulted _) (unfaulted _)
  rw [fails]
  simp only [Conditions.writeFailure, writingUnder, done, Option.toList_none]

theorem pairIsolated : ∃ g a h b,
    Trace (writingUnder [blockedFirst]) (Run.begin pairStore ["a.go", "b.go"] false) g a ∧
    Trace (writingUnder []) (Run.begin pairStore ["a.go", "b.go"] false) h b ∧
    (∃ x, (a.results.filter fun y => y.unit == "b.go") = [x] ∧ (b.results.filter fun y => y.unit == "b.go") = [x] ∧
      g.told writing.settings "b.go" = h.told writing.settings "b.go" ∧
      a.store.read "b.go" = b.store.read "b.go") ∧
    (a.main = .ended (.error (.failure (.batch a.failures))) ∧ ∃ f ∈ a.failures, f.Names "a.go") ∧
    ∃ h r, Trace (writingUnder [blockedFirst, goneFirst]) (Run.begin pairStore ["a.go", "b.go"] false) h r ∧
      r.Checked ∧ Accounted (writingUnder [blockedFirst, goneFirst]) h r := by
  have plain : ∀ path ∈ ["a.go", "b.go"], Path.hasNull path = false := by simp [pairPlain]
  have failing : Faults.OfUnits [blockedFirst] := by
    simp [Faults.OfUnits, blockedFirst, Fault.isOfUnit, Fault.isOfFile]
  have other : Faults.OfUnits [] := by simp [Faults.OfUnits]
  have begunA : Trace (writingUnder [blockedFirst]) (Run.begin pairStore ["a.go", "b.go"] false) [] _ := .start
  have begunB : Trace (writingUnder []) (Run.begin pairStore ["a.go", "b.go"] false) [] _ := .start
  obtain ⟨g, a, first, aGoing, aChecked⟩ := begunA.ends failing.contained.caught pairWellFormed plain
  obtain ⟨h, b, second, bGoing, bChecked⟩ := begunB.ends other.contained.caught pairWellFormed plain
  obtain ⟨-, isolated, finishes⟩ :=
    failuresIsolated pairWellFormed rfl plain pairOpens pairApart failing other first second
  obtain ⟨spared, failed⟩ := isolated _ _ aChecked.ended bChecked.ended aGoing bGoing
  have caught : Faults.Caught [blockedFirst, goneFirst] := by
    simp [Faults.Caught, blockedFirst, goneFirst, Fault.isCaught, Fault.isContained]
  obtain ⟨later, last, gone, -, lastChecked⟩ := (finishes _ caught false _ _ .start).ends
  have accounted := ((finishes _ caught false _ _ gone).ended _ lastChecked.ended).2
  have fails : (writingUnder [blockedFirst]).failuresAt pairStore ["a.go", "b.go"] "a.go" ≠ [] := by
    have unfaulted (call : Call) (replaces : call ≠ .replace) (_ : call ≠ .unlink) := (blockedFinds call).2.1 replaces
    obtain ⟨x, -, unit, written, fails⟩ := pairFails (.inl rfl) unfaulted
    have blocked := (pairReports (.inl rfl) unfaulted unit written).2 _ (blockedFinds .replace).2.2
    rw [(blockedFinds .unlink).2.1 (by decide)] at blocked
    rw [fails]
    simp [Conditions.writeFailure, writingUnder, blocked]
  obtain ⟨ended, named⟩ := failed "a.go" (by rw [pairUnits]; simp) fails
  refine ⟨g, a, h, b, first, second, ?_, ⟨ended ▸ aChecked.ended, named⟩, later, last, gone, lastChecked, accounted⟩
  have listed : "b.go" ∈ ["a.go", "b.go"].flatMap pairStore.units := by rw [pairUnits]; simp
  exact spared "b.go" listed (pairSpares fun call => (blockedFinds call).1) (pairSpares fun _ => rfl) rfl

/-- Where the temporary file of a failed write cannot be removed, the run ends in that: the file behind,
for which nothing fails, is not formatted, and no failure is collected. -/
theorem keptEnds :
    (∃ h r, Trace (writingUnder [blockedFirst, keptFirst]) (Run.begin pairStore ["a.go", "b.go"] false) h r ∧
      r.main = .ended (.error (.system .notPermitted none)) ∧ r.failures = [] ∧
      (r.results.filter fun x => x.unit == "b.go") = []) ∧
    (writingUnder [blockedFirst, keptFirst]).failuresAt pairStore ["a.go", "b.go"] "b.go" = [] ∧
    ∃ h r x, Trace (writingUnder []) (Run.begin pairStore ["a.go", "b.go"] false) h r ∧ r.Checked ∧
      (r.results.filter fun x => x.unit == "b.go") = [x] := by
  refine ⟨?_, pairSpares fun call => (keptFinds call).2.2.2, ?_⟩
  · have unfaulted (call : Call) := (keptFinds call).1
    have free (call : Call) (away : call ≠ .replace ∧ call ≠ .unlink) := unfaulted call away.1 away.2
    obtain ⟨x, formats, unit, written, -⟩ := pairFails (.inl rfl) unfaulted
    have failed := (pairReports (.inl rfl) unfaulted unit written).2 _ (keptFinds .replace).2.1
    rw [(keptFinds .unlink).2.2.1] at failed
    obtain ⟨found, -, file, -, read, -⟩ := pairFiles
    have reads : Faults.guarded [blockedFirst, keptFirst] .read "a.go" (pairStore.read "a.go") = .ok exitSource := by
      simp [Faults.guarded, Except.mapError, free, read]
    have first : Phase (writingUnder [blockedFirst, keptFirst]) (Run.begin pairStore ["a.go", "b.go"] false) _ _ _ _ :=
      .formats rfl rfl pairPlain.1 file (free .stat (by decide)) found reads formats
    have done := first.append (.escapes rfl failed (by simp [Effect.trouble]))
    have none : [x].filter (fun y => y.unit == "b.go") = [] := by simp [unit]
    exact ⟨_, _, done.trace, rfl, rfl, none⟩
  · have plain : ∀ path ∈ ["a.go", "b.go"], Path.hasNull path = false := by simp [pairPlain]
    have unfaulted : (writingUnder []).faults.OfUnits := by simp [Faults.OfUnits, writingUnder]
    have begun : Trace (writingUnder []) (Run.begin pairStore ["a.go", "b.go"] false) [] _ := .start
    obtain ⟨h, r, trace, going, checked⟩ := begun.ends unfaulted.contained.caught pairWellFormed plain
    obtain ⟨-, x, -, -, one, -⟩ := trace.spares pairWellFormed unfaulted plain pairOpens pairApart checked going
      (by rw [pairUnits]; simp) (pairSpares fun _ => rfl)
    exact ⟨h, r, x, trace, checked, one⟩

end Batch
end ExitSpacing
