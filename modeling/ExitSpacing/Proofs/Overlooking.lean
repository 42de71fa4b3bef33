import ExitSpacing.Proofs.Touring
import ExitSpacing.Proofs.Sharing

/-! What a walk comes to for each eligible name. A file is answered by a result or a failure, the
same failure that it ends in when it is on the list itself. A name that cannot be looked up is
overlooked: on the list it fails, below a walk nothing tells of it. -/
namespace ExitSpacing

namespace Store

section
variable {s : Store} {directory name root path : String} {item : Item}

theorem Child.isDirectory (child : s.Child directory name item) : s.isDirectory directory = true := by
  obtain ⟨location, mode, located, found, -⟩ := child
  simp only [Store.isDirectory, stat, located, bind, Except.bind, itemAtFound found, Item.isDirectory]

theorem Entered.rootDirectory (entered : s.Entered root directory) (child : s.Child directory name item) :
    s.isDirectory root = true := by
  induction entered generalizing name item with
  | root => exact child.isDirectory
  | inner _ child' _ ih => exact ih child'

theorem Child.plain (child : s.Child directory name item) (wellFormed : s.WellFormed) :
    Path.hasNull (Path.join directory name) = false := by
  have front := directoryPlain wellFormed child.isDirectory
  obtain ⟨location, -, -, -, -, found⟩ := child
  have back := (wellFormed.named _ (keyMem found) name (by simp)).2
  simp only [Path.hasNull, List.contains_eq_mem, decide_eq_false_iff_not] at front back ⊢
  rw [Path.joinChars, List.mem_append, not_or]
  refine ⟨?_, back⟩
  unfold Path.lead
  split <;> simp [front]

theorem childSelected (wellFormed : s.WellFormed) (entered : s.Entered root directory) (child : s.Child directory name item)
    (eligible : Path.isEligible name = true) (kind : item.isDirectory = false) :
    Path.join directory name ∈ s.selection root ↔ s.isFile (Path.join directory name) = true := by
  rw [selection, (gathersRegular wellFormed.unique).members wellFormed]
  constructor
  · rintro ⟨_, _, _, -, -, regular, same⟩
    exact same ▸ regular.2.2
  · exact fun file => ⟨directory, name, item, entered, child, ⟨eligible, kind, file⟩, rfl⟩

theorem statFails (directory : s.isDirectory path = false) (file : s.isFile path = false) :
    ∃ errno, s.stat path = .error errno := by
  cases there : s.stat path with
  | error errno => exact ⟨errno, rfl⟩
  | ok item =>
    have found := there
    simp only [stat, bind, Except.bind] at found
    split at found
    · cases found
    · rename_i location located
      obtain ⟨real, same, unlinked⟩ := (locateReal located).found
      rw [itemAtOk found] at same
      cases same
      cases item with
      | file => simp [Store.isFile, there] at file
      | link => cases unlinked
      | directory => simp [Store.isDirectory, there, Item.isDirectory] at directory

end
end Store

namespace Batch

section
variable {env : Conditions} {s store : Store} {paths : List String} {path unit : String} {h : History} {r : Run}

theorem missingOther (ofUnits : env.faults.OfUnits) (plain : Path.hasNull path = false) (directory : s.isDirectory path = false)
    (file : s.isFile path = false) :
    ∃ errno, env.missing s path = some (.inaccessible path "stat" (.system errno none)) := by
  obtain ⟨errno, fails⟩ := Store.statFails directory file
  cases fault : env.faults.find? .stat path with
  | none => exact ⟨errno, by simp [Conditions.missing, Run.lookUp, Run.begin, plain, directory, fails, fault]⟩
  | some effect =>
    cases effect with
    | system errno => exact ⟨errno, by simp [Conditions.missing, Run.lookUp, Run.begin, plain, directory, fault]⟩
    | unexpected message =>
      obtain ⟨cause, mem, called, same⟩ := Faults.foundFault fault
      have ofUnit := ofUnits cause mem
      rw [Fault.isOfUnit, Fault.isOfFile, called, same] at ofUnit
      cases ofUnit

def Run.Answers (r : Run) (unit : String) : Prop := (∃ x ∈ r.results, x.unit = unit) ∨ ∃ f ∈ r.failures, f.unit? = some unit

theorem taskFails (contained : env.faults.Contained) {task : String × Bytes} {f : Failure}
    (failed : failureOf env task = some f) : f.OfFormatting task.1 := by
  unfold failureOf at failed
  split at failed
  · cases failed
  · rename_i same
    cases failed
    exact formattingFails contained same

theorem Trace.answers (trace : Trace env (Run.begin store paths false) h r) (contained : env.faults.Contained)
    (checked : r.Checked) (faced : unit ∈ h.faced) : r.Answers unit := by
  have accounted := trace.ledger.accounted trace.drained.2 checked
  have collected {turn : Nat} {event : Event} {f : Failure} (mem : (turn, event) ∈ h) (failure : event.failure? = some f) :
      f ∈ r.failures := by
    rw [trace.ledger.failures]
    exact List.mem_filterMap.mpr ⟨_, mem, failure⟩
  have tried {turn : Nat} {event : Event} {source : Bytes} (mem : (turn, event) ∈ h)
      (task : event.task? = some (unit, source)) : r.Answers unit := by
    have took : (unit, source) ∈ h.tasks := List.mem_filterMap.mpr ⟨_, mem, task⟩
    obtain ⟨x, made, -, same⟩ | ⟨f, -, failed, -⟩ := accounted.either _ took
    · exact .inl ⟨x, accounted.results.symm.subset (List.mem_filterMap.mpr ⟨_, took, made⟩), same⟩
    · have inside := List.mem_append_left (h.unread.map Prod.snd) (List.mem_filterMap.mpr ⟨_, took, failed⟩)
      exact .inr ⟨f, accounted.failures.symm.subset (List.mem_append_left _ inside), (taskFails contained failed).unit⟩
  obtain ⟨⟨turn, event⟩, mem, same⟩ := List.mem_filterMap.mp faced
  have fits := trace.ledger.fits _ mem
  cases event with
  | missing path f =>
    cases same
    exact .inr ⟨f, collected mem rfl, Failure.OfAccess.unit fits⟩
  | unread path f =>
    cases same
    exact .inr ⟨f, collected mem rfl, Failure.OfAccess.unit fits⟩
  | handed path source =>
    cases same
    exact tried mem rfl
  | kept path source =>
    cases same
    exact tried mem rfl
  | _ => cases same

theorem Trace.facesAbout (trace : Trace env (Run.begin store paths false) h r) {f : Failure}
    (face : (path, .error f) ∈ h.faces) : f.unit? = some path := by
  obtain ⟨⟨turn, event⟩, mem, same⟩ := List.mem_filterMap.mp face
  have fits := trace.ledger.fits _ mem
  cases event with
  | missing | unread =>
    cases same
    exact Failure.OfAccess.unit fits
  | _ => cases same

theorem Trace.answered (trace : Trace env (Run.begin store paths false) h r) (contained : env.faults.Contained)
    (wellFormed : store.WellFormed) (unstopped : h.Unstopped) (answers : r.Answers unit) : unit ∈ h.faced := by
  have unescaped := trace.unescaped unstopped
  obtain ⟨x, mem, rfl⟩ | ⟨f, mem, about⟩ := answers
  · rw [trace.ledger.results] at mem
    exact trace.reportedFaced unescaped x mem
  · rw [trace.ledger.failures] at mem
    have parts := (trace.failuresSplit wellFormed.unique contained.removes unstopped).subset mem
    rw [List.mem_append, List.mem_append] at parts
    obtain (formatting | facing) | writing := parts
    · obtain ⟨task, tried, fails⟩ := List.mem_filterMap.mp formatting
      obtain rfl := Option.some.inj (about.symm.trans (taskFails contained fails).unit)
      exact trace.triedFaced unescaped task tried
    · obtain ⟨⟨path, found⟩, face, fails⟩ := List.mem_filterMap.mp facing
      have faced : path ∈ h.faced := facesFaced h ▸ List.mem_map_of_mem face
      cases found with
      | ok => cases fails
      | error g =>
        cases fails
        obtain rfl := Option.some.inj (about.symm.trans (trace.facesAbout face))
        exact faced
    · obtain ⟨x, reported, fails⟩ := List.mem_filterMap.mp writing
      obtain rfl := Option.some.inj (about.symm.trans (writeFails fails).unit)
      exact trace.reportedFaced unescaped x reported

theorem Trace.quietWalks (trace : Trace env (Run.begin store paths false) h r) (wellFormed : store.WellFormed)
    (ofUnits : env.faults.OfUnits) (directories : ∀ path ∈ paths, store.isDirectory path = true)
    (opens : ∀ path ∈ paths, store.Opens path) (going : r.canceled = false) : h.Quiet := by
  have plain (path : String) (mem : path ∈ paths) := Store.directoryPlain wellFormed (directories path mem)
  have contained := ofUnits.contained
  have unescaped := (trace.contained contained wellFormed plain).1
  have unstopped := (trace.unstopped wellFormed ofUnits plain opens going).1
  exact unstopped.quiet (trace.walks wellFormed (.inl contained.removes) unescaped directories).2.2

theorem Trace.allFaced (trace : Trace env (Run.begin store paths false) h r) (wellFormed : store.WellFormed)
    (removes : ∀ path, env.faults.find? .unlink path = none) (unstopped : h.Unstopped) (checked : r.Checked) :
    h.faced = paths.flatMap store.units := by
  have units := (trace.surveyed wellFormed (.inl removes) unstopped).units
  simpa [Run.ahead, checked.ended] using units

theorem Trace.failuresOf (trace : Trace env (Run.begin store paths false) h r) (wellFormed : store.WellFormed)
    (contained : env.faults.Contained) (quiet : h.Quiet) (checked : r.Checked)
    (unseen : env.WritesUnseen store (paths.flatMap store.units) unit) (faced : unit ∈ h.faced) {f : Failure}
    (about : f.unit? = some unit) : f ∈ r.failures ↔ f ∈ env.failuresAt store [] unit := by
  have first : env.failuresFor store unit (env.lookOf store unit) = env.failuresAt store [] unit := by
    simp [Conditions.failuresAt, Conditions.faceOf]
  have failures := trace.failuresFaced wellFormed.unique contained.removes quiet.unstopped checked
  rw [failures.mem_iff, List.mem_flatMap, ← first]
  constructor
  · rintro ⟨⟨path, found⟩, face, fails⟩
    have unfound (g : Failure) (same : found = .error g) : g.unit? = some path := trace.facesAbout (same ▸ face)
    obtain rfl := Option.some.inj (about.symm.trans (failuresAbout contained unfound fails))
    exact trace.failsFirst wellFormed contained quiet unseen face ▸ fails
  · intro fails
    rw [← facesFaced, List.mem_map] at faced
    obtain ⟨⟨path, found⟩, face, rfl⟩ := faced
    exact ⟨(path, found), face, trace.failsFirst wellFormed contained quiet unseen face ▸ fails⟩

theorem Trace.failsAlone (trace : Trace env (Run.begin store [path] false) h r) (wellFormed : store.WellFormed)
    (ofUnits : env.faults.OfUnits) (plain : Path.hasNull path = false) (other : store.isDirectory path = false)
    (checked : r.Checked) (going : r.canceled = false) : r.failures.Perm (env.failuresAt store [path] path) := by
  have alone : [path].flatMap store.units = [path] := by simp [Store.units, other]
  have opens : store.Opens path := fun directory => absurd (other.symm.trans directory) Bool.false_ne_true
  have determined := trace.unitsDetermined wellFormed ofUnits (by simpa using plain) (by simpa using opens)
    (by simp [alone]) checked going
  rw [alone] at determined
  simpa [Conditions.failuresAt] using determined.failures

end

section
variable {env : Conditions} {store : Store} {h h' : History} {r r' : Run} {root directory name : String} {item : Item}

/-- What a walk comes to for an eligible child of a directory that it goes into, other than a
directory, beside a run over that child alone. A file is answered. If it can be looked up too, and
writes do not show in it, both collect the same failures of it. What cannot be looked up is
overlooked by the walk, and fails alone. -/
theorem walkOverlooks (wellFormed : store.WellFormed) (ofUnits : env.faults.OfUnits)
    (opened : Path.isSkippedDirectory (Path.baseName root) = false) (entered : store.Entered root directory)
    (child : store.Child directory name item) (eligible : Path.isEligible name = true)
    (kind : item.isDirectory = false) (other : store.isDirectory (Path.join directory name) = false)
    (opens : store.Opens root)
    (trace : Trace env (Run.begin store [root] false) h r)
    (direct : Trace env (Run.begin store [Path.join directory name] false) h' r') :
    (∃ later last, Trace env r later last ∧ last.canceled = r.canceled ∧ last.Checked) ∧
      (r.Checked → r.canceled = false → r'.Checked → r'.canceled = false →
        (store.isFile (Path.join directory name) = true → r.Answers (Path.join directory name) ∧
          (env.missing store (Path.join directory name) = none →
            env.WritesUnseen store (store.units root) (Path.join directory name) →
            ∀ f : Failure, f.unit? = some (Path.join directory name) → (f ∈ r.failures ↔ f ∈ r'.failures))) ∧
        (store.isFile (Path.join directory name) = false → ¬ r.Answers (Path.join directory name) ∧
          ∃ errno, r'.failures = [.inaccessible (Path.join directory name) "stat" (.system errno none)])) := by
  have walked := entered.rootDirectory child
  have contained := ofUnits.contained
  have plainRoot : ∀ path ∈ [root], Path.hasNull path = false := by simpa using store.directoryPlain wellFormed walked
  have plain := child.plain wellFormed
  have selects := Store.childSelected wellFormed entered child eligible kind
  have units : store.units root = store.selection root := by simp [Store.units, walked, opened]
  refine ⟨trace.ends contained.caught wellFormed plainRoot, fun checked going checked' going' => ?_⟩
  have quiet := trace.quietWalks wellFormed ofUnits (by simpa using walked) (by simpa using opens) going
  have faced := trace.allFaced wellFormed contained.removes quiet.unstopped checked
  rw [List.flatMap_singleton] at faced
  have alone := direct.failsAlone wellFormed ofUnits plain other checked' going'
  constructor
  · intro file
    have mem : Path.join directory name ∈ store.units root := units ▸ selects.mpr file
    refine ⟨trace.answers contained checked (faced ▸ mem), fun there unseen f about => ?_⟩
    -- It can be looked up, so being on the list itself makes no difference to it.
    have found : env.failuresAt store [Path.join directory name] (Path.join directory name) =
        env.failuresAt store [] (Path.join directory name) := by
      simp [Conditions.failuresAt, Conditions.faceOf, there]
    rw [alone.mem_iff, found]
    exact trace.failuresOf wellFormed contained quiet checked (by simpa using unseen) (faced ▸ mem) about
  · intro file
    refine ⟨fun answers => ?_, ?_⟩
    · have mem := trace.answered contained wellFormed quiet.unstopped answers
      rw [faced, units, selects, file] at mem
      cases mem
    · obtain ⟨errno, missing⟩ := missingOther ofUnits plain other file
      refine ⟨errno, List.perm_singleton.mp (alone.trans (.of_eq ?_))⟩
      simp [Conditions.failuresAt, Conditions.faceOf, missing, Conditions.failuresFor]

end

section
variable {store : Store} {errno : Errno}

theorem loneVisit : Visit.ofListing "d" ⟨[], [], ["x.go"]⟩ = ⟨[], ["d/x.go"], []⟩ := by
  have sorted : ascending ["x.go"] = ["x.go"] := List.mergeSort_singleton _
  have nothing : ascending [] = [] := List.mergeSort_nil
  simp only [Visit.ofListing, sorted, nothing, List.append_nil]
  decide

theorem loneOpens (wellFormed : store.WellFormed) (listing : store.list "d" = .ok ⟨[], [], ["x.go"]⟩) :
    ∀ path ∈ ["d"], store.Opens path := by
  refine List.forall_mem_singleton.mpr (Store.opensWithin wellFormed.unique ["d"] (.head _) ?_)
  simp [listing, loneVisit]

theorem failsStat (fails : store.stat "d/x.go" = .error errno) :
    store.isDirectory "d/x.go" = false ∧ store.isFile "d/x.go" = false := by
  simp [Store.isDirectory, Store.isFile, fails]

/-- The walk returns, and tells nothing of the name that cannot be looked up; alone it fails. -/
theorem loneDropped (wellFormed : store.WellFormed) (directory : store.isDirectory "d" = true)
    (listing : store.list "d" = .ok ⟨[], [], ["x.go"]⟩) (fails : store.stat "d/x.go" = .error errno) :
    (∃ h r, Trace reporting (Run.begin store ["d"] false) h r ∧ r.main = .ended (.ok ()) ∧ r.results = [] ∧
      r.failures = [] ∧ r.printed = [] ∧ r.canceled = false) ∧
    ∃ h r, Trace reporting (Run.begin store ["d/x.go"] false) h r ∧
      r.failures = [.inaccessible "d/x.go" "stat" (.system errno none)] ∧
      r.main = .ended (.error (.failure (.batch r.failures))) := by
  have plain : (∀ path ∈ ["d"], Path.hasNull path = false) ∧ Path.hasNull "d/x.go" = false := by decide
  have ofUnits : reporting.faults.OfUnits := nofun
  obtain ⟨other, file⟩ := failsStat fails
  constructor
  · have opens := loneOpens wellFormed listing
    have nothing : ["d"].flatMap store.units = [] ∧ store.skips "d" = [] := by
      simp [Store.units, Store.skips, directory, directoryWalked, Store.selectionListed wellFormed listing,
        Store.noticesListed wellFormed listing, loneVisit, file]
    have apart : (["d"].flatMap store.units).Pairwise store.Apart := by
      rw [nothing.1]
      exact .nil
    obtain ⟨h, r, trace, going, checked⟩ := unfaultedEnds (rfl : reporting.faults = []) wellFormed (plain.1 _ (.head _))
    have determined := trace.unitsDetermined wellFormed ofUnits plain.1 opens apart checked going
    obtain ⟨none, ended⟩ := trace.fine wellFormed ofUnits plain.1 opens apart checked going (by simp [nothing])
    have results : r.results = [] := (nothing.1 ▸ determined.results).eq_nil
    have skips : h.skips = [] := (trace.toured wellFormed directory ended going).2.trans nothing.2
    have printed := determined.printed
    rw [results, skips] at printed
    exact ⟨h, r, trace, ended, results, none, printed.eq_nil, going⟩
  · obtain ⟨h, r, trace, going, checked⟩ := unfaultedEnds (rfl : reporting.faults = []) wellFormed plain.2
    have missing : reporting.missing store "d/x.go" = some (.inaccessible "d/x.go" "stat" (.system errno none)) := by
      have unfaulted : reporting.faults.find? .stat "d/x.go" = none := rfl
      simp [Conditions.missing, Run.lookUp, Run.begin, plain, other, unfaulted, fails]
    have failures := trace.failsAlone wellFormed ofUnits plain.2 other checked going
    simp only [Conditions.failuresAt, Conditions.faceOf, List.mem_singleton, if_true, missing,
      Conditions.failuresFor] at failures
    have failed := List.perm_singleton.mp failures
    exact ⟨h, r, trace, failed, checked.ended.trans (by rw [failed]; rfl)⟩

end

def danglingStore : Store where
  items := [(["d"], .directory Store.directoryMode), (["d", "x.go"], .link "gone")]

/-- The directory tells what is in it, and lets nothing be looked up in it. -/
def shutStore : Store where
  items := [(["d"], .directory 0o644), (["d", "x.go"], .file 0o644 exitSource)]

theorem loneWellFormed : danglingStore.WellFormed ∧ shutStore.WellFormed := by
  have keys : danglingStore.keys = [[], ["d"], ["d", "x.go"]] ∧ shutStore.keys = [[], ["d"], ["d", "x.go"]] := ⟨rfl, rfl⟩
  refine ⟨⟨?_, ?_⟩, ?_, ?_⟩
  · rw [Store.Unique, keys.1]
    decide
  · rw [keys.1]
    decide
  · rw [Store.Unique, keys.2]
    decide
  · rw [keys.2]
    decide

theorem danglingFinds : danglingStore.find? ["d"] = some (.directory Store.directoryMode) ∧
    danglingStore.find? ["d", "x.go"] = some (.link "gone") := ⟨rfl, rfl⟩

theorem shutFinds : shutStore.find? ["d"] = some (.directory 0o644) ∧
    shutStore.find? ["d", "x.go"] = some (.file 0o644 exitSource) := ⟨rfl, rfl⟩

theorem loneNamed : (Path.isTurn "d" = false ∧ Path.isTurn "x.go" = false ∧ Path.isTurn "gone" = false) ∧
    (Path.isAbsolute "d" = false ∧ Path.isAbsolute "gone" = false ∧ Path.isAbsolute "d/x.go" = false) ∧
    Path.split "d" = ["d"] ∧ Path.split "gone" = ["gone"] ∧ Path.split "d/x.go" = ["d", "x.go"] ∧
    "d".utf8ByteSize = 1 ∧ "d/x.go".utf8ByteSize = 6 := by decide

theorem danglingPlaces : danglingStore.locate "d" = .ok ["d"] ∧ danglingStore.locate "d/x.go" = .error .notFound := by
  have entries : danglingStore.entry [] "d" = .ok (.directory Store.directoryMode) ∧
      danglingStore.entry ["d"] "x.go" = .ok (.link "gone") ∧ danglingStore.entry ["d"] "gone" = .error .notFound :=
    ⟨rfl, rfl, rfl⟩
  have home : danglingStore.home.names = [] := rfl
  simp [Store.locate, Store.origin, Store.follow, Store.pathLimit, Store.linkLimit, entries, loneNamed, home]

theorem shutPlaces : shutStore.locate "d" = .ok ["d"] ∧ shutStore.locate "d/x.go" = .error .denied := by
  have entries : shutStore.entry [] "d" = .ok (.directory 0o644) ∧ shutStore.entry ["d"] "x.go" = .error .denied :=
    ⟨rfl, rfl⟩
  have home : shutStore.home.names = [] := rfl
  simp [Store.locate, Store.origin, Store.follow, Store.pathLimit, Store.linkLimit, entries, loneNamed, home]

theorem loneDirectory : danglingStore.isDirectory "d" = true ∧ shutStore.isDirectory "d" = true := by
  simp [Store.isDirectory, Item.isDirectory, Store.stat, bind, Except.bind, Store.itemAt, danglingPlaces, danglingFinds,
    shutPlaces, shutFinds]

theorem loneFails : danglingStore.stat "d/x.go" = .error .notFound ∧ shutStore.stat "d/x.go" = .error .denied := by
  simp [Store.stat, bind, Except.bind, danglingPlaces, shutPlaces]

theorem loneJoined : Path.join "d" "x.go" = "d/x.go" := by decide

theorem danglingChild : danglingStore.Child "d" "x.go" (.link "gone") :=
  ⟨["d"], _, danglingPlaces.1, danglingFinds.1, by decide, danglingFinds.2⟩

theorem shutChild : shutStore.Child "d" "x.go" (.file 0o644 exitSource) :=
  ⟨["d"], _, shutPlaces.1, shutFinds.1, by decide, shutFinds.2⟩

theorem loneListing : danglingStore.list "d" = .ok ⟨[], [], ["x.go"]⟩ ∧ shutStore.list "d" = .ok ⟨[], [], ["x.go"]⟩ := by
  have names : danglingStore.namesBelow ["d"] = ["x.go"] ∧ shutStore.namesBelow ["d"] = ["x.go"] := ⟨rfl, rfl⟩
  rw [Store.listFound danglingPlaces.1 danglingFinds.1 (by decide), Store.listFound shutPlaces.1 shutFinds.1 (by decide)]
  simp [Store.listing, Store.isBranch, names, danglingFinds, shutFinds, loneJoined, failsStat loneFails.1]

/-- The walk returns, and tells nothing of the link; the link alone cannot be looked up. -/
theorem danglingDropped :
    (danglingStore.Entered "d" "d" ∧ danglingStore.Child "d" "x.go" (.link "gone") ∧ Path.isEligible "x.go" = true ∧
      danglingStore.isDirectory "d/x.go" = false) ∧
    (∃ h r, Trace reporting (Run.begin danglingStore ["d"] false) h r ∧ r.main = .ended (.ok ()) ∧ r.results = [] ∧
      r.failures = [] ∧ r.printed = [] ∧ r.canceled = false) ∧
    ∃ h r, Trace reporting (Run.begin danglingStore ["d/x.go"] false) h r ∧
      r.failures = [.inaccessible "d/x.go" "stat" (.system .notFound none)] ∧
      r.main = .ended (.error (.failure (.batch r.failures))) :=
  ⟨⟨.root, danglingChild, by decide, (failsStat loneFails.1).1⟩,
    loneDropped loneWellFormed.1 loneDirectory.1 loneListing.1 loneFails.1⟩

theorem linkedOpens (content : Bytes) : (linkedStore content).Opens "d" := by
  refine Store.opensWithin (linkedWellFormed content).unique ["d"] (.head _) ?_
  simp [linkedListing, linkedVisit]

theorem linkedOverlooks :
    (∃ h r h' r', Trace writing (Run.begin (linkedStore Document.closureSource) ["d"] false) h r ∧ r.Answers "d/a.go" ∧
      Trace writing (Run.begin (linkedStore Document.closureSource) ["d/a.go"] false) h' r' ∧
        ∀ f : Failure, f.unit? = some "d/a.go" → (f ∈ r.failures ↔ f ∈ r'.failures)) ∧
    (∃ h r h' r', Trace reporting (Run.begin danglingStore ["d"] false) h r ∧ ¬ r.Answers "d/x.go" ∧
      Trace reporting (Run.begin danglingStore ["d/x.go"] false) h' r' ∧
        ∃ errno, r'.failures = [.inaccessible "d/x.go" "stat" (.system errno none)]) ∧
    ∃ h r h' r', Trace reporting (Run.begin shutStore ["d"] false) h r ∧ ¬ r.Answers "d/x.go" ∧
      Trace reporting (Run.begin shutStore ["d/x.go"] false) h' r' ∧
        ∃ errno, r'.failures = [.inaccessible "d/x.go" "stat" (.system errno none)] := by
  have unfaulted : writing.faults = [] ∧ reporting.faults = [] := ⟨rfl, rfl⟩
  have ofUnits {env : Conditions} (unfaulted : env.faults = []) : env.faults.OfUnits := by simp [Faults.OfUnits, unfaulted]
  have plain : Path.hasNull "d" = false ∧ Path.hasNull "d/a.go" = false ∧ Path.hasNull "d/x.go" = false := by
    decide
  have eligible : Path.isEligible "a.go" = true ∧ Path.isEligible "x.go" = true := by decide
  have lone {store : Store} {item : Item} {errno : Errno} (wellFormed : store.WellFormed)
      (child : store.Child "d" "x.go" item) (kind : item.isDirectory = false)
      (listing : store.list "d" = .ok ⟨[], [], ["x.go"]⟩) (fails : store.stat "d/x.go" = .error errno) :
      ∃ h r h' r', Trace reporting (Run.begin store ["d"] false) h r ∧ ¬ r.Answers "d/x.go" ∧
        Trace reporting (Run.begin store ["d/x.go"] false) h' r' ∧
          ∃ errno, r'.failures = [.inaccessible "d/x.go" "stat" (.system errno none)] := by
    obtain ⟨other, file⟩ := failsStat fails
    have opens := loneOpens wellFormed listing _ (.head _)
    obtain ⟨h, r, trace, going, checked⟩ := unfaultedEnds unfaulted.2 wellFormed plain.1
    obtain ⟨h', r', direct, going', checked'⟩ := unfaultedEnds unfaulted.2 wellFormed plain.2.2
    have overlooked := (walkOverlooks wellFormed (ofUnits unfaulted.2) directoryWalked .root child eligible.2 kind
      (loneJoined.symm ▸ other) opens trace (loneJoined.symm ▸ direct)).2 checked going checked' going'
    rw [loneJoined] at overlooked
    obtain ⟨unanswered, failed⟩ := overlooked.2 file
    exact ⟨h, r, h', r', trace, unanswered, direct, failed⟩
  refine ⟨?_, lone loneWellFormed.1 danglingChild rfl loneListing.1 loneFails.1,
    lone loneWellFormed.2 shutChild rfl loneListing.2 loneFails.2⟩
  let store := linkedStore Document.closureSource
  have wellFormed := linkedWellFormed Document.closureSource
  have joined : Path.join "d" "a.go" = "d/a.go" := by decide
  have child : store.Child "d" "a.go" (.file 0o644 Document.closureSource) :=
    ⟨["d"], _, (linkedPlaces _).1, (linkedFinds _).1, by decide, (linkedFinds _).2.1⟩
  have stat : store.stat "d/a.go" = .ok (.file 0o644 Document.closureSource) := by
    simp [store, Store.stat, bind, Except.bind, Store.itemAt, linkedPlaces, linkedFinds]
  have other : store.isDirectory "d/a.go" = false := by simp [Store.isDirectory, Item.isDirectory, stat]
  have there : writing.missing store "d/a.go" = none := by
    have looked : writing.faults.find? .stat "d/a.go" = none := rfl
    simp [Conditions.missing, Run.lookUp, Run.begin, plain, other, stat, looked]
  -- The link beside the file is written too, but what is formatted once stays as it is.
  have unseen : writing.WritesUnseen store (store.units "d") "d/a.go" := by
    refine .inr (.inr fun mode source found => ?_)
    cases stat.symm.trans found
    exact settlesFaithful (ofUnits unfaulted.1).contained closureFaithful
  obtain ⟨h, r, trace, going, checked⟩ := unfaultedEnds unfaulted.1 wellFormed plain.1
  obtain ⟨h', r', direct, going', checked'⟩ := unfaultedEnds unfaulted.1 wellFormed plain.2.1
  have answers := (walkOverlooks wellFormed (ofUnits unfaulted.1) directoryWalked .root child eligible.1 rfl
    (joined.symm ▸ other) (linkedOpens _) trace (joined.symm ▸ direct)).2 checked going checked' going'
  rw [joined] at answers
  obtain ⟨answered, same⟩ := answers.1 (linkedFiles _).2.1
  exact ⟨h, r, h', r', trace, answered, direct, same there unseen⟩

end Batch
end ExitSpacing
