import ExitSpacing.Proofs.Entering
import ExitSpacing.Proofs.Facing

/-! How a run goes through a directory tree: where nothing fails and nothing asks it to stop, it
hands out the files of the tour, each once, and tells of every directory that it skips, once. -/
namespace ExitSpacing

namespace Store

def notices (s : Store) (path : String) : List String := (s.visits path).flatMap Batch.Visit.skipped

def skips (s : Store) (path : String) : List String :=
  if s.isDirectory path then
    if Path.isSkippedDirectory (Path.baseName path) then [path] else s.notices path
  else []

theorem noticesListed {s : Store} (wellFormed : s.WellFormed) {path : String} {listing : Listing}
    (ok : s.list path = .ok listing) :
    s.notices path = (Batch.Visit.ofListing path listing).skipped ++
      (Batch.Visit.ofListing path listing).inner.flatMap s.notices := by
  rw [notices, visitsListed wellFormed ok, List.flatMap_cons, List.flatMap_assoc]
  rfl

end Store

namespace Batch

def Message.skipped? : Message → Option String
  | .skipped path => some path
  | _ => none

def Walker.notices : Walker → List String
  | .arrived path listing _ => (Visit.ofListing path listing).skipped
  | .notify skipped _ _ => skipped
  | _ => []

def Walk.untold (s : Store) (w : Walk) : List String :=
  match w.walker with
  | .begin => if Path.isSkippedDirectory (Path.baseName w.root) then [w.root] else s.notices w.root
  | walker => walker.notices ++ walker.pending.flatMap s.notices

def Walk.unnoted (s : Store) (w : Walk) : List String := w.queue.filterMap Message.skipped? ++ w.untold s

def Run.unnoted (s : Store) (r : Run) : List String :=
  match r.main with
  | .drain rest => r.walk.elim [] (·.unnoted s) ++ rest.flatMap s.skips
  | main => main.paths.flatMap s.skips

def Event.direct? : Event → Option String
  | .missing path _ | .kept path _ => some path
  | _ => none

theorem handedTasks {h : History} (indirect : ∀ entry ∈ h, entry.2.direct? = none) : h.tasks = h.handed := by
  refine List.filterMap_congr fun entry mem => ?_
  have walked := indirect entry mem
  cases event : entry.2 <;> rw [event] at walked <;> first | rfl | cases walked

theorem History.Unstopped.quiet {h : History} (unstopped : h.Unstopped) (indirect : ∀ entry ∈ h, entry.2.direct? = none) :
    h.Quiet := by
  intro entry mem
  have going := unstopped entry mem
  have walked := indirect entry mem
  cases event : entry.2 <;> rw [event] at going walked <;> first | rfl | exact going | cases walked

theorem History.skipsAppend (h : History) (events : List Event) (turn : Nat) :
    (h ++ events.map (turn, ·) : History).skips = h.skips ++ events.filterMap Event.skipped? := by
  simp only [skips, List.filterMap_append, List.filterMap_map]
  rfl

section
variable {env : Conditions} {s : Store} {r next : Run} {w walk : Walk} {events : List Event} {failures : List Failure}

theorem WalkerMove.unnoted (move : WalkerMove env r w events failures walk) (wellFormed : s.WellFormed)
    (shape : r.store.blank = s.blank) (goes : r.stops w = false) (unstopped : ∀ event ∈ events, event.stops = false) :
    walk.unnoted s = w.unnoted s ∧ events.filterMap Event.skipped? = [] := by
  cases move with
  | skips here skipped =>
    simp [Walk.unnoted, Walk.untold, Walk.leave, Walk.goTo, Walk.put, here, skipped, Event.skipped?, Message.skipped?,
      Walker.notices, Walker.pending]
  | begins here entered => simp [Walk.unnoted, Walk.untold, Walk.goTo, here, entered, Walker.notices, Walker.pending]
  | @lists path pending listing here listed =>
    rw [Store.listShape shape] at listed
    have whole := Store.noticesListed wellFormed (Faults.guardedOk listed).2
    simp [Walk.unnoted, Walk.untold, Walk.goTo, here, whole, Walker.notices, Walker.pending]
  | missesListing | breaks | missesStart => simp [Event.stops] at unstopped
  | turnsBack here stops | givesUp here stops | withdraws here stops => rw [goes] at stops; cases stops
  | _ => simp_all [Walk.unnoted, Walk.untold, Walk.goTo, Walk.put, Walk.leave, Walk.acquire, Walk.release, Event.skipped?,
      Message.skipped?, Walker.notices, Walker.pending, List.filterMap_cons]

theorem WorkerMove.unnoted {i : Nat} {worker : Worker} (move : WorkerMove env w i worker events failures walk) :
    walk.unnoted s = w.unnoted s ∧ events.filterMap Event.skipped? = [] := by
  cases move with
  | @delivers x =>
    have queue : (w.queue ++ [Message.result x]).filterMap Message.skipped? = w.queue.filterMap Message.skipped? := by
      simp [List.filterMap_cons, Message.skipped?]
    exact ⟨congrArg (· ++ w.untold s) queue, rfl⟩
  | _ => exact ⟨rfl, rfl⟩

theorem Accepts.notes {x : Formatted} {main : Main} (accepts : Accepts env r x main events next) :
    events.filterMap Event.skipped? = [] := by
  cases accepts <;> rfl

theorem MainMove.unnoted (move : MainMove env r events next) (wellFormed : s.WellFormed) (steady : r.Steady) (calm : r.Calm)
    (shape : r.store.blank = s.blank) (unstopped : ∀ event ∈ events, event.stops = false) :
    events.filterMap Event.skipped? ++ next.unnoted s = r.unnoted s := by
  cases move with
  | finishes here last =>
    obtain ⟨log, finish⟩ := finishIs r
    obtain rfl | canceled := last
    · rw [finish]
      simp [Run.unnoted, Main.paths, here, Event.skipped?]
    · rw [calm.going] at canceled
      cases canceled
  | walks here found =>
    have directory := lookUpDirectory found
    rw [Store.isDirectoryShape shape] at directory
    simp [Run.unnoted, Main.paths, here, Store.skips, directory, Walk.unnoted, Walk.untold, List.filterMap_cons,
      Event.skipped?]
  | looks here found =>
    have other := lookUpOther found
    rw [Store.isDirectoryShape shape] at other
    simp [Run.unnoted, Main.paths, here, Store.skips, other]
  | misses here failed =>
    have alone := lookUpAlone wellFormed shape failed
    simp [Run.unnoted, Main.paths, here, Store.skips, alone, List.filterMap_cons, Event.skipped?]
  | escapes => simp [Event.stops] at unstopped
  | opens here | reads here | missesFile here | formats here | fails here =>
    simp [Run.unnoted, Main.paths, here, List.filterMap_cons, Event.skipped?]
  | applies here accepts =>
    obtain ⟨main, -⟩ := accepts.goes unstopped
    simp [Run.unnoted, Main.paths, main, here, accepts.notes]
  | closes here walk first =>
    have sound := (steady.walking _ walk).1
    have closed := sound.closed first
    have last := (sound.received first).1 rfl
    simp [Run.unnoted, Main.paths, here, walk, Walk.unnoted, Walk.untold, first, last, closed, Walker.notices,
      Walker.pending, List.filterMap_cons, Message.skipped?, Event.skipped?]
  | notes here walk first =>
    simp [Run.unnoted, here, walk, Walk.unnoted, Walk.untold, first, Message.skipped?, Event.skipped?]
  | receives here walk first accepts =>
    obtain ⟨main, walks, -⟩ := accepts.goes fun event mem => unstopped event (List.mem_cons_of_mem _ mem)
    simp [Run.unnoted, here, walk, main, walks, Walk.unnoted, Walk.untold, first, accepts.notes, List.filterMap_cons,
      Message.skipped?, Event.skipped?]

theorem Moves.unnoted (moves : Moves env r events next) (wellFormed : s.WellFormed) (steady : r.Steady) (calm : r.Calm)
    (shape : r.store.blank = s.blank) (unstopped : ∀ event ∈ events, event.stops = false) :
    next.Escaped ∨ events.filterMap Event.skipped? ++ next.unnoted s = r.unnoted s := by
  cases moves with
  | cancels => simp [Event.stops] at unstopped
  | main move => exact .inr (move.unnoted wellFormed steady calm shape unstopped)
  | @walker w _ failures walk log here move =>
    have goes : r.stops w = false := by rw [Run.stops, calm.going, calm.walking w here]; rfl
    obtain ⟨same, silent⟩ := move.unnoted wellFormed shape goes unstopped
    obtain ⟨rest, drains⟩ | escaped := (steady.walking w here).2
    · exact .inr (by simp only [Run.unnoted, drains, here, Option.elim_some, same, silent, List.nil_append])
    · exact .inl escaped
  | @worker w i worker _ failures walk log formatted here employed move =>
    obtain ⟨same, silent⟩ := move.unnoted (s := s)
    obtain ⟨rest, drains⟩ | escaped := (steady.walking w here).2
    · exact .inr (by simp only [Run.unnoted, drains, here, Option.elim_some, same, silent, List.nil_append])
    · exact .inl escaped

theorem Moves.unread (moves : Moves env r events next) (shape : r.store.blank = s.blank)
    (directories : ∀ path ∈ r.main.paths, s.isDirectory path = true) (unread : ∀ path rest, r.main ≠ .read path rest) :
    ∀ path rest, next.main ≠ .read path rest := by
  intro path rest there
  cases moves with
  | cancels | walker | worker => exact unread path rest there
  | main move =>
    cases move with
    | finishes here =>
      obtain ⟨log, finish⟩ := finishIs r
      rw [finish] at there
      cases there
    | looks here found =>
      have other := lookUpOther found
      rw [Store.isDirectoryShape shape, directories _ (by simp [here, Main.paths])] at other
      cases other
    | applies here accepts => cases accepts <;> cases there
    | receives here walk first accepts => cases accepts <;> cases there
    | notes here => cases here.symm.trans there
    | _ => cases there

end

section
variable {env : Conditions} {store : Store} {paths : List String} {h : History} {r : Run} {root : String}

theorem Trace.noted (trace : Trace env (Run.begin store paths false) h r) (wellFormed : store.WellFormed)
    (tidy : r.Tidy env) (unstopped : h.Unstopped) : h.skips ++ r.unnoted store = paths.flatMap store.skips := by
  induction trace with
  | start => rfl
  | @move h r next move before made ih =>
    have moves := stepMoves made
    have earlier := tidy.before moves
    have going : h.Unstopped := fun entry mem => unstopped entry (List.mem_append_left _ mem)
    have now : ∀ event ∈ r.events env move, event.stops = false := fun event mem =>
      unstopped _ (List.mem_append_right _ (List.mem_map_of_mem mem))
    obtain escaped | shaped := before.shaped wellFormed.unique earlier
    · exact absurd escaped (before.unescaped going)
    · have calm := (before.surveyed wellFormed earlier going).calm
      obtain escaped | one := moves.unnoted wellFormed before.steady calm shaped.shape now
      · exact absurd escaped ((Trace.move move before made).unescaped unstopped)
      · rw [History.skipsAppend, List.append_assoc, one, ih earlier going]

theorem Trace.walks (trace : Trace env (Run.begin store paths false) h r) (wellFormed : store.WellFormed)
    (tidy : r.Tidy env) (unescaped : ¬ r.Escaped) (directories : ∀ path ∈ paths, store.isDirectory path = true) :
    (∀ path ∈ r.main.paths, store.isDirectory path = true) ∧ (∀ path rest, r.main ≠ .read path rest) ∧
      ∀ entry ∈ h, entry.2.direct? = none := by
  induction trace with
  | start => exact ⟨directories, by simp [Run.begin], by simp⟩
  | @move h r next move before made ih =>
    have moves := stepMoves made
    have going : ¬ r.Escaped := fun escaped => unescaped (escaped.move moves)
    have earlier := tidy.before moves
    obtain ⟨walked, unread, indirect⟩ := ih earlier going
    have shape := ((before.shaped wellFormed.unique earlier).resolve_left going).shape
    refine ⟨fun path mem => walked path (moves.paths mem), moves.unread shape walked unread, fun entry mem => ?_⟩
    obtain old | new := List.mem_append.mp mem
    · exact indirect entry old
    · obtain ⟨event, inside, rfl⟩ := List.mem_map.mp new
      have presumes := moves.presumes event inside
      cases event with
      | missing path f =>
        obtain ⟨rest, here, failed⟩ := presumes
        have alone := lookUpAlone wellFormed shape failed
        rw [walked path (by simp [here, Main.paths])] at alone
        cases alone
      | kept path source =>
        obtain ⟨rest, here⟩ := presumes
        exact absurd here (unread path rest)
      | _ => rfl

end

/-- What a walk of a directory tree came to. -/
structure Toured (s : Store) (root : String) (h : History) : Prop where
  tour : ∀ files, s.Tour [root] files ↔ h.handed.map Prod.fst = files
  once : (h.handed.map Prod.fst).Nodup
  passed : ∀ path ∈ h.handed.map Prod.fst, ∃ names name, path = Path.trail root (names ++ [name]) ∧
    Path.IsName name ∧ ∀ name ∈ names, Path.IsName name ∧ Path.isSkippedDirectory name = false
  /-- Each child with such a name of a directory that was gone into was told of, if it is a directory. -/
  skips : ∀ path, path ∈ h.skips ↔ ∃ directory name item, s.Entered root directory ∧ s.Child directory name item ∧
    s.Shunned directory name item ∧ path = Path.join directory name
  skipsOnce : h.skips.Nodup

section
variable {env : Conditions} {store : Store} {h : History} {r : Run} {root : String}

theorem Trace.toured (trace : Trace env (Run.begin store [root] false) h r) (wellFormed : store.WellFormed)
    (directory : store.isDirectory root = true) (ok : r.main = .ended (.ok ())) (going : r.canceled = false) :
    h.handed.map Prod.fst = store.units root ∧ h.skips = store.skips root := by
  obtain ⟨none, -⟩ := trace.returned wellFormed ok
  have unescaped : ¬ r.Escaped := by
    rintro ⟨trouble, escaped, -⟩
    cases ok.symm.trans escaped
  have checked := (trace.steady.ended _ ok).resolve_right unescaped
  have quiet := trace.quiet (by simp [none]) going unescaped
  have tidy : r.Tidy env := .inr (by simp [none])
  have surveyed := (trace.surveyed wellFormed tidy quiet.unstopped).units
  have noted := trace.noted wellFormed tidy quiet.unstopped
  have handed := handedTasks (trace.walks wellFormed tidy unescaped (by simpa using directory)).2.2
  have accounted := trace.ledger.accounted trace.drained.2 checked
  rw [quiet.faced, metTasks (accounted.allMade none).1, handed] at surveyed
  constructor
  · simpa [Run.ahead, ok] using surveyed
  · simpa [Run.unnoted, ok, Main.paths] using noted

/-- A run over a directory that came to its end with no failure and no request to stop handed out
the tour of the tree below it. -/
theorem walkTours (wellFormed : store.WellFormed) (slashFree : store.SlashFree) (directory : store.isDirectory root = true)
    (trace : Trace env (Run.begin store [root] false) h r) :
    (env.faults.Caught → ∃ later last, Trace env r later last ∧ last.canceled = r.canceled ∧ last.Checked) ∧
      (r.main = .ended (.ok ()) → r.canceled = false →
        (Path.isSkippedDirectory (Path.baseName root) = true → h.handed = [] ∧ h.skips = [root]) ∧
          (Path.isSkippedDirectory (Path.baseName root) = false → Toured store root h)) := by
  refine ⟨fun caught => trace.ends caught wellFormed ?_, fun ok going => ?_⟩
  · exact List.forall_mem_singleton.mpr (store.directoryPlain wellFormed directory)
  obtain ⟨handed, noted⟩ := trace.toured wellFormed directory ok going
  refine ⟨fun skipped => ?_, fun entered => ?_⟩
  · simp only [Store.units, Store.skips, directory, skipped, if_true, List.map_eq_nil_iff] at handed noted
    exact ⟨handed, noted⟩
  · simp only [Store.units, Store.skips, directory, entered, if_true, if_false, Bool.false_eq_true] at handed noted
    have regular := Store.gathersRegular wellFormed.unique
    have shunned := Store.gathersShunned wellFormed.unique
    have tours := Store.selectionTours wellFormed root
    constructor
    · intro files
      rw [handed]
      exact ⟨fun tour => tours.unique tour, fun same => same ▸ tours⟩
    · rw [handed]
      exact regular.once wellFormed slashFree root
    · intro path mem
      rw [handed] at mem
      exact regular.trail wellFormed slashFree mem
    · intro path
      rw [noted]
      exact shunned.members wellFormed
    · rw [noted]
      exact shunned.once wellFormed slashFree root

end

theorem unfaultedEnds {env : Conditions} (unfaulted : env.faults = []) {store : Store} (wellFormed : store.WellFormed)
    {path : String} (plain : Path.hasNull path = false) :
    ∃ h r, Trace env (Run.begin store [path] false) h r ∧ r.canceled = false ∧ r.Checked :=
  Trace.start.ends (by simp [Faults.Caught, unfaulted]) wellFormed (List.forall_mem_singleton.mpr plain)

theorem linkedSlashFree (content : Bytes) : (linkedStore content).SlashFree := by
  rw [Store.SlashFree, linkedKeys]
  decide

def vendorStore : Store where
  items := [(["vendor"], .directory Store.directoryMode)]

theorem vendorWellFormed : vendorStore.WellFormed ∧ vendorStore.SlashFree := by
  have keys : vendorStore.keys = [[], ["vendor"]] := rfl
  refine ⟨⟨?_, ?_⟩, ?_⟩
  · rw [Store.Unique, keys]
    decide
  · rw [keys]
    decide
  · rw [Store.SlashFree, keys]
    decide

theorem vendorDirectory : vendorStore.isDirectory "vendor" = true := by
  have there : vendorStore.entry [] "vendor" = .ok (.directory Store.directoryMode) ∧
      vendorStore.find? ["vendor"] = some (.directory Store.directoryMode) := ⟨rfl, rfl⟩
  have names : Path.isTurn "vendor" = false ∧ Path.isAbsolute "vendor" = false ∧ Path.split "vendor" = ["vendor"] ∧
      "vendor".utf8ByteSize = 6 := by decide
  have home : vendorStore.home.names = [] := rfl
  simp [Store.isDirectory, Item.isDirectory, Store.stat, Store.locate, Store.origin, Store.follow, Store.pathLimit,
    Store.linkLimit, Store.itemAt, bind, Except.bind, there, names, home]

theorem vendorSkipped : Path.isSkippedDirectory (Path.baseName "vendor") = true := by decide

theorem vendorRun : ∃ h r, Trace reporting (Run.begin vendorStore ["vendor"] false) h r ∧ r.main = .ended (.ok ()) ∧
    r.canceled = false := by
  have plain : ∀ path ∈ ["vendor"], Path.hasNull path = false := by decide
  have wellFormed := vendorWellFormed.1
  have nothing : ["vendor"].flatMap vendorStore.units = [] := by simp [Store.units, vendorDirectory, vendorSkipped]
  have opens : ∀ path ∈ ["vendor"], vendorStore.Opens path := by
    simp only [List.forall_mem_singleton]
    intro _ _ walks
    cases vendorSkipped.symm.trans walks.opened
  obtain ⟨h, r, trace, going, checked⟩ := unfaultedEnds (rfl : reporting.faults = []) wellFormed (plain _ (.head _))
  obtain ⟨-, ended⟩ := trace.fine wellFormed (by simp [Faults.OfUnits, reporting]) plain opens (by simp [nothing]) checked
    going (by simp [nothing])
  exact ⟨h, r, trace, ended, going⟩

/-- A tree with a directory to be gone into, and with one to be skipped in either. -/
def nestedStore : Store where
  items := [(["d"], .directory Store.directoryMode), (["d", "e"], .directory Store.directoryMode),
    (["d", "e", "b.go"], .file 0o644 exitSource), (["d", "e", ".git"], .directory Store.directoryMode),
    (["d", "vendor"], .directory Store.directoryMode), (["d", "vendor", "c.go"], .file 0o644 exitSource),
    (["d", "a.go"], .file 0o644 exitSource)]

theorem nestedWellFormed : nestedStore.WellFormed ∧ nestedStore.SlashFree := by
  have keys : nestedStore.keys = [[], ["d"], ["d", "e"], ["d", "e", "b.go"], ["d", "e", ".git"], ["d", "vendor"],
    ["d", "vendor", "c.go"], ["d", "a.go"]] := rfl
  refine ⟨⟨?_, ?_⟩, ?_⟩
  · rw [Store.Unique, keys]
    decide
  · rw [keys]
    decide
  · rw [Store.SlashFree, keys]
    decide

theorem nestedFinds : nestedStore.find? ["d"] = some (.directory Store.directoryMode) ∧
    nestedStore.find? ["d", "vendor"] = some (.directory Store.directoryMode) ∧
    nestedStore.find? ["d", "e"] = some (.directory Store.directoryMode) ∧
    nestedStore.find? ["d", "e", ".git"] = some (.directory Store.directoryMode) ∧
    nestedStore.find? ["d", "e", "b.go"] = some (.file 0o644 exitSource) ∧
    nestedStore.find? ["d", "a.go"] = some (.file 0o644 exitSource) := ⟨rfl, rfl, rfl, rfl, rfl, rfl⟩

theorem nestedPlaces : nestedStore.locate "d" = .ok ["d"] ∧ nestedStore.locate "d/a.go" = .ok ["d", "a.go"] ∧
    nestedStore.locate "d/e" = .ok ["d", "e"] ∧ nestedStore.locate "d/e/b.go" = .ok ["d", "e", "b.go"] := by
  have entries : nestedStore.entry [] "d" = .ok (.directory Store.directoryMode) ∧
      nestedStore.entry ["d"] "a.go" = .ok (.file 0o644 exitSource) ∧
      nestedStore.entry ["d"] "e" = .ok (.directory Store.directoryMode) ∧
      nestedStore.entry ["d", "e"] "b.go" = .ok (.file 0o644 exitSource) := ⟨rfl, rfl, rfl, rfl⟩
  have named : Path.isTurn "d" = false ∧ Path.isTurn "a.go" = false ∧ Path.isTurn "e" = false ∧
      Path.isTurn "b.go" = false := by decide
  have relative : Path.isAbsolute "d" = false ∧ Path.isAbsolute "d/a.go" = false ∧ Path.isAbsolute "d/e" = false ∧
      Path.isAbsolute "d/e/b.go" = false := by decide
  have splits : Path.split "d" = ["d"] ∧ Path.split "d/a.go" = ["d", "a.go"] ∧ Path.split "d/e" = ["d", "e"] ∧
      Path.split "d/e/b.go" = ["d", "e", "b.go"] := by decide
  have short : "d".utf8ByteSize = 1 ∧ "d/a.go".utf8ByteSize = 6 ∧ "d/e".utf8ByteSize = 3 ∧
      "d/e/b.go".utf8ByteSize = 8 := by decide
  have home : nestedStore.home.names = [] := rfl
  simp [Store.locate, Store.origin, Store.follow, Store.pathLimit, Store.linkLimit, entries, named, relative, splits,
    short, home]

theorem nestedFiles : nestedStore.isDirectory "d" = true ∧ nestedStore.isFile "d/a.go" = true ∧
    nestedStore.isFile "d/e/b.go" = true ∧ nestedStore.read "d/a.go" = .ok exitSource ∧
    nestedStore.read "d/e/b.go" = .ok exitSource := by
  have readable : Store.isReadable 0o644 = true := by decide
  simp [Store.isDirectory, Item.isDirectory, Store.isFile, Store.read, Store.stat, bind, Except.bind, Store.itemAt,
    nestedPlaces, nestedFinds, readable]

theorem nestedListings : nestedStore.list "d" = .ok ⟨["e", "vendor"], [], ["a.go"]⟩ ∧
    nestedStore.list "d/e" = .ok ⟨[".git"], [], ["b.go"]⟩ := by
  have names : nestedStore.namesBelow ["d"] = ["e", "vendor", "a.go"] ∧
      nestedStore.namesBelow ["d", "e"] = ["b.go", ".git"] := ⟨rfl, rfl⟩
  rw [Store.listFound nestedPlaces.1 nestedFinds.1 (by decide),
    Store.listFound nestedPlaces.2.2.1 nestedFinds.2.2.1 (by decide)]
  simp [Store.listing, Store.isBranch, Item.isLink, names, nestedFinds]

theorem nestedVisits : Visit.ofListing "d" ⟨["e", "vendor"], [], ["a.go"]⟩ = ⟨["d/vendor"], ["d/a.go"], ["d/e"]⟩ ∧
    Visit.ofListing "d/e" ⟨[".git"], [], ["b.go"]⟩ = ⟨["d/e/.git"], ["d/e/b.go"], []⟩ := by
  have sorted : ascending ["e", "vendor"] = ["e", "vendor"] := List.mergeSort_of_pairwise (by decide)
  have alone (name : String) : ascending [name] = [name] := List.mergeSort_singleton _
  simp only [Visit.ofListing, sorted, alone, List.append_nil]
  decide

theorem nestedUnits : nestedStore.units "d" = ["d/a.go", "d/e/b.go"] ∧ nestedStore.skips "d" = ["d/vendor", "d/e/.git"] := by
  have wellFormed := nestedWellFormed.1
  obtain ⟨outer, inner⟩ := nestedListings
  simp [Store.units, Store.skips, directoryWalked, nestedFiles, Store.selectionListed wellFormed outer,
    Store.selectionListed wellFormed inner, Store.noticesListed wellFormed outer, Store.noticesListed wellFormed inner,
    nestedVisits]

theorem nestedOpens : nestedStore.Opens "d" := by
  obtain ⟨outer, inner⟩ := nestedListings
  refine Store.opensWithin nestedWellFormed.1.unique ["d", "d/e"] (.head _) ?_
  simp [outer, inner, nestedVisits]

theorem reportingFine {store : Store} {paths : List String} {unit : String} (unlisted : unit ∉ paths)
    (read : store.read unit = .ok exitSource) :
    reporting.failuresFor store unit (reporting.faceOf store paths unit) = [] := by
  obtain ⟨x, made, -⟩ := exitFormats unit
  have unfaulted : reporting.faults.find? .read unit = none := rfl
  have look : reporting.lookOf store unit = .ok exitSource := by
    simp only [Conditions.lookOf, Conditions.readOf, Run.readFile, Faults.guarded, Run.begin, read, Except.mapError,
      unfaulted]
  have outcome : Run.outcome reporting unit exitSource = .ok x := by
    have formats : Run.formatUnit reporting unit exitSource = .ok x := made
    simp [Run.outcome, formats]
  have fine := Formatted.reportUnwritten reporting.faults store (show x.isWritten reporting.settings = false by
    simp [Formatted.isWritten, reporting])
  simp [Conditions.faceOf, unlisted, Conditions.failuresFor, look, outcome, Conditions.writeFailure, fine.1]

theorem nestedRun : ∃ h r, Trace reporting (Run.begin nestedStore ["d"] false) h r ∧ r.main = .ended (.ok ()) ∧
    r.canceled = false := by
  have plain : ∀ path ∈ ["d"], Path.hasNull path = false := by decide
  have wellFormed := nestedWellFormed.1
  have listed : ["d"].flatMap nestedStore.units = ["d/a.go", "d/e/b.go"] := by simp [nestedUnits]
  have apart : (["d"].flatMap nestedStore.units).Pairwise nestedStore.Apart := by
    simp [listed, Store.Apart, nestedPlaces]
  have fine : ∀ unit ∈ ["d"].flatMap nestedStore.units,
      reporting.failuresFor nestedStore unit (reporting.faceOf nestedStore ["d"] unit) = [] := by
    rw [listed, List.forall_mem_cons, List.forall_mem_singleton]
    exact ⟨reportingFine (by decide) nestedFiles.2.2.2.1, reportingFine (by decide) nestedFiles.2.2.2.2⟩
  obtain ⟨h, r, trace, going, checked⟩ := unfaultedEnds (rfl : reporting.faults = []) wellFormed (plain _ (.head _))
  obtain ⟨-, ended⟩ := trace.fine wellFormed nofun plain (by simpa using nestedOpens) apart checked going fine
  exact ⟨h, r, trace, ended, going⟩

theorem linkedToured :
    (∃ h r, Trace reporting (Run.begin (linkedStore exitSource) ["d"] false) h r ∧ r.main = .ended (.ok ()) ∧
      Toured (linkedStore exitSource) "d" h) ∧
    (∃ h r, Trace reporting (Run.begin nestedStore ["d"] false) h r ∧ r.main = .ended (.ok ()) ∧
      h.handed.map Prod.fst = ["d/a.go", "d/e/b.go"] ∧ h.skips = ["d/vendor", "d/e/.git"] ∧ Toured nestedStore "d" h) ∧
    (∃ h r, Trace reporting (Run.begin vendorStore ["vendor"] false) h r ∧ r.main = .ended (.ok ()) ∧
      h.handed = [] ∧ h.skips = ["vendor"]) ∧
    ∃ h r, Trace reporting (Run.begin vendorStore ["vendor"] false) h r ∧ r.Checked := by
  obtain ⟨wellFormed, slashFree⟩ := vendorWellFormed
  obtain ⟨nested, nestedSlashFree⟩ := nestedWellFormed
  obtain ⟨h, r, trace, -, going, ended, -⟩ := reportsBoth
  obtain ⟨h', r', trace', ended', going'⟩ := vendorRun
  obtain ⟨g, a, deep, endedDeep, goingDeep⟩ := nestedRun
  have tours := (walkTours (linkedWellFormed exitSource) (linkedSlashFree exitSource) (linkedFiles exitSource).1 trace).2
  have deeper := (walkTours nested nestedSlashFree nestedFiles.1 deep).2
  have skips := (walkTours wellFormed slashFree vendorDirectory trace').2
  obtain ⟨handed, told⟩ := deep.toured nested nestedFiles.1 endedDeep goingDeep
  have caught : reporting.faults.Caught := by simp [Faults.Caught, reporting]
  obtain ⟨later, last, more, -, checked⟩ := (walkTours wellFormed slashFree vendorDirectory .start).1 caught
  exact ⟨⟨h, r, trace, ended, (tours ended going).2 directoryWalked⟩,
    ⟨g, a, deep, endedDeep, handed.trans nestedUnits.1, told.trans nestedUnits.2,
      (deeper endedDeep goingDeep).2 directoryWalked⟩,
    ⟨h', r', trace', ended', (skips ended' going').1 vendorSkipped⟩, later, last, more, checked⟩

end Batch
end ExitSpacing
