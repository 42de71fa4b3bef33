import ExitSpacing.Proofs.Lasting

/-! The files that a walk selects, as a recursive function of the store, and how the walk
goes through them: while nothing stops it, each of them stays ahead until it is handed to a
worker or cannot be read. -/
namespace ExitSpacing

namespace Path

theorem splitNull {cs : List Char} (null : '\x00' ∈ cs) : ∃ part ∈ splitSlashes cs, '\x00' ∈ part := by
  induction cs with
  | nil => cases null
  | cons c cs ih =>
    by_cases here : c = '\x00'
    · subst here
      cases rest : splitSlashes cs <;> simp [splitSlashes, rest]
    · obtain ⟨part, mem, inside⟩ := ih ((List.mem_cons.mp null).resolve_left (Ne.symm here))
      unfold splitSlashes
      split
      · rename_i same; cases same
      · rename_i same
        cases same
        exact ⟨part, List.mem_cons_of_mem _ mem, inside⟩
      · rename_i d rest other same
        cases same
        cases rest' : splitSlashes cs with
        | nil => rw [rest'] at mem; cases mem
        | cons first more =>
          rw [rest'] at mem
          obtain rfl | mem := List.mem_cons.mp mem
          · exact ⟨_, List.mem_cons_self .., List.mem_cons_of_mem _ inside⟩
          · exact ⟨part, List.mem_cons_of_mem _ mem, inside⟩

theorem plainOfSplit {path : String} (plain : ∀ c ∈ split path, hasNull c = false) : hasNull path = false := by
  refine Bool.eq_false_iff.mpr fun null => ?_
  obtain ⟨part, mem, inside⟩ := splitNull (List.contains_iff_mem.mp null)
  have none := plain (String.ofList part) (List.mem_map_of_mem mem)
  rw [hasNull, String.toList_ofList] at none
  rw [List.contains_iff_mem.mpr inside] at none
  cases none

end Path

namespace Store

def visitsTo (s : Store) : (depth : Nat) → String → List Batch.Visit
  | 0, _ => []
  | depth + 1, path => match s.list path with
    | .error _ => []
    | .ok listing =>
      let visit := Batch.Visit.ofListing path listing
      visit :: visit.inner.flatMap (s.visitsTo depth)

/-- The directories that a walk goes into. No path is deep enough to be cut off. -/
def visits (s : Store) (path : String) : List Batch.Visit := s.visitsTo pathLimit path

def selection (s : Store) (path : String) : List String := (s.visits path).flatMap fun v => v.files.filter s.isFile

/-- The files that a path of the list stands for. -/
def units (s : Store) (path : String) : List String :=
  if s.isDirectory path then
    if Path.isSkippedDirectory (Path.baseName path) then [] else s.selection path
  else [path]

section
variable {s : Store}

theorem joinLonger (path : String) {name : String} (named : name ≠ "") :
    path.utf8ByteSize < (Path.join path name).utf8ByteSize := by
  have size : 0 < name.utf8ByteSize := by
    refine Nat.pos_of_ne_zero fun none => named ?_
    simpa using none
  unfold Path.join
  split
  · rw [String.utf8ByteSize_append]
    omega
  · rw [String.utf8ByteSize_append, String.utf8ByteSize_append]
    omega

theorem listOk {path : String} {listing : Listing} (ok : s.list path = .ok listing) :
    ∃ location mode, s.locate path = .ok location ∧ s.find? location = some (.directory mode) ∧ isReadable mode = true ∧
      listing = s.listing path location := by
  simp only [list, bind, Except.bind] at ok
  split at ok
  · cases ok
  rename_i location located
  split at ok
  · cases ok
  rename_i item found
  split at ok
  · rename_i mode
    split at ok
    · rename_i readable
      cases ok
      exact ⟨location, mode, located, itemAtOk found, readable, rfl⟩
    · cases ok
  · cases ok

theorem listFound {path : String} {location : Location} {mode : Nat} (located : s.locate path = .ok location)
    (found : s.find? location = some (.directory mode)) (readable : isReadable mode = true) :
    s.list path = .ok (s.listing path location) := by
  simp only [list, located, bind, Except.bind, itemAtFound found, if_pos readable]

theorem listShort {path : String} {listing : Listing} (ok : s.list path = .ok listing) :
    path.utf8ByteSize < pathLimit := by
  obtain ⟨location, -, located, -⟩ := listOk ok
  unfold locate at located
  split at located
  · cases located
  · split at located
    · cases located
    · omega

theorem innerListed {path inner : String} {listing : Listing} (mem : inner ∈ (Batch.Visit.ofListing path listing).inner) :
    ∃ name ∈ listing.directories, Path.join path name = inner := by
  simp only [Batch.Visit.ofListing, List.mem_map, List.mem_filter] at mem
  obtain ⟨name, ⟨listed, -⟩, same⟩ := mem
  exact ⟨name, (List.mergeSort_perm _ _).subset listed, same⟩

theorem innerLonger (wellFormed : s.WellFormed) {path inner : String} {listing : Listing} (ok : s.list path = .ok listing)
    (mem : inner ∈ (Batch.Visit.ofListing path listing).inner) : path.utf8ByteSize < inner.utf8ByteSize := by
  obtain ⟨name, listed, rfl⟩ := innerListed mem
  refine joinLonger path ?_
  obtain ⟨location, -, -, -, -, rfl⟩ := listOk ok
  have below := (List.mem_filter.mp listed).1
  rw [namesBelowKeys, List.mem_filterMap] at below
  obtain ⟨key, mem, last⟩ := below
  split at last
  · exact (wellFormed.named key mem name (List.mem_of_getLast? last)).1
  · cases last

theorem visitsDeeper (wellFormed : s.WellFormed) (depth : Nat) (path : String)
    (deep : pathLimit ≤ depth + path.utf8ByteSize) : s.visitsTo (depth + 1) path = s.visitsTo depth path := by
  induction depth generalizing path with
  | zero =>
    rw [visitsTo, visitsTo]
    split
    · rfl
    · rename_i listing ok
      have short := listShort ok
      omega
  | succ depth ih =>
    rw [visitsTo, visitsTo]
    split
    · rfl
    · rename_i listing ok
      refine congrArg _ (List.flatMap_congr fun inner mem => ih inner ?_)
      have longer := innerLonger wellFormed ok mem
      omega

theorem visitsListed (wellFormed : s.WellFormed) {path : String} {listing : Listing} (ok : s.list path = .ok listing) :
    s.visits path = Batch.Visit.ofListing path listing ::
      (Batch.Visit.ofListing path listing).inner.flatMap s.visits := by
  rw [visits, ← visitsDeeper wellFormed pathLimit path (by omega), visitsTo, ok]
  rfl

theorem selectionListed (wellFormed : s.WellFormed) {path : String} {listing : Listing} (ok : s.list path = .ok listing) :
    s.selection path = (Batch.Visit.ofListing path listing).files.filter s.isFile ++
      (Batch.Visit.ofListing path listing).inner.flatMap s.selection := by
  rw [selection, visitsListed wellFormed ok, List.flatMap_cons, List.flatMap_assoc]
  rfl

theorem turnPlain {c : String} (turn : Path.isTurn c = true) : Path.hasNull c = false := by
  simp only [Path.isTurn, Path.isProper, Bool.or_eq_true, Bool.not_eq_true', Bool.and_eq_false_iff, bne_eq_false_iff_eq,
    beq_iff_eq] at turn
  obtain (rfl | rfl) | rfl := turn <;> decide

theorem Leads.plain (wellFormed : s.WellFormed) {here there : Location} {components : List String} {n : Nat}
    (leads : Leads s here components there n) : ∀ c ∈ components, Path.hasNull c = false := by
  have entered {here : Location} {c : String} {item : Item} (held : s.entry here c = .ok item) : Path.hasNull c = false :=
    (wellFormed.named _ (keyMem (entryOk held).2.2) c (by simp)).2
  induction leads with
  | done => simp
  | turns turn _ _ ih => exact List.forall_mem_cons.mpr ⟨turnPlain turn, ih⟩
  | enters _ held _ _ ih => exact List.forall_mem_cons.mpr ⟨entered held, ih⟩
  | crosses _ held _ _ _ ih => exact List.forall_mem_cons.mpr ⟨entered held, ih⟩

theorem directoryPresent {path : String} (directory : s.isDirectory path = true) : ∃ item, s.stat path = .ok item := by
  unfold isDirectory at directory
  split at directory
  · exact ⟨_, ‹_›⟩
  · cases directory

theorem fileNoDirectory {path : String} (file : s.isFile path = true) : s.isDirectory path = false := by
  unfold isFile at file
  unfold isDirectory
  split at file <;> simp_all [Item.isDirectory]

theorem locatedPlain (wellFormed : s.WellFormed) {path : String} {there : Location} (located : s.locate path = .ok there) :
    Path.hasNull path = false := by
  obtain ⟨n, -, leads⟩ := locateLeads located
  exact Path.plainOfSplit (leads.plain wellFormed)

theorem directoryPlain (wellFormed : s.WellFormed) {path : String} (directory : s.isDirectory path = true) :
    Path.hasNull path = false := by
  obtain ⟨item, there⟩ := directoryPresent directory
  cases located : s.locate path with
  | error => simp [stat, located, bind, Except.bind] at there
  | ok place => exact locatedPlain wellFormed located

end
end Store

namespace Batch

def Event.disturbs : Event → Bool
  | .canceled | .missing .. | .unlisted .. | .broken _ | .unhanded .. | .escaped _ => true
  | .checked asked => asked
  | _ => false

def Event.stops : Event → Bool
  | .canceled | .unlisted .. | .broken _ | .unhanded .. | .escaped _ => true
  | .checked asked => asked
  | _ => false

def Event.met? : Event → Option String
  | .handed path _ | .kept path _ | .unread path _ => some path
  | _ => none

def Event.faced? : Event → Option String
  | .missing path _ | .handed path _ | .kept path _ | .unread path _ => some path
  | _ => none

def History.met (h : History) : List String := h.filterMap (·.2.met?)

def History.faced (h : History) : List String := h.filterMap (·.2.faced?)

theorem History.metAppend (h : History) (events : List Event) (turn : Nat) :
    (h ++ events.map (turn, ·) : History).met = h.met ++ events.filterMap Event.met? := by
  simp only [met, List.filterMap_append, List.filterMap_map]
  rfl

theorem History.facedAppend (h : History) (events : List Event) (turn : Nat) :
    (h ++ events.map (turn, ·) : History).faced = h.faced ++ events.filterMap Event.faced? := by
  simp only [faced, List.filterMap_append, List.filterMap_map]
  rfl

def History.Quiet (h : History) : Prop := ∀ entry ∈ h, entry.2.disturbs = false

def History.Unstopped (h : History) : Prop := ∀ entry ∈ h, entry.2.stops = false

theorem History.Quiet.unstopped {h : History} (quiet : h.Quiet) : h.Unstopped := by
  intro entry mem
  have undisturbed := quiet entry mem
  cases event : entry.2 <;> rw [event] at undisturbed <;> first | rfl | exact undisturbed

theorem History.Quiet.faced {h : History} (quiet : h.Quiet) : h.faced = h.met := by
  refine List.filterMap_congr fun entry mem => ?_
  have undisturbed := quiet entry mem
  cases event : entry.2 <;> rw [event] at undisturbed <;> first | rfl | cases undisturbed

def selected (s : Store) (files pending : List String) : List String :=
  files.filter s.isFile ++ pending.flatMap s.selection

def Walk.ahead (s : Store) (w : Walk) : List String :=
  match w.walker with
  | .begin => if Path.isSkippedDirectory (Path.baseName w.root) then [] else s.selection w.root
  | .list pending => selected s [] pending
  | .arrived path listing pending =>
    selected s (Visit.ofListing path listing).files ((Visit.ofListing path listing).inner ++ pending)
  | .notify _ files pending | .choose files pending | .prune _ _ files pending => selected s files pending
  | .wait file files pending | .poll file files pending | .check file files pending | .read file files pending
  | .start file _ files pending => file :: selected s files pending
  | .join _ | .closed => []

def Run.ahead (s : Store) (r : Run) : List String :=
  match r.main with
  | .next paths => paths.flatMap s.units
  | .inspect path rest => (path :: rest).flatMap s.units
  | .read path rest => path :: rest.flatMap s.units
  | .format _ _ rest | .apply _ rest => rest.flatMap s.units
  | .drain rest => r.walk.elim [] (·.ahead s) ++ rest.flatMap s.units
  | .ended _ => []

structure Run.Calm (r : Run) : Prop where
  going : r.canceled = false
  walking : ∀ w, r.walk = some w → w.failed = false

section
variable {env : Conditions} {s : Store} {r next : Run} {w walk : Walk} {events : List Event} {failures : List Failure}

theorem WalkerMove.ahead (move : WalkerMove env r w events failures walk) (wellFormed : s.WellFormed)
    (shape : r.store.blank = s.blank) (goes : r.stops w = false) (unstopped : ∀ event ∈ events, event.stops = false) :
    events.filterMap Event.faced? ++ walk.ahead s = w.ahead s := by
  cases move with
  | skips here skipped => simp [Walk.ahead, Walk.leave, Walk.goTo, here, skipped, Event.faced?]
  | begins here entered => simp [Walk.ahead, Walk.goTo, here, entered, selected]
  | exhausts here => simp [Walk.ahead, Walk.leave, Walk.goTo, here, selected]
  | @lists path pending listing here listed =>
    rw [Store.listShape shape] at listed
    have whole := Store.selectionListed wellFormed (Faults.guardedOk listed).2
    simp [Walk.ahead, Walk.goTo, here, selected, whole]
  | missesListing | breaks | missesStart => simp [Event.stops] at unstopped
  | turnsBack here stops | givesUp here stops | withdraws here stops => rw [goes] at stops; cases stops
  | chooses here regular =>
    rw [Store.isFileShape shape] at regular
    simp [Walk.ahead, Walk.goTo, here, selected, regular]
  | passesOver here other =>
    rw [Store.isFileShape shape] at other
    simp [Walk.ahead, Walk.goTo, here, selected, other]
  | _ => simp_all [Walk.ahead, Walk.goTo, Walk.put, Walk.acquire, selected, List.filterMap_cons, Event.faced?]

theorem WorkerMove.ahead {i : Nat} {worker : Worker} (move : WorkerMove env w i worker events failures walk) :
    walk.ahead s = w.ahead s ∧ events.filterMap Event.faced? = [] := by
  cases move <;> exact ⟨rfl, rfl⟩

theorem lookUpDirectory {path : String} (found : r.lookUp env path = .ok true) : r.store.isDirectory path = true := by
  unfold Run.lookUp at found
  split at found
  · rename_i directory
    exact (Bool.and_eq_true_iff.mp directory).2
  · split at found
    · cases found
    · cases found
    · split at found
      · cases found
      · split at found <;> cases found

theorem lookUpAlone (wellFormed : s.WellFormed) (shape : r.store.blank = s.blank) {path : String} {trouble : Trouble}
    (failed : r.lookUp env path = .error trouble) : s.isDirectory path = false := by
  refine Bool.eq_false_iff.mpr fun directory => ?_
  have plain := Store.directoryPlain wellFormed directory
  rw [← Store.isDirectoryShape shape] at directory
  simp [Run.lookUp, plain, directory] at failed

theorem lookUpOther {path : String} (found : r.lookUp env path = .ok false) : r.store.isDirectory path = false := by
  unfold Run.lookUp at found
  split at found
  · cases found
  · rename_i other
    split at found
    · cases found
    · cases found
    · split at found
      · cases found
      · rename_i plain
        simpa [plain] using other

theorem Accepts.goes {x : Formatted} {main : Main} (accepts : Accepts env r x main events next)
    (unstopped : ∀ event ∈ events, event.stops = false) :
    next.main = main ∧ next.walk = r.walk ∧ next.canceled = r.canceled ∧ events.filterMap Event.faced? = [] := by
  cases accepts with
  | reports | fails => exact ⟨rfl, rfl, rfl, rfl⟩
  | escapes => simp [Event.stops] at unstopped

@[simp] theorem Walk.takenAhead (w : Walk) (queue : List Message) : Walk.ahead s { w with queue } = w.ahead s := rfl

theorem MainMove.ahead (move : MainMove env r events next) (wellFormed : s.WellFormed) (steady : r.Steady) (calm : r.Calm)
    (shape : r.store.blank = s.blank) (unstopped : ∀ event ∈ events, event.stops = false) :
    events.filterMap Event.faced? ++ next.ahead s = r.ahead s := by
  cases move with
  | finishes here last =>
    obtain ⟨log, finish⟩ := finishIs r
    obtain rfl | canceled := last
    · rw [finish]
      simp [Run.ahead, here, Event.faced?]
    · rw [calm.going] at canceled
      cases canceled
  | opens here => simp [Run.ahead, here, List.filterMap_cons, Event.faced?]
  | walks here found =>
    have directory := lookUpDirectory found
    rw [Store.isDirectoryShape shape] at directory
    simp [Run.ahead, here, Store.units, directory, Walk.ahead, List.filterMap_cons, Event.faced?]
  | looks here found =>
    have other := lookUpOther found
    rw [Store.isDirectoryShape shape] at other
    simp [Run.ahead, here, Store.units, other]
  | misses here failed =>
    have alone := lookUpAlone wellFormed shape failed
    simp [Run.ahead, here, Store.units, alone, Event.faced?]
  | escapes => simp [Event.stops] at unstopped
  | reads here | missesFile here | formats here | fails here => simp [Run.ahead, here, List.filterMap_cons, Event.faced?]
  | applies here accepts =>
    obtain ⟨main, -, -, faced⟩ := accepts.goes unstopped
    simp [Run.ahead, main, here, faced]
  | closes here walk first =>
    -- The end of the queue comes behind all that the walker does, so its walk has nothing ahead.
    have closed := (steady.walking _ walk).1.closed first
    simp [Run.ahead, here, walk, Walk.ahead, closed, List.filterMap_cons, Event.faced?]
  | notes here walk first => simp [Run.ahead, here, walk, List.filterMap_cons, Event.faced?]
  | receives here walk first accepts =>
    obtain ⟨main, walks, -, faced⟩ := accepts.goes fun event mem => unstopped event (List.mem_cons_of_mem _ mem)
    simp [Run.ahead, here, walk, main, walks, faced, List.filterMap_cons, Event.faced?]

theorem Moves.ahead (moves : Moves env r events next) (wellFormed : s.WellFormed) (steady : r.Steady) (calm : r.Calm)
    (shape : r.store.blank = s.blank) (unstopped : ∀ event ∈ events, event.stops = false) :
    next.Escaped ∨ events.filterMap Event.faced? ++ next.ahead s = r.ahead s := by
  cases moves with
  | cancels => simp [Event.stops] at unstopped
  | main move => exact .inr (move.ahead wellFormed steady calm shape unstopped)
  | @walker w _ failures walk log here move =>
    have goes : r.stops w = false := by rw [Run.stops, calm.going, calm.walking w here]; rfl
    have one := move.ahead wellFormed shape goes unstopped
    obtain ⟨rest, drains⟩ | escaped := (steady.walking w here).2
    · refine .inr ?_
      simp only [Run.ahead, drains, here, Option.elim_some, ← one, List.append_assoc]
    · exact .inl escaped
  | @worker w i worker _ failures walk log formatted here employed move =>
    obtain ⟨same, faced⟩ := move.ahead (s := s)
    refine .inr ?_
    rw [faced, List.nil_append]
    unfold Run.ahead
    rw [here]
    simp only [Option.elim_some, same]

theorem WalkerMove.calm (move : WalkerMove env r w events failures walk)
    (unstopped : ∀ event ∈ events, event.stops = false) : walk.failed = w.failed := by
  cases move with
  | missesListing => simp [Event.stops] at unstopped
  | _ => rfl

theorem WorkerMove.calm {i : Nat} {worker : Worker} (move : WorkerMove env w i worker events failures walk) :
    walk.failed = w.failed := by
  cases move <;> rfl

theorem MainMove.calm (move : MainMove env r events next) (calm : r.Calm)
    (unstopped : ∀ event ∈ events, event.stops = false) : next.Calm := by
  cases move with
  | finishes here =>
    obtain ⟨log, finish⟩ := finishIs r
    rw [finish]
    exact ⟨calm.going, calm.walking⟩
  | walks =>
    refine ⟨calm.going, ?_⟩
    rintro w ⟨⟩
    rfl
  | applies here accepts =>
    obtain ⟨-, walks, canceled, -⟩ := accepts.goes unstopped
    exact ⟨canceled.trans calm.going, fun w walk => calm.walking w (walks.symm.trans walk)⟩
  | closes => exact ⟨calm.going, by simp⟩
  | notes here walk =>
    refine ⟨calm.going, ?_⟩
    rintro w ⟨⟩
    have kept := calm.walking _ walk
    exact kept
  | receives here walk first accepts =>
    obtain ⟨-, walks, canceled, -⟩ := accepts.goes fun event mem => unstopped event (List.mem_cons_of_mem _ mem)
    refine ⟨canceled.trans calm.going, fun v there => ?_⟩
    cases walks.symm.trans there
    have kept := calm.walking _ walk
    exact kept
  | _ => exact ⟨calm.going, calm.walking⟩

theorem Moves.calm (moves : Moves env r events next) (calm : r.Calm) (unstopped : ∀ event ∈ events, event.stops = false) :
    next.Calm := by
  cases moves with
  | cancels => simp [Event.stops] at unstopped
  | main move => exact move.calm calm unstopped
  | walker here move =>
    refine ⟨calm.going, ?_⟩
    rintro w ⟨⟩
    exact (move.calm unstopped).trans (calm.walking _ here)
  | worker here employed move =>
    refine ⟨calm.going, ?_⟩
    rintro w ⟨⟩
    exact move.calm.trans (calm.walking _ here)

theorem Moves.escapes (moves : Moves env r events next) (escaped : next.Escaped) :
    r.Escaped ∨ ∃ trouble, .escaped trouble ∈ events := by
  obtain ⟨trouble, ended, other⟩ := escaped
  cases moves with
  | cancels | walker | worker => exact .inl ⟨trouble, ended, other⟩
  | main move =>
    cases move with
    | finishes here =>
      obtain ⟨log, finish⟩ := finishIs r
      rw [finish] at ended
      exact absurd (Run.verdictError (Main.ended.inj ended)) (other _)
    | escapes => exact .inr ⟨_, List.mem_singleton.mpr rfl⟩
    | applies here accepts =>
      cases accepts with
      | escapes => exact .inr ⟨_, .tail _ (List.mem_singleton.mpr rfl)⟩
      | _ => cases ended
    | receives here walk first accepts =>
      cases accepts with
      | escapes => exact .inr ⟨_, .tail _ (.tail _ (List.mem_singleton.mpr rfl))⟩
      | _ => cases ended
    | notes here => cases here.symm.trans ended
    | _ => cases ended

theorem Moves.going (moves : Moves env r events next) (going : next.canceled = false) : r.canceled = false := by
  cases moves with
  | cancels => cases going
  | main move =>
    cases move with
    | finishes here =>
      obtain ⟨log, finish⟩ := finishIs r
      rw [finish] at going
      exact going
    | applies here accepts => cases accepts <;> exact going
    | receives here walk first accepts => cases accepts <;> exact going
    | _ => exact going
  | walker | worker => exact going

theorem Moves.asked (moves : Moves env r events next) (asked : r.canceled = true) : next.canceled = true := by
  by_contra going
  rw [Bool.not_eq_true] at going
  rw [moves.going going] at asked
  cases asked

theorem Moves.canceling (moves : Moves env r events next) (mem : .canceled ∈ events) : next.canceled = true := by
  cases moves with
  | cancels => rfl
  | main move =>
    cases move with
    | applies here accepts => cases accepts <;> simp at mem
    | receives here walk first accepts => cases accepts <;> simp at mem
    | _ => simp at mem
  | walker here move => cases move <;> simp at mem
  | worker here employed move => cases move <;> simp at mem

theorem Moves.escaping (moves : Moves env r events next) {trouble : Trouble} (mem : .escaped trouble ∈ events) :
    next.Escaped := by
  cases moves with
  | cancels => simp at mem
  | main move =>
    cases move with
    | escapes here other => exact ⟨_, rfl, other⟩
    | applies here accepts =>
      cases accepts with
      | escapes failed other => exact ⟨_, rfl, other⟩
      | _ => simp at mem
    | receives here walk first accepts =>
      cases accepts with
      | escapes failed other => exact ⟨_, rfl, other⟩
      | _ => simp at mem
    | _ => simp at mem
  | walker here move => cases move <;> simp at mem
  | worker here employed move => cases move <;> simp at mem

theorem Moves.marks (moves : Moves env r events next) :
    ∀ event ∈ events, event.disturbs = true →
      (∃ f ∈ next.failures, f.isOfUnit = false) ∨ next.canceled = true ∨ next.Escaped := by
  intro event mem disturbs
  have fits := moves.books.fits event mem
  have collected {f : Failure} (failure : event.failure? = some f) : f ∈ next.failures := by
    rw [moves.books.failures]
    exact List.mem_append_right _ (List.mem_filterMap.mpr ⟨event, mem, failure⟩)
  cases event with
  | missing path f => exact .inl ⟨f, collected rfl, by cases fits; rfl⟩
  | unlisted path f => exact .inl ⟨f, collected rfl, by obtain ⟨cause, rfl⟩ := fits; rfl⟩
  | broken f => exact .inl ⟨f, collected rfl, by obtain ⟨root, cause, rfl⟩ := fits; rfl⟩
  | unhanded path f => exact .inl ⟨f, collected rfl, by obtain ⟨message, rfl⟩ := fits; rfl⟩
  | canceled => exact .inr (.inl (moves.canceling mem))
  | checked canceled =>
    cases disturbs
    exact .inr (.inl (moves.asked (moves.checks mem).1.symm))
  | escaped trouble => exact .inr (.inr (moves.escaping mem))
  | _ => cases disturbs

end

/-- What a run knows that nothing stopped: the files of its list were faced in their order, or are still ahead. -/
structure Surveyed (s : Store) (paths : List String) (h : History) (r : Run) : Prop where
  calm : r.Calm
  units : h.faced ++ r.ahead s = paths.flatMap s.units

section
variable {env : Conditions} {store : Store} {paths : List String} {canceled : Bool} {h : History} {r : Run}

theorem Trace.unescaped (trace : Trace env (Run.begin store paths canceled) h r) (unstopped : h.Unstopped) : ¬ r.Escaped := by
  induction trace with
  | start => rintro ⟨trouble, ended, -⟩; cases ended
  | move move before made ih =>
    intro escaped
    obtain early | ⟨trouble, mem⟩ := (stepMoves made).escapes escaped
    · exact ih (fun entry mem => unstopped entry (List.mem_append_left _ mem)) early
    · have := unstopped _ (List.mem_append_right _ (List.mem_map_of_mem mem))
      cases this

theorem Trace.quiet (trace : Trace env (Run.begin store paths canceled) h r)
    (ofUnits : ∀ f ∈ r.failures, f.isOfUnit = true) (going : r.canceled = false) (unescaped : ¬ r.Escaped) : h.Quiet := by
  induction trace with
  | start => exact fun entry mem => absurd mem List.not_mem_nil
  | @move h r next move before made ih =>
    have moves := stepMoves made
    have before : ∀ f ∈ r.failures, f.isOfUnit = true := by
      intro f mem
      refine ofUnits f ?_
      rw [moves.books.failures]
      exact List.mem_append_left _ mem
    intro entry mem
    obtain old | new := List.mem_append.mp mem
    · exact ih before (moves.going going) (fun escaped => unescaped (escaped.move moves)) entry old
    · obtain ⟨event, inside, rfl⟩ := List.mem_map.mp new
      refine Bool.eq_false_iff.mpr fun disturbs => ?_
      obtain ⟨f, mem, other⟩ | canceled | escaped := moves.marks event inside disturbs
      · rw [ofUnits f mem] at other
        cases other
      · rw [going] at canceled
        cases canceled
      · exact unescaped escaped

theorem Trace.surveyed (trace : Trace env (Run.begin store paths false) h r) (wellFormed : store.WellFormed)
    (tidy : r.Tidy env) (unstopped : h.Unstopped) :
    Surveyed store paths h r := by
  induction trace with
  | start => exact ⟨⟨rfl, by simp [Run.begin]⟩, rfl⟩
  | @move h r next move before made ih =>
    have moves := stepMoves made
    have earlier := tidy.before moves
    have going : h.Unstopped := fun entry mem => unstopped entry (List.mem_append_left _ mem)
    have now : ∀ event ∈ r.events env move, event.stops = false := fun event mem =>
      unstopped _ (List.mem_append_right _ (List.mem_map_of_mem mem))
    obtain ⟨calm, units⟩ := ih earlier going
    obtain escaped | shaped := before.shaped wellFormed.unique earlier
    · exact absurd escaped (before.unescaped going)
    · refine ⟨moves.calm calm now, ?_⟩
      obtain escaped | one := moves.ahead wellFormed before.steady calm shaped.shape now
      · exact absurd escaped ((Trace.move move before made).unescaped unstopped)
      · rw [History.facedAppend, List.append_assoc, one, units]

end
end Batch
end ExitSpacing
