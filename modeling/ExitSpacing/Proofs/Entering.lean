import ExitSpacing.Proofs.Selecting
import Mathlib.Data.String.Basic

/-! A walk of a directory tree as a relation, apart from how it is made: the files of a directory
in ascending order, then what is below each of its subdirectories that is gone into, in ascending
order. The recursive selection of a store keeps to it, and goes to no path twice. -/
namespace ExitSpacing

namespace Path

def trail (directory : String) (names : List String) : String := names.foldl join directory

def IsName (name : String) : Prop := name ≠ "" ∧ '/' ∉ name.toList

def lead (directory : String) : List Char :=
  if directory == "" || directory.toList.getLast? == some '/' then directory.toList else directory.toList ++ ['/']

theorem joinChars (directory name : String) : (join directory name).toList = lead directory ++ name.toList := by
  unfold join lead
  split <;> simp

theorem leadJoin {name : String} (named : IsName name) (directory : String) :
    lead (join directory name) = lead directory ++ name.toList ++ ['/'] := by
  have chars : name.toList ≠ [] := fun none => named.1 (String.toList_eq_nil_iff.mp none)
  have whole := joinChars directory name
  have somewhere : join directory name ≠ "" := by
    intro none
    rw [none] at whole
    exact chars (List.append_eq_nil_iff.mp whole.symm).2
  have unended : (join directory name).toList.getLast? ≠ some '/' := by
    rw [whole, List.getLast?_append_of_ne_nil _ chars]
    exact fun last => named.2 (List.mem_of_getLast? last)
  rw [lead, if_neg (by simp [somewhere, unended]), whole]

theorem trailChars {directory : String} {names : List String} (named : ∀ name ∈ names, IsName name)
    (somewhere : names ≠ []) :
    (trail directory names).toList = lead directory ++ ['/'].intercalate (names.map String.toList) := by
  induction names generalizing directory with
  | nil => exact absurd rfl somewhere
  | cons name names ih =>
    obtain ⟨first, others⟩ := List.forall_mem_cons.mp named
    cases names with
    | nil => simp [trail, joinChars]
    | cons second names =>
      have below : (trail (join directory name) (second :: names)).toList = _ := ih others (List.cons_ne_nil _ _)
      rw [leadJoin first] at below
      simpa [trail, List.intercalate_cons_cons] using below

theorem trailInjective {directory : String} {a b : List String} (namedA : ∀ name ∈ a, IsName name)
    (namedB : ∀ name ∈ b, IsName name) (someA : a ≠ []) (someB : b ≠ []) (same : trail directory a = trail directory b) :
    a = b := by
  have slashless {names : List String} (named : ∀ name ∈ names, IsName name) :
      ∀ chars ∈ names.map String.toList, '/' ∉ chars := by
    simpa using fun name mem => (named name mem).2
  have chars : ['/'].intercalate (a.map String.toList) = ['/'].intercalate (b.map String.toList) := by
    rw [← List.append_right_inj (lead directory), ← trailChars namedA someA, ← trailChars namedB someB, same]
  -- No name holds a slash, so the path falls apart into its names again.
  have parts := congrArg (List.splitOn '/') chars
  rw [List.splitOn_intercalate _ (slashless namedA) (by simpa using someA),
    List.splitOn_intercalate _ (slashless namedB) (by simpa using someB)] at parts
  exact List.map_injective_iff.mpr (fun _ _ => String.toList_inj.mp) parts

theorem joinInjective {directory a b : String} (same : join directory a = join directory b) : a = b := by
  rw [← String.toList_inj, joinChars, joinChars, List.append_right_inj, String.toList_inj] at same
  exact same

end Path

namespace Store

def Child (s : Store) (directory name : String) (item : Item) : Prop :=
  ∃ location mode, s.locate directory = .ok location ∧ s.find? location = some (.directory mode) ∧
    isReadable mode = true ∧ s.find? (location ++ [name]) = some item

def Regular (s : Store) (directory name : String) (item : Item) : Prop :=
  Path.isEligible name = true ∧ item.isDirectory = false ∧ s.isFile (Path.join directory name) = true

/-- A walk goes into a child: it is a directory, and no link to one, and its name is not to be skipped. -/
def Passable (name : String) (item : Item) : Prop :=
  Path.isSkippedDirectory name = false ∧ item.isDirectory = true

def Shunned (s : Store) (directory name : String) (item : Item) : Prop :=
  Path.isSkippedDirectory name = true ∧ s.isBranch directory name item = true

structure Lists (s : Store) (directory : String) (P : String → Item → Prop) (names : List String) : Prop where
  ascending : names.Pairwise (· < ·)
  members : ∀ name, name ∈ names ↔ ∃ item, s.Child directory name item ∧ P name item

/-- The files that a walk hands out of some directories, one directory after the other. -/
inductive Tour (s : Store) : List String → List String → Prop where
  | done : Tour s [] []
  | enter {directory files inner pending below rest} (regular : s.Lists directory (s.Regular directory) files)
      (passable : s.Lists directory Passable inner)
      (within : Tour s (inner.map (Path.join directory)) below) (behind : Tour s pending rest) :
      Tour s (directory :: pending) (files.map (Path.join directory) ++ below ++ rest)

inductive Entered (s : Store) (root : String) : String → Prop where
  | root : Entered s root root
  | inner {directory name item} (entered : Entered s root directory) (child : s.Child directory name item)
      (passable : Passable name item) : Entered s root (Path.join directory name)

structure Walks (s : Store) (root directory : String) : Prop where
  opened : Path.isSkippedDirectory (Path.baseName root) = false
  entered : s.Entered root directory

/-- If the path is a directory, each directory that a walk of it goes into can be listed. -/
def Opens (s : Store) (path : String) : Prop :=
  s.isDirectory path = true → ∀ directory, s.Walks path directory → ∃ listing, s.list directory = .ok listing

def SlashFree (s : Store) : Prop := ∀ location ∈ s.keys, ∀ name ∈ location, '/' ∉ name.toList

section
variable {s : Store} {directory name : String} {item : Item} {names : List String} {P : String → Item → Prop}

theorem Lists.nodup (lists : s.Lists directory P names) : names.Nodup :=
  lists.ascending.imp fun {a b} (less : a < b) (same : a = b) => String.lt_irrefl a (by rwa [← same] at less)

theorem Lists.unique {others : List String} (lists : s.Lists directory P names) (again : s.Lists directory P others) :
    names = others := by
  have same := (List.perm_ext_iff_of_nodup lists.nodup again.nodup).mpr fun name =>
    (lists.members name).trans (again.members name).symm
  exact same.eq_of_pairwise (fun _ _ _ _ less more => absurd (String.lt_trans less more) (String.lt_irrefl _))
    lists.ascending again.ascending

theorem Tour.unique {pending files others : List String} (tour : s.Tour pending files) (again : s.Tour pending others) :
    files = others := by
  induction tour generalizing others with
  | done => cases again; rfl
  | enter regular passable within behind ihWithin ihBehind =>
    cases again with
    | enter regular' passable' within' behind' =>
      obtain rfl := regular.unique regular'
      obtain rfl := passable.unique passable'
      rw [ihWithin within', ihBehind behind']

theorem Tour.append {first second a b : List String} (front : s.Tour first a) (back : s.Tour second b) :
    s.Tour (first ++ second) (a ++ b) := by
  induction front with
  | done => exact back
  | enter regular passable within _ _ ih =>
    rw [List.append_assoc]
    exact .enter regular passable within ih

theorem Child.isName (child : s.Child directory name item) (wellFormed : s.WellFormed) (slashFree : s.SlashFree) :
    Path.IsName name := by
  obtain ⟨location, -, -, -, -, found⟩ := child
  have mem := keyMem found
  exact ⟨(wellFormed.named _ mem name (by simp)).1, slashFree _ mem name (by simp)⟩

theorem Lists.named (lists : s.Lists directory P names) (wellFormed : s.WellFormed) (slashFree : s.SlashFree) :
    ∀ name ∈ names, Path.IsName name := by
  intro name mem
  obtain ⟨item, child, -⟩ := (lists.members name).mp mem
  exact child.isName wellFormed slashFree

theorem Child.lists (child : s.Child directory name item) : ∃ listing, s.list directory = .ok listing := by
  obtain ⟨location, mode, located, found, readable, -⟩ := child
  exact ⟨_, listFound located found readable⟩

def nameBelow? (location place : Location) : Option String :=
  if place.length = location.length + 1 && place.take location.length == location then place.getLast? else none

theorem nameBelow {location place : Location} : nameBelow? location place = some name ↔ place = location ++ [name] := by
  constructor
  · intro below
    unfold nameBelow? at below
    split at below
    · rename_i inside
      simp only [Bool.and_eq_true, decide_eq_true_eq, beq_iff_eq] at inside
      rw [← List.dropLast_append_getLast? name below, List.dropLast_eq_take, inside.1, Nat.add_sub_cancel, inside.2]
    · cases below
  · rintro rfl
    simp [nameBelow?]

theorem memNamesBelow {location : Location} :
    name ∈ s.namesBelow location ↔ ∃ item, s.find? (location ++ [name]) = some item := by
  have names : s.namesBelow location = s.entries.filterMap fun entry => nameBelow? location entry.1 := rfl
  rw [find?, ← Option.isSome_iff_exists, List.lookup_isSome_iff, names]
  simp only [List.mem_filterMap, nameBelow, beq_iff_eq]
  exact exists_congr fun entry => and_congr_right fun _ => eq_comm

theorem namesBelowNodup (unique : s.Unique) (location : Location) : (s.namesBelow location).Nodup := by
  rw [namesBelowKeys]
  refine List.Nodup.filterMap (fun a b name below again => ?_) unique
  exact (nameBelow.mp below).trans (nameBelow.mp again).symm

structure Sorts (s : Store) (directory : String) (l : Listing) : Prop where
  nodup : (l.directories ++ l.linkedDirectories).Nodup ∧ l.others.Nodup
  directories : ∀ name, name ∈ l.directories ↔ ∃ item, s.Child directory name item ∧ item.isDirectory = true
  either : ∀ name, name ∈ l.directories ++ l.linkedDirectories ↔ ∃ item, s.Child directory name item ∧
    s.isBranch directory name item = true
  others : ∀ name, name ∈ l.others ↔ ∃ item, s.Child directory name item ∧ s.isBranch directory name item = false

theorem listSorts (unique : s.Unique) {listing : Listing} (ok : s.list directory = .ok listing) :
    s.Sorts directory listing := by
  obtain ⟨location, mode, located, found, readable, rfl⟩ := listOk ok
  have child {name : String} {item : Item} :
      s.Child directory name item ↔ s.find? (location ++ [name]) = some item := by
    constructor
    · rintro ⟨there, mode, located', -, -, held⟩
      cases located.symm.trans located'
      exact held
    · exact fun held => ⟨location, mode, located, found, readable, held⟩
  have once := namesBelowNodup unique location
  refine ⟨⟨List.nodup_append.mpr ⟨once.filter _, once.filter _, ?_⟩, once.filter _⟩, ?_, ?_, ?_⟩
  · intro a inA b inB same
    subst same
    obtain ⟨itemA, heldA, branch⟩ := (Option.any_eq_true _ _).mp (List.mem_filter.mp inA).2
    obtain ⟨itemB, heldB, linked⟩ := (Option.any_eq_true _ _).mp (List.mem_filter.mp inB).2
    cases heldA.symm.trans heldB
    simp_all
  all_goals
    intro name
    simp only [listing, child, List.mem_append, List.mem_filter, memNamesBelow]
    cases s.find? (location ++ [name]) with
    | none => simp
    | some item => cases item <;> simp [isBranch, Item.isLink, Item.isDirectory]

theorem Lists.sorted (nodup : names.Nodup)
    (members : ∀ name, name ∈ names ↔ ∃ item, s.Child directory name item ∧ P name item) :
    s.Lists directory P (Batch.ascending names) where
  ascending := by
    have ordered : (Batch.ascending names).Pairwise fun a b => decide (¬ b < a) = true := by
      refine List.pairwise_mergeSort (fun a b c first second => ?_) (fun a b => ?_) names
      · simp only [decide_eq_true_eq, not_lt] at first second ⊢
        exact first.trans second
      · simp only [Bool.or_eq_true, decide_eq_true_eq, not_lt]
        exact le_total a b
    have once : (Batch.ascending names).Nodup := (List.mergeSort_perm _ _).nodup_iff.mpr nodup
    exact (ordered.and once).imp fun ⟨notMore, differ⟩ => Std.lt_of_le_of_ne (of_decide_eq_true notMore) differ
  members name := by rw [Batch.ascending, List.mem_mergeSort, members]

theorem Lists.filter (lists : s.Lists directory P names) {Q : String → Item → Prop} {keeps : String → Bool}
    (each : ∀ name item, Q name item ↔ P name item ∧ keeps name = true) : s.Lists directory Q (names.filter keeps) where
  ascending := lists.ascending.filter _
  members name := by simp only [List.mem_filter, lists.members, each, ← and_assoc, exists_and_right]

def Gathers (s : Store) (P : String → String → Item → Prop) (part : Batch.Visit → List String) : Prop :=
  ∀ directory listing, s.list directory = .ok listing →
    ∃ names, s.Lists directory (P directory) names ∧
      part (Batch.Visit.ofListing directory listing) = names.map (Path.join directory)

theorem gathersRegular (unique : s.Unique) : s.Gathers s.Regular fun visit => visit.files.filter s.isFile := by
  intro directory listing ok
  have sorts := listSorts unique ok
  have each (name : String) (item : Item) : s.Regular directory name item ↔
      s.isBranch directory name item = false ∧ (Path.isEligible name && s.isFile (Path.join directory name)) = true := by
    rw [Regular, Bool.and_eq_true, and_left_comm]
    refine and_congr_left fun regular => ?_
    cases item with
    | file | directory => rfl
    | link => simp [isBranch, Item.isDirectory, fileNoDirectory regular.2]
  refine ⟨_, (Lists.sorted sorts.nodup.2 sorts.others).filter each, ?_⟩
  simp only [Batch.Visit.ofListing, List.filter_map, List.filter_filter, Function.comp_def, Bool.and_comm]

theorem gathersPassable (unique : s.Unique) : s.Gathers (fun _ => Passable) Batch.Visit.inner := by
  intro directory listing ok
  have sorts := listSorts unique ok
  refine ⟨_, ((Lists.sorted (List.nodup_append.mp sorts.nodup.1).1 sorts.directories).filter fun name item => ?_), rfl⟩
  simp only [Passable, and_comm, Bool.not_eq_true']

theorem gathersShunned (unique : s.Unique) : s.Gathers s.Shunned Batch.Visit.skipped := by
  intro directory listing ok
  have sorts := listSorts unique ok
  refine ⟨_, ((Lists.sorted sorts.nodup.1 sorts.either).filter fun name item => ?_), rfl⟩
  rw [Shunned, and_comm]

theorem directoryInduction (wellFormed : s.WellFormed) {P : String → Prop}
    (step : ∀ directory, (∀ listing, s.list directory = .ok listing →
      ∀ inner ∈ (Batch.Visit.ofListing directory listing).inner, P inner) → P directory) (directory : String) :
    P directory := by
  -- The paths of inner directories are longer, and none that can be listed is as long as the limit.
  have bounded (room : Nat) : ∀ directory, pathLimit ≤ room + directory.utf8ByteSize → P directory := by
    induction room with
    | zero =>
      intro directory long
      refine step directory fun listing ok => ?_
      have short := listShort ok
      omega
    | succ room ih =>
      intro directory long
      refine step directory fun listing ok inner mem => ih inner ?_
      have longer := innerLonger wellFormed ok mem
      omega
  exact bounded pathLimit directory (by omega)

theorem unlistedTour {failure : Errno} (failed : s.list directory = .error failure) : s.Tour [directory] [] := by
  have none {P : String → Item → Prop} : s.Lists directory P [] := by
    refine ⟨.nil, fun name => ⟨nofun, ?_⟩⟩
    rintro ⟨item, child, -⟩
    obtain ⟨listing, ok⟩ := child.lists
    cases failed.symm.trans ok
  exact .enter none none .done .done

/-- What cannot be listed is left out of both. -/
theorem selectionTours (wellFormed : s.WellFormed) (directory : String) : s.Tour [directory] (s.selection directory) := by
  induction directory using directoryInduction wellFormed with
  | step directory ih =>
    cases ok : s.list directory with
    | error =>
      have none : s.selection directory = [] := by simp [selection, visits, pathLimit, visitsTo, ok]
      exact none ▸ unlistedTour ok
    | ok listing =>
      obtain ⟨files, regular, parts⟩ := gathersRegular wellFormed.unique directory listing ok
      obtain ⟨inner, passable, within⟩ := gathersPassable wellFormed.unique directory listing ok
      have below : ∀ directories ⊆ (Batch.Visit.ofListing directory listing).inner,
          s.Tour directories (directories.flatMap s.selection) := by
        intro directories mem
        induction directories with
        | nil => exact .done
        | cons first others rest =>
          obtain ⟨inside, outside⟩ := List.cons_subset.mp mem
          exact (ih listing ok first inside).append (rest outside)
      have whole := Tour.enter regular passable (within ▸ below _ (List.Subset.refl _)) .done
      simp only at parts
      rw [selectionListed wellFormed ok, parts, within]
      simpa using whole

theorem Entered.trans {first second third : String} (front : s.Entered first second) (back : s.Entered second third) :
    s.Entered first third := by
  induction back with
  | root => exact front
  | inner _ child passable ih => exact ih.inner child passable

theorem Entered.visits {root : String} (wellFormed : s.WellFormed) (entered : s.Entered root directory) :
    s.visits directory ⊆ s.visits root := by
  induction entered with
  | root => exact List.Subset.refl _
  | @inner directory name item _ child passable ih =>
    obtain ⟨listing, ok⟩ := child.lists
    obtain ⟨names, lists, within⟩ := gathersPassable wellFormed.unique directory listing ok
    have inside : Path.join directory name ∈ (Batch.Visit.ofListing directory listing).inner := by
      rw [within]
      exact List.mem_map_of_mem ((lists.members name).mpr ⟨item, child, passable⟩)
    refine List.Subset.trans (fun visit mem => ?_) ih
    rw [visitsListed wellFormed ok]
    exact List.mem_cons_of_mem _ (List.mem_flatMap.mpr ⟨_, inside, mem⟩)

theorem innerEntered (unique : s.Unique) {root inner : String} {listing : Listing} (entered : s.Entered root directory)
    (ok : s.list directory = .ok listing) (mem : inner ∈ (Batch.Visit.ofListing directory listing).inner) :
    s.Entered root inner := by
  obtain ⟨names, lists, within⟩ := gathersPassable unique directory listing ok
  obtain ⟨name, named, rfl⟩ := List.mem_map.mp (within ▸ mem)
  obtain ⟨item, child, passable⟩ := (lists.members name).mp named
  exact entered.inner child passable

theorem visitsEntered (wellFormed : s.WellFormed) {root : String} :
    ∀ visit ∈ s.visits root, ∃ directory listing, s.Entered root directory ∧ s.list directory = .ok listing ∧
      visit = Batch.Visit.ofListing directory listing := by
  induction root using directoryInduction wellFormed with
  | step root ih =>
    intro visit mem
    cases ok : s.list root with
    | error => simp [Store.visits, pathLimit, visitsTo, ok] at mem
    | ok listing =>
      rw [visitsListed wellFormed ok] at mem
      obtain rfl | below := List.mem_cons.mp mem
      · exact ⟨root, listing, .root, ok, rfl⟩
      · obtain ⟨inner, inside, mem⟩ := List.mem_flatMap.mp below
        obtain ⟨directory, deeper, entered, listed, same⟩ := ih listing ok inner inside visit mem
        exact ⟨directory, deeper, (innerEntered wellFormed.unique .root ok inside).trans entered, listed, same⟩

theorem opensWithin (unique : s.Unique) (within : List String) (inside : directory ∈ within)
    (listed : ∀ directory ∈ within, ∃ listing, s.list directory = .ok listing ∧
      ∀ inner ∈ (Batch.Visit.ofListing directory listing).inner, inner ∈ within) : s.Opens directory := by
  intro _ other ⟨_, entered⟩
  suffices mem : other ∈ within from (listed other mem).imp fun _ ok => ok.1
  induction entered with
  | root => exact inside
  | @inner directory name item _ child passable ih =>
    obtain ⟨listing, ok, below⟩ := listed directory ih
    obtain ⟨names, lists, parts⟩ := gathersPassable unique directory listing ok
    refine below _ ?_
    rw [parts]
    exact List.mem_map_of_mem ((lists.members name).mpr ⟨item, child, passable⟩)

theorem Gathers.members {P : String → String → Item → Prop} {part : Batch.Visit → List String}
    (gathers : s.Gathers P part) (wellFormed : s.WellFormed) {root path : String} :
    path ∈ (s.visits root).flatMap part ↔ ∃ directory name item, s.Entered root directory ∧
      s.Child directory name item ∧ P directory name item ∧ path = Path.join directory name := by
  rw [List.mem_flatMap]
  constructor
  · rintro ⟨visit, mem, inside⟩
    obtain ⟨directory, listing, entered, ok, rfl⟩ := visitsEntered wellFormed visit mem
    obtain ⟨names, lists, parts⟩ := gathers directory listing ok
    obtain ⟨name, named, rfl⟩ := List.mem_map.mp (parts ▸ inside)
    obtain ⟨item, child, kind⟩ := (lists.members name).mp named
    exact ⟨directory, name, item, entered, child, kind, rfl⟩
  · rintro ⟨directory, name, item, entered, child, kind, rfl⟩
    obtain ⟨listing, ok⟩ := child.lists
    obtain ⟨names, lists, parts⟩ := gathers directory listing ok
    refine ⟨Batch.Visit.ofListing directory listing, entered.visits wellFormed ?_, ?_⟩
    · rw [visitsListed wellFormed ok]
      exact List.mem_cons_self
    · rw [parts]
      exact List.mem_map_of_mem ((lists.members name).mpr ⟨item, child, kind⟩)

theorem Entered.trail (wellFormed : s.WellFormed) (slashFree : s.SlashFree) {root : String}
    (entered : s.Entered root directory) : ∃ names, directory = Path.trail root names ∧
      ∀ name ∈ names, Path.IsName name ∧ Path.isSkippedDirectory name = false := by
  induction entered with
  | root => exact ⟨[], rfl, by simp⟩
  | @inner _ name _ _ child passable ih =>
    obtain ⟨names, rfl, passed⟩ := ih
    refine ⟨names ++ [name], by simp [Path.trail], fun other mem => ?_⟩
    obtain mem | last := List.mem_append.mp mem
    · exact passed other mem
    · obtain rfl := List.mem_singleton.mp last
      exact ⟨child.isName wellFormed slashFree, passable.1⟩

section
variable {kind : String → String → Item → Prop} {part : Batch.Visit → List String} {root path : String}

theorem Gathers.trail (gathers : s.Gathers kind part) (wellFormed : s.WellFormed) (slashFree : s.SlashFree)
    (mem : path ∈ (s.visits root).flatMap part) :
    ∃ names name, path = Path.trail root (names ++ [name]) ∧ Path.IsName name ∧
      ∀ name ∈ names, Path.IsName name ∧ Path.isSkippedDirectory name = false := by
  obtain ⟨directory, name, item, entered, child, -, rfl⟩ := (gathers.members wellFormed).mp mem
  obtain ⟨names, rfl, passed⟩ := entered.trail wellFormed slashFree
  exact ⟨names, name, by simp [Path.trail], child.isName wellFormed slashFree, passed⟩

theorem Gathers.within (gathers : s.Gathers kind part) (wellFormed : s.WellFormed) (slashFree : s.SlashFree)
    {name : String} (mem : path ∈ (s.visits (Path.join root name)).flatMap part) :
    ∃ names ≠ [], (∀ name ∈ names, Path.IsName name) ∧ path = Path.trail root (name :: names) := by
  obtain ⟨names, last, rfl, isName, passed⟩ := gathers.trail wellFormed slashFree mem
  refine ⟨names ++ [last], by simp, ?_, rfl⟩
  exact List.forall_mem_append.mpr ⟨fun name mem => (passed name mem).1, List.forall_mem_singleton.mpr isName⟩

theorem Gathers.once (gathers : s.Gathers kind part) (wellFormed : s.WellFormed) (slashFree : s.SlashFree)
    (root : String) : ((s.visits root).flatMap part).Nodup := by
  induction root using directoryInduction wellFormed with
  | step root ih =>
    cases ok : s.list root with
    | error => simp [Store.visits, pathLimit, visitsTo, ok]
    | ok listing =>
      obtain ⟨names, lists, parts⟩ := gathers root listing ok
      obtain ⟨inner, passable, within⟩ := gathersPassable wellFormed.unique root listing ok
      have outer := lists.named wellFormed slashFree
      have entered := passable.named wellFormed slashFree
      have below := ih listing ok
      rw [visitsListed wellFormed ok, List.flatMap_cons, List.flatMap_assoc, parts]
      rw [within] at below ⊢
      rw [List.flatMap_map]
      refine List.nodup_append.mpr ⟨lists.nodup.map fun _ _ => Path.joinInjective, List.nodup_flatMap.mpr ⟨?_, ?_⟩, ?_⟩
      · exact fun name mem => below _ (List.mem_map_of_mem mem)
      -- Below two directories: their own names are on the ways there.
      · refine passable.nodup.imp_of_mem fun {a b} inA inB differ path first second => differ ?_
        obtain ⟨front, -, namedA, rfl⟩ := gathers.within wellFormed slashFree first
        obtain ⟨back, -, namedB, same⟩ := gathers.within wellFormed slashFree second
        have alike := Path.trailInjective (List.forall_mem_cons.mpr ⟨entered a inA, namedA⟩)
          (List.forall_mem_cons.mpr ⟨entered b inB, namedB⟩) (by simp) (by simp) same
        exact (List.cons.inj alike).1
      -- Inside the directory and further down: one way there is longer than the other.
      · intro path own other deeper same
        subst same
        obtain ⟨name, mem, rfl⟩ := List.mem_map.mp own
        obtain ⟨first, inside, deeper⟩ := List.mem_flatMap.mp deeper
        obtain ⟨rest, some, namedRest, same⟩ := gathers.within wellFormed slashFree deeper
        have alike := Path.trailInjective (List.forall_mem_singleton.mpr (outer name mem))
          (List.forall_mem_cons.mpr ⟨entered first inside, namedRest⟩) (by simp) (by simp) same
        exact some (List.cons.inj alike).2.symm

end
end
end Store
end ExitSpacing
