import ExitSpacing.Proofs.Following
import Mathlib.Data.List.Nodup

/-! The shape of a store: everything but the bytes in its files. Where a path leads, what a
directory lists and which calls fail depend on the shape alone. -/
namespace ExitSpacing

namespace Item

def blank : Item → Item
  | .file mode _ => .file mode []
  | item => item

@[simp] theorem blankIsLink (item : Item) : item.blank.isLink = item.isLink := by cases item <;> rfl

@[simp] theorem blankIsDirectory (item : Item) : item.blank.isDirectory = item.isDirectory := by cases item <;> rfl

end Item

namespace Store

def blank (s : Store) : Store := { s with items := s.items.map fun entry => (entry.1, entry.2.blank) }

theorem lookupMap {f : Location → β → γ} (items : List (Location × β)) (location : Location) :
    (items.map fun entry => (entry.1, f entry.1 entry.2)).lookup location = (items.lookup location).map (f location) := by
  induction items with
  | nil => rfl
  | cons entry items ih =>
    rw [List.map_cons, List.lookup_cons, List.lookup_cons, ih]
    split
    · rename_i same
      rw [beq_iff_eq.mp same]
      rfl
    · rfl

/-- The items may be changed by what their keys say: the chain stays as it is. -/
theorem mapFind (s t : Store) {f : Location → Item → Item} (home : t.home = s.home)
    (items : t.items = s.items.map fun entry => (entry.1, f entry.1 entry.2))
    (directories : ∀ location mode, f location (.directory mode) = .directory mode) (location : Location) :
    t.find? location = (s.find? location).map (f location) := by
  by_cases above : location <+: s.home.names
  · rw [findAbove above, findAbove (home ▸ above), Option.map_some, directories]
  · rw [findAside above, findAside (home ▸ above), items, lookupMap]

section
variable (s : Store)

theorem blankFind (location : Location) : s.blank.find? location = (s.find? location).map Item.blank :=
  mapFind s s.blank (f := fun _ => Item.blank) rfl rfl (fun _ _ => rfl) location

theorem blankItemAt (location : Location) : s.blank.itemAt location = (s.itemAt location).map Item.blank := by
  simp only [itemAt, blankFind]
  cases s.find? location <;> rfl

theorem blankAllow (here : Location) (component : String) : s.blank.allow here component = s.allow here component := by
  simp only [allow, blankFind]
  cases s.find? here with
  | none => rfl
  | some item => cases item <;> rfl

theorem blankEntry (here : Location) (name : String) :
    s.blank.entry here name = (s.entry here name).map Item.blank := by
  simp only [entry, blankAllow, blankItemAt]
  cases s.allow here name with
  | error => rfl
  | ok =>
    simp only [bind, Except.bind]
    split
    · rfl
    · rfl

theorem blankFollow (links : Nat) (here : Location) (components : List String) :
    s.blank.follow links here components = s.follow links here components := by
  fun_induction s.follow links here components with
  | case1 => simp only [follow]
  | case2 _ _ _ _ turn _ stopped => simp only [follow, if_pos turn, blankAllow, stopped]
  | case3 _ _ _ _ turn leave ih => simp only [follow, if_pos turn, blankAllow, leave, ih]
  | case4 _ _ _ _ name _ stopped => simp only [follow, if_neg name, blankEntry, stopped, Except.map]
  | case5 _ _ _ name _ held => simp only [follow, if_neg name, blankEntry, held, Except.map, Item.blank]
  | case6 _ _ _ name _ held _ ih =>
    simp only [dite_eq_ite] at ih
    simp only [follow, if_neg name, blankEntry, held, Except.map, Item.blank, ih]
  | case7 _ _ _ _ name item other held ih =>
    simp only [follow, if_neg name, blankEntry, held, Except.map]
    cases item with
    | link target => exact absurd rfl (other target)
    | file | directory => exact ih

theorem blankLocate (path : String) : s.blank.locate path = s.locate path := by
  simp only [locate, blankFollow]
  rfl

theorem blankStat (path : String) : s.blank.stat path = (s.stat path).map Item.blank := by
  simp only [stat, blankLocate]
  cases s.locate path with
  | error => rfl
  | ok location => exact s.blankItemAt location

theorem blankIsDirectory (path : String) : s.blank.isDirectory path = s.isDirectory path := by
  simp only [isDirectory, blankStat]
  cases s.stat path with
  | error => rfl
  | ok item => exact item.blankIsDirectory

theorem blankIsFile (path : String) : s.blank.isFile path = s.isFile path := by
  simp only [isFile, blankStat]
  cases s.stat path with
  | error => rfl
  | ok item => cases item <;> rfl

theorem blankKeys : s.blank.keys = s.keys := by
  simp only [keys, entries, blank, List.map_append, List.map_map]
  rfl

theorem namesBelowKeys (location : Location) : s.namesBelow location = s.keys.filterMap fun key =>
    if key.length = location.length + 1 && key.take location.length == location then key.getLast? else none := by
  simp only [namesBelow, keys, List.filterMap_map]
  rfl

theorem blankNamesBelow (location : Location) : s.blank.namesBelow location = s.namesBelow location := by
  rw [namesBelowKeys, namesBelowKeys, blankKeys]

theorem blankIsBranch (path name : String) (item : Item) :
    s.blank.isBranch path name item.blank = s.isBranch path name item := by
  cases item with
  | file | directory => rfl
  | link => exact s.blankIsDirectory _

theorem blankListing (path : String) (location : Location) : s.blank.listing path location = s.listing path location := by
  simp only [listing, blankNamesBelow, blankFind, Option.any_map, blankIsBranch, Item.blankIsLink]

theorem blankList (path : String) : s.blank.list path = s.list path := by
  simp only [list, blankLocate, blankItemAt, blankListing]
  cases s.locate path with
  | error => rfl
  | ok location =>
    simp only [bind, Except.bind]
    cases s.itemAt location with
    | error => rfl
    | ok item => cases item <;> rfl

theorem blankPeek (way : Way) (name : String) : s.blank.peek way name = (s.peek way name).map Item.blank := by
  have origin : way.origin s.blank = way.origin s := rfl
  simp only [peek, blankFollow, blankEntry, origin]
  split
  · cases s.entry _ name <;> rfl
  · rfl

theorem blankRealFrom (links : Nat) (met : List (Way × Option Way)) (here : Way) (pending : List Pending) :
    s.blank.realFrom links met here pending = s.realFrom links met here pending := by
  fun_induction s.realFrom links met here pending with
  | case1 =>
    simp only [realFrom]
    rfl
  | case2 _ _ _ _ _ ih => simp only [realFrom, ih]
  | case3 _ _ _ _ _ turn ih =>
    simp only [dite_eq_ite] at ih
    simp only [realFrom, if_pos turn, ih]
  | case4 _ _ _ _ _ name next _ linked _ known ih =>
    simp only [next] at known
    simp only [realFrom, if_neg name, blankPeek, linked, Option.map_some, Item.blank, known, ih]
  | case5 _ _ _ _ _ name next left _ linked known | case6 _ _ _ _ name next left _ linked known =>
    simp only [next] at known
    simp only [realFrom, if_neg name, blankPeek, linked, Option.map_some, Item.blank, known]
    rfl
  | case7 _ _ _ _ name next _ linked known _ ih =>
    simp only [next, dite_eq_ite] at known ih
    simp only [realFrom, if_neg name, blankPeek, linked, Option.map_some, Item.blank, known, ih, next]
  | case8 _ _ here c _ name next other ih =>
    simp only [realFrom, if_neg name, blankPeek]
    cases seen : s.peek here c with
    | none => exact ih
    | some item =>
      cases item with
      | link target => exact absurd seen (other target)
      | file | directory => exact ih

theorem blankRealPath (path : String) : s.blank.realPath path = s.realPath path := by
  have links : s.blank.items.countP (fun entry => entry.2.isLink) = s.items.countP fun entry => entry.2.isLink := by
    simp only [blank, List.countP_map, Function.comp_def, Item.blankIsLink]
  simp only [realPath, blankRealFrom, links]

theorem blankReach (location : Location) : s.blank.reach location = s.reach location := by
  simp only [reach, blankFollow]

theorem blankPlaceOf (location : Location) : s.blank.placeOf location = s.placeOf location := by
  simp only [placeOf, blankReach]

section
variable {s} {t : Store} (same : s.blank = t.blank)
include same

theorem keysShape : s.keys = t.keys := by rw [← blankKeys, same, blankKeys]

theorem findShape {location : Location} {item : Item} (held : s.find? location = some item) :
    ∃ other, t.find? location = some other ∧ other.blank = item.blank := by
  have alike : (t.find? location).map Item.blank = some item.blank := by rw [← blankFind, ← same, blankFind, held]; rfl
  exact Option.map_eq_some_iff.mp alike

theorem locateShape (path : String) : s.locate path = t.locate path := by rw [← blankLocate, same, blankLocate]

theorem presentShape {path : String} {item : Item} (there : t.stat path = .ok item) : ∃ item, s.stat path = .ok item := by
  have alike : (s.stat path).map Item.blank = .ok item.blank := by rw [← blankStat, same, blankStat, there]; rfl
  cases found : s.stat path with
  | error => rw [found] at alike; cases alike
  | ok item => exact ⟨item, rfl⟩

theorem isDirectoryShape (path : String) : s.isDirectory path = t.isDirectory path := by
  rw [← blankIsDirectory, same, blankIsDirectory]

theorem isFileShape (path : String) : s.isFile path = t.isFile path := by rw [← blankIsFile, same, blankIsFile]

theorem listShape (path : String) : s.list path = t.list path := by rw [← blankList, same, blankList]

end

theorem blankErase (location : Location) : (s.erase location).blank = s.blank.erase location := by
  simp only [erase, blank, List.filter_map]
  rfl

theorem blankPut (location : Location) (item : Item) : (s.put location item).blank = s.blank.put location item.blank := by
  have same : (s.blank.items.lookup location).isSome = (s.items.lookup location).isSome := by
    simp only [blank, lookupMap (f := fun _ => Item.blank), Option.isSome_map]
  simp only [put, same]
  split
  · simp only [blank, List.map_map]
    congr 1
    refine List.map_congr_left fun entry _ => ?_
    simp only [Function.comp_apply]
    cases entry.1 == location <;> rfl
  · simp only [blank, List.map_append, List.map_cons, List.map_nil]

@[simp] theorem putHome (location : Location) (item : Item) : (s.put location item).home = s.home := by
  unfold put
  split <;> rfl

theorem shownHome {s t : Store} (home : t.home = s.home) (location : Location) : t.shown location = s.shown location := by
  rw [shown, shown, home]

theorem shownPut (location other : Location) (item : Item) : (s.put location item).shown other = s.shown other :=
  shownHome (s.putHome location item) other

theorem lookupReplaced (items : List (Location × Item)) (location other : Location) (item : Item) :
    (items.map fun entry => if entry.1 == location then (location, item) else entry).lookup other =
      if other = location then (items.lookup location).map fun _ => item else items.lookup other := by
  induction items with
  | nil => simp
  | cons entry items ih =>
    rw [List.map_cons, List.lookup_cons, List.lookup_cons, List.lookup_cons, ih]
    by_cases here : entry.1 = location <;> by_cases there : other = location
    · simp [here, there]
    · have apart : (other == location) = false := by simpa using there
      simp [here, there, apart]
    · have apart : (location == entry.1) = false := by simpa using Ne.symm here
      simp [here, there, apart]
    · simp [here, there]

theorem findPut {location : Location} (aside : ¬ location <+: s.home.names) (item : Item) (other : Location) :
    (s.put location item).find? other = if other = location then some item else s.find? other := by
  by_cases above : other <+: s.home.names
  · have apart : other ≠ location := fun same => aside (same ▸ above)
    rw [findAbove above, findAbove ((s.putHome ..).symm ▸ above), if_neg apart]
  rw [findAside above, findAside ((s.putHome ..).symm ▸ above), put]
  split
  · rename_i held
    rw [lookupReplaced]
    split
    · obtain ⟨old, held⟩ := Option.isSome_iff_exists.mp held
      simp [held]
    · rfl
  · rename_i free
    rw [List.lookup_append, List.lookup_cons, List.lookup_nil]
    by_cases here : other = location
    · have free : s.items.lookup location = none := Option.not_isSome_iff_eq_none.mp free
      simp [here, free]
    · have apart : (other == location) = false := by simpa using here
      simp [here, apart]

def Free (location : Location) : Prop := s.find? location = none

variable {s} {location : Location}

theorem Free.aside (free : s.Free location) : ¬ location <+: s.home.names :=
  asideOf fun held => Option.some_ne_none _ (held.symm.trans free)

theorem Free.unheld (free : s.Free location) : s.items.lookup location = none := by
  rw [← findAside free.aside]
  exact free

theorem Free.put (free : s.Free location) (item : Item) :
    s.put location item = { s with items := s.items ++ [(location, item)] } := by
  simp [Store.put, free.unheld]

theorem Free.apart (free : s.Free location) : ∀ entry ∈ s.items, entry.1 ≠ location := by
  intro entry mem same
  have := List.lookup_eq_none_iff.mp free.unheld entry mem
  simp [same] at this

theorem Free.unkeyed (free : s.Free location) : location ∉ s.keys := by
  intro mem
  obtain ⟨entry, inside, same⟩ := List.mem_map.mp mem
  have := List.lookup_eq_none_iff.mp free entry inside
  simp [same] at this

theorem Free.putAgain (free : s.Free location) (first second : Item) :
    (s.put location first).put location second = s.put location second := by
  have held : ((s.put location first).items.lookup location).isSome := by
    rw [← findAside ((s.putHome ..).symm ▸ free.aside), findPut _ free.aside]
    simp
  rw [Store.put, if_pos held, free.put, free.put]
  simp only [List.map_append, List.map_cons, List.map_nil, beq_self_eq_true, if_true, Store.mk.injEq, List.append_left_inj,
    and_true]
  refine (List.map_congr_left fun entry mem => ?_).trans (List.map_id _)
  simp [free.apart entry mem]

theorem Free.putErase (free : s.Free location) (item : Item) : (s.put location item).erase location = s := by
  have kept : s.items.filter (·.1 != location) = s.items := by
    refine List.filter_eq_self.mpr fun entry mem => ?_
    simpa using free.apart entry mem
  simp [free.put, erase, kept]

def withContent (content : Bytes) : Item → Item
  | .file mode _ => .file mode content
  | item => item

def rewrite (s : Store) (location : Location) (content : Bytes) : Store :=
  { s with items := s.items.map fun entry => if entry.1 == location then (entry.1, withContent content entry.2) else entry }

def Unique (s : Store) : Prop := s.keys.Nodup

instance : Decidable s.Unique := inferInstanceAs (Decidable (List.Nodup _))

/-- A store as file systems have them: names are not empty and hold no null byte. -/
structure WellFormed (s : Store) : Prop where
  unique : s.Unique
  named : ∀ location ∈ s.keys, ∀ name ∈ location, name ≠ "" ∧ Path.hasNull name = false

theorem Unique.only (unique : s.Unique) {item : Item} (held : s.find? location = some item)
    {entry : Location × Item} (mem : entry ∈ s.entries) (here : entry.1 = location) : entry = (location, item) :=
  List.inj_on_of_nodup_map unique mem (findMem held) here

theorem rewriteBlank (content : Bytes) : (s.rewrite location content).blank = s.blank := by
  simp only [rewrite, blank, List.map_map]
  congr 1
  refine List.map_congr_left fun entry _ => ?_
  simp only [Function.comp_apply]
  split
  · cases entry.2 <;> rfl
  · rfl

theorem rewriteLookup (s : Store) (location other : Location) (content : Bytes) :
    (s.rewrite location content).find? other =
      (s.find? other).map fun item => if other == location then withContent content item else item := by
  refine mapFind s (s.rewrite location content)
    (f := fun place item => if place == location then withContent content item else item) rfl ?_
    (fun place mode => ?_) other
  · refine List.map_congr_left fun entry _ => ?_
    split <;> rfl
  · split <;> rfl

theorem rewriteFind (s : Store) {location other : Location} (content : Bytes) (differ : other ≠ location) :
    (s.rewrite location content).find? other = s.find? other := by
  have apart : (other == location) = false := beq_false_of_ne differ
  rw [rewriteLookup]
  simp only [apart, Bool.false_eq_true, if_false, Option.map_id']

theorem rewriteThere (s : Store) (location : Location) (content : Bytes) :
    (s.rewrite location content).find? location = (s.find? location).map (withContent content) := by
  rw [rewriteLookup]
  simp only [beq_self_eq_true, if_true]

theorem putRewrites (unique : s.Unique) {mode : Nat} {old : Bytes}
    (held : s.find? location = some (.file mode old)) (content : Bytes) :
    s.put location (.file mode content) = s.rewrite location content := by
  have there : s.items.lookup location = some (.file mode old) := by
    rw [← findAside (asideOf (by rw [held]; simp)), held]
  simp only [put, there, Option.isSome_some, if_true, rewrite, Store.mk.injEq, and_true]
  refine List.map_congr_left fun entry mem => ?_
  split
  · rename_i here
    rw [unique.only held (List.mem_append_right _ mem) (beq_iff_eq.mp here)]
    rfl
  · rfl

end
end Store
end ExitSpacing
