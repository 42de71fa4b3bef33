import ExitSpacing.Files.Store

/-! What lies where in a store: the working directory, with all that it lies in, and the items. -/
namespace ExitSpacing.Store

def keys (s : Store) : List Location := s.entries.map Prod.fst

section
variable {s : Store} {location : Location} {name : String} {item : Item}

theorem lookupAlike (places : List Location) (item : Item) (key : Location) :
    (places.map fun place => (place, item)).lookup key = if key ∈ places then some item else none := by
  induction places with
  | nil => rfl
  | cons first places ih =>
    rw [List.map_cons, List.lookup_cons, ih]
    by_cases same : key = first
    · simp [same]
    · simp [same, beq_false_of_ne same]

theorem chainLookup (s : Store) (location : Location) :
    s.chain.lookup location = if location <+: s.home.names then some (.directory directoryMode) else none := by
  have alike : s.chain = ((List.range (s.home.names.length + 1)).map s.home.names.take).map
      fun place => (place, .directory directoryMode) := by
    rw [chain, List.map_map]
    rfl
  have places : location ∈ (List.range (s.home.names.length + 1)).map s.home.names.take ↔
      location <+: s.home.names := by
    simp only [List.mem_map, List.mem_range, Nat.lt_succ_iff]
    constructor
    · rintro ⟨n, -, rfl⟩
      exact List.take_prefix n _
    · intro above
      exact ⟨location.length, above.length_le, (List.prefix_iff_eq_take.mp above).symm⟩
  rw [alike, lookupAlike]
  simp only [places]

theorem findAbove (above : location <+: s.home.names) : s.find? location = some (.directory directoryMode) := by
  rw [find?, entries, List.lookup_append, chainLookup, if_pos above]
  rfl

theorem findAside (aside : ¬ location <+: s.home.names) : s.find? location = s.items.lookup location := by
  rw [find?, entries, List.lookup_append, chainLookup, if_neg aside]
  rfl

theorem findRoot (s : Store) : s.find? [] = some (.directory directoryMode) := findAbove (List.nil_prefix ..)

/-- Nothing that is no directory of the chain stands in its place. -/
theorem asideOf (other : s.find? location ≠ some (.directory directoryMode)) : ¬ location <+: s.home.names :=
  fun above => other (findAbove above)

theorem findMem (found : s.find? location = some item) : (location, item) ∈ s.entries := by
  obtain ⟨front, back, parts, -⟩ := List.lookup_eq_some_iff.mp found
  simp [parts]

theorem keyMem (found : s.find? location = some item) : location ∈ s.keys := List.mem_map_of_mem (findMem found)

theorem itemAtOk (ok : s.itemAt location = .ok item) : s.find? location = some item := by
  unfold itemAt at ok
  split at ok
  · rename_i found
    cases ok
    exact found
  · cases ok

theorem itemAtFound (found : s.find? location = some item) : s.itemAt location = .ok item := by
  rw [itemAt, found]

theorem allowOk (ok : s.allow location name = .ok ()) :
    ∃ mode, s.find? location = some (.directory mode) ∧ (name = "" ∨ isSearchable mode = true) := by
  unfold allow at ok
  split at ok
  · rename_i mode found
    split at ok
    · rename_i free
      exact ⟨mode, found, by simpa using free⟩
    · cases ok
  · cases ok
  · cases ok

theorem allowed {mode : Nat} (found : s.find? location = some (.directory mode)) (free : isSearchable mode = true) :
    s.allow location name = .ok () := by
  simp [allow, found, free]

theorem entryOk (ok : s.entry location name = .ok item) :
    s.allow location name = .ok () ∧ name.utf8ByteSize ≤ nameLimit ∧ s.find? (location ++ [name]) = some item := by
  unfold entry at ok
  cases leave : s.allow location name with
  | error => rw [leave] at ok; cases ok
  | ok =>
    rw [leave] at ok
    simp only [bind, Except.bind] at ok
    split at ok
    · cases ok
    · exact ⟨rfl, by omega, itemAtOk ok⟩

theorem entryFound (leave : s.allow location name = .ok ()) (short : name.utf8ByteSize ≤ nameLimit)
    (found : s.find? (location ++ [name]) = some item) : s.entry location name = .ok item := by
  simp only [entry, leave, bind, Except.bind, if_neg (Nat.not_lt.mpr short), itemAtFound found]

theorem entryName (held : Store.isEntryName name = true) :
    Path.isTurn name = false ∧ name.utf8ByteSize ≤ nameLimit := by
  simpa [isEntryName] using held

/-- The chain can be gone down from the root. -/
theorem chainEntry (above : location ++ [name] <+: s.home.names) :
    Path.isTurn name = false ∧ s.entry location name = .ok (.directory directoryMode) := by
  obtain ⟨turn, short⟩ := entryName (s.home.entries name (above.subset (by simp)))
  have here : location <+: s.home.names := (List.prefix_append ..).trans above
  exact ⟨turn, entryFound (allowed (findAbove here) rfl) short (findAbove above)⟩

theorem chainAllow (above : location <+: s.home.names) (name : String) : s.allow location name = .ok () :=
  allowed (findAbove above) rfl

theorem descendName {here : Location} (turn : Path.isTurn name = false) : descend here name = here ++ [name] := by
  simp [descend, turn]

theorem turnUp : Path.isTurn ".." = true := by decide

theorem nameNotUp (turn : Path.isTurn name = false) : name ≠ ".." := by
  rintro rfl
  rw [turnUp] at turn
  cases turn

theorem descendTurn {here : Location} (turn : Path.isTurn name = true) :
    descend here name = if name == ".." then here.dropLast else here := by
  simp [descend, turn]

theorem descendUp (here : Location) : descend here ".." = here.dropLast := descendTurn turnUp

section
variable {links : Nat} {here : Location} {c : String} {rest : List String}

theorem followTurn (turn : Path.isTurn c = true) (leave : s.allow here c = .ok ()) :
    s.follow links here (c :: rest) = s.follow links (descend here c) rest := by
  rw [follow, if_pos turn, leave]

theorem followEntry (turn : Path.isTurn c = false) (held : s.entry here c = .ok item) (unlinked : item.isLink = false) :
    s.follow links here (c :: rest) = s.follow links (here ++ [c]) rest := by
  rw [follow, if_neg (by simp [turn]), held]
  cases item with
  | link => cases unlinked
  | file | directory => rfl

theorem followLink {target : String} (turn : Path.isTurn c = false) (held : s.entry here c = .ok (.link target)) :
    s.follow (links + 1) here (c :: rest) =
      s.follow links (if Path.isAbsolute target then [] else here) (Path.split target ++ rest) := by
  rw [follow, if_neg (by simp [turn]), held]

end
end
end ExitSpacing.Store
