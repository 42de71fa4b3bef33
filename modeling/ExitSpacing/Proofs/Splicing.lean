import ExitSpacing.Proofs.Marking

/-! Markers spliced into a block in any order, at any index, with refused calls in
between: the statements stay what they were, and each marker stays in front of its
own target, however many of them are put before one statement. -/
namespace ExitSpacing

/-- A statement is told from the others by its `id`; all else may agree. -/
def Statement.Is (s t : Statement) : Prop := s.id = t.id

namespace Entry

def leading (es : List Entry) : Option Statement := es.findSome? statement?

/-- Every marker stands before its target, with nothing but markers between. -/
def Aimed : List Entry → Prop
  | [] => True
  | .statement _ :: rest => Aimed rest
  | .marker m :: rest => (∃ s, leading rest = some s ∧ s.Is m.target) ∧ Aimed rest

@[simp] theorem leadingMarker (m : Marker) (es : List Entry) : leading (.marker m :: es) = leading es := rfl

@[simp] theorem leadingStatement (s : Statement) (es : List Entry) : leading (.statement s :: es) = some s := rfl

theorem leadingPast (l r : List Entry) (m : Marker) : leading (l ++ .marker m :: r) = leading (l ++ r) := by
  simp only [leading, List.findSome?_append]; rfl

theorem aimedStatements (statements : List Statement) : Aimed (statements.map .statement) := by
  induction statements with
  | nil => trivial
  | cons s rest ih => exact ih

theorem aimedSpliced {l r : List Entry} {s : Statement} {m : Marker} (aimed : Aimed (l ++ .statement s :: r))
    (target : s.Is m.target) : Aimed (l ++ .marker m :: .statement s :: r) := by
  induction l with
  | nil => exact ⟨⟨s, rfl, target⟩, aimed⟩
  | cons e l ih =>
    cases e with
    | statement => exact ih aimed
    | marker n =>
      obtain ⟨⟨t, first, same⟩, aimed⟩ := aimed
      exact ⟨⟨t, (leadingPast l _ m).trans first, same⟩, ih aimed⟩

theorem Aimed.at {es : List Entry} (aimed : Aimed es) {i : Nat} {m : Marker} (found : es[i]? = some (.marker m)) :
    ∃ s, leading (es.drop (i + 1)) = some s ∧ s.Is m.target := by
  induction es generalizing i with
  | nil => simp at found
  | cons e rest ih =>
    cases i with
    | zero => cases Option.some.inj found; exact aimed.1
    | succ i =>
      cases e with
      | statement => exact ih aimed found
      | marker => exact ih aimed.2 found

theorem Aimed.last {es : List Entry} (aimed : Aimed es) {e : Entry} (last : es.getLast? = some e) :
    ∃ s, e = .statement s := by
  cases e with
  | statement s => exact ⟨s, rfl⟩
  | marker m =>
    have found : es[es.length - 1]? = some (.marker m) := by rw [← List.getLast?_eq_getElem?, last]
    obtain ⟨s, first, -⟩ := aimed.at found
    rw [List.drop_eq_nil_of_le (by omega)] at first
    cases first

end Entry

namespace Block
open Entry

def ofStatements (owner : String) (statements : List Statement) : Block := ⟨owner, statements.map .statement⟩

/-- The entry at `index` is the very target of `m`, and not the first entry. -/
def Takes (b : Block) (index : Int) (m : Marker) : Prop :=
  0 < index ∧ index < b.entries.length ∧ ∃ s, b.entries[index.toNat]? = some (.statement s) ∧ s.Is m.target

def attempt (b : Block) (call : Int × Marker) : Block :=
  match b.splice call.1 call.2 with
  | .ok spliced => spliced
  | .error _ => b

section
variable {b c : Block} {index : Int} {m : Marker}

theorem spliceTakes (takes : b.Takes index m) :
    b.splice index m = .ok { b with entries := b.entries.insertIdx index.toNat (.marker m) } := by
  obtain ⟨positive, inside, s, found, target⟩ := takes
  simp only [splice, if_pos (And.intro positive inside), found]
  exact if_pos target

theorem spliceRefuses (refused : ¬ b.Takes index m) :
    b.splice index m = .error
      (if 0 < index ∧ index < b.entries.length then .otherTarget index else .outside index b.entries.length) := by
  by_cases inside : 0 < index ∧ index < b.entries.length
  · simp only [splice, if_pos inside]
    cases found : b.entries[index.toNat]? with
    | none => rfl
    | some e =>
      cases e with
      | marker => rfl
      | statement s =>
        exact if_neg fun target => refused ⟨inside.1, inside.2, s, found, target⟩
  · simp only [splice, if_neg inside]

theorem spliceSucceeds : (∃ c, b.splice index m = .ok c) ↔ b.Takes index m := by
  refine ⟨fun ⟨c, spliced⟩ => Classical.byContradiction fun refused => ?_, fun takes => ⟨_, spliceTakes takes⟩⟩
  rw [spliceRefuses refused] at spliced
  cases spliced

structure Intact (owner : String) (statements : List Statement) (b : Block) : Prop where
  owner : b.owner = owner
  statements : b.statements = statements
  first : ∀ e, b.entries.head? = some e → ∃ s, e = .statement s
  aimed : Aimed b.entries

variable {owner : String} {statements : List Statement}

theorem builtIntact (owner : String) (statements : List Statement) :
    (ofStatements owner statements).Intact owner statements where
  owner := rfl
  statements := by
    rw [Block.statements, ofStatements, List.filterMap_map]
    exact List.filterMap_some
  first := fun e head => by
    rw [ofStatements, List.head?_map, Option.map_eq_some_iff] at head
    obtain ⟨s, -, rfl⟩ := head
    exact ⟨s, rfl⟩
  aimed := aimedStatements statements

theorem Takes.parts (takes : b.Takes index m) : ∃ l r s,
    b.entries = l ++ .statement s :: r ∧ l.length = index.toNat ∧ l ≠ [] ∧ s.Is m.target := by
  obtain ⟨positive, -, s, found, target⟩ := takes
  obtain ⟨inside, same⟩ := List.getElem?_eq_some_iff.mp found
  have long : (b.entries.take index.toNat).length = index.toNat := List.length_take_of_le (Nat.le_of_lt inside)
  refine ⟨b.entries.take index.toNat, b.entries.drop (index.toNat + 1), s, ?_, long, ?_, target⟩
  · rw [← same, List.getElem_cons_drop, List.take_append_drop]
  · rintro none
    rw [none, List.length_nil] at long
    omega

theorem splicedParts (spliced : b.splice index m = .ok c) : ∃ l r s, b.entries = l ++ .statement s :: r ∧ l ≠ [] ∧
    s.Is m.target ∧ c = { b with entries := l ++ .marker m :: .statement s :: r } := by
  have takes := spliceSucceeds.mp ⟨c, spliced⟩
  rw [spliceTakes takes, Except.ok.injEq] at spliced
  obtain ⟨l, r, s, parts, long, some, target⟩ := takes.parts
  refine ⟨l, r, s, parts, some, target, ?_⟩
  rw [← spliced, ← insertMiddle, long, ← parts]

theorem splicedStatements (spliced : b.splice index m = .ok c) : c.statements = b.statements := by
  obtain ⟨l, r, s, parts, -, -, rfl⟩ := splicedParts spliced
  rw [Block.statements, Block.statements, parts]
  simp only [List.filterMap_append, List.filterMap_cons, statement?]

theorem splicedMarkers (spliced : b.splice index m = .ok c) : c.markers.Perm (m :: b.markers) := by
  obtain ⟨l, r, s, parts, -, -, rfl⟩ := splicedParts spliced
  rw [Block.markers, Block.markers, parts]
  simp only [List.filterMap_append, List.filterMap_cons, marker?]
  exact List.perm_middle

theorem Intact.splice (intact : b.Intact owner statements) (spliced : b.splice index m = .ok c) :
    c.Intact owner statements := by
  have kept := splicedStatements spliced
  obtain ⟨l, r, s, parts, some, target, rfl⟩ := splicedParts spliced
  have head : (l ++ .marker m :: .statement s :: r).head? = b.entries.head? := by
    rw [parts, List.head?_append_of_ne_nil _ some, List.head?_append_of_ne_nil _ some]
  exact {
    owner := intact.owner
    statements := kept.trans intact.statements
    first := fun e opens => intact.first e (head ▸ opens)
    aimed := aimedSpliced (parts ▸ intact.aimed) target }

theorem Intact.attempt (intact : b.Intact owner statements) (call : Int × Marker) :
    (b.attempt call).Intact owner statements := by
  unfold Block.attempt
  split
  · rename_i spliced
    exact intact.splice spliced
  · exact intact

theorem Intact.attempts (intact : b.Intact owner statements) (calls : List (Int × Marker)) :
    (calls.foldl Block.attempt b).Intact owner statements := by
  induction calls generalizing b with
  | nil => exact intact
  | cons call rest ih => exact ih (intact.attempt call)

end

/-- Calls of `splice` with any indices and markers on a block of `statements`, refused
ones among them: the statements are the same in the same order, the block starts and
ends with one, the first statement behind each marker is its target, and the next call
puts its marker in exactly when it points at its target behind the first entry. -/
theorem splicesKeep (owner : String) (statements : List Statement) (calls : List (Int × Marker)) :
    let b := calls.foldl attempt (ofStatements owner statements)
    (b.owner = owner ∧ b.statements = statements) ∧
    (∀ e, b.entries.head? = some e ∨ b.entries.getLast? = some e → ∃ s, e = .statement s) ∧
    (∀ i m, b.entries[i]? = some (.marker m) →
      ∃ s, (b.entries.drop (i + 1)).findSome? Entry.statement? = some s ∧ s.Is m.target) ∧
    ∀ index m,
      ((∃ c, b.splice index m = .ok c) ↔ 0 < index ∧ index < b.entries.length ∧
        ∃ s, b.entries[index.toNat]? = some (.statement s) ∧ s.Is m.target) ∧
      (∀ c, b.splice index m = .ok c →
        b.attempt (index, m) = { b with entries := b.entries.insertIdx index.toNat (.marker m) }) ∧
      ∀ e, b.splice index m = .error e → b.attempt (index, m) = b := by
  intro b
  have intact : b.Intact owner statements := (builtIntact owner statements).attempts calls
  refine ⟨⟨intact.owner, intact.statements⟩, ?ends, fun i m found => intact.aimed.at found, fun index m =>
    ⟨spliceSucceeds, ?puts, ?leaves⟩⟩
  case ends =>
    rintro e (first | last)
    · exact intact.first e first
    · exact intact.aimed.last last
  case puts =>
    intro c spliced
    simp only [attempt, spliceTakes (spliceSucceeds.mp ⟨c, spliced⟩)]
  case leaves =>
    intro e refused
    simp only [attempt, refused]

end Block

end ExitSpacing
