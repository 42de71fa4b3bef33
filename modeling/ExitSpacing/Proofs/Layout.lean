import ExitSpacing.Proofs.Marking
import ExitSpacing.Spacing.Rendering

/-! Where the statements of a tree stand in its source, and what follows for the gaps
between neighbours: no two of them touch, whichever blocks they belong to. -/
namespace ExitSpacing
open Bytes

def Solid (source : Bytes) (offset : Nat) : Prop := ∃ b, source[offset]? = some b ∧ isBlank b = false
instance (source offset) : Decidable (Solid source offset) :=
  match found : source[offset]? with
  | none => isFalse (by rintro ⟨b, there, _⟩; rw [found] at there; cases there)
  | some b =>
    if solid : isBlank b = false then isTrue ⟨b, found, solid⟩
    else isFalse (by rintro ⟨c, there, blank⟩; rw [found] at there; cases there; exact solid blank)

theorem solidInside {source : Bytes} {offset : Nat} (solid : Solid source offset) : offset < source.length := by
  obtain ⟨b, there, -⟩ := solid
  exact (List.getElem?_eq_some_iff.mp there).1

structure Statement.Covers (source : Bytes) (s : Statement) : Prop where
  nonempty : s.startByte < s.endByte
  first : Solid source s.startByte
  last : Solid source (s.endByte - 1)
instance (source s) : Decidable (Statement.Covers source s) :=
  decidable_of_iff (s.startByte < s.endByte ∧ Solid source s.startByte ∧ Solid source (s.endByte - 1))
    ⟨fun h => ⟨h.1, h.2.1, h.2.2⟩, fun h => ⟨h.nonempty, h.first, h.last⟩⟩

namespace Block

def Before (b c : Block) : Prop :=
  ∀ s ∈ b.statements, ∀ t ∈ c.statements, s.endByte ≤ t.startByte

def Inside (b c : Block) : Prop :=
  ∃ t ∈ c.statements, ∀ s ∈ b.statements, t.startByte ≤ s.startByte ∧ s.endByte ≤ t.endByte

def Apart (b c : Block) : Prop := b.Before c ∨ c.Before b ∨ b.Inside c ∨ c.Inside b
instance (b c) : Decidable (Apart b c) := by unfold Apart Before Inside; infer_instance

end Block

/-- Statements as a tree has them: they begin and end on solid bytes, those of a block
follow one another, and of two blocks one lies in a statement of the other or they
have no byte in common. -/
structure Laid (source : Bytes) (blocks : List Block) : Prop where
  spans : ∀ b ∈ blocks, ∀ s ∈ b.statements, s.Covers source
  ascending : ∀ b ∈ blocks, b.statements.Pairwise fun s t => s.endByte ≤ t.startByte
  nested : blocks.Pairwise Block.Apart
instance (source blocks) : Decidable (Laid source blocks) :=
  decidable_of_iff ((∀ b ∈ blocks, ∀ s ∈ b.statements, s.Covers source) ∧
      (∀ b ∈ blocks, b.statements.Pairwise fun s t => s.endByte ≤ t.startByte) ∧ blocks.Pairwise Block.Apart)
    ⟨fun h => ⟨h.1, h.2.1, h.2.2⟩, fun h => ⟨h.spans, h.ascending, h.nested⟩⟩

def neighbours : List Statement → List Marker
  | p :: t :: rest => ⟨t, p⟩ :: neighbours (t :: rest)
  | _ => []

theorem neighboursMem {ss : List Statement} {m : Marker} (mem : m ∈ neighbours ss) :
    m.predecessor ∈ ss ∧ m.target ∈ ss := by
  induction ss with
  | nil => cases mem
  | cons p rest ih =>
    cases rest with
    | nil => cases mem
    | cons t rest =>
      rcases List.mem_cons.mp mem with rfl | later
      · exact ⟨List.mem_cons_self, List.mem_cons_of_mem _ List.mem_cons_self⟩
      · exact ⟨List.mem_cons_of_mem _ (ih later).1, List.mem_cons_of_mem _ (ih later).2⟩

namespace Marker

def Clear (m n : Marker) : Prop := m.target.startByte < n.predecessor.endByte

structure Gap (source : Bytes) (m : Marker) : Prop where
  predecessor : m.predecessor.Covers source
  target : m.target.Covers source
  follows : m.predecessor.endByte ≤ m.target.startByte

end Marker

section
variable {source : Bytes} {ss : List Statement}

theorem neighboursFollow (ascending : ss.Pairwise fun s t => s.endByte ≤ t.startByte) {m : Marker}
    (mem : m ∈ neighbours ss) : m.predecessor.endByte ≤ m.target.startByte := by
  induction ss with
  | nil => cases mem
  | cons p rest ih =>
    cases rest with
    | nil => cases mem
    | cons t rest =>
      rw [List.pairwise_cons] at ascending
      rcases List.mem_cons.mp mem with rfl | later
      · exact ascending.1 t List.mem_cons_self
      · exact ih ascending.2 later

theorem neighboursBeside (spans : ∀ s ∈ ss, s.Covers source)
    (ascending : ss.Pairwise fun s t => s.endByte ≤ t.startByte) {m : Marker} (mem : m ∈ neighbours ss)
    {s : Statement} (inside : s ∈ ss) :
    s.endByte ≤ m.predecessor.endByte ∨ m.target.startByte ≤ s.startByte := by
  induction ss with
  | nil => cases mem
  | cons p rest ih =>
    cases rest with
    | nil => cases mem
    | cons t rest =>
      obtain ⟨first, later⟩ := List.pairwise_cons.mp ascending
      rcases List.mem_cons.mp mem with rfl | after
      · rcases List.mem_cons.mp inside with rfl | inside
        · exact .inl (Nat.le_refl _)
        · rcases List.mem_cons.mp inside with rfl | inside
          · exact .inr (Nat.le_refl _)
          · have next := (List.pairwise_cons.mp later).1 s inside
            have long := (spans t (by simp)).nonempty
            exact .inr (by dsimp only; omega)
      · rcases List.mem_cons.mp inside with rfl | inside
        · have next := first _ (neighboursMem after).1
          have long := (spans _ (List.mem_cons_of_mem _ (neighboursMem after).1)).nonempty
          exact .inl (by omega)
        · exact ih (fun s mem => spans s (List.mem_cons_of_mem _ mem)) later after inside

theorem neighboursClear (spans : ∀ s ∈ ss, s.Covers source)
    (ascending : ss.Pairwise fun s t => s.endByte ≤ t.startByte) :
    (neighbours ss).Pairwise Marker.Clear := by
  induction ss with
  | nil => exact .nil
  | cons p rest ih =>
    cases rest with
    | nil => exact .nil
    | cons t rest =>
      have tail := fun s mem => spans s (List.mem_cons_of_mem p mem)
      have later := (List.pairwise_cons.mp ascending).2
      refine List.pairwise_cons.mpr ⟨fun n mem => ?_, ih tail later⟩
      have long := (spans t (by simp)).nonempty
      rcases List.mem_cons.mp (neighboursMem mem).1 with same | inside
      · rw [Marker.Clear, same]; exact long
      · have next := (List.pairwise_cons.mp later).1 _ inside
        have wide := (tail _ (neighboursMem mem).1).nonempty
        show t.startByte < n.predecessor.endByte
        omega

end

namespace Laid
variable {source : Bytes} {blocks : List Block}

theorem gap (laid : Laid source blocks) {b : Block} (inside : b ∈ blocks) {m : Marker}
    (mem : m ∈ neighbours b.statements) : m.Gap source where
  predecessor := laid.spans b inside _ (neighboursMem mem).1
  target := laid.spans b inside _ (neighboursMem mem).2
  follows := neighboursFollow (laid.ascending b inside) mem

theorem clearInside (laid : Laid source blocks) {b c : Block} (inB : b ∈ blocks) (inC : c ∈ blocks)
    (inside : b.Inside c) {m n : Marker} (mem : m ∈ neighbours b.statements)
    (other : n ∈ neighbours c.statements) : m.Clear n ∨ n.Clear m := by
  obtain ⟨s, held, around⟩ := inside
  have gap := laid.gap inB mem
  have target := around _ (neighboursMem mem).2
  have predecessor := around _ (neighboursMem mem).1
  have long := gap.target.nonempty
  have wide := gap.predecessor.nonempty
  rcases neighboursBeside (laid.spans c inC) (laid.ascending c inC) other held with earlier | later
  · exact .inl (by unfold Marker.Clear; omega)
  · exact .inr (by unfold Marker.Clear; omega)

theorem clearApart (laid : Laid source blocks) {b c : Block} (inB : b ∈ blocks) (inC : c ∈ blocks)
    (apart : b.Apart c) {m n : Marker} (mem : m ∈ neighbours b.statements)
    (other : n ∈ neighbours c.statements) : m.Clear n ∨ n.Clear m := by
  have gapM := laid.gap inB mem
  have gapN := laid.gap inC other
  have longM := gapM.target.nonempty
  have longN := gapN.target.nonempty
  have wideM := gapM.predecessor.nonempty
  have wideN := gapN.predecessor.nonempty
  rcases apart with before | after | inside | around
  · have order := before _ (neighboursMem mem).2 _ (neighboursMem other).1
    exact .inl (by unfold Marker.Clear; omega)
  · have order := after _ (neighboursMem other).2 _ (neighboursMem mem).1
    exact .inr (by unfold Marker.Clear; omega)
  · exact laid.clearInside inB inC inside mem other
  · exact (laid.clearInside inC inB around other mem).symm

theorem clear (laid : Laid source blocks) :
    (blocks.flatMap fun b => neighbours b.statements).Pairwise fun m n => m.Clear n ∨ n.Clear m := by
  refine List.pairwise_flatMap.mpr ⟨fun b inside => ?_, ?_⟩
  · exact (neighboursClear (laid.spans b inside) (laid.ascending b inside)).imp .inl
  · refine laid.nested.imp_of_mem ?_
    intro b c inB inC apart m mem n other
    exact laid.clearApart inB inC apart mem other

end Laid

namespace Entry

theorem wantedNeighbours (due : Statement → Statement → Bool) (p : Statement) (ss : List Statement) :
    wantedAll due (some (.statement p)) (ss.map .statement) =
      (neighbours (p :: ss)).filter fun m => due m.predecessor m.target := by
  induction ss generalizing p with
  | nil => rfl
  | cons t rest ih =>
    rw [List.map_cons, wantedAll, ih, neighbours, List.filter_cons, wanted]
    cases due p t <;> rfl

theorem spacedMarkers (due : Statement → Statement → Bool) (before : Option Entry) (ss : List Statement) :
    (spaced due before (ss.map .statement)).filterMap marker? = wantedAll due before (ss.map .statement) := by
  induction ss generalizing before with
  | nil => rfl
  | cons t rest ih =>
    rw [List.map_cons, spaced, wantedAll, List.filterMap_append, List.filterMap_cons, ih, List.filterMap_map]
    exact congrArg (· ++ _) (List.filterMap_some)

end Entry

theorem Block.markedByMarkers {b : Block} (unmarked : b.markers = []) (due : Statement → Statement → Bool) :
    (b.markedBy due).markers = (neighbours b.statements).filter fun m => due m.predecessor m.target := by
  rw [markers, markedBy, unmarkedEntries unmarked, Entry.spacedMarkers]
  cases b.statements with
  | nil => rfl
  | cons p rest => rw [List.map_cons, Entry.wantedAll, Entry.wantedNeighbours]; rfl

end ExitSpacing
