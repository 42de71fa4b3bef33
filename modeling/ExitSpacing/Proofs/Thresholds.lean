import ExitSpacing.Proofs.Composition
import ExitSpacing.Proofs.Logging
import Mathlib.Data.List.Forall2

/-! A larger block size asks for less: each block keeps some of the markers a smaller one
puts in, and the log some of its lines. -/
namespace ExitSpacing

namespace Entry
variable {strict loose : Statement → Statement → Bool}

theorem wantedWithin (less : ∀ p t, strict p t = true → loose p t = true) (before : Option Entry) (e : Entry) :
    (wanted strict before e).Sublist (wanted loose before e) := by
  match before, e with
  | some (.statement p), .statement t =>
    cases asked : strict p t with
    | false => simp only [wanted, asked, Bool.false_eq_true, if_false, List.nil_sublist]
    | true => simp only [wanted, asked, less p t asked, if_true, List.Sublist.refl]
  | some (.statement _), .marker _ | some (.marker _), _ | none, _ => exact List.Sublist.refl _

theorem wantedAllWithin (less : ∀ p t, strict p t = true → loose p t = true) (before : Option Entry) (es : List Entry) :
    (wantedAll strict before es).Sublist (wantedAll loose before es) := by
  induction es generalizing before with
  | nil => exact List.Sublist.refl _
  | cons e rest ih => exact (wantedWithin less before e).append (ih (some e))

theorem spacedWithin (less : ∀ p t, strict p t = true → loose p t = true) (before : Option Entry) (es : List Entry) :
    (spaced strict before es).Sublist (spaced loose before es) := by
  induction es generalizing before with
  | nil => exact List.Sublist.refl _
  | cons e rest ih => exact ((wantedWithin less before e).map .marker).append ((ih (some e)).cons_cons e)

end Entry

theorem Block.dueLess (c : Block) (policy : SizePolicy) {a b : Nat} (le : a ≤ b) (p t : Statement)
    (due : c.due ⟨b, policy⟩ p t = true) : c.due ⟨a, policy⟩ p t = true :=
  asksLess policy le (g := (c, ⟨t, p⟩)) due

namespace Document
open Entry

theorem wantsLess (d : Document) (policy : SizePolicy) {a b : Nat} (le : a ≤ b) :
    (d.wants ⟨b, policy⟩).Sublist (d.wants ⟨a, policy⟩) :=
  List.Sublist.flatMap_right d.blocks fun c _ => wantedAllWithin (c.dueLess policy le) none c.entries

/-- With a larger block size a pass puts in a part of the markers, block by block and in the
same places, and logs a part of the lines in the same order. -/
theorem thresholdOnlyRemoves (d : Document) (fresh : d.Fresh) (policy : SizePolicy) {a b : Nat} (le : a ≤ b) :
    ∃ many few, (d.apply ⟨a, policy⟩).2 = .ok many ∧ (d.apply ⟨b, policy⟩).2 = .ok few ∧
      few.Sublist many ∧
      List.Forall₂ (fun strict loose : Block => strict.statements = loose.statements ∧
          strict.entries.Sublist loose.entries ∧ ∀ m ∈ strict.markers, m ∈ loose.markers)
        (d.apply ⟨b, policy⟩).1.blocks (d.apply ⟨a, policy⟩).1.blocks := by
  obtain ⟨many, ranA, rowsA⟩ := applyLogged fresh ⟨a, policy⟩
  obtain ⟨few, ranB, rowsB⟩ := applyLogged fresh ⟨b, policy⟩
  have part : few.Sublist many := by
    refine Change.sublistOfRows ?_
    rw [rowsA, rowsB]
    exact (d.wantsLess policy le).map _
  rw [ranA, ranB]
  refine ⟨_, _, rfl, rfl, sortedSublist Change.notAfterTrans Change.notAfterTotal part, ?_⟩
  simp only [markedBy, List.forall₂_map_left_iff, List.forall₂_map_right_iff, List.forall₂_same]
  intro c _
  have within : (c.markedBy (c.due ⟨b, policy⟩)).entries.Sublist (c.markedBy (c.due ⟨a, policy⟩)).entries :=
    spacedWithin (c.dueLess policy le) none c.entries
  refine ⟨?_, within, ?_⟩
  · rw [Block.markedByStatements, Block.markedByStatements]
  · exact (within.filterMap Entry.marker?).subset

theorem nestedExitsLosesOne : nestedExits.Fresh ∧
    (nestedExits.apply ⟨1, .lines⟩).1.blocks.map (fun b => b.markers.map (·.target.id)) = [[⟨0, 2⟩], [⟨1, 1⟩]] ∧
    (nestedExits.apply ⟨2, .lines⟩).1.blocks.map (fun b => b.markers.map (·.target.id)) = [[⟨0, 2⟩], []] ∧
    ∃ many few, (nestedExits.apply ⟨1, .lines⟩).2 = .ok many ∧ (nestedExits.apply ⟨2, .lines⟩).2 = .ok few ∧
      few.Sublist many := by
  obtain ⟨many, few, ranMany, ranFew, part, -⟩ :=
    thresholdOnlyRemoves nestedExits nestedExitsFresh .lines (by decide : 1 ≤ 2)
  exact ⟨nestedExitsFresh, by decide, by decide, many, few, ranMany, ranFew, part⟩

end Document
end ExitSpacing
