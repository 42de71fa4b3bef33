import ExitSpacing.Proofs.Layout
import ExitSpacing.Proofs.Passes
import Mathlib.Data.List.Flatten

/-! The log of a pass over unmarked blocks: the statements it sets off, block by block,
under a sort that is settled element by element. -/
namespace ExitSpacing

section
variable {α : Type} {le : α → α → Bool} (trans : ∀ a b c, le a b → le b c → le a c) (total : ∀ a b, le a b || le b a)
include trans total

theorem sortedCons (x : α) (xs : List α) :
    (x :: xs).mergeSort le = (xs.mergeSort le).filter (fun y => !le x y) ++ x :: (xs.mergeSort le).filter (le x) := by
  obtain ⟨l, r, whole, rest, left⟩ := List.mergeSort_cons trans total x xs
  have sorted := List.pairwise_mergeSort trans total (x :: xs)
  rw [whole] at sorted
  have right : ∀ y ∈ r, le x y = true := (List.pairwise_cons.mp (List.pairwise_append.mp sorted).2.1).1
  have low : (l ++ r).filter (fun y => !le x y) = l := by
    rw [List.filter_append, List.filter_eq_self.mpr left,
      List.filter_eq_nil_iff.mpr fun y mem => by simp [right y mem], List.append_nil]
  have high : (l ++ r).filter (le x) = r := by
    rw [List.filter_append, List.filter_eq_self.mpr right,
      List.filter_eq_nil_iff.mpr fun y mem => by simpa using left y mem, List.nil_append]
  rw [whole, rest, low, high]

theorem sortedSublist {few many : List α} (part : few.Sublist many) :
    (few.mergeSort le).Sublist (many.mergeSort le) := by
  induction part with
  | slnil => exact List.Sublist.refl _
  | @cons few many x part ih =>
    obtain ⟨l, r, whole, rest, -⟩ := List.mergeSort_cons trans total x many
    rw [rest] at ih
    rw [whole]
    exact ih.trans ((List.sublist_cons_self x r).append_left l)
  | @cons_cons few many x part ih =>
    rw [sortedCons trans total x few, sortedCons trans total x many]
    exact (ih.filter _).append ((ih.filter _).cons_cons x)

theorem sortedAppend {front back : List α} (before : ∀ x ∈ front, ∀ y ∈ back, le x y = true) :
    (front ++ back).mergeSort le = front.mergeSort le ++ back.mergeSort le := by
  induction front with
  | nil => rw [List.mergeSort_nil]; rfl
  | cons x front ih =>
    have behind : ∀ y ∈ back.mergeSort le, le x y = true :=
      fun y mem => before x List.mem_cons_self y (List.mem_mergeSort.mp mem)
    have none : (back.mergeSort le).filter (fun y => !le x y) = [] :=
      List.filter_eq_nil_iff.mpr fun y mem => by simp [behind y mem]
    rw [List.cons_append, sortedCons trans total, sortedCons trans total,
      ih fun y mem => before y (List.mem_cons_of_mem x mem),
      List.filter_append, List.filter_append, none, List.filter_eq_self.mpr behind, List.append_nil,
      List.append_assoc, List.cons_append]

theorem sortedSwap {front back : List α} (after : ∀ x ∈ front, ∀ y ∈ back, le x y = false) :
    (front ++ back).mergeSort le = back.mergeSort le ++ front.mergeSort le := by
  induction front with
  | nil => rw [List.mergeSort_nil, List.append_nil]; rfl
  | cons x front ih =>
    have ahead : ∀ y ∈ back.mergeSort le, (!le x y) = true :=
      fun y mem => by simp [after x List.mem_cons_self y (List.mem_mergeSort.mp mem)]
    have none : (back.mergeSort le).filter (le x) = [] :=
      List.filter_eq_nil_iff.mpr fun y mem => by simpa using ahead y mem
    rw [List.cons_append, sortedCons trans total, sortedCons trans total,
      ih fun y mem => after y (List.mem_cons_of_mem x mem),
      List.filter_append, List.filter_append, none, List.filter_eq_self.mpr ahead, List.nil_append, List.append_assoc]

end

namespace Change

theorem rowInjective : Function.Injective row := by
  rintro ⟨k, u, l, c, hl, hc⟩ ⟨k', u', l', c', hl', hc'⟩ same
  simp only [row, Prod.mk.injEq] at same
  obtain ⟨rfl, rfl, rfl, rfl⟩ := same
  rfl

theorem sublistOfRows {few many : List Change} (part : (few.map row).Sublist (many.map row)) : few.Sublist many := by
  obtain ⟨kept, inside, same⟩ := List.sublist_map_iff.mp part
  rw [rowInjective.list_map same]
  exact inside

end Change

namespace Document
open Entry

def wants (d : Document) (rule : BlockRule) : List Marker :=
  d.blocks.flatMap fun b => wantedAll (b.due rule) none b.entries

theorem applyLogged {d : Document} (fresh : d.Fresh) (rule : BlockRule) :
    ∃ log : List Change,
      d.apply rule = (d.markedBy fun b => b.due rule, .ok (log.mergeSort Change.notAfter)) ∧
      log.map Change.row = (d.wants rule).map fun m => m.target.row d.unit := by
  obtain ⟨log, ran, rows⟩ := markAllSpaced rule d.unit fresh.positive
  refine ⟨log, ?_, ?_⟩
  · rw [apply, ran, markedBy]
    rfl
  · rw [rows, wants, List.map_flatMap]

theorem wantsMarked {d : Document} (fresh : d.Fresh) (rule : BlockRule) :
    (d.markedBy fun b => b.due rule).markers = d.wants rule := by
  rw [markers, markedBy, List.flatMap_map, wants]
  refine List.flatMap_congr fun b mem => ?_
  rw [Block.markers, Block.markedBy, Block.unmarkedEntries (fresh.unmarked b mem), spacedMarkers]

end Document
end ExitSpacing
