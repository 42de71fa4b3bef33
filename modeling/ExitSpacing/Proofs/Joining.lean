import ExitSpacing.Spacing.Rendering
import Mathlib.Data.List.Pairwise

/-! Edits made one after another from the end, as one text: what stands between them,
untouched, and their own texts. -/
namespace ExitSpacing
open Bytes

namespace Edit

/-- The source up to `stop` with the texts of `edits`, later edits first, in their places. -/
def joined (source : Bytes) : List Edit → Nat → Bytes
  | [], stop => source.take stop
  | e :: earlier, stop => joined source earlier e.start ++ e.text ++ cut source e.stop stop

/-- Where a byte that stood at an offset is found when `edits`, later edits first, are made. -/
def moved : List Edit → Nat → Nat
  | [], offset => offset
  | e :: earlier, offset =>
    if offset < e.start then moved earlier offset
    else moved earlier e.start + e.text.length + (offset - e.stop)

/-- Later edits first, and no two that touch. -/
structure Stacked (edits : List Edit) : Prop where
  windows : ∀ e ∈ edits, e.start ≤ e.stop
  falling : edits.Pairwise fun e f => f.stop < e.start

def Spared (edits : List Edit) (offset : Nat) : Prop := ∀ e ∈ edits, offset < e.start ∨ e.stop ≤ offset

section
variable {source : Bytes} {e : Edit} {edits : List Edit}

theorem Stacked.tail (stacked : Stacked (e :: edits)) : Stacked edits where
  windows := fun f mem => stacked.windows f (List.mem_cons_of_mem _ mem)
  falling := (List.pairwise_cons.mp stacked.falling).2

theorem Stacked.below (stacked : Stacked (e :: edits)) : ∀ f ∈ edits, f.stop ≤ e.start :=
  fun f mem => Nat.le_of_lt ((List.pairwise_cons.mp stacked.falling).1 f mem)

theorem Stacked.spared (stacked : Stacked (e :: edits)) : Spared edits e.start :=
  fun f mem => .inr (stacked.below f mem)

theorem Spared.tail {offset : Nat} (spared : Spared (e :: edits) offset) : Spared edits offset :=
  fun f mem => spared f (List.mem_cons_of_mem _ mem)

theorem applyTake {stop : Nat} (bound : stop ≤ source.length) (fits : e.stop ≤ stop) (window : e.start ≤ e.stop)
    (rest : Bytes) :
    apply (source.take stop ++ rest) e = source.take e.start ++ (e.text ++ cut source e.stop stop ++ rest) := by
  have long : (source.take stop).length = stop := by simp [bound]
  have front : (source.take stop ++ rest).take e.start = source.take e.start := by
    rw [List.take_append_of_le_length (by omega), List.take_take, Nat.min_eq_left (by omega)]
  have back : (source.take stop ++ rest).drop e.stop = cut source e.stop stop ++ rest := by
    rw [List.drop_append_of_le_length (by omega), List.drop_take, cut]
  rw [apply, front, back]
  simp only [List.append_assoc]

theorem foldJoined (stacked : Stacked edits) {stop : Nat} (bound : stop ≤ source.length)
    (within : ∀ e ∈ edits, e.stop ≤ stop) (rest : Bytes) :
    edits.foldl apply (source.take stop ++ rest) = joined source edits stop ++ rest := by
  induction edits generalizing stop rest with
  | nil => rfl
  | cons e earlier ih =>
    have fits := within e List.mem_cons_self
    have window := stacked.windows e List.mem_cons_self
    rw [List.foldl_cons, applyTake bound fits window, ih stacked.tail (by omega) stacked.below, joined]
    simp only [List.append_assoc]

theorem joinedLength (stacked : Stacked edits) {stop : Nat} (bound : stop ≤ source.length)
    (within : ∀ e ∈ edits, e.stop ≤ stop) : (joined source edits stop).length = moved edits stop := by
  induction edits generalizing stop with
  | nil => simp [joined, moved, bound]
  | cons e earlier ih =>
    have fits := within e List.mem_cons_self
    have window := stacked.windows e List.mem_cons_self
    rw [joined, moved, if_neg (by omega), List.length_append, List.length_append,
      ih stacked.tail (by omega) stacked.below, cutLength, Nat.min_eq_left (by omega)]

theorem movedMono (stacked : Stacked edits) {a b : Nat} (sparedA : Spared edits a) (sparedB : Spared edits b)
    (less : a < b) : moved edits a < moved edits b := by
  induction edits generalizing a b with
  | nil => exact less
  | cons e earlier ih =>
    have window := stacked.windows e List.mem_cons_self
    have atA := sparedA e List.mem_cons_self
    have atB := sparedB e List.mem_cons_self
    simp only [moved]
    by_cases afterB : b < e.start
    · rw [if_pos (by omega), if_pos afterB]
      exact ih stacked.tail sparedA.tail sparedB.tail less
    · rw [if_neg afterB]
      by_cases afterA : a < e.start
      · have front := ih stacked.tail sparedA.tail stacked.spared afterA
        rw [if_pos afterA]
        omega
      · rw [if_neg afterA]
        omega

theorem joinedAt (stacked : Stacked edits) {stop : Nat} (bound : stop ≤ source.length)
    (within : ∀ e ∈ edits, e.stop ≤ stop) {offset : Nat} (before : offset < stop) (spared : Spared edits offset) :
    (joined source edits stop)[moved edits offset]? = source[offset]? := by
  induction edits generalizing stop with
  | nil => rw [joined, moved, List.getElem?_take_of_lt before]
  | cons e earlier ih =>
    have fits := within e List.mem_cons_self
    have window := stacked.windows e List.mem_cons_self
    have long : (joined source earlier e.start).length = moved earlier e.start :=
      joinedLength stacked.tail (by omega) stacked.below
    rw [joined, moved]
    by_cases early : offset < e.start
    · have front := movedMono stacked.tail spared.tail stacked.spared early
      rw [if_pos early, List.append_assoc, List.getElem?_append_left (by omega)]
      exact ih stacked.tail (by omega) stacked.below early spared.tail
    · have late : e.stop ≤ offset := (spared e List.mem_cons_self).resolve_left early
      rw [if_neg early, List.getElem?_append_right (by simp [long]), List.length_append, long,
        Nat.add_sub_cancel_left, cut, List.getElem?_take_of_lt (by omega), List.getElem?_drop,
        Nat.add_sub_cancel' late]

theorem joinedCut {stop middle : Nat} (within : ∀ e ∈ edits, e.stop ≤ middle) (before : middle ≤ stop) :
    joined source edits stop = joined source edits middle ++ cut source middle stop := by
  cases edits with
  | nil =>
    have whole := cutAppend source (Nat.zero_le middle) before
    simpa [joined, cut] using whole.symm
  | cons e earlier =>
    have fits := within e List.mem_cons_self
    rw [joined, joined, List.append_assoc, List.append_assoc, List.append_assoc, cutAppend source fits before]

theorem movedStep {a b : Nat} (le : a ≤ b) (beside : ∀ e ∈ edits, e.stop ≤ a ∨ b < e.start)
    (windows : ∀ e ∈ edits, e.start ≤ e.stop) : moved edits b = moved edits a + (b - a) := by
  induction edits with
  | nil => simp only [moved]; omega
  | cons e earlier ih =>
    have window := windows e List.mem_cons_self
    simp only [moved]
    rcases beside e List.mem_cons_self with before | after
    · rw [if_neg (by omega), if_neg (by omega)]
      omega
    · rw [if_pos after, if_pos (by omega)]
      exact ih (fun f mem => beside f (List.mem_cons_of_mem _ mem)) fun f mem => windows f (List.mem_cons_of_mem _ mem)

def upTo (edits : List Edit) (offset : Nat) : List Edit := edits.filter fun e => e.start ≤ offset

theorem upToWithin {offset : Nat} (spared : Spared edits offset) : ∀ e ∈ upTo edits offset, e.stop ≤ offset := by
  intro e mem
  obtain ⟨inside, early⟩ := List.mem_filter.mp mem
  have started := of_decide_eq_true early
  exact (spared e inside).resolve_left (by omega)

theorem joinedTake (stacked : Stacked edits) {stop : Nat} (bound : stop ≤ source.length)
    (within : ∀ e ∈ edits, e.stop ≤ stop) {offset : Nat} (before : offset ≤ stop) (spared : Spared edits offset) :
    (joined source edits stop).take (moved edits offset) = joined source (upTo edits offset) offset := by
  induction edits generalizing stop with
  | nil => simp only [joined, moved, upTo, List.filter_nil, List.take_take, Nat.min_eq_left before]
  | cons e earlier ih =>
    have fits := within e List.mem_cons_self
    have window := stacked.windows e List.mem_cons_self
    by_cases early : offset < e.start
    · have long : (joined source earlier e.start).length = moved earlier e.start :=
        joinedLength stacked.tail (by omega) stacked.below
      have front := movedMono stacked.tail spared.tail stacked.spared early
      have skipped : upTo (e :: earlier) offset = upTo earlier offset :=
        List.filter_cons_of_neg (by simpa using early)
      rw [skipped, moved, if_pos early, joined, List.append_assoc, List.take_append_of_le_length (by omega)]
      exact ih stacked.tail (by omega) stacked.below (by omega) spared.tail
    · have late : e.stop ≤ offset := (spared e List.mem_cons_self).resolve_left early
      have every : ∀ f ∈ e :: earlier, f.stop ≤ offset := by
        intro f mem
        rcases List.mem_cons.mp mem with rfl | inside
        · exact late
        · have := stacked.below f inside; omega
      have all : upTo (e :: earlier) offset = e :: earlier := by
        refine List.filter_eq_self.mpr fun f mem => decide_eq_true ?_
        have := every f mem
        have := stacked.windows f mem
        omega
      have long : (joined source (e :: earlier) offset).length = moved (e :: earlier) offset :=
        joinedLength stacked (by omega) every
      rw [all, joinedCut every before, ← long, List.take_left]

theorem fromEndSorted (edits : List Edit) : (fromEnd edits).Pairwise fun e f => decide (f.start ≤ e.start) = true := by
  refine List.pairwise_mergeSort ?_ ?_ edits
  · simp only [decide_eq_true_eq]; omega
  · simp only [Bool.or_eq_true, decide_eq_true_eq]; omega

theorem Stacked.unique (stacked : Stacked edits) : ∀ ⦃e⦄, e ∈ edits → ∀ ⦃f⦄, f ∈ edits → e.start = f.start → e = f := by
  have apart : ∀ e f, e ∈ edits → f ∈ edits → f.stop < e.start → e.start ≠ f.start := by
    intro e f _ inF below
    have window := stacked.windows f inF
    omega
  refine List.Pairwise.forall_of_forall_of_flip (fun _ _ _ => rfl) ?_ ?_
  · exact stacked.falling.imp_of_mem fun inE inF below equal => absurd equal (apart _ _ inE inF below)
  · exact stacked.falling.imp_of_mem fun inE inF below equal => absurd equal.symm (apart _ _ inE inF below)

theorem Stacked.sorted {made : List Edit} (stacked : Stacked made) (same : edits.Perm made) : fromEnd edits = made := by
  have falling : made.Pairwise fun e f => decide (f.start ≤ e.start) = true := by
    refine stacked.falling.imp_of_mem fun {e f} _ inF below => decide_eq_true ?_
    have window := stacked.windows f inF
    omega
  have perm : (fromEnd edits).Perm made := (List.mergeSort_perm edits _).trans same
  refine List.Perm.eq_of_pairwise ?_ (fromEndSorted edits) falling perm
  intro e f inE inF before after
  have inMade := perm.subset inE
  exact stacked.unique inMade inF (Nat.le_antisymm (of_decide_eq_true after) (of_decide_eq_true before))

end
end Edit
end ExitSpacing
