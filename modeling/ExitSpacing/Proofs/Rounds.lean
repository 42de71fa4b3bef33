import ExitSpacing.Proofs.Joining

/-! Edits made in two rounds: those of the second stand in the text of the first where
their bytes have moved, and both rounds together are all the edits made at once. -/
namespace ExitSpacing.Edit
open Bytes

def carried (edits : List Edit) (e : Edit) : Edit := ⟨moved edits e.start, moved edits e.stop, e.text⟩

theorem movedLe (edits : List Edit) {a b : Nat} (le : a ≤ b) : moved edits a ≤ moved edits b := by
  induction edits generalizing a b with
  | nil => exact le
  | cons e earlier ih =>
    simp only [moved]
    by_cases afterB : b < e.start
    · rw [if_pos (by omega), if_pos afterB]
      exact ih le
    · by_cases afterA : a < e.start
      · have front := ih (Nat.le_of_lt afterA)
        rw [if_pos afterA, if_neg afterB]
        omega
      · rw [if_neg afterA, if_neg afterB]
        omega

theorem cutMiddle {front middle rest : Bytes} {start stop : Nat} (before : front.length = start)
    (after : start + middle.length = stop) : cut (front ++ middle ++ rest) start stop = middle := by
  rw [cut, List.append_assoc, ← before, List.drop_left, before, show stop - start = middle.length by omega,
    List.take_left]

section
variable {source : Bytes} {made left : List Edit} {e : Edit} {stop : Nat}

theorem joinedChosen (stacked : Stacked made) (bound : stop ≤ source.length) (window : e.start ≤ e.stop)
    (fits : e.stop ≤ stop) (early : ∀ f ∈ made, f.stop ≤ e.start)
    (below : ∀ f ∈ left, f.stop ≤ moved made e.start) (rest : Bytes) :
    joined (joined source (e :: made) stop ++ rest) left (moved (e :: made) stop) =
      joined (joined source made e.start ++ (e.text ++ cut source e.stop stop ++ rest)) left (moved made e.start) ++
        e.text ++ cut source e.stop stop := by
  have long : (joined source made e.start).length = moved made e.start :=
    joinedLength stacked (by omega) early
  have top : moved (e :: made) stop = moved made e.start + (e.text ++ cut source e.stop stop).length := by
    rw [moved, if_neg (by omega), List.length_append, cutLength, Nat.min_eq_left (by omega)]
    omega
  have text : joined source (e :: made) stop ++ rest =
      joined source made e.start ++ (e.text ++ cut source e.stop stop) ++ rest := by
    rw [joined, List.append_assoc (joined source made e.start)]
  rw [top, text, joinedCut below (Nat.le_add_right _ _), cutMiddle long rfl, List.append_assoc, List.append_assoc,
    List.append_assoc]

theorem joinedLeft (stacked : Stacked made) (bound : stop ≤ source.length) (window : e.start ≤ e.stop)
    (fits : e.stop ≤ stop) (early : ∀ f ∈ made, f.stop ≤ e.start) (rest : Bytes) :
    joined (joined source made stop ++ rest) (carried made e :: left) (moved made stop) =
      joined (joined source made e.start ++ (cut source e.start stop ++ rest)) left (moved made e.start) ++
        e.text ++ cut source e.stop stop := by
  have late : ∀ f ∈ made, f.stop ≤ e.stop := fun f mem => Nat.le_trans (early f mem) window
  have long : (joined source made e.stop).length = moved made e.stop := joinedLength stacked (by omega) late
  have top : moved made stop = moved made e.stop + (cut source e.stop stop).length := by
    rw [cutLength, Nat.min_eq_left (by omega)]
    exact movedStep fits (fun f mem => .inl (late f mem)) stacked.windows
  have rear : cut (joined source made stop ++ rest) (moved made e.stop) (moved made stop) = cut source e.stop stop := by
    rw [joinedCut late fits, top, cutMiddle long rfl]
  rw [joined, carried, rear, joinedCut early (Nat.le_trans window fits), List.append_assoc (joined source made e.start)]

end

section
variable {α : Type} {source : Bytes} {f : α → Edit} {p : α → Bool} {gaps : List α}

def madeBy (f : α → Edit) (p : α → Bool) (gaps : List α) : List Edit := (gaps.filter p).map f

def leftBy (f : α → Edit) (p : α → Bool) (gaps : List α) : List Edit :=
  (gaps.filter fun g => !p g).map fun g => carried (madeBy f p gaps) (f g)

theorem madeSublist : (madeBy f p gaps).Sublist (gaps.map f) := List.filter_sublist.map f

theorem Stacked.made (stacked : Stacked (gaps.map f)) : Stacked (madeBy f p gaps) where
  windows := fun e mem => stacked.windows e (madeSublist.subset mem)
  falling := stacked.falling.sublist madeSublist

theorem leftSkips {g : α} {rest : List α} (yes : p g = true) (stacked : Stacked ((g :: rest).map f)) :
    leftBy f p (g :: rest) = leftBy f p rest := by
  rw [leftBy, List.filter_cons_of_neg (by simp [yes]), madeBy, List.filter_cons_of_pos yes, List.map_cons]
  refine List.map_congr_left fun h mem => ?_
  have inside : f h ∈ rest.map f := List.mem_map_of_mem (List.mem_filter.mp mem).1
  have before := (List.pairwise_cons.mp stacked.falling).1 _ inside
  have window := stacked.tail.windows _ inside
  simp only [carried, moved, if_pos before, if_pos (Nat.lt_of_le_of_lt window before)]
  rfl

theorem joinedTwice (stacked : Stacked (gaps.map f)) {stop : Nat} (bound : stop ≤ source.length)
    (within : ∀ e ∈ gaps.map f, e.stop ≤ stop) (rest : Bytes) :
    joined (joined source (madeBy f p gaps) stop ++ rest) (leftBy f p gaps) (moved (madeBy f p gaps) stop) =
      joined source (gaps.map f) stop := by
  -- later gaps come first, so what is behind the first gap's window is done in both rounds
  induction gaps generalizing stop rest with
  | nil =>
    have long : (source.take stop).length = stop := by simp [bound]
    show (source.take stop ++ rest).take stop = source.take stop
    rw [List.take_append_of_le_length (by omega), List.take_take, Nat.min_self]
  | cons g later ih =>
    have fits := within (f g) List.mem_cons_self
    have window := stacked.windows (f g) List.mem_cons_self
    have early : ∀ e ∈ madeBy f p later, e.stop ≤ (f g).start :=
      fun e mem => stacked.below e (madeSublist.subset mem)
    have inner := ih stacked.tail (by omega : (f g).start ≤ source.length) stacked.below
    cases yes : p g with
    | true =>
      have first : madeBy f p (g :: later) = f g :: madeBy f p later := by
        rw [madeBy, List.filter_cons_of_pos yes]; rfl
      have below : ∀ e ∈ leftBy f p later, e.stop ≤ moved (madeBy f p later) (f g).start := by
        intro e mem
        obtain ⟨h, held, rfl⟩ := List.mem_map.mp mem
        exact movedLe _ (stacked.below (f h) (List.mem_map_of_mem (List.mem_filter.mp held).1))
      rw [leftSkips yes stacked, first, joinedChosen stacked.tail.made bound window fits early below, inner]
      rfl
    | false =>
      have first : madeBy f p (g :: later) = madeBy f p later := by
        rw [madeBy, List.filter_cons_of_neg (by simp [yes])]; rfl
      have second : leftBy f p (g :: later) = carried (madeBy f p later) (f g) :: leftBy f p later := by
        rw [leftBy, first, List.filter_cons_of_pos (by simp [yes])]; rfl
      rw [second, first, joinedLeft stacked.tail.made bound window fits early, inner]
      rfl

theorem Stacked.sparedOthers (stacked : Stacked (gaps.map f)) {g : α} (mem : g ∈ gaps) (no : p g = false) :
    Spared (madeBy f p gaps) (f g).start ∧ Spared (madeBy f p gaps) (f g).stop := by
  have falling : gaps.Pairwise fun g h => (f h).stop < (f g).start := List.pairwise_map.mp stacked.falling
  have apart : ∀ ⦃g⦄, g ∈ gaps → ∀ ⦃h⦄, h ∈ gaps → p g ≠ p h →
      (f h).stop < (f g).start ∨ (f g).stop < (f h).start := by
    refine List.Pairwise.forall_of_forall_of_flip (fun g _ differ => absurd rfl differ) ?_ ?_
    · exact falling.imp fun below _ => .inl below
    · exact falling.imp fun below _ => .inr below
  have each : ∀ e ∈ madeBy f p gaps, e.stop < (f g).start ∨ (f g).stop < e.start := by
    intro e made
    obtain ⟨h, held, rfl⟩ := List.mem_map.mp made
    obtain ⟨inside, yes⟩ := List.mem_filter.mp held
    exact apart mem inside (by simp [no, yes])
  have window := stacked.windows (f g) (List.mem_map_of_mem mem)
  refine ⟨fun e held => ?_, fun e held => ?_⟩
  · rcases each e held with before | after
    · exact .inr (Nat.le_of_lt before)
    · exact .inl (by omega)
  · rcases each e held with before | after
    · exact .inr (by omega)
    · exact .inl after

theorem Stacked.others (stacked : Stacked (gaps.map f)) : Stacked (leftBy f p gaps) where
  windows := by
    intro e mem
    obtain ⟨g, held, rfl⟩ := List.mem_map.mp mem
    exact movedLe _ (stacked.windows (f g) (List.mem_map_of_mem (List.mem_filter.mp held).1))
  falling := by
    refine List.pairwise_map.mpr ?_
    have falling : gaps.Pairwise fun g h => (f h).stop < (f g).start := List.pairwise_map.mp stacked.falling
    refine (falling.sublist List.filter_sublist).imp_of_mem ?_
    intro g h inG inH below
    obtain ⟨insideG, noG⟩ := List.mem_filter.mp inG
    obtain ⟨insideH, noH⟩ := List.mem_filter.mp inH
    have sparedG := (stacked.sparedOthers insideG (by simpa using noG)).1
    have sparedH := (stacked.sparedOthers insideH (by simpa using noH)).2
    exact movedMono stacked.made sparedH sparedG below

end
end ExitSpacing.Edit
