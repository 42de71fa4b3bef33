import ExitSpacing.Proofs.Growing
import Mathlib.Algebra.BigOperators.Group.List.Defs
import Mathlib.Algebra.Group.Action.Defs
import Mathlib.Algebra.Group.Nat.Defs
import Mathlib.Logic.Function.Iterate

/-! An edit that is made several times, with one window: after the first time the window lies over the
edit's own text, and what the window was wider than that text is taken from what stands behind it. -/
namespace ExitSpacing
open Bytes

namespace Bytes

def isProgram (b : UInt8) : Bool := !isSeparator b && b != lineFeed && b != carriageReturn

def program (s : Bytes) : Bytes := s.filter isProgram

theorem programAppend (s t : Bytes) : program (s ++ t) = program s ++ program t := List.filter_append ..

theorem noProgram {p : UInt8 → Bool} {s : Bytes} (all : s.all p = true) (none : ∀ b, p b = true → isProgram b = false) :
    program s = [] :=
  List.filter_eq_nil_iff.mpr fun b mem => by simp [none b (List.all_eq_true.mp all b mem)]

theorem solidProgram {b : UInt8} (solid : isBlank b = false) (other : b ≠ semicolon) : isProgram b = true := by
  have outside : ∀ c, isBlank c = true → b ≠ c := by
    rintro c blank rfl
    rw [solid] at blank
    cases blank
  have space := outside Bytes.space (by decide)
  have tab := outside Bytes.tab (by decide)
  have feed := outside lineFeed (by decide)
  have carriage := outside carriageReturn (by decide)
  simp [isProgram, isSeparator, isIndent, space, tab, feed, carriage, other]

end Bytes

namespace Edit

def Roomy (e : Edit) : Prop := e.stop - e.start ≤ e.text.length
instance (e : Edit) : Decidable e.Roomy := Nat.decLe ..

/-- What stands behind the edit's text when it is made on its own text once more. -/
def lapse (e : Edit) (behind : Bytes) : Bytes := (e.text ++ behind).drop (e.stop - e.start)

/-- What a roomy edit adds whenever it is made once more. -/
def again (e : Edit) : Bytes := e.text.drop (e.stop - e.start)

def repeated (e : Edit) (more : Nat) : Edit := { e with text := e.text ++ (List.replicate more e.again).flatten }

def spread (edits : List (Edit × Nat)) : List Edit := edits.flatMap fun x => List.replicate (x.2 + 1) x.1

section
variable {source front behind : Bytes} {e : Edit}

theorem applyAgain (starts : front.length = e.start) (window : e.start ≤ e.stop) :
    apply (front ++ (e.text ++ behind)) e = front ++ (e.text ++ e.lapse behind) := by
  have stop : e.stop = front.length + (e.stop - e.start) := by omega
  rw [apply, lapse, List.take_left' starts]
  conv_lhs => rw [stop, List.drop_length_add_append]
  rw [List.append_assoc]

theorem applyMore (starts : front.length = e.start) (window : e.start ≤ e.stop) (more : Nat) :
    (List.replicate more e).foldl apply (front ++ (e.text ++ behind)) = front ++ (e.text ++ e.lapse^[more] behind) := by
  induction more generalizing behind with
  | zero => rfl
  | succ more ih => rw [List.replicate_succ, List.foldl_cons, applyAgain starts window, ih, Function.iterate_succ_apply]

theorem lapseRoomy (roomy : e.Roomy) (behind : Bytes) : e.lapse behind = e.again ++ behind :=
  List.drop_append_of_le_length roomy

theorem lapsesRoomy (roomy : e.Roomy) (more : Nat) (behind : Bytes) :
    e.lapse^[more] behind = (List.replicate more e.again).flatten ++ behind := by
  induction more with
  | zero => rfl
  | succ more ih =>
    rw [Function.iterate_succ_apply', ih, lapseRoomy roomy, List.replicate_succ, List.flatten_cons, List.append_assoc]

theorem applySpread {stop : Nat} (bound : stop ≤ source.length) (fits : e.stop ≤ stop) (window : e.start ≤ e.stop)
    (more : Nat) (rest : Bytes) :
    (List.replicate (more + 1) e).foldl apply (source.take stop ++ rest) =
      source.take e.start ++ (e.text ++ e.lapse^[more] (cut source e.stop stop ++ rest)) := by
  have starts : (source.take e.start).length = e.start := List.length_take_of_le (by omega)
  rw [List.replicate_succ, List.foldl_cons, applyTake bound fits window, List.append_assoc e.text,
    applyMore starts window]

theorem applyRoomy {stop : Nat} (bound : stop ≤ source.length) (fits : e.stop ≤ stop) (window : e.start ≤ e.stop)
    {more : Nat} (roomy : 0 < more → e.Roomy) (rest : Bytes) :
    (List.replicate (more + 1) e).foldl apply (source.take stop ++ rest) =
      apply (source.take stop ++ rest) (e.repeated more) := by
  have once := applyTake (e := e.repeated more) bound fits window rest
  rw [applySpread bound fits window, once]
  cases more with
  | zero => simp [repeated]
  | succ more =>
    rw [lapsesRoomy (roomy (Nat.succ_pos more))]
    simp only [repeated, List.append_assoc]

end

section
variable {source : Bytes} {edits : List (Edit × Nat)}

theorem repeatedStacked (stacked : Stacked (edits.map Prod.fst)) :
    Stacked (edits.map fun x => x.1.repeated x.2) where
  windows := fun e mem => by
    obtain ⟨x, inside, rfl⟩ := List.mem_map.mp mem
    exact stacked.windows x.1 (List.mem_map_of_mem inside)
  falling := List.pairwise_map.mpr (List.pairwise_map.mp stacked.falling)

theorem spreadMem {e : Edit} (mem : e ∈ spread edits) : e ∈ edits.map Prod.fst := by
  obtain ⟨x, inside, held⟩ := List.mem_flatMap.mp mem
  exact List.eq_of_mem_replicate held ▸ List.mem_map_of_mem inside

theorem spreadSorted (stacked : Stacked (edits.map Prod.fst)) {all : List Edit} (same : all.Perm (spread edits)) :
    fromEnd all = spread edits := by
  have falling : (spread edits).Pairwise fun e f => decide (f.start ≤ e.start) = true := by
    rw [spread, List.pairwise_flatMap]
    refine ⟨fun x _ => List.pairwise_replicate.mpr (.inr (decide_eq_true (Nat.le_refl _))), ?_⟩
    refine (List.pairwise_map.mp stacked.falling).imp_of_mem fun {x y} _ inY below e isX f isY => ?_
    obtain rfl := List.eq_of_mem_replicate isX
    obtain rfl := List.eq_of_mem_replicate isY
    have window := stacked.windows _ (List.mem_map_of_mem inY)
    exact decide_eq_true (by omega)
  have perm : (fromEnd all).Perm (spread edits) := (List.mergeSort_perm all _).trans same
  -- Both lists fall, and edits that start at one place are the same.
  refine List.Perm.eq_of_pairwise (fun e f inE inF before after => ?_) (fromEndSorted all) falling perm
  exact stacked.unique (spreadMem (perm.subset inE)) (spreadMem inF)
    (Nat.le_antisymm (of_decide_eq_true after) (of_decide_eq_true before))

theorem foldSpread (stacked : Stacked (edits.map Prod.fst)) (roomy : ∀ x ∈ edits, 0 < x.2 → x.1.Roomy) {stop : Nat}
    (bound : stop ≤ source.length) (within : ∀ x ∈ edits, x.1.stop ≤ stop) (rest : Bytes) :
    (spread edits).foldl apply (source.take stop ++ rest) =
      (edits.map fun x => x.1.repeated x.2).foldl apply (source.take stop ++ rest) := by
  induction edits generalizing stop rest with
  | nil => rfl
  | cons x earlier ih =>
    have fits := within x List.mem_cons_self
    have window := stacked.windows x.1 List.mem_cons_self
    have below : ∀ y ∈ earlier, y.1.stop ≤ x.1.start := fun y mem => stacked.below y.1 (List.mem_map_of_mem mem)
    have lower : x.1.start ≤ source.length := by omega
    rw [List.map_cons, List.foldl_cons, spread, List.flatMap_cons, List.foldl_append,
      applyRoomy bound fits window (roomy x List.mem_cons_self), applyTake (e := x.1.repeated x.2) bound fits window]
    exact ih stacked.tail (fun y mem => roomy y (List.mem_cons_of_mem _ mem)) lower below _

end

structure Parts (source : Bytes) (e : Edit) (kept dropped added : Bytes) : Prop where
  window : cut source e.start e.stop = kept ++ dropped
  text : e.text = kept ++ added
  drops : program dropped = []
  adds : program added = []

section
variable {source kept dropped added : Bytes} {e : Edit}

theorem Respaces.parts (respaces : Respaces source e) : ∃ kept dropped added, Parts source e kept dropped added := by
  obtain ⟨kept, dropped, ending, indent, window, separators, ends, blanks, text⟩ := respaces
  have drops : program dropped = [] := noProgram separators fun b yes => by simp [isProgram, yes]
  have endings : program ending = [] := by obtain rfl | rfl := ends <;> decide
  have indents : program indent = [] := noProgram blanks fun b yes => by simp [isProgram, isSeparator, yes]
  obtain text | text := text
  · exact ⟨kept, dropped, ending, window, text, drops, endings⟩
  · refine ⟨kept, dropped, ending ++ ending ++ indent, window, by simp only [text, List.append_assoc], drops, ?_⟩
    rw [programAppend, programAppend, endings, indents]
    rfl

section
variable (parts : Parts source e kept dropped added)
include parts

theorem Parts.program : program e.text = program (cut source e.start e.stop) := by
  rw [parts.text, parts.window, programAppend, programAppend, parts.drops, parts.adds]

theorem Parts.width (bound : e.stop ≤ source.length) : e.stop - e.start = kept.length + dropped.length := by
  have long := congrArg List.length parts.window
  rw [cutLength, List.length_append] at long
  omega

theorem Parts.lapse (bound : e.stop ≤ source.length) (behind : Bytes) :
    e.lapse behind = (added ++ behind).drop dropped.length := by
  rw [Edit.lapse, parts.text, parts.width bound, List.append_assoc, List.drop_length_add_append]

theorem Parts.again (bound : e.stop ≤ source.length) : e.again = added.drop dropped.length := by
  rw [Edit.again, parts.text, parts.width bound, List.drop_length_add_append]

theorem Parts.roomy (bound : e.stop ≤ source.length) : e.Roomy ↔ dropped.length ≤ added.length := by
  rw [Roomy, parts.text, parts.width bound, List.length_append]
  omega

theorem Parts.againProgram (bound : e.stop ≤ source.length) : Bytes.program e.again = [] := by
  have fewer : (Bytes.program e.again).Sublist (Bytes.program added) := by
    rw [parts.again bound]
    exact (List.drop_sublist ..).filter _
  exact List.sublist_nil.mp (parts.adds ▸ fewer)

theorem Parts.repeatedProgram (bound : e.stop ≤ source.length) (more : Nat) :
    Bytes.program (e.repeated more).text = Bytes.program (cut source e.start e.stop) := by
  have none : Bytes.program (List.replicate more e.again).flatten = [] := by
    refine List.filter_eq_nil_iff.mpr fun b mem => ?_
    obtain ⟨t, inside, held⟩ := List.mem_flatten.mp mem
    rw [List.eq_of_mem_replicate inside] at held
    exact List.filter_eq_nil_iff.mp (parts.againProgram bound) b held
  rw [repeated, programAppend, none, List.append_nil, parts.program]

theorem Parts.lapseFewer (bound : e.stop ≤ source.length) (behind : Bytes) :
    (Bytes.program (e.lapse behind)).length ≤ (Bytes.program behind).length := by
  have fewer : (Bytes.program (e.lapse behind)).Sublist (Bytes.program (added ++ behind)) := by
    rw [parts.lapse bound]
    exact (List.drop_sublist ..).filter _
  rw [programAppend, parts.adds, List.nil_append] at fewer
  exact fewer.length_le

theorem Parts.lapsesFewer (bound : e.stop ≤ source.length) (more : Nat) (behind : Bytes) :
    (Bytes.program (e.lapse^[more] behind)).length ≤ (Bytes.program behind).length := by
  induction more with
  | zero => exact Nat.le_refl _
  | succ more ih =>
    rw [Function.iterate_succ_apply']
    exact Nat.le_trans (parts.lapseFewer bound _) ih

theorem Parts.lapseLoses (bound : e.stop ≤ source.length) (narrow : ¬ e.Roomy) {b : UInt8} {rest : Bytes}
    (first : isProgram b = true) :
    (Bytes.program (e.lapse (b :: rest))).length < (Bytes.program (b :: rest)).length := by
  rw [parts.roomy bound] at narrow
  obtain ⟨past, long⟩ : ∃ past, dropped.length = added.length + (past + 1) := ⟨dropped.length - added.length - 1, by omega⟩
  have fewer : (Bytes.program (rest.drop past)).Sublist (Bytes.program rest) := (List.drop_sublist ..).filter _
  -- More is dropped than the edit added: the rest of it is taken from what stands behind.
  rw [parts.lapse bound, long, List.drop_length_add_append, List.drop_succ_cons, Bytes.program, Bytes.program,
    List.filter_cons_of_pos first, List.length_cons]
  exact Nat.lt_succ_of_le fewer.length_le

theorem Parts.lapsesLoses (bound : e.stop ≤ source.length) (narrow : ¬ e.Roomy) {b : UInt8} {rest : Bytes}
    (first : isProgram b = true) {more : Nat} (several : 0 < more) :
    (Bytes.program (e.lapse^[more] (b :: rest))).length < (Bytes.program (b :: rest)).length := by
  obtain ⟨past, rfl⟩ := Nat.exists_eq_add_one_of_ne_zero (Nat.ne_of_gt several)
  rw [Function.iterate_succ_apply]
  exact Nat.lt_of_le_of_lt (parts.lapsesFewer bound past _) (parts.lapseLoses bound narrow first)

end
end

section
variable {source : Bytes}

theorem windowProgram {e : Edit} {stop : Nat} (window : e.start ≤ e.stop) (fits : e.stop ≤ stop) :
    program (source.take stop) =
      program (source.take e.start) ++ (program (cut source e.start e.stop) ++ program (cut source e.stop stop)) := by
  rw [← programAppend, ← programAppend, cutAppend source window fits, takeCut source (Nat.le_trans window fits)]

theorem joinedProgram {edits : List Edit} (stacked : Stacked edits)
    (each : ∀ e ∈ edits, program e.text = program (cut source e.start e.stop)) {stop : Nat}
    (within : ∀ e ∈ edits, e.stop ≤ stop) : program (joined source edits stop) = program (source.take stop) := by
  induction edits generalizing stop with
  | nil => rfl
  | cons e earlier ih =>
    have front := ih stacked.tail (fun f mem => each f (List.mem_cons_of_mem _ mem)) stacked.below
    rw [joined, programAppend, programAppend, front, each e List.mem_cons_self,
      windowProgram (stacked.windows e List.mem_cons_self) (within e List.mem_cons_self), List.append_assoc]

theorem spreadFewer {edits : List (Edit × Nat)} (stacked : Stacked (edits.map Prod.fst))
    (respaces : ∀ x ∈ edits, Respaces source x.1) {stop : Nat} (bound : stop ≤ source.length)
    (within : ∀ x ∈ edits, x.1.stop < stop) (rest : Bytes) :
    (program ((spread edits).foldl apply (source.take stop ++ rest))).length ≤
        (program (source.take stop ++ rest)).length ∧
      ((∃ x ∈ edits, 0 < x.2 ∧ ¬ x.1.Roomy ∧ ∃ b, source[x.1.stop]? = some b ∧ isProgram b = true) →
        (program ((spread edits).foldl apply (source.take stop ++ rest))).length <
          (program (source.take stop ++ rest)).length) := by
  induction edits generalizing stop rest with
  | nil => exact ⟨Nat.le_refl _, fun ⟨_, mem, _⟩ => absurd mem List.not_mem_nil⟩
  | cons x earlier ih =>
    obtain ⟨e, more⟩ := x
    have fits : e.stop < stop := within _ List.mem_cons_self
    have window : e.start ≤ e.stop := stacked.windows e List.mem_cons_self
    have below : ∀ y ∈ earlier, y.1.stop < e.start := fun y mem =>
      (List.pairwise_cons.mp stacked.falling).1 y.1 (List.mem_map_of_mem mem)
    obtain ⟨kept, dropped, added, parts⟩ := (show Respaces source e from respaces _ List.mem_cons_self).parts
    have inside : e.stop ≤ source.length := by omega
    let behind := cut source e.stop stop ++ rest
    have lower : e.start ≤ source.length := by omega
    obtain ⟨no, less⟩ := ih stacked.tail (fun y mem => respaces y (List.mem_cons_of_mem _ mem)) lower below
      (e.text ++ e.lapse^[more] behind)
    have whole : (program (source.take stop)).length = _ :=
      congrArg List.length (windowProgram window (Nat.le_of_lt fits))
    have text := congrArg List.length parts.program
    have fewer := parts.lapsesFewer inside more behind
    rw [spread, List.flatMap_cons, List.foldl_append, applySpread bound (Nat.le_of_lt fits) window]
    simp only [programAppend, List.length_append, behind] at no less whole text fewer ⊢
    refine ⟨Nat.le_trans no (by omega), ?_⟩
    rintro ⟨y, mem, several, narrow, b, there, first⟩
    -- the edit without room is this one, or one made later, further to the front
    obtain rfl | later := List.mem_cons.mp mem
    · have opens : cut source e.stop stop ++ rest = b :: (cut source (e.stop + 1) stop ++ rest) := by
        rw [cutCons there fits, List.cons_append]
      have loses : (program (e.lapse^[more] (cut source e.stop stop ++ rest))).length < _ :=
        opens ▸ parts.lapsesLoses inside narrow first several
      simp only [programAppend, List.length_append] at loses
      exact Nat.lt_of_le_of_lt no (by omega)
    · exact Nat.lt_of_lt_of_le (less ⟨y, later, several, narrow, b, there, first⟩) (by omega)

end

section
variable {source : Bytes} {m : Marker}

theorem againOpens (opens : m.target.opensLine source = true) :
    (ofMarker source m).again = lineEnding source (lineStart source m.target.startByte) := by
  rw [again, ofMarkerOpens opens, Nat.sub_self, List.drop_zero]

theorem roomyOpens (opens : m.target.opensLine source = true) : (ofMarker source m).Roomy := by
  rw [Roomy, ofMarkerOpens opens, Nat.sub_self]
  exact Nat.zero_le _

theorem repeatedFeeds (source : Bytes) (m : Marker) (more : Nat) :
    lineFeeds ((ofMarker source m).repeated more).text =
      lineFeeds (cut source (ofMarker source m).start (ofMarker source m).stop) +
        (m.target.addedFeeds source + more * lineFeeds (ofMarker source m).again) := by
  have once := ofMarkerFeeds source m
  have times : lineFeeds (List.replicate more (ofMarker source m).again).flatten =
      more * lineFeeds (ofMarker source m).again := by
    rw [lineFeeds, List.count_flatten, List.map_replicate, List.sum_replicate, smul_eq_mul]
    rfl
  simp only [repeated, lineFeeds, List.count_append] at once times ⊢
  omega

theorem repeatedEnough {count : Nat} (positive : 0 < count) (more : 3 ≤ count → lineFeed ∈ (ofMarker source m).again) :
    count ≤ m.target.addedFeeds source + (count - 1) * lineFeeds (ofMarker source m).again := by
  cases opens : m.target.opensLine source with
  | true =>
    have one := endingFeed source (lineStart source m.target.startByte)
    rw [againOpens opens, one, Statement.addedFeeds, opens, if_pos rfl]
    omega
  | false =>
    rw [Statement.addedFeeds, opens, if_neg Bool.false_ne_true]
    by_cases few : count ≤ 2
    · omega
    · have some : 0 < lineFeeds (ofMarker source m).again := List.count_pos_iff.mpr (more (by omega))
      have enough := Nat.mul_le_mul_left (count - 1) some
      omega

end
end Edit

end ExitSpacing
