import ExitSpacing.Proofs.Joining
import ExitSpacing.Proofs.Layout
import Mathlib.Data.List.Induction
import Mathlib.Data.List.TakeWhile

/-! What rendering reads of the bytes before a target, as a state that is carried from
byte to byte: a text with edits made leaves the state that the source leaves. -/
namespace ExitSpacing
open Bytes

/-- How the line before ended, the blanks this line begins with, cut down to its
indentation once more than blanks stand on it, and whether the last byte was a
carriage return. -/
structure LineHead where
  crlf : Bool
  lead : Bytes
  blank : Bool
  turned : Bool
  deriving DecidableEq, Repr

namespace LineHead

def fresh (crlf : Bool) : LineHead := ⟨crlf, [], true, false⟩

def after (h : LineHead) (b : UInt8) : LineHead :=
  if b == lineFeed then fresh h.turned
  else if !h.blank then { h with turned := b == carriageReturn }
  else if isBlank b then { h with lead := h.lead ++ [b], turned := b == carriageReturn }
  else ⟨h.crlf, h.lead.takeWhile isIndent, false, false⟩

def along (h : LineHead) (s : Bytes) : LineHead := s.foldl after h

def of (s : Bytes) : LineHead := (fresh false).along s

def ending (h : LineHead) : Bytes := if h.crlf then [carriageReturn, lineFeed] else [lineFeed]

def edit (h : LineHead) (start stop : Nat) (gap : Bytes) : Edit :=
  if h.blank then ⟨stop - h.lead.length, stop - h.lead.length, h.ending⟩
  else ⟨start, stop, trimEnd isSeparator gap ++ h.ending ++ h.ending ++ h.lead⟩

theorem alongAppend (h : LineHead) (a b : Bytes) : h.along (a ++ b) = (h.along a).along b := List.foldl_append

theorem ofAppend (a b : Bytes) : of (a ++ b) = (of a).along b := alongAppend _ a b

theorem ofTakeSucc {s : Bytes} {offset : Nat} {b : UInt8} (there : s[offset]? = some b) :
    of (s.take (offset + 1)) = (of (s.take offset)).after b := by
  rw [List.take_add_one, there, ofAppend]; rfl

theorem indentBlank {b : UInt8} (indent : isIndent b = true) : isBlank b = true := by
  simp only [isIndent, Bool.or_eq_true, beq_iff_eq] at indent
  rcases indent with rfl | rfl <;> decide

theorem afterTurned (h : LineHead) (b : UInt8) : (h.after b).turned = (b == carriageReturn) := by
  simp only [after]
  split
  · rename_i feed
    rw [eq_of_beq feed]; rfl
  · split
    · rfl
    · split
      · rfl
      · rename_i solid
        symm
        rw [beq_eq_false_iff_ne]
        rintro rfl
        exact solid (by decide)

theorem afterSolid (h : LineHead) {b : UInt8} (solid : isBlank b = false) :
    h.after b = ⟨h.crlf, if h.blank then h.lead.takeWhile isIndent else h.lead, false, false⟩ := by
  have feed : (b == lineFeed) = false := by
    rw [beq_eq_false_iff_ne]; rintro rfl; exact absurd solid (by decide)
  have turned : (b == carriageReturn) = false := by
    rw [beq_eq_false_iff_ne]; rintro rfl; exact absurd solid (by decide)
  obtain ⟨crlf, lead, blank, last⟩ := h
  simp only [after, feed, solid, turned]
  cases blank <;> rfl

theorem feedFresh (h : LineHead) (s : Bytes) : h.along (s ++ [lineFeed]) = fresh (h.along s).turned := by
  rw [alongAppend]; rfl

theorem freshEnding (crlf : Bool) : (fresh crlf).along (fresh crlf).ending = fresh crlf := by
  cases crlf <;> rfl

theorem endingTwice (h : LineHead) (crlf : Bool) :
    (h.along (fresh crlf).ending).along (fresh crlf).ending = fresh crlf := by
  have first : ∃ turned, h.along (fresh crlf).ending = fresh turned := by
    cases crlf
    · exact ⟨h.turned, rfl⟩
    · exact ⟨(h.after carriageReturn).turned, rfl⟩
  obtain ⟨turned, same⟩ := first
  rw [same]
  cases crlf <;> rfl

theorem indentStops (a : Bytes) {b : UInt8} (other : isIndent b = false) (c : Bytes) :
    (a ++ b :: c).takeWhile isIndent = a.takeWhile isIndent := by
  induction a with
  | nil => simp [other]
  | cons x rest ih => rw [List.cons_append, List.takeWhile_cons, List.takeWhile_cons, ih]

theorem indentClosed {line : Bytes} (solid : allBlank line = false) (more : Bytes) :
    (line ++ more).takeWhile isIndent = line.takeWhile isIndent := by
  obtain ⟨b, mem, other⟩ := List.all_eq_false.mp solid
  obtain ⟨a, c, rfl⟩ := List.append_of_mem mem
  have stops : isIndent b = false := by
    cases indent : isIndent b with
    | false => rfl
    | true => exact absurd (indentBlank indent) other
  rw [List.append_assoc, List.cons_append, indentStops a stops, indentStops a stops]

theorem freshTail (crlf : Bool) (tail : Bytes) (line : ∀ b ∈ tail, b ≠ lineFeed) :
    ((fresh crlf).along tail).crlf = crlf ∧ ((fresh crlf).along tail).blank = allBlank tail ∧
      ((fresh crlf).along tail).lead = if allBlank tail then tail else tail.takeWhile isIndent := by
  induction tail using List.reverseRecOn with
  | nil => exact ⟨rfl, rfl, rfl⟩
  | append_singleton tail b ih =>
    obtain ⟨style, blank, lead⟩ := ih fun c mem => line c (List.mem_append_left _ mem)
    have feed : (b == lineFeed) = false := by simpa using line b (by simp)
    have all : allBlank (tail ++ [b]) = (allBlank tail && isBlank b) := by simp [allBlank]
    rw [alongAppend, show ((fresh crlf).along tail).along [b] = ((fresh crlf).along tail).after b from rfl, after, feed, all]
    cases blanks : allBlank tail with
    | false =>
      rw [blanks] at blank lead
      rw [blank]
      exact ⟨style, rfl, lead.trans (indentClosed blanks [b]).symm⟩
    | true =>
      rw [blanks] at blank lead
      rw [blank, lead]
      cases isBlankB : isBlank b with
      | true => exact ⟨style, rfl, rfl⟩
      | false =>
        have other : isIndent b = false := by
          cases indent : isIndent b with
          | false => rfl
          | true => exact absurd (indentBlank indent) (by simp [isBlankB])
        exact ⟨style, rfl, (indentStops tail other []).symm⟩

end LineHead

theorem lineParts (source : Bytes) (offset : Nat) :
    (source.take (lineStart source offset) = [] ∨ ∃ v, source.take (lineStart source offset) = v ++ [lineFeed]) ∧
      ∀ b ∈ cut source (lineStart source offset) offset, b ≠ lineFeed := by
  let before := source.take offset
  let tail := (before.reverse.takeWhile (· != lineFeed)).reverse
  have parts : trimEnd (· != lineFeed) before ++ tail = before := trimEndAppend _ before
  have start : lineStart source offset = (trimEnd (· != lineFeed) before).length := by
    have long := congrArg List.length parts
    rw [List.length_append, List.length_reverse] at long
    show before.length - (before.reverse.takeWhile (· != lineFeed)).length = _
    omega
  have whole : source = trimEnd (· != lineFeed) before ++ (tail ++ source.drop offset) := by
    rw [← List.append_assoc, parts, List.take_append_drop]
  have front : source.take (lineStart source offset) = trimEnd (· != lineFeed) before := by
    rw [start]
    conv_lhs => rw [whole]
    exact List.take_left
  have rear : cut source (lineStart source offset) offset = tail := by
    rw [cut, ← List.drop_take, start]
    have back := congrArg (List.drop (trimEnd (· != lineFeed) before).length) parts
    rw [List.drop_left] at back
    exact back.symm
  rw [front, rear]
  refine ⟨?_, fun b mem => ?_⟩
  · rw [trimEnd]
    cases found : before.reverse.dropWhile (· != lineFeed) with
    | nil => exact .inl rfl
    | cons b rest =>
      have stopped := List.head?_dropWhile_not (· != lineFeed) before.reverse
      rw [found] at stopped
      have feed : b = lineFeed := by simpa using stopped
      exact .inr ⟨rest.reverse, by rw [List.reverse_cons, feed]⟩
  · have kept := List.mem_takeWhile_imp (List.mem_reverse.mp mem)
    simpa using kept

theorem lineStartInside (source : Bytes) (offset : Nat) : lineStart source offset ≤ source.length := by
  simp only [lineStart, List.length_take]; omega

theorem lineOpens (source : Bytes) (offset : Nat) : lineStart source offset = 0 ∨
    ∃ v, source.take (lineStart source offset) = v ++ [lineFeed] ∧ lineStart source offset = v.length + 1 := by
  have inside := lineStartInside source offset
  rcases (lineParts source offset).1 with none | ⟨v, front⟩
  · have long := congrArg List.length none
    rw [List.length_take, List.length_nil] at long
    exact .inl (by omega)
  · have long := congrArg List.length front
    rw [List.length_take, List.length_append, List.length_singleton] at long
    exact .inr ⟨v, front, by omega⟩

theorem turnedLast (v : Bytes) : (LineHead.of v).turned = (v.getLast? == some carriageReturn) := by
  rcases List.eq_nil_or_concat v with rfl | ⟨w, b, rfl⟩
  · rfl
  · rw [List.concat_eq_append, LineHead.ofAppend, List.getLast?_concat]
    exact (LineHead.afterTurned _ b).trans rfl

theorem headStart (source : Bytes) (offset : Nat) :
    ∃ crlf, LineHead.of (source.take (lineStart source offset)) = .fresh crlf ∧
      (LineHead.fresh crlf).ending = Edit.lineEnding source (lineStart source offset) := by
  let first := lineStart source offset
  have back : cut source (first - 2) first = (source.take first).drop (first - 2) := by rw [cut, List.drop_take]
  rcases lineOpens source offset with zero | ⟨v, front, behind⟩
  · refine ⟨false, by rw [zero]; rfl, ?_⟩
    rw [zero, Edit.lineEnding]
    rfl
  · have long : first = v.length + 1 := behind
    refine ⟨(LineHead.of v).turned, by rw [front]; exact LineHead.feedFresh _ v, ?_⟩
    show _ = Edit.lineEnding source first
    rcases List.eq_nil_or_concat v with rfl | ⟨w, b, rfl⟩
    · rw [Edit.lineEnding, back, show source.take first = [] ++ [lineFeed] from front, long]
      rfl
    · have two : (w ++ [b] ++ [lineFeed]).drop (first - 2) = [b, lineFeed] := by
        rw [long, List.concat_eq_append, List.length_append, List.append_assoc]
        exact List.drop_left
      rw [turnedLast, Edit.lineEnding, back, show source.take first = _ from front, List.concat_eq_append, two,
        List.getLast?_concat]
      by_cases turned : b = carriageReturn
      · rw [turned]; rfl
      · have differs : ([b, lineFeed] == [carriageReturn, lineFeed]) = false := by simpa using turned
        rw [differs, show (some b == some carriageReturn) = false by simpa using turned]
        rfl

theorem cutCons {s : Bytes} {start stop : Nat} {b : UInt8} (there : s[start]? = some b) (less : start < stop) :
    cut s start stop = b :: cut s (start + 1) stop := by
  obtain ⟨inside, rfl⟩ := List.getElem?_eq_some_iff.mp there
  rw [cut, List.drop_eq_getElem_cons inside, show stop - start = stop - (start + 1) + 1 by omega, List.take_succ_cons]
  rfl

theorem headWithin (source : Bytes) (offset : Nat) :
    ∃ crlf, LineHead.of (source.take (lineStart source offset)) = .fresh crlf ∧
      (LineHead.fresh crlf).ending = Edit.lineEnding source (lineStart source offset) ∧
      (LineHead.of (source.take offset)).crlf = crlf ∧
      (LineHead.of (source.take offset)).blank = allBlank (cut source (lineStart source offset) offset) ∧
      (LineHead.of (source.take offset)).lead =
        if allBlank (cut source (lineStart source offset) offset) then cut source (lineStart source offset) offset
        else (cut source (lineStart source offset) offset).takeWhile isIndent := by
  obtain ⟨crlf, start, ending⟩ := headStart source offset
  have tail := LineHead.freshTail crlf _ (lineParts source offset).2
  refine ⟨crlf, start, ending, ?_⟩
  rw [← takeCut source (lineStartLe source offset), LineHead.ofAppend, start]
  exact tail

section
variable {source : Bytes} {m : Marker}

theorem ofMarkerHead (inside : m.target.startByte ≤ source.length) : Edit.ofMarker source m =
    (LineHead.of (source.take m.target.startByte)).edit m.predecessor.endByte m.target.startByte
      (cut source m.predecessor.endByte m.target.startByte) := by
  obtain ⟨crlf, -, ending, style, blank, lead⟩ := headWithin source m.target.startByte
  have same : (LineHead.of (source.take m.target.startByte)).ending =
      Edit.lineEnding source (lineStart source m.target.startByte) := by
    rw [← ending, LineHead.ending, style]; rfl
  simp only [Edit.ofMarker, LineHead.edit, blank, lead, same]
  split
  · have line := lineStartLe source m.target.startByte
    have long : m.target.startByte - (cut source (lineStart source m.target.startByte) m.target.startByte).length =
        lineStart source m.target.startByte := by
      rw [cutLength, Nat.min_eq_left (by omega)]
      omega
    rw [long]
  · rename_i solid
    have parts : source.drop (lineStart source m.target.startByte) =
        cut source (lineStart source m.target.startByte) m.target.startByte ++ source.drop m.target.startByte :=
      (cutDrop source (lineStartLe source m.target.startByte)).symm
    rw [parts, LineHead.indentClosed (by simpa using solid)]

theorem editHead (gap : m.Gap source) {b : UInt8} (next : source[(Edit.ofMarker source m).stop]? = some b) :
    ((LineHead.of (source.take (Edit.ofMarker source m).start)).along (Edit.ofMarker source m).text).after b =
      LineHead.of (source.take ((Edit.ofMarker source m).stop + 1)) := by
  obtain ⟨crlf, start, ending, style, blank, lead⟩ := headWithin source m.target.startByte
  cases blanks : allBlank (cut source (lineStart source m.target.startByte) m.target.startByte) with
  | true =>
    have made : Edit.ofMarker source m = ⟨lineStart source m.target.startByte, lineStart source m.target.startByte,
        Edit.lineEnding source (lineStart source m.target.startByte)⟩ := by
      simp only [Edit.ofMarker, blanks, if_true]
    rw [made] at next ⊢
    rw [LineHead.ofTakeSucc next, start, ← ending, LineHead.freshEnding]
  | false =>
    let h := LineHead.of (source.take m.target.startByte)
    have same : h.ending = (LineHead.fresh crlf).ending := by rw [LineHead.ending, style]; rfl
    have indent : ∀ c ∈ h.lead, isIndent c = true := by
      rw [lead, blanks]
      exact List.all_eq_true.mp List.all_takeWhile
    have made := ofMarkerHead (Nat.le_of_lt (solidInside gap.target.first))
    rw [LineHead.edit, blank, blanks, if_neg Bool.false_ne_true] at made
    rw [made] at next ⊢
    obtain ⟨c, there, solid⟩ := gap.target.first
    obtain rfl : c = b := Option.some.inj (there.symm.trans next)
    have line : ∀ c ∈ h.lead, c ≠ lineFeed := by
      rintro c mem rfl
      exact absurd (indent _ mem) (by decide)
    -- behind two line ends the state is that of a fresh line that has read the indentation
    obtain ⟨styleL, blankL, leadL⟩ := LineHead.freshTail crlf h.lead line
    have allBlankL : allBlank h.lead = true := List.all_eq_true.mpr fun c mem => LineHead.indentBlank (indent c mem)
    rw [allBlankL] at blankL leadL
    rw [LineHead.ofTakeSucc next, LineHead.alongAppend, LineHead.alongAppend, LineHead.alongAppend, same,
      LineHead.endingTwice, LineHead.afterSolid _ solid, LineHead.afterSolid _ solid, styleL, blankL, leadL, style,
      blank, blanks]
    simp only [if_true, Bool.false_eq_true, if_false]
    rw [List.takeWhile_eq_self_iff.mpr indent]

theorem joinedHead {ms : List Marker} (gaps : ∀ m ∈ ms, m.Gap source)
    (stacked : Edit.Stacked (ms.map (Edit.ofMarker source))) {stop : Nat} (bound : stop ≤ source.length)
    (before : ∀ m ∈ ms, (Edit.ofMarker source m).stop < stop) :
    LineHead.of (Edit.joined source (ms.map (Edit.ofMarker source)) stop) = LineHead.of (source.take stop) := by
  induction ms generalizing stop with
  | nil => rfl
  | cons m earlier ih =>
    have fits := before m List.mem_cons_self
    have inside : (Edit.ofMarker source m).stop < source.length := by omega
    have next := List.getElem?_eq_getElem inside
    have front := ih (fun n mem => gaps n (List.mem_cons_of_mem _ mem)) stacked.tail
      (by have := stacked.windows _ List.mem_cons_self; omega : (Edit.ofMarker source m).start ≤ source.length)
      fun n mem => (List.pairwise_cons.mp stacked.falling).1 _ (List.mem_map_of_mem mem)
    rw [List.map_cons, Edit.joined, LineHead.ofAppend, LineHead.ofAppend, front, cutCons next fits,
      ← takeCut source (show (Edit.ofMarker source m).stop + 1 ≤ stop from fits), LineHead.ofAppend,
      ← editHead (gaps m List.mem_cons_self) next]
    rfl

end
end ExitSpacing
