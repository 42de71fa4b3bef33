import ExitSpacing.Proofs.Rendering
import ExitSpacing.Proofs.LineHeads
import ExitSpacing.Proofs.Words

/-! What an edit makes of the gap before its target: a line of its own for the target, and
every comment as it was. -/
namespace ExitSpacing
open Bytes
open Go
open Go.Scan

/-- A gap as an edit leaves it: with an empty line above the target's line, or without the
separators at its end and with the target on a new line. -/
inductive Opened : Bytes → Bytes → Prop
  | above {h i ending : Bytes} (line : ∀ b ∈ i, isBlank b = true ∧ b ≠ lineFeed)
      (ends : ending = [lineFeed] ∨ ending = [carriageReturn, lineFeed]) :
      Opened (h ++ lineFeed :: i) (h ++ lineFeed :: (ending ++ i))
  | broken {g ending indent : Bytes} (ends : ending = [lineFeed] ∨ ending = [carriageReturn, lineFeed])
      (indents : indent.all isIndent = true) :
      Opened g (trimEnd isSeparator g ++ (ending ++ (ending ++ indent)))

theorem endingTrivia {ending : Bytes} (ends : ending = [lineFeed] ∨ ending = [carriageReturn, lineFeed]) : Trivia ending true := by
  have feed : Trivia [lineFeed] true := .blank (by decide) .nil
  rcases ends with rfl | rfl
  · exact feed
  · exact .blank (by decide) feed

theorem endingBlank {ending : Bytes} (ends : ending = [lineFeed] ∨ ending = [carriageReturn, lineFeed]) :
    ending ≠ [] ∧ ∀ b ∈ ending, isBlank b = true := by
  rcases ends with rfl | rfl <;> decide +kernel

theorem indentLine {indent : Bytes} (indents : indent.all isIndent = true) : ∀ b ∈ indent, isBlank b = true ∧ b ≠ lineFeed := by
  intro b mem
  have here := List.all_eq_true.mp indents b mem
  refine ⟨LineHead.indentBlank here, ?_⟩
  rintro rfl
  exact absurd here (by decide)

section
variable {p : UInt8 → Bool}

theorem trimEndWhole (a : Bytes) {b : Bytes} (all : b.all p = true) : trimEnd p (a ++ b) = trimEnd p a := by
  have none : b.reverse.dropWhile p = [] := List.dropWhile_eq_nil_iff.mpr fun c mem =>
    List.all_eq_true.mp all c (List.mem_reverse.mp mem)
  rw [trimEnd, trimEnd, List.reverse_append, List.dropWhile_append, none]
  rfl

theorem trimEndPart (a : Bytes) {b : Bytes} (some : b.all p = false) : trimEnd p (a ++ b) = a ++ trimEnd p b := by
  have stops : b.reverse.dropWhile p ≠ [] := by
    intro none
    have all : b.all p = true := List.all_eq_true.mpr fun c mem =>
      List.dropWhile_eq_nil_iff.mp none c (List.mem_reverse.mpr mem)
    rw [all] at some
    cases some
  rw [trimEnd, trimEnd, List.reverse_append, List.dropWhile_append, if_neg (by simpa using stops), List.reverse_append,
    List.reverse_reverse]

end

section
variable {source : Bytes} {m : Marker}

theorem gapAbove (gap : m.Gap source)
    (blank : allBlank (cut source (lineStart source m.target.startByte) m.target.startByte) = true) :
    ∃ h, cut source m.predecessor.endByte (lineStart source m.target.startByte) = h ++ [lineFeed] := by
  have window := Edit.ofMarkerWindow gap
  have made : (Edit.ofMarker source m).start = lineStart source m.target.startByte := by
    simp only [Edit.ofMarker, blank, if_true]
  rw [made] at window
  have long := gap.predecessor.nonempty
  obtain ⟨b, there, solid⟩ := gap.predecessor.last
  rcases (lineParts source m.target.startByte).1 with none | ⟨v, front⟩
  · have lengths := congrArg List.length none
    have inside := lineStartInside source m.target.startByte
    rw [List.length_take, List.length_nil] at lengths
    omega
  · have lengths := congrArg List.length front
    have inside := lineStartInside source m.target.startByte
    rw [List.length_take, List.length_append, List.length_singleton, Nat.min_eq_left inside] at lengths
    have fits : m.predecessor.endByte ≤ v.length := by
      by_contra beyond
      have last : (source.take (lineStart source m.target.startByte))[m.predecessor.endByte - 1]? = some b := by
        rw [List.getElem?_take_of_lt (by omega), there]
      rw [front, show m.predecessor.endByte - 1 = v.length by omega, List.getElem?_concat_length] at last
      cases last
      cases solid
    refine ⟨v.drop m.predecessor.endByte, ?_⟩
    rw [cut, ← List.drop_take, front, List.drop_append_of_le_length fits]

theorem applyOpened (gap : m.Gap source) {text : Bytes}
    (same : text.take m.target.startByte = source.take m.target.startByte) :
    ∃ g, Opened (cut source m.predecessor.endByte m.target.startByte) g ∧
      (Edit.ofMarker source m).apply text =
        source.take m.predecessor.endByte ++ (g ++ text.drop m.target.startByte) := by
  have front : ∀ n ≤ m.target.startByte, text.take n = source.take n := by
    intro n le
    rw [← Nat.min_eq_left le, ← List.take_take, same, List.take_take]
  have ends := Edit.lineEndingCases source (lineStart source m.target.startByte)
  have window := Edit.ofMarkerWindow gap
  -- The edit breaks the line in front of the target, or puts a line end above the line that it opens.
  cases blank : allBlank (cut source (lineStart source m.target.startByte) m.target.startByte) with
  | true =>
    have made : Edit.ofMarker source m = ⟨lineStart source m.target.startByte, lineStart source m.target.startByte,
        Edit.lineEnding source (lineStart source m.target.startByte)⟩ := by
      simp only [Edit.ofMarker, blank, if_true]
    have line := lineStartLe source m.target.startByte
    obtain ⟨h, above⟩ := gapAbove gap blank
    rw [made] at window ⊢
    have here : cut text (lineStart source m.target.startByte) m.target.startByte =
        cut source (lineStart source m.target.startByte) m.target.startByte := by
      rw [cut, cut, ← List.drop_take, ← List.drop_take, same]
    have parts : cut source m.predecessor.endByte m.target.startByte =
        h ++ lineFeed :: cut source (lineStart source m.target.startByte) m.target.startByte := by
      rw [← cutAppend source window.1 line, above, List.append_assoc]
      rfl
    rw [parts]
    refine ⟨_, .above (fun b mem => ⟨List.all_eq_true.mp blank b mem, (lineParts source _).2 b mem⟩) ends, ?_⟩
    rw [Edit.apply, front _ line, ← takeCut source window.1, above, ← cutDrop text line, here]
    simp
  | false =>
    have made : Edit.ofMarker source m = ⟨m.predecessor.endByte, m.target.startByte,
        trimEnd isSeparator (cut source m.predecessor.endByte m.target.startByte) ++
          Edit.lineEnding source (lineStart source m.target.startByte) ++
          Edit.lineEnding source (lineStart source m.target.startByte) ++
          (source.drop (lineStart source m.target.startByte)).takeWhile isIndent⟩ := by
      simp only [Edit.ofMarker, blank, Bool.false_eq_true, if_false]
    have indents : ((source.drop (lineStart source m.target.startByte)).takeWhile isIndent).all isIndent = true :=
      List.all_takeWhile
    rw [made, Edit.apply, front _ gap.follows]
    refine ⟨_, .broken ends indents, ?_⟩
    simp

end

theorem trimmedTrivia {g : Bytes} {fed : Bool} (trivia : Trivia g fed) : Trivia (trimEnd isSeparator g) fed := by
  have parts := trimEndAppend isSeparator g
  have separators := List.all_eq_true.mp (takenBehind isSeparator g)
  rw [← parts] at trivia
  refine (trivia.shorten fun b mem => ?_).1
  have separator := separators b mem
  constructor
  · rintro rfl
    exact absurd separator (by decide)
  · rintro rfl
    exact absurd separator (by decide)

theorem brokenTrivia {g ending indent : Bytes} {fed : Bool} (trivia : Trivia g fed)
    (ends : ending = [lineFeed] ∨ ending = [carriageReturn, lineFeed]) (indents : indent.all isIndent = true) :
    Trivia (trimEnd isSeparator g ++ (ending ++ (ending ++ indent))) true := by
  have fresh := endingTrivia ends
  have all := (trimmedTrivia trivia).append (fresh.append (fresh.append (.blanks (indentLine indents))))
  rwa [Bool.true_or, Bool.or_true] at all

theorem Opened.alone {g h : Bytes} {fed : Bool} (opened : Opened g h) (trivia : Trivia g fed) : Trivia h true := by
  cases opened with
  | @above h i ending line ends =>
    have plain : ∀ b ∈ i, b ≠ slash ∧ b ≠ lineFeed := by
      intro b mem
      refine ⟨?_, (line b mem).2⟩
      rintro rfl
      exact absurd (line slash mem).1 (by decide)
    rw [List.append_cons] at trivia
    have upper := (trivia.shorten plain).1
    -- The line above ends outside comments, for a line comment would have taken in the line feed.
    obtain rfl : fed = true := (upper.last rfl (by decide)).2.1 rfl
    have all := upper.append ((endingTrivia ends).append (.blanks line))
    rw [List.append_cons]
    exact all
  | broken ends indents => exact brokenTrivia trivia ends indents

theorem Opened.behind {g h k whole : Bytes} {fed : Bool} (opened : Opened whole h) (parts : whole = g ++ semicolon :: k)
    (before : Trivia g fed) : (∃ l, h = g ++ semicolon :: l ∧ k ≠ [] ∧ Opened k l) ∨ Trivia h true := by
  cases opened with
  | @above h i ending line ends =>
    have split : (h ++ [lineFeed]) ++ i = (g ++ [semicolon]) ++ k := by simpa using parts
    refine .inl ?_
    -- the semicolon is no blank and no line feed, so the target's line begins behind it
    rcases List.append_eq_append_iff.mp split with ⟨a, front, rear⟩ | ⟨c, front, rfl⟩
    · rcases List.eq_nil_or_concat' a with rfl | ⟨a, d, rfl⟩
      · obtain ⟨-, same⟩ := List.append_inj' (front.trans (List.append_nil _)) rfl
        cases same
      · obtain ⟨-, same⟩ := List.append_inj' (front.trans (List.append_assoc _ a [d]).symm) rfl
        obtain rfl : semicolon = d := (List.cons.inj same).1
        exact absurd (line semicolon (by rw [rear]; simp)).1 (by decide)
    · rcases List.eq_nil_or_concat' c with rfl | ⟨c, d, rfl⟩
      · obtain ⟨-, same⟩ := List.append_inj' (front.trans (List.append_nil _)) rfl
        cases same
      · obtain ⟨rfl, same⟩ := List.append_inj' (front.trans (List.append_assoc _ c [d]).symm) rfl
        obtain rfl : lineFeed = d := (List.cons.inj same).1
        refine ⟨c ++ lineFeed :: (ending ++ i), by simp, by simp, ?_⟩
        rw [List.append_assoc]
        exact .above line ends
  | @broken _ ending indent ends indents =>
    subst parts
    cases separators : k.all isSeparator with
    | true =>
      have all : (semicolon :: k).all isSeparator = true := by rw [List.all_cons, separators]; decide
      rw [trimEndWhole g all]
      exact .inr (brokenTrivia before ends indents)
    | false =>
      have some : (semicolon :: k).all isSeparator = false := by rw [List.all_cons, separators, Bool.and_false]
      have kept : trimEnd isSeparator (semicolon :: k) = semicolon :: trimEnd isSeparator k := trimEndPart [semicolon] separators
      have nonempty : k ≠ [] := by
        rintro rfl
        cases separators
      rw [trimEndPart g some, kept]
      exact .inl ⟨_, by simp, nonempty, .broken ends indents⟩

theorem Opened.near {g h x y : Bytes} (opened : Opened g h) (fenced : Fenced (g ++ x))
    (unclosed : ∀ w, commentEnd? (w ++ x) = none → commentEnd? (w ++ y) = none) : Near (g ++ x) (h ++ y) := by
  cases opened with
  | @above h i ending line ends =>
    have blank := endingBlank ends
    have near := Near.space (k := h ++ [lineFeed]) (y := i ++ y) (by simpa using fenced) blank.2 blank.1 (unclosed i)
    simpa using near
  | @broken _ ending indent ends indents =>
    have blank : ∀ b ∈ ending ++ (ending ++ indent), isBlank b = true := by
      intro b mem
      simp only [List.mem_append] at mem
      rcases mem with front | middle | rear
      · exact (endingBlank ends).2 b front
      · exact (endingBlank ends).2 b middle
      · exact (indentLine indents b rear).1
    have nonempty : ending ++ (ending ++ indent) ≠ [] := by
      intro none
      exact (endingBlank ends).1 (List.append_eq_nil_iff.mp none).1
    have parts := trimEndAppend isSeparator g
    have closed : commentEnd? ((g.reverse.takeWhile isSeparator).reverse ++ x) = none → commentEnd? y = none := by
      intro none
      exact unclosed [] ((commentNone _ x).mp none).2.1
    have near := Near.space (k := trimEnd isSeparator g) (by rw [← List.append_assoc, parts]; exact fenced) blank nonempty closed
    rw [← List.append_assoc, parts] at near
    simpa using near

end ExitSpacing
