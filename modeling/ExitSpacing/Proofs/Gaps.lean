import ExitSpacing.Proofs.Lexemes
import Mathlib.Data.List.Basic
import Mathlib.Data.List.Induction
import Mathlib.Data.List.TakeWhile

/-! What stands between tokens: blanks and comments, and what may be done to them without
touching the tokens. -/
namespace ExitSpacing.Go.Scan
open Bytes (isBlank lineFeed)

section
variable {x y : Bytes}

theorem commentInside {s : Bytes} {n : Nat} (read : commentEnd? s = some n) : 2 ≤ n ∧ n ≤ s.length := by
  induction s generalizing n with
  | nil => cases read
  | cons b s ih =>
    rw [List.length_cons]
    rw [commentEnd?] at read
    split at read
    · rename_i closes
      cases read
      cases s with
      | nil => simp at closes
      | cons c s => rw [List.length_cons]; omega
    · obtain ⟨m, rest, rfl⟩ := Option.map_eq_some_iff.mp read
      have inside := ih rest
      omega

theorem commentLocal {w : Bytes} {n : Nat} (read : commentEnd? (w ++ x) = some n) (inside : n ≤ w.length) (y : Bytes) :
    commentEnd? (w ++ y) = some n := by
  induction w generalizing n with
  | nil =>
    have long := (commentInside read).1
    rw [List.length_nil] at inside
    omega
  | cons b w ih =>
    rw [List.length_cons] at inside
    rw [List.cons_append, commentEnd?] at read ⊢
    cases w with
    | nil =>
      rw [List.length_nil] at inside
      split at read
      · cases read
        omega
      · obtain ⟨m, rest, rfl⟩ := Option.map_eq_some_iff.mp read
        have long := (commentInside rest).1
        omega
    | cons c w =>
      rw [List.cons_append, List.head?_cons] at read ⊢
      by_cases closes : (b == star && some c == some slash) = true
      · rwa [if_pos closes] at read ⊢
      · rw [if_neg closes] at read ⊢
        obtain ⟨m, rest, rfl⟩ := Option.map_eq_some_iff.mp read
        have later := ih rest (by omega)
        rw [List.cons_append] at later
        rw [later]
        rfl

theorem commentCloses {s : Bytes} (read : commentEnd? s = some s.length) : s.getLast? = some slash := by
  induction s with
  | nil => cases read
  | cons b s ih =>
    rw [commentEnd?, List.length_cons] at read
    split at read
    · rename_i closes
      have long := Option.some.inj read
      cases s with
      | nil => simp at closes
      | cons c s =>
        cases s with
        | nil => simpa using (Bool.and_eq_true_iff.mp closes).2
        | cons d s => simp at long
    · obtain ⟨m, rest, same⟩ := Option.map_eq_some_iff.mp read
      obtain rfl : m = s.length := by omega
      cases s with
      | nil => cases rest
      | cons c s => rw [List.getLast?_cons_cons]; exact ih rest

theorem commentNone (u v : Bytes) : commentEnd? (u ++ v) = none ↔ commentEnd? u = none ∧ commentEnd? v = none ∧
    ¬ (u.getLast? = some star ∧ v.head? = some slash) := by
  induction u with
  | nil => simp [commentEnd?]
  | cons b u ih =>
    rw [List.cons_append, commentEnd?, commentEnd?]
    cases u with
    | nil =>
      by_cases closes : (b == star && v.head? == some slash) = true
      · rw [List.nil_append, if_pos closes]
        simpa [commentEnd?] using fun _ => closes
      · rw [List.nil_append, if_neg closes]
        simpa [commentEnd?] using fun _ => closes
    | cons c u =>
      rw [List.cons_append, List.head?_cons, List.head?_cons, List.getLast?_cons_cons]
      split
      · simp
      · rw [Option.map_eq_none_iff, Option.map_eq_none_iff]
        exact ih

theorem gapFuel {s : Bytes} {fuel other : Nat} (enough : s.length ≤ fuel) (also : s.length ≤ other) :
    gap fuel s = gap other s := by
  induction fuel generalizing s other with
  | zero =>
    obtain rfl : s = [] := List.length_eq_zero_iff.mp (Nat.le_zero.mp enough)
    cases other <;> rfl
  | succ fuel ih =>
    cases s with
    | nil => cases other <;> rfl
    | cons b s =>
      rw [List.length_cons] at enough also
      obtain ⟨other, rfl⟩ : ∃ n, other = n + 1 := ⟨other - 1, by omega⟩
      have same : ∀ k, gap fuel (s.drop k) = gap other (s.drop k) := fun k =>
        ih (by rw [List.length_drop]; omega) (by rw [List.length_drop]; omega)
      have here : gap fuel s = gap other s := same 0
      simp only [gap, here, same]

end

/-- Bytes that are blanks and whole comments, and whether a line feed outside comments is
among them. -/
inductive Trivia : Bytes → Bool → Prop
  | nil : Trivia [] false
  | blank {b g fed} (blank : isBlank b = true) (rest : Trivia g fed) : Trivia (b :: g) (fed || b == lineFeed)
  | line {inside g fed} (one : lineFeed ∉ inside) (rest : Trivia (lineFeed :: g) fed) :
      Trivia (slash :: slash :: (inside ++ lineFeed :: g)) fed
  | block {inside g fed} (closed : commentEnd? inside = some inside.length) (rest : Trivia g fed) :
      Trivia (slash :: star :: (inside ++ g)) fed

def Starts (s : Bytes) : Prop := ∃ b rest, s = b :: rest ∧ isBlank b = false ∧
  (b = slash → rest.head? ≠ some slash ∧ (rest.head? = some star → commentEnd? (rest.drop 1) = none))

theorem gapBlank {b : UInt8} (blank : isBlank b = true) (fuel : Nat) (s : Bytes) :
    gap (fuel + 1) (b :: s) = ((gap fuel s).1 + 1, (gap fuel s).2 || b == lineFeed) := by
  rw [gap, if_pos blank]

theorem gapLine {inside : Bytes} (one : lineFeed ∉ inside) (fuel : Nat) (s : Bytes) :
    gap (fuel + 1) (slash :: slash :: (inside ++ lineFeed :: s)) =
      ((gap fuel (lineFeed :: s)).1 + inside.length + 2, (gap fuel (lineFeed :: s)).2) := by
  have reach : (slash :: (inside ++ lineFeed :: s)).takeWhile (· != lineFeed) = slash :: inside := by
    rw [← List.cons_append, List.takeWhile_append_of_pos]
    · simp
    · intro b mem
      rcases List.mem_cons.mp mem with rfl | mem
      · decide
      · exact bne_iff_ne.mpr fun same => one (same ▸ mem)
  have after : (slash :: (inside ++ lineFeed :: s)).drop (slash :: inside).length = lineFeed :: s := by
    rw [← List.cons_append, List.drop_left]
  rw [gap, if_neg (by decide), if_pos (by rfl)]
  simp only [reach, after]
  rfl

theorem gapLastLine {inside : Bytes} (one : lineFeed ∉ inside) (fuel : Nat) :
    (gap (fuel + 1) (slash :: slash :: inside)).1 = inside.length + 2 := by
  have reach : (slash :: inside).takeWhile (· != lineFeed) = slash :: inside := by
    have within : ∀ b ∈ slash :: inside, (b != lineFeed) = true := by
      intro b mem
      rcases List.mem_cons.mp mem with rfl | mem
      · decide
      · exact bne_iff_ne.mpr fun same => one (same ▸ mem)
    exact List.takeWhile_eq_self_iff.mpr within
  have none : (gap fuel []).1 = 0 := by cases fuel <;> rfl
  have empty : (slash :: inside).drop (slash :: inside).length = [] := List.drop_length
  rw [gap, if_neg (by decide), if_pos (by rfl)]
  simp only [reach, empty, none]
  rw [List.length_cons]
  omega

theorem gapBlock {s : Bytes} {n : Nat} (closed : commentEnd? s = some n) (fuel : Nat) :
    gap (fuel + 1) (slash :: star :: s) = ((gap fuel (s.drop n)).1 + n + 2, (gap fuel (s.drop n)).2) := by
  rw [gap, if_neg (by decide), if_neg (by simp [show star ≠ slash by decide]), if_pos (by rfl)]
  simp only [List.drop_succ_cons, List.drop_zero, closed]

theorem startsOr (b : UInt8) (s : Bytes) : Starts (b :: s) ∨ isBlank b = true ∨
    b = slash ∧ ((∃ t, s = slash :: t) ∨ ∃ t n, s = star :: t ∧ commentEnd? t = some n) := by
  by_cases blank : isBlank b = true
  · exact .inr (.inl blank)
  · by_cases line : b = slash ∧ ∃ t, s = slash :: t
    · exact .inr (.inr ⟨line.1, .inl line.2⟩)
    · by_cases block : b = slash ∧ ∃ t n, s = star :: t ∧ commentEnd? t = some n
      · exact .inr (.inr ⟨block.1, .inr block.2⟩)
      · refine .inl ⟨b, s, rfl, Bool.not_eq_true _ ▸ blank, fun isSlash => ⟨fun second => ?_, fun second => ?_⟩⟩
        · exact line ⟨isSlash, List.head?_eq_some_iff.mp second⟩
        · obtain ⟨t, rfl⟩ := List.head?_eq_some_iff.mp second
          exact Option.eq_none_iff_forall_ne_some.mpr fun n closed => block ⟨isSlash, t, n, rfl, closed⟩

theorem gapStarts {s : Bytes} (starts : Starts s) (fuel : Nat) : gap fuel s = (0, false) := by
  obtain ⟨b, rest, rfl, solid, comment⟩ := starts
  cases fuel with
  | zero => rfl
  | succ fuel =>
    rw [gap, if_neg (by rw [solid]; decide)]
    by_cases isSlash : b = slash
    · obtain ⟨noLine, unclosed⟩ := comment isSlash
      rw [if_neg (by simp [noLine])]
      by_cases isStar : rest.head? = some star
      · rw [if_pos (by simp [isSlash, isStar]), unclosed isStar]
      · rw [if_neg (by simp [isStar])]
    · rw [if_neg (by simp [isSlash]), if_neg (by simp [isSlash])]

theorem gapOfTrivia {g s : Bytes} {fed : Bool} {fuel : Nat} (trivia : Trivia g fed) (starts : Starts s)
    (enough : (g ++ s).length ≤ fuel) : gap fuel (g ++ s) = (g.length, fed) := by
  induction trivia generalizing fuel with
  | nil => exact gapStarts starts fuel
  | @blank b g fed blank rest ih =>
    rw [List.cons_append, List.length_cons] at enough
    obtain ⟨fuel, rfl⟩ : ∃ n, fuel = n + 1 := ⟨fuel - 1, by omega⟩
    rw [List.cons_append, gapBlank blank, ih (by omega)]
    rfl
  | @line inside g fed one rest ih =>
    simp only [List.cons_append, List.append_assoc, List.length_cons, List.length_append] at enough ih ⊢
    obtain ⟨fuel, rfl⟩ : ∃ n, fuel = n + 1 := ⟨fuel - 1, by omega⟩
    rw [gapLine one, ih (by omega)]
    simp only [Prod.mk.injEq, and_true]
    omega
  | @block inside g fed closed rest ih =>
    simp only [List.cons_append, List.append_assoc, List.length_cons, List.length_append] at enough ih ⊢
    obtain ⟨fuel, rfl⟩ : ∃ n, fuel = n + 1 := ⟨fuel - 1, by omega⟩
    rw [← List.append_nil inside] at closed
    have same := commentLocal closed (by simp) (g ++ s)
    rw [List.append_nil] at same
    rw [gapBlock same, List.drop_left, ih (by omega)]
    simp only [Prod.mk.injEq, and_true]
    omega

theorem triviaOfGap {s : Bytes} {fuel k : Nat} {fed : Bool} (read : gap fuel s = (k, fed)) (enough : s.length ≤ fuel)
    (more : s.drop k ≠ []) : ∃ g r, s = g ++ r ∧ g.length = k ∧ Trivia g fed ∧ Starts r := by
  induction fuel generalizing s k fed with
  | zero =>
    obtain rfl : s = [] := List.length_eq_zero_iff.mp (Nat.le_zero.mp enough)
    exact absurd List.drop_nil more
  | succ fuel ih =>
    cases s with
    | nil => exact absurd List.drop_nil more
    | cons b s =>
      rw [List.length_cons] at enough
      rcases startsOr b s with starts | blank | ⟨rfl, ⟨t, rfl⟩ | ⟨t, n, rfl, closed⟩⟩
      · rw [gapStarts starts] at read
        cases read
        exact ⟨[], b :: s, rfl, rfl, .nil, starts⟩
      · rw [gapBlank blank] at read
        cases read
        rw [List.drop_succ_cons] at more
        obtain ⟨g, r, rfl, long, trivia, starts⟩ := ih rfl (by omega) more
        exact ⟨b :: g, r, rfl, congrArg (· + 1) long, .blank blank trivia, starts⟩
      · by_cases ends : lineFeed ∈ t
        · obtain ⟨inside, t, rfl, one⟩ := List.eq_append_cons_of_mem ends
          rw [List.length_cons, List.length_append] at enough
          rw [gapLine one] at read
          cases read
          rw [List.drop_succ_cons, List.drop_succ_cons, Nat.add_comm, List.drop_length_add_append] at more
          obtain ⟨g, r, same, long, trivia, starts⟩ := ih rfl (by omega) more
          -- A line comment ends in front of its line feed, which the trivia behind it begin with.
          cases g with
          | nil =>
            obtain ⟨b, rest, first, solid, -⟩ := starts
            cases same.trans first
            cases solid
          | cons c g =>
            obtain ⟨rfl, rfl⟩ := List.cons.inj same
            refine ⟨slash :: slash :: (inside ++ lineFeed :: g), r, by simp, ?_, .line one trivia, starts⟩
            rw [← long]
            simp only [List.length_cons, List.length_append]
            omega
        -- A comment that no line feed ends takes in the whole text, but there is more.
        · have all := gapLastLine ends fuel
          rw [read] at all
          obtain rfl : k = t.length + 2 := all
          exact absurd (List.drop_of_length_le (Nat.le_refl _)) more
      · have within := (commentInside closed).2
        rw [List.length_cons] at enough
        rw [gapBlock closed] at read
        cases read
        rw [List.drop_succ_cons, List.drop_succ_cons, Nat.add_comm, ← List.drop_drop] at more
        obtain ⟨g, r, same, long, trivia, starts⟩ := ih rfl (by rw [List.length_drop]; omega) more
        have inside := List.length_take_of_le within
        refine ⟨slash :: star :: (t.take n ++ g), r, ?_, ?_, .block ?_ trivia, starts⟩
        · rw [List.cons_append, List.cons_append, List.append_assoc, ← same, List.take_append_drop]
        · simp only [List.length_cons, List.length_append, inside]
          omega
        · rw [inside, ← List.append_nil (t.take n)]
          rw [← List.take_append_drop n t] at closed
          exact commentLocal closed (Nat.le_of_eq inside.symm) []

theorem blankFence {b : UInt8} (blank : isBlank b = true) : b ∈ fences := by
  simp only [isBlank, Bool.or_eq_true, Bool.and_eq_true, decide_eq_true_eq, beq_iff_eq, UInt8.le_iff_toNat_le,
    ← UInt8.toNat_inj, UInt8.reduceToNat] at blank
  simp only [fences, List.mem_cons, List.not_mem_nil, or_false, ← UInt8.toNat_inj, UInt8.reduceToNat]
  omega

namespace Trivia

theorem append {g h : Bytes} {fed more : Bool} (first : Trivia g fed) (second : Trivia h more) : Trivia (g ++ h) (fed || more) := by
  induction first with
  | nil => rw [Bool.false_or]; exact second
  | @blank b g fed blank rest ih =>
    have longer := Trivia.blank blank ih
    rwa [Bool.or_assoc, Bool.or_comm more, ← Bool.or_assoc] at longer
  | line one rest ih =>
    have longer := Trivia.line one ih
    simpa using longer
  | block closed rest ih =>
    have longer := Trivia.block closed ih
    simpa using longer

theorem blanks {g : Bytes} (line : ∀ b ∈ g, isBlank b = true ∧ b ≠ lineFeed) : Trivia g false := by
  induction g with
  | nil => exact .nil
  | cons b g ih =>
    have here := line b List.mem_cons_self
    have longer := Trivia.blank here.1 (ih fun c mem => line c (List.mem_cons_of_mem _ mem))
    rwa [beq_false_of_ne here.2] at longer

theorem nonempty {g : Bytes} (trivia : Trivia g true) : g ≠ [] := by
  rintro rfl
  cases trivia

theorem last {g h : Bytes} {b : UInt8} {fed : Bool} (trivia : Trivia g fed) (ends : g = h ++ [b]) (other : b ≠ slash) :
    isBlank b = true ∧ (b = lineFeed → fed = true) ∧ (b ≠ lineFeed → Trivia h fed) := by
  induction trivia generalizing h with
  | nil => simp at ends
  | @blank c g fed blank rest ih =>
    cases h with
    | nil =>
      obtain ⟨rfl, rfl⟩ := List.cons.inj ends
      cases rest
      refine ⟨blank, fun feed => by rw [feed]; rfl, fun line => ?_⟩
      rw [beq_false_of_ne line]
      exact .nil
    | cons d h =>
      obtain ⟨rfl, rfl⟩ := List.cons.inj ends
      obtain ⟨isBlank, feeds, shorter⟩ := ih rfl
      refine ⟨isBlank, fun feed => ?_, fun line => .blank blank (shorter line)⟩
      rw [feeds feed]
      rfl
  | @line inside g fed one rest ih =>
    rcases List.eq_nil_or_concat' g with rfl | ⟨g, d, rfl⟩
    -- the line feed belongs to the comment: what is left of it is no trivia
    · have parts : h ++ [b] = (slash :: slash :: inside) ++ [lineFeed] := ends.symm
      obtain ⟨-, same⟩ := List.append_inj' parts rfl
      obtain rfl : b = lineFeed := (List.cons.inj same).1
      have fresh := (ih (h := []) rfl).2.1 rfl
      exact ⟨rfl, fun _ => fresh, fun line => absurd rfl line⟩
    · have parts : h ++ [b] = (slash :: slash :: (inside ++ lineFeed :: g)) ++ [d] := by simpa using ends.symm
      obtain ⟨rfl, same⟩ := List.append_inj' parts rfl
      obtain rfl : b = d := (List.cons.inj same).1
      obtain ⟨isBlank, feeds, shorter⟩ := ih (h := lineFeed :: g) rfl
      exact ⟨isBlank, feeds, fun other => .line one (shorter other)⟩
  | @block inside g fed closed rest ih =>
    rcases List.eq_nil_or_concat' g with rfl | ⟨g, d, rfl⟩
    -- a block comment ends in its slash
    · rw [List.append_nil] at ends
      have final := commentCloses closed
      rcases List.eq_nil_or_concat' inside with rfl | ⟨front, d, rfl⟩
      · cases final
      · have parts : h ++ [b] = (slash :: star :: front) ++ [d] := ends.symm
        obtain ⟨-, same⟩ := List.append_inj' parts rfl
        obtain rfl : b = d := (List.cons.inj same).1
        rw [List.getLast?_concat] at final
        exact absurd (Option.some.inj final) other
    · have parts : h ++ [b] = (slash :: star :: (inside ++ g)) ++ [d] := by simpa using ends.symm
      obtain ⟨rfl, same⟩ := List.append_inj' parts rfl
      obtain rfl : b = d := (List.cons.inj same).1
      obtain ⟨isBlank, feeds, shorter⟩ := ih rfl
      exact ⟨isBlank, feeds, fun other => .block closed (shorter other)⟩

theorem shorten {h i : Bytes} {fed : Bool} (trivia : Trivia (h ++ i) fed) (plain : ∀ b ∈ i, b ≠ slash ∧ b ≠ lineFeed) :
    Trivia h fed ∧ ∀ b ∈ i, isBlank b = true := by
  induction i using List.reverseRecOn with
  | nil => exact ⟨List.append_nil h ▸ trivia, by simp⟩
  | append_singleton i b ih =>
    have here := plain b (by simp)
    obtain ⟨isBlank, -, shorter⟩ := trivia.last (List.append_assoc h i [b]).symm here.1
    obtain ⟨kept, blanks⟩ := ih (shorter here.2) fun c mem => plain c (List.mem_append_left _ mem)
    refine ⟨kept, fun c mem => ?_⟩
    rcases List.mem_append.mp mem with front | final
    · exact blanks c front
    · rwa [List.mem_singleton.mp final]

theorem fenced {g s : Bytes} {fed : Bool} (trivia : Trivia g fed) (fenced : g = [] → Fenced s) : Fenced (g ++ s) := by
  cases trivia with
  | nil => exact fenced rfl
  | blank blank rest =>
    rintro b ⟨rfl⟩
    exact blankFence blank
  | line one rest =>
    rintro b ⟨rfl⟩
    decide
  | block closed rest =>
    rintro b ⟨rfl⟩
    decide

end Trivia

/-- Two texts that may stand behind the same tokens: each begins with a fence, and the
second closes no comment and begins none that the first does not. -/
structure Near (x y : Bytes) : Prop where
  before : Fenced x
  after : Fenced y
  slashes : y.head? = some slash → x.head? = some slash
  unclosed : commentEnd? x = none → commentEnd? y = none

theorem Near.same {x : Bytes} (fenced : Fenced x) : Near x x := ⟨fenced, fenced, id, id⟩

section
variable {x y : Bytes}

theorem Near.comment (near : Near x y) {w : Bytes} (unclosed : commentEnd? (w ++ x) = none) : commentEnd? (w ++ y) = none := by
  obtain ⟨front, back, apart⟩ := (commentNone w x).mp unclosed
  exact (commentNone w y).mpr ⟨front, near.unclosed back, fun meet => apart ⟨meet.1, near.slashes meet.2⟩⟩

theorem commentBlank {e : Bytes} (blank : ∀ b ∈ e, isBlank b = true) : commentEnd? e = none := by
  induction e with
  | nil => rfl
  | cons b e ih =>
    have other : b ≠ star := by
      rintro rfl
      exact absurd (blank star List.mem_cons_self) (by decide)
    rw [commentEnd?, beq_false_of_ne other, Bool.false_and, if_neg Bool.false_ne_true,
      ih fun c mem => blank c (List.mem_cons_of_mem _ mem)]
    rfl

theorem Near.space {k e : Bytes} (fenced : Fenced (k ++ x)) (blank : ∀ b ∈ e, isBlank b = true) (nonempty : e ≠ [])
    (unclosed : commentEnd? x = none → commentEnd? y = none) : Near (k ++ x) (k ++ (e ++ y)) := by
  have head : ∃ c, (e ++ y).head? = some c ∧ isBlank c = true := by
    cases e with
    | nil => exact absurd rfl nonempty
    | cons c e => exact ⟨c, rfl, blank c List.mem_cons_self⟩
  obtain ⟨c, first, isBlank⟩ := head
  have solid : c ≠ slash := by
    rintro rfl
    exact absurd isBlank (by decide)
  refine ⟨fenced, ?_, ?_, fun none => ?_⟩
  · cases k with
    | nil =>
      intro b there
      obtain rfl : c = b := Option.some.inj (first.symm.trans there)
      exact blankFence isBlank
    | cons b k => exact fenced
  · cases k with
    | nil => exact fun there => absurd (Option.some.inj (first.symm.trans there)) solid
    | cons b k => exact id
  · obtain ⟨front, back, -⟩ := (commentNone k x).mp none
    refine (commentNone k (e ++ y)).mpr ⟨front, ?_, fun meet => solid (Option.some.inj (first.symm.trans meet.2))⟩
    refine (commentNone e y).mpr ⟨commentBlank blank, unclosed back, fun meet => ?_⟩
    exact absurd (blank star (List.mem_of_getLast? meet.1)) (by decide)

theorem Near.starts (near : Near x y) {w : Bytes} (nonempty : w ≠ []) (starts : Starts (w ++ x)) : Starts (w ++ y) := by
  cases w with
  | nil => exact absurd rfl nonempty
  | cons b w =>
    obtain ⟨c, rest, same, solid, comment⟩ := starts
    obtain ⟨rfl, rfl⟩ := List.cons.inj same
    refine ⟨b, w ++ y, rfl, solid, fun isSlash => ?_⟩
    obtain ⟨noLine, unclosed⟩ := comment isSlash
    cases w with
    | nil =>
      refine ⟨fun slash => noLine (near.slashes slash), fun star => ?_⟩
      exact absurd (near.after _ star) (by decide)
    | cons c w => exact ⟨noLine, fun star => near.comment (unclosed star)⟩

end
end ExitSpacing.Go.Scan
