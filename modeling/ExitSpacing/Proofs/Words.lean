import ExitSpacing.Proofs.Gaps

/-! The tokens of a text without their places: how they are read from a part of it and
where they stand in a source. -/
namespace ExitSpacing.Go
open Bytes (cut)
open Scan

structure Word where
  lexeme : Lexeme
  spelling : Bytes
  fresh : Bool
  deriving DecidableEq, Repr

def Token.word (source : Bytes) (t : Token) : Word := ⟨t.lexeme, cut source t.start.offset t.stop.offset, t.fresh⟩

def words (source : Bytes) : List Word := (tokens source).map (Token.word source)

/-- In front of `x` a text is read as these words, up to its end. -/
inductive Reads (x : Bytes) : Bytes → List Word → Prop
  | nil : Reads x [] []
  | cons {g w r fed l ws} (gap : Trivia g fed) (starts : Starts (w ++ (r ++ x)))
      (token : lexeme (w ++ (r ++ x)).length (w ++ (r ++ x)) = (l, w.length)) (valid : l ≠ .invalid)
      (rest : Reads x r ws) : Reads x (g ++ (w ++ r)) (⟨l, w, fed⟩ :: ws)

def Ends (s : Bytes) : Prop := s.length ≤ (gap s.length s).1

def Spells (s : Bytes) (ws : List Word) : Prop := ∃ r t, s = r ++ t ∧ Reads t r ws ∧ Ends t

inductive Stands (source : Bytes) : Nat → List Token → Prop
  | nil {p} (rest : Ends (source.drop p)) : Stands source p []
  | cons {p t ts} (order : p ≤ t.start.offset) (inside : t.start.offset < t.stop.offset)
      (within : t.stop.offset ≤ source.length) (gap : Trivia (cut source p t.start.offset) t.fresh)
      (starts : Starts (source.drop t.start.offset))
      (token : lexeme (source.drop t.start.offset).length (source.drop t.start.offset) =
        (t.lexeme, t.stop.offset - t.start.offset))
      (valid : t.lexeme ≠ .invalid) (rest : Stands source t.stop.offset ts) : Stands source p (t :: ts)

def reach : Nat → List Token → Nat
  | p, [] => p
  | _, t :: ts => reach t.stop.offset ts

section
variable {x y : Bytes}

-- the bytes behind a token that is not the last are its own text's, so only the last meets `y`
theorem Reads.near {s : Bytes} {ws : List Word} (reads : Reads x s ws) (near : Near x y) : Reads y s ws := by
  induction reads with
  | nil => exact .nil
  | @cons g w r fed l ws gap starts token valid rest ih =>
    rw [← List.append_assoc] at starts token
    have positive : 0 < w.length := by
      obtain ⟨b, t, same, -⟩ := starts
      rw [same] at token
      exact (lexemeInside token).1
    have nonempty : w ++ r ≠ [] := by
      intro none
      obtain ⟨rfl, -⟩ := List.append_eq_nil_iff.mp none
      exact absurd positive (Nat.lt_irrefl 0)
    have later := near.starts nonempty starts
    have again : lexeme (w ++ r ++ y).length (w ++ r ++ y) = (l, w.length) :=
      lexemeLocal near.before near.after token (by simp) nonempty valid (by simp) (by simp)
    rw [List.append_assoc] at later again
    exact .cons gap later again valid ih

theorem Reads.append {r s : Bytes} {ws vs : List Word} (first : Reads (r ++ x) s ws) (second : Reads x r vs) :
    Reads x (s ++ r) (ws ++ vs) := by
  induction first with
  | nil => exact second
  | @cons g w q fed l ws gap starts token valid rest ih =>
    rw [← List.append_assoc q] at starts token
    have longer := Reads.cons gap starts token valid ih
    simpa using longer

theorem Reads.spells {s : Bytes} {ws vs : List Word} (first : Reads x s ws) (second : Spells x vs) : Spells (s ++ x) (ws ++ vs) := by
  obtain ⟨r, t, rfl, reads, ends⟩ := second
  exact ⟨s ++ r, t, (List.append_assoc s r t).symm, first.append reads, ends⟩

end

theorem lexemeFuel {s : Bytes} {fuel other n : Nat} {l : Lexeme} (read : lexeme fuel s = (l, n)) (nonempty : s ≠ [])
    (valid : l ≠ .invalid) (enough : s.length ≤ fuel) (also : s.length ≤ other) : lexeme other s = (l, n) := by
  have none : Fenced [] := by rintro b ⟨⟩
  have inside : n ≤ s.length := by
    cases s with
    | nil => exact absurd rfl nonempty
    | cons b s => exact (lexemeInside read).2
  rw [← List.append_nil s] at read ⊢
  exact lexemeLocal none none read inside nonempty valid enough also

theorem placeOffset (p : Point) (s : Bytes) : (s.foldl Point.after p).offset = p.offset + s.length := by
  induction s generalizing p with
  | nil => rfl
  | cons b s ih =>
    have next : (p.after b).offset = p.offset + 1 := by
      rw [Point.after]
      split <;> rfl
    rw [List.foldl_cons, ih, next, List.length_cons]
    omega

theorem tokensFromStep {fuel n : Nat} {g r : Bytes} {fed : Bool} {l : Lexeme} (p : Point)
    (blank : gap fuel (g ++ r) = (g.length, fed)) (more : r ≠ []) (token : lexeme fuel r = (l, n)) :
    tokensFrom (fuel + 1) p (g ++ r) =
      ⟨l, fed, g.foldl Point.after p, (r.take n).foldl Point.after (g.foldl Point.after p)⟩ ::
        tokensFrom fuel ((r.take n).foldl Point.after (g.foldl Point.after p)) (r.drop n) := by
  rw [tokensFrom, blank]
  simp only [List.drop_left, List.take_left, token]
  rw [if_neg (by simpa using more)]

theorem tokensFromEnd {fuel : Nat} {s : Bytes} (p : Point) (enough : s.length ≤ fuel) (ends : Ends s) :
    tokensFrom (fuel + 1) p s = [] := by
  rw [Ends, gapFuel (Nat.le_refl _) enough] at ends
  rw [tokensFrom]
  simp only [List.drop_of_length_le ends, List.isEmpty_nil, if_true]

theorem tokensStand {source : Bytes} {fuel : Nat} {p : Point} {s : Bytes} (enough : s.length < fuel)
    (here : source.drop p.offset = s) (valid : ∀ t ∈ tokensFrom fuel p s, t.lexeme ≠ .invalid) :
    Stands source p.offset (tokensFrom fuel p s) := by
  induction fuel generalizing p s with
  | zero => omega
  | succ fuel ih =>
    have bound : s.length ≤ fuel := by omega
    by_cases none : s.drop (gap fuel s).1 = []
    · have ends : Ends s := by
        rw [Ends, gapFuel (Nat.le_refl _) bound]
        exact List.drop_eq_nil_iff.mp none
      rw [tokensFromEnd p bound ends]
      exact .nil (here ▸ ends)
    · obtain ⟨g, r, rfl, long, trivia, starts⟩ := triviaOfGap (Prod.eta _).symm bound none
      obtain ⟨b, rest, same, -⟩ := id starts
      have more : r ≠ [] := by rw [same]; exact List.cons_ne_nil _ _
      cases token : lexeme fuel r with
      | mk l n =>
        have step := tokensFromStep p (Prod.ext long.symm rfl) more token
        rw [step] at valid ⊢
        have behind : r.length ≤ fuel := by rw [List.length_append] at bound; omega
        have inside : 0 < n ∧ n ≤ r.length := by
          rw [same] at token ⊢
          exact lexemeInside token
        have start := placeOffset p g
        have stop := placeOffset (g.foldl Point.after p) (r.take n)
        rw [List.length_take_of_le inside.2] at stop
        have target : source.drop (g.foldl Point.after p).offset = r := by
          rw [start, ← List.drop_drop, here, List.drop_left]
        have lengths := congrArg List.length here
        rw [List.length_drop, List.length_append] at lengths
        have tail : source.drop ((r.take n).foldl Point.after (g.foldl Point.after p)).offset = r.drop n := by
          rw [stop, ← List.drop_drop, target]
        have short : (r.drop n).length < fuel := by rw [List.length_drop]; omega
        have before : cut source p.offset (g.foldl Point.after p).offset = g := by
          rw [start, cut, here, Nat.add_sub_cancel_left, List.take_left]
        have reached : (((r.take n).foldl Point.after (g.foldl Point.after p)).offset - (g.foldl Point.after p).offset) = n := by
          omega
        refine .cons (by dsimp only; omega) (by dsimp only; omega) (by dsimp only; omega) ?_ ?_ ?_ (valid _ List.mem_cons_self)
          (ih short tail fun t mem => valid t (List.mem_cons_of_mem _ mem))
        · rw [before]; exact trivia
        · rw [target]; exact starts
        · rw [target, reached]
          exact lexemeFuel token more (valid _ List.mem_cons_self) behind (Nat.le_refl _)

theorem spelledTokens {source : Bytes} {fuel : Nat} {p : Point} {s : Bytes} {ws : List Word} (spells : Spells s ws)
    (enough : s.length < fuel) (here : source.drop p.offset = s) :
    (tokensFrom fuel p s).map (Token.word source) = ws := by
  obtain ⟨r, t, rfl, reads, ends⟩ := spells
  induction reads generalizing fuel p with
  | nil =>
    obtain ⟨fuel, rfl⟩ : ∃ n, fuel = n + 1 := ⟨fuel - 1, by omega⟩
    rw [List.nil_append, tokensFromEnd p (by simpa using Nat.le_of_lt_succ enough) ends]
    rfl
  | @cons g w r fed l ws blank starts token valid rest ih =>
    obtain ⟨fuel, rfl⟩ : ∃ n, fuel = n + 1 := ⟨fuel - 1, by omega⟩
    have same : g ++ (w ++ r) ++ t = g ++ (w ++ (r ++ t)) := by simp
    rw [same] at enough here ⊢
    have more : w ++ (r ++ t) ≠ [] := by
      obtain ⟨b, rest, same, -⟩ := starts
      rw [same]
      exact List.cons_ne_nil _ _
    have behind : (w ++ (r ++ t)).length ≤ fuel := by
      rw [List.length_append] at enough
      omega
    have again : lexeme fuel (w ++ (r ++ t)) = (l, w.length) := lexemeFuel token more valid (Nat.le_refl _) behind
    rw [tokensFromStep p (gapOfTrivia blank starts (by omega)) more again, List.take_left, List.drop_left, List.map_cons]
    have start := placeOffset p g
    have stop := placeOffset (g.foldl Point.after p) w
    have target : source.drop (g.foldl Point.after p).offset = w ++ (r ++ t) := by
      rw [start, ← List.drop_drop, here, List.drop_left]
    have positive : 0 < w.length := by
      obtain ⟨b, rest, same, -⟩ := starts
      rw [same] at token
      exact (lexemeInside token).1
    have tail : source.drop (w.foldl Point.after (g.foldl Point.after p)).offset = r ++ t := by
      rw [stop, ← List.drop_drop, target, List.drop_left]
    rw [ih (by simp only [List.length_append] at behind ⊢; omega) tail, Token.word]
    simp only [cut, target, stop, Nat.add_sub_cancel_left, List.take_left]

namespace Stands
variable {source : Bytes} {p : Nat} {t : Token} {ts us : List Token}

theorem order (stands : Stands source p (ts ++ us)) : p ≤ reach p ts := by
  induction ts generalizing p with
  | nil => exact Nat.le_refl p
  | cons t ts ih =>
    cases stands with
    | cons order inside within gap starts token valid rest =>
      have later := ih rest
      rw [reach]
      omega

theorem behind (stands : Stands source p (ts ++ us)) : Stands source (reach p ts) us := by
  induction ts generalizing p with
  | nil => exact stands
  | cons t ts ih =>
    cases stands with
    | cons order inside within gap starts token valid rest => exact ih rest

theorem regap (stands : Stands source p (t :: ts ++ us))
    (reads : Reads (source.drop (reach t.stop.offset ts)) (cut source t.stop.offset (reach t.stop.offset ts))
      (ts.map (Token.word source)))
    {g : Bytes} {fed : Bool} (trivia : Trivia g fed) :
    Reads (source.drop (reach t.stop.offset ts)) (g ++ cut source t.start.offset (reach t.stop.offset ts))
      ({ t.word source with fresh := fed } :: ts.map (Token.word source)) := by
  cases stands with
  | cons order inside within gap starts token valid rest =>
    have later := rest.order
    have parts : source.drop t.start.offset = cut source t.start.offset t.stop.offset ++
        (cut source t.stop.offset (reach t.stop.offset ts) ++ source.drop (reach t.stop.offset ts)) := by
      rw [Bytes.cutDrop source later, Bytes.cutDrop source (Nat.le_of_lt inside)]
    have long : (cut source t.start.offset t.stop.offset).length = t.stop.offset - t.start.offset := by
      rw [Bytes.cutLength]
      omega
    rw [parts] at starts token
    rw [← long] at token
    rw [← Bytes.cutAppend source (Nat.le_of_lt inside) later]
    exact .cons trivia starts token valid reads

theorem reads (stands : Stands source p (ts ++ us)) :
    Reads (source.drop (reach p ts)) (cut source p (reach p ts)) (ts.map (Token.word source)) := by
  induction ts generalizing p with
  | nil =>
    rw [reach, cut, Nat.sub_self, List.take_zero]
    exact .nil
  | cons t ts ih =>
    cases id stands with
    | cons order inside within gap starts token valid rest =>
      have later := rest.order
      have all := stands.regap (ih rest) gap
      rw [Bytes.cutAppend source order (by omega)] at all
      exact all

end Stands
theorem endsFenced {s : Bytes} (ends : Ends s) : Fenced s := by
  rintro b first
  obtain ⟨s, rfl⟩ := List.head?_eq_some_iff.mp first
  rcases startsOr b s with starts | blank | ⟨rfl, -⟩
  · rw [Ends, gapStarts starts] at ends
    simp at ends
  · exact blankFence blank
  · decide

def markWidth (source : Bytes) : Nat := if Bytes.startsWith source byteOrderMark then byteOrderMark.length else 0

theorem markInside (source : Bytes) : markWidth source ≤ source.length := by
  rw [markWidth]
  split
  · rename_i marked
    exact (List.isPrefixOf_iff_prefix.mp marked).length_le
  · exact Nat.zero_le _

theorem markLocal {x y : Bytes} (fencedX : Fenced x) (fencedY : Fenced y) (s : Bytes) :
    markWidth (s ++ y) = markWidth (s ++ x) := by
  have plain : ∀ b ∈ byteOrderMark, b ∉ fences := by decide +kernel
  rw [markWidth, markWidth, Bytes.startsWith, Bytes.startsWith, prefixLocal fencedX plain, prefixLocal fencedY plain]

theorem markOffset (source : Bytes) : ((source.take (markWidth source)).foldl Point.after {}).offset = markWidth source := by
  rw [placeOffset, List.length_take_of_le (markInside source)]
  exact Nat.zero_add _

theorem tokensBehindMark (source : Bytes) : tokens source =
    tokensFrom (source.length + 1) ((source.take (markWidth source)).foldl Point.after {}) (source.drop (markWidth source)) := rfl

theorem sourceStands {source : Bytes} (valid : ∀ t ∈ tokens source, t.lexeme ≠ .invalid) :
    Stands source (markWidth source) (tokens source) := by
  have short : (source.drop (markWidth source)).length < source.length + 1 := by
    rw [List.length_drop]
    omega
  rw [tokensBehindMark] at valid ⊢
  have stands := tokensStand short (by rw [markOffset]) valid
  rwa [markOffset] at stands

theorem wordsOf {source : Bytes} {ws : List Word} (spells : Spells (source.drop (markWidth source)) ws) : words source = ws := by
  have short : (source.drop (markWidth source)).length < source.length + 1 := by
    rw [List.length_drop]
    omega
  rw [words, tokensBehindMark]
  exact spelledTokens spells short (by rw [markOffset])

end ExitSpacing.Go
