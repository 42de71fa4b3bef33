import ExitSpacing.Proofs.Numbers

/-! A token is read from its own bytes: in front of a fence it is the token that it is in
front of any other, and a quoted one is what it is whatever follows its close. -/
namespace ExitSpacing.Go.Scan
open Bytes (startsWith)

section
variable {x y : Bytes}

theorem tailsHigh {lead : UInt8} {ranges : List (UInt8 × UInt8)} (found : Utf8.tails lead = some ranges) :
    ∀ r ∈ ranges, ∀ c ∈ fences, ¬ r.1 ≤ c := by
  have high : (ranges.all fun r => fences.all fun c => decide (¬ r.1 ≤ c)) = true := by
    simp only [Utf8.tails] at found
    repeat' split at found
    all_goals cases found
    all_goals rfl
  intro r mem c fence
  exact of_decide_eq_true (List.all_eq_true.mp (List.all_eq_true.mp high r mem) c fence)

theorem matchedLocal (fenced : Fenced x) {ranges : List (UInt8 × UInt8)} (high : ∀ r ∈ ranges, ∀ c ∈ fences, ¬ r.1 ≤ c)
    (w : Bytes) : Utf8.matched ranges (w ++ x) = Utf8.matched ranges w := by
  induction ranges generalizing w with
  | nil => rfl
  | cons r ranges ih =>
    cases w with
    | nil =>
      cases x with
      | nil => rfl
      | cons c x =>
        have low : ¬ r.1 ≤ c := high r List.mem_cons_self c (fenced c rfl)
        show (if r.1 ≤ c && c ≤ r.2 then _ else 0) = 0
        rw [decide_eq_false low]
        rfl
    | cons b w =>
      rw [List.cons_append, Utf8.matched, Utf8.matched, ih fun r mem => high r (List.mem_cons_of_mem _ mem)]

theorem matchedInside (ranges : List (UInt8 × UInt8)) (w : Bytes) : Utf8.matched ranges w ≤ w.length := by
  induction ranges generalizing w with
  | nil => exact Nat.zero_le _
  | cons r ranges ih =>
    cases w with
    | nil => exact Nat.zero_le _
    | cons b w =>
      have bound := ih w
      rw [Utf8.matched, List.length_cons]
      split <;> omega

theorem pieceLocal (fenced : Fenced x) (lead : UInt8) (w : Bytes) : Utf8.piece lead (w ++ x) = Utf8.piece lead w := by
  rw [Utf8.piece, Utf8.piece]
  cases found : Utf8.tails lead with
  | none => rfl
  | some ranges =>
    have inside := matchedInside ranges w
    simp only
    rw [matchedLocal fenced (tailsHigh found), List.take_append_of_le_length inside]

theorem pieceInside (lead : UInt8) (w : Bytes) : (Utf8.piece lead w).2 ≤ w.length := by
  rw [Utf8.piece]
  cases Utf8.tails lead with
  | none => exact Nat.zero_le _
  | some ranges =>
    have inside := matchedInside ranges w
    simp only
    split <;> exact inside

theorem namePartLocal (fencedX : Fenced x) (fencedY : Fenced y) (w : Bytes) {fuel other : Nat}
    (enough : w.length ≤ fuel) (also : w.length ≤ other) : namePart fuel (w ++ x) = namePart other (w ++ y) := by
  -- No name goes on with a fence, whatever fuel there is.
  have stops : ∀ {z : Bytes}, Fenced z → ∀ fuel, namePart fuel z = 0 := by
    intro z fenced fuel
    cases fuel with
    | zero => rfl
    | succ fuel =>
      cases z with
      | nil => rfl
      | cons c z =>
        have fence := fenced c rfl
        have plain : (isAsciiLetter c || isDecimal c) = false :=
          (by decide : Unfenced fun c => isAsciiLetter c || isDecimal c) c fence
        have low : c < 128 := (by decide +kernel : ∀ c ∈ fences, c < 128) c fence
        rw [namePart, plain, if_neg Bool.false_ne_true, if_pos low]
  induction fuel generalizing w other with
  | zero =>
    obtain rfl : w = [] := List.length_eq_zero_iff.mp (Nat.le_zero.mp enough)
    exact (stops fencedX 0).trans (stops fencedY other).symm
  | succ fuel ih =>
    cases w with
    | nil => exact (stops fencedX _).trans (stops fencedY other).symm
    | cons b w =>
      rw [List.length_cons] at enough also
      obtain ⟨other, rfl⟩ : ∃ n, other = n + 1 := ⟨other - 1, by omega⟩
      have inside := pieceInside b w
      have next : namePart fuel (w ++ x) = namePart other (w ++ y) := ih w (by omega) (by omega)
      have rest : (w.drop (Utf8.piece b w).2).length = w.length - (Utf8.piece b w).2 := List.length_drop
      have skip : namePart fuel (w.drop (Utf8.piece b w).2 ++ x) = namePart other (w.drop (Utf8.piece b w).2 ++ y) :=
        ih _ (by omega) (by omega)
      rw [List.cons_append, List.cons_append, namePart, namePart, next, pieceLocal fencedX, pieceLocal fencedY]
      cases piece : Utf8.piece b w with
      | mk char n =>
        rw [piece] at inside skip
        cases char with
        | none => rfl
        | some c =>
          simp only
          rw [List.drop_append_of_le_length inside, List.drop_append_of_le_length inside, skip]

theorem nameLocal (fencedX : Fenced x) (fencedY : Fenced y) (w : Bytes) {fuel other : Nat}
    (enough : w.length ≤ fuel) (also : w.length ≤ other) : name fuel (w ++ x) = name other (w ++ y) := by
  have plain : ∀ c ∈ fences, Utf8.tails c = some [] ∧
      (Char.ofNat c.toNat == '_' || Text.isLetter (Char.ofNat c.toNat)) = false := by decide +kernel
  have stops : ∀ {z : Bytes}, Fenced z → ∀ fuel, name fuel z = 0 := by
    intro z fenced fuel
    cases z with
    | nil => rfl
    | cons c z =>
      obtain ⟨alone, other⟩ := plain c (fenced c rfl)
      have read : Utf8.piece c z = (some (Char.ofNat c.toNat), 0) := by rw [Utf8.piece, alone]; rfl
      rw [name, Utf8.next?, read]
      simp only [other, Bool.false_eq_true, if_false]
  cases w with
  | nil => exact (stops fencedX fuel).trans (stops fencedY other).symm
  | cons b w =>
    have parts := namePartLocal fencedX fencedY (b :: w) enough also
    rw [List.cons_append, List.cons_append] at parts ⊢
    rw [name, name, Utf8.next?, Utf8.next?, pieceLocal fencedX, pieceLocal fencedY]
    cases Utf8.piece b w with
    | mk char n =>
      cases char with
      | none => rfl
      | some c => simp only [parts]

def counted (s : Bytes) (skip n : Nat) (p : UInt8 → Bool) : Option Nat :=
  if ((s.drop skip).take n).length = n && ((s.drop skip).take n).all p then some (skip + n) else none

theorem escapeIs (closing b : UInt8) (s : Bytes) : escape? closing (b :: s) =
    if b == closing || b == backslash || [97, 98, 102, 110, 114, 116, 118].contains b then some 1
    else if isOctal b then counted (b :: s) 0 3 isOctal
    else if b == 120 then counted (b :: s) 1 2 isHex
    else if b == 117 then counted (b :: s) 1 4 isHex
    else if b == 85 then counted (b :: s) 1 8 isHex
    else none := rfl

theorem countedSome {s : Bytes} {skip n k : Nat} {p : UInt8 → Bool} (read : counted s skip n p = some k) : skip + n = k := by
  rw [counted] at read
  split at read
  · exact Option.some.inj read
  · cases read

theorem countedLocal {w : Bytes} {skip n k : Nat} {p : UInt8 → Bool} (read : counted (w ++ x) skip n p = some k)
    (inside : k ≤ w.length) (y : Bytes) : counted (w ++ y) skip n p = some k := by
  have long := countedSome read
  have same : ∀ z, ((w ++ z).drop skip).take n = (w.drop skip).take n := by
    intro z
    rw [List.drop_append_of_le_length (by omega), List.take_append_of_le_length (by rw [List.length_drop]; omega)]
  rw [counted, same] at read ⊢
  exact read

theorem escapeSome {closing : UInt8} {s : Bytes} {n : Nat} (read : escape? closing s = some n) : 0 < n := by
  cases s with
  | nil => cases read
  | cons b s =>
    rw [escapeIs] at read
    repeat' split at read
    · cases read; exact Nat.one_pos
    · have := countedSome read; omega
    · have := countedSome read; omega
    · have := countedSome read; omega
    · have := countedSome read; omega
    · cases read

theorem escapeLocal {closing : UInt8} {w : Bytes} {n : Nat} (read : escape? closing (w ++ x) = some n) (inside : n ≤ w.length)
    (y : Bytes) : escape? closing (w ++ y) = some n := by
  cases w with
  | nil =>
    have positive := escapeSome read
    rw [List.length_nil] at inside
    omega
  | cons b w =>
    rw [List.cons_append, escapeIs] at read ⊢
    by_cases simple : (b == closing || b == backslash || [97, 98, 102, 110, 114, 116, 118].contains b) = true
    · rwa [if_pos simple] at read ⊢
    · rw [if_neg simple] at read ⊢
      by_cases octal : isOctal b = true
      · rw [if_pos octal] at read ⊢
        exact countedLocal read inside y
      · rw [if_neg octal] at read ⊢
        by_cases hex : (b == 120) = true
        · rw [if_pos hex] at read ⊢
          exact countedLocal read inside y
        · rw [if_neg hex] at read ⊢
          by_cases short : (b == 117) = true
          · rw [if_pos short] at read ⊢
            exact countedLocal read inside y
          · rw [if_neg short] at read ⊢
            by_cases long : (b == 85) = true
            · rw [if_pos long] at read ⊢
              exact countedLocal read inside y
            · rw [if_neg long] at read
              cases read

theorem textEndIs (fuel : Nat) (b : UInt8) (s : Bytes) : textEnd? (fuel + 1) (b :: s) =
    if b == quote then some 1
    else if b == Bytes.lineFeed then none
    else if b == backslash then (escape? quote s).bind fun n => (textEnd? fuel (s.drop n)).map (· + n + 1)
    else (textEnd? fuel s).map (· + 1) := by
  rw [textEnd?]
  congr
  funext n
  cases textEnd? fuel (s.drop n) <;> rfl

theorem textEndSome {fuel n : Nat} {s : Bytes} (read : textEnd? fuel s = some n) : 0 < n := by
  cases fuel with
  | zero => cases read
  | succ fuel =>
    cases s with
    | nil => cases read
    | cons b s =>
      rw [textEndIs] at read
      repeat' split at read
      · cases read; exact Nat.one_pos
      · cases read
      · obtain ⟨k, -, more⟩ := Option.bind_eq_some_iff.mp read
        obtain ⟨m, -, rfl⟩ := Option.map_eq_some_iff.mp more
        exact Nat.succ_pos _
      · obtain ⟨m, -, rfl⟩ := Option.map_eq_some_iff.mp read
        exact Nat.succ_pos _

theorem textEndLocal {w : Bytes} {n fuel other : Nat} (read : textEnd? fuel (w ++ x) = some n) (inside : n ≤ w.length)
    (enough : w.length ≤ other) (y : Bytes) : textEnd? other (w ++ y) = some n := by
  induction fuel generalizing w n other with
  | zero => cases read
  | succ fuel ih =>
    cases w with
    | nil =>
      have positive := textEndSome read
      rw [List.length_nil] at inside
      omega
    | cons b w =>
      rw [List.length_cons] at inside enough
      obtain ⟨other, rfl⟩ : ∃ n, other = n + 1 := ⟨other - 1, by omega⟩
      rw [List.cons_append, textEndIs] at read ⊢
      -- Only an escape reads more than one byte, and it ends within `w` because the text does.
      by_cases closes : (b == quote) = true
      · rwa [if_pos closes] at read ⊢
      · rw [if_neg closes] at read ⊢
        by_cases feed : (b == Bytes.lineFeed) = true
        · rw [if_pos feed] at read
          cases read
        · rw [if_neg feed] at read ⊢
          by_cases escaped : (b == backslash) = true
          · rw [if_pos escaped] at read ⊢
            obtain ⟨k, escape, more⟩ := Option.bind_eq_some_iff.mp read
            obtain ⟨m, rest, rfl⟩ := Option.map_eq_some_iff.mp more
            have within : k ≤ w.length := by omega
            rw [List.drop_append_of_le_length within] at rest
            rw [escapeLocal escape within y, Option.bind_some, List.drop_append_of_le_length within,
              ih rest (by rw [List.length_drop]; omega) (by rw [List.length_drop]; omega)]
            rfl
          · rw [if_neg escaped] at read ⊢
            obtain ⟨m, rest, rfl⟩ := Option.map_eq_some_iff.mp read
            rw [ih rest (by omega) (by omega)]
            rfl

theorem rawEndLocal {w : Bytes} {n : Nat} (read : rawEnd? (w ++ x) = some n) (inside : n ≤ w.length) (y : Bytes) :
    rawEnd? (w ++ y) = some n := by
  induction w generalizing n with
  | nil =>
    obtain rfl : n = 0 := Nat.le_zero.mp inside
    cases x with
    | nil => cases read
    | cons b x =>
      rw [List.nil_append, rawEnd?] at read
      split at read
      · cases read
      · obtain ⟨m, -, none⟩ := Option.map_eq_some_iff.mp read
        omega
  | cons b w ih =>
    rw [List.length_cons] at inside
    rw [List.cons_append, rawEnd?] at read ⊢
    by_cases closes : (b == backquote) = true
    · rwa [if_pos closes] at read ⊢
    · rw [if_neg closes] at read ⊢
      obtain ⟨m, rest, rfl⟩ := Option.map_eq_some_iff.mp read
      rw [ih rest (by omega)]
      rfl

theorem matchedWithin {ranges : List (UInt8 × UInt8)} {w : Bytes} (all : Utf8.matched ranges (w ++ x) = ranges.length)
    (inside : ranges.length ≤ w.length) (y : Bytes) : Utf8.matched ranges (w ++ y) = ranges.length := by
  induction ranges generalizing w with
  | nil => rfl
  | cons r ranges ih =>
    rw [List.length_cons] at inside
    cases w with
    | nil => simp at inside
    | cons b w =>
      rw [List.length_cons] at inside
      rw [List.cons_append, Utf8.matched, List.length_cons] at all ⊢
      split at all
      · rename_i low
        rw [if_pos low, ih (by omega) (by omega)]
      · omega

theorem pieceWithin {lead : UInt8} {w : Bytes} {c : Char} {n : Nat} (read : Utf8.piece lead (w ++ x) = (some c, n))
    (inside : n ≤ w.length) (y : Bytes) : Utf8.piece lead (w ++ y) = (some c, n) := by
  rw [Utf8.piece] at read ⊢
  cases found : Utf8.tails lead with
  | none => rw [found] at read; cases read
  | some ranges =>
    rw [found] at read
    simp only at read ⊢
    split at read
    · rename_i all
      obtain ⟨char, long⟩ := Prod.mk.inj read
      have within : ranges.length ≤ w.length := by omega
      have same := matchedWithin all within y
      rw [if_pos same, same, List.take_append_of_le_length within]
      rw [all, List.take_append_of_le_length within] at char
      rw [char, ← all, long]
    · cases (Prod.mk.inj read).1

def runeInside? : Bytes → Option Nat
  | [] => none
  | b :: rest =>
    if b == backslash then (escape? apostrophe rest).map (· + 1)
    else if b == apostrophe || b == Bytes.lineFeed then none
    else (Utf8.next? (b :: rest)).map fun r => (b :: rest).length - r.2.length

theorem runeEndIs (s : Bytes) : runeEnd? s =
    (runeInside? s).bind fun n => if (s.drop n).head? == some apostrophe then some (n + 1) else none := by
  unfold runeEnd?
  cases s with
  | nil => rfl
  | cons b s =>
    simp only [runeInside?]
    split
    · rfl
    · split <;> rfl

theorem runeInsideLocal {w : Bytes} {n : Nat} (read : runeInside? (w ++ x) = some n) (inside : n < w.length) (y : Bytes) :
    runeInside? (w ++ y) = some n := by
  cases w with
  | nil => simp at inside
  | cons b w =>
    rw [List.length_cons] at inside
    rw [List.cons_append, runeInside?] at read ⊢
    by_cases escaped : (b == backslash) = true
    · rw [if_pos escaped] at read ⊢
      obtain ⟨k, escape, rfl⟩ := Option.map_eq_some_iff.mp read
      rw [escapeLocal escape (by omega) y]
      rfl
    · rw [if_neg escaped] at read ⊢
      by_cases none : (b == apostrophe || b == Bytes.lineFeed) = true
      · rw [if_pos none] at read
        cases read
      · rw [if_neg none] at read ⊢
        obtain ⟨⟨c, rest⟩, next, rfl⟩ := Option.map_eq_some_iff.mp read
        rw [Utf8.next?] at next ⊢
        have within := pieceInside b (w ++ x)
        cases piece : Utf8.piece b (w ++ x) with
        | mk char k =>
          rw [piece] at next within
          cases char with
          | none => cases next
          | some d =>
            cases next
            simp only [List.length_cons, List.length_drop, List.length_append] at inside within ⊢
            rw [pieceWithin piece (by omega) y]
            simp only [Option.map_some, List.length_drop, List.length_append]
            refine congrArg some ?_
            omega

theorem runeEndLocal {w : Bytes} {n : Nat} (read : runeEnd? (w ++ x) = some n) (inside : n ≤ w.length) (y : Bytes) :
    runeEnd? (w ++ y) = some n := by
  rw [runeEndIs] at read ⊢
  obtain ⟨k, within, closed⟩ := Option.bind_eq_some_iff.mp read
  split at closed
  · rename_i close
    cases closed
    rw [runeInsideLocal within inside y, Option.bind_some, if_pos ?_]
    rw [List.drop_append_of_le_length (by omega)] at close ⊢
    cases rest : w.drop k with
    | nil =>
      have long := congrArg List.length rest
      rw [List.length_drop, List.length_nil] at long
      omega
    | cons b rest' =>
      rw [rest] at close
      exact close
  · cases closed

theorem prefixLocal (fenced : Fenced x) {o : Bytes} (plain : ∀ b ∈ o, b ∉ fences) (w : Bytes) :
    o.isPrefixOf (w ++ x) = o.isPrefixOf w := by
  induction o generalizing w with
  | nil => rw [List.isPrefixOf_nil_left, List.isPrefixOf_nil_left]
  | cons b o ih =>
    cases w with
    | cons d w => exact congrArg (b == d && ·) (ih (fun c mem => plain c (List.mem_cons_of_mem _ mem)) w)
    | nil =>
      cases x with
      | nil => rfl
      | cons c x =>
        have differs : (b == c) = false := by
          rw [beq_eq_false_iff_ne]
          rintro rfl
          exact plain b List.mem_cons_self (fenced b rfl)
        show (b == c && o.isPrefixOf x) = false
        rw [differs, Bool.false_and]

theorem operatorLocal (fenced : Fenced x) {w : Bytes} (nonempty : w ≠ []) {o : Bytes × String} (mem : o ∈ operators) :
    startsWith (w ++ x) o.1 = startsWith w o.1 := by
  have plain : ∀ o ∈ operators, ∀ b ∈ o.1.tail, b ∉ fences := by decide +kernel
  have tail := plain o mem
  obtain ⟨bytes, spelling⟩ := o
  cases bytes with
  | nil => rw [startsWith, startsWith, List.isPrefixOf_nil_left, List.isPrefixOf_nil_left]
  | cons b o =>
    cases w with
    | nil => exact absurd rfl nonempty
    | cons d w => exact congrArg (b == d && ·) (prefixLocal fenced tail w)

theorem findCongr {α : Type} {p q : α → Bool} {l : List α} (same : ∀ a ∈ l, p a = q a) : l.find? p = l.find? q := by
  induction l with
  | nil => rfl
  | cons a l ih => rw [List.find?_cons, List.find?_cons, same a List.mem_cons_self,
      ih fun b mem => same b (List.mem_cons_of_mem _ mem)]

def closed (kind : Lexeme) : Option Nat → Lexeme × Nat
  | some n => (kind, n + 1)
  | none => (.invalid, 1)

def named (spelling : Bytes) : Lexeme := ((keywords.lookup spelling).map .symbol).getD .name

def operator (s : Bytes) : Option (Bytes × String) := operators.find? fun o => startsWith s o.1

def operated : Option (Bytes × String) → Lexeme × Nat
  | some (bytes, spelling) => (.symbol spelling, bytes.length)
  | none => (.invalid, 1)

theorem lexemeIs (fuel : Nat) (b : UInt8) (s : Bytes) : lexeme fuel (b :: s) =
    if 0 < name fuel (b :: s) then (named ((b :: s).take (name fuel (b :: s))), name fuel (b :: s))
    else if 0 < number (b :: s) then (.number, number (b :: s))
    else if b == quote then closed .text (textEnd? fuel s)
    else if b == backquote then closed .text (rawEnd? s)
    else if b == apostrophe then closed .rune (runeEnd? s)
    else operated (operator (b :: s)) := by
  rw [lexeme, named]
  generalize keywords.lookup _ = keyword
  cases keyword <;> rfl

theorem closedSome {kind l : Lexeme} {stop : Option Nat} {n : Nat} (read : closed kind stop = (l, n)) (valid : l ≠ .invalid) :
    ∃ k, stop = some k ∧ l = kind ∧ n = k + 1 := by
  cases stop with
  | none => cases read; exact absurd rfl valid
  | some k => cases read; exact ⟨k, rfl, rfl, rfl⟩

/-- A token in front of a fence, or a closed one, is what it is in front of any other text
that begins with a fence, whatever fuel there is. -/
theorem lexemeLocal (fencedX : Fenced x) (fencedY : Fenced y) {w : Bytes} {fuel other n : Nat} {l : Lexeme}
    (read : lexeme fuel (w ++ x) = (l, n)) (inside : n ≤ w.length) (nonempty : w ≠ []) (valid : l ≠ .invalid)
    (enough : w.length ≤ fuel) (also : w.length ≤ other) : lexeme other (w ++ y) = (l, n) := by
  have names := nameLocal fencedX fencedY w enough also
  have numbers : number (w ++ x) = number (w ++ y) := by rw [numberLocal fencedX, numberLocal fencedY]
  have operators : operator (w ++ x) = operator (w ++ y) := findCongr fun o mem =>
    (operatorLocal fencedX nonempty mem).trans (operatorLocal fencedY nonempty mem).symm
  cases w with
  | nil => exact absurd rfl nonempty
  | cons b w =>
    rw [List.cons_append] at names numbers operators read ⊢
    rw [lexemeIs] at read ⊢
    rw [List.cons_append] at names numbers operators
    rw [← names, ← numbers, ← operators]
    -- Names, numbers and operators end at the fence; what is quoted ends in its own bytes.
    by_cases isName : 0 < name fuel (b :: (w ++ x))
    · rw [if_pos isName] at read ⊢
      have kind : named ((b :: (w ++ x)).take (name fuel (b :: (w ++ x)))) = l := (Prod.mk.inj read).1
      have long : name fuel (b :: (w ++ x)) = n := (Prod.mk.inj read).2
      have same : ∀ z, (b :: (w ++ z)).take n = (b :: w).take n := by
        intro z
        rw [← List.cons_append, List.take_append_of_le_length inside]
      rw [long, same] at kind ⊢
      rw [kind]
    · rw [if_neg isName] at read ⊢
      by_cases numeric : 0 < number (b :: (w ++ x))
      · rw [if_pos numeric] at read ⊢
        exact read
      · rw [if_neg numeric] at read ⊢
        rw [List.length_cons] at inside enough also
        by_cases text : (b == quote) = true
        · rw [if_pos text] at read ⊢
          obtain ⟨k, stop, rfl, rfl⟩ := closedSome read valid
          rw [textEndLocal stop (by omega) (by omega) y]
          rfl
        · rw [if_neg text] at read ⊢
          by_cases raw : (b == backquote) = true
          · rw [if_pos raw] at read ⊢
            obtain ⟨k, stop, rfl, rfl⟩ := closedSome read valid
            rw [rawEndLocal stop (by omega) y]
            rfl
          · rw [if_neg raw] at read ⊢
            by_cases rune : (b == apostrophe) = true
            · rw [if_pos rune] at read ⊢
              obtain ⟨k, stop, rfl, rfl⟩ := closedSome read valid
              rw [runeEndLocal stop (by omega) y]
              rfl
            · rw [if_neg rune] at read ⊢
              exact read

end

theorem namePartInside (fuel : Nat) (w : Bytes) : namePart fuel w ≤ w.length := by
  induction fuel generalizing w with
  | zero => exact Nat.zero_le _
  | succ fuel ih =>
    cases w with
    | nil => exact Nat.le_refl 0
    | cons b w =>
      have next := ih w
      have inside := pieceInside b w
      rw [namePart, List.length_cons]
      split
      · omega
      · split
        · exact Nat.zero_le _
        · cases piece : Utf8.piece b w with
          | mk char n =>
            have skip := ih (w.drop n)
            rw [List.length_drop] at skip
            rw [piece] at inside
            cases char with
            | none => exact Nat.zero_le _
            | some c =>
              simp only
              split <;> omega

theorem nameInside (fuel : Nat) (w : Bytes) : name fuel w ≤ w.length := by
  have parts := namePartInside fuel w
  rw [name]
  split
  · split <;> omega
  · exact Nat.zero_le _

theorem textEndInside {fuel n : Nat} {w : Bytes} (read : textEnd? fuel w = some n) : n ≤ w.length := by
  induction fuel generalizing w n with
  | zero => cases read
  | succ fuel ih =>
    cases w with
    | nil => cases read
    | cons b w =>
      rw [List.length_cons]
      rw [textEndIs] at read
      repeat' split at read
      · cases read
        omega
      · cases read
      · obtain ⟨k, -, more⟩ := Option.bind_eq_some_iff.mp read
        obtain ⟨m, rest, rfl⟩ := Option.map_eq_some_iff.mp more
        have inside := ih rest
        have positive := textEndSome rest
        rw [List.length_drop] at inside
        omega
      · obtain ⟨m, rest, rfl⟩ := Option.map_eq_some_iff.mp read
        exact Nat.succ_le_succ (ih rest)

theorem rawEndInside {w : Bytes} {n : Nat} (read : rawEnd? w = some n) : n ≤ w.length := by
  induction w generalizing n with
  | nil => cases read
  | cons b w ih =>
    rw [List.length_cons]
    rw [rawEnd?] at read
    split at read
    · cases read
      omega
    · obtain ⟨m, rest, rfl⟩ := Option.map_eq_some_iff.mp read
      exact Nat.succ_le_succ (ih rest)

theorem runeEndInside {w : Bytes} {n : Nat} (read : runeEnd? w = some n) : n ≤ w.length := by
  rw [runeEndIs] at read
  obtain ⟨k, -, closed⟩ := Option.bind_eq_some_iff.mp read
  split at closed
  · rename_i close
    cases closed
    refine Nat.lt_of_not_le fun outside => ?_
    rw [List.drop_of_length_le outside] at close
    cases close
  · cases closed

theorem lexemeInside {fuel n : Nat} {b : UInt8} {s : Bytes} {l : Lexeme} (read : lexeme fuel (b :: s) = (l, n)) :
    0 < n ∧ n ≤ s.length + 1 := by
  have names := nameInside fuel (b :: s)
  have numbers := numberLe (b :: s)
  have quoted : ∀ {kind stop}, closed kind stop = (l, n) → (∀ k, stop = some k → k ≤ s.length) → 0 < n ∧ n ≤ s.length + 1 := by
    intro kind stop read inside
    cases stop with
    | none => cases read; omega
    | some k => cases read; have := inside k rfl; omega
  rw [List.length_cons] at names numbers
  rw [lexemeIs] at read
  by_cases isName : 0 < name fuel (b :: s)
  · rw [if_pos isName] at read
    have long : name fuel (b :: s) = n := (Prod.mk.inj read).2
    omega
  · rw [if_neg isName] at read
    by_cases numeric : 0 < number (b :: s)
    · rw [if_pos numeric] at read
      have long : number (b :: s) = n := (Prod.mk.inj read).2
      omega
    · rw [if_neg numeric] at read
      repeat' split at read
      · exact quoted read fun _ stop => textEndInside stop
      · exact quoted read fun _ stop => rawEndInside stop
      · exact quoted read fun _ stop => runeEndInside stop
      · cases found : operator (b :: s) with
        | none => rw [found] at read; cases read; omega
        | some o =>
          rw [found] at read
          have long : o.1.length = n := (Prod.mk.inj read).2
          have nonempty : ∀ o ∈ operators, 0 < o.1.length := by decide +kernel
          rw [operator] at found
          have positive := nonempty o (List.mem_of_find?_eq_some found)
          have starts := List.find?_some found
          have inside := (List.isPrefixOf_iff_prefix.mp starts).length_le
          rw [List.length_cons] at inside
          omega

end ExitSpacing.Go.Scan
