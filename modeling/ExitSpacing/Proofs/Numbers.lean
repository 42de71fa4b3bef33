import ExitSpacing.Go.Token

/-! A number is read from its own bytes: what stands behind it matters only through the
byte that ends it, and a blank, a semicolon and a slash end it alike. -/
namespace ExitSpacing.Go.Scan

/-- The bytes that no token goes on with: the blanks, the semicolon and the slash. -/
def fences : List UInt8 := [9, 10, 11, 12, 13, 32, 59, 47]

def Fenced (s : Bytes) : Prop := ∀ c ∈ s.head?, c ∈ fences

def Unfenced (p : UInt8 → Bool) : Prop := ∀ c ∈ fences, p c = false
instance (p) : Decidable (Unfenced p) := List.decidableBAll (fun c => p c = false) fences

section
variable {p : UInt8 → Bool} {x : Bytes}

theorem Fenced.any (fenced : Fenced x) (outside : Unfenced p) (w : Bytes) : (w ++ x).head?.any p = w.head?.any p := by
  cases w with
  | cons b w => rfl
  | nil =>
    cases x with
    | nil => rfl
    | cons c x => exact outside c (fenced c rfl)

theorem Fenced.head (fenced : Fenced x) {b : UInt8} (other : b ∉ fences) (w : Bytes) :
    ((w ++ x).head? == some b) = (w.head? == some b) := by
  cases w with
  | cons d w => rfl
  | nil =>
    cases x with
    | nil => rfl
    | cons c x =>
      have differs : c ≠ b := by
        rintro rfl
        exact other (fenced c rfl)
      show (some c == some b) = false
      simpa using differs

theorem digitsLe (p : UInt8 → Bool) (w : Bytes) : digits p w ≤ w.length := by
  induction w with
  | nil => exact Nat.le_refl 0
  | cons b w ih =>
    rw [digits, List.length_cons]
    split <;> omega

theorem digitsLocal (fenced : Fenced x) (outside : Unfenced p) (w : Bytes) : digits p (w ++ x) = digits p w := by
  induction w with
  | nil =>
    cases x with
    | nil => rfl
    | cons c x =>
      have fence := fenced c rfl
      have under : (c == underscore) = false := (by decide : Unfenced (· == underscore)) c fence
      show (if p c || (c == underscore && x.head?.any p) then digits p x + 1 else 0) = 0
      rw [outside c fence, under]
      rfl
  | cons b w ih => rw [List.cons_append, digits, digits, ih, fenced.any outside]

theorem properDigitsLe (p : UInt8 → Bool) (w : Bytes) : properDigits p w ≤ w.length := by
  rw [properDigits]
  split
  · exact digitsLe p w
  · exact Nat.zero_le _

theorem properDigitsLocal (fenced : Fenced x) (outside : Unfenced p) (w : Bytes) :
    properDigits p (w ++ x) = properDigits p w := by
  rw [properDigits, properDigits, fenced.any outside, digitsLocal fenced outside]

theorem fractionLe (p : UInt8 → Bool) (w : Bytes) : fraction p w ≤ w.length := by
  rw [fraction]
  cases w with
  | nil => exact Nat.le_refl 0
  | cons b w =>
    have bound := properDigitsLe p w
    split
    · rw [List.drop_one, List.tail_cons, List.length_cons]
      omega
    · exact Nat.zero_le _

theorem fractionLocal (fenced : Fenced x) (outside : Unfenced p) (w : Bytes) :
    fraction p (w ++ x) = fraction p w := by
  rw [fraction, fraction, fenced.head (by decide)]
  cases w with
  | nil => rfl
  | cons b w =>
    rw [List.cons_append, List.drop_one, List.drop_one, List.tail_cons, List.tail_cons, properDigitsLocal fenced outside]

theorem signLe (w : Bytes) : (if w.head?.any [43, 45].contains then 1 else 0) ≤ w.length := by
  cases w with
  | nil => exact Nat.le_refl 0
  | cons d w =>
    rw [List.length_cons]
    split <;> omega

theorem exponentLe (marks : List UInt8) (w : Bytes) : exponent marks w ≤ w.length := by
  cases w with
  | nil => exact Nat.le_refl 0
  | cons b w =>
    have signed := signLe w
    simp only [exponent]
    generalize (if w.head?.any [43, 45].contains then 1 else 0) = sign at signed ⊢
    have bound := properDigitsLe isDecimal (w.drop sign)
    rw [List.length_drop] at bound
    rw [List.length_cons]
    split
    · split <;> omega
    · omega

theorem exponentLocal (fenced : Fenced x) {marks : List UInt8} (outside : Unfenced marks.contains) (w : Bytes) :
    exponent marks (w ++ x) = exponent marks w := by
  cases w with
  | nil =>
    cases x with
    | nil => rfl
    | cons c x =>
      rw [List.nil_append, exponent, outside c (fenced c rfl)]
      rfl
  | cons b w =>
    have sign : (w ++ x).head?.any [43, 45].contains = w.head?.any [43, 45].contains :=
      fenced.any (by decide) w
    simp only [List.cons_append, exponent, sign]
    rw [List.drop_append_of_le_length (signLe w), properDigitsLocal fenced (by decide)]

def based (letters : List UInt8) (s : Bytes) : Bool := s.head? == some 48 && (s.drop 1).head?.any letters.contains

def basedForm (letters : List UInt8) (p : UInt8 → Bool) (s : Bytes) : Nat :=
  if based letters s then (if digits p (s.drop 2) = 0 then 0 else digits p (s.drop 2) + 2) else 0

def integerForm (s : Bytes) : Nat :=
  if s.head? == some 48 then 1 + digits isOctal (s.drop 1) else properDigits isDecimal s

structure Float where
  whole : Nat
  point : Nat
  power : Nat

def floatForm (p : UInt8 → Bool) (marks : List UInt8) (start whole : Nat) (s : Bytes) : Float :=
  let point := fraction p (s.drop (start + whole))
  ⟨whole, point, exponent marks (s.drop (start + whole + point))⟩

def floatLength (s : Bytes) : Nat :=
  let f := floatForm isDecimal [69, 101] 0 (properDigits isDecimal s) s
  if (f.whole = 0 && f.point ≤ 1) || (f.point = 0 && f.power = 0) then 0 else f.whole + f.point + f.power

def hexFloatLength (s : Bytes) : Nat :=
  if based [88, 120] s then
    let f := floatForm isHex [80, 112] 2 (digits isHex (s.drop 2)) s
    if f.power = 0 || (f.whole = 0 && f.point ≤ 1) then 0 else 2 + f.whole + f.point + f.power
  else 0

theorem formsAre (s : Bytes) : numberForms s = [integerForm s, basedForm [66, 98] isBinary s, basedForm [79, 111] isOctal s,
    basedForm [88, 120] isHex s, floatLength s, hexFloatLength s] := by
  simp only [numberForms, integerForm, basedForm, based, floatLength, floatForm, hexFloatLength, Nat.zero_add]
  rfl

theorem basedLong {letters : List UInt8} {w : Bytes} (front : based letters w = true) : 2 ≤ w.length := by
  rcases w with _ | ⟨b, _ | ⟨d, w⟩⟩
  · cases front
  · simp [based] at front
  · simp

theorem basedLocal (fenced : Fenced x) {letters : List UInt8} (outside : Unfenced letters.contains) (w : Bytes) :
    based letters (w ++ x) = based letters w := by
  rw [based, based, fenced.head (by decide)]
  cases w with
  | nil => rfl
  | cons b w => rw [List.cons_append, List.drop_one, List.drop_one, List.tail_cons, List.tail_cons, fenced.any outside]

theorem basedFormLocal (fenced : Fenced x) {letters : List UInt8} (marks : Unfenced letters.contains)
    (outside : Unfenced p) (w : Bytes) : basedForm letters p (w ++ x) = basedForm letters p w := by
  rw [basedForm, basedForm, basedLocal fenced marks]
  split
  · rename_i front
    rw [List.drop_append_of_le_length (basedLong front), digitsLocal fenced outside]
  · rfl

theorem basedFormLe (letters : List UInt8) (p : UInt8 → Bool) (w : Bytes) : basedForm letters p w ≤ w.length := by
  rw [basedForm]
  split
  · rename_i front
    have long := basedLong front
    have bound := digitsLe p (w.drop 2)
    rw [List.length_drop] at bound
    split <;> omega
  · exact Nat.zero_le _

theorem integerFormLocal (fenced : Fenced x) (w : Bytes) : integerForm (w ++ x) = integerForm w := by
  rw [integerForm, integerForm, fenced.head (by decide), properDigitsLocal fenced (by decide)]
  cases w with
  | nil => rfl
  | cons b w =>
    rw [List.cons_append, List.drop_one, List.drop_one, List.tail_cons, List.tail_cons, digitsLocal fenced (by decide)]

theorem integerFormLe (w : Bytes) : integerForm w ≤ w.length := by
  rw [integerForm]
  cases w with
  | nil => exact Nat.le_refl 0
  | cons b w =>
    have octal := digitsLe isOctal w
    have whole := properDigitsLe isDecimal (b :: w)
    split
    · rw [List.drop_one, List.tail_cons, List.length_cons]
      omega
    · exact whole

theorem floatFormLocal (fenced : Fenced x) {marks : List UInt8} (outside : Unfenced p)
    (letters : Unfenced marks.contains) {start whole : Nat} (w : Bytes) (inside : start + whole ≤ w.length) :
    floatForm p marks start whole (w ++ x) = floatForm p marks start whole w := by
  have point := fractionLe p (w.drop (start + whole))
  rw [List.length_drop] at point
  simp only [floatForm]
  rw [List.drop_append_of_le_length inside, fractionLocal fenced outside,
    List.drop_append_of_le_length (by omega), exponentLocal fenced letters]

theorem floatFormLe (p : UInt8 → Bool) (marks : List UInt8) {start whole : Nat} (w : Bytes) (inside : start + whole ≤ w.length) :
    start + (floatForm p marks start whole w).whole + (floatForm p marks start whole w).point +
      (floatForm p marks start whole w).power ≤ w.length := by
  have point := fractionLe p (w.drop (start + whole))
  have power := exponentLe marks (w.drop (start + whole + fraction p (w.drop (start + whole))))
  rw [List.length_drop] at point power
  simp only [floatForm]
  omega

theorem floatLengthLocal (fenced : Fenced x) (w : Bytes) : floatLength (w ++ x) = floatLength w := by
  have inside := properDigitsLe isDecimal w
  rw [floatLength, floatLength, properDigitsLocal fenced (by decide),
    floatFormLocal fenced (by decide) (by decide) w (by omega)]

theorem floatLengthLe (w : Bytes) : floatLength w ≤ w.length := by
  have inside := properDigitsLe isDecimal w
  have bound := floatFormLe isDecimal [69, 101] w (by omega : 0 + properDigits isDecimal w ≤ w.length)
  simp only [floatLength]
  split <;> omega

theorem hexFloatLengthLocal (fenced : Fenced x) (w : Bytes) : hexFloatLength (w ++ x) = hexFloatLength w := by
  rw [hexFloatLength, hexFloatLength, basedLocal fenced (by decide)]
  split
  · rename_i front
    have long := basedLong front
    have inside := digitsLe isHex (w.drop 2)
    rw [List.length_drop] at inside
    rw [List.drop_append_of_le_length long, digitsLocal fenced (by decide),
      floatFormLocal fenced (by decide) (by decide) w (by omega)]
  · rfl

theorem hexFloatLengthLe (w : Bytes) : hexFloatLength w ≤ w.length := by
  rw [hexFloatLength]
  split
  · rename_i front
    have long := basedLong front
    have inside := digitsLe isHex (w.drop 2)
    rw [List.length_drop] at inside
    have bound := floatFormLe isHex [80, 112] w (by omega : 2 + digits isHex (w.drop 2) ≤ w.length)
    dsimp only
    split <;> omega
  · exact Nat.zero_le _

theorem formsLocal (fenced : Fenced x) (w : Bytes) : numberForms (w ++ x) = numberForms w := by
  rw [formsAre, formsAre, integerFormLocal fenced, basedFormLocal fenced (by decide) (by decide),
    basedFormLocal fenced (by decide) (by decide), basedFormLocal fenced (by decide) (by decide),
    floatLengthLocal fenced, hexFloatLengthLocal fenced]

theorem formsLe (w : Bytes) : ∀ n ∈ numberForms w, n ≤ w.length := by
  rw [formsAre]
  simp only [List.forall_mem_cons]
  exact ⟨integerFormLe w, basedFormLe _ _ w, basedFormLe _ _ w, basedFormLe _ _ w, floatLengthLe w, hexFloatLengthLe w,
    fun _ none => nomatch none⟩

theorem numberLocal (fenced : Fenced x) (w : Bytes) : number (w ++ x) = number w := by
  have unit : ∀ n ≤ w.length, (if 0 < n && ((w ++ x).drop n).head? == some 105 then n + 1 else 0) =
      if 0 < n && (w.drop n).head? == some 105 then n + 1 else 0 := by
    intro n inside
    rw [List.drop_append_of_le_length inside, fenced.head (by decide)]
  have each : ∀ n ∈ properDigits isDecimal w :: numberForms w, n ≤ w.length := by
    rw [List.forall_mem_cons]
    exact ⟨properDigitsLe isDecimal w, formsLe w⟩
  simp only [number]
  rw [formsLocal fenced, properDigitsLocal fenced (by decide)]
  exact congrArg (fun units => (numberForms w ++ units).foldl max 0) (List.map_congr_left fun n mem => unit n (each n mem))

end

theorem numberLe (w : Bytes) : number w ≤ w.length := by
  have unit : ∀ n ≤ w.length, (if 0 < n && (w.drop n).head? == some 105 then n + 1 else 0) ≤ w.length := by
    intro n inside
    split
    · rename_i both
      refine Nat.lt_of_not_le fun outside => ?_
      rw [List.drop_of_length_le outside] at both
      simp at both
    · exact Nat.zero_le _
  have forms := formsLe w
  have each : ∀ n ∈ properDigits isDecimal w :: numberForms w, n ≤ w.length := by
    rw [List.forall_mem_cons]
    exact ⟨properDigitsLe isDecimal w, forms⟩
  simp only [number]
  generalize numberForms w = lengths, properDigits isDecimal w = whole at forms each ⊢
  have next : ∀ m ≤ w.length, ∀ n ∈ lengths ++ (whole :: lengths).map (fun n =>
      if 0 < n && (w.drop n).head? == some 105 then n + 1 else 0), max m n ≤ w.length := by
    intro m bound n mem
    refine Nat.max_le.mpr ⟨bound, ?_⟩
    rcases List.mem_append.mp mem with form | imaginary
    · exact forms n form
    · obtain ⟨k, inside, rfl⟩ := List.mem_map.mp imaginary
      exact unit k (each k inside)
  exact List.foldlRecOn (motive := (· ≤ w.length)) _ max (Nat.zero_le _) next

end ExitSpacing.Go.Scan
