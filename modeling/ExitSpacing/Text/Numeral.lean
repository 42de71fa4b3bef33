import ExitSpacing.Text.Class

/-! Whole numbers written out: an optional sign and decimal digits, single
underscores between them allowed. -/
namespace ExitSpacing.Text

/-- The number that `digits` goes on from `value`; an underscore stands before a digit. -/
def digitsFrom (digit : Char → Option Nat) (value : Nat) : List Char → Option Nat
  | [] => some value
  | '_' :: c :: rest => do digitsFrom digit (value * 10 + (← digit c)) rest
  | c :: rest => do digitsFrom digit (value * 10 + (← digit c)) rest

def natural? (digit : Char → Option Nat) : List Char → Option Nat
  | [] => none
  | c :: rest => do digitsFrom digit (← digit c) rest

def signed? (natural : List Char → Option Nat) : List Char → Option Int
  | '-' :: rest => (natural rest).map fun n => -(n : Int)
  | '+' :: rest => (natural rest).map Int.ofNat
  | cs => (natural cs).map Int.ofNat

def trim (p : Char → Bool) (cs : List Char) : List Char :=
  ((cs.dropWhile p).reverse.dropWhile p).reverse

def integer? (s : String) : Option Int := signed? (natural? digitValue?) (trim isBlank s.toList)

def asciiDigit? (c : Char) : Option Nat := if c.isDigit then some (c.toNat - '0'.toNat) else none

/-- ASCII digits with perhaps a point and zeros behind them, white space around. -/
def wholeDecimal? (s : String) : Option Int :=
  signed? (fun cs =>
    if ((cs.dropWhile (· != '.')).drop 1).all (· == '0') then natural? asciiDigit? (cs.takeWhile (· != '.'))
    else none) (trim isWhite s.toList)

example : integer? " +1_000 " = some 1000 := by decide +kernel
example : integer? "1__0" = none := by decide +kernel
example : wholeDecimal? "-007.0" = some (-7) := by decide +kernel

end ExitSpacing.Text
