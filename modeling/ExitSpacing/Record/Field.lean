import ExitSpacing.Record.Issue
import ExitSpacing.Text.Numeral

/-! Reading typed fields out of loosely typed values: numbers may be written as
text, flags as words. Every field is read, so a record shows all its issues. -/
namespace ExitSpacing

inductive Value where
  | null
  | boolean (b : Bool)
  | integer (n : Int)
  /-- `mantissa` divided by ten to the power of `scale`. -/
  | decimal (mantissa : Int) (scale : Nat)
  | text (s : String)
  | list (items : List Value)
  | record (fields : List (String × Value))
  deriving Inhabited

namespace Value

def whole? (mantissa : Int) (scale : Nat) : Option Int :=
  let unit : Int := Nat.pow 10 scale
  if mantissa % unit = 0 then some (mantissa / unit) else none

def toInteger : Value → Except Problem Int
  | boolean b => .ok (if b then 1 else 0)
  | integer n => .ok n
  | decimal mantissa scale => match whole? mantissa scale with
    | some n => .ok n
    | none => .error .fraction
  | text s => match Text.wholeDecimal? s with
    | some n => .ok n
    | none => .error .integerText
  | _ => .error .integerType

def toNatural (v : Value) : Except Problem Nat := do
  let n ← v.toInteger
  if n < 0 then .error .negative else .ok n.toNat

def toPositive (v : Value) : Except Problem { n : Nat // 0 < n } := do
  let n ← v.toInteger
  if h : 0 < n then .ok ⟨n.toNat, by omega⟩ else .error .notPositive

def trueWords : List String := ["1", "t", "y", "yes", "on", "true"]
def falseWords : List String := ["0", "f", "n", "no", "off", "false"]

def fitsWord (n : Int) : Bool := -0x8000000000000000 ≤ n && n ≤ 0x7FFFFFFFFFFFFFFF

/-- Numbers other than 0 and 1 are no flags; beyond a word they are not even tried. -/
def flagOfInteger (n : Int) : Except Problem Bool :=
  if n = 0 then .ok false
  else if n = 1 then .ok true
  else if fitsWord n then .error .booleanValue
  else .error .booleanType

def toFlag : Value → Except Problem Bool
  | boolean b => .ok b
  | integer n => flagOfInteger n
  | decimal mantissa scale => match whole? mantissa scale with
    | some n => flagOfInteger n
    | none => .error .booleanType
  | text s =>
    let word := s.map Char.toLower
    if trueWords.contains word then .ok true
    else if falseWords.contains word then .ok false
    else .error .booleanValue
  | _ => .error .booleanType

def toText : Value → Except Problem String
  | text s => .ok s
  | _ => .error .textType

end Value

abbrev Checked := Except (List Issue)

namespace Checked

def also (f : Checked (α → β)) (x : Checked α) : Checked β :=
  match f, x with
  | .ok f, .ok x => .ok (f x)
  | .ok _, .error issues => .error issues
  | .error issues, .ok _ => .error issues
  | .error first, .error second => .error (first ++ second)

def all : List (Checked α) → Checked (List α)
  | [] => .ok []
  | x :: rest => also (x.map List.cons) (all rest)

def under (name : String) (x : Checked α) : Checked α := x.mapError (·.map (Issue.under name))

end Checked

abbrev Fields := List (String × Value)

namespace Fields

def required (fields : Fields) (name : String) (read : Value → Except Problem α) : Checked α :=
  match fields.lookup name with
  | none => .error [⟨[name], .missing⟩]
  | some v => (read v).mapError fun p => [⟨[name], p⟩]

def optional (fields : Fields) (name : String) (default : α) (read : Value → Except Problem α) :
    Checked α :=
  match fields.lookup name with
  | none => .ok default
  | some v => (read v).mapError fun p => [⟨[name], p⟩]

end Fields
end ExitSpacing
