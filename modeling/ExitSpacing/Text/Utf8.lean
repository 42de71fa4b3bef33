import ExitSpacing.Bytes

/-! UTF-8: which bytes may follow a lead byte, and reading a text in which each
longest ill-formed part is replaced by one U+FFFD. -/
namespace ExitSpacing.Utf8

def tails (lead : UInt8) : Option (List (UInt8 × UInt8)) :=
  if lead < 0x80 then some []
  else if lead < 0xC2 then none
  else if lead < 0xE0 then some [(0x80, 0xBF)]
  else if lead == 0xE0 then some [(0xA0, 0xBF), (0x80, 0xBF)]
  else if lead == 0xED then some [(0x80, 0x9F), (0x80, 0xBF)]
  else if lead < 0xF0 then some [(0x80, 0xBF), (0x80, 0xBF)]
  else if lead == 0xF0 then some [(0x90, 0xBF), (0x80, 0xBF), (0x80, 0xBF)]
  else if lead < 0xF4 then some [(0x80, 0xBF), (0x80, 0xBF), (0x80, 0xBF)]
  else if lead == 0xF4 then some [(0x80, 0x8F), (0x80, 0xBF), (0x80, 0xBF)]
  else none

def matched : List (UInt8 × UInt8) → Bytes → Nat
  | (low, high) :: ranges, b :: rest => if low ≤ b && b ≤ high then matched ranges rest + 1 else 0
  | _, _ => 0

def value (lead : UInt8) (tail : Bytes) : Nat :=
  let start := match tail.length with
    | 0 => lead.toNat
    | 1 => lead.toNat % 32
    | 2 => lead.toNat % 16
    | _ => lead.toNat % 8
  tail.foldl (fun n b => n * 64 + b.toNat % 64) start

/-- The character at the front of `lead :: rest`, when it is well formed, and how
much of `rest` belongs to it or to the ill-formed part. -/
def piece (lead : UInt8) (rest : Bytes) : Option Char × Nat :=
  match tails lead with
  | none => (none, 0)
  | some ranges =>
    let n := matched ranges rest
    if n = ranges.length then (some (Char.ofNat (value lead (rest.take n))), n) else (none, n)

def next? : Bytes → Option (Char × Bytes)
  | [] => none
  | lead :: rest => match piece lead rest with
    | (some c, n) => some (c, rest.drop n)
    | (none, _) => none

/-- The text of `s` with U+FFFD for each longest ill-formed part. -/
def lossy : Bytes → List Char
  | [] => []
  | lead :: rest => ((piece lead rest).1.getD '\uFFFD') :: lossy (rest.drop (piece lead rest).2)
termination_by s => s.length

def decodeLossy (s : Bytes) : String := String.ofList (lossy s)

end ExitSpacing.Utf8
