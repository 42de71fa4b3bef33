import ExitSpacing.Syntax.Node
import ExitSpacing.Text.Class
import ExitSpacing.Text.Utf8

/-! Tokens of Go source. Every text has tokens: bytes that begin no token make an
invalid one. Line feeds are no tokens; whether one ends a statement is for the
grammar to say, so a token records that it comes after one outside comments. What is
looked for at the front of a text is told by its length, 0 or none where it is not there. -/
namespace ExitSpacing.Go
open Bytes (startsWith)

inductive Lexeme where
  | name
  | number
  | rune
  | text
  | symbol (spelling : String)
  | invalid
  deriving DecidableEq, Repr

structure Token where
  lexeme : Lexeme
  fresh : Bool
  start : Point
  stop : Point
  deriving DecidableEq, Repr

def openBrace : String := "\x7b"
def closeBrace : String := "\x7d"

def keywords : List (Bytes × String) :=
  ["break", "case", "chan", "const", "continue", "default", "defer", "else", "fallthrough",
   "for", "func", "go", "goto", "if", "import", "interface", "map", "package", "range",
   "return", "select", "struct", "switch", "type", "var"].map fun k => (Bytes.ofString k, k)

/-- Longer operators stand before those they begin with. -/
def operators : List (Bytes × String) :=
  ["<<=", ">>=", "&^=", "...", "&&", "||", "<-", "++", "--", "==", "!=", "<=", ">=", ":=",
   "+=", "-=", "*=", "/=", "%=", "&=", "|=", "^=", "<<", ">>", "&^", "+", "-", "*", "/", "%",
   "&", "|", "^", "<", ">", "=", "!", "(", ")", "[", "]", openBrace, closeBrace, ",", ";", ".", ":",
   "~"].map fun o => (Bytes.ofString o, o)

namespace Scan

def slash : UInt8 := 47
def star : UInt8 := 42
def quote : UInt8 := 34
def apostrophe : UInt8 := 39
def backquote : UInt8 := 96
def backslash : UInt8 := 92
def underscore : UInt8 := 95
def dot : UInt8 := 46

def between (low high b : UInt8) : Bool := low ≤ b && b ≤ high
def isDecimal : UInt8 → Bool := between 48 57
def isOctal : UInt8 → Bool := between 48 55
def isBinary : UInt8 → Bool := between 48 49
def isHex (b : UInt8) : Bool := isDecimal b || between 65 70 b || between 97 102 b
def isAsciiLetter (b : UInt8) : Bool := between 65 90 b || between 97 122 b || b == underscore

def commentEnd? : Bytes → Option Nat
  | [] => none
  | b :: rest =>
    if b == star && rest.head? == some slash then some 2 else (commentEnd? rest).map (· + 1)

def gap : Nat → Bytes → Nat × Bool
  | 0, _ => (0, false)
  | _, [] => (0, false)
  | fuel + 1, b :: rest =>
    if Bytes.isBlank b then
      let more := gap fuel rest
      (more.1 + 1, more.2 || b == Bytes.lineFeed)
    else if b == slash && rest.head? == some slash then
      let inside := rest.takeWhile (· != Bytes.lineFeed)
      let more := gap fuel (rest.drop inside.length)
      (more.1 + inside.length + 1, more.2)
    else if b == slash && rest.head? == some star then
      match commentEnd? (rest.drop 1) with
      | some n =>
        let more := gap fuel (rest.drop (n + 1))
        (more.1 + n + 2, more.2)
      | none => (0, false)
    else (0, false)

def digits (p : UInt8 → Bool) : Bytes → Nat
  | [] => 0
  | b :: rest =>
    if p b || (b == underscore && rest.head?.any p) then digits p rest + 1 else 0

def properDigits (p : UInt8 → Bool) (s : Bytes) : Nat := if s.head?.any p then digits p s else 0

def exponent (marks : List UInt8) (s : Bytes) : Nat :=
  match s with
  | mark :: rest =>
    if marks.contains mark then
      let sign := if rest.head?.any [43, 45].contains then 1 else 0
      let n := properDigits isDecimal (rest.drop sign)
      if n = 0 then 0 else 1 + sign + n
    else 0
  | [] => 0

def fraction (p : UInt8 → Bool) (s : Bytes) : Nat :=
  if s.head? == some dot then 1 + properDigits p (s.drop 1) else 0

def numberForms (s : Bytes) : List Nat :=
  let whole := properDigits isDecimal s
  let based (letters : List UInt8) (p : UInt8 → Bool) : Nat :=
    if s.head? == some 48 && (s.drop 1).head?.any letters.contains then
      let n := digits p (s.drop 2)
      if n = 0 then 0 else n + 2
    else 0
  let integer :=
    if s.head? == some 48 then 1 + digits isOctal (s.drop 1) else whole
  let float :=
    let point := fraction isDecimal (s.drop whole)
    let power := exponent [69, 101] (s.drop (whole + point))
    if (whole = 0 && point ≤ 1) || (point = 0 && power = 0) then 0 else whole + point + power
  let hexFloat :=
    if s.head? == some 48 && (s.drop 1).head?.any [88, 120].contains then
      let mantissa := digits isHex (s.drop 2)
      let point := fraction isHex (s.drop (2 + mantissa))
      let power := exponent [80, 112] (s.drop (2 + mantissa + point))
      if power = 0 || (mantissa = 0 && point ≤ 1) then 0 else 2 + mantissa + point + power
    else 0
  [integer, based [66, 98] isBinary, based [79, 111] isOctal, based [88, 120] isHex, float, hexFloat]

/-- The length of the longest number at the front. An imaginary unit may end any
of them, and a run of decimal digits that begins with 0 as well. -/
def number (s : Bytes) : Nat :=
  let unit (n : Nat) : Nat := if 0 < n && (s.drop n).head? == some 105 then n + 1 else 0
  (numberForms s ++ (properDigits isDecimal s :: numberForms s).map unit).foldl max 0

def escape? (closing : UInt8) (s : Bytes) : Option Nat :=
  let counted (skip n : Nat) (p : UInt8 → Bool) : Option Nat :=
    let body := (s.drop skip).take n
    if body.length = n && body.all p then some (skip + n) else none
  match s with
  | [] => none
  | b :: _ =>
    if b == closing || b == backslash || [97, 98, 102, 110, 114, 116, 118].contains b then some 1
    else if isOctal b then counted 0 3 isOctal
    else if b == 120 then counted 1 2 isHex
    else if b == 117 then counted 1 4 isHex
    else if b == 85 then counted 1 8 isHex
    else none

def textEnd? : Nat → Bytes → Option Nat
  | 0, _ => none
  | _, [] => none
  | fuel + 1, b :: rest =>
    if b == quote then some 1
    else if b == Bytes.lineFeed then none
    else if b == backslash then do
      let n ← escape? quote rest
      let more ← textEnd? fuel (rest.drop n)
      some (more + n + 1)
    else (textEnd? fuel rest).map (· + 1)

def rawEnd? : Bytes → Option Nat
  | [] => none
  | b :: rest => if b == backquote then some 1 else (rawEnd? rest).map (· + 1)

def runeEnd? (s : Bytes) : Option Nat := do
  let n ← match s with
    | [] => none
    | b :: rest =>
      if b == backslash then (escape? apostrophe rest).map (· + 1)
      else if b == apostrophe || b == Bytes.lineFeed then none
      else (Utf8.next? s).map fun r => s.length - r.2.length
  if (s.drop n).head? == some apostrophe then some (n + 1) else none

def isNamePart (c : Char) : Bool := c == '_' || Text.isLetter c || Text.isDigit c

def namePart : Nat → Bytes → Nat
  | 0, _ => 0
  | _, [] => 0
  | fuel + 1, b :: rest =>
    if isAsciiLetter b || isDecimal b then namePart fuel rest + 1
    else if b < 128 then 0
    else match Utf8.piece b rest with
      | (some c, n) => if isNamePart c then namePart fuel (rest.drop n) + n + 1 else 0
      | (none, _) => 0

def name (fuel : Nat) (s : Bytes) : Nat :=
  match Utf8.next? s with
  | some (c, _) => if c == '_' || Text.isLetter c then namePart fuel s else 0
  | none => 0

def lexeme (fuel : Nat) (s : Bytes) : Lexeme × Nat :=
  let closed (kind : Lexeme) (stop : Option Nat) : Lexeme × Nat :=
    match stop with
    | some n => (kind, n + 1)
    | none => (.invalid, 1)
  let n := name fuel s
  if 0 < n then
    match keywords.lookup (s.take n) with
    | some spelling => (.symbol spelling, n)
    | none => (.name, n)
  else
    let k := number s
    if 0 < k then (.number, k)
    else match s with
      | [] => (.invalid, 1)
      | b :: rest =>
        if b == quote then closed .text (textEnd? fuel rest)
        else if b == backquote then closed .text (rawEnd? rest)
        else if b == apostrophe then closed .rune (runeEnd? rest)
        else match operators.find? fun o => startsWith s o.1 with
          | some (bytes, spelling) => (.symbol spelling, bytes.length)
          | none => (.invalid, 1)

end Scan

def tokensFrom : Nat → Point → Bytes → List Token
  | 0, _, _ => []
  | fuel + 1, p, s =>
    let (blank, fresh) := Scan.gap fuel s
    let start := (s.take blank).foldl Point.after p
    let body := s.drop blank
    if body.isEmpty then []
    else
      let (lexeme, n) := Scan.lexeme fuel body
      let stop := (body.take n).foldl Point.after start
      ⟨lexeme, fresh, start, stop⟩ :: tokensFrom fuel stop (body.drop n)

def byteOrderMark : Bytes := [0xEF, 0xBB, 0xBF]

def tokens (s : Bytes) : List Token :=
  let mark := if startsWith s byteOrderMark then byteOrderMark.length else 0
  tokensFrom (s.length + 1) ((s.take mark).foldl Point.after {}) (s.drop mark)

end ExitSpacing.Go
