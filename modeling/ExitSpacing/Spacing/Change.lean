import ExitSpacing.Record.Issue
import ExitSpacing.Syntax.Statement

/-! The change log: one line of text for each blank line inserted. -/
namespace ExitSpacing

structure Change where
  keyword : String
  unit : String
  line : Nat
  column : Nat
  line_pos : 0 < line
  column_pos : 0 < column
  deriving DecidableEq, Repr

def place (unit : String) (line column : Nat) : String := s!"{unit}:{line}:{column}"

namespace Change

def text (c : Change) : String :=
  s!"- insert blank line before {c.keyword} at {place c.unit c.line c.column}"

/-- The change made before `s`; a line or column that is not from 1 is an issue. -/
def ofStatement (unit : String) (s : Statement) : Except (List Issue) Change :=
  if h : 0 < s.startLine ∧ 0 < s.startColumn then
    .ok ⟨s.keyword, unit, s.startLine, s.startColumn, h.1, h.2⟩
  else .error <|
    (if s.startLine = 0 then [⟨["line"], .notPositive⟩] else []) ++
    (if s.startColumn = 0 then [⟨["column"], .notPositive⟩] else [])

def notAfter (a b : Change) : Bool :=
  a.line < b.line || (a.line == b.line && a.column ≤ b.column)

def logText (changes : List Change) : String := String.join (changes.map fun c => c.text ++ "\n")

end Change
end ExitSpacing
