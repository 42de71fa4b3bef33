import ExitSpacing.Go.Reader

/-! The phrases of the grammar that contain one another. Each rule is written over
a `Grammar` for the phrases inside it; `Source` ties them together. -/
namespace ExitSpacing.Go

/-- Where a phrase stands. Before the brace of a header a name begins no composite
literal; only a switch header holds a guard, only a loop header a range. -/
inductive Place where
  | body
  | header
  | switchHeader
  | loopHeader
  deriving DecidableEq, Repr

inductive Phrase where
  | type
  | term (place : Place)
  | expression (place : Place)
  | argument
  | literalValue
  | block
  | statement
  deriving DecidableEq, Repr

abbrev Grammar := Phrase → Reader Node

end ExitSpacing.Go
