import ExitSpacing.Go.Types

/-! The grammar of expressions. Operators are read as one row of operands: what
binds tighter does not move any block. -/
namespace ExitSpacing.Go
open Reader

def typeKinds : List String :=
  ["slice_type", "implicit_length_array_type", "array_type", "map_type", "channel_type",
   "function_type", "struct_type", "interface_type"]

def isType (n : Node) : Bool := typeKinds.contains n.kind

def isGuard (n : Node) : Bool := n.kind == "type_switch_guard"

/-- Whether a brace after this operand opens a composite literal. -/
def beginsLiteral (place : Place) (n : Node) : Bool :=
  ["slice_type", "implicit_length_array_type", "array_type", "map_type", "struct_type"].contains n.kind ||
  (place == .body && ["identifier", "selector_expression", "index_expression"].contains n.kind)

def element (g : Grammar) : Reader Node := do
  if ← at? openBrace then g .literalValue else g (.expression .body)

def literalValue (g : Grammar) : Reader Node := node "literal_value" do
  expect openBrace
  listUntil closeBrace do
    let start ← position
    let first ← element g
    if ← accept ":" then
      let value ← element g
      close "keyed_element" start [first, value]
    else return first

def functionLiteral (g : Grammar) : Reader Node := do
  let start ← position
  expect "func"
  let parts ← signature g
  if ← here? openBrace then
    let body ← g .block
    close "func_literal" start (parts ++ [body])
  else close "function_type" start parts

def operand (g : Grammar) : Reader Node := do
  if ← atLexeme .name then name
  else if ← atLexeme .number then leaf "number_literal"
  else if ← atLexeme .rune then leaf "rune_literal"
  else if ← atLexeme .text then leaf "string_literal"
  else if ← at? "func" then functionLiteral g
  else if ← atAny ["[", "map", "chan", "struct", "interface"] then g .type
  else node "parenthesized_expression" do
    expect "("
    let inner ← g .argument
    expect ")"
    return [inner]

/-- What stands between the brackets after an operand: one or more arguments, or
the bounds of a slice, where a capacity asks for an upper bound. -/
def bracketed (g : Grammar) : Reader (Bool × List Node) := do
  let bound : Reader (List Node) := do
    if ← atAny [":", "]"] then return [] else return [← g .argument]
  let low ← bound
  if ← accept ":" then
    let high ← bound
    if (low ++ high).any isType then failure
    if ← accept ":" then
      if high.isEmpty then failure
      let capacity ← g (.expression .body)
      expect "]"
      return (true, low ++ high ++ [capacity])
    expect "]"
    return (true, low ++ high)
  if low.isEmpty then failure
  let more ← many do
    if ← at? "]" then return none
    expect ","
    if ← at? "]" then return none
    return some (← g .argument)
  expect "]"
  return (false, low ++ more)

def callArguments (g : Grammar) : Reader (List Node) := do
  expect "("
  listUntil ")" do
    let a ← g .argument
    let _ ← accept "..."
    return a

def member (g : Grammar) (start : Point) (x : Node) : Reader Node := do
  expect "."
  if ← accept "(" then
    if ← accept "type" then
      expect ")"
      close "type_switch_guard" start [x]
    else
      let t ← g .type
      expect ")"
      close "type_assertion_expression" start [x, t]
  else
    let n ← name
    close "selector_expression" start [x, n]

def suffix (g : Grammar) (place : Place) (start : Point) (x : Node) : Reader (Option Node) := do
  if ← here? "." then return some (← member g start x)
  if ← here? "(" then
    let arguments ← callArguments g
    return some (← close "call_expression" start (x :: arguments))
  if ← here? "[" then
    expect "["
    let (isSlice, parts) ← bracketed g
    return some (← close (if isSlice then "slice_expression" else "index_expression") start (x :: parts))
  if (← here? openBrace) && beginsLiteral place x then
    let value ← g .literalValue
    return some (← close "composite_literal" start [x, value])
  return none

def suffixes (g : Grammar) (place : Place) (start : Point) : Nat → Node → Reader Node
  | 0, x => return x
  | bound + 1, x => do
    match ← suffix g place start x with
    | some y => suffixes g place start bound y
    | none => return x

def primary (g : Grammar) (place : Place) : Reader Node := do
  let start ← position
  let x ← operand g
  suffixes g place start ((← get).tokens.length + 1) x

def unaryOperators : List String := ["+", "-", "!", "^", "*", "&", "<-"]

def term (g : Grammar) (place : Place) : Reader Node := do
  if (← at? "<-") && (← secondIs "chan") then
    let start ← position
    let t ← g .type
    suffixes g place start ((← get).tokens.length + 1) t
  else if ← atAny unaryOperators then
    node "unary_expression" do
      let _ ← advance
      return [← g (.term place)]
  else primary g place

def binaryOperators : List String :=
  ["||", "&&", "==", "!=", "<", "<=", ">", ">=", "+", "-", "|", "^", "*", "/", "%", "<<", ">>", "&",
   "&^"]

def operation (g : Grammar) (place : Place) : Reader Node := do
  let start ← position
  let first ← g (.term place)
  let more ← many do
    if !(← atFresh) && (← atAny binaryOperators) then
      let _ ← advance
      let x ← g (.term place)
      if isType x || isGuard x then failure
      return some x
    return none
  if more.isEmpty then return first
  if isType first || isGuard first then failure
  close "binary_expression" start (first :: more)

def expression (g : Grammar) (place : Place) : Reader Node := do
  let x ← operation g place
  if isType x || (isGuard x && place != .switchHeader) then failure
  return x

def argument (g : Grammar) : Reader Node := do
  let x ← operation g .body
  if isGuard x then failure
  return x

def expressions (g : Grammar) (place : Place) : Reader (List Node) :=
  sepBy "," (g (.expression place))

end ExitSpacing.Go
