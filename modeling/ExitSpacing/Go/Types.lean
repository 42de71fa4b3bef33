import ExitSpacing.Go.Phrase

/-! The grammar of types, signatures and parameter lists. -/
namespace ExitSpacing.Go
open Reader

def typeStarts : List String := ["*", "[", "map", "chan", "<-", "func", "struct", "interface", "("]

def atType : Reader Bool := do
  if ← atFresh then return false
  if ← atLexeme .name then return true
  atAny typeStarts

def typeArguments (g : Grammar) : Reader (List Node) := do
  expect "["
  let first ← g .type
  let more ← many do
    if ← at? "]" then return none
    expect ","
    if ← at? "]" then return none
    return some (← g .type)
  expect "]"
  return first :: more

def typeName (g : Grammar) : Reader Node := do
  let start ← position
  let first ← name
  let qualified ← acceptHere "."
  let parts ← if qualified then pure [first, ← name] else pure [first]
  let arguments ← if ← here? "[" then attempt (typeArguments g) else pure none
  match arguments with
  | some types => close "generic_type" start (parts ++ types)
  | none => close (if qualified then "qualified_type" else "type_identifier") start parts

def constraint (g : Grammar) : Reader Node :=
  node "type_constraint" <| sepBy "|" do
    let _ ← accept "~"
    g .type

def typeParameters (g : Grammar) : Reader Node := node "type_parameter_list" do
  expect "["
  let items ← listUntil "]" do
    let n ← name
    if ← atAny [",", "]"] then return (n, none)
    return (n, some (← constraint g))
  if (items.getLast?.bind (·.2)).isNone then failure
  return items.flatMap fun item => item.1 :: item.2.toList

def parameter (g : Grammar) : Reader Node := node "parameter_declaration" do
  let type : Reader Node := do
    let _ ← accept "..."
    g .type
  let named : Reader (List Node) := do
    let n ← name
    return [n, ← type]
  named <|> return [← type]

def parameters (g : Grammar) : Reader Node := node "parameter_list" do
  expect "("
  listUntil ")" (parameter g)

def signature (g : Grammar) : Reader (List Node) := do
  let input ← parameters g
  if ← here? "(" then return [input, ← parameters g]
  if ← atType then return [input, ← g .type]
  return [input]

def structField (g : Grammar) : Reader Node := node "field_declaration" do
  let named : Reader (List Node) := do
    let names ← sepBy "," name
    if ← atFresh then failure
    return names ++ [← g .type]
  let parts ← named <|> return [← g .type]
  if !(← atFresh) && (← atLexeme .text) then return parts ++ [← leaf "tag"]
  return parts

def interfaceElement (g : Grammar) : Reader Node := do
  if (← atLexeme .name) && (← secondIs "(") then
    node "method_elem" do
      let n ← name
      return n :: (← signature g)
  else constraint g

def structType (g : Grammar) : Reader Node := node "struct_type" do
  expect "struct"
  expect openBrace
  let fields ← terminated (at? closeBrace) (structField g)
  expect closeBrace
  return fields

def interfaceType (g : Grammar) : Reader Node := node "interface_type" do
  expect "interface"
  expect openBrace
  let elements ← terminated (at? closeBrace) (interfaceElement g)
  expect closeBrace
  return elements

def mapType (g : Grammar) : Reader Node := node "map_type" do
  expect "map"
  expect "["
  let key ← g .type
  expect "]"
  return [key, ← g .type]

def channelType (g : Grammar) : Reader Node := node "channel_type" do
  let receiving ← accept "<-"
  expect "chan"
  unless receiving do let _ ← acceptHere "<-"
  return [← g .type]

/-- An array or a slice; only a literal leaves its length to be counted. -/
def arrayType (g : Grammar) : Reader Node := do
  let start ← position
  expect "["
  if ← accept "]" then
    let element ← g .type
    close "slice_type" start [element]
  else if ← accept "..." then
    expect "]"
    let element ← g .type
    close "implicit_length_array_type" start [element]
  else
    let length ← g (.expression .body)
    expect "]"
    let element ← g .type
    close "array_type" start [length, element]

def type (g : Grammar) : Reader Node := do
  if ← atLexeme .name then typeName g
  else if ← at? "*" then node "pointer_type" do expect "*"; return [← g .type]
  else if ← at? "[" then arrayType g
  else if ← at? "map" then mapType g
  else if ← atAny ["chan", "<-"] then channelType g
  else if ← at? "func" then node "function_type" do expect "func"; signature g
  else if ← at? "struct" then structType g
  else if ← at? "interface" then interfaceType g
  else node "parenthesized_type" do
    expect "("
    let inner ← g .type
    expect ")"
    return [inner]

end ExitSpacing.Go
