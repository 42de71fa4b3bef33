import ExitSpacing.Go.Expressions

/-! The grammar of statements. Only `block`, the case kinds and `statement_list`
matter to the tree's readers, so other nodes keep just the nodes inside them. -/
namespace ExitSpacing.Go
open Reader

def assignmentOperators : List String :=
  ["=", "+=", "-=", "*=", "/=", "%=", "&=", "|=", "^=", "<<=", ">>=", "&^="]

def simple (g : Grammar) (place : Place) : Reader Node := do
  let start ← position
  let left ← expressions g place
  let right : Reader (List Node) := do
    let _ ← advance
    if (← at? "range") && place == .loopHeader then
      expect "range"
      return [← close "range_clause" start [← g (.expression place)]]
    expressions g place
  let fresh ← atFresh
  if !fresh && (← at? ":=") then
    let values ← right
    close "short_var_declaration" start (left ++ values)
  else if !fresh && (← atAny assignmentOperators) then
    let values ← right
    close "assignment_statement" start (left ++ values)
  else
    if left.length != 1 then failure
    if ← acceptHere "++" then close "inc_statement" start left
    else if ← acceptHere "--" then close "dec_statement" start left
    else if ← acceptHere "<-" then
      let value ← g (.expression place)
      close "send_statement" start (left ++ [value])
    else close "expression_statement" start left

def isKind (kind : String) (n : Node) : Bool := n.kind == kind

def endsIn (kind : String) (n : Node) : Bool := n.children.getLast?.any (isKind kind)

def atListEnd : Reader Bool := return (← atAny [closeBrace, "case", "default"]) || (← atEnd)

def statementList (g : Grammar) : Reader (List Node) := do
  let start ← position
  let statements ← terminated atListEnd (g .statement)
  match statements.getLast? with
  | none => return []
  | some final => return [.mk { kind := "statement_list", start, stop := final.stop } statements]

def block (g : Grammar) : Reader Node := node "block" do
  expect openBrace
  let statements ← statementList g
  expect closeBrace
  return statements

def ifStatement (g : Grammar) : Reader Node := node "if_statement" do
  expect "if"
  let first ← if ← at? ";" then pure [] else pure [← simple g .header]
  let (initializer, condition) ←
    if ← accept ";" then pure (first, [← simple g .header]) else pure ([], first)
  if !condition.all (isKind "expression_statement") then failure
  let body ← g .block
  let alternative ←
    if ← acceptHere "else" then
      if ← at? "if" then pure [← g .statement] else pure [← g .block]
    else pure []
  return initializer ++ condition ++ [body] ++ alternative

def forStatement (g : Grammar) : Reader Node := node "for_statement" do
  expect "for"
  if ← at? openBrace then return [← g .block]
  if ← accept "range" then
    let subject ← g (.expression .header)
    return [subject, ← g .block]
  let first ← if ← at? ";" then pure [] else pure [← simple g .loopHeader]
  if first.any (endsIn "range_clause") then return first ++ [← g .block]
  if ← accept ";" then
    let condition ← if ← at? ";" then pure [] else pure [← simple g .header]
    if !condition.all (isKind "expression_statement") then failure
    expect ";"
    let step ← if ← at? openBrace then pure [] else pure [← simple g .header]
    return first ++ condition ++ step ++ [← g .block]
  if !first.all (isKind "expression_statement") then failure
  return first ++ [← g .block]

def caseClause (g : Grammar) (kind : String) (labels : Reader (List Node)) : Reader Node := do
  let start ← position
  let isDefault ← accept "default"
  let head ← if isDefault then pure [] else do expect "case"; labels
  expect ":"
  let statements ← statementList g
  close (if isDefault then "default_case" else kind) start (head ++ statements)

def caseClauses (g : Grammar) (kind : String) (labels : Reader (List Node)) : Reader (List Node) := do
  expect openBrace
  let clauses ← many do
    if ← at? closeBrace then return none
    return some (← caseClause g kind labels)
  expect closeBrace
  return clauses

def switchStatement (g : Grammar) : Reader Node := do
  let start ← position
  expect "switch"
  let first ← if ← atAny [";", openBrace] then pure [] else pure [← simple g .switchHeader]
  let (initializer, subject) ←
    if ← accept ";" then
      if first.any (endsIn "type_switch_guard") then failure
      if ← at? openBrace then pure (first, []) else pure (first, [← simple g .switchHeader])
    else pure ([], first)
  let guarded := subject.any (endsIn "type_switch_guard")
  let kinds := if guarded then ["expression_statement", "short_var_declaration"]
    else ["expression_statement"]
  if !subject.all fun s => kinds.contains s.kind then failure
  if guarded then
    let types := return (← sepBy "," (g .type)).map (·.withField "type")
    let clauses ← caseClauses g "type_case" types
    close "type_switch_statement" start (initializer ++ subject ++ clauses)
  else
    let values := node "expression_list" (expressions g .body)
    let clauses ← caseClauses g "expression_case" do return [(← values).withField "value"]
    close "expression_switch_statement" start (initializer ++ subject ++ clauses)

def selectStatement (g : Grammar) : Reader Node := node "select_statement" do
  expect "select"
  caseClauses g "communication_case" do
    let c ← simple g .body
    if ["inc_statement", "dec_statement"].contains c.kind then failure
    return [c.withField "communication"]

def jump (kind : String) : Reader Node := node kind do
  let _ ← advance
  if !(← atFresh) && (← atLexeme .name) then return [← name] else return []

def returnStatement (g : Grammar) : Reader Node := node "return_statement" do
  expect "return"
  if (← atFresh) || (← atListEnd) || (← at? ";") then return []
  expressions g .body

/-- A label and its statement; before the end of a list the label stands alone. -/
def labeledStatement (g : Grammar) : Reader Node := node "labeled_statement" do
  let label ← name
  expect ":"
  if ← atAny [closeBrace, "case", "default"] then return [label]
  return [label, ← g .statement]

def specifications (spec : Reader Node) : Reader (List Node) := do
  if ← accept "(" then
    let specs ← terminated (at? ")") spec
    expect ")"
    return specs
  else return [← spec]

/-- Names with a type, values or both; without values, a constant has no type and
anything else has one. -/
def valueSpec (g : Grammar) (kind : String) (isConstant : Bool) : Reader Node := node kind do
  let names ← sepBy "," name
  let types ← if ← atType then pure [← g .type] else pure []
  let values ← if ← acceptHere "=" then expressions g .body else pure []
  if values.isEmpty && types.isEmpty != isConstant then failure
  return names ++ types ++ values

def typeSpec (g : Grammar) : Reader Node := node "type_spec" do
  let n ← name
  let parameters ← if ← at? "[" then attempt (typeParameters g) else pure none
  let _ ← accept "="
  return n :: parameters.toList ++ [← g .type]

def declaration (g : Grammar) : Reader Node := do
  if ← at? "var" then
    node "var_declaration" do expect "var"; specifications (valueSpec g "var_spec" false)
  else if ← at? "const" then
    node "const_declaration" do expect "const"; specifications (valueSpec g "const_spec" true)
  else node "type_declaration" do expect "type"; specifications (typeSpec g)

def statement (g : Grammar) : Reader Node := do
  if ← at? ";" then leaf "empty_statement"
  else if ← at? openBrace then g .block
  else if ← atAny ["var", "const", "type"] then declaration g
  else if ← at? "return" then returnStatement g
  else if ← at? "if" then ifStatement g
  else if ← at? "for" then forStatement g
  else if ← at? "switch" then switchStatement g
  else if ← at? "select" then selectStatement g
  else if ← at? "go" then node "go_statement" do expect "go"; return [← g (.expression .body)]
  else if ← at? "defer" then node "defer_statement" do expect "defer"; return [← g (.expression .body)]
  else if ← at? "break" then jump "break_statement"
  else if ← at? "continue" then jump "continue_statement"
  else if ← at? "goto" then node "goto_statement" do expect "goto"; return [← name]
  else if ← at? "fallthrough" then leaf "fallthrough_statement"
  else if (← atLexeme .name) && (← secondIs ":") then labeledStatement g
  else simple g .body

end ExitSpacing.Go
