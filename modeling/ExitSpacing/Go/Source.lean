import ExitSpacing.Go.Statements

/-! Whole sources: declarations and statements in any order, and the tree of a
source. A malformed source has a tree too, with an error node in it. -/
namespace ExitSpacing.Go
open Reader

def importSpec : Reader Node := node "import_spec" do
  let dot ← accept "."
  let given ← if !dot && (← atLexeme .name) then pure [← name] else pure []
  if ← atLexeme .text then return given ++ [← leaf "string_literal"] else failure

def functionDeclaration (g : Grammar) : Reader Node := do
  let start ← position
  expect "func"
  let isMethod ← at? "("
  let receiver ← if isMethod then pure [← parameters g] else pure []
  let n ← name
  let generics ← if !isMethod && (← at? "[") then pure [← typeParameters g] else pure []
  let parts ← signature g
  let body ← if ← here? openBrace then pure [← g .block] else pure []
  close (if isMethod then "method_declaration" else "function_declaration") start
    (receiver ++ [n] ++ generics ++ parts ++ body)

def topLevel (g : Grammar) : Reader Node := do
  if ← at? "package" then node "package_clause" do expect "package"; return [← name]
  else if ← at? "import" then
    node "import_declaration" do expect "import"; specifications importSpec
  else if ← at? "func" then functionDeclaration g <|> g .statement
  else g .statement

def rule (g : Grammar) : Grammar
  | .type => type g
  | .term place => term g place
  | .expression place => expression g place
  | .argument => argument g
  | .literalValue => literalValue g
  | .block => block g
  | .statement => statement g

def grammar : Nat → Grammar
  | 0 => fun _ => failure
  | depth + 1 => rule (grammar depth)

/-- Between two phrases that begin at one token only few others nest, so the depth
of a source is at most this many times its tokens. -/
def phrasesPerToken : Nat := 8

def sourceFile (depth : Nat) : Reader (List Node) :=
  terminated atEnd (topLevel (grammar depth))

def items? (s : Bytes) : Option (List Node) :=
  let ts := tokens s
  ((sourceFile (phrasesPerToken * (ts.length + 1))).run ⟨ts, {}⟩).map (·.1)

def parse (s : Bytes) : Tree :=
  let label : Label := { kind := "source_file", stop := s.foldl Point.after {} }
  match items? s with
  | some items => ⟨false, .mk label items⟩
  | none => ⟨true, .mk label [.mk { label with kind := "ERROR" } []]⟩

end ExitSpacing.Go
