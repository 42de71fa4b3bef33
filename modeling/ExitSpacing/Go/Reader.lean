import ExitSpacing.Go.Token

/-! Reading tokens from left to right. A reader fails or goes on with the tokens
that are left; `last` is where the token read last ends, so a construct knows the
span it covers. -/
namespace ExitSpacing.Go

structure Cursor where
  tokens : List Token
  last : Point := {}

abbrev Reader := StateT Cursor Option

namespace Reader

def peek : Reader (Option Token) := return (← get).tokens.head?

def advance : Reader Token := do
  match (← get).tokens with
  | t :: rest => set (Cursor.mk rest t.stop); return t
  | [] => failure

def isSymbol (spelling : String) (t : Token) : Bool := t.lexeme == .symbol spelling

def at? (spelling : String) : Reader Bool := return (← peek).any (isSymbol spelling)

def atAny (spellings : List String) : Reader Bool :=
  return (← peek).any fun t => spellings.any (isSymbol · t)

def atLexeme (kind : Lexeme) : Reader Bool := return (← peek).any (·.lexeme == kind)

def atEnd : Reader Bool := return (← get).tokens.isEmpty

def atFresh : Reader Bool := return (← peek).all (·.fresh)

def here? (spelling : String) : Reader Bool :=
  return (← peek).any fun t => isSymbol spelling t && !t.fresh

def expect (spelling : String) : Reader Unit := do
  if ← at? spelling then let _ ← advance else failure

def accept (spelling : String) : Reader Bool := do
  if ← at? spelling then let _ ← advance; return true else return false

def acceptHere (spelling : String) : Reader Bool := do
  if ← here? spelling then let _ ← advance; return true else return false

def attempt (p : Reader α) : Reader (Option α) := (some <$> p) <|> pure none

def secondIs (spelling : String) : Reader Bool := do
  let cursor ← get
  return cursor.tokens[1]?.any (isSymbol spelling)

def position : Reader Point := do
  let cursor ← get
  return (cursor.tokens.head?.map (·.start)).getD cursor.last

def close (kind : String) (start : Point) (children : List Node) : Reader Node :=
  return .mk { kind, start, stop := (← get).last } children

def node (kind : String) (p : Reader (List Node)) : Reader Node := do
  let start ← position
  close kind start (← p)

def leaf (kind : String) : Reader Node := node kind do let _ ← advance; return []

/-- Repeat a step until it declines; a step that accepts reads at least one token,
so the bound is not reached. -/
def repeated : Nat → Reader (Option α) → Reader (List α)
  | 0, _ => failure
  | bound + 1, step => do
    match ← step with
    | some a => return a :: (← repeated bound step)
    | none => return []

def many (step : Reader (Option α)) : Reader (List α) := do
  repeated ((← get).tokens.length + 1) step

def sepBy (separator : String) (p : Reader α) : Reader (List α) := do
  let first ← p
  let more ← many do if ← accept separator then return some (← p) else return none
  return first :: more

def listUntil (closing : String) (p : Reader α) : Reader (List α) := do
  let items ← many do
    if ← at? closing then return none
    let a ← p
    unless ← at? closing do expect ","
    return some a
  expect closing
  return items

/-- What ends an item of a list before `closed`: a line end or one semicolon, and
nothing at all when the list ends there. A line end comes before a semicolon. -/
def terminator (closed : Reader Bool) : Reader Unit := do
  if ← closed then return
  if ← atFresh then return
  expect ";"

def terminated (closed : Reader Bool) (p : Reader α) : Reader (List α) :=
  many do
    if ← closed then return none
    let a ← p
    terminator closed
    return some a

def name : Reader Node := do
  if ← atLexeme .name then leaf "identifier" else failure

end Reader
end ExitSpacing.Go
