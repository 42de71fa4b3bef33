import ExitSpacing.Syntax.Node

/-! Statements as the spacing rules see them: what they do to control flow, the lines
and the column from 1, and the bytes they cover. -/
namespace ExitSpacing

inductive Role where
  | returning
  | branching
  | plain
  deriving DecidableEq, Repr

def branchKeywords : List (String × String) :=
  [("break_statement", "break"), ("continue_statement", "continue"),
   ("goto_statement", "goto"), ("fallthrough_statement", "fallthrough")]

def Role.ofKind (kind : String) : Role :=
  if kind == "return_statement" then .returning
  else if branchKeywords.any (·.1 == kind) then .branching
  else .plain

/-- Which statement of a document this is: the block's number and the place in
that block as it was built. Two statements are the same only when these agree. -/
structure StatementId where
  block : Nat
  index : Nat
  deriving DecidableEq, Repr

structure Statement where
  id : StatementId
  kind : String
  role : Role
  startLine : Nat
  endLine : Nat
  startColumn : Nat
  startByte : Nat
  endByte : Nat
  deriving DecidableEq, Repr

namespace Statement

def isExit (s : Statement) : Bool := s.role != .plain

def isEmpty (s : Statement) : Bool := s.kind == "empty_statement"

def keyword (s : Statement) : String :=
  match s.role with
  | .returning => "return"
  | _ => (branchKeywords.lookup s.kind).getD "unknown"

end Statement

/-- The last line a node covers, from 1. A stop just after a line feed belongs to
the line before, unless the node is empty. -/
def Node.lastLine (n : Node) : Nat :=
  if n.stop.column == 0 && n.start.offset < n.stop.offset then n.stop.row else n.stop.row + 1

def Statement.ofNode (id : StatementId) (n : Node) : Statement where
  id := id
  kind := n.kind
  role := .ofKind n.kind
  startLine := n.start.row + 1
  endLine := n.lastLine
  startColumn := n.start.column + 1
  startByte := n.start.offset
  endByte := n.stop.offset

end ExitSpacing
