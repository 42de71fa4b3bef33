import ExitSpacing.Bytes

/-! Syntax trees of a source text. A node carries its kind, its role in its
parent and the span it covers, rows and columns from 0 and columns in bytes; a tree may
hold error and missing nodes, and `hasError` says whether it does. What is reported of
them counts lines and columns from 1. -/
namespace ExitSpacing

structure Point where
  row : Nat := 0
  column : Nat := 0
  offset : Nat := 0
  deriving DecidableEq, Repr, Inhabited

def Point.after (p : Point) (b : UInt8) : Point :=
  if b == Bytes.lineFeed then ⟨p.row + 1, 0, p.offset + 1⟩
  else ⟨p.row, p.column + 1, p.offset + 1⟩

structure Label where
  kind : String
  named : Bool := true
  missing : Bool := false
  field : Option String := none
  start : Point := {}
  stop : Point := {}
  deriving DecidableEq, Repr, Inhabited

inductive Node where
  | mk (label : Label) (children : List Node)
  deriving Inhabited

namespace Node

def label : Node → Label
  | mk label _ => label

def children : Node → List Node
  | mk _ children => children

def kind (n : Node) : String := n.label.kind
def named (n : Node) : Bool := n.label.named
def missing (n : Node) : Bool := n.label.missing
def field (n : Node) : Option String := n.label.field
def start (n : Node) : Point := n.label.start
def stop (n : Node) : Point := n.label.stop

def isComment (n : Node) : Bool := n.kind == "comment"

def withField (name : String) : Node → Node
  | mk label children => mk { label with field := some name } children

theorem sizeOfAppend (a b : List Node) : sizeOf (a ++ b) + 1 = sizeOf a + sizeOf b := by
  induction a with
  | nil => simp; omega
  | cons n rest ih => simp only [List.cons_append, List.cons.sizeOf_spec]; omega

/-- Every node below a stack of pending nodes: the top first, then what is under
it, then the rest of the stack. -/
def walkStack : List Node → List Node
  | [] => []
  | mk label children :: pending => mk label children :: walkStack (children ++ pending)
termination_by pending => sizeOf pending
decreasing_by
  have := sizeOfAppend children pending
  simp only [List.cons.sizeOf_spec, Node.mk.sizeOf_spec]
  omega

def walk (n : Node) : List Node := walkStack [n]

end Node

structure Tree where
  hasError : Bool
  root : Node

abbrev Parser := Bytes → Tree

structure SyntaxError where
  line : Nat
  column : Nat
  message : String
  deriving DecidableEq, Repr

namespace Node

/-- A node that is missing is reported as such even when it is an error node too. -/
def error? (n : Node) : Option SyntaxError :=
  if n.missing then some ⟨n.start.row + 1, n.start.column + 1, "missing " ++ n.kind⟩
  else if n.kind == "ERROR" then some ⟨n.start.row + 1, n.start.column + 1, "syntax error"⟩
  else none

end Node

def Tree.firstError (t : Tree) : SyntaxError :=
  (t.root.walk.findSome? Node.error?).getD
    ⟨t.root.start.row + 1, t.root.start.column + 1, "syntax error"⟩

end ExitSpacing
