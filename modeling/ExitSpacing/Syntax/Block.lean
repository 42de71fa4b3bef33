import ExitSpacing.Syntax.Statement

/-! Blocks: the statements of one construct in order, with blank line markers
spliced between them. -/
namespace ExitSpacing

structure Marker where
  target : Statement
  predecessor : Statement
  deriving DecidableEq, Repr

inductive Entry where
  | statement (s : Statement)
  | marker (m : Marker)
  deriving DecidableEq, Repr

namespace Entry

def statement? : Entry → Option Statement
  | .statement s => some s
  | .marker _ => none

def marker? : Entry → Option Marker
  | .statement _ => none
  | .marker m => some m

end Entry

structure Block where
  owner : String
  entries : List Entry
  deriving DecidableEq, Repr

inductive SpliceError where
  | outside (index : Int) (length : Nat)
  | otherTarget (index : Int)
  deriving DecidableEq, Repr

def SpliceError.message : SpliceError → String
  | .outside index length =>
    s!"cannot splice a blank line marker at index {index} of a {length}-entry block"
  | .otherTarget index => s!"marker target does not match the statement at index {index}"

namespace Block

def statements (b : Block) : List Statement := b.entries.filterMap Entry.statement?
def markers (b : Block) : List Marker := b.entries.filterMap Entry.marker?

/-- Put `m` before the entry at `index`, which must be its very target. The first
entry has nothing before it, so it takes no marker. -/
def splice (b : Block) (index : Int) (m : Marker) : Except SpliceError Block :=
  if 0 < index ∧ index < b.entries.length then
    match b.entries[index.toNat]? with
    | some (.statement s) =>
      if s.id = m.target.id then .ok { b with entries := b.entries.insertIdx index.toNat (.marker m) }
      else .error (.otherTarget index)
    | _ => .error (.otherTarget index)
  else .error (.outside index b.entries.length)

def ownerKinds : List String :=
  ["block", "expression_case", "type_case", "default_case", "communication_case"]

def labelFields : List String := ["value", "type", "communication"]

/-- The statements of an owner: what its first `statement_list` holds, else its
own children; comments and labels are left out. -/
def statementNodes (owner : Node) : List Node :=
  match owner.children.find? (fun n => n.named && n.kind == "statement_list") with
  | some list => list.children.filter fun n => n.named && !n.isComment
  | none => owner.children.filter fun n =>
      n.named && !n.isComment && !n.field.any labelFields.contains

def ofNode (number : Nat) (owner : Node) : Block where
  owner := owner.kind
  entries := (statementNodes owner).mapIdx fun i n => .statement (.ofNode ⟨number, i⟩ n)

end Block

def Tree.blocks (t : Tree) : List Block :=
  (t.root.walk.filter fun n => Block.ownerKinds.contains n.kind).mapIdx Block.ofNode

end ExitSpacing
