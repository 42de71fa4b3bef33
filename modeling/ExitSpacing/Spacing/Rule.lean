import ExitSpacing.Syntax.Block

/-! When a blank line belongs before an exit statement. It does unless the
statement opens its block, its block is too short, or something other than the
end of the line before already stands between it and its predecessor. -/
namespace ExitSpacing

inductive SizePolicy where
  | lines
  | statements
  deriving DecidableEq, Repr

structure BlockRule where
  blockSize : Nat := 1
  policy : SizePolicy := .lines
  deriving DecidableEq, Repr

namespace Block

def siblings (b : Block) (index : Nat) : Nat :=
  ((b.entries.eraseIdx index).filterMap Entry.statement?).countP fun s => !s.isEmpty

/-- Measured in lines, a block reaches from its first statement to the exit; measured
in statements, it holds the others. -/
def longEnough (b : Block) (rule : BlockRule) (index : Nat) (s : Statement) : Bool :=
  match rule.policy with
  | .statements => rule.blockSize < b.siblings index
  | .lines => match b.entries.head?.bind Entry.statement? with
    | some first => first.startLine + rule.blockSize ≤ s.startLine
    | none => false

def shouldInsert (b : Block) (rule : BlockRule) : Nat → Bool
  | 0 => false
  | i + 1 => match b.entries[i]?, b.entries[i + 1]? with
    | some (.statement previous), some (.statement s) =>
      s.isExit && b.longEnough rule (i + 1) s && s.startLine ≤ previous.endLine + 1
    | _, _ => false

def shouldInsert? (b : Block) (rule : BlockRule) (index : Nat) : Option Bool :=
  b.entries[index]?.map fun _ => b.shouldInsert rule index

def decisions (b : Block) (rule : BlockRule) : List Bool :=
  (List.range b.entries.length).map (b.shouldInsert rule)

end Block
end ExitSpacing
