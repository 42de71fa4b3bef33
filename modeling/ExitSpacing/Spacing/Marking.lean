import ExitSpacing.Spacing.Change
import ExitSpacing.Spacing.Rule

/-! Marking: a pass that splices a marker wherever the rule asks for a blank line,
and logs each. A block is walked from its tail, so a marker never moves an entry
that is still to be decided. -/
namespace ExitSpacing

inductive PassError where
  | splice (e : SpliceError)
  | change (issues : List Issue)
  deriving DecidableEq, Repr

namespace Block

/-- Decide entries `index`, …, 1 of a block, `log` being what was logged behind them. -/
def markFrom (rule : BlockRule) (unit : String) :
    (index : Nat) → Block → (log : List Change) → Block × Except PassError (List Change)
  | 0, b, log => (b, .ok log)
  | i + 1, b, log =>
    if b.shouldInsert rule (i + 1) then
      match b.entries[i]?, b.entries[i + 1]? with
      | some (.statement predecessor), some (.statement target) =>
        match b.splice (i + 1 : Nat) ⟨target, predecessor⟩ with
        | .error e => (b, .error (.splice e))
        | .ok marked => match Change.ofStatement unit target with
          | .error issues => (marked, .error (.change issues))
          | .ok change => markFrom rule unit i marked (change :: log)
      | _, _ => markFrom rule unit i b log
    else markFrom rule unit i b log

/-- A pass over one block. A pass that stops keeps the markers spliced so far. -/
def mark (rule : BlockRule) (unit : String) (b : Block) : Block × Except PassError (List Change) :=
  markFrom rule unit (b.entries.length - 1) b []

def markAll (rule : BlockRule) (unit : String) :
    List Block → List Block × Except PassError (List Change)
  | [] => ([], .ok [])
  | b :: rest => match mark rule unit b with
    | (marked, .error e) => (marked :: rest, .error e)
    | (marked, .ok log) =>
      let (others, more) := markAll rule unit rest
      (marked :: others, more.map (log ++ ·))

end Block

structure Document where
  unit : String
  source : Bytes
  blocks : List Block
  deriving DecidableEq, Repr

namespace Document

def modified (d : Document) : Bool := d.blocks.any fun b => !b.markers.isEmpty

def apply (d : Document) (rule : BlockRule) : Document × Except PassError (List Change) :=
  let (blocks, log) := Block.markAll rule d.unit d.blocks
  ({ d with blocks }, log.map (·.mergeSort Change.notAfter))

end Document
end ExitSpacing
