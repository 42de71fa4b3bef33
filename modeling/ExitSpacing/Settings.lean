import ExitSpacing.Format
import ExitSpacing.Record.Field

/-! The settings of a run, and the records read with the same care: changes and
formatting results. Settings do not change once they are read. -/
namespace ExitSpacing

structure Settings extends BlockRule where
  write : Bool := false
  /-- Files are only reported. This wins over writing. -/
  dryRun : Bool := false
  verbose : Bool := false
  parallelism : Nat := 1
  parallelism_pos : 0 < parallelism := by decide
  deriving Repr

def SizePolicy.words : List (String × SizePolicy) := [("lines", .lines), ("statements", .statements)]

def SizePolicy.ofValue : Value → Except Problem SizePolicy
  | .text s => match words.lookup s with
    | some p => .ok p
    | none => .error .policy
  | _ => .error .policy

def SizePolicy.word : SizePolicy → String
  | .lines => "lines"
  | .statements => "statements"

/-- As many files at a time as there are processors, one when their number is not known. -/
def defaultParallelism (processors : Option Nat) : { n : Nat // 0 < n } :=
  match processors with
  | some (n + 1) => ⟨n + 1, by omega⟩
  | _ => ⟨1, by decide⟩

namespace Settings

def make (blockSize : Nat) (write dryRun verbose : Bool) (parallelism : { n : Nat // 0 < n })
    (policy : SizePolicy) : Settings where
  blockSize := blockSize
  policy := policy
  write := write
  dryRun := dryRun
  verbose := verbose
  parallelism := parallelism.val
  parallelism_pos := parallelism.property

def ofFields (processors : Option Nat) (fields : Fields) : Checked Settings :=
  ((fields.optional "block_size" 1 Value.toNatural).map make)
    |> (Checked.also · (fields.optional "write" false Value.toFlag))
    |> (Checked.also · (fields.optional "dry_run" false Value.toFlag))
    |> (Checked.also · (fields.optional "verbose" false Value.toFlag))
    |> (Checked.also · (fields.optional "parallelism" (defaultParallelism processors) Value.toPositive))
    |> (Checked.also · (fields.optional "block_size_policy" .lines SizePolicy.ofValue))

def assign (_ : Settings) (field : String) : Issue := ⟨[field], .frozen⟩

end Settings

namespace Change

def ofParts (keyword unit : String) (line column : { n : Nat // 0 < n }) : Change :=
  ⟨keyword, unit, line.val, column.val, line.property, column.property⟩

def ofFields (fields : Fields) : Checked Change :=
  ((fields.required "kind" Value.toText).map ofParts)
    |> (Checked.also · (fields.required "unit" Value.toText))
    |> (Checked.also · (fields.required "line" Value.toPositive))
    |> (Checked.also · (fields.required "column" Value.toPositive))

def ofValue : Value → Checked Change
  | .record fields => ofFields fields
  | _ => .error [⟨[], .recordType⟩]

end Change

namespace Formatted

def changesOf : Value → Checked (List Change)
  | .list items => .all (items.mapIdx fun i v => .under (toString i) (Change.ofValue v))
  | _ => .error [⟨[], .listType⟩]

def ofFields (content : Bytes) (fields : Fields) : Checked Formatted :=
  ((fields.required "unit" Value.toText).map fun unit modified changes =>
      (⟨unit, content, modified, changes⟩ : Formatted))
    |> (Checked.also · (fields.optional "modified" false Value.toFlag))
    |> (Checked.also · (match fields.lookup "changes" with
      | none => .ok []
      | some v => .under "changes" (changesOf v)))

end Formatted
end ExitSpacing
