import ExitSpacing.Spacing.Marking
import ExitSpacing.Text.Quoted

/-! What goes wrong with units, and how it is worded. A failure belongs to a unit or
a walk and is collected; the other troubles end a run. -/
namespace ExitSpacing

inductive Errno where
  | notPermitted
  | notFound
  | inputOutput
  | denied
  | busy
  | notDirectory
  | isDirectory
  | tooManyOpen
  | noSpace
  | readOnly
  | nameTooLong
  | linkLoop
  deriving DecidableEq, Repr

namespace Errno

def number : Errno → Nat
  | .notPermitted => 1
  | .notFound => 2
  | .inputOutput => 5
  | .denied => 13
  | .busy => 16
  | .notDirectory => 20
  | .isDirectory => 21
  | .tooManyOpen => 24
  | .noSpace => 28
  | .readOnly => 30
  | .nameTooLong => 36
  | .linkLoop => 40

def message : Errno → String
  | .notPermitted => "Operation not permitted"
  | .notFound => "No such file or directory"
  | .inputOutput => "Input/output error"
  | .denied => "Permission denied"
  | .busy => "Device or resource busy"
  | .notDirectory => "Not a directory"
  | .isDirectory => "Is a directory"
  | .tooManyOpen => "Too many open files"
  | .noSpace => "No space left on device"
  | .readOnly => "Read-only file system"
  | .nameTooLong => "File name too long"
  | .linkLoop => "Too many levels of symbolic links"

end Errno

/-- Why a call failed: a code, with the path when the call tells it, or only words. -/
inductive Cause where
  | system (errno : Errno) (path : Option String)
  | words (message : String)
  deriving DecidableEq, Repr

namespace Cause

def text : Cause → String
  | .system errno none => s!"[Errno {errno.number}] {errno.message}"
  | .system errno (some path) => s!"[Errno {errno.number}] {errno.message}: {Text.quoted path}"
  | .words message => message

def short : Cause → String
  | .system errno _ => errno.message
  | .words message => message

end Cause

inductive Failure where
  | malformed (unit : String) (line column : Int) (message : String)
  | unrenderable (unit message : String)
  | inaccessible (unit operation : String) (cause : Cause)
  | walk (path : String) (cause : Cause)
  | other (message : String)
  | canceled (message : String)
  | batch (failures : List Failure)

namespace Failure

mutual
def text : Failure → String
  | malformed unit line column message => s!"{unit}:{line}:{column}: {message}"
  | unrenderable unit message => s!"{unit}: render: {message}"
  | inaccessible unit operation cause => s!"{unit}: {operation}: {cause.short}"
  | walk path cause => s!"{path}: walk: {cause.text}"
  | other message => message
  | canceled message => message
  | batch failures => "\n".intercalate (texts failures)

def texts : List Failure → List String
  | [] => []
  | f :: rest => f.text :: texts rest
end

def stopped : Failure := .canceled "operation canceled"

def isCanceled : Failure → Bool
  | canceled _ => true
  | _ => false

/-- Whether a run that failed so was asked to stop. Only direct members count. -/
def holdsCancellation : Failure → Bool
  | batch failures => failures.any isCanceled
  | _ => false

end Failure

inductive Trouble where
  | failure (f : Failure)
  | system (errno : Errno) (path : Option String)
  | unexpected (message : String)
  | nullByte
  | pass (e : PassError)

namespace Trouble

def text : Trouble → String
  | .failure f => f.text
  | .system errno path => (Cause.system errno path).text
  | .unexpected message => message
  | .nullByte => "embedded null byte"
  | .pass (.splice e) => e.message
  | .pass (.change issues) => "\n".intercalate (issues.map fun i => s!"{i.field}: {i.problem.message}")

end Trouble
end ExitSpacing
