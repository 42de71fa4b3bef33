import ExitSpacing.Failure
import ExitSpacing.Files.Path

/-! Faults: calls on files that are made to fail, all of one kind or those on one
path only. -/
namespace ExitSpacing

inductive Call where
  | list
  | read
  | stat
  /-- Asking in a walk whether a path is a regular file. -/
  | isFile
  | format
  | start
  | writeStat
  | createTemp
  | fillTemp
  | chmod
  | replace
  | unlink
  deriving DecidableEq, Repr

/-- How a call fails: with a system code, or with an exception of another kind. -/
inductive Effect where
  | system (errno : Errno)
  | unexpected (message : String)
  deriving DecidableEq, Repr

namespace Effect

def trouble : Effect → Trouble
  | .system errno => .system errno none
  | .unexpected message => .unexpected message

def cause (path : Option String) : Effect → Cause
  | .system errno => .system errno path
  | .unexpected message => .words message

end Effect

structure Fault where
  call : Call
  path : Option String
  effect : Effect
  deriving DecidableEq, Repr

abbrev Faults := List Fault

namespace Faults

def find? (faults : Faults) (call : Call) (path : String) : Option Effect :=
  (List.find? (fun f => f.call == call && f.path.all (Path.isSame path)) faults).map Fault.effect

def guarded (faults : Faults) (call : Call) (path : String) (result : Except Errno α) : Except Effect α :=
  match faults.find? call path with
  | some effect => .error effect
  | none => result.mapError .system

end Faults
end ExitSpacing
