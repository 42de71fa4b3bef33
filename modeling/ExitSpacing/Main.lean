import ExitSpacing.Command.Outcome
import ExitSpacing.Go.Source

/-! The program. The files that the arguments name are read into a store, the command
runs on the store, and what it changed there is written back. Only what the arguments
name is seen, and directories cannot be listed from here. Standard input is read only
when the plan asks for it. -/
namespace ExitSpacing.Program
open Command

def release : Option String := some "0.3.0"

def readAll (stream : IO.FS.Stream) : IO ByteArray := do
  let mut done := ByteArray.empty
  repeat
    let piece ← stream.read 65536
    if piece.isEmpty then break
    done := done ++ piece
  return done

def errnoOf : IO.Error → Errno
  | .noFileOrDirectory .. => .notFound
  | .permissionDenied .. => .denied
  | .inappropriateType _ code _ => if code.toNat == Errno.isDirectory.number then .isDirectory else .notDirectory
  | _ => .inputOutput

def look (path : String) : IO (Option Item × Faults) := do
  try
    let content ← IO.FS.readBinFile path
    return (some (.file 0o644 content.toList), [])
  catch e =>
    match errnoOf e with
    | .notFound => return (none, [])
    | .isDirectory =>
      return (some (.directory Store.directoryMode), [⟨.list, some path, .unexpected "directories cannot be listed"⟩])
    | errno => return (none, [⟨.stat, some path, .system errno⟩])

def changedFiles (before after : Store) : List (Location × Bytes) :=
  after.items.filterMap fun entry => match entry.2 with
    | .file _ content => if before.find? entry.1 == some entry.2 then none else some (entry.1, content)
    | _ => none

def surroundings (home : Home) (seen : List (String × Option Item × Faults)) : Surroundings where
  parser := Go.parse
  release := release
  store := Store.ofList (seen.filterMap fun s => s.2.1.map (s.1, ·)) home
  faults := seen.flatMap (·.2.2)

def run (arguments : List String) : IO UInt32 := do
  let plan := Plan.ofArguments none release arguments
  let input ← match plan with
    | .input _ => readAll (← IO.getStdin)
    | _ => pure ByteArray.empty
  let named := match plan with
    | .paths _ paths => paths
    | _ => []
  let seen ← named.mapM fun path => return (path, ← look path)
  let home := Home.ofPath (← IO.currentDir).toString
  let s := surroundings home seen
  let o := plan.outcome s input.toList
  for file in changedFiles s.store o.store do
    IO.FS.writeBinFile (s.store.shown file.1) ⟨file.2.toArray⟩
  (← IO.getStdout).write ⟨o.out.toArray⟩
  for line in o.log do
    IO.eprintln line.text
  IO.eprint o.err
  return UInt32.ofNat o.code.number

end ExitSpacing.Program

def main (arguments : List String) : IO UInt32 := ExitSpacing.Program.run arguments
