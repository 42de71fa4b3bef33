import ExitSpacing.Batch.Schedule
import ExitSpacing.Command.Refusal

/-! What the command does: its arguments give a plan before anything is read, and the
plan an outcome with an exit code. -/
namespace ExitSpacing.Command

structure Surroundings where
  parser : Parser
  processors : Option Nat := none
  release : Option String := none
  store : Store := {}
  faults : Faults := []
  alarm : Batch.Alarm := .never
  notice : Option LogLine := none

inductive Signal where
  | interrupt
  | terminate
  deriving DecidableEq, Repr

namespace Signal

def number : Signal → Nat
  | .interrupt => 2
  | .terminate => 15

def notice (s : Signal) : LogLine := ⟨.warning, s!"Received signal {s.number}, finishing in-flight files."⟩

end Signal

inductive ExitCode where
  | done
  | failed
  | usage
  | canceled
  deriving DecidableEq, Repr

def ExitCode.number : ExitCode → Nat
  | .done => 0
  | .failed => 1
  | .usage => 2
  | .canceled => 130

structure Outcome where
  code : ExitCode
  out : Bytes := []
  err : String := ""
  log : List LogLine := []
  store : Store

inductive Plan where
  | stop (code : ExitCode) (out err : String)
  | input (settings : Settings)
  | paths (settings : Settings) (paths : List String)

def versionLine (release : Option String) : String :=
  let number := release.getD "dev"
  s!"nlreturnfmt version {number}\n"

namespace Plan

def ofOptions (processors : Option Nat) (o : Options) : Plan :=
  match o.settings processors with
  | .error issues => .stop .usage "" (refusal o issues)
  | .ok settings =>
    if !o.paths.isEmpty then .paths settings o.paths
    else if settings.write then
      .stop .failed "" "error: -w flag is not supported when processing from stdin\n"
    else .input settings

def ofArguments (processors : Option Nat) (release : Option String) (arguments : List String) : Plan :=
  match Request.ofArguments arguments with
  | none => .stop .usage "" "usage error"
  | some .version => .stop .done (versionLine release) ""
  | some (.format o) => ofOptions processors o

end Plan

def inputUnit : String := "<stdin>"

def failText (trouble : Trouble) : String :=
  match trouble with
  | .failure f => s!"error: {f.text}\n"
  | _ => ""

def formatInput (s : Surroundings) (settings : Settings) (input : Bytes) : Outcome :=
  match format s.parser settings.toBlockRule inputUnit input with
  | .error trouble => { code := .failed, err := failText trouble, store := s.store }
  | .ok result =>
    { code := .done
      out := result.content
      err := if !result.modified && settings.verbose then "No changes needed\n" else ""
      log := result.log.filter (·.isShown settings.verbose)
      store := s.store }

def countLine (results : List Formatted) : LogLine :=
  ⟨.debug, s!"{results.length} file(s) processed, {(results.filter (·.modified)).length} modified"⟩

/-- How a finished run ends the command: exit code, message and closing log line. -/
def closing (r : Batch.Run) : ExitCode × String × List LogLine :=
  match r.main with
  | .ended (.ok ()) => (.done, "", [countLine r.results])
  | .ended (.error (.failure f)) =>
    if f.holdsCancellation then (.canceled, "operation canceled\n", [])
    else (.failed, failText (.failure f), [])
  | _ => (.failed, "", [])

def formatPaths (s : Surroundings) (settings : Settings) (paths : List String) : Outcome :=
  let r := Batch.run { settings, faults := s.faults, parser := s.parser } s.store paths s.alarm s.notice
  let (code, err, last) := closing r
  { code
    out := Bytes.ofString ("".intercalate r.printed)
    err
    log := (r.log ++ last).filter (·.isShown settings.verbose)
    store := r.store }

def Plan.outcome (s : Surroundings) (input : Bytes) : Plan → Outcome
  | .stop code out err => { code, out := Bytes.ofString out, err, store := s.store }
  | .input settings => formatInput s settings input
  | .paths settings given => formatPaths s settings given

def run (s : Surroundings) (arguments : List String) (input : Bytes) : Outcome :=
  (Plan.ofArguments s.processors s.release arguments).outcome s input

end ExitSpacing.Command
