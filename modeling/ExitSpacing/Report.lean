import ExitSpacing.Files.InPlace
import ExitSpacing.Settings
import ExitSpacing.Text.Utf8

/-! Reporting a result as the settings ask: say that it would change, write it in
place, or print it. -/
namespace ExitSpacing

structure Report where
  printed : List String := []
  store : Store
  log : List LogLine := []
  result : Except Trouble Unit := .ok ()

namespace Formatted

def notice (s : Settings) (r : Formatted) : Option String :=
  if !r.modified then
    if s.verbose then some s!"{r.unit}: no changes needed\n" else none
  else if s.dryRun then
    some (s!"{r.unit}: would be modified\n" ++ if s.verbose then r.details else "")
  else if s.write then
    if s.verbose then some s!"{r.unit}: formatted\n{r.details}" else none
  else some s!"// {r.unit} - formatted:\n{Utf8.decodeLossy r.content}\n"

def log (r : Formatted) : List LogLine :=
  if r.modified then [⟨.debug, s!"{r.unit}: {r.changes.length} blank line(s) inserted"⟩] else []

def isWritten (s : Settings) (r : Formatted) : Bool := r.modified && !s.dryRun && s.write

/-- The notice comes before the write. -/
def report (s : Settings) (faults : Faults) (store : Store) (r : Formatted) : Report :=
  let printed := (r.notice s).toList
  if r.isWritten s then
    let w := (InPlace.Write.begin store r.unit r.content).run faults
    ⟨printed, w.store, w.log, w.result⟩
  else { printed, store }

end Formatted

def skipNotice (s : Settings) (path : String) : Option String :=
  if s.verbose then some s!"{path} skipped\n" else none

end ExitSpacing
