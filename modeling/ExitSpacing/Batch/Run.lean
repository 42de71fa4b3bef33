import ExitSpacing.Batch.Walk

/-! A run over a list of paths as a machine with three kinds of actors: the main
actor, which takes the paths in turn and reads a walk's queue; the walker; and its
workers. `step` says what one move of one actor does, and gives nothing when that
actor cannot move. Any interleaving of the moves is a run. -/
namespace ExitSpacing.Batch

structure Conditions where
  settings : Settings
  faults : Faults := []
  parser : Parser

inductive Main where
  | next (paths : List String)
  | inspect (path : String) (rest : List String)
  | read (path : String) (rest : List String)
  | format (path : String) (source : Bytes) (rest : List String)
  | apply (result : Formatted) (rest : List String)
  | drain (rest : List String)
  | ended (result : Except Trouble Unit)

structure Opening where
  path : String
  results : Nat
  failures : Nat
  printed : Nat
  deriving DecidableEq, Repr

structure Run where
  main : Main
  walk : Option Walk := none
  canceled : Bool := false
  results : List Formatted := []
  failures : List Failure := []
  printed : List String := []
  log : List LogLine := []
  store : Store
  formatted : Nat := 0
  openings : List Opening := []

inductive Move where
  | main
  | walker
  | worker (index : Nat)
  /-- The request to stop, with the line it leaves in the log. -/
  | cancel (notice : Option LogLine)
  deriving DecidableEq, Repr

namespace Run

def begin (store : Store) (paths : List String) (canceled : Bool) : Run :=
  { main := .next paths, store, canceled }

def goTo (r : Run) (main : Main) : Run := { r with main }
def say (r : Run) (level : Level) (message : String) : Run := { r with log := r.log ++ [⟨level, message⟩] }
def collect (r : Run) (f : Failure) : Run := { r with failures := r.failures ++ [f] }
def withWalk (r : Run) (w : Walk) : Run := { r with walk := some w }

def stops (r : Run) (w : Walk) : Bool := r.canceled || w.failed

def opening (r : Run) (path : String) : Opening :=
  ⟨path, r.results.length, r.failures.length, r.printed.length⟩

def formatUnit (env : Conditions) (path : String) (source : Bytes) : Except Trouble Formatted :=
  match env.faults.find? .format path with
  | some effect => .error effect.trouble
  | none => format env.parser env.settings.toBlockRule path source

/-- Collect a result and report it. What is no failure of the unit ends the run. -/
def accept (env : Conditions) (r : Run) (result : Formatted) (main : Main) : Run :=
  let report := result.report env.settings env.faults r.store
  let r := { r with
    results := r.results ++ [result]
    printed := r.printed ++ report.printed
    store := report.store
    log := r.log ++ report.log }
  match report.result with
  | .ok () => r.goTo main
  | .error (.failure f) =>
    ((r.say .error s!"Applying result failed for {result.unit}: {f.text}").collect f).goTo main
  | .error trouble => r.goTo (.ended (.error trouble))

def refuse (r : Run) (path : String) (rest : List String) : Trouble → Run
  | .failure f => ((r.say .error s!"Formatting failed for {path}: {f.text}").collect f).goTo (.next rest)
  | trouble => r.goTo (.ended (.error trouble))

def finish (r : Run) : Run :=
  let r := if r.canceled
    then (r.say .info "Formatting canceled; in-flight files were completed.").collect Failure.stopped
    else r
  r.goTo (.ended (if r.failures.isEmpty then .ok () else .error (.failure (.batch r.failures))))

def lookUp (env : Conditions) (r : Run) (path : String) : Except Trouble Bool :=
  if !Path.hasNull path && r.store.isDirectory path then .ok true
  else match env.faults.find? .stat path with
    | some (.system errno) => .error (.failure (.inaccessible path "stat" (.system errno none)))
    | some effect => .error effect.trouble
    | none =>
      if Path.hasNull path then .error .nullByte
      else match r.store.stat path with
        | .ok _ => .ok false
        | .error errno => .error (.failure (.inaccessible path "stat" (.system errno none)))

def inspect (env : Conditions) (r : Run) (path : String) (rest : List String) : Run :=
  match r.lookUp env path with
  | .ok true =>
    ((r.say .debug s!"Walking {path} with parallelism {env.settings.parallelism}").goTo
      (.drain rest)).withWalk { root := path, free := env.settings.parallelism }
  | .ok false => r.goTo (.read path rest)
  | .error (.failure f) => (r.collect f).goTo (.next rest)
  | .error trouble => r.goTo (.ended (.error trouble))

def readFile (env : Conditions) (r : Run) (path : String) : Except Trouble Bytes :=
  match env.faults.guarded .read path (r.store.read path) with
  | .ok source => .ok source
  | .error (.system errno) => .error (.failure (.inaccessible path "read" (.system errno none)))
  | .error effect => .error effect.trouble

def receive (env : Conditions) (r : Run) (w : Walk) (rest : List String) : Option Run :=
  match w.queue with
  | [] => none
  | message :: queue =>
    let r := r.withWalk { w with queue }
    match message with
    | .closed => some (Run.goTo { r with walk := none } (.next rest))
    | .skipped path =>
      let r := r.say .debug s!"{path} skipped"
      some { r with printed := r.printed ++ (skipNotice env.settings path).toList }
    | .result result => some (r.accept env result (.drain rest))

def stepMain (env : Conditions) (r : Run) : Option Run :=
  match r.main with
  | .next [] => some r.finish
  | .next (path :: rest) =>
    if r.canceled then some r.finish
    else some (Run.goTo { r with openings := r.openings ++ [r.opening path] } (.inspect path rest))
  | .inspect path rest => some (r.inspect env path rest)
  | .read path rest => match r.readFile env path with
    | .ok source => some (r.goTo (.format path source rest))
    | .error trouble => some (r.refuse path rest trouble)
  | .format path source rest =>
    let r := { r with formatted := r.formatted + 1 }
    match formatUnit env path source with
    | .ok result => some (Run.goTo { r with log := r.log ++ result.log } (.apply result rest))
    | .error trouble => some (r.refuse path rest trouble)
  | .apply result rest => some (r.accept env result (.next rest))
  | .drain rest => match r.walk with
    | some w => r.receive env w rest
    | none => none
  | .ended _ => none

def stopWalk (r : Run) (w : Walk) (cause : Cause) : Run :=
  ((r.say .error s!"Directory walk of {w.root} stopped unexpectedly: {cause.text}").collect
    (.walk w.root cause)).withWalk w.leave

def listDirectory (env : Conditions) (r : Run) (w : Walk) (path : String) (pending : List String) : Run :=
  match env.faults.guarded .list path (r.store.list path) with
  | .ok listing => r.withWalk (w.goTo (.arrived path listing pending))
  | .error (.system errno) =>
    let cause := Cause.system errno (some path)
    ((r.say .error s!"Walk error: {cause.text}").collect (.walk path cause)).withWalk
      (Walk.goTo { w with failed := true } (.list pending))
  | .error effect => r.stopWalk w (effect.cause none)

def startWorker (env : Conditions) (r : Run) (w : Walk) (file : String) (source : Bytes)
    (files pending : List String) : Run :=
  match env.faults.find? .start file with
  | none => r.withWalk (Walk.goTo { w with workers := w.workers ++ [{ path := file, source }] }
      (.prune [] w.joining files pending))
  | some (.unexpected message) =>
    ((r.say .error s!"Could not start a worker for {file}: {message}").collect
      (.other s!"{file}: {message}")).withWalk w.release.leave
  | some effect => r.stopWalk w (effect.cause none)

def stepWalker (env : Conditions) (r : Run) (w : Walk) : Option Run :=
  match w.walker with
  | .begin =>
    if Path.isSkippedDirectory (Path.baseName w.root) then
      some (r.withWalk (w.put (.skipped w.root)).leave)
    else some (r.withWalk (w.goTo (.list [w.root])))
  | .list [] => some (r.withWalk w.leave)
  | .list (path :: pending) => some (r.listDirectory env w path pending)
  | .arrived path listing pending =>
    if r.stops w then some (r.withWalk w.leave)
    else
      let visit := Visit.ofListing path listing
      some (r.withWalk (w.goTo (.notify visit.skipped visit.files (visit.inner ++ pending))))
  | .notify [] files pending => some (r.withWalk (w.goTo (.choose files pending)))
  | .notify (path :: skipped) files pending =>
    some (r.withWalk ((w.put (.skipped path)).goTo (.notify skipped files pending)))
  | .choose [] pending => some (r.withWalk (w.goTo (.list pending)))
  | .choose (file :: files) pending =>
    match env.faults.find? .isFile file with
    | some effect => some (r.stopWalk w (effect.cause none))
    | none =>
      if r.store.isFile file then some (r.withWalk (w.goTo (.wait file files pending)))
      else some (r.withWalk (w.goTo (.choose files pending)))
  | .wait file files pending =>
    if w.free = 0 then some (r.withWalk (w.goTo (.poll file files pending)))
    else some (r.withWalk (w.acquire.goTo (.check file files pending)))
  | .poll file files pending =>
    if r.stops w then some (r.withWalk w.leave)
    else some (r.withWalk (w.goTo (.wait file files pending)))
  | .check file files pending =>
    if r.stops w then some (r.withWalk w.release.leave)
    else some (r.withWalk (w.goTo (.read file files pending)))
  | .read file files pending => match r.readFile env file with
    | .ok source => some (r.withWalk (w.goTo (.start file source files pending)))
    | .error (.failure f) =>
      some (((r.say .error s!"Reading failed for {file}: {f.text}").collect f).withWalk
        (w.release.goTo (.choose files pending)))
    | .error (.system errno path) => some (r.stopWalk w (.system errno path))
    | .error trouble => some (r.stopWalk w (.words trouble.text))
  | .start file source files pending => some (r.startWorker env w file source files pending)
  | .prune kept [] files pending =>
    some (r.withWalk (Walk.goTo { w with joining := kept ++ [w.workers.length - 1] } (.choose files pending)))
  | .prune kept (i :: left) files pending =>
    let kept := if w.isDone i then kept else kept ++ [i]
    some (r.withWalk (w.goTo (.prune kept left files pending)))
  | .join [] => some (r.withWalk ((w.put .closed).goTo .closed))
  | .join (i :: left) => if w.isDone i then some (r.withWalk (w.goTo (.join left))) else none
  | .closed => none

def stepWorker (env : Conditions) (r : Run) (w : Walk) (i : Nat) (worker : Worker) : Option Run :=
  let next (w : Walk) (stage : WorkerStage) := w.setWorker i { worker with stage }
  match worker.stage with
  | .formatting =>
    let r := { r with formatted := r.formatted + 1 }
    match formatUnit env worker.path worker.source with
    | .ok result =>
      some (Run.withWalk { r with log := r.log ++ result.log } (next w (.releasing (some result))))
    | .error (.failure f) =>
      some (((r.say .error s!"Formatting failed for {worker.path}: {f.text}").collect f).withWalk
        (next w (.releasing none)))
    | .error trouble =>
      some (((r.say .error s!"Unexpected error while formatting {worker.path}: {trouble.text}").collect
        (.other s!"{worker.path}: {trouble.text}")).withWalk (next w (.releasing none)))
  | .releasing none => some (r.withWalk (next w.release .finished))
  | .releasing (some result) => some (r.withWalk (next w.release (.delivering result)))
  | .delivering result => some (r.withWalk (next (w.put (.result result)) .finished))
  | .finished => none

def cancel (r : Run) (notice : Option LogLine) : Run :=
  { r with canceled := true, log := r.log ++ notice.toList }

end Run

def step (env : Conditions) (move : Move) (r : Run) : Option Run :=
  match move with
  | .main => r.stepMain env
  | .walker => do r.stepWalker env (← r.walk)
  | .worker i => do
    let w ← r.walk
    r.stepWorker env w i (← w.workers[i]?)
  | .cancel notice => some (r.cancel notice)

end ExitSpacing.Batch
