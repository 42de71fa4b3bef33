import ExitSpacing.Batch.Run

/-! Schedules. A run's moves may come in any order; this module has the one in which
a worker that was started works alone until it is done, and its result is reported
before the walker goes on, so reports come in the order of the walk. -/
namespace ExitSpacing.Batch

inductive Alarm where
  | never
  | before
  | after (units : Nat)
  | during (unit : Nat)
  deriving DecidableEq, Repr

namespace Run

def isWalkerIdle (w : Walk) : Bool :=
  match w.walker with
  | .wait .. => w.free == 0
  | .join _ => true
  | .closed => true
  | _ => false

def isFormatting (r : Run) : Bool :=
  match r.main with
  | .format .. => true
  | _ => r.walk.any fun w => w.workers.any (·.stage == .formatting)

def isAt (r : Run) (unit : Nat) : Bool := r.formatted + 1 == unit && r.isFormatting

def isDue (r : Run) : Alarm → Bool
  | .never => false
  | .before => false
  | .after units => units ≤ r.formatted
  | .during unit => r.isAt unit && r.walk.all isWalkerIdle

def holdsBack (r : Run) : Alarm → Bool
  | .during unit => !r.canceled && r.isAt unit
  | _ => false

def nextMove (alarm : Alarm) (notice : Option LogLine) (r : Run) : Move :=
  if !r.canceled && r.isDue alarm then .cancel notice
  else match r.main, r.walk with
    | .drain _, some w =>
      if !r.holdsBack alarm && w.workers.any (·.stage != .finished) then
        .worker (w.workers.findIdx (·.stage != .finished))
      else if !w.queue.isEmpty then .main
      else .walker
    | _, _ => .main

def advance (env : Conditions) (alarm : Alarm) (notice : Option LogLine) : (moves : Nat) → Run → Run
  | 0, r => r
  | moves + 1, r => match step env (r.nextMove alarm notice) r with
    | some next => advance env alarm notice moves next
    | none => r

/-- More moves than a run over these paths makes: each item of the store is met at
most once for each path. -/
def moveLimit (store : Store) (paths : List String) : Nat :=
  (paths.length + 1) * (store.entries.length + 2) * 40

end Run

def run (env : Conditions) (store : Store) (paths : List String) (alarm : Alarm)
    (notice : Option LogLine) : Run :=
  (Run.begin store paths (alarm == .before)).advance env alarm notice (Run.moveLimit store paths)

structure Chapter where
  path : String
  results : List Formatted
  failures : List Failure
  printed : List String

namespace Run

def slice (xs : List α) (start stop : Nat) : List α := (xs.drop start).take (stop - start)

/-- How the last chapter ends: the closing notice of a canceled run belongs to no path. -/
def ending (r : Run) : Opening :=
  ⟨"", r.results.length, (r.failures.filter fun f => !f.isCanceled).length, r.printed.length⟩

def chapters (r : Run) : List Chapter :=
  List.zipWith (fun (a b : Opening) =>
      ⟨a.path, slice r.results a.results b.results, slice r.failures a.failures b.failures,
        slice r.printed a.printed b.printed⟩)
    r.openings (r.openings.drop 1 ++ [r.ending])

end Run
end ExitSpacing.Batch
