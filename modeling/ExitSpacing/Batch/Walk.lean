import ExitSpacing.Report

/-! One walk of a directory tree: where the walker is, the workers it started, the
slots that bound how many are at work, and the queue to the one reader of results. A
worker gives its slot back before it delivers, and the queue is closed once, at the end. -/
namespace ExitSpacing.Batch

inductive Message where
  | skipped (path : String)
  | result (r : Formatted)
  | closed
  deriving DecidableEq, Repr

inductive WorkerStage where
  | formatting
  | releasing (result : Option Formatted)
  | delivering (result : Formatted)
  | finished
  deriving DecidableEq, Repr

structure Worker where
  path : String
  source : Bytes
  stage : WorkerStage := .formatting
  deriving DecidableEq, Repr

/-- Where the walker is. `files` are the paths of the current directory still to be
looked at, `pending` the directories still to be listed, deepest first. From `check`
to `start` the walker holds a slot. Behind each worker it starts, it strikes those that
are done off the workers it will wait for, one after another; at the end it waits for
the rest in turn. -/
inductive Walker where
  | begin
  | list (pending : List String)
  | arrived (path : String) (listing : Store.Listing) (pending : List String)
  | notify (skipped files pending : List String)
  | choose (files pending : List String)
  | wait (file : String) (files pending : List String)
  | poll (file : String) (files pending : List String)
  | check (file : String) (files pending : List String)
  | read (file : String) (files pending : List String)
  | start (file : String) (source : Bytes) (files pending : List String)
  | prune (kept left : List Nat) (files pending : List String)
  | join (left : List Nat)
  | closed
  deriving DecidableEq, Repr

structure Walk where
  root : String
  walker : Walker := .begin
  workers : List Worker := []
  joining : List Nat := []
  queue : List Message := []
  free : Nat
  failed : Bool := false
  deriving DecidableEq, Repr

namespace Walk

def goTo (w : Walk) (walker : Walker) : Walk := { w with walker }
def put (w : Walk) (m : Message) : Walk := { w with queue := w.queue ++ [m] }
def acquire (w : Walk) : Walk := { w with free := w.free - 1 }
def release (w : Walk) : Walk := { w with free := w.free + 1 }

def leave (w : Walk) : Walk := w.goTo (.join w.joining)

def isDone (w : Walk) (i : Nat) : Bool := w.workers[i]?.all (·.stage == .finished)

def setWorker (w : Walk) (i : Nat) (worker : Worker) : Walk :=
  { w with workers := w.workers.set i worker }

end Walk

def ascending (names : List String) : List String := names.mergeSort fun a b => decide (¬ b < a)

/-- What a directory's listing asks of the walker: the notices of its skipped
directories, the paths of its other names, and the directories to go into. -/
structure Visit where
  skipped : List String
  files : List String
  inner : List String
  deriving DecidableEq, Repr

def Visit.ofListing (path : String) (l : Store.Listing) : Visit where
  skipped := ((ascending (l.directories ++ l.linkedDirectories)).filter Path.isSkippedDirectory).map
    (Path.join path)
  files := ((ascending l.others).filter Path.isEligible).map (Path.join path)
  inner := ((ascending l.directories).filter fun n => !Path.isSkippedDirectory n).map (Path.join path)

end ExitSpacing.Batch
