import ExitSpacing.Batch.Run

/-! Histories of runs. An event says what one move did to a unit, a walk or the queue of a
walk; a history is the events of any order of moves, each with the turn of the path that
was being processed. What the moves did with the slots of a walk is recorded in the same way. -/
namespace ExitSpacing.Batch

inductive Event where
  | canceled
  | opened (path : String)
  | missing (path : String) (f : Failure)
  | walked (root : String)
  | unlisted (path : String) (f : Failure)
  /-- Something other than a listing stopped a walk. -/
  | broken (f : Failure)
  | read (path : String) (source : Bytes)
  | unread (path : String) (f : Failure)
  | handed (path : String) (source : Bytes)
  | unhanded (path : String) (f : Failure)
  /-- A direct path was read; the main actor formats it itself. -/
  | kept (path : String) (source : Bytes)
  | formatted (path : String) (source : Bytes) (outcome : Except Failure Formatted)
  | sent (m : Message)
  | received (m : Message)
  | reported (result : Formatted) (failure : Option Failure)
  | escaped (trouble : Trouble)
  | checked (canceled : Bool)

namespace Event

def failure? : Event → Option Failure
  | .missing _ f | .unlisted _ f | .broken f | .unread _ f | .unhanded _ f => some f
  | .formatted _ _ (.error f) => some f
  | .reported _ failure => failure
  | .checked true => some .stopped
  | _ => none

def task? : Event → Option (String × Bytes)
  | .handed path source | .kept path source => some (path, source)
  | _ => none

def handed? : Event → Option (String × Bytes)
  | .handed path source => some (path, source)
  | _ => none

/-- A file that is read, or whose reading fails. -/
def looked? : Event → Option String
  | .read path _ | .unread path _ => some path
  | _ => none

def tried? : Event → Option (String × Bytes)
  | .formatted path source _ => some (path, source)
  | _ => none

def made? : Event → Option Formatted
  | .formatted _ _ (.ok x) => some x
  | _ => none

def reported? : Event → Option Formatted
  | .reported x _ => some x
  | _ => none

def sent? : Event → Option Message
  | .sent m => some m
  | _ => none

def received? : Event → Option Message
  | .received m => some m
  | _ => none

def opened? : Event → Option String
  | .opened path => some path
  | _ => none

def walked? : Event → Option String
  | .walked root => some root
  | _ => none

def printed (s : Settings) : Event → List String
  | .reported x _ => (x.notice s).toList
  | .received (.skipped path) => (skipNotice s path).toList
  | _ => []

end Event

namespace Run

/-- What formatting a unit comes to where every exception is caught. -/
def outcome (env : Conditions) (path : String) (source : Bytes) : Except Failure Formatted :=
  match formatUnit env path source with
  | .ok x => .ok x
  | .error (.failure f) => .error f
  | .error trouble => .error (.other s!"{path}: {trouble.text}")

def reportEvents (env : Conditions) (r : Run) (x : Formatted) : List Event :=
  match (x.report env.settings env.faults r.store).result with
  | .ok () => [.reported x none]
  | .error (.failure f) => [.reported x (some f)]
  | .error trouble => [.reported x none, .escaped trouble]

def mainEvents (env : Conditions) (r : Run) : List Event :=
  match r.main with
  | .next [] => [.checked r.canceled]
  | .next (path :: _) => if r.canceled then [.checked true] else [.opened path]
  | .inspect path _ => match r.lookUp env path with
    | .ok true => [.walked path]
    | .ok false => []
    | .error (.failure f) => [.missing path f]
    | .error trouble => [.escaped trouble]
  | .read path _ => match r.readFile env path with
    | .ok source => [.read path source, .kept path source]
    | .error (.failure f) => [.unread path f]
    | .error trouble => [.escaped trouble]
  | .format path source _ => match formatUnit env path source with
    | .ok x => [.formatted path source (.ok x)]
    | .error (.failure f) => [.formatted path source (.error f)]
    | .error trouble => [.escaped trouble]
  | .apply x _ => r.reportEvents env x
  | .drain _ => match r.walk.bind (·.queue.head?) with
    | some (.result x) => .received (.result x) :: r.reportEvents env x
    | some m => [.received m]
    | none => []
  | .ended _ => []

def walkerEvents (env : Conditions) (r : Run) (w : Walk) : List Event :=
  match w.walker with
  | .begin => if Path.isSkippedDirectory (Path.baseName w.root) then [.sent (.skipped w.root)] else []
  | .list (path :: _) => match env.faults.guarded .list path (r.store.list path) with
    | .ok _ => []
    | .error (.system errno) => [.unlisted path (.walk path (.system errno (some path)))]
    | .error effect => [.broken (.walk w.root (effect.cause none))]
  | .notify (path :: _) _ _ => [.sent (.skipped path)]
  | .choose (file :: _) _ => match env.faults.find? .isFile file with
    | some effect => [.broken (.walk w.root (effect.cause none))]
    | none => []
  | .read file _ _ => match r.readFile env file with
    | .ok source => [.read file source]
    | .error (.failure f) => [.unread file f]
    | .error (.system errno path) => [.broken (.walk w.root (.system errno path))]
    | .error trouble => [.broken (.walk w.root (.words trouble.text))]
  | .start file source _ _ => match env.faults.find? .start file with
    | none => [.handed file source]
    | some (.unexpected message) => [.unhanded file (.other s!"{file}: {message}")]
    | some effect => [.broken (.walk w.root (effect.cause none))]
  | .join [] => [.sent .closed]
  | _ => []

def workerEvents (env : Conditions) (worker : Worker) : List Event :=
  match worker.stage with
  | .formatting => [.formatted worker.path worker.source (outcome env worker.path worker.source)]
  | .delivering x => [.sent (.result x)]
  | _ => []

def events (env : Conditions) (move : Move) (r : Run) : List Event :=
  match move with
  | .main => r.mainEvents env
  | .walker => match r.walk with
    | some w => r.walkerEvents env w
    | none => []
  | .worker i => match r.walk.bind (·.workers[i]?) with
    | some worker => workerEvents env worker
    | none => []
  | .cancel _ => [.canceled]

def turn (r : Run) : Nat := r.openings.length

end Run

abbrev History := List (Nat × Event)

namespace History

def failures (h : History) : List Failure := h.filterMap (·.2.failure?)
def tasks (h : History) : List (String × Bytes) := h.filterMap (·.2.task?)
def handed (h : History) : List (String × Bytes) := h.filterMap (·.2.handed?)
def tried (h : History) : List (String × Bytes) := h.filterMap (·.2.tried?)
def made (h : History) : List Formatted := h.filterMap (·.2.made?)
def reports (h : History) : List Formatted := h.filterMap (·.2.reported?)
def looked (h : History) : List String := h.filterMap (·.2.looked?)
def opened (h : History) : List String := h.filterMap (·.2.opened?)
def printed (h : History) (s : Settings) : List String := h.flatMap (·.2.printed s)

def during (h : History) (turn : Nat) : List Event := (h.filter (·.1 == turn)).map (·.2)

def sent (h : History) (turn : Nat) : List Message := (h.during turn).filterMap Event.sent?
def received (h : History) (turn : Nat) : List Message := (h.during turn).filterMap Event.received?
def walks (h : History) (turn : Nat) : List String := (h.during turn).filterMap Event.walked?

end History

/-- What a move does with a slot that was taken for a file. -/
inductive SlotUse where
  | taken (file : String)
  | returned (file : String)
  | lost (file : String)
  deriving DecidableEq, Repr

namespace SlotUse

def taken? : SlotUse → Option String
  | .taken file => some file
  | _ => none

def returned? : SlotUse → Option String
  | .returned file => some file
  | _ => none

def lost? : SlotUse → Option String
  | .lost file => some file
  | _ => none

end SlotUse

abbrev SlotUses := List (Nat × SlotUse)

namespace SlotUses

def pick (uses : SlotUses) (kind : SlotUse → Option String) (turn : Nat) : List String :=
  uses.filterMap fun entry => if entry.1 = turn then kind entry.2 else none

def taken (uses : SlotUses) (turn : Nat) : List String := uses.pick SlotUse.taken? turn
def returned (uses : SlotUses) (turn : Nat) : List String := uses.pick SlotUse.returned? turn
def lost (uses : SlotUses) (turn : Nat) : List String := uses.pick SlotUse.lost? turn

end SlotUses

def Run.walkerUse (env : Conditions) (r : Run) (w : Walk) : Option SlotUse :=
  match w.walker with
  | .wait file _ _ => if w.free = 0 then none else some (.taken file)
  | .check file _ _ => if r.stops w then some (.returned file) else none
  | .read file _ _ => match r.readFile env file with
    | .ok _ => none
    | .error (.failure _) => some (.returned file)
    | .error _ => some (.lost file)
  | .start file _ _ _ => match env.faults.find? .start file with
    | none => none
    | some (.unexpected _) => some (.returned file)
    | some (.system _) => some (.lost file)
  | _ => none

def Worker.use (worker : Worker) : Option SlotUse :=
  match worker.stage with
  | .releasing _ => some (.returned worker.path)
  | _ => none

def Run.slotUse (env : Conditions) (move : Move) (r : Run) : Option SlotUse :=
  match move with
  | .walker => r.walk.bind (r.walkerUse env)
  | .worker i => (r.walk.bind (·.workers[i]?)).bind Worker.use
  | .main | .cancel _ => none

def Run.slotUses (env : Conditions) : List Move → Run → SlotUses
  | [], _ => []
  | move :: moves, r => match step env move r with
    | none => []
    | some next => (r.slotUse env move).toList.map (r.turn, ·) ++ next.slotUses env moves

/-- Some order of moves leads from `start` to a run, and this is its history. -/
inductive Trace (env : Conditions) (start : Run) : History → Run → Prop where
  | start : Trace env start [] start
  | move {h : History} {r next : Run} (move : Move) (before : Trace env start h r)
      (made : step env move r = some next) :
      Trace env start (h ++ (r.events env move).map (next.turn, ·)) next

theorem Trace.append {env : Conditions} {a b c : Run} {h later : History} (trace : Trace env a h b)
    (more : Trace env b later c) : Trace env a (h ++ later) c := by
  induction more with
  | start => simpa using trace
  | move move before made ih =>
    rw [← List.append_assoc]
    exact ih.move move made

def Run.replay (env : Conditions) : List Move → Run → Option (History × Run)
  | [], r => some ([], r)
  | move :: moves, r => match step env move r with
    | none => none
    | some next => (next.replay env moves).map fun (later, last) =>
        ((r.events env move).map (next.turn, ·) ++ later, last)

theorem Run.replayed {env : Conditions} {moves : List Move} {r last : Run} {h : History}
    (made : r.replay env moves = some (h, last)) : Trace env r h last := by
  induction moves generalizing r h with
  | nil => cases made; exact .start
  | cons move moves ih =>
    rw [Run.replay] at made
    split at made
    · cases made
    · rename_i next moved
      obtain ⟨⟨later, stop⟩, more, same⟩ := Option.map_eq_some_iff.mp made
      cases same
      exact (Trace.start.move move moved).append (ih more)

end ExitSpacing.Batch
