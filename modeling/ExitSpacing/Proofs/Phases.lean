import ExitSpacing.Proofs.Draining

/-! What a run comes to in a few moves of one actor: a path is opened and walked or formatted, a
walk lists its root, takes a slot, hands a file to a worker and waits, a worker works, and the
queue is read. A run that is followed from its start is put together of these. -/
namespace ExitSpacing.Batch

structure Phase (env : Conditions) (r : Run) (moves : List Move) (h : History) (uses : SlotUses) (last : Run) : Prop where
  replays : r.replay env moves = some (h, last)
  spends : r.slotUses env moves = uses

namespace Phase

section
variable {env : Conditions} {r middle last : Run} {moves before behind : List Move} {h later : History}
  {uses further : SlotUses}

theorem trace (phase : Phase env r moves h uses last) : Trace env r h last := Run.replayed phase.replays

theorem append (first : Phase env r before h uses middle) (second : Phase env middle behind later further last) :
    Phase env r (before ++ behind) (h ++ later) (uses ++ further) last := by
  obtain ⟨replays, spends⟩ := first
  induction before generalizing r h uses with
  | nil =>
    cases replays
    cases spends
    exact second
  | cons move moves ih =>
    rw [Run.replay] at replays
    split at replays
    · cases replays
    · rename_i next made
      obtain ⟨⟨rest, stop⟩, replays, same⟩ := Option.map_eq_some_iff.mp replays
      cases same
      obtain ⟨goesOn, spendsOn⟩ := ih replays rfl
      constructor
      · simp [Run.replay, made, goesOn]
      · simp [← spends, Run.slotUses, made, spendsOn]

end

section
variable {env : Conditions} {r : Run} {path : String} {rest : List String} (here : r.main = .next (path :: rest))
  (going : r.canceled = false) (plain : Path.hasNull path = false)
include here going plain

theorem walks (directory : r.store.isDirectory path = true) :
    Phase env r [.main, .main] [(r.turn + 1, .opened path), (r.turn + 1, .walked path)] []
      (Run.withWalk { r with
        main := .drain rest
        log := r.log ++ [⟨.debug, s!"Walking {path} with parallelism {env.settings.parallelism}"⟩]
        openings := r.openings ++ [r.opening path] } { root := path, free := env.settings.parallelism }) := by
  constructor <;> simp [Run.replay, Run.slotUses, Run.slotUse, step, Run.stepMain, Run.inspect, Run.lookUp, Run.goTo,
    Run.say, Run.withWalk, Run.events, Run.mainEvents, Run.turn, here, going, plain, directory]

theorem formats {item : Item} {source : Bytes} {x : Formatted} (file : r.store.isDirectory path = false)
    (unfaulted : env.faults.find? .stat path = none) (found : r.store.stat path = .ok item)
    (reads : env.faults.guarded .read path (r.store.read path) = .ok source)
    (made : Run.formatUnit env path source = .ok x) :
    Phase env r (List.replicate 4 .main)
      [(r.turn + 1, .opened path), (r.turn + 1, .read path source), (r.turn + 1, .kept path source),
        (r.turn + 1, .formatted path source (.ok x))] []
      { r with
        main := .apply x rest
        log := r.log ++ x.log
        formatted := r.formatted + 1
        openings := r.openings ++ [r.opening path] } := by
  constructor <;> simp [Run.replay, Run.slotUses, Run.slotUse, step, Run.stepMain, Run.inspect, Run.lookUp,
    Run.readFile, Run.goTo, Run.events, Run.mainEvents, Run.turn, here, going, plain, file, unfaulted, found, reads, made]

end

section
variable {env : Conditions} {r : Run} {x : Formatted} {rest : List String} (here : r.main = .apply x rest)
include here

theorem reports (fine : (x.report env.settings env.faults r.store).result = .ok ()) :
    Phase env r [.main] [(r.turn, .reported x none)] []
      { r with
        main := .next rest
        results := r.results ++ [x]
        printed := r.printed ++ (x.report env.settings env.faults r.store).printed
        store := (x.report env.settings env.faults r.store).store
        log := r.log ++ (x.report env.settings env.faults r.store).log } := by
  constructor <;> simp [Run.replay, Run.slotUses, Run.slotUse, step, Run.stepMain, Run.accept, Run.goTo, Run.events,
    Run.mainEvents, Run.reportEvents, Run.turn, here, fine]

theorem rejects {f : Failure} (failed : (x.report env.settings env.faults r.store).result = .error (.failure f)) :
    Phase env r [.main] [(r.turn, .reported x (some f))] []
      { r with
        main := .next rest
        results := r.results ++ [x]
        failures := r.failures ++ [f]
        printed := r.printed ++ (x.report env.settings env.faults r.store).printed
        store := (x.report env.settings env.faults r.store).store
        log := r.log ++ (x.report env.settings env.faults r.store).log ++
          [⟨.error, s!"Applying result failed for {x.unit}: {f.text}"⟩] } := by
  constructor <;> simp [Run.replay, Run.slotUses, Run.slotUse, step, Run.stepMain, Run.accept, Run.goTo, Run.collect,
    Run.say, Run.events, Run.mainEvents, Run.reportEvents, Run.turn, here, failed]

theorem escapes {trouble : Trouble} (cut : (x.report env.settings env.faults r.store).result = .error trouble)
    (other : ∀ f, trouble ≠ .failure f) :
    Phase env r [.main] [(r.turn, .reported x none), (r.turn, .escaped trouble)] []
      { r with
        main := .ended (.error trouble)
        results := r.results ++ [x]
        printed := r.printed ++ (x.report env.settings env.faults r.store).printed
        store := (x.report env.settings env.faults r.store).store
        log := r.log ++ (x.report env.settings env.faults r.store).log } := by
  cases trouble with
  | failure f => exact absurd rfl (other f)
  | _ =>
    constructor <;> simp [Run.replay, Run.slotUses, Run.slotUse, step, Run.stepMain, Run.accept, Run.goTo, Run.events,
      Run.mainEvents, Run.reportEvents, Run.turn, here, cut]

end

theorem finishes {env : Conditions} {r : Run} (here : r.main = .next []) (going : r.canceled = false) :
    Phase env r [.main] [(r.turn, .checked false)] [] (r.goTo (.ended (Run.verdict r.failures))) := by
  constructor <;> simp [Run.replay, Run.slotUses, Run.slotUse, step, Run.stepMain, Run.finish, Run.verdict, Run.goTo,
    Run.events, Run.mainEvents, Run.turn, here, going]

section
variable {env : Conditions} {r : Run} {w : Walk}

/-- The root is listed, and none of its directories gives a notice. -/
theorem lists {listing : Store.Listing} {files inner : List String} (here : w.walker = .begin)
    (going : r.canceled = false) (unfailed : w.failed = false)
    (kept : Path.isSkippedDirectory (Path.baseName w.root) = false)
    (listed : env.faults.guarded .list w.root (r.store.list w.root) = .ok listing)
    (visit : Visit.ofListing w.root listing = ⟨[], files, inner⟩) :
    Phase env (r.withWalk w) (List.replicate 4 .walker) [] [] (r.withWalk (w.goTo (.choose files inner))) := by
  constructor <;> simp [Run.replay, Run.slotUses, Run.slotUse, Run.walkerUse, step, Run.stepWalker, Run.listDirectory,
    Run.stops, Run.withWalk, Walk.goTo, Run.events, Run.walkerEvents, here, going, unfailed, kept, listed, visit]

theorem unlists {errno : Errno} (here : w.walker = .begin)
    (kept : Path.isSkippedDirectory (Path.baseName w.root) = false)
    (unlisted : env.faults.guarded .list w.root (r.store.list w.root) = .error (.system errno)) :
    Phase env (r.withWalk w) (List.replicate 2 .walker)
      [(r.turn, .unlisted w.root (.walk w.root (.system errno (some w.root))))] []
      (Run.withWalk { r with
        failures := r.failures ++ [.walk w.root (.system errno (some w.root))]
        log := r.log ++ [⟨.error, s!"Walk error: {(Cause.system errno (some w.root)).text}"⟩] }
          (Walk.goTo { w with failed := true } (.list []))) := by
  constructor <;> simp [Run.replay, Run.slotUses, Run.slotUse, Run.walkerUse, step, Run.stepWalker, Run.listDirectory,
    Run.collect, Run.say, Run.withWalk, Walk.goTo, Run.events, Run.walkerEvents, Run.turn, here, kept, unlisted]

section
variable {file : String} {files pending : List String}

theorem takes (here : w.walker = .choose (file :: files) pending) (going : r.canceled = false)
    (unfailed : w.failed = false) (unfaulted : env.faults.find? .isFile file = none)
    (present : r.store.isFile file = true) (free : w.free ≠ 0) :
    Phase env (r.withWalk w) (List.replicate 3 .walker) [] [(r.turn, .taken file)]
      (r.withWalk (w.acquire.goTo (.read file files pending))) := by
  constructor <;> simp [Run.replay, Run.slotUses, Run.slotUse, Run.walkerUse, step, Run.stepWalker, Run.stops,
    Run.withWalk, Walk.goTo, Walk.acquire, Run.events, Run.walkerEvents, Run.turn, here, going, unfailed,
    unfaulted, present, free]

section
variable {source : Bytes} (here : w.walker = .read file files pending)
  (reads : env.faults.guarded .read file (r.store.read file) = .ok source)
include here reads

theorem hands (starts : env.faults.find? .start file = none) :
    Phase env (r.withWalk w) (List.replicate 2 .walker) [(r.turn, .read file source), (r.turn, .handed file source)] []
      (r.withWalk (Walk.goTo { w with workers := w.workers ++ [{ path := file, source }] }
        (.prune [] w.joining files pending))) := by
  constructor <;> simp [Run.replay, Run.slotUses, Run.slotUse, Run.walkerUse, step, Run.stepWalker, Run.readFile,
    Run.startWorker, Run.withWalk, Walk.goTo, Run.events, Run.walkerEvents, Run.turn, here, reads, starts]

theorem refuses {message : String} (fails : env.faults.find? .start file = some (.unexpected message)) :
    Phase env (r.withWalk w) (List.replicate 2 .walker)
      [(r.turn, .read file source), (r.turn, .unhanded file (.other s!"{file}: {message}"))]
      [(r.turn, .returned file)]
      (Run.withWalk { r with
        failures := r.failures ++ [.other s!"{file}: {message}"]
        log := r.log ++ [⟨.error, s!"Could not start a worker for {file}: {message}"⟩] } w.release.leave) := by
  constructor <;> simp [Run.replay, Run.slotUses, Run.slotUse, Run.walkerUse, step, Run.stepWalker, Run.readFile,
    Run.startWorker, Run.collect, Run.say, Run.withWalk, Walk.goTo, Walk.release, Walk.leave, Run.events,
    Run.walkerEvents, Run.turn, here, reads, fails]

end

end

/-- Behind a worker the walker strikes off those that are done. -/
theorem strikes {kept left : List Nat} {files pending : List String} (here : w.walker = .prune kept left files pending) :
    Phase env (r.withWalk w) (List.replicate (left.length + 1) .walker) [] []
      (r.withWalk (Walk.goTo { w with joining := kept ++ left.filter (!w.isDone ·) ++ [w.workers.length - 1] }
        (.choose files pending))) := by
  induction left generalizing kept w with
  | nil =>
    constructor <;> simp [Run.replay, Run.slotUses, Run.slotUse, Run.walkerUse, step, Run.stepWalker, Run.withWalk,
      Walk.goTo, Run.events, Run.walkerEvents, here]
  | cons i left ih =>
    let fewer := if w.isDone i then kept else kept ++ [i]
    have first : Phase env (r.withWalk w) [.walker] [] [] (r.withWalk (w.goTo (.prune fewer left files pending))) := by
      constructor <;> simp [fewer, Run.replay, Run.slotUses, Run.slotUse, Run.walkerUse, step, Run.stepWalker,
        Run.withWalk, Walk.goTo, Run.events, Run.walkerEvents, here]
    have struck : kept ++ (i :: left).filter (!w.isDone ·) = fewer ++ left.filter (!w.isDone ·) := by
      cases done : w.isDone i <;> simp [fewer, done]
    rw [struck]
    exact first.append (ih (w := w.goTo (.prune fewer left files pending)) rfl)

theorem works {i : Nat} {file : String} {source : Bytes} {x : Formatted}
    (here : w.workers[i]? = some { path := file, source }) (made : Run.formatUnit env file source = .ok x) :
    Phase env (r.withWalk w) (List.replicate 3 (.worker i))
      [(r.turn, .formatted file source (.ok x)), (r.turn, .sent (.result x))] [(r.turn, .returned file)]
      (Run.withWalk { r with log := r.log ++ x.log, formatted := r.formatted + 1 }
        ((w.release.setWorker i ⟨file, source, .finished⟩).put (.result x))) := by
  obtain ⟨inside, worker⟩ := List.getElem?_eq_some_iff.mp here
  constructor <;> simp [Run.replay, Run.slotUses, Run.slotUse, Worker.use, step, Run.stepWorker, Run.withWalk,
    Walk.setWorker, Walk.release, Walk.put, Run.events, Run.workerEvents, Run.outcome, Run.turn, worker, made,
    inside]

theorem passes {pending : List String} (here : w.walker = .choose [] pending) :
    Phase env (r.withWalk w) [.walker] [] [] (r.withWalk (w.goTo (.list pending))) := by
  constructor <;> simp [Run.replay, Run.slotUses, Run.slotUse, Run.walkerUse, step, Run.stepWalker, Run.withWalk,
    Run.events, Run.walkerEvents, here]

theorem leaves (here : w.walker = .list []) : Phase env (r.withWalk w) [.walker] [] [] (r.withWalk w.leave) := by
  constructor <;> simp [Run.replay, Run.slotUses, Run.slotUse, Run.walkerUse, step, Run.stepWalker, Run.withWalk,
    Run.events, Run.walkerEvents, here]

theorem joins {left : List Nat} (here : w.walker = .join left) (done : left.all w.isDone = true) :
    Phase env (r.withWalk w) (List.replicate (left.length + 1) .walker) [(r.turn, .sent .closed)] []
      (r.withWalk ((w.put .closed).goTo .closed)) := by
  induction left generalizing w with
  | nil =>
    constructor <;> simp [Run.replay, Run.slotUses, Run.slotUse, Run.walkerUse, step, Run.stepWalker, Run.withWalk,
      Run.events, Run.walkerEvents, Run.turn, here]
  | cons i left ih =>
    obtain ⟨now, later⟩ := Bool.and_eq_true_iff.mp done
    have first : Phase env (r.withWalk w) [.walker] [] [] (r.withWalk (w.goTo (.join left))) := by
      constructor <;> simp [Run.replay, Run.slotUses, Run.slotUse, Run.walkerUse, step, Run.stepWalker, Run.withWalk,
        Run.events, Run.walkerEvents, here, now]
    exact first.append (ih (w := w.goTo (.join left)) rfl later)

section
variable {rest : List String} (here : r.main = .drain rest)
include here

theorem receives {x : Formatted} {queue : List Message} (first : w.queue = .result x :: queue)
    (fine : (x.report env.settings env.faults r.store).result = .ok ()) :
    Phase env (r.withWalk w) [.main] [(r.turn, .received (.result x)), (r.turn, .reported x none)] []
      (Run.withWalk { r with
        results := r.results ++ [x]
        printed := r.printed ++ (x.report env.settings env.faults r.store).printed
        store := (x.report env.settings env.faults r.store).store
        log := r.log ++ (x.report env.settings env.faults r.store).log } { w with queue }) := by
  constructor <;> simp [Run.replay, Run.slotUses, Run.slotUse, step, Run.stepMain, Run.receive, Run.accept, Run.withWalk,
    Run.goTo, Run.events, Run.mainEvents, Run.reportEvents, Run.turn, here, first, fine]

theorem closes {queue : List Message} (first : w.queue = .closed :: queue) :
    Phase env (r.withWalk w) [.main] [(r.turn, .received .closed)] [] { r with walk := none, main := .next rest } := by
  constructor <;> simp [Run.replay, Run.slotUses, Run.slotUse, step, Run.stepMain, Run.receive, Run.withWalk, Run.goTo,
    Run.events, Run.mainEvents, Run.turn, here, first]

end

end

end Phase
end ExitSpacing.Batch
