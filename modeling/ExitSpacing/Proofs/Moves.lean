import ExitSpacing.Proofs.History

/-! What one move of each actor can do, with its guard, its events and the run it leads to.
Everything later about runs is read off these cases. -/
namespace ExitSpacing.Batch

/-- Where and why something other than a listing can stop the walker. -/
inductive Walker.Breakable (env : Conditions) (r : Run) : Walker → Prop where
  | list {path pending message} (failed : env.faults.guarded .list path (r.store.list path) = .error (.unexpected message)) :
      Breakable env r (.list (path :: pending))
  | choose {file files pending effect} (failed : env.faults.find? .isFile file = some effect) :
      Breakable env r (.choose (file :: files) pending)
  | read {file files pending trouble} (failed : r.readFile env file = .error trouble) (other : ∀ f, trouble ≠ .failure f) :
      Breakable env r (.read file files pending)
  | start {file source files pending effect} (failed : env.faults.find? .start file = some effect) :
      Breakable env r (.start file source files pending)

inductive WalkerMove (env : Conditions) (r : Run) (w : Walk) : List Event → List Failure → Walk → Prop where
  | skips (here : w.walker = .begin) (skipped : Path.isSkippedDirectory (Path.baseName w.root) = true) :
      WalkerMove env r w [.sent (.skipped w.root)] [] (w.put (.skipped w.root)).leave
  | begins (here : w.walker = .begin) (entered : Path.isSkippedDirectory (Path.baseName w.root) = false) :
      WalkerMove env r w [] [] (w.goTo (.list [w.root]))
  | exhausts (here : w.walker = .list []) : WalkerMove env r w [] [] w.leave
  | lists {path pending listing} (here : w.walker = .list (path :: pending))
      (listed : env.faults.guarded .list path (r.store.list path) = .ok listing) :
      WalkerMove env r w [] [] (w.goTo (.arrived path listing pending))
  | missesListing {path pending errno} (here : w.walker = .list (path :: pending))
      (failed : env.faults.guarded .list path (r.store.list path) = .error (.system errno)) :
      WalkerMove env r w [.unlisted path (.walk path (.system errno (some path)))]
        [.walk path (.system errno (some path))] (Walk.goTo { w with failed := true } (.list pending))
  | breaks {walker cause} (here : w.walker = walker) (breakable : walker.Breakable env r) :
      WalkerMove env r w [.broken (.walk w.root cause)] [.walk w.root cause] w.leave
  | turnsBack {path listing pending} (here : w.walker = .arrived path listing pending)
      (stops : r.stops w = true) : WalkerMove env r w [] [] w.leave
  | enters {path listing pending} (here : w.walker = .arrived path listing pending)
      (goes : r.stops w = false) :
      WalkerMove env r w [] [] (w.goTo (.notify (Visit.ofListing path listing).skipped
        (Visit.ofListing path listing).files ((Visit.ofListing path listing).inner ++ pending)))
  | notified {files pending} (here : w.walker = .notify [] files pending) :
      WalkerMove env r w [] [] (w.goTo (.choose files pending))
  | notifies {path skipped files pending} (here : w.walker = .notify (path :: skipped) files pending) :
      WalkerMove env r w [.sent (.skipped path)] [] ((w.put (.skipped path)).goTo (.notify skipped files pending))
  | leaves {pending} (here : w.walker = .choose [] pending) :
      WalkerMove env r w [] [] (w.goTo (.list pending))
  | chooses {file files pending} (here : w.walker = .choose (file :: files) pending)
      (regular : r.store.isFile file = true) : WalkerMove env r w [] [] (w.goTo (.wait file files pending))
  | passesOver {file files pending} (here : w.walker = .choose (file :: files) pending)
      (other : r.store.isFile file = false) : WalkerMove env r w [] [] (w.goTo (.choose files pending))
  | waits {file files pending} (here : w.walker = .wait file files pending) (full : w.free = 0) :
      WalkerMove env r w [] [] (w.goTo (.poll file files pending))
  | acquires {file files pending} (here : w.walker = .wait file files pending) (free : w.free ≠ 0) :
      WalkerMove env r w [] [] (w.acquire.goTo (.check file files pending))
  | givesUp {file files pending} (here : w.walker = .poll file files pending) (stops : r.stops w = true) :
      WalkerMove env r w [] [] w.leave
  | polls {file files pending} (here : w.walker = .poll file files pending) (goes : r.stops w = false) :
      WalkerMove env r w [] [] (w.goTo (.wait file files pending))
  | withdraws {file files pending} (here : w.walker = .check file files pending) (stops : r.stops w = true) :
      WalkerMove env r w [] [] w.release.leave
  | checks {file files pending} (here : w.walker = .check file files pending) (goes : r.stops w = false) :
      WalkerMove env r w [] [] (w.goTo (.read file files pending))
  | reads {file files pending source} (here : w.walker = .read file files pending)
      (found : r.readFile env file = .ok source) :
      WalkerMove env r w [.read file source] [] (w.goTo (.start file source files pending))
  | missesFile {file files pending f} (here : w.walker = .read file files pending)
      (failed : r.readFile env file = .error (.failure f)) :
      WalkerMove env r w [.unread file f] [f] (w.release.goTo (.choose files pending))
  | hands {file source files pending} (here : w.walker = .start file source files pending)
      (can : env.faults.find? .start file = none) :
      WalkerMove env r w [.handed file source] []
        (Walk.goTo { w with workers := w.workers ++ [{ path := file, source }] } (.prune [] w.joining files pending))
  | missesStart {file source files pending message} (here : w.walker = .start file source files pending)
      (failed : env.faults.find? .start file = some (.unexpected message)) :
      WalkerMove env r w [.unhanded file (.other s!"{file}: {message}")] [.other s!"{file}: {message}"]
        w.release.leave
  | prunes {kept i left files pending} (here : w.walker = .prune kept (i :: left) files pending) :
      WalkerMove env r w [] [] (w.goTo (.prune (if w.isDone i then kept else kept ++ [i]) left files pending))
  | pruned {kept files pending} (here : w.walker = .prune kept [] files pending) :
      WalkerMove env r w [] []
        (Walk.goTo { w with joining := kept ++ [w.workers.length - 1] } (.choose files pending))
  | joins {i left} (here : w.walker = .join (i :: left)) (done : w.isDone i = true) :
      WalkerMove env r w [] [] (w.goTo (.join left))
  | closes (here : w.walker = .join []) :
      WalkerMove env r w [.sent .closed] [] ((w.put .closed).goTo .closed)

inductive WorkerMove (env : Conditions) (w : Walk) (i : Nat) (worker : Worker) :
    List Event → List Failure → Walk → Prop where
  | formats (here : worker.stage = .formatting) {x : Formatted}
      (made : Run.outcome env worker.path worker.source = .ok x) :
      WorkerMove env w i worker [.formatted worker.path worker.source (.ok x)] []
        (w.setWorker i { worker with stage := .releasing (some x) })
  | fails (here : worker.stage = .formatting) {f : Failure}
      (failed : Run.outcome env worker.path worker.source = .error f) :
      WorkerMove env w i worker [.formatted worker.path worker.source (.error f)] [f]
        (w.setWorker i { worker with stage := .releasing none })
  | ends (here : worker.stage = .releasing none) :
      WorkerMove env w i worker [] [] (w.release.setWorker i { worker with stage := .finished })
  | releases {x} (here : worker.stage = .releasing (some x)) :
      WorkerMove env w i worker [] [] (w.release.setWorker i { worker with stage := .delivering x })
  | delivers {x} (here : worker.stage = .delivering x) :
      WorkerMove env w i worker [.sent (.result x)] []
        ((w.put (.result x)).setWorker i { worker with stage := .finished })

inductive Accepts (env : Conditions) (r : Run) (x : Formatted) (main : Main) : List Event → Run → Prop where
  | reports {log} (fine : (x.report env.settings env.faults r.store).result = .ok ()) :
      Accepts env r x main [.reported x none] { r with
        main, log
        results := r.results ++ [x]
        printed := r.printed ++ (x.notice env.settings).toList
        store := (x.report env.settings env.faults r.store).store }
  | fails {log f} (failed : (x.report env.settings env.faults r.store).result = .error (.failure f)) :
      Accepts env r x main [.reported x (some f)] { r with
        main, log
        results := r.results ++ [x]
        failures := r.failures ++ [f]
        printed := r.printed ++ (x.notice env.settings).toList
        store := (x.report env.settings env.faults r.store).store }
  | escapes {log trouble} (failed : (x.report env.settings env.faults r.store).result = .error trouble)
      (other : ∀ f, trouble ≠ .failure f) :
      Accepts env r x main [.reported x none, .escaped trouble] { r with
        main := .ended (.error trouble), log
        results := r.results ++ [x]
        printed := r.printed ++ (x.notice env.settings).toList
        store := (x.report env.settings env.faults r.store).store }

inductive MainMove (env : Conditions) (r : Run) : List Event → Run → Prop where
  | finishes {paths} (here : r.main = .next paths) (last : paths = [] ∨ r.canceled = true) :
      MainMove env r [.checked r.canceled] r.finish
  | opens {path rest} (here : r.main = .next (path :: rest)) (goes : r.canceled = false) :
      MainMove env r [.opened path] { r with
        main := .inspect path rest, openings := r.openings ++ [r.opening path] }
  | walks {path rest log} (here : r.main = .inspect path rest) (found : r.lookUp env path = .ok true) :
      MainMove env r [.walked path] { r with
        main := .drain rest, log, walk := some { root := path, free := env.settings.parallelism } }
  | looks {path rest} (here : r.main = .inspect path rest) (found : r.lookUp env path = .ok false) :
      MainMove env r [] { r with main := .read path rest }
  | misses {path rest f} (here : r.main = .inspect path rest) (failed : r.lookUp env path = .error (.failure f)) :
      MainMove env r [.missing path f] { r with main := .next rest, failures := r.failures ++ [f] }
  | reads {path rest source} (here : r.main = .read path rest) (found : r.readFile env path = .ok source) :
      MainMove env r [.read path source, .kept path source] { r with main := .format path source rest }
  | missesFile {path rest f log} (here : r.main = .read path rest)
      (failed : r.readFile env path = .error (.failure f)) :
      MainMove env r [.unread path f] { r with main := .next rest, failures := r.failures ++ [f], log }
  | formats {path source rest x log} (here : r.main = .format path source rest)
      (made : Run.formatUnit env path source = .ok x) :
      MainMove env r [.formatted path source (.ok x)] { r with
        main := .apply x rest, log, formatted := r.formatted + 1 }
  | fails {path source rest f log} (here : r.main = .format path source rest)
      (failed : Run.formatUnit env path source = .error (.failure f)) :
      MainMove env r [.formatted path source (.error f)] { r with
        main := .next rest, failures := r.failures ++ [f], log, formatted := r.formatted + 1 }
  | escapes {trouble formatted} (here :
        (∃ path rest, r.main = .inspect path rest ∧ r.lookUp env path = .error trouble) ∨
        (∃ path rest, r.main = .read path rest ∧ r.readFile env path = .error trouble) ∨
        ∃ path source rest, r.main = .format path source rest ∧ Run.formatUnit env path source = .error trouble)
      (other : ∀ f, trouble ≠ .failure f) :
      MainMove env r [.escaped trouble] { r with main := .ended (.error trouble), formatted }
  | applies {x rest events next} (here : r.main = .apply x rest) (accepts : Accepts env r x (.next rest) events next) :
      MainMove env r events next
  | closes {rest w queue} (here : r.main = .drain rest) (walk : r.walk = some w) (first : w.queue = .closed :: queue) :
      MainMove env r [.received .closed] { r with main := .next rest, walk := none }
  | notes {rest w path queue log} (here : r.main = .drain rest) (walk : r.walk = some w)
      (first : w.queue = .skipped path :: queue) :
      MainMove env r [.received (.skipped path)] { r with
        walk := some { w with queue }, log
        printed := r.printed ++ (skipNotice env.settings path).toList }
  | receives {rest w x queue events next} (here : r.main = .drain rest) (walk : r.walk = some w)
      (first : w.queue = .result x :: queue)
      (accepts : Accepts env { r with walk := some { w with queue } } x (.drain rest) events next) :
      MainMove env r (.received (.result x) :: events) next

inductive Moves (env : Conditions) (r : Run) : List Event → Run → Prop where
  | cancels {log} : Moves env r [.canceled] { r with canceled := true, log }
  | main {events next} (move : MainMove env r events next) : Moves env r events next
  | walker {w events failures walk log} (here : r.walk = some w) (move : WalkerMove env r w events failures walk) :
      Moves env r events { r with walk := some walk, failures := r.failures ++ failures, log }
  | worker {w i worker events failures walk log formatted} (here : r.walk = some w)
      (employed : w.workers[i]? = some worker) (move : WorkerMove env w i worker events failures walk) :
      Moves env r events { r with walk := some walk, failures := r.failures ++ failures, log, formatted }

section
variable {env : Conditions} {r next : Run} {w walk : Walk} {events : List Event}

def Run.Walked (env : Conditions) (r : Run) (w : Walk) (events : List Event) (next : Run) : Prop :=
  ∃ failures walk log, WalkerMove env r w events failures walk ∧
    next = { r with walk := some walk, failures := r.failures ++ failures, log }

theorem WalkerMove.quiet (move : WalkerMove env r w events [] walk) : Run.Walked env r w events (r.withWalk walk) :=
  ⟨[], walk, r.log, move, by simp only [Run.withWalk, List.append_nil]⟩

theorem WalkerMove.failing {f : Failure} {level : Level} {message : String}
    (move : WalkerMove env r w events [f] walk) :
    Run.Walked env r w events (((r.say level message).collect f).withWalk walk) :=
  ⟨[f], walk, _, move, rfl⟩

theorem walkerMoves (made : r.stepWalker env w = some next) :
    Run.Walked env r w (r.walkerEvents env w) next := by
  -- The events are told apart from the step, so each look that decides between moves is taken in
  -- `made` and in the goal at once.
  cases here : w.walker with
  | begin =>
    simp only [Run.stepWalker, Run.walkerEvents, here] at made ⊢
    split at made <;> rename_i skipped <;> cases made
    · simp only [if_pos skipped]
      exact (WalkerMove.skips here skipped).quiet
    · simp only [if_neg skipped]
      exact (WalkerMove.begins here (Bool.eq_false_iff.mpr skipped)).quiet
  | list pending =>
    cases pending with
    | nil =>
      simp only [Run.stepWalker, Run.walkerEvents, here] at made ⊢
      cases made
      exact (WalkerMove.exhausts here).quiet
    | cons path pending =>
      simp only [Run.stepWalker, Run.walkerEvents, Run.listDirectory, here] at made ⊢
      cases found : env.faults.guarded .list path (r.store.list path) with
      | ok listing =>
        simp only [found] at made ⊢
        cases made
        exact (WalkerMove.lists here found).quiet
      | error effect =>
        cases effect <;> simp only [found] at made ⊢ <;> cases made
        · exact (WalkerMove.missesListing here found).failing
        · exact (WalkerMove.breaks here (.list found)).failing
  | arrived path listing pending =>
    simp only [Run.stepWalker, Run.walkerEvents, here] at made ⊢
    split at made <;> rename_i stops <;> cases made
    · exact (WalkerMove.turnsBack here stops).quiet
    · exact (WalkerMove.enters here (Bool.eq_false_iff.mpr stops)).quiet
  | notify skipped files pending =>
    cases skipped with
    | nil =>
      simp only [Run.stepWalker, Run.walkerEvents, here] at made ⊢
      cases made
      exact (WalkerMove.notified here).quiet
    | cons path skipped =>
      simp only [Run.stepWalker, Run.walkerEvents, here] at made ⊢
      cases made
      exact (WalkerMove.notifies here).quiet
  | choose files pending =>
    cases files with
    | nil =>
      simp only [Run.stepWalker, Run.walkerEvents, here] at made ⊢
      cases made
      exact (WalkerMove.leaves here).quiet
    | cons file files =>
      simp only [Run.stepWalker, Run.walkerEvents, here] at made ⊢
      cases fault : env.faults.find? .isFile file with
      | some effect =>
        simp only [fault] at made ⊢
        cases made
        exact (WalkerMove.breaks here (.choose fault)).failing
      | none =>
        simp only [fault] at made ⊢
        split at made <;> rename_i regular <;> cases made
        · exact (WalkerMove.chooses here regular).quiet
        · exact (WalkerMove.passesOver here (Bool.eq_false_iff.mpr regular)).quiet
  | wait file files pending =>
    simp only [Run.stepWalker, Run.walkerEvents, here] at made ⊢
    split at made <;> rename_i full <;> cases made
    · exact (WalkerMove.waits here full).quiet
    · exact (WalkerMove.acquires here full).quiet
  | poll file files pending =>
    simp only [Run.stepWalker, Run.walkerEvents, here] at made ⊢
    split at made <;> rename_i stops <;> cases made
    · exact (WalkerMove.givesUp here stops).quiet
    · exact (WalkerMove.polls here (Bool.eq_false_iff.mpr stops)).quiet
  | check file files pending =>
    simp only [Run.stepWalker, Run.walkerEvents, here] at made ⊢
    split at made <;> rename_i stops <;> cases made
    · exact (WalkerMove.withdraws here stops).quiet
    · exact (WalkerMove.checks here (Bool.eq_false_iff.mpr stops)).quiet
  | read file files pending =>
    simp only [Run.stepWalker, Run.walkerEvents, here] at made ⊢
    cases found : r.readFile env file with
    | ok source =>
      simp only [found] at made ⊢
      cases made
      exact (WalkerMove.reads here found).quiet
    | error trouble =>
      cases trouble <;> simp only [found] at made ⊢ <;> cases made
      case failure.refl => exact (WalkerMove.missesFile here found).failing
      all_goals exact (WalkerMove.breaks here (.read found (by simp))).failing
  | start file source files pending =>
    simp only [Run.stepWalker, Run.walkerEvents, Run.startWorker, here] at made ⊢
    cases found : env.faults.find? .start file with
    | none =>
      simp only [found] at made ⊢
      cases made
      exact (WalkerMove.hands here found).quiet
    | some effect =>
      cases effect <;> simp only [found] at made ⊢ <;> cases made
      · exact (WalkerMove.breaks here (.start found)).failing
      · exact (WalkerMove.missesStart here found).failing
  | prune kept left files pending =>
    cases left with
    | nil =>
      simp only [Run.stepWalker, Run.walkerEvents, here] at made ⊢
      cases made
      exact (WalkerMove.pruned here).quiet
    | cons i left =>
      simp only [Run.stepWalker, Run.walkerEvents, here] at made ⊢
      cases made
      exact (WalkerMove.prunes here).quiet
  | join left =>
    cases left with
    | nil =>
      simp only [Run.stepWalker, Run.walkerEvents, here] at made ⊢
      cases made
      exact (WalkerMove.closes here).quiet
    | cons i left =>
      simp only [Run.stepWalker, Run.walkerEvents, here] at made ⊢
      split at made <;> rename_i done <;> cases made
      exact (WalkerMove.joins here done).quiet
  | closed => simp only [Run.stepWalker, here, reduceCtorEq] at made

def Run.Worked (env : Conditions) (r : Run) (w : Walk) (i : Nat) (worker : Worker) (events : List Event)
    (next : Run) : Prop :=
  ∃ failures walk log formatted, WorkerMove env w i worker events failures walk ∧
    next = { r with walk := some walk, failures := r.failures ++ failures, log, formatted }

theorem WorkerMove.quiet {i : Nat} {worker : Worker} {log : List LogLine} {formatted : Nat}
    (move : WorkerMove env w i worker events [] walk) :
    Run.Worked env r w i worker events (Run.withWalk { r with log, formatted } walk) :=
  ⟨[], walk, log, formatted, move, by simp only [Run.withWalk, List.append_nil]⟩

theorem WorkerMove.failing {i : Nat} {worker : Worker} {f : Failure} {level : Level} {message : String} {formatted : Nat}
    (move : WorkerMove env w i worker events [f] walk) :
    Run.Worked env r w i worker events (((Run.say { r with formatted } level message).collect f).withWalk walk) :=
  ⟨[f], walk, _, formatted, move, rfl⟩

theorem workerMoves {i : Nat} {worker : Worker} (made : r.stepWorker env w i worker = some next) :
    Run.Worked env r w i worker (Run.workerEvents env worker) next := by
  cases here : worker.stage with
  | formatting =>
    simp only [Run.stepWorker, Run.workerEvents, Run.outcome, here] at made ⊢
    cases found : Run.formatUnit env worker.path worker.source with
    | ok x =>
      simp only [found] at made ⊢
      cases made
      exact (WorkerMove.formats here (by simp only [Run.outcome, found])).quiet
    | error trouble =>
      cases trouble <;> simp only [found] at made ⊢ <;> cases made <;>
        exact (WorkerMove.fails here (by simp only [Run.outcome, found])).failing
  | releasing result =>
    cases result with
    | none =>
      simp only [Run.stepWorker, Run.workerEvents, here] at made ⊢
      cases made
      exact (WorkerMove.ends here).quiet
    | some x =>
      simp only [Run.stepWorker, Run.workerEvents, here] at made ⊢
      cases made
      exact (WorkerMove.releases here).quiet
  | delivering x =>
    simp only [Run.stepWorker, Run.workerEvents, here] at made ⊢
    cases made
    exact (WorkerMove.delivers here).quiet
  | finished => simp only [Run.stepWorker, here, reduceCtorEq] at made

theorem reportPrinted (s : Settings) (faults : Faults) (store : Store) (x : Formatted) :
    (x.report s faults store).printed = (x.notice s).toList := by
  unfold Formatted.report
  split <;> rfl

theorem accepts (env : Conditions) (r : Run) (x : Formatted) (main : Main) :
    Accepts env r x main (r.reportEvents env x) (r.accept env x main) := by
  cases report : (x.report env.settings env.faults r.store).result with
  | ok done =>
    simp only [Run.reportEvents, Run.accept, report, reportPrinted]
    exact .reports report
  | error trouble =>
    cases trouble with
    | failure f =>
      simp only [Run.reportEvents, Run.accept, report, reportPrinted]
      exact .fails report
    | system | unexpected | nullByte | pass =>
      simp only [Run.reportEvents, Run.accept, report, reportPrinted]
      exact .escapes report (by simp)

theorem mainMoves (made : r.stepMain env = some next) : MainMove env r (r.mainEvents env) next := by
  cases here : r.main with
  | next paths =>
    cases paths with
    | nil =>
      simp only [Run.stepMain, Run.mainEvents, here] at made ⊢
      cases made
      exact .finishes here (.inl rfl)
    | cons path rest =>
      simp only [Run.stepMain, Run.mainEvents, here] at made ⊢
      split at made <;> rename_i canceled <;> cases made
      · simp only [if_pos canceled]
        -- The final check notes that there was a request to stop, which is why it is reached here.
        have finished : MainMove env r [.checked r.canceled] r.finish := .finishes here (.inr canceled)
        simpa only [canceled] using finished
      · simp only [if_neg canceled]
        exact .opens here (Bool.eq_false_iff.mpr canceled)
  | inspect path rest =>
    simp only [Run.stepMain, Run.mainEvents, Run.inspect, here] at made ⊢
    cases found : r.lookUp env path with
    | ok directory =>
      cases directory <;> simp only [found] at made ⊢ <;> cases made
      · exact .looks here found
      · exact .walks here found
    | error trouble =>
      cases trouble <;> simp only [found] at made ⊢ <;> cases made
      case failure.refl => exact .misses here found
      all_goals exact .escapes (.inl ⟨path, rest, here, found⟩) (by simp)
  | read path rest =>
    simp only [Run.stepMain, Run.mainEvents, Run.refuse, here] at made ⊢
    cases found : r.readFile env path with
    | ok source =>
      simp only [found] at made ⊢
      cases made
      exact .reads here found
    | error trouble =>
      cases trouble <;> simp only [found] at made ⊢ <;> cases made
      case failure.refl => exact .missesFile here found
      all_goals exact .escapes (.inr (.inl ⟨path, rest, here, found⟩)) (by simp)
  | format path source rest =>
    simp only [Run.stepMain, Run.mainEvents, Run.refuse, here] at made ⊢
    cases found : Run.formatUnit env path source with
    | ok x =>
      simp only [found] at made ⊢
      cases made
      exact .formats here found
    | error trouble =>
      cases trouble <;> simp only [found] at made ⊢ <;> cases made
      case failure.refl => exact .fails here found
      all_goals exact .escapes (.inr (.inr ⟨path, source, rest, here, found⟩)) (by simp)
  | apply x rest =>
    simp only [Run.stepMain, Run.mainEvents, here] at made ⊢
    cases made
    exact .applies here (accepts env r x _)
  | drain rest =>
    simp only [Run.stepMain, Run.mainEvents, Run.receive, here] at made ⊢
    cases walk : r.walk with
    | none => simp only [walk, reduceCtorEq] at made
    | some w =>
      simp only [walk, Option.bind_some] at made ⊢
      cases first : w.queue with
      | nil => simp only [first, reduceCtorEq] at made
      | cons m queue =>
        simp only [first, List.head?_cons] at made ⊢
        cases m with
        | closed =>
          cases made
          exact .closes here walk first
        | skipped path =>
          cases made
          exact .notes here walk first
        | result x =>
          cases made
          exact .receives here walk first (accepts env _ x _)
  | ended result => simp only [Run.stepMain, here, reduceCtorEq] at made

theorem stepMoves {move : Move} (made : step env move r = some next) : Moves env r (r.events env move) next := by
  cases move with
  | main => exact .main (mainMoves made)
  | walker =>
    cases here : r.walk with
    | none => simp only [step, here, bind, Option.bind_none, reduceCtorEq] at made
    | some w =>
      simp only [step, here, bind, Option.bind_some] at made
      obtain ⟨failures, walk, log, moves, rfl⟩ := walkerMoves made
      simp only [Run.events, here]
      exact .walker here moves
  | worker i =>
    cases here : r.walk with
    | none => simp only [step, here, bind, Option.bind_none, reduceCtorEq] at made
    | some w =>
      simp only [step, here, bind, Option.bind_some] at made
      cases employed : w.workers[i]? with
      | none => simp only [employed, Option.bind_none, reduceCtorEq] at made
      | some worker =>
        simp only [employed, Option.bind_some] at made
        obtain ⟨failures, walk, log, formatted, moves, rfl⟩ := workerMoves made
        simp only [Run.events, here, Option.bind_some, employed]
        exact .worker here employed moves
  | cancel notice =>
    cases made
    exact .cancels

end

/-- A property of histories and runs holds all along when each move keeps it. -/
theorem Trace.keeps {env : Conditions} {start r : Run} {h : History} {P : History → Run → Prop} (atStart : P [] start)
    (step : ∀ {h r events next}, P h r → Moves env r events next → P (h ++ events.map (next.turn, ·)) next)
    (trace : Trace env start h r) : P h r := by
  induction trace with
  | start => exact atStart
  | move move before made ih => exact step ih (stepMoves made)

end ExitSpacing.Batch
