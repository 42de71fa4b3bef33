import ExitSpacing.Batch.Schedule
import ExitSpacing.Proofs.Escaping
import ExitSpacing.Proofs.Slots
import Mathlib.Algebra.GroupWithZero.Nat
import Mathlib.Data.Prod.Lex
import Mathlib.Order.WellFounded

/-! Runs go on and come to an end. Every move but one of a walker that waits for a slot makes
what is left to do smaller, and unless a run has ended such a move is possible. -/
namespace ExitSpacing

/-- What a walk still does in a directory it goes into, at most. -/
def Batch.Visit.weight (v : Batch.Visit) : Nat := v.skipped.length + 6 * v.files.length + v.inner.length + 3

namespace Store

def load (s : Store) (path : String) : Nat := ((s.visits path).map Batch.Visit.weight).sum

def pendingLoad (s : Store) (pending : List String) : Nat := (pending.map fun path => s.load path + 1).sum

section
variable {s : Store}

theorem pendingLoadIs (pending : List String) :
    s.pendingLoad pending = ((pending.flatMap s.visits).map Batch.Visit.weight).sum + pending.length := by
  induction pending with
  | nil => rfl
  | cons path pending ih =>
    simp only [pendingLoad, load, List.map_cons, List.sum_cons, List.flatMap_cons, List.map_append, List.sum_append,
      List.length_cons] at ih ⊢
    omega

theorem loadListed (wellFormed : s.WellFormed) {path : String} {listing : Listing} (ok : s.list path = .ok listing) :
    s.load path = (Batch.Visit.ofListing path listing).skipped.length +
      6 * (Batch.Visit.ofListing path listing).files.length + 3 +
      s.pendingLoad (Batch.Visit.ofListing path listing).inner := by
  rw [load, visitsListed wellFormed ok, pendingLoadIs, List.map_cons, List.sum_cons, Batch.Visit.weight]
  omega

theorem pendingLoadAppend (a b : List String) : s.pendingLoad (a ++ b) = s.pendingLoad a + s.pendingLoad b := by
  simp [pendingLoad]

@[simp] theorem pendingLoadNil : s.pendingLoad [] = 0 := rfl

@[simp] theorem pendingLoadCons (path : String) (pending : List String) :
    s.pendingLoad (path :: pending) = s.load path + 1 + s.pendingLoad pending := by
  simp [pendingLoad]

end
end Store

namespace Batch

def Walk.load (s : Store) (w : Walk) : Nat :=
  match w.walker with
  | .begin => s.load w.root + 4
  | .list pending => s.pendingLoad pending + 2
  | .arrived path listing pending =>
    (Visit.ofListing path listing).skipped.length + 6 * (Visit.ofListing path listing).files.length + 5 +
      s.pendingLoad ((Visit.ofListing path listing).inner ++ pending)
  | .notify skipped files pending => skipped.length + 6 * files.length + 4 + s.pendingLoad pending
  | .choose files pending | .prune _ _ files pending => 6 * files.length + 3 + s.pendingLoad pending
  | .wait _ files pending | .poll _ files pending => 6 * files.length + 8 + s.pendingLoad pending
  | .check _ files pending => 6 * files.length + 7 + s.pendingLoad pending
  | .read _ files pending => 6 * files.length + 6 + s.pendingLoad pending
  | .start _ _ files pending => 6 * files.length + 5 + s.pendingLoad pending
  | .join _ => 1
  | .closed => 0

/-- The turns of the walker within one stage. A walker that waits polls until it gets a slot,
or until it sees that it has to stop. -/
def Walker.turns (stops : Bool) : Walker → Nat
  | .prune _ left _ _ => left.length + 1
  | .join left => left.length
  | .wait .. => stops.toNat
  | .poll .. => (!stops).toNat
  | _ => 0

def Worker.rank (worker : Worker) : Nat :=
  match worker.stage with
  | .formatting => 4
  | .releasing _ => 3
  | .delivering _ => 2
  | .finished => 0

def Walk.busy (stops : Bool) (w : Walk) : Nat :=
  w.walker.turns stops + (w.workers.map Worker.rank).sum + w.queue.length

def Main.rank : Main → Nat
  | .next paths => 8 * paths.length + 1
  | .inspect _ rest => 8 * rest.length + 8
  | .read _ rest => 8 * rest.length + 7
  | .format _ _ rest => 8 * rest.length + 6
  | .apply _ rest => 8 * rest.length + 5
  | .drain rest => 8 * rest.length + 4
  | .ended _ => 0

/-- What a run still does, first of all by its paths, then by its walk. -/
def Run.size (s : Store) (r : Run) : Nat ×ₗ Nat ×ₗ Nat :=
  toLex (r.main.rank, toLex (r.walk.elim 0 (Walk.load s), r.walk.elim 0 fun w => w.busy (r.stops w)))

def Run.Blocked (r : Run) : Prop :=
  ∃ w file files pending, r.walk = some w ∧ w.walker = .wait file files pending ∧ w.free = 0 ∧ r.stops w = false

section
variable {env : Conditions} {s t : Store} {r next : Run} {w walk : Walk} {events : List Event} {failures : List Failure}

theorem WalkerMove.shrinks (move : WalkerMove env r w events failures walk) (here : r.walk = some w)
    (wellFormed : s.WellFormed) (shape : r.store.blank = s.blank) :
    walk.load s < w.load s ∨ r.Blocked ∨
      walk.load s = w.load s ∧ walk.failed = w.failed ∧ walk.busy (r.stops w) < w.busy (r.stops w) := by
  cases move with
  | @lists path pending listing there listed =>
    rw [Store.listShape shape] at listed
    have whole := Store.loadListed wellFormed (Faults.guardedOk listed).2
    -- What a listing brings up was part of the load of its directory.
    refine .inl ?_
    simp only [Walk.load, Walk.goTo, there, Store.pendingLoadCons, whole, Store.pendingLoadAppend]
    omega
  | @waits file files pending there full =>
    cases stops : r.stops w with
    | false => exact .inr (.inl ⟨w, file, files, pending, here, there, full, stops⟩)
    | true =>
      refine .inr (.inr ⟨by simp [Walk.load, Walk.goTo, there], rfl, ?_⟩)
      simp [Walk.busy, Walk.goTo, Walker.turns, there]
  | polls there goes =>
    refine .inr (.inr ⟨by simp [Walk.load, Walk.goTo, there], rfl, ?_⟩)
    simp [Walk.busy, Walk.goTo, Walker.turns, there, goes]
  | prunes there | pruned there | joins there =>
    refine .inr (.inr ⟨by simp [Walk.load, Walk.goTo, there], rfl, ?_⟩)
    simp [Walk.busy, Walk.goTo, there, Walker.turns]
  | breaks there breakable =>
    refine .inl ?_
    cases breakable <;> simp only [Walk.load, Walk.leave, Walk.goTo, there] <;> omega
  | _ =>
    refine .inl ?_
    simp_all [Walk.load, Walk.goTo, Walk.leave, Walk.put, Walk.acquire, Walk.release, Store.pendingLoadAppend]
    try omega

theorem WorkerMove.shrinks {i : Nat} {worker : Worker} (move : WorkerMove env w i worker events failures walk)
    (employed : w.workers[i]? = some worker) (stops : Bool) :
    walk.load s = w.load s ∧ walk.failed = w.failed ∧ walk.busy stops < w.busy stops := by
  cases move with
  | @formats here x =>
    have one := ((Walk.setWorkerSwaps employed { worker with stage := .releasing (some x) }).map Worker.rank).sum_nat
    simp only [Walk.setWorker, List.map_cons, List.sum_cons, Worker.rank, here] at one
    exact ⟨rfl, rfl, by simp only [Walk.busy, Walk.setWorker]; omega⟩
  | fails here =>
    have one := ((Walk.setWorkerSwaps employed { worker with stage := .releasing none }).map Worker.rank).sum_nat
    simp only [Walk.setWorker, List.map_cons, List.sum_cons, Worker.rank, here] at one
    exact ⟨rfl, rfl, by simp only [Walk.busy, Walk.setWorker]; omega⟩
  | ends here =>
    have one := ((Walk.setWorkerSwaps employed { worker with stage := .finished }).map Worker.rank).sum_nat
    simp only [Walk.setWorker, List.map_cons, List.sum_cons, Worker.rank, here] at one
    exact ⟨rfl, rfl, by simp only [Walk.busy, Walk.setWorker, Walk.release]; omega⟩
  | @releases x here =>
    have one := ((Walk.setWorkerSwaps employed { worker with stage := .delivering x }).map Worker.rank).sum_nat
    simp only [Walk.setWorker, List.map_cons, List.sum_cons, Worker.rank, here] at one
    exact ⟨rfl, rfl, by simp only [Walk.busy, Walk.setWorker, Walk.release]; omega⟩
  | delivers here =>
    have one := ((Walk.setWorkerSwaps employed { worker with stage := .finished }).map Worker.rank).sum_nat
    simp only [Walk.setWorker, List.map_cons, List.sum_cons, Worker.rank, here] at one
    refine ⟨rfl, rfl, ?_⟩
    simp only [Walk.busy, Walk.setWorker, Walk.put, List.length_append, List.length_singleton]
    omega

theorem sizeByMain (less : next.main.rank < r.main.rank) : next.size t < r.size s :=
  Prod.Lex.lt_iff.mpr (.inl less)

theorem sizeByWalk (main : next.main.rank = r.main.rank) (here : r.walk = some w) (there : next.walk = some walk)
    (less : walk.load t < w.load s ∨ walk.load t = w.load s ∧ walk.busy (next.stops walk) < w.busy (r.stops w)) :
    next.size t < r.size s := by
  refine Prod.Lex.lt_iff.mpr (.inr ⟨main, Prod.Lex.lt_iff.mpr ?_⟩)
  simpa only [Run.size, here, there, Option.elim_some, ofLex_toLex] using less

theorem Accepts.rank {r' : Run} {x : Formatted} {main : Main} (accepts : Accepts env r' x main events next) :
    next.main.rank ≤ main.rank ∧ next.canceled = r'.canceled := by
  cases accepts with
  | reports | fails => exact ⟨Nat.le_refl _, rfl⟩
  | escapes => exact ⟨Nat.zero_le _, rfl⟩

theorem MainMove.shrinks (move : MainMove env r events next)
    (alike : ∀ rest w, r.main = .drain rest → r.walk = some w → w.load t = w.load s) : next.size t < r.size s := by
  cases move with
  | finishes here last =>
    obtain ⟨log, finish⟩ := finishIs r
    rw [finish]
    exact sizeByMain (by simp [here, Main.rank])
  | escapes here =>
    refine sizeByMain ?_
    obtain ⟨_, _, here, -⟩ | ⟨_, _, here, -⟩ | ⟨_, _, _, here, -⟩ := here <;> simp [here, Main.rank]
  | applies here accepts =>
    have rank := accepts.rank.1
    exact sizeByMain (by simp only [here, Main.rank] at rank ⊢; omega)
  | notes here walks first =>
    have load := alike _ _ here walks
    exact sizeByWalk (by simp) walks rfl (.inr ⟨load, by simp [Walk.busy, Run.stops, first]⟩)
  | @receives rest w x queue _ _ here walks first accepts =>
    have canceled := accepts.rank.2
    obtain ⟨-, -, same, main | ⟨trouble, ended⟩⟩ := accepts.silent
    · have load := alike _ _ here walks
      exact sizeByWalk (by rw [main, here]) walks same
        (.inr ⟨load, by simp [Walk.busy, Run.stops, canceled, first]⟩)
    · exact sizeByMain (by simp [here, ended, Main.rank])
  | opens here | walks here | looks here | misses here | reads here | missesFile here | formats here | fails here
  | closes here =>
    refine sizeByMain ?_
    simp only [here, Main.rank, List.length_cons]
    omega

theorem MainMove.keepsCanceled (move : MainMove env r events next) : next.canceled = r.canceled := by
  cases move with
  | finishes here =>
    obtain ⟨log, finish⟩ := finishIs r
    rw [finish]
  | applies here accepts => exact accepts.rank.2
  | receives here walk first accepts => exact accepts.rank.2
  | _ => rfl

theorem walkerShrinks (made : step env .walker r = some next) (wellFormed : s.WellFormed)
    (shape : r.store.blank = s.blank) :
    next.canceled = r.canceled ∧ next.store = r.store ∧ (next.size s < r.size s ∨ r.Blocked) := by
  obtain ⟨w, here, made⟩ := Option.bind_eq_some_iff.mp made
  obtain ⟨_, walk, log, moves, rfl⟩ := walkerMoves made
  refine ⟨rfl, rfl, ?_⟩
  obtain less | blocked | ⟨load, failed, busy⟩ := moves.shrinks here wellFormed shape
  · exact .inl (sizeByWalk (by rfl) here rfl (.inl less))
  · exact .inr blocked
  · exact .inl (sizeByWalk (by rfl) here rfl (.inr ⟨load, by simpa [Run.stops, failed] using busy⟩))

theorem workerShrinks {i : Nat} (made : step env (.worker i) r = some next) :
    next.canceled = r.canceled ∧ next.store = r.store ∧ next.size s < r.size s := by
  obtain ⟨w, here, made⟩ := Option.bind_eq_some_iff.mp made
  obtain ⟨worker, employed, made⟩ := Option.bind_eq_some_iff.mp made
  obtain ⟨_, walk, _, _, moves, rfl⟩ := workerMoves made
  obtain ⟨load, failed, busy⟩ := moves.shrinks (s := s) employed (r.stops w)
  exact ⟨rfl, rfl, sizeByWalk (by rfl) here rfl (.inr ⟨load, by simpa [Run.stops, failed] using busy⟩)⟩

def Move.isOwn : Move → Bool
  | .cancel _ => false
  | _ => true

theorem ownMoves {move : Move} (own : move.isOwn = true) (made : step env move r = some next) (wellFormed : s.WellFormed)
    (shape : r.store.blank = s.blank) : next.canceled = r.canceled ∧ (next.size s < r.size s ∨ r.Blocked) := by
  cases move with
  | main => exact ⟨(mainMoves made).keepsCanceled, .inl ((mainMoves made).shrinks fun _ _ _ _ => rfl)⟩
  | walker => exact (walkerShrinks made wellFormed shape).imp id And.right
  | worker i => exact (workerShrinks made).imp id fun less => .inl less.2
  | cancel => cases own

theorem mainCan (env : Conditions) (going : ∀ result, r.main ≠ .ended result)
    (fed : ∀ rest, r.main = .drain rest → ∃ w m queue, r.walk = some w ∧ w.queue = m :: queue) :
    (r.stepMain env).isSome = true := by
  unfold Run.stepMain
  cases here : r.main with
  | next paths =>
    cases paths with
    | nil => rfl
    | cons path rest => cases r.canceled <;> rfl
  | inspect path rest => rfl
  | read path rest => simp only; split <;> rfl
  | format path source rest => simp only; split <;> rfl
  | apply x rest => rfl
  | drain rest =>
    obtain ⟨w, m, queue, walk, first⟩ := fed rest here
    simp only [walk, Run.receive, first]
    cases m <;> rfl
  | ended result => exact absurd here (going result)

theorem workerCan (env : Conditions) (r : Run) (w : Walk) (i : Nat) {worker : Worker} (busy : worker.stage ≠ .finished) :
    (r.stepWorker env w i worker).isSome = true := by
  unfold Run.stepWorker
  cases stage : worker.stage with
  | formatting => simp only; split <;> rfl
  | releasing result => cases result <;> rfl
  | delivering x => rfl
  | finished => exact absurd stage busy

theorem walkerCan (env : Conditions) (r : Run) (going : w.walker ≠ .closed)
    (joinable : ∀ i left, w.walker = .join (i :: left) → w.isDone i = true) : (r.stepWalker env w).isSome = true := by
  unfold Run.stepWalker
  cases here : w.walker with
  | begin | arrived | wait | poll | check | read => simp only; split <;> rfl
  | list pending => cases pending <;> rfl
  | notify skipped => cases skipped <;> rfl
  | choose files =>
    cases files with
    | nil => rfl
    | cons file files =>
      simp only
      split
      · rfl
      · split <;> rfl
  | start => rfl
  | prune kept left => cases left <;> rfl
  | join left =>
    cases left with
    | nil => rfl
    | cons i left => simp only [joinable i left here, if_true, Option.isSome_some]
  | closed => exact absurd here going

/-- A move that the run can make by itself. It leaves the queue of a walk alone until that is sealed. -/
theorem Run.Steady.canMove (steady : r.Steady) (slotted : ∀ w, r.walk = some w → w.Slotted env.settings.parallelism)
    (going : ∀ result, r.main ≠ .ended result) :
    ∃ move next, move.isOwn = true ∧ step env move r = some next ∧ (move = .walker → ¬ r.Blocked) ∧
      (move = .main → ∀ rest w, r.main = .drain rest → r.walk = some w → w.walker = .closed) := by
  have ofMain (closed : ∀ rest w, r.main = .drain rest → r.walk = some w → w.walker = .closed)
      (fed : ∀ rest, r.main = .drain rest → ∃ w m queue, r.walk = some w ∧ w.queue = m :: queue) :
      ∃ move next, move.isOwn = true ∧ step env move r = some next ∧ (move = .walker → ¬ r.Blocked) ∧
        (move = .main → ∀ rest w, r.main = .drain rest → r.walk = some w → w.walker = .closed) := by
    obtain ⟨next, made⟩ := Option.isSome_iff_exists.mp (mainCan env going fed)
    exact ⟨.main, next, rfl, made, by simp, fun _ => closed⟩
  by_cases drains : ∃ rest, r.main = .drain rest
  · obtain ⟨rest, drains⟩ := drains
    obtain ⟨w, here⟩ := Option.ne_none_iff_exists'.mp (steady.draining rest drains)
    have sound := (steady.walking w here).1
    by_cases closed : w.walker = .closed
    · -- What closed the queue is the last that is taken from it, so there is something in it.
      refine ofMain (fun _ v _ walks => Option.some.inj (here.symm.trans walks) ▸ closed) fun _ _ => ?_
      cases first : w.queue with
      | cons m queue => exact ⟨w, m, queue, here, first⟩
      | nil =>
        obtain ⟨front, -, parts⟩ := sound.isSealed
        rw [first, if_pos closed] at parts
        simp at parts
    by_cases busy : ∃ (i : Nat) (worker : Worker), w.workers[i]? = some worker ∧ worker.stage ≠ .finished
    · obtain ⟨i, worker, employed, busy⟩ := busy
      obtain ⟨next, made⟩ := Option.isSome_iff_exists.mp (workerCan env r w i busy)
      have made : step env (.worker i) r = some next := by
        simp only [step, here, employed, bind, Option.bind_some, made]
      exact ⟨_, next, rfl, made, by simp, by simp⟩
    · -- All workers are done: the walker has no one to wait for and finds a slot.
      have done (i : Nat) (worker : Worker) (employed : w.workers[i]? = some worker) : worker.stage = .finished :=
        by_contra fun unfinished => busy ⟨i, worker, employed, unfinished⟩
      have joinable (i : Nat) : w.isDone i = true := by
        cases employed : w.workers[i]? with
        | none => simp [Walk.isDone, employed]
        | some worker => simp [Walk.isDone, employed, done i worker employed]
      obtain ⟨next, made⟩ := Option.isSome_iff_exists.mp (walkerCan env r closed fun i _ _ => joinable i)
      have made : step env .walker r = some next := by
        simp only [step, here, bind, Option.bind_some, made]
      refine ⟨_, next, rfl, made, fun _ => ?_, by simp⟩
      rintro ⟨v, file, files, pending, walks, waits, full, -⟩
      obtain rfl : w = v := Option.some.inj (here.symm.trans walks)
      have idle : w.workers.countP Worker.holds = 0 := by
        refine List.countP_eq_zero.mpr fun worker mem => ?_
        obtain ⟨i, employed⟩ := List.mem_iff_getElem?.mp mem
        simp [Worker.holds, done i worker employed]
      have slots := slotted w here (by simp [waits, Walker.isActive])
      have some := env.settings.parallelism_pos
      simp only [Walk.held, idle, waits, full, Walker.holds, Bool.toNat_false] at slots
      omega
  · exact ofMain (fun rest _ drain _ => absurd ⟨rest, drain⟩ drains) fun rest drain => absurd ⟨rest, drain⟩ drains

theorem Run.Steady.moves (steady : r.Steady) (slotted : ∀ w, r.walk = some w → w.Slotted env.settings.parallelism)
    (wellFormed : r.store.WellFormed) (going : ∀ result, r.main ≠ .ended result) :
    ∃ move next, move.isOwn = true ∧ step env move r = some next ∧ next.canceled = r.canceled ∧
      next.size next.store < r.size r.store := by
  obtain ⟨move, next, own, made, unblocked, sealed⟩ := steady.canMove slotted going
  refine ⟨move, next, own, made, ?_⟩
  cases move with
  | main =>
    -- What is written can change what a walk has still to list, but this walk has listed all.
    refine ⟨(mainMoves made).keepsCanceled, (mainMoves made).shrinks fun rest w drains walks => ?_⟩
    simp only [Walk.load, sealed rfl rest w drains walks]
  | walker =>
    obtain ⟨canceled, store, less⟩ := walkerShrinks made wellFormed rfl
    exact ⟨canceled, store ▸ less.resolve_right (unblocked rfl)⟩
  | worker i =>
    obtain ⟨canceled, store, less⟩ := workerShrinks (s := r.store) made
    exact ⟨canceled, store ▸ less⟩
  | cancel => cases own

end

theorem Run.advanced (env : Conditions) (alarm : Alarm) (notice : Option LogLine) (moves : Nat) (r : Run) :
    ∃ h, Trace env r h (r.advance env alarm notice moves) := by
  induction moves generalizing r with
  | zero => exact ⟨[], .start⟩
  | succ moves ih =>
    rw [Run.advance]
    split
    · rename_i next made
      obtain ⟨later, more⟩ := ih next
      exact ⟨_, (Trace.start.move _ made).append more⟩
    · exact ⟨[], .start⟩

/-- The schedule in which a worker works alone until it is done is one order of moves. -/
theorem scheduled (env : Conditions) (store : Store) (paths : List String) (alarm : Alarm) (notice : Option LogLine) :
    ∃ h, Trace env (Run.begin store paths (alarm == .before)) h (run env store paths alarm notice) :=
  Run.advanced env alarm notice _ _

section
variable {env : Conditions} {store : Store} {paths : List String} {canceled : Bool} {h : History} {r : Run}

theorem Trace.keepsShape (trace : Trace env (Run.begin store paths canceled) h r) (contained : env.faults.Contained)
    (wellFormed : store.WellFormed) (plain : ∀ path ∈ paths, Path.hasNull path = false) :
    r.store.blank = store.blank :=
  (trace.sound wellFormed.unique contained.removes (trace.contained contained wellFormed plain).1).2.shape

/-- Under faults that are caught a run can go on to its final check from wherever it is. -/
theorem Trace.ends (trace : Trace env (Run.begin store paths canceled) h r) (caught : env.faults.Caught)
    (wellFormed : store.WellFormed) (plain : ∀ path ∈ paths, Path.hasNull path = false) :
    ∃ later last, Trace env r later last ∧ last.canceled = r.canceled ∧ last.Checked := by
  generalize size : r.size r.store = n
  induction n using WellFoundedLT.induction generalizing h r with
  | ind n ih =>
    have unescaped := (trace.caught caught wellFormed plain).1
    by_cases ended : ∃ result, r.main = .ended result
    · obtain ⟨result, ended⟩ := ended
      exact ⟨[], r, .start, rfl, (trace.steady.ended result ended).resolve_right unescaped⟩
    · have lasting := (trace.lasting wellFormed.unique).resolve_left unescaped
      obtain ⟨move, next, -, made, canceled, less⟩ := trace.steady.moves trace.slotted
        (lasting.lasts.wellFormed wellFormed) fun result here => ended ⟨result, here⟩
      obtain ⟨later, last, more, same, checked⟩ := ih _ (size ▸ less) (trace.move move made) rfl
      exact ⟨_, last, (Trace.start.move move made).append more, same.trans canceled, checked⟩

def Run.Stuck (env : Conditions) (r : Run) : Prop := ∀ move, move.isOwn = true → step env move r = none

def Run.Endless (env : Conditions) (r : Run) : Prop :=
  ∃ runs : Nat → Run, runs 0 = r ∧ ∀ n, ∃ move, move.isOwn = true ∧ step env move (runs n) = some (runs (n + 1))

theorem Trace.stuck (trace : Trace env (Run.begin store paths canceled) h r) (caught : env.faults.Caught)
    (wellFormed : store.WellFormed) (plain : ∀ path ∈ paths, Path.hasNull path = false) (stuck : r.Stuck env) :
    r.Checked := by
  by_cases ended : ∃ result, r.main = .ended result
  · obtain ⟨result, ended⟩ := ended
    exact (trace.steady.ended result ended).resolve_right (trace.caught caught wellFormed plain).1
  · obtain ⟨move, next, own, made, -⟩ := trace.steady.canMove trace.slotted fun result here => ended ⟨result, here⟩
    rw [stuck move own] at made
    cases made

theorem Trace.notEndless (trace : Trace env (Run.begin store paths canceled) h r) (contained : env.faults.Contained)
    (wellFormed : store.WellFormed) (plain : ∀ path ∈ paths, Path.hasNull path = false) (asked : r.canceled = true) :
    ¬ r.Endless env := by
  rintro ⟨runs, start, moves⟩
  have each (n : Nat) : (runs n).canceled = true ∧ ∃ h, Trace env (Run.begin store paths canceled) h (runs n) := by
    induction n with
    | zero => exact start ▸ ⟨asked, h, trace⟩
    | succ n ih =>
      obtain ⟨asked, h, trace⟩ := ih
      obtain ⟨move, own, made⟩ := moves n
      exact ⟨(ownMoves own made wellFormed (trace.keepsShape contained wellFormed plain)).1.trans asked, _,
        trace.move move made⟩
  -- Sizes cannot go down for ever, so some move keeps them: a walker waits, although it has to stop.
  obtain ⟨n, stays⟩ := WellFounded.not_rel_apply_succ (r := (· < ·)) fun n => (runs n).size store
  obtain ⟨asked, h, trace⟩ := each n
  obtain ⟨move, own, made⟩ := moves n
  obtain ⟨-, less | ⟨w, -, -, -, -, -, -, goes⟩⟩ :=
    ownMoves own made wellFormed (trace.keepsShape contained wellFormed plain)
  · exact stays less
  · simp [Run.stops, asked] at goes

end
end Batch
end ExitSpacing
