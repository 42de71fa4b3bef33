import ExitSpacing.Proofs.Draining
import ExitSpacing.Proofs.Reporting
import Mathlib.Data.List.Perm.Basic

/-! The books of a run. Whatever is handed out is in hand until it is settled: a source until
it is formatted, a result until it is reported, through every worker and queue it passes. -/
namespace ExitSpacing.Batch

/-- What is in hand. -/
inductive Duty where
  | format (path : String) (source : Bytes)
  | report (result : Formatted)
  deriving DecidableEq

namespace Duty

def task? : Duty → Option (String × Bytes)
  | .format path source => some (path, source)
  | .report _ => none

def result? : Duty → Option Formatted
  | .format .. => none
  | .report x => some x

end Duty

namespace Event

def raises : Event → List Duty
  | .handed path source | .kept path source => [.format path source]
  | .formatted _ _ (.ok x) => [.report x]
  | _ => []

def settles : Event → List Duty
  | .formatted path source _ => [.format path source]
  | .reported x _ => [.report x]
  | _ => []

/-- What the failure of an event tells. -/
def Fits (env : Conditions) : Event → Prop
  | .missing path f => f.OfAccess path "stat"
  | .unlisted path f => ∃ cause, f = .walk path cause
  | .broken f => ∃ root cause, f = .walk root cause
  | .unread path f => f.OfAccess path "read"
  | .unhanded path f => ∃ message : String, f = .other s!"{path}: {message}"
  | .formatted path source outcome => outcome = Run.outcome env path source
  | .reported x (some f) => f.OfAccess x.unit "write"
  | _ => True

end Event

def Worker.duty? (worker : Worker) : Option Duty :=
  match worker.stage with
  | .formatting => some (.format worker.path worker.source)
  | .releasing (some x) | .delivering x => some (.report x)
  | .releasing none | .finished => none

def Message.duty? : Message → Option Duty
  | .result x => some (.report x)
  | _ => none

def Walk.duties (w : Walk) : List Duty := w.workers.filterMap Worker.duty? ++ w.queue.filterMap Message.duty?

def Main.duties : Main → List Duty
  | .format path source _ => [.format path source]
  | .apply x _ => [.report x]
  | _ => []

def Run.duties (r : Run) : List Duty := r.main.duties ++ r.walk.elim [] Walk.duties

namespace History

def raised (h : History) : List Duty := h.flatMap (·.2.raises)
def settled (h : History) : List Duty := h.flatMap (·.2.settles)

theorem raisedAppend (h : History) (events : List Event) (turn : Nat) :
    (h ++ events.map (turn, ·) : History).raised = h.raised ++ events.flatMap Event.raises := by
  simp only [raised, List.flatMap_append, List.flatMap_map]

theorem settledAppend (h : History) (events : List Event) (turn : Nat) :
    (h ++ events.map (turn, ·) : History).settled = h.settled ++ events.flatMap Event.settles := by
  simp only [settled, List.flatMap_append, List.flatMap_map]

end History

section
variable {env : Conditions} {r next : Run} {w walk : Walk} {events : List Event} {failures : List Failure}

@[simp] theorem Walk.goToDuties (w : Walk) (walker : Walker) : (w.goTo walker).duties = w.duties := rfl

@[simp] theorem Walk.leaveDuties (w : Walk) : w.leave.duties = w.duties := rfl

@[simp] theorem Walk.acquireDuties (w : Walk) : w.acquire.duties = w.duties := rfl

@[simp] theorem Walk.releaseDuties (w : Walk) : w.release.duties = w.duties := rfl

@[simp] theorem Walk.putDuties (w : Walk) (m : Message) : (w.put m).duties = w.duties ++ m.duty?.toList := by
  simp only [Walk.duties, Walk.put, List.filterMap_append, List.append_assoc]
  cases m <;> rfl

theorem Walk.countDuties {i : Nat} {worker : Worker} (employed : w.workers[i]? = some worker) (changed : Worker)
    (duty : Duty) : (w.setWorker i changed).duties.count duty + worker.duty?.toList.count duty =
      w.duties.count duty + changed.duty?.toList.count duty := by
  have one := ((Walk.setWorkerSwaps employed changed).filterMap Worker.duty?).count_eq duty
  simp only [List.filterMap_eq_flatMap_toList, List.flatMap_cons, List.count_append] at one
  simp only [Walk.duties, List.filterMap_eq_flatMap_toList, List.count_append, Walk.setWorker] at one ⊢
  omega

theorem WorkerMove.duties {i : Nat} {worker : Worker} (move : WorkerMove env w i worker events failures walk)
    (employed : w.workers[i]? = some worker) :
    (walk.duties ++ events.flatMap Event.settles).Perm (w.duties ++ events.flatMap Event.raises) := by
  refine List.perm_iff_count.mpr fun duty => ?_
  cases move with
  | @formats here x made =>
    have one := Walk.countDuties employed { worker with stage := .releasing (some x) } duty
    simpa [List.count_append, Worker.duty?, here, Event.settles, Event.raises] using one
  | fails here =>
    have one := Walk.countDuties employed { worker with stage := .releasing none } duty
    simpa [List.count_append, Worker.duty?, here, Event.settles, Event.raises] using one
  | ends here =>
    have one := Walk.countDuties (w := w.release) employed { worker with stage := .finished } duty
    simpa [List.count_append, Worker.duty?, here, Event.settles, Event.raises] using one
  | @releases x here =>
    have one := Walk.countDuties (w := w.release) employed { worker with stage := .delivering x } duty
    simpa [List.count_append, Worker.duty?, here, Event.settles, Event.raises] using one
  | @delivers x here =>
    have one := Walk.countDuties (w := w.put (.result x)) employed { worker with stage := .finished } duty
    simp only [Worker.duty?, here, Walk.putDuties, Message.duty?, Option.toList, List.count_append, List.count_nil] at one
    simp only [Event.settles, Event.raises, List.flatMap_cons, List.flatMap_nil, List.append_nil]
    omega

theorem WalkerMove.duties (move : WalkerMove env r w events failures walk) :
    (walk.duties ++ events.flatMap Event.settles).Perm (w.duties ++ events.flatMap Event.raises) := by
  cases move with
  | hands =>
    refine List.perm_iff_count.mpr fun duty => ?_
    simp only [Walk.duties, Walk.goTo, List.filterMap_append, List.filterMap_cons, List.filterMap_nil, Worker.duty?,
      Event.settles, Event.raises, List.flatMap_cons, List.flatMap_nil, List.append_nil, List.count_append]
    omega
  | missesListing =>
    simp only [Event.settles, Event.raises, List.flatMap_cons, List.flatMap_nil, List.append_nil]
    exact .rfl
  | pruned => exact .rfl
  | _ => simp [Message.duty?, Event.settles, Event.raises]

theorem MainMove.going (move : MainMove env r events next) (result : Except Trouble Unit) : r.main ≠ .ended result := by
  cases move with
  | escapes here => obtain ⟨_, _, here, -⟩ | ⟨_, _, here, -⟩ | ⟨_, _, _, here, -⟩ := here <;> simp [here]
  | _ => simp [*]

theorem Moves.ended (moves : Moves env r events next) {result : Except Trouble Unit} (ended : r.main = .ended result) :
    next.main = .ended result := by
  cases moves with
  | cancels | walker | worker => exact ended
  | main move => exact absurd ended (move.going result)

theorem Moves.checks (moves : Moves env r events next) {canceled : Bool} (mem : .checked canceled ∈ events) :
    canceled = r.canceled ∧ ∃ result, next.main = .ended result := by
  cases moves with
  | cancels => simp at mem
  | main move =>
    cases move with
    | finishes =>
      simp only [List.mem_singleton, Event.checked.injEq] at mem
      exact ⟨mem, _, rfl⟩
    | applies here accepts => cases accepts <;> simp at mem
    | receives here walk first accepts => cases accepts <;> simp at mem
    | _ => simp at mem
  | walker here move => cases move <;> simp at mem
  | worker here employed move => cases move <;> simp at mem

theorem Run.Escaped.move (escaped : r.Escaped) (moves : Moves env r events next) : next.Escaped := by
  obtain ⟨trouble, ended, other⟩ := escaped
  exact ⟨trouble, moves.ended ended, other⟩

theorem Accepts.duties {x : Formatted} {main : Main} (accepts : Accepts env r x main events next) :
    next.Escaped ∨ events.flatMap Event.settles = [.report x] ∧ events.flatMap Event.raises = [] ∧
      next.duties = main.duties ++ r.walk.elim [] Walk.duties := by
  cases accepts with
  | reports | fails => exact .inr ⟨rfl, rfl, rfl⟩
  | escapes failed other => exact .inl ⟨_, rfl, other⟩

theorem Walk.Sound.closed (sound : w.Sound) {queue : List Message} (first : w.queue = .closed :: queue) :
    w.walker = .closed := by
  obtain ⟨front, fresh, parts⟩ := sound.isSealed
  by_contra going
  rw [if_neg going, List.append_nil] at parts
  rw [← parts, first] at fresh
  exact fresh (List.mem_cons_self ..)

theorem Walk.Sound.noDuties (sound : w.Sound) {queue : List Message} (first : w.queue = .closed :: queue) :
    w.duties = [] := by
  have closed := sound.closed first
  have last := (sound.received first).1 rfl
  have done : w.workers.filterMap Worker.duty? = [] := by
    rw [List.filterMap_eq_nil_iff]
    intro worker mem
    obtain ⟨i, held⟩ := List.mem_iff_getElem?.mp mem
    by_cases finished : worker.stage = .finished
    · simp only [Worker.duty?, finished]
    · have awaited := sound.awaits i worker held finished
      simp [Walk.awaited, closed] at awaited
  rw [Walk.duties, done, first, last]
  rfl

theorem MainMove.duties (move : MainMove env r events next) (steady : r.Steady) :
    next.Escaped ∨ (next.duties ++ events.flatMap Event.settles).Perm (r.duties ++ events.flatMap Event.raises) := by
  cases move with
  | finishes here =>
    obtain ⟨log, finish⟩ := finishIs r
    rw [finish]
    exact .inr (by simp [Run.duties, here, Main.duties, Event.settles, Event.raises])
  | opens here | looks here | misses here | missesFile here =>
    exact .inr (by simp [Run.duties, here, Main.duties, Event.settles, Event.raises])
  | reads here =>
    have alone := steady.alone (by simp [here]) (by simp [here])
    exact .inr (by simp [Run.duties, here, alone, Main.duties, Event.settles, Event.raises])
  | formats here made =>
    have alone := steady.alone (by simp [here]) (by simp [here])
    exact .inr (by simp [Run.duties, here, alone, Main.duties, Event.settles, Event.raises, List.Perm.swap])
  | fails here =>
    have alone := steady.alone (by simp [here]) (by simp [here])
    exact .inr (by simp [Run.duties, here, alone, Main.duties, Event.settles, Event.raises])
  | walks here =>
    have alone := steady.alone (by simp [here]) (by simp [here])
    exact .inr (by simp [Run.duties, here, alone, Main.duties, Walk.duties, Event.settles, Event.raises])
  | escapes here other => exact .inl ⟨_, rfl, other⟩
  | applies here accepts =>
    have alone := steady.alone (by simp [here]) (by simp [here])
    refine accepts.duties.imp id fun ⟨settles, raises, duties⟩ => ?_
    rw [duties, settles, raises]
    simp [Run.duties, here, alone, Main.duties]
  | closes here walk first =>
    have none := ((steady.walking _ walk).1.noDuties first)
    exact .inr (by simp [Run.duties, here, walk, none, Main.duties, Event.settles, Event.raises])
  | notes here walk first =>
    exact .inr (by simp [Run.duties, here, walk, Main.duties, Walk.duties, first, List.filterMap_cons, Message.duty?,
      Event.settles, Event.raises])
  | receives here walk first accepts =>
    refine accepts.duties.imp id fun ⟨settles, raises, duties⟩ => ?_
    rw [duties, List.flatMap_cons, List.flatMap_cons, settles, raises]
    simp only [Run.duties, here, walk, Main.duties, Walk.duties, first, List.filterMap_cons, Message.duty?, Event.settles,
      Event.raises, Option.elim_some, List.nil_append, List.append_nil, List.append_assoc]
    exact (List.perm_append_singleton _ _).append_left _

theorem Moves.duties (moves : Moves env r events next) (steady : r.Steady) :
    next.Escaped ∨ (next.duties ++ events.flatMap Event.settles).Perm (r.duties ++ events.flatMap Event.raises) := by
  cases moves with
  | cancels => exact .inr (by simp [Run.duties, Event.settles, Event.raises])
  | main move => exact move.duties steady
  | walker here move =>
    have one := move.duties
    exact .inr (by simpa [Run.duties, here, List.append_assoc] using one.append_left r.main.duties)
  | worker here employed move =>
    have one := move.duties employed
    exact .inr (by simpa [Run.duties, here, List.append_assoc] using one.append_left r.main.duties)

theorem readFails {path : String} {f : Failure} (failed : r.readFile env path = .error (.failure f)) :
    f.OfAccess path "read" := by
  unfold Run.readFile at failed
  split at failed
  · cases failed
  · cases failed
    exact .inaccessible
  · rename_i effect _ _
    cases effect <;> cases failed

theorem lookUpFails {path : String} {f : Failure} (failed : r.lookUp env path = .error (.failure f)) :
    f.OfAccess path "stat" := by
  unfold Run.lookUp at failed
  split at failed
  · cases failed
  · split at failed
    · cases failed
      exact .inaccessible
    · rename_i effect _ _
      cases effect <;> cases failed
    · split at failed
      · cases failed
      · split at failed <;> cases failed
        exact .inaccessible

structure Books (env : Conditions) (r : Run) (events : List Event) (next : Run) : Prop where
  results : next.results = r.results ++ events.filterMap Event.reported?
  failures : next.failures = r.failures ++ events.filterMap Event.failure?
  printed : next.printed = r.printed ++ events.flatMap (Event.printed env.settings)
  fits : ∀ event ∈ events, event.Fits env

theorem WalkerMove.books (move : WalkerMove env r w events failures walk) :
    events.filterMap Event.reported? = [] ∧ events.filterMap Event.failure? = failures ∧
      events.flatMap (Event.printed env.settings) = [] ∧ ∀ event ∈ events, event.Fits env := by
  cases move with
  | missesFile here failed =>
    refine ⟨rfl, rfl, rfl, ?_⟩
    simpa [Event.Fits] using readFails failed
  | _ => simp [List.filterMap_cons, Event.reported?, Event.failure?, Event.printed, Event.Fits]

theorem WorkerMove.books {i : Nat} {worker : Worker} (move : WorkerMove env w i worker events failures walk) :
    events.filterMap Event.reported? = [] ∧ events.filterMap Event.failure? = failures ∧
      events.flatMap (Event.printed env.settings) = [] ∧ ∀ event ∈ events, event.Fits env := by
  cases move with
  | formats here made => exact ⟨rfl, rfl, rfl, by simpa [Event.Fits] using made.symm⟩
  | fails here failed => exact ⟨rfl, rfl, rfl, by simpa [Event.Fits] using failed.symm⟩
  | _ => simp [List.filterMap_cons, Event.reported?, Event.failure?, Event.printed, Event.Fits]

theorem Accepts.books {x : Formatted} {main : Main} (accepts : Accepts env r x main events next) :
    Books env r events next := by
  cases accepts with
  | reports => exact ⟨rfl, by simp [List.filterMap_cons, Event.failure?], by simp [Event.printed], by simp [Event.Fits]⟩
  | fails failed =>
    exact ⟨rfl, by simp [Event.failure?], by simp [Event.printed],
      by simpa [Event.Fits] using Formatted.reportFails failed⟩
  | escapes failed other =>
    exact ⟨rfl, by simp [List.filterMap_cons, Event.failure?], by simp [Event.printed], by simp [Event.Fits]⟩

theorem outcomeOk {path : String} {source : Bytes} {x : Formatted} (made : Run.formatUnit env path source = .ok x) :
    Run.outcome env path source = .ok x := by
  simp only [Run.outcome, made]

theorem outcomeFails {path : String} {source : Bytes} {f : Failure}
    (failed : Run.formatUnit env path source = .error (.failure f)) : Run.outcome env path source = .error f := by
  simp only [Run.outcome, failed]

theorem MainMove.books (move : MainMove env r events next) : Books env r events next := by
  cases move with
  | finishes here =>
    obtain ⟨log, finish⟩ := finishIs r
    rw [finish]
    refine ⟨by simp [List.filterMap_cons, Event.reported?], ?_, by simp [Event.printed], by simp [Event.Fits]⟩
    cases r.canceled <;> rfl
  | misses here failed =>
    exact ⟨by simp [List.filterMap_cons, Event.reported?], rfl, by simp [Event.printed],
      by simpa [Event.Fits] using lookUpFails failed⟩
  | missesFile here failed =>
    exact ⟨by simp [List.filterMap_cons, Event.reported?], rfl, by simp [Event.printed],
      by simpa [Event.Fits] using readFails failed⟩
  | formats here made =>
    exact ⟨by simp [List.filterMap_cons, Event.reported?], by simp [List.filterMap_cons, Event.failure?],
      by simp [Event.printed], by simpa [Event.Fits] using (outcomeOk made).symm⟩
  | fails here failed =>
    exact ⟨by simp [List.filterMap_cons, Event.reported?], rfl, by simp [Event.printed],
      by simpa [Event.Fits] using (outcomeFails failed).symm⟩
  | applies here accepts => exact accepts.books
  | notes here walk first =>
    exact ⟨by simp [List.filterMap_cons, Event.reported?], by simp [List.filterMap_cons, Event.failure?],
      by simp [Event.printed], by simp [Event.Fits]⟩
  | receives here walk first accepts =>
    obtain ⟨results, failures, printed, fits⟩ := accepts.books
    exact ⟨results, failures, printed, by simpa [Event.Fits] using fits⟩
  | _ => 
    exact ⟨by simp [List.filterMap_cons, Event.reported?], by simp [List.filterMap_cons, Event.failure?],
      by simp [Event.printed], by simp [Event.Fits]⟩

theorem Moves.books (moves : Moves env r events next) : Books env r events next := by
  cases moves with
  | cancels =>
    exact ⟨by simp [List.filterMap_cons, Event.reported?], by simp [List.filterMap_cons, Event.failure?],
      by simp [Event.printed], by simp [Event.Fits]⟩
  | main move => exact move.books
  | walker here move =>
    obtain ⟨results, failures, printed, fits⟩ := move.books
    exact ⟨by simp [results], by simp [failures], by simp [printed], fits⟩
  | worker here employed move =>
    obtain ⟨results, failures, printed, fits⟩ := move.books
    exact ⟨by simp [results], by simp [failures], by simp [printed], fits⟩

end

/-- The books of a run: its results, failures and printed texts are those of its history, and
what was handed out is settled or in hand, unless something other than a failure ended it. -/
structure Ledger (env : Conditions) (h : History) (r : Run) : Prop where
  results : r.results = h.reports
  failures : r.failures = h.failures
  printed : r.printed = h.printed env.settings
  fits : ∀ entry ∈ h, entry.2.Fits env
  balance : r.Escaped ∨ (h.settled ++ r.duties).Perm h.raised

theorem Ledger.begin (env : Conditions) (store : Store) (paths : List String) (canceled : Bool) :
    Ledger env [] (.begin store paths canceled) :=
  ⟨rfl, rfl, rfl, by simp, .inr .rfl⟩

theorem Ledger.move {env : Conditions} {h : History} {r next : Run} {events : List Event} (ledger : Ledger env h r)
    (steady : r.Steady) (moves : Moves env r events next) : Ledger env (h ++ events.map (next.turn, ·)) next := by
  obtain ⟨results, failures, printed, fits⟩ := moves.books
  refine ⟨?_, ?_, ?_, ?_, ?_⟩
  · rw [results, ledger.results]
    simp [History.reports, List.filterMap_map]
  · rw [failures, ledger.failures]
    simp [History.failures, List.filterMap_map]
  · rw [printed, ledger.printed]
    simp [History.printed, List.flatMap_map]
  · intro entry mem
    obtain old | new := List.mem_append.mp mem
    · exact ledger.fits entry old
    · obtain ⟨event, inside, rfl⟩ := List.mem_map.mp new
      exact fits event inside
  · obtain escaped | balance := ledger.balance
    · exact .inl (escaped.move moves)
    · refine (moves.duties steady).imp id fun one => ?_
      rw [History.settledAppend, History.raisedAppend]
      refine List.perm_iff_count.mpr fun duty => ?_
      have old := List.perm_iff_count.mp balance duty
      have new := List.perm_iff_count.mp one duty
      simp only [List.count_append] at old new ⊢
      omega

theorem Trace.ledger {env : Conditions} {store : Store} {paths : List String} {canceled : Bool} {h : History} {r : Run}
    (trace : Trace env (Run.begin store paths canceled) h r) : Ledger env h r :=
  (trace.keeps (P := fun h r => r.Steady ∧ Ledger env h r) ⟨.begin store paths canceled, .begin env store paths canceled⟩
    fun held moves => ⟨moves.steady held.1, held.2.move held.1 moves⟩).2

end ExitSpacing.Batch
