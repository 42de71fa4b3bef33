import ExitSpacing.Proofs.Moves
import Mathlib.Data.List.Perm.Basic

/-! The queue of a walk: it is closed once, behind everything else, and its reader leaves
nothing in it. What carries this is that the walker waits for every worker that is not
done, also for those it started since it last looked. -/
namespace ExitSpacing.Batch

namespace Walk

def awaited (w : Walk) : List Nat :=
  match w.walker with
  | .prune kept left _ _ => kept ++ left ++ [w.workers.length - 1]
  | .join left => left
  | .closed => []
  | _ => w.joining

def Awaits (w : Walk) : Prop :=
  ∀ i worker, w.workers[i]? = some worker → worker.stage ≠ .finished → i ∈ w.awaited

def Sealed (w : Walk) : Prop :=
  ∃ front, .closed ∉ front ∧ w.queue = front ++ if w.walker = .closed then [.closed] else []

structure Sound (w : Walk) : Prop where
  awaits : w.Awaits
  isSealed : w.Sealed

theorem soundStart (root : String) (free : Nat) : Sound { root, free } where
  awaits := by simp [Awaits]
  isSealed := ⟨[], by simp⟩

theorem doneOther {w : Walk} {i j : Nat} {worker : Worker} (held : w.workers[i]? = some worker)
    (busy : worker.stage ≠ .finished) (done : w.isDone j = true) : i ≠ j := by
  rintro rfl
  rw [isDone, held, Option.all_some, beq_iff_eq] at done
  exact busy done

theorem setWorkerSwaps {w : Walk} {i : Nat} {worker : Worker} (held : w.workers[i]? = some worker) (changed : Worker) :
    (worker :: (w.setWorker i changed).workers).Perm (changed :: w.workers) := by
  obtain ⟨bound, rfl⟩ := List.getElem?_eq_some_iff.mp held
  have put := List.set_perm_cons_eraseIdx bound changed
  have back := List.getElem_cons_eraseIdx_perm bound
  exact (put.cons _).trans ((List.Perm.swap ..).trans (back.cons _))

theorem Sealed.put {w : Walk} (isSealed : w.Sealed) (here : w.walker ≠ .closed) {m : Message}
    (other : m ≠ .closed) : (w.put m).Sealed := by
  obtain ⟨front, fresh, queue⟩ := isSealed
  refine ⟨front ++ [m], by simpa [fresh] using other.symm, ?_⟩
  simp [Walk.put, queue, here]

theorem Sealed.goTo {w : Walk} (isSealed : w.Sealed) (here : w.walker ≠ .closed) {walker : Walker}
    (there : walker ≠ .closed) : (w.goTo walker).Sealed := by
  obtain ⟨front, fresh, queue⟩ := isSealed
  refine ⟨front, fresh, ?_⟩
  simpa [Walk.goTo, here, there] using queue

theorem Sealed.close {w : Walk} (isSealed : w.Sealed) (here : w.walker ≠ .closed) :
    ((w.put .closed).goTo .closed).Sealed := by
  obtain ⟨front, fresh, queue⟩ := isSealed
  refine ⟨front, fresh, ?_⟩
  simpa [Walk.goTo, Walk.put, here] using queue

end Walk

section
variable {env : Conditions} {r : Run} {w walk : Walk} {events : List Event} {failures : List Failure}

theorem WalkerMove.open (move : WalkerMove env r w events failures walk) : w.walker ≠ .closed := by
  cases move with
  | breaks here breakable => cases breakable <;> simp [here]
  | _ => simp [*]

theorem WalkerMove.awaits (move : WalkerMove env r w events failures walk) (awaits : w.Awaits) : walk.Awaits := by
  intro i worker held busy
  cases move with
  | hands here can =>
    have inside := (List.getElem?_eq_some_iff.mp held).1
    simp only [Walk.goTo, List.length_append, List.length_singleton] at inside
    -- The worker is the one that starts, or it was awaited before.
    by_cases last : i = w.workers.length
    · simp [Walk.awaited, Walk.goTo, last]
    · have old : w.workers[i]? = some worker := by
        rw [← held]
        exact (List.getElem?_append_left (by omega)).symm
      have mem := awaits i worker old busy
      simp only [Walk.awaited, here] at mem
      simp [Walk.awaited, Walk.goTo, mem]
  | prunes here =>
    have mem := awaits i worker held busy
    simp only [Walk.awaited, Walk.goTo, here] at mem ⊢
    split
    · rename_i done
      have other := Walk.doneOther held busy done
      simpa [other] using mem
    · simpa using mem
  | joins here done =>
    have mem := awaits i worker held busy
    have other := Walk.doneOther held busy done
    simpa [Walk.awaited, Walk.goTo, here, other] using mem
  | breaks here breakable =>
    have mem := awaits i worker held busy
    cases breakable <;> simpa [Walk.awaited, Walk.leave, Walk.goTo, here] using mem
  | closes here =>
    have mem := awaits i worker held busy
    simp [Walk.awaited, here] at mem
  | _ =>
    have mem := awaits i worker held busy
    simpa [Walk.awaited, Walk.goTo, Walk.leave, Walk.put, Walk.release, Walk.acquire, *] using mem

theorem WalkerMove.isSealed (move : WalkerMove env r w events failures walk) (isSealed : w.Sealed) : walk.Sealed := by
  have here := move.open
  cases move with
  | skips | notifies => exact (isSealed.put here (by simp)).goTo here (by simp)
  | closes => exact isSealed.close here
  | _ => exact Walk.Sealed.goTo (w := { w with .. }) isSealed here (by simp)

theorem Walk.Awaits.setWorker {i : Nat} {worker : Worker} (awaits : w.Awaits)
    (employed : w.workers[i]? = some worker) (busy : worker.stage ≠ .finished) (changed : Worker) :
    (w.setWorker i changed).Awaits := by
  have same : (w.setWorker i changed).awaited = w.awaited := by simp [Walk.awaited, Walk.setWorker]
  intro j other held unfinished
  rw [same]
  simp only [Walk.setWorker, List.getElem?_set] at held
  split at held
  · rename_i here
    exact here ▸ awaits i worker employed busy
  · exact awaits j other held unfinished

theorem WorkerMove.busy {i : Nat} {worker : Worker} (move : WorkerMove env w i worker events failures walk) :
    worker.stage ≠ .finished := by
  cases move <;> simp [*]

theorem Walk.Sound.open {i : Nat} {worker : Worker} (sound : w.Sound) (employed : w.workers[i]? = some worker)
    (busy : worker.stage ≠ .finished) : w.walker ≠ .closed := by
  intro closed
  have awaited := sound.awaits i worker employed busy
  simp [Walk.awaited, closed] at awaited

theorem WalkerMove.sound (move : WalkerMove env r w events failures walk) (sound : w.Sound) : walk.Sound :=
  ⟨move.awaits sound.awaits, move.isSealed sound.isSealed⟩

theorem WorkerMove.sound {i : Nat} {worker : Worker} (move : WorkerMove env w i worker events failures walk)
    (employed : w.workers[i]? = some worker) (sound : w.Sound) : walk.Sound := by
  have busy := move.busy
  have here := sound.open employed busy
  cases move with
  | delivers => exact ⟨sound.awaits.setWorker employed busy _, sound.isSealed.put here (by simp)⟩
  | _ => exact ⟨sound.awaits.setWorker employed busy _, sound.isSealed⟩

theorem Walk.Sound.received {m : Message} {queue : List Message} (sound : w.Sound) (first : w.queue = m :: queue) :
    (m = .closed → queue = []) ∧ (m ≠ .closed → Walk.Sound { w with queue }) := by
  obtain ⟨front, fresh, parts⟩ := sound.isSealed
  rw [first] at parts
  cases front with
  | nil =>
    split at parts <;> rename_i closed
    · cases parts
      exact ⟨fun _ => rfl, fun other => absurd rfl other⟩
    · cases parts
  | cons n front =>
    cases parts
    rw [List.mem_cons, not_or] at fresh
    exact ⟨fun same => absurd same.symm fresh.1, fun _ => ⟨sound.awaits, front, fresh.2, rfl⟩⟩

end

namespace Run

def verdict (failures : List Failure) : Except Trouble Unit :=
  if failures.isEmpty then .ok () else .error (.failure (.batch failures))

theorem verdictOk {failures : List Failure} (ok : verdict failures = .ok ()) : failures = [] := by
  unfold verdict at ok
  split at ok
  · rename_i none
    exact List.isEmpty_iff.mp none
  · cases ok

theorem verdictError {failures : List Failure} {trouble : Trouble} (failed : verdict failures = .error trouble) :
    trouble = .failure (.batch failures) := by
  unfold verdict at failed
  split at failed <;> cases failed
  rfl

/-- The run has come to its final check. -/
structure Checked (r : Run) : Prop where
  ended : r.main = .ended (verdict r.failures)
  alone : r.walk = none

/-- Something that is no failure of a unit ended the run before its final check. -/
def Escaped (r : Run) : Prop := ∃ trouble, r.main = .ended (.error trouble) ∧ ∀ f, trouble ≠ .failure f

theorem Checked.unescaped {r : Run} (checked : r.Checked) : ¬ r.Escaped := by
  rintro ⟨trouble, ended, other⟩
  exact other _ (verdictError (Main.ended.inj (checked.ended.symm.trans ended)))

structure Steady (r : Run) : Prop where
  walking : ∀ w, r.walk = some w → w.Sound ∧ ((∃ rest, r.main = .drain rest) ∨ r.Escaped)
  draining : ∀ rest, r.main = .drain rest → r.walk ≠ none
  ended : ∀ result, r.main = .ended result → r.Checked ∨ r.Escaped

theorem Steady.begin (store : Store) (paths : List String) (canceled : Bool) : (begin store paths canceled).Steady where
  walking := by simp [Run.begin]
  draining := by simp [Run.begin]
  ended := by simp [Run.begin]

theorem Steady.alone {r : Run} (steady : r.Steady) (idle : ∀ rest, r.main ≠ .drain rest)
    (going : ∀ result, r.main ≠ .ended result) : r.walk = none := by
  cases walk : r.walk with
  | none => rfl
  | some w =>
    obtain ⟨rest, drains⟩ | ⟨trouble, ended, -⟩ := (steady.walking w walk).2
    · exact absurd drains (idle rest)
    · exact absurd ended (going _)

end Run

section
variable {env : Conditions} {r next : Run} {events : List Event}

theorem Accepts.steady {x : Formatted} {main : Main} (accepts : Accepts env r x main events next)
    (going : ∀ result, main ≠ .ended result) (walking : ∀ w, r.walk = some w → w.Sound ∧ ∃ rest, main = .drain rest)
    (draining : ∀ rest, main = .drain rest → r.walk ≠ none) : next.Steady := by
  cases accepts with
  | reports | fails =>
    exact ⟨fun w walk => ⟨(walking w walk).1, .inl (walking w walk).2⟩, draining,
      fun result ended => absurd ended (going result)⟩
  | escapes failed other =>
    exact ⟨fun w walk => ⟨(walking w walk).1, .inr ⟨_, rfl, other⟩⟩, by simp, fun _ _ => .inr ⟨_, rfl, other⟩⟩

theorem finishIs (r : Run) : ∃ log, r.finish = { r with
    log
    failures := r.failures ++ if r.canceled then [Failure.stopped] else []
    main := .ended (Run.verdict (r.failures ++ if r.canceled then [Failure.stopped] else [])) } := by
  cases canceled : r.canceled with
  | false => exact ⟨r.log, by simp [Run.finish, Run.goTo, Run.verdict, canceled]⟩
  | true =>
    refine ⟨r.log ++ [⟨.info, "Formatting canceled; in-flight files were completed."⟩], ?_⟩
    simp [Run.finish, Run.goTo, Run.say, Run.collect, Run.verdict, canceled]

theorem MainMove.steady (move : MainMove env r events next) (steady : r.Steady) : next.Steady := by
  cases move with
  | finishes here last =>
    have alone := steady.alone (by simp [here]) (by simp [here])
    obtain ⟨log, finish⟩ := finishIs r
    rw [finish]
    exact ⟨by simp [alone], by simp, fun result ended => .inl ⟨rfl, alone⟩⟩
  | opens here | looks here | misses here | reads here | missesFile here | formats here | fails here =>
    have alone := steady.alone (by simp [here]) (by simp [here])
    exact ⟨by simp [alone], by simp, by simp⟩
  | walks here =>
    refine ⟨?_, by simp, by simp⟩
    intro w walk
    cases walk
    exact ⟨Walk.soundStart _ _, .inl ⟨_, rfl⟩⟩
  | escapes here other =>
    have alone : r.walk = none := by
      obtain ⟨_, _, here, -⟩ | ⟨_, _, here, -⟩ | ⟨_, _, _, here, -⟩ := here <;>
        exact steady.alone (by simp [here]) (by simp [here])
    exact ⟨by simp [alone], by simp, fun _ _ => .inr ⟨_, rfl, other⟩⟩
  | applies here accepts =>
    have alone := steady.alone (by simp [here]) (by simp [here])
    exact accepts.steady (by simp) (by simp [alone]) (by simp)
  | closes => exact ⟨by simp, by simp, by simp⟩
  | notes here walk first =>
    have sound := ((steady.walking _ walk).1.received first).2 (by simp)
    refine ⟨?_, by simp, fun result ended => ?_⟩
    · rintro w ⟨⟩
      exact ⟨sound, .inl ⟨_, here⟩⟩
    · simp [here] at ended
  | receives here walk first accepts =>
    have sound := ((steady.walking _ walk).1.received first).2 (by simp)
    refine accepts.steady (by simp) ?_ (by simp)
    rintro w ⟨⟩
    exact ⟨sound, _, rfl⟩

theorem Run.Steady.walked {w walk : Walk} (steady : r.Steady) (here : r.walk = some w) (sound : walk.Sound)
    (same : next.main = r.main) (there : next.walk = some walk) : next.Steady := by
  have escaped : r.Escaped → next.Escaped := fun ⟨trouble, ended, other⟩ => ⟨trouble, same.trans ended, other⟩
  refine ⟨?_, by simp [there], fun result ended => ?_⟩
  · intro v walked
    obtain rfl : walk = v := Option.some.inj (there.symm.trans walked)
    exact ⟨sound, (steady.walking w here).2.imp (fun ⟨rest, drains⟩ => ⟨rest, same.trans drains⟩) escaped⟩
  · obtain checked | gone := steady.ended result (same.symm.trans ended)
    · rw [checked.alone] at here
      cases here
    · exact .inr (escaped gone)

theorem Moves.steady (moves : Moves env r events next) (steady : r.Steady) : next.Steady := by
  cases moves with
  | cancels =>
    refine ⟨steady.walking, steady.draining, fun result ended => ?_⟩
    exact (steady.ended result ended).imp (fun checked => ⟨checked.ended, checked.alone⟩) id
  | main move => exact move.steady steady
  | walker here move => exact steady.walked here (move.sound (steady.walking _ here).1) rfl rfl
  | worker here employed move => exact steady.walked here (move.sound employed (steady.walking _ here).1) rfl rfl

end

theorem Trace.steady {env : Conditions} {store : Store} {paths : List String} {canceled : Bool} {h : History} {r : Run}
    (trace : Trace env (Run.begin store paths canceled) h r) : r.Steady :=
  trace.keeps (P := fun _ r => r.Steady) (.begin store paths canceled) fun steady moves => moves.steady steady

namespace History

theorem duringAppend (h : History) (events : List Event) (turn other : Nat) :
    (h ++ events.map (turn, ·) : History).during other = h.during other ++ if turn = other then events else [] := by
  simp only [during, List.filter_append, List.map_append, List.filter_map, List.map_map]
  split <;> rename_i same
  · simp [same, Function.comp_def]
  · simp [same, Function.comp_def]

theorem sentAppend (h : History) (events : List Event) (turn other : Nat) :
    (h ++ events.map (turn, ·) : History).sent other =
      h.sent other ++ if turn = other then events.filterMap Event.sent? else [] := by
  rw [sent, duringAppend, List.filterMap_append]
  split <;> rfl

theorem receivedAppend (h : History) (events : List Event) (turn other : Nat) :
    (h ++ events.map (turn, ·) : History).received other =
      h.received other ++ if turn = other then events.filterMap Event.received? else [] := by
  rw [received, duringAppend, List.filterMap_append]
  split <;> rfl

theorem walksAppend (h : History) (events : List Event) (turn other : Nat) :
    (h ++ events.map (turn, ·) : History).walks other =
      h.walks other ++ if turn = other then events.filterMap Event.walked? else [] := by
  rw [walks, duringAppend, List.filterMap_append]
  split <;> rfl

def Over (h : History) (turn : Nat) : Prop :=
  h.received turn = h.sent turn ∧
    (h.walks turn = [] ∧ h.sent turn = [] ∨
      ∃ root front, h.walks turn = [root] ∧ .closed ∉ front ∧ h.sent turn = front ++ [.closed])

theorem Over.append {h : History} {turn other : Nat} (closed : h.Over other) (events : List Event)
    (apart : turn ≠ other) : History.Over (h ++ events.map (turn, ·)) other := by
  simpa only [Over, receivedAppend, sentAppend, walksAppend, if_neg apart, List.append_nil] using closed

end History

section
variable {env : Conditions} {r next : Run} {w walk : Walk} {events : List Event} {failures : List Failure}

structure Silent (events : List Event) : Prop where
  sent : events.filterMap Event.sent? = []
  received : events.filterMap Event.received? = []
  walks : events.filterMap Event.walked? = []

theorem WalkerMove.sends (move : WalkerMove env r w events failures walk) :
    walk.root = w.root ∧ walk.queue = w.queue ++ events.filterMap Event.sent? ∧
      events.filterMap Event.received? = [] ∧ events.filterMap Event.walked? = [] := by
  cases move <;>
    simp [Walk.goTo, Walk.put, Walk.leave, Walk.release, Walk.acquire, Event.sent?, Event.received?, Event.walked?]

theorem WorkerMove.sends {i : Nat} {worker : Worker} (move : WorkerMove env w i worker events failures walk) :
    walk.root = w.root ∧ walk.queue = w.queue ++ events.filterMap Event.sent? ∧
      events.filterMap Event.received? = [] ∧ events.filterMap Event.walked? = [] := by
  cases move <;>
    simp [Walk.setWorker, Walk.put, Walk.release, Event.sent?, Event.received?, Event.walked?]

theorem Accepts.silent {x : Formatted} {main : Main} (accepts : Accepts env r x main events next) :
    Silent events ∧ next.turn = r.turn ∧ next.walk = r.walk ∧
      (next.main = main ∨ ∃ trouble, next.main = .ended (.error trouble)) := by
  cases accepts <;> refine ⟨⟨rfl, rfl, rfl⟩, rfl, rfl, ?_⟩ <;> simp

theorem Accepts.looks {x : Formatted} {main : Main} (accepts : Accepts env r x main events next) :
    ∀ event ∈ events, event.looked? = none ∧ event.task? = none := by
  cases accepts <;> simp [Event.looked?, Event.task?]

structure Drained (h : History) (r : Run) : Prop where
  past : ∀ entry ∈ h, entry.1 ≤ r.turn
  ended : ∀ turn, turn ≠ r.turn ∨ r.walk = none → h.Over turn
  unwalked : ∀ path rest, r.main = .inspect path rest → h.walks r.turn = []
  current : ∀ w, r.walk = some w →
    h.walks r.turn = [w.root] ∧ .closed ∉ h.received r.turn ∧ h.sent r.turn = h.received r.turn ++ w.queue

namespace Drained

theorem begin (store : Store) (paths : List String) (canceled : Bool) : Drained [] (.begin store paths canceled) where
  past := by simp
  ended _ _ := ⟨rfl, .inl ⟨rfl, rfl⟩⟩
  unwalked := by simp [Run.begin]
  current := by simp [Run.begin]

variable {h : History}

theorem pastAppend (drained : Drained h r) (turn : r.turn ≤ next.turn) :
    ∀ entry ∈ h ++ events.map (next.turn, ·), entry.1 ≤ next.turn := by
  intro entry mem
  obtain old | new := List.mem_append.mp mem
  · exact Nat.le_trans (drained.past entry old) turn
  · obtain ⟨_, _, rfl⟩ := List.mem_map.mp new
    exact Nat.le_refl _

theorem silent (drained : Drained h r) (quiet : Silent events) (turn : next.turn = r.turn)
    (walk : next.walk = r.walk) (main : ∀ path rest, next.main = .inspect path rest → r.main = .inspect path rest) :
    Drained (h ++ events.map (next.turn, ·)) next where
  past := drained.pastAppend (Nat.le_of_eq turn.symm)
  ended other idle := by
    rw [turn, walk] at idle
    simpa [History.Over, History.receivedAppend, History.sentAppend, History.walksAppend, quiet.sent,
      quiet.received, quiet.walks] using drained.ended other idle
  unwalked path rest here := by
    simpa [History.walksAppend, quiet.walks, turn] using drained.unwalked path rest (main path rest here)
  current w here := by
    simpa [History.walksAppend, History.receivedAppend, History.sentAppend, quiet.sent, quiet.received,
      quiet.walks, turn] using drained.current w (walk.symm.trans here)

theorem walked (drained : Drained h r) (here : r.walk = some w) (turn : next.turn = r.turn)
    (there : next.walk = some walk) (main : ∀ path rest, next.main ≠ .inspect path rest)
    (sends : walk.root = w.root ∧ walk.queue = w.queue ++ events.filterMap Event.sent? ∧
      events.filterMap Event.received? = [] ∧ events.filterMap Event.walked? = []) :
    Drained (h ++ events.map (next.turn, ·)) next where
  past := drained.pastAppend (Nat.le_of_eq turn.symm)
  ended other idle := by
    obtain other | alone := idle
    · exact (drained.ended _ (.inl (turn ▸ other))).append events (turn ▸ other.symm)
    · rw [there] at alone
      cases alone
  unwalked path rest here := absurd here (main path rest)
  current v same := by
    obtain rfl : walk = v := Option.some.inj (there.symm.trans same)
    obtain ⟨root, queue, received, walks⟩ := sends
    obtain ⟨one, fresh, sent⟩ := drained.current w here
    simp [History.walksAppend, History.receivedAppend, History.sentAppend, turn, received, walks, one, root,
      fresh, sent, queue]

theorem accepts (drained : Drained h r) {x : Formatted} {main : Main} (accepts : Accepts env r x main events next)
    (other : ∀ path rest, main ≠ .inspect path rest) : Drained (h ++ events.map (next.turn, ·)) next := by
  obtain ⟨quiet, turn, walk, there⟩ := accepts.silent
  refine drained.silent quiet turn walk fun path rest here => ?_
  obtain same | ⟨trouble, ended⟩ := there
  · exact absurd (same.symm.trans here) (other path rest)
  · rw [ended] at here
    cases here

theorem received (drained : Drained h r) (here : r.walk = some w) {m : Message} {queue : List Message}
    (first : w.queue = m :: queue) (other : m ≠ .closed) (turn : next.turn = r.turn)
    (there : next.walk = some { w with queue }) (main : ∀ path rest, next.main ≠ .inspect path rest) :
    Drained (h ++ [.received m].map (next.turn, ·)) next where
  past := drained.pastAppend (Nat.le_of_eq turn.symm)
  ended other idle := by
    obtain other | alone := idle
    · exact (drained.ended _ (.inl (turn ▸ other))).append _ other.symm
    · rw [there] at alone
      cases alone
  unwalked path rest here := absurd here (main path rest)
  current v same := by
    obtain rfl : { w with queue } = v := Option.some.inj (there.symm.trans same)
    obtain ⟨one, fresh, sent⟩ := drained.current w here
    simp only [History.walksAppend, History.receivedAppend, History.sentAppend, turn, if_true]
    simp [Event.sent?, Event.received?, Event.walked?, one, fresh, sent, first, other.symm]

end Drained

theorem MainMove.drained {h : History} (move : MainMove env r events next) (steady : r.Steady)
    (drained : Drained h r) : Drained (h ++ events.map (next.turn, ·)) next := by
  cases move with
  | finishes here last =>
    obtain ⟨log, finish⟩ := finishIs r
    rw [finish]
    exact drained.silent ⟨rfl, rfl, rfl⟩ rfl rfl (by simp)
  | looks | misses | reads | missesFile | formats | fails | escapes =>
    exact drained.silent ⟨rfl, rfl, rfl⟩ rfl rfl (by simp)
  | opens here goes =>
    have alone := steady.alone (by simp [here]) (by simp [here])
    -- No event carries a turn that has not begun.
    have fresh : h.during (r.turn + 1) = [] := by
      simp only [History.during, List.map_eq_nil_iff, List.filter_eq_nil_iff, beq_iff_eq]
      intro entry mem same
      have := drained.past entry mem
      omega
    refine ⟨drained.pastAppend (by simp [Run.turn]), fun other _ => ?_, fun _ _ _ => ?_, by simp [alone]⟩
    · simp only [History.Over, History.receivedAppend, History.sentAppend, History.walksAppend]
      simpa [History.Over, List.filterMap_cons, Event.sent?, Event.received?, Event.walked?] using
        drained.ended other (.inr alone)
    · simp only [History.walksAppend, Run.turn, List.length_append, List.length_singleton] at fresh ⊢
      simp [Event.walked?, History.walks, fresh]
  | walks here found =>
    have alone := steady.alone (by simp [here]) (by simp [here])
    have unwalked := drained.unwalked _ _ here
    obtain ⟨received, none⟩ := drained.ended r.turn (.inr alone)
    have unsent : h.sent r.turn = [] := by
      obtain ⟨-, unsent⟩ | ⟨root, front, one, -⟩ := none
      · exact unsent
      · rw [unwalked] at one
        cases one
    refine ⟨drained.pastAppend (Nat.le_refl _), fun other idle => ?_, by simp, ?_⟩
    · obtain other | idle := idle
      · exact (drained.ended _ (.inl other)).append _ other.symm
      · cases idle
    · rintro w ⟨⟩
      rw [unsent] at received
      simp only [Run.turn] at unwalked unsent received
      simp only [History.walksAppend, History.receivedAppend, History.sentAppend, Run.turn, if_true]
      simp [List.filterMap_cons, Event.sent?, Event.received?, Event.walked?, unwalked, unsent, received]
  | applies here accepts => exact drained.accepts accepts (by simp)
  | closes here walk first =>
    have last := ((steady.walking _ walk).1.received first).1 rfl
    obtain ⟨one, fresh, sent⟩ := drained.current _ walk
    refine ⟨drained.pastAppend (Nat.le_refl _), fun other _ => ?_, by simp, by simp⟩
    -- The end of the queue was its last message, so all that was sent is received.
    rw [first, last] at sent
    by_cases turn : r.turn = other
    · subst turn
      simp only [History.Over, History.receivedAppend, History.sentAppend, History.walksAppend, Run.turn, if_true]
      simp only [Run.turn] at one fresh sent
      simpa [List.filterMap_cons, Event.sent?, Event.received?, Event.walked?, one, sent] using fresh
    · exact (drained.ended _ (.inl (Ne.symm turn))).append _ turn
  | notes here walk first => exact drained.received walk first (by simp) rfl rfl (by simp [here])
  | @receives rest w x queue events next here walk first accepts =>
    -- One move takes the message off the queue and accepts it; the two are told apart at `left`.
    let left : Run := { r with walk := some { w with queue } }
    have taken : Drained (h ++ [.received (.result x)].map (left.turn, ·)) left :=
      drained.received walk first (by simp) rfl rfl (by simp [left, here])
    have all := taken.accepts accepts (by simp)
    have turn : next.turn = r.turn := (accepts.silent).2.1
    simpa [turn, show left.turn = r.turn from rfl] using all

theorem Moves.drained {h : History} (moves : Moves env r events next) (steady : r.Steady)
    (drained : Drained h r) : Drained (h ++ events.map (next.turn, ·)) next := by
  have busy {w : Walk} (here : r.walk = some w) (path : String) (rest : List String) :
      r.main ≠ .inspect path rest := by
    intro main
    have alone := steady.alone (by simp [main]) (by simp [main])
    rw [alone] at here
    cases here
  cases moves with
  | cancels => exact drained.silent ⟨rfl, rfl, rfl⟩ rfl rfl fun _ _ here => here
  | main move => exact move.drained steady drained
  | walker here move => exact drained.walked here rfl rfl (busy here) move.sends
  | worker here employed move => exact drained.walked here rfl rfl (busy here) move.sends

end

theorem Trace.drained {env : Conditions} {store : Store} {paths : List String} {canceled : Bool} {h : History} {r : Run}
    (trace : Trace env (Run.begin store paths canceled) h r) : r.Steady ∧ Drained h r :=
  trace.keeps (P := fun h r => r.Steady ∧ Drained h r) ⟨.begin store paths canceled, .begin store paths canceled⟩
    fun held moves => ⟨moves.steady held.1, moves.drained held.1 held.2⟩

end ExitSpacing.Batch
