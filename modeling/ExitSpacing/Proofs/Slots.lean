import ExitSpacing.Proofs.Draining

/-! The slots of a walk. As long as the walker looks for files, a slot is free, or held by the
walker for the file it looks at, or by a worker that has not released it yet. -/
namespace ExitSpacing.Batch

def Worker.holds (worker : Worker) : Bool :=
  match worker.stage with
  | .formatting | .releasing _ => true
  | .delivering _ | .finished => false

namespace Walker

def isActive : Walker → Bool
  | .join _ | .closed => false
  | _ => true

def holds : Walker → Bool
  | .check .. | .read .. | .start .. => true
  | _ => false

end Walker

namespace Walk

def held (w : Walk) : Nat := w.workers.countP Worker.holds + w.walker.holds.toNat

/-- While the walker looks for files, each slot is free or held. -/
def Slotted (slots : Nat) (w : Walk) : Prop := w.walker.isActive = true → w.free + w.held = slots

end Walk

section
variable {env : Conditions} {r next : Run} {w walk : Walk} {events : List Event} {failures : List Failure} {slots : Nat}

theorem WalkerMove.slotted (move : WalkerMove env r w events failures walk) (slotted : w.Slotted slots) :
    walk.Slotted slots := by
  intro active
  have before := slotted
  cases move with
  | hands here =>
    simp [Walk.Slotted, Walk.held, here, Walker.isActive, Walker.holds] at before
    simp [Walk.held, Walk.goTo, Walker.holds, Worker.holds]
    omega
  | acquires here free =>
    simp [Walk.Slotted, Walk.held, here, Walker.isActive, Walker.holds] at before
    simp [Walk.held, Walk.goTo, Walk.acquire, Walker.holds]
    omega
  | missesFile here =>
    simp [Walk.Slotted, Walk.held, here, Walker.isActive, Walker.holds] at before
    simp [Walk.held, Walk.goTo, Walk.release, Walker.holds]
    omega
  | skips | exhausts | breaks | turnsBack | givesUp | withdraws | missesStart | joins | closes => cases active
  | _ =>
    simp_all [Walk.Slotted, Walk.held, Walk.goTo, Walk.put, Walker.isActive, Walker.holds]

theorem Walk.setWorkerHeld {i : Nat} {worker : Worker} (employed : w.workers[i]? = some worker) (changed : Worker) :
    (w.setWorker i changed).held + worker.holds.toNat = w.held + changed.holds.toNat := by
  have one := (Walk.setWorkerSwaps employed changed).countP_eq Worker.holds
  have asNumber (holds : Bool) : (if holds = true then 1 else 0) = holds.toNat := by cases holds <;> rfl
  simp only [List.countP_cons, asNumber] at one
  simp only [Walk.held, Walk.setWorker] at one ⊢
  omega

theorem WorkerMove.slotted {i : Nat} {worker : Worker} (move : WorkerMove env w i worker events failures walk)
    (employed : w.workers[i]? = some worker) (slotted : w.Slotted slots) : walk.Slotted slots := by
  intro active
  have before := slotted (by cases move <;> exact active)
  cases move with
  | @formats here x =>
    have held := Walk.setWorkerHeld employed { worker with stage := .releasing (some x) }
    simp only [Worker.holds, here] at held
    exact (congrArg (w.free + ·) (Nat.add_right_cancel held)).trans before
  | fails here =>
    have held := Walk.setWorkerHeld employed { worker with stage := .releasing none }
    simp only [Worker.holds, here] at held
    exact (congrArg (w.free + ·) (Nat.add_right_cancel held)).trans before
  | ends here =>
    have held := Walk.setWorkerHeld employed { worker with stage := .finished }
    simp only [Worker.holds, here, Bool.toNat_true, Bool.toNat_false] at held
    change w.free + 1 + (w.setWorker i { worker with stage := .finished }).held = slots
    omega
  | @releases x here =>
    have held := Walk.setWorkerHeld employed { worker with stage := .delivering x }
    simp only [Worker.holds, here, Bool.toNat_true, Bool.toNat_false] at held
    change w.free + 1 + (w.setWorker i { worker with stage := .delivering x }).held = slots
    omega
  | delivers here =>
    have held := Walk.setWorkerHeld employed { worker with stage := .finished }
    simp only [Worker.holds, here] at held
    exact (congrArg (w.free + ·) (Nat.add_right_cancel held)).trans before

theorem MainMove.slotted (move : MainMove env r events next)
    (slotted : ∀ w, r.walk = some w → w.Slotted env.settings.parallelism) :
    ∀ w, next.walk = some w → w.Slotted env.settings.parallelism := by
  intro w there
  cases move with
  | finishes here =>
    obtain ⟨log, finish⟩ := finishIs r
    rw [finish] at there
    exact slotted w there
  | walks =>
    cases there
    intro _
    simp [Walk.held, Walker.holds]
  | applies here accepts =>
    obtain ⟨-, -, same, -⟩ := accepts.silent
    exact slotted w (same.symm.trans there)
  | closes => cases there
  | notes here walks =>
    cases there
    have kept := slotted _ walks
    exact kept
  | receives here walks first accepts =>
    obtain ⟨-, -, same, -⟩ := accepts.silent
    cases same.symm.trans there
    have kept := slotted _ walks
    exact kept
  | _ => exact slotted w there

theorem Moves.slotted (moves : Moves env r events next)
    (slotted : ∀ w, r.walk = some w → w.Slotted env.settings.parallelism) :
    ∀ w, next.walk = some w → w.Slotted env.settings.parallelism := by
  cases moves with
  | cancels => exact slotted
  | main move => exact move.slotted slotted
  | walker here move =>
    rintro w ⟨⟩
    exact move.slotted (slotted _ here)
  | worker here employed move =>
    rintro w ⟨⟩
    exact move.slotted employed (slotted _ here)

end

theorem Trace.slotted {env : Conditions} {store : Store} {paths : List String} {canceled : Bool} {h : History} {r : Run}
    (trace : Trace env (Run.begin store paths canceled) h r) : ∀ w, r.walk = some w → w.Slotted env.settings.parallelism :=
  trace.keeps (P := fun _ r => ∀ w, r.walk = some w → w.Slotted env.settings.parallelism) (by simp [Run.begin])
    fun held moves => moves.slotted held

end ExitSpacing.Batch
