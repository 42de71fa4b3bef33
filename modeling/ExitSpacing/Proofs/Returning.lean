import ExitSpacing.Proofs.Progress
import ExitSpacing.Proofs.Units

/-! What becomes of the slots of a walk. Each slot that is taken is given back once, by the
walker or by the worker it was taken for, unless what breaks the walk off is neither a file that
cannot be read nor a worker that cannot be started. -/
namespace ExitSpacing

def Faults.Handled (faults : Faults) : Prop :=
  ∀ fault ∈ faults, match fault.call, fault.effect with
    | .read, .unexpected _ | .start, .system _ => False
    | _, _ => True

namespace Batch

theorem SlotUses.pickAppend (uses : SlotUses) (use : Option SlotUse) (kind : SlotUse → Option String) (turn other : Nat) :
    SlotUses.pick (uses ++ use.toList.map (turn, ·)) kind other =
      uses.pick kind other ++ if turn = other then (use.bind kind).toList else [] := by
  cases use with
  | none => simp [pick]
  | some use => by_cases same : turn = other <;> cases used : kind use <;> simp [pick, same, used]

def Walker.holder? : Walker → Option String
  | .check file _ _ | .read file _ _ | .start file _ _ _ => some file
  | _ => none

def Walk.holders (w : Walk) : List String :=
  w.walker.holder?.toList ++ (w.workers.filter Worker.holds).map Worker.path

def Run.holders (r : Run) : List String := r.walk.elim [] Walk.holders

def Walk.Shifts (w walk : Walk) : Option SlotUse → Prop
  | none => walk.free = w.free ∧ walk.holders.Perm w.holders
  | some (.taken file) => w.free = walk.free + 1 ∧ walk.holders.Perm (file :: w.holders)
  | some (.returned file) => walk.free = w.free + 1 ∧ w.holders.Perm (file :: walk.holders)
  | some (.lost file) => walk.free = w.free ∧ w.holders.Perm (file :: walk.holders)

section
variable {env : Conditions} {r next : Run} {w walk : Walk} {events : List Event} {failures : List Failure}

theorem Walk.holdersLength (w : Walk) : w.holders.length = w.held := by
  have one : w.walker.holder?.toList.length = w.walker.holds.toNat := by cases w.walker <;> rfl
  rw [holders, held, List.length_append, one, List.length_map, ← List.countP_eq_length_filter, Nat.add_comm]

theorem Walk.Shifts.quiet (free : walk.free = w.free) (workers : walk.workers = w.workers)
    (holder : walk.walker.holder? = w.walker.holder?) : w.Shifts walk none :=
  ⟨free, by rw [holders, holders, workers, holder]⟩

theorem WalkerMove.idles (move : WalkerMove env r w events failures walk) (idle : w.walker.holder? = none)
    (other : ∀ file files pending, w.walker ≠ .wait file files pending) : w.Shifts walk none := by
  cases move with
  | acquires here => exact absurd here (other _ _ _)
  | waits here => exact absurd here (other _ _ _)
  | withdraws here | checks here | reads here | missesFile here | hands here | missesStart here =>
    rw [here] at idle
    cases idle
  | _ => exact .quiet rfl rfl idle.symm

def Run.Shifted (r next : Run) (w : Walk) (use : Option SlotUse) : Prop :=
  ∃ walk, next.walk = some walk ∧ next.turn = r.turn ∧ next.main = r.main ∧ w.Shifts walk use

theorem walkerShifts (made : r.stepWalker env w = some next) : r.Shifted next w (r.walkerUse env w) := by
  -- The four stages of a dispatch are opened; in any other one `idles` answers for all.
  cases here : w.walker with
  | wait file files pending =>
    simp only [Run.stepWalker, Run.walkerUse, here] at made ⊢
    split at made <;> cases made
    · rename_i full
      rw [if_pos full]
      exact ⟨_, rfl, rfl, rfl, .quiet rfl rfl (by rw [here]; rfl)⟩
    · rename_i free
      rw [if_neg free]
      refine ⟨_, rfl, rfl, rfl, (Nat.sub_add_cancel (Nat.pos_of_ne_zero free)).symm, ?_⟩
      simp [Walk.holders, Walk.goTo, Walk.acquire, Walker.holder?, here]
  | check file files pending =>
    simp only [Run.stepWalker, Run.walkerUse, here] at made ⊢
    split at made <;> rename_i stops <;> cases made
    · rw [if_pos stops]
      refine ⟨_, rfl, rfl, rfl, rfl, ?_⟩
      simp [Walk.holders, Walk.goTo, Walk.leave, Walk.release, Walker.holder?, here]
    · rw [if_neg stops]
      exact ⟨_, rfl, rfl, rfl, .quiet rfl rfl (by rw [here]; rfl)⟩
  | read file files pending =>
    simp only [Run.stepWalker, Run.walkerUse, here] at made ⊢
    cases found : r.readFile env file with
    | ok source =>
      simp only [found] at made ⊢
      cases made
      exact ⟨_, rfl, rfl, rfl, .quiet rfl rfl (by rw [here]; rfl)⟩
    | error trouble =>
      cases trouble <;> simp only [found] at made ⊢ <;> cases made <;> refine ⟨_, rfl, rfl, rfl, rfl, ?_⟩ <;>
        simp [Walk.holders, Walk.goTo, Walk.leave, Walk.release, Walker.holder?, here]
  | start file source files pending =>
    simp only [Run.stepWalker, Run.startWorker, Run.walkerUse, here] at made ⊢
    cases found : env.faults.find? .start file with
    | none =>
      simp only [found] at made ⊢
      cases made
      have employs : [({ path := file, source } : Worker)].filter Worker.holds = [{ path := file, source }] := rfl
      refine ⟨_, rfl, rfl, rfl, rfl, ?_⟩
      simp [Walk.holders, Walk.goTo, Walker.holder?, here, employs]
    | some effect =>
      cases effect <;> simp only [found] at made ⊢ <;> cases made <;> refine ⟨_, rfl, rfl, rfl, rfl, ?_⟩ <;>
        simp [Walk.holders, Walk.goTo, Walk.leave, Walk.release, Walker.holder?, here]
  | _ =>
    have unused : r.walkerUse env w = none := by rw [Run.walkerUse, here]
    rw [unused]
    obtain ⟨_, walk, _, moves, rfl⟩ := walkerMoves made
    exact ⟨walk, rfl, rfl, rfl, moves.idles (by rw [here]; rfl) (by rw [here]; simp)⟩

theorem Walk.setWorkerHolders {i : Nat} {worker : Worker} (employed : w.workers[i]? = some worker) (changed : Worker) :
    (([worker].filter Worker.holds).map Worker.path ++ (w.setWorker i changed).holders).Perm
      (([changed].filter Worker.holds).map Worker.path ++ w.holders) := by
  have swapped := ((Walk.setWorkerSwaps employed changed).filter Worker.holds).map Worker.path
  rw [← List.singleton_append, ← List.singleton_append (l := w.workers), List.filter_append, List.filter_append,
    List.map_append, List.map_append] at swapped
  exact (List.perm_append_comm_assoc ..).trans ((swapped.append_left _).trans (List.perm_append_comm_assoc ..))

theorem Walk.Shifts.works {i : Nat} {worker changed : Worker} (employed : w.workers[i]? = some worker)
    (holds : changed.holds = worker.holds) (path : changed.path = worker.path) :
    w.Shifts (w.setWorker i changed) none := by
  have swapped := Walk.setWorkerHolders employed changed
  simp only [List.filter_singleton, holds] at swapped
  refine ⟨rfl, ?_⟩
  cases held : worker.holds with
  | false => simpa [held] using swapped
  | true => simpa [held, path] using swapped

theorem Walk.Shifts.gives {i : Nat} {worker changed : Worker} (employed : w.workers[i]? = some worker)
    (holds : worker.holds = true) (gone : changed.holds = false) :
    w.Shifts (w.release.setWorker i changed) (some (.returned worker.path)) := by
  have swapped := Walk.setWorkerHolders employed changed
  simp only [List.filter_singleton, holds, gone] at swapped
  exact ⟨rfl, swapped.symm⟩

theorem WorkerMove.shifts {i : Nat} {worker : Worker} (move : WorkerMove env w i worker events failures walk)
    (employed : w.workers[i]? = some worker) : w.Shifts walk worker.use := by
  cases move with
  | formats here | fails here | delivers here =>
    have unused : worker.use = none := by rw [Worker.use, here]
    rw [unused]
    exact .works employed (by simp only [Worker.holds, here]) rfl
  | ends here | releases here =>
    have returns : worker.use = some (.returned worker.path) := by rw [Worker.use, here]
    rw [returns]
    exact .gives employed (by simp only [Worker.holds, here]) rfl

theorem slotShifts {move : Move} (made : step env move r = some next) :
    (r.slotUse env move = none ∧ (move = .main ∨ ∃ notice, move = .cancel notice)) ∨
      ∃ w, r.walk = some w ∧ r.Shifted next w (r.slotUse env move) := by
  cases move with
  | main => exact .inl ⟨rfl, .inl rfl⟩
  | cancel notice => exact .inl ⟨rfl, .inr ⟨notice, rfl⟩⟩
  | walker =>
    obtain ⟨w, here, made⟩ := Option.bind_eq_some_iff.mp made
    refine .inr ⟨w, here, ?_⟩
    simp only [Run.slotUse, here, Option.bind_some]
    exact walkerShifts made
  | worker i =>
    obtain ⟨w, here, made⟩ := Option.bind_eq_some_iff.mp made
    obtain ⟨worker, employed, made⟩ := Option.bind_eq_some_iff.mp made
    refine .inr ⟨w, here, ?_⟩
    simp only [Run.slotUse, here, employed, Option.bind_some]
    obtain ⟨_, walk, _, _, moves, rfl⟩ := workerMoves made
    exact ⟨walk, rfl, rfl, rfl, moves.shifts employed⟩

end

structure Booked (slots : Nat) (uses : SlotUses) (r : Run) : Prop where
  past : ∀ entry ∈ uses, entry.1 ≤ r.turn
  unused : ∀ path rest, r.main = .inspect path rest → ∀ entry ∈ uses, entry.1 ≠ r.turn
  balanced : ∀ turn, (uses.taken turn).Perm
    (uses.returned turn ++ uses.lost turn ++ if turn = r.turn then r.holders else [])
  full : ∀ w, r.walk = some w → w.free + w.held + (uses.lost r.turn).length = slots

section
variable {env : Conditions} {r next : Run} {w walk : Walk} {events : List Event} {slots : Nat} {uses : SlotUses}

theorem SlotUses.pickNone {turn : Nat} (other : ∀ entry ∈ uses, entry.1 ≠ turn) (kind : SlotUse → Option String) :
    uses.pick kind turn = [] :=
  List.filterMap_eq_nil_iff.mpr fun entry mem => if_neg (other entry mem)

theorem Walk.Shifts.balances {use : Option SlotUse} (shifts : w.Shifts walk use) {taken returned lost : List String}
    (balanced : taken.Perm (returned ++ lost ++ w.holders)) :
    (taken ++ (use.bind SlotUse.taken?).toList).Perm
      (returned ++ (use.bind SlotUse.returned?).toList ++ (lost ++ (use.bind SlotUse.lost?).toList) ++ walk.holders) := by
  -- Counted for one file at a time, a use moves one from a part to another.
  rw [List.perm_iff_count] at balanced ⊢
  intro file
  have before := balanced file
  match use, shifts with
  | none, ⟨_, held⟩ | some (.taken _), ⟨_, held⟩ | some (.returned _), ⟨_, held⟩ | some (.lost _), ⟨_, held⟩ =>
    have moved := held.count_eq file
    simp only [Option.bind_none, Option.bind_some, SlotUse.taken?, SlotUse.returned?, SlotUse.lost?, Option.toList_none,
      Option.toList_some, List.count_append, List.count_cons, List.count_nil] at before moved ⊢
    omega

theorem Walk.Shifts.fills {use : Option SlotUse} (shifts : w.Shifts walk use) {lost : Nat}
    (full : w.free + w.held + lost = slots) :
    walk.free + walk.held + (lost + (use.bind SlotUse.lost?).toList.length) = slots := by
  rw [← Walk.holdersLength] at full ⊢
  match use, shifts with
  | none, ⟨free, held⟩ | some (.taken _), ⟨free, held⟩ | some (.returned _), ⟨free, held⟩ | some (.lost _), ⟨free, held⟩ =>
    have moved := held.length_eq
    simp only [Option.bind_none, Option.bind_some, SlotUse.lost?, Option.toList_none, Option.toList_some,
      List.length_cons, List.length_nil] at moved ⊢
    omega

theorem Booked.shift (booked : Booked slots uses r) (here : r.walk = some w) {use : Option SlotUse}
    (leads : r.Shifted next w use) (going : ∀ path rest, r.main ≠ .inspect path rest) :
    Booked slots (uses ++ use.toList.map (r.turn, ·)) next := by
  obtain ⟨walk, there, turn, main, shifts⟩ := leads
  refine ⟨?_, ?_, ?_, ?_⟩
  · intro entry mem
    rw [turn]
    obtain old | new := List.mem_append.mp mem
    · exact booked.past entry old
    · obtain ⟨_, -, rfl⟩ := List.mem_map.mp new
      exact Nat.le_refl _
  · intro path rest inspects
    exact absurd (main.symm.trans inspects) (going path rest)
  · intro other
    have before := booked.balanced other
    simp only [SlotUses.taken, SlotUses.returned, SlotUses.lost, SlotUses.pickAppend, turn] at before ⊢
    by_cases same : r.turn = other
    · simp only [same, if_true, Run.holders, here, there, Option.elim_some] at before ⊢
      exact shifts.balances before
    · simpa only [if_neg same, if_neg (Ne.symm same), List.append_nil] using before
  · rintro v walks
    obtain rfl : walk = v := Option.some.inj (there.symm.trans walks)
    simpa only [SlotUses.lost, SlotUses.pickAppend, turn, if_true, List.length_append] using
      shifts.fills (booked.full w here)

theorem Booked.keeps (booked : Booked slots uses r) (turn : next.turn = r.turn) (holders : next.holders = r.holders)
    (same : ∀ w, next.walk = some w → ∃ v, r.walk = some v ∧ w.free = v.free ∧ w.held = v.held)
    (other : ∀ path rest, next.main ≠ .inspect path rest) : Booked slots uses next where
  past := by
    rw [turn]
    exact booked.past
  unused path rest inspects := absurd inspects (other path rest)
  balanced := by
    rw [turn, holders]
    exact booked.balanced
  full w there := by
    obtain ⟨v, here, free, held⟩ := same w there
    rw [turn, free, held]
    exact booked.full v here

theorem Walk.Sound.idle (sound : w.Sound) (left : w.walker = .join [] ∨ w.walker = .closed) : w.holders = [] := by
  have holder : w.walker.holder? = none := by obtain left | left := left <;> rw [left] <;> rfl
  have none : w.awaited = [] := by obtain left | left := left <;> simp [Walk.awaited, left]
  have done : w.workers.filter Worker.holds = [] := by
    refine List.filter_eq_nil_iff.mpr fun worker mem holds => ?_
    obtain ⟨i, employed⟩ := List.mem_iff_getElem?.mp mem
    have busy : worker.stage ≠ .finished := fun finished => by simp [Worker.holds, finished] at holds
    have waited := sound.awaits i worker employed busy
    rw [none] at waited
    cases waited
  rw [Walk.holders, holder, done]
  rfl

theorem Booked.main (booked : Booked env.settings.parallelism uses r) (steady : r.Steady)
    (move : MainMove env r events next) : Booked env.settings.parallelism uses next := by
  cases move with
  | finishes here =>
    obtain ⟨log, finish⟩ := finishIs r
    rw [finish]
    exact booked.keeps rfl rfl (fun w walks => ⟨w, walks, rfl, rfl⟩) (by simp)
  | opens here =>
    have alone := steady.alone (by simp [here]) (by simp [here])
    -- A path is begun only when no walk is left, and then no slot of the turn before is held.
    have none : r.holders = [] := by rw [Run.holders, alone]; rfl
    refine ⟨?_, ?_, ?_, by simp [alone]⟩
    · intro entry mem
      exact Nat.le_trans (booked.past entry mem) (by simp [Run.turn])
    · intro _ _ _ entry mem
      have before := booked.past entry mem
      simp only [Run.turn, List.length_append, List.length_singleton] at before ⊢
      omega
    · intro turn
      have before := booked.balanced turn
      rw [none, ite_self] at before
      rw [Run.holders, alone, Option.elim_none, ite_self]
      exact before
  | @walks path rest log here =>
    have alone := steady.alone (by simp [here]) (by simp [here])
    have none : r.holders = [] := by rw [Run.holders, alone]; rfl
    have unused := booked.unused path rest here
    refine ⟨booked.past, by simp, ?_, ?_⟩
    · intro turn
      have before := booked.balanced turn
      rw [none] at before
      exact before
    · rintro w ⟨⟩
      -- Nothing was booked in this turn before its walk began, so all slots are free.
      have fresh : uses.lost r.turn = [] := SlotUses.pickNone unused SlotUse.lost?
      change env.settings.parallelism + 0 + (uses.lost r.turn).length = env.settings.parallelism
      rw [fresh]
      rfl
  | looks | misses | reads | missesFile | formats | fails | escapes =>
    exact booked.keeps rfl rfl (fun w walks => ⟨w, walks, rfl, rfl⟩) (by simp)
  | applies here accepts =>
    obtain ⟨-, turn, walk, main⟩ := accepts.silent
    refine booked.keeps turn ?_ (fun w there => ⟨w, walk.symm.trans there, rfl, rfl⟩) ?_
    · rw [Run.holders, Run.holders, walk]
    · obtain main | ⟨trouble, main⟩ := main <;> simp [main]
  | closes here walks first =>
    have closed := (steady.walking _ walks).1.closed first
    have none := (steady.walking _ walks).1.idle (.inr closed)
    refine booked.keeps rfl ?_ (by simp) (by simp)
    simp only [Run.holders, walks, Option.elim_some, Option.elim_none, none]
  | notes here walks first =>
    refine booked.keeps rfl ?_ ?_ (by simp [here])
    · simp only [Run.holders, walks, Option.elim_some]
      rfl
    · rintro w ⟨⟩
      exact ⟨_, walks, rfl, rfl⟩
  | receives here walks first accepts =>
    obtain ⟨-, turn, walk, main⟩ := accepts.silent
    refine booked.keeps turn ?_ ?_ ?_
    · simp only [Run.holders, walk, walks, Option.elim_some]
      rfl
    · intro w there
      cases walk.symm.trans there
      exact ⟨_, walks, rfl, rfl⟩
    · obtain main | ⟨trouble, main⟩ := main <;> simp [main]

theorem Booked.cancel (booked : Booked slots uses r) (notice : Option LogLine) :
    Booked slots uses (r.cancel notice) where
  past := booked.past
  unused := booked.unused
  balanced := booked.balanced
  full := booked.full

theorem Booked.step {move : Move} (booked : Booked env.settings.parallelism uses r) (steady : r.Steady)
    (made : step env move r = some next) :
    Booked env.settings.parallelism (uses ++ (r.slotUse env move).toList.map (r.turn, ·)) next := by
  obtain ⟨unused, rfl | ⟨notice, rfl⟩⟩ | ⟨w, here, leads⟩ := slotShifts made
  · rw [unused]
    simpa using booked.main steady (mainMoves made)
  · rw [unused]
    cases made
    simpa using booked.cancel notice
  · refine booked.shift here leads fun path rest inspects => ?_
    obtain ⟨_, drains⟩ | ⟨_, ended, -⟩ := (steady.walking w here).2
    · rw [inspects] at drains
      cases drains
    · rw [inspects] at ended
      cases ended

theorem Booked.replay {moves : List Move} {last : Run} {h : History} (booked : Booked env.settings.parallelism uses r)
    (steady : r.Steady) (ran : r.replay env moves = some (h, last)) :
    Booked env.settings.parallelism (uses ++ r.slotUses env moves) last := by
  induction moves generalizing r uses h with
  | nil =>
    cases ran
    simpa [Run.slotUses] using booked
  | cons move moves ih =>
    rw [Run.replay] at ran
    split at ran
    · cases ran
    · rename_i next made
      obtain ⟨⟨later, stop⟩, more, same⟩ := Option.map_eq_some_iff.mp ran
      cases same
      rw [Run.slotUses, made]
      simp only
      rw [← List.append_assoc]
      exact ih (booked.step steady made) ((stepMoves made).steady steady) more

theorem Booked.begin (store : Store) (paths : List String) (canceled : Bool) :
    Booked slots [] (Run.begin store paths canceled) where
  past := by simp
  unused := by simp [Run.begin]
  balanced turn := by
    rw [show (Run.begin store paths canceled).holders = [] from rfl, ite_self]
    exact List.Perm.refl _
  full := by simp [Run.begin]

theorem readsHandled {faults : Faults} (handled : faults.Handled) (path message : String) :
    faults.find? .read path ≠ some (.unexpected message) := by
  intro found
  obtain ⟨fault, mem, called, effect⟩ := Faults.foundFault found
  simpa [called, effect] using handled fault mem

theorem startsHandled {faults : Faults} (handled : faults.Handled) (path : String) (errno : Errno) :
    faults.find? .start path ≠ some (.system errno) := by
  intro found
  obtain ⟨fault, mem, called, effect⟩ := Faults.foundFault found
  simpa [called, effect] using handled fault mem

theorem lostNone (handled : env.faults.Handled) {move : Move} {file : String} :
    r.slotUse env move ≠ some (.lost file) := by
  intro lost
  cases move with
  | main | cancel => cases lost
  | worker i =>
    obtain ⟨worker, -, lost⟩ := Option.bind_eq_some_iff.mp lost
    unfold Worker.use at lost
    split at lost <;> cases lost
  | walker =>
    obtain ⟨w, -, lost⟩ := Option.bind_eq_some_iff.mp lost
    unfold Run.walkerUse at lost
    cases here : w.walker with
    | read path =>
      simp only [here] at lost
      split at lost
      · cases lost
      · cases lost
      · rename_i trouble other failed
        obtain ⟨f, rfl⟩ := readFileFails (readsHandled handled path) failed
        exact other f rfl
    | start path =>
      simp only [here] at lost
      split at lost
      · cases lost
      · cases lost
      · rename_i found
        exact startsHandled handled path _ found
    | wait => simp only [here] at lost; split at lost <;> cases lost
    | check => simp only [here] at lost; split at lost <;> cases lost
    | _ => simp [here] at lost

theorem losesNone (handled : env.faults.Handled) (moves : List Move) :
    ∀ entry ∈ r.slotUses env moves, entry.2.lost? = none := by
  induction moves generalizing r with
  | nil => simp [Run.slotUses]
  | cons move moves ih =>
    rw [Run.slotUses]
    split
    · simp
    · intro entry mem
      obtain now | later := List.mem_append.mp mem
      · obtain ⟨use, used, rfl⟩ := List.mem_map.mp now
        cases use with
        | lost file => exact absurd (Option.mem_toList.mp used) (lostNone handled)
        | taken | returned => rfl
      · exact ih entry later

end

/-- A slot of the walk that goes on is free, held by the walker in a dispatch, held by a worker
that has not released it, or lost; each one that was taken was given back once, is held, or
was lost; and only what holds one gives one back. -/
structure Conserved (env : Conditions) (uses : SlotUses) (r : Run) : Prop where
  slots : ∀ w, r.walk = some w → w.free + w.walker.holds.toNat + w.workers.countP Worker.holds +
    (uses.lost r.turn).length = env.settings.parallelism
  formatting : ∀ w, r.walk = some w →
    w.workers.countP (fun worker => worker.stage == .formatting) ≤ env.settings.parallelism
  balanced : ∀ turn, (uses.taken turn).Perm
    (uses.returned turn ++ uses.lost turn ++ if turn = r.turn then r.holders else [])
  returns : ∀ move next file, step env move r = some next → r.slotUse env move = some (.returned file) →
    file ∈ r.holders ∧ ∀ w, r.walk = some w → w.free < env.settings.parallelism
  joined : ∀ w, r.walk = some w → w.walker = .join [] ∨ w.walker = .closed →
    r.holders = [] ∧ w.free + (uses.lost r.turn).length = env.settings.parallelism

theorem Booked.conserved {env : Conditions} {uses : SlotUses} {r : Run} (booked : Booked env.settings.parallelism uses r)
    (steady : r.Steady) : Conserved env uses r := by
  have slots : ∀ w, r.walk = some w → w.free + w.walker.holds.toNat + w.workers.countP Worker.holds +
      (uses.lost r.turn).length = env.settings.parallelism := by
    intro w here
    have full := booked.full w here
    rw [Walk.held] at full
    omega
  refine ⟨slots, ?_, booked.balanced, ?_, ?_⟩
  · intro w here
    have full := slots w here
    have formatting : w.workers.countP (fun worker => worker.stage == .formatting) ≤ w.workers.countP Worker.holds := by
      refine List.countP_mono_left fun worker _ formats => ?_
      rw [Worker.holds, eq_of_beq formats]
    omega
  · intro move next file made used
    obtain ⟨unused, -⟩ | ⟨w, here, walk, -, -, -, shifts⟩ := slotShifts made
    · rw [unused] at used
      cases used
    · rw [used] at shifts
      have mem : file ∈ w.holders := shifts.2.symm.subset List.mem_cons_self
      refine ⟨by rwa [Run.holders, here], ?_⟩
      intro v walks
      obtain rfl : w = v := Option.some.inj (here.symm.trans walks)
      have full := booked.full w here
      have some := List.length_pos_of_mem mem
      rw [Walk.holdersLength] at some
      omega
  · intro w here left
    have idle := (steady.walking w here).1.idle left
    have full := booked.full w here
    rw [← Walk.holdersLength, idle] at full
    exact ⟨by rwa [Run.holders, here], full⟩

/-- In every order of moves the slots of a walk are conserved, none is lost where files and
workers fail as the walker expects, and unless the run is over one of its actors can move. -/
theorem slotsConserved {env : Conditions} {store : Store} {paths : List String} {canceled : Bool} {moves : List Move}
    {h : History} {r : Run} (ran : (Run.begin store paths canceled).replay env moves = some (h, r)) :
    Conserved env ((Run.begin store paths canceled).slotUses env moves) r ∧
      (env.faults.Handled → ∀ turn, ((Run.begin store paths canceled).slotUses env moves).lost turn = []) ∧
      ((∀ result, r.main ≠ .ended result) →
        ∃ move next, move.isOwn = true ∧ step env move r = some next ∧ (move = .walker → ¬ r.Blocked)) := by
  have trace := Run.replayed ran
  have booked := (Booked.begin store paths canceled).replay (.begin store paths canceled) ran
  refine ⟨booked.conserved trace.steady, fun handled turn => ?_, fun going => ?_⟩
  · refine List.filterMap_eq_nil_iff.mpr fun entry mem => ?_
    rw [losesNone handled moves entry mem, ite_self]
  · obtain ⟨move, next, own, made, unblocked, -⟩ := trace.steady.canMove trace.slotted going
    exact ⟨move, next, own, made, unblocked⟩

def unstartable : Conditions :=
  { reporting with faults := [⟨.start, some "d/b.go", .unexpected "can't start new thread"⟩] }

/-- The second file gives its slot back while the first is still being formatted. -/
def refusing : List Move := [Move.main, .main] ++ List.replicate 15 Move.walker

theorem refusedLate : ∃ h r w, Phase unstartable (Run.begin (linkedStore exitSource) ["d"] false) refusing h
    [(1, .taken "d/a.go"), (1, .taken "d/b.go"), (1, .returned "d/b.go")] r ∧
    r.main = .drain [] ∧ r.walk = some w ∧ w.free = 1 ∧ r.holders = ["d/a.go"] := by
  have unfaulted (call : Call) (other : call ≠ .start) (path : String) : unstartable.faults.find? call path = none := by
    cases call <;> first | rfl | exact absurd rfl other
  have starts : unstartable.faults.find? .start "d/a.go" = none ∧
      unstartable.faults.find? .start "d/b.go" = some (.unexpected "can't start new thread") := by decide +kernel
  have reads : unstartable.faults.guarded .read "d/b.go" ((linkedStore exitSource).read "d/b.go") = .ok exitSource := by
    simp [Faults.guarded, Except.mapError, unfaulted, linkedFiles]
  obtain ⟨log, taken⟩ := takesBoth [] unfaulted starts.1 rfl
  exact ⟨_, _, _, taken.append (.refuses rfl reads starts.2), rfl, rfl, rfl, rfl⟩

theorem linkedConserved : unstartable.faults.Handled ∧
    ∃ h r w, (Run.begin (linkedStore exitSource) ["d"] false).replay unstartable refusing = some (h, r) ∧
      r.walk = some w ∧ w.free = 1 ∧ r.holders = ["d/a.go"] ∧
      ((Run.begin (linkedStore exitSource) ["d"] false).slotUses unstartable refusing).taken 1 = ["d/a.go", "d/b.go"] ∧
      ((Run.begin (linkedStore exitSource) ["d"] false).slotUses unstartable refusing).lost 1 = [] ∧
      Conserved unstartable ((Run.begin (linkedStore exitSource) ["d"] false).slotUses unstartable refusing) r ∧
      ∃ move next, move.isOwn = true ∧ step unstartable move r = some next := by
  have handled : unstartable.faults.Handled := by simp [Faults.Handled, unstartable]
  obtain ⟨h, r, w, ⟨ran, uses⟩, drains, here, free, holders⟩ := refusedLate
  obtain ⟨conserved, lost, goes⟩ := slotsConserved ran
  obtain ⟨move, next, own, made, -⟩ := goes (by simp [drains])
  exact ⟨handled, h, r, w, ran, here, free, holders, by rw [uses]; rfl, lost handled 1, conserved, move, next, own, made⟩

end Batch
end ExitSpacing
