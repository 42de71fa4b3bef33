import ExitSpacing.Proofs.Outcomes
import ExitSpacing.Proofs.Shape
import Mathlib.Data.List.Perm.Subperm

/-! Writing in place, step by step: a write that succeeds changes the bytes of one file and
nothing else, and one that fails leaves the store as it was, unless its temporary file
cannot be removed. -/
namespace ExitSpacing

/-- Faults that only a unit or a walk fails from: they do not end a run. A temporary file can
always be removed. -/
def Fault.isContained (f : Fault) : Bool :=
  match f.call, f.effect with
  | .list, _ | .isFile, _ | .start, _ => true
  | .format, _ | .unlink, _ => false
  | _, .system _ => true
  | _, .unexpected _ => false

/-- The clean-up may find its temporary file gone: that too is caught where it happens. -/
def Fault.isCaught (f : Fault) : Bool :=
  f.isContained || match f.call, f.effect with
    | .unlink, .system .notFound => true
    | _, _ => false

namespace Faults

def Contained (faults : Faults) : Prop := ∀ fault ∈ faults, fault.isContained = true

def Caught (faults : Faults) : Prop := ∀ fault ∈ faults, fault.isCaught = true

theorem Contained.caught {faults : Faults} (contained : faults.Contained) : faults.Caught :=
  fun fault mem => by rw [Fault.isCaught, contained fault mem, Bool.true_or]

theorem foundFault {faults : Faults} {call : Call} {path : String} {effect : Effect}
    (found : faults.find? call path = some effect) : ∃ fault ∈ faults, fault.call = call ∧ fault.effect = effect := by
  obtain ⟨fault, first, same⟩ := Option.map_eq_some_iff.mp found
  have called := List.find?_some first
  rw [Bool.and_eq_true, beq_iff_eq] at called
  exact ⟨fault, List.mem_of_find?_eq_some first, called.1, same⟩

theorem Caught.found {faults : Faults} (caught : faults.Caught) {call : Call} {path : String} {effect : Effect}
    (found : faults.find? call path = some effect) : Fault.isCaught ⟨call, none, effect⟩ = true := by
  obtain ⟨fault, mem, rfl, rfl⟩ := foundFault found
  exact caught fault mem

theorem Contained.removes {faults : Faults} (contained : faults.Contained) (path : String) :
    faults.find? .unlink path = none := by
  by_contra some
  obtain ⟨effect, found⟩ := Option.ne_none_iff_exists'.mp some
  obtain ⟨fault, mem, called, -⟩ := foundFault found
  have fine := contained fault mem
  rw [Fault.isContained, called] at fine
  cases fine

theorem guardedUnexpected {faults : Faults} {call : Call} {path message : String} {result : Except Errno α}
    (failed : faults.guarded call path result = .error (.unexpected message)) :
    faults.find? call path = some (.unexpected message) := by
  unfold guarded at failed
  split at failed
  · rename_i found
    rw [found]
    exact congrArg some (Except.error.inj failed)
  · cases result <;> cases failed

theorem guardedOk {faults : Faults} {call : Call} {path : String} {result : Except Errno α} {value : α}
    (ok : faults.guarded call path result = .ok value) : faults.find? call path = none ∧ result = .ok value := by
  unfold guarded at ok
  split at ok
  · cases ok
  · rename_i none
    cases result with
    | error => cases ok
    | ok => exact ⟨none, by cases ok; rfl⟩

end Faults

namespace InPlace

theorem serialInjective {m n : Nat} (same : serial m = serial n) : m = n := by
  have value (k : Nat) : Nat.ofDigitChars 10 (serial k).toList 0 = k := by
    simp only [serial, String.toList_ofList, Nat.ofDigitChars_append, Nat.ofDigitChars_replicate_zero, Nat.mul_zero,
      Nat.ofDigitChars_ten_toDigits]
  rw [← value m, same, value n]

theorem tempNameInjective {base : String} {m n : Nat} (same : tempName base m = tempName base n) : m = n := by
  refine serialInjective ?_
  have texts := congrArg String.toList same
  simp only [tempName, toString, String.toList_append, List.append_assoc] at texts
  have tails := List.append_cancel_left (List.append_cancel_left (List.append_cancel_left texts))
  exact String.toList_injective (List.append_cancel_right tails)

theorem tempFree (s : Store) (place : Location) : s.Free (tempFor s place) := by
  simp only [tempFor]
  generalize named' : (fun n => place.dropLast ++ [tempName (place.getLast?.getD "") n]) = named
  cases found : ((List.range (s.entries.length + 1)).map named).find? fun l => (s.find? l).isNone with
  | some l =>
    have free := List.find?_some found
    exact Option.isNone_iff_eq_none.mp free
  | none =>
    have taken : ∀ l ∈ (List.range (s.entries.length + 1)).map named, l ∈ s.keys := by
      intro l mem
      have held := List.find?_eq_none.mp found l mem
      obtain ⟨item, held⟩ := Option.ne_none_iff_exists'.mp (mt Option.isNone_iff_eq_none.mpr held)
      exact Store.keyMem held
    -- Were all of these names taken, the store would have more entries than it has.
    have apart : ((List.range (s.entries.length + 1)).map named).Nodup := by
      refine List.Nodup.map ?_ List.nodup_range
      intro m n same
      simp only [← named', List.append_cancel_left_eq, List.cons.injEq, and_true] at same
      exact tempNameInjective same
    have fits := (apart.subperm taken).length_le
    simp only [Store.keys, List.length_map, List.length_range] at fits
    omega

theorem putKeeps {s : Store} {temp location : Location} {item : Item} (free : s.Free temp) (added : Item)
    (held : s.find? location = some item) : (s.put temp added).find? location = some item := by
  have apart : location ≠ temp := by
    rintro rfl
    cases held.symm.trans free
  rw [Store.findPut _ free.aside, if_neg apart, held]

theorem roomOk {s : Store} {temp there : Location} (ok : room s temp = .ok there) : temp = there := by
  unfold room at ok
  split at ok
  · cases ok
  · split at ok
    · split at ok
      · cases ok
        rfl
      · cases ok
    · cases ok
    · cases ok

namespace Write

inductive Advance (faults : Faults) (w : Write) : Write → Prop where
  | checks {there item} (here : w.stage = .start) (reached : w.store.reach w.target = .ok there)
      (found : w.store.find? there = some item) :
      Advance faults w { w with stage := .checked (modeOf item) }
  | creates {mode} (here : w.stage = .checked mode) :
      Advance faults w { w with
        stage := .created mode (tempFor w.store w.place)
        store := w.store.put (tempFor w.store w.place) (.file privateMode []) }
  | fills {mode temp} (here : w.stage = .created mode temp) :
      Advance faults w { w with stage := .filled mode temp, store := w.store.put temp (.file privateMode w.content) }
  | modes {mode temp} (here : w.stage = .filled mode temp) :
      Advance faults w { w with stage := .moded temp, store := w.store.put temp (.file mode w.content) }
  | replaces {temp item} (here : w.stage = .moded temp) (held : w.store.find? temp = some item)
      (other : ∀ mode, w.store.find? w.place ≠ some (.directory mode)) :
      Advance faults w ({ w with store := (w.store.erase temp).put w.place item }.finish (.ok ()))
  | refuses {errno} (here : w.stage = .start ∨ ∃ mode, w.stage = .checked mode) : Advance faults w (w.refuse errno)
  | falters {temp errno log} (here : (∃ mode, w.stage = .created mode temp) ∨ (∃ mode, w.stage = .filled mode temp) ∨
      w.stage = .moded temp) : Advance faults w { w with stage := .failed temp errno, log }
  | withdraws {temp errno} (here : w.stage = .failed temp errno) :
      Advance faults w ({ w with store := w.store.erase temp }.refuse errno)
  | gives {temp errno effect} (here : w.stage = .failed temp errno) (stuck : faults.find? .unlink w.shown = some effect) :
      Advance faults w (w.refuse errno)
  | sticks {temp errno effect} (here : w.stage = .failed temp errno) (stuck : faults.find? .unlink w.shown = some effect)
      (other : effect ≠ .system .notFound) : Advance faults w (w.finish (.error effect.trouble))
  | escapes {call message} (going : ∀ result, w.stage ≠ .finished result)
      (found : faults.find? call w.shown = some (.unexpected message))
      (writing : call ≠ .list ∧ call ≠ .isFile ∧ call ≠ .start) :
      Advance faults w (w.finish (.error (.unexpected message)))
  | rests {result} (here : w.stage = .finished result) : Advance faults w w

section
variable {faults : Faults} {w next : Write}

theorem escapesFrom {call : Call} {message : String} (found : faults.find? call w.shown = some (.unexpected message))
    (writing : call ≠ .list ∧ call ≠ .isFile ∧ call ≠ .start) : ¬ faults.Caught := by
  intro caught
  have fine := caught.found found
  cases call <;> simp_all [Fault.isCaught, Fault.isContained]

theorem sticksFrom {effect : Effect} (stuck : faults.find? .unlink w.shown = some effect)
    (other : effect ≠ .system .notFound) : ¬ faults.Caught := by
  intro caught
  have fine := caught.found stuck
  simp only [Fault.isCaught, Fault.isContained, Bool.false_or] at fine
  split at fine
  · exact other rfl
  · cases fine

theorem advance (faults : Faults) (w : Write) : Advance faults w (w.step faults) := by
  cases here : w.stage with
  | start =>
    simp only [step, here]
    split
    · rename_i item ok
      obtain ⟨-, found⟩ := Faults.guardedOk ok
      cases reached : w.store.reach w.target with
      | error => rw [reached] at found; cases found
      | ok there =>
        rw [reached] at found
        exact .checks here reached (Store.itemAtOk found)
    · rename_i effect failed
      cases effect with
      | system errno => exact .refuses (.inl here)
      | unexpected message =>
        exact .escapes (by simp [here]) (Faults.guardedUnexpected failed) (by simp)
  | checked mode =>
    simp only [step, here]
    split
    · rename_i temp ok
      obtain rfl := roomOk (Faults.guardedOk ok).2
      exact .creates here
    · rename_i effect failed
      cases effect with
      | system errno => exact .refuses (.inr ⟨mode, here⟩)
      | unexpected message =>
        exact .escapes (by simp [here]) (Faults.guardedUnexpected failed) (by simp)
  | created mode temp =>
    simp only [step, here]
    split
    · exact .fills here
    · rename_i effect found
      cases effect with
      | system errno => exact .falters (.inl ⟨mode, here⟩)
      | unexpected message => exact .escapes (by simp [here]) found (by simp)
  | filled mode temp =>
    simp only [step, here]
    split
    · exact .modes here
    · rename_i effect found
      cases effect with
      | system errno => exact .falters (.inr (.inl ⟨mode, here⟩))
      | unexpected message => exact .escapes (by simp [here]) found (by simp)
  | moded temp =>
    simp only [step, here]
    split
    · rename_i item ok
      obtain ⟨-, moved⟩ := Faults.guardedOk ok
      -- A fault apart, a rename fails only where a directory has come to the place.
      unfold Write.moved at moved
      split at moved
      · cases moved
      · rename_i item held other
        cases moved
        exact .replaces here held other
      · cases moved
    · rename_i effect failed
      cases effect with
      | system errno => exact .falters (.inr (.inr here))
      | unexpected message =>
        exact .escapes (by simp [here]) (Faults.guardedUnexpected failed) (by simp)
  | failed temp errno =>
    simp only [step, here]
    split
    · exact .withdraws here
    · rename_i found
      exact .gives here found
    · rename_i other found
      exact .sticks here found (by simpa using other)
  | finished result =>
    simp only [step, here]
    exact .rests here

def left : Stage → Nat
  | .start => 6
  | .checked _ => 5
  | .created .. => 4
  | .filled .. => 3
  | .moded _ => 2
  | .failed .. => 1
  | .finished _ => 0

theorem Advance.left (move : Advance faults w next) : left next.stage ≤ left w.stage - 1 := by
  cases move with
  | refuses here => exact Nat.zero_le _
  | falters here => obtain ⟨_, here⟩ | ⟨_, here⟩ | here := here <;> simp [Write.left, here]
  | escapes | sticks | withdraws | gives | replaces => exact Nat.zero_le _
  | checks here | creates here | fills here | modes here | rests here => simp [Write.left, here]

theorem runEnds (faults : Faults) (w : Write) : ∃ result, (w.run faults).stage = .finished result := by
  have all : ∀ (ns : List Nat) (w : Write),
      left (ns.foldl (fun w _ => w.step faults) w).stage ≤ left w.stage - ns.length := by
    intro ns
    induction ns with
    | nil => exact fun w => Nat.le_refl _
    | cons n ns ih =>
      intro w
      have one := (advance faults w).left
      have rest := ih (w.step faults)
      rw [List.foldl_cons, List.length_cons]
      omega
  have none := all (List.range stepLimit) w
  have most : left w.stage ≤ stepLimit := by cases w.stage <;> simp [left, stepLimit]
  rw [List.length_range, Nat.sub_eq_zero_of_le most] at none
  change left (w.run faults).stage ≤ 0 at none
  cases stage : (w.run faults).stage <;> rw [stage, left] at none <;> first | omega | exact ⟨_, rfl⟩

theorem runRests (faults : Faults) {result : Except Trouble Unit} (here : w.stage = .finished result) :
    w.run faults = w :=
  List.foldl_fixed' (fun _ => by simp only [step, here]) _

def after (faults : Faults) (w : Write) (n : Nat) : Write := (List.range n).foldl (fun w _ => w.step faults) w

theorem afterKeeps {P : Write → Prop} (keeps : ∀ {w next : Write}, P w → Advance faults w next → P next) (atStart : P w)
    (n : Nat) : P (w.after faults n) := by
  have all : ∀ (ns : List Nat) (w : Write), P w → P (ns.foldl (fun w _ => w.step faults) w) := by
    intro ns
    induction ns with
    | nil => exact fun w held => held
    | cons n ns ih => exact fun w held => ih _ (keeps held (advance faults w))
  exact all _ w atStart

theorem runKeeps {P : Write → Prop} (keeps : ∀ {w next : Write}, P w → Advance faults w next → P next) (atStart : P w) :
    P (w.run faults) :=
  afterKeeps keeps atStart stepLimit

structure Fair (path : String) (faults : Faults) (w : Write) : Prop where
  own : w.path = path
  failure : ∀ trouble, w.stage = .finished (.error trouble) →
    (∃ f, trouble = .failure f ∧ f.OfAccess path "write") ∨ (∀ f, trouble ≠ .failure f) ∧
      (¬ faults.Caught ∨ Path.hasNull path = true)

theorem Fair.refuse {path : String} (same : w.path = path) (errno : Errno) : (w.refuse errno).Fair path faults where
  own := same
  failure trouble failed := by
    cases failed
    exact .inl ⟨_, rfl, same ▸ .inaccessible⟩

theorem Fair.begin (store : Store) (path : String) (content : Bytes) : (begin store path content).Fair path faults where
  own := rfl
  failure trouble failed := by
    simp only [Write.begin] at failed
    split at failed
    · rename_i null
      cases failed
      exact .inr ⟨by simp, .inr null⟩
    · cases failed

theorem Fair.advance {path : String} (fair : w.Fair path faults) (move : Advance faults w next) : next.Fair path faults := by
  cases move with
  | refuses | gives => exact .refuse fair.own _
  | @withdraws temp => exact Fair.refuse (w := { w with store := w.store.erase temp }) fair.own _
  | checks | creates | fills | modes | falters => exact ⟨fair.own, by simp⟩
  | replaces => exact ⟨fair.own, by simp [finish]⟩
  | @sticks temp errno effect here stuck other =>
    refine ⟨fair.own, fun trouble failed => ?_⟩
    cases failed
    refine .inr ⟨?_, .inl (sticksFrom stuck other)⟩
    cases effect <;> simp [Effect.trouble]
  | escapes going found writing =>
    refine ⟨fair.own, fun trouble failed => ?_⟩
    cases failed
    exact .inr ⟨by simp, .inl (escapesFrom found writing)⟩
  | rests => exact fair

theorem runFair (faults : Faults) (store : Store) (path : String) (content : Bytes) :
    ((begin store path content).run faults).Fair path faults :=
  runKeeps (fun fair move => fair.advance move) (.begin store path content)

def Occupied (s : Store) (place : Location) (mode : Nat) : Prop :=
  ∃ item, s.find? place = some item ∧ item.isLink = false ∧ modeOf item = mode

/-- A write on its way. Until it has succeeded, all that the store has besides what it held
is one temporary file, and only a fault can leave that behind. -/
structure Within (s : Store) (target place : Location) (content : Bytes) (faults : Faults) (w : Write) : Prop where
  aim : w.target = target
  spot : w.place = place
  bytes : w.content = content
  home : w.store.home = s.home
  state : match w.stage with
    | .start => w.store = s
    | .checked mode => Occupied s place mode ∧ w.store = s
    | .created mode temp => Occupied s place mode ∧ temp = tempFor s place ∧ w.store = s.put temp (.file privateMode [])
    | .filled mode temp => Occupied s place mode ∧ temp = tempFor s place ∧
        w.store = s.put temp (.file privateMode content)
    | .moded temp => ∃ mode, Occupied s place mode ∧ temp = tempFor s place ∧ w.store = s.put temp (.file mode content)
    | .failed temp _ => temp = tempFor s place ∧ ∃ item, w.store = s.put temp item
    | .finished (.ok ()) => ∃ mode old, s.find? place = some (.file mode old) ∧ w.store = s.rewrite place content
    | .finished (.error trouble) => w.store = s ∨
        (∃ item, w.store = s.put (tempFor s place) item) ∧
          (faults.find? .unlink (s.shown target) ≠ none ∨ ∃ call message,
            trouble = .unexpected message ∧ faults.find? call (s.shown target) = some (.unexpected message))

section
variable {s : Store} {target place : Location} {mode : Nat} {content old : Bytes}

theorem Within.begin (s : Store) (path : String) (content : Bytes) (faults : Faults) :
    (begin s path content).Within s (s.realPath path) (s.placeOf (s.realPath path)) content faults := by
  refine ⟨rfl, rfl, rfl, rfl, ?_⟩
  cases plain : Path.hasNull path <;> simp [Write.begin, plain]

theorem Within.going (within : w.Within s target place content faults) (going : ∀ result, w.stage ≠ .finished result) :
    w.store = s ∨ ∃ item, w.store = s.put (tempFor s place) item := by
  have state := within.state
  cases here : w.stage with
  | start => rw [here] at state; exact .inl state
  | checked => rw [here] at state; exact .inl state.2
  | created | filled =>
    rw [here] at state
    obtain ⟨-, rfl, store⟩ := state
    exact .inr ⟨_, store⟩
  | moded =>
    rw [here] at state
    obtain ⟨_, -, rfl, store⟩ := state
    exact .inr ⟨_, store⟩
  | failed =>
    rw [here] at state
    obtain ⟨rfl, _, store⟩ := state
    exact .inr ⟨_, store⟩
  | finished result => exact absurd here (going result)

theorem Within.advance (unique : s.Unique)
    (seen : ∀ there item, s.reach target = .ok there → s.find? there = some item →
      s.find? place = some item ∧ item.isLink = false)
    (within : w.Within s target place content faults) (move : Advance faults w next) :
    next.Within s target place content faults := by
  -- Wherever an unexpected fault ends the write, this is all that can be left.
  have before := within.going
  have free := tempFree s place
  obtain ⟨aim, spot, bytes, home, store⟩ := within
  have shown : w.shown = s.shown target := by rw [Write.shown, aim, Store.shownHome home]
  cases move with
  | checks here reached found =>
    rw [here] at store
    rw [store, aim] at reached
    rw [store] at found
    obtain ⟨held, unlinked⟩ := seen _ _ reached found
    exact ⟨aim, spot, bytes, home, ⟨_, held, unlinked, rfl⟩, store⟩
  | creates here =>
    rw [here] at store
    refine ⟨aim, spot, bytes, (Store.putHome ..).trans home, store.1, ?_, ?_⟩
    · rw [store.2, spot]
    · rw [store.2]
  | fills here =>
    rw [here] at store
    obtain ⟨occupied, rfl, store⟩ := store
    exact ⟨aim, spot, bytes, (Store.putHome ..).trans home, occupied, rfl, by rw [store, free.putAgain, bytes]⟩
  | modes here =>
    rw [here] at store
    obtain ⟨occupied, rfl, store⟩ := store
    exact ⟨aim, spot, bytes, (Store.putHome ..).trans home, _, occupied, rfl, by rw [store, free.putAgain, bytes]⟩
  | replaces here moved other =>
    rw [here] at store
    obtain ⟨mode, ⟨item, held, unlinked, rfl⟩, rfl, store⟩ := store
    rw [store, Store.findPut _ free.aside, if_pos rfl] at moved
    cases moved
    have apart : place ≠ _ := fun same => by
      rw [same, show s.find? _ = none from free] at held
      cases held
    rw [store, spot, Store.findPut _ free.aside, if_neg apart, held] at other
    -- The move rules out a directory at the place, and `seen` a link.
    cases item with
    | directory mode => exact absurd rfl (other mode)
    | link => cases unlinked
    | file mode old =>
      refine ⟨aim, spot, bytes, (Store.putHome ..).trans home, ⟨mode, old, held, ?_⟩⟩
      simp only [finish, store, free.putErase, spot]
      exact Store.putRewrites unique held content
  | refuses here =>
    refine ⟨aim, spot, bytes, home, .inl ?_⟩
    obtain here | ⟨mode, here⟩ := here <;> rw [here] at store
    · exact store
    · exact store.2
  | falters here =>
    refine ⟨aim, spot, bytes, home, ?_⟩
    obtain ⟨_, here⟩ | ⟨_, here⟩ | here := here <;> rw [here] at store
    · exact ⟨store.2.1, _, store.2.2⟩
    · exact ⟨store.2.1, _, store.2.2⟩
    · obtain ⟨_, -, same, store⟩ := store
      exact ⟨same, _, store⟩
  | withdraws here =>
    rw [here] at store
    obtain ⟨rfl, item, store⟩ := store
    exact ⟨aim, spot, bytes, home, .inl (by simp only [refuse, finish, store, free.putErase])⟩
  | gives here stuck | sticks here stuck =>
    rw [here] at store
    obtain ⟨rfl, item, store⟩ := store
    rw [shown] at stuck
    exact ⟨aim, spot, bytes, home, .inr ⟨⟨item, store⟩, .inl (by simp [stuck])⟩⟩
  | escapes going found writing =>
    rw [shown] at found
    obtain kept | left := before going
    · exact ⟨aim, spot, bytes, home, .inl kept⟩
    · exact ⟨aim, spot, bytes, home, .inr ⟨left, .inr ⟨_, _, rfl, found⟩⟩⟩
  | rests here => exact ⟨aim, spot, bytes, home, store⟩

theorem seenReal (real : s.Real target) (there : Location) (item : Item) (reached : s.reach target = .ok there)
    (found : s.find? there = some item) : s.find? target = some item ∧ item.isLink = false := by
  rw [real.reach] at reached
  cases reached
  obtain ⟨_, held, unlinked⟩ := real.found
  cases found.symm.trans held
  exact ⟨held, unlinked⟩

/-- Writing over a file that a path leads to: its bytes are replaced, or nothing is left
behind, or a fault that no run contains has ended the write. -/
theorem runOutcome (faults : Faults) {path : String} (unique : s.Unique) (located : s.locate path = .ok target)
    (plain : Path.hasNull path = false) (content : Bytes) :
    let w := (begin s path content).run faults
    (w.result = .ok () ∧ w.store = s.rewrite target content) ∨
      (∃ f, w.result = .error (.failure f) ∧ f.OfAccess path "write" ∧
        ((∀ path, faults.find? .unlink path = none) → w.store = s)) ∨
      ∃ trouble, w.result = .error trouble ∧ (∀ f, trouble ≠ .failure f) ∧ ¬ faults.Caught := by
  intro w
  have real := Store.locateReal located
  have start := Within.begin s path content faults
  rw [Store.realPathLocated located, real.place] at start
  have within : w.Within s target target content faults :=
    runKeeps (fun within move => within.advance unique (seenReal real) move) start
  obtain ⟨result, ends⟩ := runEnds faults (begin s path content)
  have fair := runFair faults s path content
  have state := within.state
  simp only [Write.result, w, ends] at state ⊢
  cases result with
  | ok =>
    obtain ⟨_, _, -, rewritten⟩ := state
    exact .inl ⟨rfl, rewritten⟩
  | error trouble =>
    obtain ⟨f, rfl, access⟩ | ⟨other, faulty⟩ := fair.failure trouble ends
    · refine .inr (.inl ⟨f, rfl, access, fun removes => state.resolve_right ?_⟩)
      rintro ⟨-, stuck | ⟨_, _, unexpected, -⟩⟩
      · exact stuck (removes _)
      · cases unexpected
    · refine .inr (.inr ⟨trouble, rfl, other, faulty.resolve_right ?_⟩)
      simp [plain]

section
variable {path : String} (plain : Path.hasNull path = false) (located : s.locate path = .ok target)
  (held : s.find? target = some (.file mode old))
  (roomy : room s (tempFor s target) = .ok (tempFor s target)) (content : Bytes)
include plain located held roomy

theorem runFills (unfaulted : ∀ call, call ≠ .replace → call ≠ .unlink → faults.find? call (s.shown target) = none) :
    (begin s path content).run faults =
      ((⟨path, content, target, target, s.put (tempFor s target) (.file mode content), .moded (tempFor s target), []⟩ :
        Write).step faults).step faults := by
  have real := Store.locateReal located
  have start : begin s path content = ⟨path, content, target, target, s, .start, []⟩ := by
    simp [begin, plain, Store.realPathLocated located, real.place]
  have found : s.itemAt target = .ok (.file mode old) := Store.itemAtFound held
  have faultless : faults.find? .writeStat (s.shown target) = none ∧ faults.find? .createTemp (s.shown target) = none ∧
      faults.find? .fillTemp (s.shown target) = none ∧ faults.find? .chmod (s.shown target) = none := by
    refine ⟨unfaulted _ ?_ ?_, unfaulted _ ?_ ?_, unfaulted _ ?_ ?_, unfaulted _ ?_ ?_⟩ <;> decide
  have free := tempFree s target
  simp only [run, stepLimit, List.range_succ, List.range_zero, List.nil_append, List.foldl_append, List.foldl_cons,
    List.foldl_nil]
  congr 2
  rw [start]
  simp [step, shown, Store.shownPut, Faults.guarded, faultless, real.reach, found, bind, Except.bind, Except.mapError,
    roomy, free.putAgain, modeOf]

theorem runSucceeds (unfaulted : ∀ call, faults.find? call (s.shown target) = none) :
    ((begin s path content).run faults).result = .ok () := by
  have free := tempFree s target
  have apart : target ≠ tempFor s target := by
    intro same
    have none : s.find? (tempFor s target) = none := free
    rw [← same, held] at none
    cases none
  rw [runFills plain located held roomy content fun call _ _ => unfaulted call]
  simp [step, shown, Store.shownPut, Faults.guarded, unfaulted, Except.mapError, moved, Store.findPut _ free.aside, apart,
    held, finish, result]

theorem runBlocked (unfaulted : ∀ call, call ≠ .replace → call ≠ .unlink → faults.find? call (s.shown target) = none)
    {errno : Errno} (blocked : faults.find? .replace (s.shown target) = some (.system errno)) :
    ((begin s path content).run faults).result =
      match faults.find? .unlink (s.shown target) with
      | none | some (.system .notFound) => .error (.failure (.inaccessible path "write" (.system errno none)))
      | some effect => .error effect.trouble := by
  rw [runFills plain located held roomy content unfaulted]
  simp only [step, shown, Store.shownPut, Faults.guarded, blocked, refuseLate]
  cases faults.find? .unlink (s.shown target) with
  | none => rfl
  | some effect =>
    cases effect with
    | system code => cases code <;> rfl
    | unexpected => rfl

end

end

def blank (w : Write) : Write := { w with content := [], store := w.store.blank }

theorem modeBlank (item : Item) : modeOf item.blank = modeOf item := by cases item <;> rfl

theorem tempBlank (s : Store) (place : Location) : tempFor s.blank place = tempFor s place := by
  have length : s.blank.entries.length = s.entries.length := by
    simpa only [Store.keys, List.length_map] using congrArg List.length s.blankKeys
  simp only [tempFor, length, Store.blankFind, Option.isNone_map]

theorem roomBlank (s : Store) (temp : Location) : room s.blank temp = room s temp := by
  simp only [room, Store.blankFind]
  split
  · rfl
  · cases s.find? temp.dropLast with
    | none => rfl
    | some item => cases item <;> rfl

theorem guardedMap {f : α → β} (faults : Faults) (call : Call) (path : String) (result : Except Errno α) :
    faults.guarded call path (result.map f) = (faults.guarded call path result).map f := by
  unfold Faults.guarded
  cases faults.find? call path <;> cases result <;> rfl

theorem refuseEarlyBlank (w : Write) (effect : Effect) : (w.refuseEarly effect).blank = w.blank.refuseEarly effect := by
  cases effect <;> rfl

theorem refuseLateBlank (w : Write) (temp : Location) (effect : Effect) :
    (w.refuseLate temp effect).blank = w.blank.refuseLate temp effect := by
  cases effect <;> rfl

theorem stepBlank (faults : Faults) (w : Write) : (w.step faults).blank = w.blank.step faults := by
  cases here : w.stage with
  | start =>
    have found : (do w.blank.store.itemAt (← w.blank.store.reach w.blank.target) : Except Errno Item) =
        (do w.store.itemAt (← w.store.reach w.target) : Except Errno Item).map Item.blank := by
      simp only [blank, Store.blankReach, bind, Except.bind]
      cases w.store.reach w.target with
      | error => rfl
      | ok there => exact w.store.blankItemAt there
    simp only [step, here, show w.blank.stage = .start from here, found, guardedMap, show w.blank.shown = w.shown from rfl]
    generalize faults.guarded .writeStat w.shown _ = result
    cases result with
    | ok item => simp only [Except.map, modeBlank, blank]
    | error effect => exact refuseEarlyBlank w effect
  | checked mode =>
    simp only [step, here, show w.blank.stage = .checked mode from here, show w.blank.shown = w.shown from rfl,
      show tempFor w.blank.store w.blank.place = tempFor w.store w.place from tempBlank w.store w.place,
      show room w.blank.store _ = room w.store _ from roomBlank w.store _]
    generalize faults.guarded .createTemp w.shown _ = result
    cases result with
    | ok temp => simp only [blank, Store.blankPut, Item.blank]
    | error effect => exact refuseEarlyBlank w effect
  | created mode temp =>
    simp only [step, here, show w.blank.stage = .created mode temp from here, show w.blank.shown = w.shown from rfl]
    cases faults.find? .fillTemp w.shown with
    | none => simp only [blank, Store.blankPut, Item.blank]
    | some effect => exact refuseLateBlank w temp effect
  | filled mode temp =>
    simp only [step, here, show w.blank.stage = .filled mode temp from here, show w.blank.shown = w.shown from rfl]
    cases faults.find? .chmod w.shown with
    | none => simp only [blank, Store.blankPut, Item.blank]
    | some effect => exact refuseLateBlank w temp effect
  | moded temp =>
    have moved : w.blank.moved temp = (w.moved temp).map Item.blank := by
      simp only [Write.moved, blank, Store.blankFind]
      cases w.store.find? w.place with
      | none => cases w.store.find? temp <;> rfl
      | some item => cases item <;> cases w.store.find? temp <;> rfl
    simp only [step, here, show w.blank.stage = .moded temp from here, show w.blank.shown = w.shown from rfl, moved,
      guardedMap]
    generalize faults.guarded .replace w.shown _ = result
    cases result with
    | ok item => simp only [Except.map, blank, finish, Store.blankPut, Store.blankErase]
    | error effect => exact refuseLateBlank w temp effect
  | failed temp errno =>
    simp only [step, here, show w.blank.stage = .failed temp errno from here, show w.blank.shown = w.shown from rfl]
    split <;> simp only [blank, refuse, finish, Store.blankErase]
  | finished result =>
    simp only [step, here, show w.blank.stage = .finished result from here]

theorem runBlank (faults : Faults) (w : Write) : (w.run faults).blank = w.blank.run faults := by
  have all : ∀ (ns : List Nat) (w : Write),
      (ns.foldl (fun w _ => w.step faults) w).blank = ns.foldl (fun w _ => w.step faults) w.blank := by
    intro ns
    induction ns with
    | nil => exact fun w => rfl
    | cons n ns ih =>
      intro w
      rw [List.foldl_cons, List.foldl_cons, ih, stepBlank]
  exact all _ w

theorem resultShape (faults : Faults) {s t : Store} (same : s.blank = t.blank) (path : String) (a b : Bytes) :
    ((begin s path a).run faults).result = ((begin t path b).run faults).result := by
  have starts : (begin s path a).blank = (begin t path b).blank := by
    simp only [begin, blank, same]
    rw [← s.blankRealPath, ← s.blankPlaceOf, same, t.blankRealPath, t.blankPlaceOf]
  have ends := congrArg Write.result ((runBlank faults _).trans ((congrArg (run faults) starts).trans (runBlank faults _).symm))
  exact ends

end
end Write
end InPlace
end ExitSpacing
