import ExitSpacing.Proofs.Units

/-! How runs stop. Once a run was asked to stop, only the file that is past its last check is
read or handed out, and no path is begun; once a listing failed, its walk hands out nothing.
Whatever was handed out before is brought to its end. -/
namespace ExitSpacing.Batch

def Event.isUnlisted : Event → Bool
  | .unlisted .. => true
  | _ => false

namespace Walker

def reading : Walker → List String
  | .read file _ _ => [file]
  | _ => []

def handing : Walker → List String
  | .read file _ _ | .start file _ _ _ => [file]
  | _ => []

def isRetreating : Walker → Bool
  | .list _ | .arrived .. | .join _ | .closed => true
  | _ => false

end Walker

namespace Main

def reading : Main → List String
  | .inspect path _ | .read path _ => [path]
  | _ => []

def left : Main → List String
  | .next paths => paths
  | .inspect _ rest | .read _ rest | .format _ _ rest | .apply _ rest | .drain rest => rest
  | .ended _ => []

def isRetreating : Main → Bool
  | .next _ | .drain _ | .ended _ => true
  | _ => false

end Main

namespace Run

def reading (r : Run) : List String := r.walk.elim [] (·.walker.reading) ++ r.main.reading

def handing (r : Run) : List String := r.walk.elim [] (·.walker.handing) ++ r.main.reading

structure Retreats (r : Run) : Prop where
  walking : ∀ w, r.walk = some w → w.failed = true ∧ w.walker.isRetreating = true
  main : r.main.isRetreating = true

end Run

section
variable {env : Conditions} {r next : Run} {w walk : Walk} {events : List Event} {failures : List Failure}

theorem WalkerMove.commits (move : WalkerMove env r w events failures walk) (stops : r.stops w = true) :
    (events.filterMap Event.looked? ++ walk.walker.reading).Sublist w.walker.reading ∧
      ((events.filterMap Event.task?).map Prod.fst ++ walk.walker.handing).Sublist w.walker.handing ∧
      events.filterMap Event.opened? = [] := by
  cases move with
  | enters here goes | polls here goes | checks here goes => rw [stops] at goes; cases goes
  | breaks here breakable =>
    cases breakable <;> simp [here, List.filterMap_cons, Event.looked?, Event.task?, Event.opened?, Walk.leave, Walk.goTo,
      Walker.reading, Walker.handing]
  | _ =>
    simp [*, List.filterMap_cons, Event.looked?, Event.task?, Event.opened?, Walk.leave, Walk.goTo, Walk.put,
      Walk.acquire, Walk.release, Walker.reading, Walker.handing]

theorem WorkerMove.commits {i : Nat} {worker : Worker} (move : WorkerMove env w i worker events failures walk) :
    walk.walker = w.walker ∧ events.filterMap Event.looked? = [] ∧ events.filterMap Event.task? = [] ∧
      events.filterMap Event.opened? = [] := by
  cases move <;> exact ⟨rfl, rfl, rfl, rfl⟩

theorem Accepts.commits {x : Formatted} {main : Main} (accepts : Accepts env r x main events next) :
    next.walk = r.walk ∧ (next.main = main ∨ ∃ result, next.main = .ended result) ∧
      events.filterMap Event.looked? = [] ∧ events.filterMap Event.task? = [] ∧ events.filterMap Event.opened? = [] := by
  cases accepts with
  | reports | fails => exact ⟨rfl, .inl rfl, rfl, rfl, rfl⟩
  | escapes => exact ⟨rfl, .inr ⟨_, rfl⟩, rfl, rfl, rfl⟩

theorem MainMove.commits (move : MainMove env r events next) (steady : r.Steady) (asked : r.canceled = true) :
    (events.filterMap Event.looked? ++ next.reading).Sublist r.reading ∧
      ((events.filterMap Event.task?).map Prod.fst ++ next.handing).Sublist r.handing ∧
      events.filterMap Event.opened? = [] := by
  cases move with
  | opens here goes => rw [asked] at goes; cases goes
  | finishes here =>
    obtain ⟨log, finish⟩ := finishIs r
    rw [finish]
    simp [Run.reading, Run.handing, here, Main.reading, List.filterMap_cons, Event.looked?, Event.task?, Event.opened?]
  | reads here | missesFile here =>
    have alone := steady.alone (by simp [here]) (by simp [here])
    simp [Run.reading, Run.handing, here, alone, Main.reading, List.filterMap_cons, Event.looked?, Event.task?,
      Event.opened?]
  | escapes here =>
    simp [Run.reading, Run.handing, Main.reading, List.filterMap_cons, Event.looked?, Event.task?, Event.opened?]
  | applies here accepts =>
    obtain ⟨walk, main, looked, task, opened⟩ := accepts.commits
    refine ⟨?_, ?_, opened⟩ <;> obtain main | ⟨result, main⟩ := main <;>
      simp [Run.reading, Run.handing, here, main, walk, looked, task, Main.reading]
  | receives here walks first accepts =>
    obtain ⟨walk, main, looked, task, opened⟩ := accepts.commits
    refine ⟨?_, ?_, by simpa [List.filterMap_cons, Event.opened?] using opened⟩ <;> obtain main | ⟨result, main⟩ := main <;>
      simp [Run.reading, Run.handing, here, main, walk, walks, looked, task, Main.reading, List.filterMap_cons,
        Event.looked?, Event.task?]
  | _ =>
    simp [Run.reading, Run.handing, *, Main.reading, List.filterMap_cons, Event.looked?, Event.task?, Event.opened?,
      Walker.reading, Walker.handing]

theorem Moves.commits (moves : Moves env r events next) (steady : r.Steady) (asked : r.canceled = true) :
    (events.filterMap Event.looked? ++ next.reading).Sublist r.reading ∧
      ((events.filterMap Event.task?).map Prod.fst ++ next.handing).Sublist r.handing ∧
      events.filterMap Event.opened? = [] := by
  cases moves with
  | cancels => simp [Run.reading, Run.handing, List.filterMap_cons, Event.looked?, Event.task?, Event.opened?]
  | main move => exact move.commits steady asked
  | walker here move =>
    obtain ⟨looked, task, opened⟩ := move.commits (by simp [Run.stops, asked])
    simp only [Run.reading, Run.handing, here, Option.elim_some, ← List.append_assoc]
    exact ⟨looked.append_right _, task.append_right _, opened⟩
  | worker here employed move =>
    obtain ⟨walker, looked, task, opened⟩ := move.commits
    simp [Run.reading, Run.handing, here, walker, looked, task, opened]

theorem Run.Steady.commits (steady : r.Steady) : r.reading.Sublist r.handing ∧ r.handing.length ≤ 1 := by
  cases here : r.walk with
  | none => cases main : r.main <;> simp [Run.reading, Run.handing, here, main, Main.reading]
  | some w =>
    have idle : r.main.reading = [] := by
      obtain ⟨rest, drains⟩ | ⟨trouble, ended, -⟩ := (steady.walking w here).2
      · rw [drains]; rfl
      · rw [ended]; rfl
    cases walker : w.walker <;> simp [Run.reading, Run.handing, here, idle, walker, Walker.reading, Walker.handing]

structure Commits (r : Run) (later : History) (last : Run) : Prop where
  asked : last.canceled = true
  steady : last.Steady
  looks : (later.looked ++ last.reading).Sublist r.reading
  hands : (later.tasks.map Prod.fst ++ last.handing).Sublist r.handing
  opens : later.opened = []

theorem Trace.commits {later : History} {last : Run} (more : Trace env r later last) (steady : r.Steady)
    (asked : r.canceled = true) : Commits r later last := by
  refine more.keeps (P := Commits r) ⟨asked, steady, .refl _, .refl _, rfl⟩ ?_
  rintro h a events b ⟨asked, steady, looks, hands, opens⟩ moves
  obtain ⟨looked, task, opened⟩ := moves.commits steady asked
  refine ⟨moves.asked asked, moves.steady steady, ?_, ?_, ?_⟩
  · simp only [History.looked, List.filterMap_append, List.filterMap_map, List.append_assoc] at looks ⊢
    exact (looked.append_left _).trans looks
  · simp only [History.tasks, List.filterMap_append, List.filterMap_map, List.map_append, List.append_assoc] at hands ⊢
    exact (task.append_left _).trans hands
  · simp only [History.opened, List.filterMap_append, List.filterMap_map] at opens ⊢
    rw [opens, List.nil_append]
    exact opened

theorem outcomeUncanceled {path : String} {source : Bytes} {f : Failure}
    (failed : Run.outcome env path source = .error f) : f.isCanceled = false := by
  obtain of | ⟨message, rfl⟩ := outcomeFailure failed
  · cases of <;> rfl
  · rfl

theorem Event.Fits.uncanceled {event : Event} {f : Failure} (fits : event.Fits env) (failure : event.failure? = some f) :
    f.isCanceled = false ∨ event = .checked true := by
  cases event with
  | missing path g | unread path g => cases failure; cases fits; exact .inl rfl
  | unlisted path g => cases failure; obtain ⟨cause, rfl⟩ := fits; exact .inl rfl
  | broken g => cases failure; obtain ⟨root, cause, rfl⟩ := fits; exact .inl rfl
  | unhanded path g => cases failure; obtain ⟨message, rfl⟩ := fits; exact .inl rfl
  | formatted path source outcome =>
    cases outcome with
    | ok x => cases failure
    | error g =>
      cases failure
      exact .inl (outcomeUncanceled fits.symm)
  | reported x other =>
    cases other with
    | none => cases failure
    | some g => cases failure; cases fits; exact .inl rfl
  | checked canceled =>
    cases canceled with
    | false => cases failure
    | true => exact .inr rfl
  | _ => cases failure

theorem MainMove.closing (move : MainMove env r events next) (checked : next.Checked) :
    next.failures = r.failures ++ if r.canceled then [Failure.stopped] else [] := by
  have ended := checked.ended
  cases move with
  | finishes here =>
    obtain ⟨log, finish⟩ := finishIs r
    rw [finish]
  | escapes here other => exact absurd ⟨_, rfl, other⟩ checked.unescaped
  | applies here accepts =>
    cases accepts with
    | escapes failed other => exact absurd ⟨_, rfl, other⟩ checked.unescaped
    | _ => cases ended
  | receives here walk first accepts =>
    cases accepts with
    | escapes failed other => exact absurd ⟨_, rfl, other⟩ checked.unescaped
    | _ => cases ended
  | notes here => cases here.symm.trans ended
  | _ => cases ended

theorem Moves.closing (moves : Moves env r events next) (steady : r.Steady) (checked : next.Checked) :
    r.Checked ∧ next.failures = r.failures ∨
      (∀ result, r.main ≠ .ended result) ∧
        next.failures = r.failures ++ if r.canceled then [Failure.stopped] else [] := by
  have before {result : Except Trouble Unit} (ended : r.main = .ended result) : r.Checked :=
    (steady.ended result ended).resolve_right fun escaped => checked.unescaped (escaped.move moves)
  cases moves with
  | cancels => exact .inl ⟨before checked.ended, rfl⟩
  | main move => exact .inr ⟨move.going, move.closing checked⟩
  | walker here | worker here => cases here.symm.trans (before checked.ended).alone

theorem WalkerMove.retreats (move : WalkerMove env r w events failures walk) (failed : w.failed = true)
    (here : w.walker.isRetreating = true) :
    (∀ event ∈ events, event.looked? = none ∧ event.task? = none) ∧ walk.failed = true ∧
      walk.walker.isRetreating = true := by
  cases move with
  | enters there goes => simp [Run.stops, failed] at goes
  | breaks there breakable => exact ⟨by simp [Event.looked?, Event.task?], failed, rfl⟩
  | _ =>
    simp_all [Walker.isRetreating, Walk.goTo, Walk.leave, Walk.put, Event.looked?, Event.task?]

theorem WalkerMove.gives (move : WalkerMove env r w events failures walk) {event : Event} (mem : event ∈ events)
    (unlisted : event.isUnlisted = true) :
    events = [event] ∧ walk.failed = true ∧ walk.walker.isRetreating = true := by
  cases move with
  | missesListing =>
    obtain rfl := List.mem_singleton.mp mem
    exact ⟨rfl, rfl, rfl⟩
  | _ => simp_all [Event.isUnlisted]

theorem WorkerMove.looks {i : Nat} {worker : Worker} (move : WorkerMove env w i worker events failures walk) :
    ∀ event ∈ events, event.looked? = none ∧ event.task? = none ∧ event.isUnlisted = false := by
  cases move <;> simp [Event.looked?, Event.task?, Event.isUnlisted]

theorem MainMove.retreats (move : MainMove env r events next) (retreats : r.Retreats) :
    (∀ event ∈ events, event.looked? = none ∧ event.task? = none) ∧ (next.turn = r.turn → next.Retreats) := by
  obtain ⟨walking, main⟩ := retreats
  cases move with
  | finishes here =>
    obtain ⟨log, finish⟩ := finishIs r
    rw [finish]
    exact ⟨by simp [Event.looked?, Event.task?], fun _ => ⟨walking, rfl⟩⟩
  | opens here => exact ⟨by simp [Event.looked?, Event.task?], fun turn => by simp [Run.turn] at turn⟩
  | applies here => simp [here, Main.isRetreating] at main
  | closes here => exact ⟨by simp [Event.looked?, Event.task?], fun _ => ⟨by simp, rfl⟩⟩
  | notes here walks =>
    refine ⟨by simp [Event.looked?, Event.task?], fun _ => ⟨?_, main⟩⟩
    rintro w ⟨⟩
    have kept := walking _ walks
    exact kept
  | receives here walks first accepts =>
    obtain ⟨-, -, same, there⟩ := accepts.silent
    refine ⟨by simpa [Event.looked?, Event.task?] using accepts.looks, fun _ => ⟨fun w walk => ?_, ?_⟩⟩
    · cases same.symm.trans walk
      have kept := walking _ walks
      exact kept
    · obtain there | ⟨trouble, there⟩ := there <;> rw [there] <;> rfl
  | escapes here =>
    obtain ⟨_, _, here, -⟩ | ⟨_, _, here, -⟩ | ⟨_, _, _, here, -⟩ := here <;> simp [here, Main.isRetreating] at main
  | walks here | looks here | misses here | reads here | missesFile here | formats here | fails here =>
    simp [here, Main.isRetreating] at main

theorem Moves.retreats (moves : Moves env r events next) (retreats : r.Retreats) :
    (∀ event ∈ events, event.looked? = none ∧ event.task? = none) ∧ (next.turn = r.turn → next.Retreats) := by
  cases moves with
  | cancels => exact ⟨by simp [Event.looked?, Event.task?], fun _ => ⟨retreats.walking, retreats.main⟩⟩
  | main move => exact move.retreats retreats
  | walker here move =>
    obtain ⟨failed, there⟩ := retreats.walking _ here
    obtain ⟨looks, kept⟩ := move.retreats failed there
    refine ⟨looks, fun _ => ⟨?_, retreats.main⟩⟩
    rintro w ⟨⟩
    exact kept
  | worker here employed move =>
    refine ⟨fun event mem => ⟨(move.looks event mem).1, (move.looks event mem).2.1⟩, fun _ => ⟨?_, retreats.main⟩⟩
    rintro w ⟨⟩
    rw [move.calm, move.commits.1]
    exact retreats.walking _ here

theorem MainMove.lists (move : MainMove env r events next) :
    (∀ event ∈ events, event.isUnlisted = false) ∧ (next.turn = r.turn ∨ r.turn < next.turn) := by
  cases move with
  | finishes here =>
    obtain ⟨log, finish⟩ := finishIs r
    rw [finish]
    exact ⟨by simp [Event.isUnlisted], .inl rfl⟩
  | opens => exact ⟨by simp [Event.isUnlisted], .inr (by simp [Run.turn])⟩
  | applies here accepts => exact ⟨by cases accepts <;> simp [Event.isUnlisted], .inl accepts.silent.2.1⟩
  | receives here walks first accepts => exact ⟨by cases accepts <;> simp [Event.isUnlisted], .inl accepts.silent.2.1⟩
  | _ => exact ⟨by simp [Event.isUnlisted], .inl rfl⟩

theorem Moves.later (moves : Moves env r events next) : next.turn = r.turn ∨ r.turn < next.turn := by
  cases moves with
  | main move => exact move.lists.2
  | cancels | walker | worker => exact .inl rfl

theorem Moves.gives (moves : Moves env r events next) (steady : r.Steady) {event : Event} (mem : event ∈ events)
    (unlisted : event.isUnlisted = true) : events = [event] ∧ next.Retreats := by
  cases moves with
  | cancels => simp_all [Event.isUnlisted]
  | main move => rw [move.lists.1 event mem] at unlisted; cases unlisted
  | walker here move =>
    obtain ⟨alone, retreats⟩ := move.gives mem unlisted
    refine ⟨alone, ?_, ?_⟩
    · rintro w ⟨⟩
      exact retreats
    · obtain ⟨rest, drains⟩ | ⟨trouble, ended, -⟩ := (steady.walking _ here).2
      · simp [drains, Main.isRetreating]
      · simp [ended, Main.isRetreating]
  | worker here employed move => rw [(move.looks event mem).2.2] at unlisted; cases unlisted

theorem MainMove.left (move : MainMove env r events next) :
    next.Escaped ∨ r.canceled = true ∨ events.filterMap Event.opened? ++ next.main.left = r.main.left := by
  cases move with
  | finishes here last =>
    obtain ⟨log, finish⟩ := finishIs r
    rw [finish]
    obtain rfl | asked := last
    · exact .inr (.inr (by simp [here, Main.left, Event.opened?]))
    · exact .inr (.inl asked)
  | escapes here other => exact .inl ⟨_, rfl, other⟩
  | applies here accepts =>
    cases accepts with
    | escapes failed other => exact .inl ⟨_, rfl, other⟩
    | _ => exact .inr (.inr (by simp [here, Main.left, List.filterMap_cons, Event.opened?]))
  | receives here walk first accepts =>
    cases accepts with
    | escapes failed other => exact .inl ⟨_, rfl, other⟩
    | _ => exact .inr (.inr (by simp [here, Main.left, List.filterMap_cons, Event.opened?]))
  | _ => exact .inr (.inr (by simp [*, Main.left, List.filterMap_cons, Event.opened?]))

theorem Moves.left (moves : Moves env r events next) :
    next.Escaped ∨ next.canceled = true ∨ events.filterMap Event.opened? ++ next.main.left = r.main.left := by
  cases moves with
  | cancels => exact .inr (.inl rfl)
  | main move => exact move.left.imp id (.imp (Moves.main move).asked id)
  | walker here move => exact .inr (.inr (by cases move <;> rfl))
  | worker here employed move => exact .inr (.inr (by cases move <;> rfl))

end

section
variable {env : Conditions} {store : Store} {paths : List String} {canceled : Bool} {h : History} {r : Run}

theorem Trace.uncanceled (trace : Trace env (Run.begin store paths canceled) h r)
    (none : r.canceled = false ∨ ∀ result, r.main ≠ .ended result) : ∀ f ∈ r.failures, f.isCanceled = false := by
  induction trace with
  | start => exact fun f mem => absurd mem List.not_mem_nil
  | move move before made ih =>
    have moves := stepMoves made
    obtain ⟨-, failures, -, fits⟩ := moves.books
    rw [failures]
    intro f mem
    obtain old | new := List.mem_append.mp mem
    · refine ih ?_ f old
      exact none.imp moves.going fun going result ended => going result (moves.ended ended)
    · obtain ⟨event, inside, failure⟩ := List.mem_filterMap.mp new
      refine ((fits event inside).uncanceled failure).resolve_right ?_
      rintro rfl
      obtain ⟨asked, result, ended⟩ := moves.checks inside
      obtain going | going := none
      · rw [moves.going going] at asked
        cases asked
      · exact going result ended

theorem Trace.closing (trace : Trace env (Run.begin store paths canceled) h r) (asked : r.canceled = true)
    (going : ∀ result, r.main ≠ .ended result) {later : History} {last : Run} (more : Trace env r later last)
    (checked : last.Checked) :
    ∃ failures, last.failures = failures ++ [.stopped] ∧ ∀ f ∈ failures, f.isCanceled = false := by
  induction more with
  | start => exact absurd checked.ended (going _)
  | @move later b last move more made ih =>
    have steady := (trace.append more).steady
    obtain ⟨before, same⟩ | ⟨going, one⟩ := (stepMoves made).closing steady checked
    · rw [same]
      exact ih before
    · rw [(more.commits trace.steady asked).asked, if_pos rfl] at one
      exact ⟨b.failures, one, (trace.append more).uncanceled (.inr going)⟩

/-- Behind a listing that failed, nothing is read or handed out in the same turn. -/
def Dismisses (a b : Nat × Event) : Prop :=
  a.2.isUnlisted = true → b.1 = a.1 → b.2.looked? = none ∧ b.2.task? = none

structure Dismissed (h : History) (r : Run) : Prop where
  apart : h.Pairwise Dismisses
  retreats : ∀ entry ∈ h, entry.1 = r.turn → entry.2.isUnlisted = true → r.Retreats

theorem Trace.dismissed (trace : Trace env (Run.begin store paths canceled) h r) : Dismissed h r := by
  induction trace with
  | start => exact ⟨.nil, by simp⟩
  | @move h r next move before made ih =>
    have moves := stepMoves made
    obtain ⟨steady, drained⟩ := before.drained
    generalize r.events env move = events at moves
    -- A turn that is over does not come back.
    have current (entry : Nat × Event) (mem : entry ∈ h) (turn : entry.1 = next.turn) : next.turn = r.turn := by
      have past := drained.past entry mem
      have later := moves.later
      omega
    refine ⟨List.pairwise_append.mpr ⟨ih.apart, ?_, ?_⟩, ?_⟩
    · refine List.pairwise_iff_forall_sublist.mpr fun {a b} inside unlisted => ?_
      obtain ⟨event, mem, rfl⟩ := List.mem_map.mp (inside.subset (List.mem_cons_self ..))
      -- A listing that failed is the only event of its move.
      rw [(moves.gives steady mem unlisted).1] at inside
      have short := inside.length_le
      simp at short
    · intro a old b new unlisted turn
      obtain ⟨event, mem, rfl⟩ := List.mem_map.mp new
      have same := current a old turn.symm
      exact (moves.retreats (ih.retreats a old (turn.symm.trans same) unlisted)).1 event mem
    · intro entry mem turn unlisted
      obtain old | new := List.mem_append.mp mem
      · have same := current entry old turn
        exact (moves.retreats (ih.retreats entry old (turn.trans same) unlisted)).2 same
      · obtain ⟨event, inside, rfl⟩ := List.mem_map.mp new
        exact (moves.gives steady inside unlisted).2

theorem Trace.opened (trace : Trace env (Run.begin store paths canceled) h r) (going : r.canceled = false) :
    r.Escaped ∨ h.opened ++ r.main.left = paths := by
  induction trace with
  | start => exact .inr rfl
  | @move h r next move before made ih =>
    have moves := stepMoves made
    obtain escaped | asked | left := moves.left
    · exact .inl escaped
    · rw [going] at asked
      cases asked
    · refine (ih (moves.going going)).imp (·.move moves) fun all => ?_
      simp only [History.opened, List.filterMap_append, List.filterMap_map, List.append_assoc] at all ⊢
      rw [← all, ← left]
      rfl

/-- What comes of a run that was asked to stop: `r` is where it was asked, before its final
check, and `last` is where it is after `later`. -/
structure Interrupted (env : Conditions) (h : History) (r : Run) (later : History) (last : Run) : Prop where
  committed : r.handing.length ≤ 1
  reads : later.looked.Sublist r.handing
  hands : (later.tasks.map Prod.fst).Sublist r.handing
  opens : later.opened = []
  settles : last.Checked → Accounted env (h ++ later) last ∧ (h ++ later).made.Perm last.results
  raises : last.Checked → ∃ failures,
    last.main = .ended (.error (.failure (.batch (failures ++ [.stopped])))) ∧
      (Failure.batch (failures ++ [.stopped])).holdsCancellation = true ∧ ∀ f ∈ failures, f.isCanceled = false

/-- What comes of a run in which a directory could not be listed. -/
structure Abandoned (env : Conditions) (paths : List String) (h : History) (r : Run) : Prop where
  apart : h.Pairwise Dismisses
  collects : ∀ turn path f, (turn, .unlisted path f) ∈ h → (∃ cause, f = .walk path cause) ∧ f ∈ r.failures
  settles : r.Checked → Accounted env h r ∧ h.made.Perm r.results
  goesOn : r.Checked → r.canceled = false → h.opened = paths
  raises : r.Checked → r.canceled = false → (∃ entry ∈ h, entry.2.isUnlisted = true) → ∃ failures,
    r.main = .ended (.error (.failure (.batch failures))) ∧ (Failure.batch failures).holdsCancellation = false

theorem Run.Checked.raises (checked : r.Checked) {f : Failure} (mem : f ∈ r.failures) :
    r.main = .ended (.error (.failure (.batch r.failures))) := by
  rw [checked.ended, Run.verdict, if_neg]
  intro none
  rw [List.isEmpty_iff.mp none] at mem
  cases mem

theorem Trace.settles (trace : Trace env (Run.begin store paths canceled) h r) (checked : r.Checked) :
    Accounted env h r ∧ h.made.Perm r.results := by
  refine ⟨trace.ledger.accounted trace.drained.2 checked, ?_⟩
  have reports := (trace.ledger.settled checked).filterMap Duty.result?
  rw [settledResults, raisedResults, ← trace.ledger.results] at reports
  exact reports.symm

theorem Trace.interrupted (trace : Trace env (Run.begin store paths canceled) h r) (asked : r.canceled = true)
    (going : ∀ result, r.main ≠ .ended result) {later : History} {last : Run} (more : Trace env r later last) :
    Interrupted env h r later last where
  committed := trace.steady.commits.2
  reads := ((List.sublist_append_left _ _).trans (more.commits trace.steady asked).looks).trans trace.steady.commits.1
  hands := (List.sublist_append_left _ _).trans (more.commits trace.steady asked).hands
  opens := (more.commits trace.steady asked).opens
  settles := (trace.append more).settles
  raises checked := by
    obtain ⟨failures, all, none⟩ := trace.closing asked going more checked
    have raised := checked.raises (f := .stopped) (by simp [all])
    rw [all] at raised
    exact ⟨failures, raised, by simp [Failure.holdsCancellation, Failure.stopped, Failure.isCanceled], none⟩

theorem Trace.abandoned (trace : Trace env (Run.begin store paths canceled) h r) : Abandoned env paths h r where
  apart := trace.dismissed.apart
  collects turn path f mem := by
    refine ⟨trace.ledger.fits _ mem, ?_⟩
    rw [trace.ledger.failures]
    exact List.mem_filterMap.mpr ⟨_, mem, rfl⟩
  settles := trace.settles
  goesOn checked going := by
    have all := (trace.opened going).resolve_left checked.unescaped
    simpa [checked.ended, Main.left] using all
  raises checked going := by
    rintro ⟨⟨turn, event⟩, mem, unlisted⟩
    cases event with
    | unlisted path f =>
      have collected : f ∈ r.failures := by
        rw [trace.ledger.failures]
        exact List.mem_filterMap.mpr ⟨_, mem, rfl⟩
      refine ⟨r.failures, checked.raises collected, ?_⟩
      simpa [Failure.holdsCancellation] using trace.uncanceled (.inl going)
    | _ => cases unlisted

/-- Stopping is clean. A run that was asked to stop reads and hands out at most the one file
that is past its last check, begins no path, brings to its end what it handed out, and raises
its failures with one cancellation as the last; under contained faults it gets there in every
order of moves. A walk whose listing failed hands out nothing more, and the run goes on. -/
theorem stopsCleanly (wellFormed : store.WellFormed) (trace : Trace env (Run.begin store paths canceled) h r) :
    (r.canceled = true → (∀ result, r.main ≠ .ended result) →
        (∀ later last, Trace env r later last → Interrupted env h r later last) ∧
          (env.faults.Contained → (∀ path ∈ paths, Path.hasNull path = false) →
            ¬ r.Endless env ∧ ∀ later last, Trace env r later last → last.Stuck env → last.Checked)) ∧
      Abandoned env paths h r := by
  refine ⟨fun asked going => ⟨fun later last more => trace.interrupted asked going more, fun contained plain => ?_⟩,
    trace.abandoned⟩
  exact ⟨trace.notEndless contained wellFormed plain asked,
    fun later last more stuck => (trace.append more).stuck contained.caught wellFormed plain stuck⟩

end

/-- The request to stop comes when the first file is at work and the second is past its last check. -/
theorem interruptedLate : ∃ h r, Trace reporting (Run.begin (linkedStore exitSource) ["d", "d/a.go"] false) h r ∧
    r.canceled = true ∧ r.main = .drain ["d/a.go"] ∧ r.handing = ["d/b.go"] := by
  have unfaulted (call : Call) (_ : call ≠ .start) (path : String) : reporting.faults.find? call path = none := rfl
  obtain ⟨log, taken⟩ := takesBoth ["d/a.go"] unfaulted rfl rfl
  exact ⟨_, _, taken.trace.move (.cancel none) rfl, rfl, rfl, rfl⟩

def unlistable : Conditions := { reporting with faults := [⟨.list, none, .system .denied⟩] }

theorem abandonedEarly : ∃ h r, Trace unlistable (Run.begin (linkedStore exitSource) ["d", "d/a.go"] false) h r ∧
    r.Checked ∧ r.canceled = false ∧ (∃ entry ∈ h, entry.2.isUnlisted = true) ∧ r.results.length = 1 := by
  obtain ⟨x, made, -⟩ := exitFormats "d/a.go"
  have formats : Run.formatUnit unlistable "d/a.go" exitSource = .ok x := made
  have kept : x.isWritten unlistable.settings = false := by simp [Formatted.isWritten, unlistable, reporting]
  have fine := (Formatted.reportUnwritten unlistable.faults (linkedStore exitSource) kept).1
  have plain : Path.hasNull "d" = false ∧ Path.hasNull "d/a.go" = false := by decide +kernel
  have file : (linkedStore exitSource).isDirectory "d/a.go" = false ∧
      (linkedStore exitSource).stat "d/a.go" = .ok (.file 0o644 exitSource) := by
    simp [Store.isDirectory, Store.stat, bind, Except.bind, Store.itemAt, linkedPlaces, linkedFinds, Item.isDirectory]
  have reads : unlistable.faults.guarded .read "d/a.go" ((linkedStore exitSource).read "d/a.go") = .ok exitSource := by
    have unfaulted : unlistable.faults.find? .read "d/a.go" = none := rfl
    simp [Faults.guarded, Except.mapError, unfaulted, linkedFiles]
  have unlisted : unlistable.faults.guarded .list "d" ((linkedStore exitSource).list "d") = .error (.system .denied) := rfl
  have begun : Phase unlistable (Run.begin (linkedStore exitSource) ["d", "d/a.go"] false) _ _ _ _ :=
    .walks rfl rfl plain.1 (linkedFiles exitSource).1
  have stops := (begun.append (.unlists rfl directoryWalked unlisted)).append (.leaves rfl)
  have closes := (stops.append (.joins rfl rfl)).append (.closes rfl rfl)
  have second := (closes.append (.formats rfl rfl plain.2 file.1 rfl file.2 reads formats)).append (.reports rfl fine)
  have done := second.append (.finishes rfl rfl)
  exact ⟨_, _, done.trace, ⟨rfl, rfl⟩, rfl, List.any_eq_true.mp rfl, rfl⟩

theorem linkedStopsCleanly :
    (∃ h r, Trace reporting (Run.begin (linkedStore exitSource) ["d", "d/a.go"] false) h r ∧ r.canceled = true ∧
      r.handing = ["d/b.go"] ∧ ¬ r.Endless reporting ∧
      ∃ later last, Trace reporting r later last ∧ last.Checked ∧ Interrupted reporting h r later last) ∧
    ∃ h r, Trace unlistable (Run.begin (linkedStore exitSource) ["d", "d/a.go"] false) h r ∧ r.Checked ∧
      r.results.length = 1 ∧ Abandoned unlistable ["d", "d/a.go"] h r ∧ h.opened = ["d", "d/a.go"] ∧ ∃ failures,
        r.main = .ended (.error (.failure (.batch failures))) ∧ (Failure.batch failures).holdsCancellation = false := by
  have wellFormed := linkedWellFormed exitSource
  have contained : reporting.faults.Contained := nofun
  have plain : ∀ path ∈ ["d", "d/a.go"], Path.hasNull path = false := by decide +kernel
  obtain ⟨g, a, interrupted, asked, drains, hands⟩ := interruptedLate
  obtain ⟨later, last, more, -, done⟩ := interrupted.ends contained.caught wellFormed plain
  obtain ⟨stops, ends⟩ := (stopsCleanly wellFormed interrupted).1 asked (by simp [drains])
  obtain ⟨h, r, abandoned, checked, going, failed, results⟩ := abandonedEarly
  have goesOn := (stopsCleanly wellFormed abandoned).2
  exact ⟨⟨g, a, interrupted, asked, hands, (ends contained plain).1, later, last, more, done, stops later last more⟩,
    h, r, abandoned, checked, results, goesOn, goesOn.goesOn checked going, goesOn.raises checked going failed⟩

end ExitSpacing.Batch
