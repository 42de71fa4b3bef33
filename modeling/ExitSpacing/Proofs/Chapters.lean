import ExitSpacing.Batch.Schedule
import ExitSpacing.Proofs.Stopping

/-! The chapters of a run: what was collected and printed for each path that was begun. Put
together they are all that the run collected and printed, apart from the notice that closes a
run that was stopped. -/
namespace ExitSpacing.Batch

namespace Opening

def Before (a b : Opening) : Prop := a.results ≤ b.results ∧ a.failures ≤ b.failures ∧ a.printed ≤ b.printed

def Bare (o : Opening) : Prop := o.results = 0 ∧ o.failures = 0 ∧ o.printed = 0

theorem Before.refl (a : Opening) : a.Before a := ⟨Nat.le_refl _, Nat.le_refl _, Nat.le_refl _⟩

theorem Before.trans {a b c : Opening} (first : a.Before b) (second : b.Before c) : a.Before c :=
  ⟨first.1.trans second.1, first.2.1.trans second.2.1, first.2.2.trans second.2.2⟩

theorem laterLast {openings : List Opening} {a b : Opening} (ordered : (openings ++ [a]).Pairwise Before)
    (later : a.Before b) : (openings ++ [b]).Pairwise Before := by
  rw [List.pairwise_append] at ordered ⊢
  refine ⟨ordered.1, List.pairwise_singleton .., fun first mem => ?_⟩
  simpa using (ordered.2.2 first mem a (.head _)).trans later

theorem oneMore {openings : List Opening} {a b : Opening} (ordered : (openings ++ [a]).Pairwise Before)
    (later : a.Before b) : (openings ++ [a] ++ [b]).Pairwise Before := by
  refine List.pairwise_append.mpr ⟨ordered, List.pairwise_singleton .., fun first mem => ?_⟩
  obtain mem | last := List.mem_append.mp mem
  · simpa using ((List.pairwise_append.mp ordered).2.2 first mem a (.head _)).trans later
  · simpa [List.mem_singleton.mp last] using later

end Opening

namespace Run

theorem sliceAppend (xs : List α) {a b c : Nat} (first : a ≤ b) (second : b ≤ c) :
    slice xs a b ++ slice xs b c = slice xs a c := by
  have back : (xs.drop a).drop (b - a) = xs.drop b := by rw [List.drop_drop, Nat.add_sub_cancel' first]
  have whole : c - a = b - a + (c - b) := by omega
  rw [slice, slice, slice, whole, List.take_add, back]

theorem slicesFrom (xs : List α) (cut : Opening → Nat) {first last : Opening} {rest : List Opening}
    (ordered : (first :: rest ++ [last]).Pairwise fun a b => cut a ≤ cut b) :
    (List.zipWith (fun a b => slice xs (cut a) (cut b)) (first :: rest) (rest ++ [last])).flatten =
      slice xs (cut first) (cut last) := by
  induction rest generalizing first with
  | nil => simp
  | cons second rest ih =>
    obtain ⟨least, others⟩ := List.pairwise_cons.mp ordered
    have between : cut second ≤ cut last := (List.pairwise_cons.mp others).1 last (by simp)
    rw [List.cons_append, List.zipWith_cons_cons, List.flatten_cons, ih others]
    exact sliceAppend xs (least second (.head _)) between

theorem slicesWhole (xs : List α) (cut : Opening → Nat) {openings : List Opening} {last : Opening}
    (ordered : (openings ++ [last]).Pairwise fun a b => cut a ≤ cut b)
    (first : ∀ opening ∈ (openings ++ [last]).head?, cut opening = 0) :
    (List.zipWith (fun a b => slice xs (cut a) (cut b)) openings (openings.drop 1 ++ [last])).flatten =
      xs.take (cut last) := by
  cases openings with
  | nil =>
    have none : cut last = 0 := first last rfl
    simp [none]
  | cons opening rest =>
    have none : cut opening = 0 := first opening rfl
    rw [List.drop_one, List.tail_cons, slicesFrom xs cut ordered, none, slice, List.drop_zero, Nat.sub_zero]

/-- No path was begun. -/
def Unbegun (r : Run) : Prop := r.walk = none ∧ ((∃ paths, r.main = .next paths) ∨ ∃ result, r.main = .ended result)

end Run

section
variable {env : Conditions} {r next : Run} {events : List Event}

theorem Moves.unbegun (moves : Moves env r events next) (unbegun : r.Unbegun) :
    (∃ path, events = [.opened path]) ∨ next.Unbegun ∧ events.filterMap Event.reported? = [] ∧
      (∀ f ∈ events.filterMap Event.failure?, f.isCanceled = true) ∧ events.flatMap (Event.printed env.settings) = [] := by
  cases moves with
  | cancels => exact .inr ⟨unbegun, rfl, by simp [Event.failure?], rfl⟩
  | walker here => cases unbegun.1.symm.trans here
  | worker here => cases unbegun.1.symm.trans here
  | main move =>
    have idle {main : Main} (here : r.main = main) (busy : (∀ paths, main ≠ .next paths) ∧ ∀ result, main ≠ .ended result) :
        False := by
      obtain ⟨-, ⟨paths, next⟩ | ⟨result, ended⟩⟩ := unbegun
      · exact busy.1 paths (here.symm.trans next)
      · exact busy.2 result (here.symm.trans ended)
    cases move with
    | finishes here =>
      obtain ⟨log, finish⟩ := finishIs r
      rw [finish]
      refine .inr ⟨⟨unbegun.1, .inr ⟨_, rfl⟩⟩, rfl, ?_, rfl⟩
      cases r.canceled <;> simp [Event.failure?, Failure.stopped, Failure.isCanceled]
    | opens => exact .inl ⟨_, rfl⟩
    | escapes here =>
      obtain ⟨_, _, here, -⟩ | ⟨_, _, here, -⟩ | ⟨_, _, _, here, -⟩ := here <;> exact (idle here (by simp)).elim
    | walks here | looks here | misses here | reads here | missesFile here | formats here | fails here | applies here
    | closes here | notes here | receives here => exact (idle here (by simp)).elim

theorem Moves.opens (moves : Moves env r events next) :
    (next.openings = r.openings ∧ events.filterMap Event.opened? = []) ∨
      ∃ path rest, r.main = .next (path :: rest) ∧ next.openings = r.openings ++ [r.opening path] ∧
        events = [.opened path] := by
  cases moves with
  | cancels => exact .inl ⟨rfl, rfl⟩
  | walker here move => cases move <;> exact .inl ⟨rfl, rfl⟩
  | worker here employed move => cases move <;> exact .inl ⟨rfl, rfl⟩
  | main move =>
    cases move with
    | finishes here =>
      obtain ⟨log, finish⟩ := finishIs r
      rw [finish]
      exact .inl ⟨rfl, rfl⟩
    | opens here => exact .inr ⟨_, _, here, rfl, rfl⟩
    | applies here accepts => cases accepts <;> exact .inl ⟨rfl, rfl⟩
    | receives here walk first accepts => cases accepts <;> exact .inl ⟨rfl, rfl⟩
    | _ => exact .inl ⟨rfl, rfl⟩

theorem Moves.finishes (moves : Moves env r events next) (checked : .checked true ∈ events) :
    (∃ paths, r.main = .next paths) ∧ next.walk = r.walk ∧ (∃ result, next.main = .ended result) ∧
      next.failures = r.failures ++ [.stopped] := by
  cases moves with
  | cancels => simp at checked
  | main move =>
    cases move with
    | finishes here =>
      obtain ⟨log, finish⟩ := finishIs r
      simp only [List.mem_singleton, Event.checked.injEq] at checked
      rw [finish]
      exact ⟨⟨_, here⟩, rfl, ⟨_, rfl⟩, by rw [← checked]; rfl⟩
    | applies here accepts => cases accepts <;> simp at checked
    | receives here walk first accepts => cases accepts <;> simp at checked
    | _ => simp at checked
  | walker here move => cases move <;> simp at checked
  | worker here employed move => cases move <;> simp at checked

theorem Books.ending (books : Books env r events next) : r.ending.Before next.ending := by
  simp [Run.ending, Opening.Before, books.results, books.failures, books.printed]

end

/-- The openings of a run count up from nothing to what it has. -/
structure Paged (h : History) (r : Run) : Prop where
  paths : r.openings.map Opening.path = h.opened
  ordered : (r.openings ++ [r.ending]).Pairwise Opening.Before
  first : ∀ opening ∈ (r.openings ++ [r.ending]).head?, opening.Bare
  unbegun : r.openings = [] → r.Unbegun

section
variable {env : Conditions} {store : Store} {paths : List String} {canceled : Bool} {h : History} {r next : Run}
  {events : List Event}

theorem Paged.stay (paged : Paged h r) (moves : Moves env r events next) (same : next.openings = r.openings)
    (unopened : events.filterMap Event.opened? = []) : Paged (h ++ events.map (next.turn, ·)) next where
  paths := by
    rw [same, paged.paths]
    simp [History.opened, List.filterMap_map, unopened]
  ordered := same ▸ Opening.laterLast paged.ordered moves.books.ending
  first := by
    rw [same]
    cases openings : r.openings with
    | cons => simpa [openings] using paged.first
    | nil =>
      obtain ⟨path, opened⟩ | ⟨-, reported, failed, printed⟩ := moves.unbegun (paged.unbegun openings)
      · simp [opened, Event.opened?] at unopened
      · have bare : r.ending.Bare := paged.first _ (by simp [openings])
        have closing : (events.filterMap Event.failure?).filter (fun f => !f.isCanceled) = [] := by
          simpa using failed
        simpa [Run.ending, Opening.Bare, moves.books.results, moves.books.failures, moves.books.printed, reported, printed,
          closing] using bare
  unbegun none := by
    obtain ⟨path, opened⟩ | ⟨unbegun, -⟩ := moves.unbegun (paged.unbegun (same ▸ none))
    · simp [opened, Event.opened?] at unopened
    · exact unbegun

theorem Paged.begin (store : Store) (paths : List String) (canceled : Bool) : Paged [] (Run.begin store paths canceled) where
  paths := rfl
  ordered := List.pairwise_singleton ..
  first := by simp [Run.begin, Run.ending, Opening.Bare]
  unbegun _ := ⟨rfl, .inl ⟨paths, rfl⟩⟩

theorem Paged.turn (paged : Paged h r) (uncanceled : ∀ f ∈ r.failures, f.isCanceled = false) {path : String}
    (opened : next.openings = r.openings ++ [r.opening path]) (books : Books env r [.opened path] next) :
    Paged (h ++ [Event.opened path].map (next.turn, ·)) next := by
  have kept : r.failures.filter (fun f => !f.isCanceled) = r.failures :=
    List.filter_eq_self.mpr fun f mem => by simp [uncanceled f mem]
  have here : r.ending.Before (r.opening path) := by simp [Run.ending, Run.opening, Opening.Before, kept]
  have onward : (r.opening path).Before next.ending := by
    simp [Run.ending, Run.opening, Opening.Before, books.results, books.failures, books.printed, Event.reported?,
      Event.failure?, Event.printed, kept]
  refine ⟨?_, ?_, ?_, ?_⟩
  · simp [opened, paged.paths, History.opened, Event.opened?, Run.opening]
  · rw [opened]
    exact Opening.oneMore (Opening.laterLast paged.ordered here) onward
  · rw [opened]
    cases openings : r.openings with
    | cons => simpa [openings] using paged.first
    | nil =>
      have bare : r.ending.Bare := paged.first _ (by simp [openings])
      simpa [Run.ending, Run.opening, Opening.Bare, kept] using bare
  · simp [opened]

theorem Trace.paged (trace : Trace env (Run.begin store paths canceled) h r) : Paged h r := by
  induction trace with
  | start => exact .begin store paths canceled
  | @move h r next move before made ih =>
    have moves := stepMoves made
    have books := moves.books
    obtain ⟨same, unopened⟩ | ⟨path, rest, here, opened, only⟩ := moves.opens
    · exact ih.stay moves same unopened
    · rw [only] at books ⊢
      exact ih.turn (before.uncanceled (.inr (by simp [here]))) opened books

/-- The one cancellation that a run collects is the last of its failures. -/
theorem Trace.closed (trace : Trace env (Run.begin store paths canceled) h r) :
    (∀ f ∈ r.failures, f.isCanceled = false) ∨ (r.walk = none ∧ ∃ result, r.main = .ended result) ∧
      ∃ failures, (∀ f ∈ failures, f.isCanceled = false) ∧ r.failures = failures ++ [.stopped] := by
  induction trace with
  | start => exact .inl fun f mem => nomatch mem
  | @move h r next move before made ih =>
    have moves := stepMoves made
    obtain uncanceled | ⟨⟨alone, result, ended⟩, closed⟩ := ih
    · by_cases checked : Event.checked true ∈ r.events env move
      · obtain ⟨⟨paths, here⟩, walk, ended, failures⟩ := moves.finishes checked
        have alone := before.steady.alone (by simp [here]) (by simp [here])
        exact .inr ⟨⟨walk.trans alone, ended⟩, r.failures, uncanceled, failures⟩
      · refine .inl fun f mem => ?_
        rw [moves.books.failures] at mem
        obtain old | new := List.mem_append.mp mem
        · exact uncanceled f old
        · obtain ⟨event, inside, failed⟩ := List.mem_filterMap.mp new
          refine ((moves.books.fits event inside).uncanceled failed).resolve_right ?_
          rintro rfl
          exact checked inside
    · generalize r.events env move = events at moves
      cases moves with
      | cancels => exact .inr ⟨⟨alone, result, ended⟩, closed⟩
      | main move => exact absurd ended (move.going result)
      | walker here | worker here => cases alone.symm.trans here

theorem Trace.uncanceledFirst (trace : Trace env (Run.begin store paths canceled) h r) :
    r.failures.filter (fun f => !f.isCanceled) <+: r.failures := by
  have kept {failures : List Failure} (uncanceled : ∀ f ∈ failures, f.isCanceled = false) :
      failures.filter (fun f => !f.isCanceled) = failures :=
    List.filter_eq_self.mpr fun f mem => by simp [uncanceled f mem]
  obtain uncanceled | ⟨-, failures, uncanceled, parts⟩ := trace.closed
  · exact ⟨[], by rw [kept uncanceled, List.append_nil]⟩
  · have last : [Failure.stopped].filter (fun f => !f.isCanceled) = [] := rfl
    rw [parts, List.filter_append, kept uncanceled, last, List.append_nil]
    exact List.prefix_append ..

/-- The chapters of a run, in the order in which their paths were begun, hold every result, every
failure and every line of it, apart from the notice that closes a run that was stopped. -/
theorem chaptersWhole (trace : Trace env (Run.begin store paths canceled) h r) :
    r.chapters.map Chapter.path = h.opened ∧ r.chapters.flatMap Chapter.results = r.results ∧
      r.chapters.flatMap Chapter.failures = r.failures.filter (fun f => !f.isCanceled) ∧
      r.chapters.flatMap Chapter.printed = r.printed := by
  obtain ⟨opened, ordered, first, -⟩ := trace.paged
  have parts {α : Type} (part : Chapter → List α) (xs : List α) (cut : Opening → Nat)
      (is : ∀ a b : Opening, part ⟨a.path, Run.slice r.results a.results b.results,
        Run.slice r.failures a.failures b.failures, Run.slice r.printed a.printed b.printed⟩ =
          Run.slice xs (cut a) (cut b)) (counts : ∀ a b : Opening, a.Before b → cut a ≤ cut b)
      (bare : ∀ a : Opening, a.Bare → cut a = 0) : r.chapters.flatMap part = xs.take (cut r.ending) := by
    rw [← Run.slicesWhole xs cut (ordered.imp (counts _ _)) fun a mem => bare a (first a mem), Run.chapters, List.flatMap,
      List.map_zipWith]
    simp only [is]
  refine ⟨?_, ?_, ?_, ?_⟩
  · rw [← opened, Run.chapters, List.map_zipWith]
    refine List.ext_getElem (by simp; omega) fun n _ _ => ?_
    simp
  · rw [parts Chapter.results r.results Opening.results (fun _ _ => rfl) (fun _ _ less => less.1) fun _ bare => bare.1]
    exact List.take_length
  · rw [parts Chapter.failures r.failures Opening.failures (fun _ _ => rfl) (fun _ _ less => less.2.1) fun _ bare => bare.2.1]
    exact (List.prefix_iff_eq_take.mp trace.uncanceledFirst).symm
  · rw [parts Chapter.printed r.printed Opening.printed (fun _ _ => rfl) (fun _ _ less => less.2.2) fun _ bare => bare.2.2]
    exact List.take_length

end
end ExitSpacing.Batch
