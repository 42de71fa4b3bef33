import ExitSpacing.Proofs.Selecting

/-! What ends a run early. Under faults that are caught where they happen only a path of the list
that holds a null byte does: every file of the store has a plain path, and so has what a failed
write may leave behind. -/
namespace ExitSpacing

namespace Store

theorem Holds.plain {s : Store} (wellFormed : s.WellFormed) {path : String} (holds : s.Holds path) :
    Path.hasNull path = false := by
  obtain ⟨there, mode, content, located, -⟩ := holds
  exact locatedPlain wellFormed located

end Store

namespace Batch

def Main.paths : Main → List String
  | .next paths => paths
  | .inspect path rest => path :: rest
  | .read _ rest | .format _ _ rest | .apply _ rest | .drain rest => rest
  | .ended _ => []

section
variable {env : Conditions} {r next : Run} {events : List Event}

theorem MainMove.paths (move : MainMove env r events next) : next.main.paths ⊆ r.main.paths := by
  cases move with
  | finishes here =>
    obtain ⟨log, finish⟩ := finishIs r
    rw [finish]
    exact List.nil_subset _
  | applies here accepts =>
    rw [here]
    cases accepts with
    | escapes => exact List.nil_subset _
    | _ => exact List.Subset.refl _
  | receives here walk first accepts =>
    rw [here]
    cases accepts with
    | escapes => exact List.nil_subset _
    | _ => exact List.Subset.refl _
  | escapes => exact List.nil_subset _
  | walks here | looks here | misses here =>
    rw [here]
    exact List.subset_cons_self _ _
  | notes here => exact List.Subset.refl _
  | opens here | reads here | missesFile here | formats here | fails here | closes here =>
    rw [here]
    exact List.Subset.refl _

theorem Moves.paths (moves : Moves env r events next) : next.main.paths ⊆ r.main.paths := by
  cases moves with
  | main move => exact move.paths
  | cancels | walker | worker => exact List.Subset.refl _

theorem readFileFails {path : String} (plain : ∀ message, env.faults.find? .read path ≠ some (.unexpected message))
    {trouble : Trouble} (failed : r.readFile env path = .error trouble) : ∃ f, trouble = .failure f := by
  unfold Run.readFile at failed
  split at failed
  · cases failed
  · cases failed
    exact ⟨_, rfl⟩
  · rename_i effect other found
    cases effect with
    | system errno => exact absurd rfl (other errno)
    | unexpected message => exact absurd (Faults.guardedUnexpected found) (plain message)

theorem readFailure (caught : env.faults.Caught) {path : String} {trouble : Trouble}
    (failed : r.readFile env path = .error trouble) : ∃ f, trouble = .failure f := by
  refine readFileFails (fun message found => ?_) failed
  cases caught.found found

theorem lookUpFailure (caught : env.faults.Caught) {path : String} (plain : Path.hasNull path = false)
    {trouble : Trouble} (failed : r.lookUp env path = .error trouble) : ∃ f, trouble = .failure f := by
  unfold Run.lookUp at failed
  split at failed
  · cases failed
  · split at failed
    · cases failed
      exact ⟨_, rfl⟩
    · rename_i effect other found
      cases effect with
      | system errno => exact absurd rfl (other errno)
      | unexpected message => cases caught.found found
    · rw [plain, if_neg Bool.false_ne_true] at failed
      split at failed
      · cases failed
      · cases failed
        exact ⟨_, rfl⟩

theorem formatFailure (caught : env.faults.Caught) (path : String) (source : Bytes) :
    (∃ x, Run.formatUnit env path source = .ok x ∧ x.unit = path) ∨
      ∃ f, Run.formatUnit env path source = .error (.failure f) ∧ f.OfFormatting path := by
  unfold Run.formatUnit
  cases found : env.faults.find? .format path with
  | some effect => cases caught.found found
  | none =>
    exact (formatCases env.parser env.settings.toBlockRule path source).imp
      (fun ⟨x, made, unit, _⟩ => ⟨x, made, unit⟩) id

theorem Accepts.caught {r' : Run} {x : Formatted} {main : Main} (accepts : Accepts env r' x main events next)
    (caught : env.faults.Caught) (unique : r'.store.Unique) (holds : r'.store.Holds x.unit)
    (plain : Path.hasNull x.unit = false) (trouble : Trouble) : .escaped trouble ∉ events := by
  intro mem
  cases accepts with
  | reports | fails => simp at mem
  | escapes failed other =>
    cases written : x.isWritten env.settings with
    | false =>
      rw [(Formatted.reportUnwritten env.faults r'.store written).1] at failed
      cases failed
    | true =>
      obtain ⟨done, _, _⟩ | ⟨failed', _⟩ | ⟨failed', _, faulty⟩ := Formatted.reportWritten env.faults unique holds written
      · rw [done] at failed; cases failed
      · rw [failed'] at failed; cases failed; exact other _ rfl
      · obtain faulty | null := faulty
        · exact faulty caught
        · rw [plain] at null; cases null

theorem Moves.caught {store : Store} {h : History} (moves : Moves env r events next) (caught : env.faults.Caught)
    (wellFormed : store.WellFormed) (plain : ∀ path ∈ r.main.paths, Path.hasNull path = false)
    (sourced : Sourced env h r) (lasting : Lasting store h r) (trouble : Trouble) : .escaped trouble ∉ events := by
  have unique := lasting.lasts.unique
  have plainUnit {x : Formatted} (inHand : .report x ∈ r.duties) : Path.hasNull x.unit = false :=
    (lasting.inHand sourced inHand).plain (lasting.lasts.wellFormed wellFormed)
  intro mem
  cases moves with
  | cancels => simp at mem
  | walker here move => cases move <;> simp at mem
  | worker here employed move => cases move <;> simp at mem
  | main move =>
    cases move with
    | escapes here other =>
      obtain ⟨path, rest, main, failed⟩ | ⟨path, rest, main, failed⟩ | ⟨path, source, rest, main, failed⟩ := here
      · obtain ⟨f, rfl⟩ := lookUpFailure caught (plain path (by simp [main, Main.paths])) failed
        exact other f rfl
      · obtain ⟨f, rfl⟩ := readFailure caught failed
        exact other f rfl
      · obtain ⟨x, made, -⟩ | ⟨f, same, -⟩ := formatFailure caught path source
        · rw [made] at failed; cases failed
        · rw [same] at failed; cases failed; exact other f rfl
    | @applies x rest _ _ here accepts =>
      have inHand : Duty.report x ∈ r.duties := by simp [Run.duties, here, Main.duties]
      exact accepts.caught caught unique (lasting.inHand sourced inHand) (plainUnit inHand) trouble mem
    | @receives rest w x queue _ _ here walk first accepts =>
      have inHand : Duty.report x ∈ r.duties := by simp [Run.duties, walk, Walk.duties, first, Message.duty?]
      exact accepts.caught caught unique (lasting.inHand sourced inHand) (plainUnit inHand) trouble
        ((List.mem_cons.mp mem).resolve_left (by simp))
    | _ => simp at mem

end

section
variable {env : Conditions} {store : Store} {paths : List String} {canceled : Bool} {h : History} {r : Run}

theorem Trace.caught (trace : Trace env (Run.begin store paths canceled) h r) (caught : env.faults.Caught)
    (wellFormed : store.WellFormed) (plain : ∀ path ∈ paths, Path.hasNull path = false) :
    ¬ r.Escaped ∧ r.main.paths ⊆ paths := by
  induction trace with
  | start =>
    refine ⟨?_, List.Subset.refl _⟩
    rintro ⟨trouble, ended, -⟩
    cases ended
  | move move before made ih =>
    have moves := stepMoves made
    obtain ⟨unescaped, within⟩ := ih
    refine ⟨fun escaped => ?_, List.Subset.trans moves.paths within⟩
    have sourced := before.sourced.resolve_left unescaped
    have lasting := (before.lasting wellFormed.unique).resolve_left unescaped
    obtain early | ⟨trouble, mem⟩ := moves.escapes escaped
    · exact unescaped early
    · exact moves.caught caught wellFormed (fun path mem => plain path (within mem)) sourced lasting trouble mem

theorem Trace.contained (trace : Trace env (Run.begin store paths canceled) h r) (contained : env.faults.Contained)
    (wellFormed : store.WellFormed) (plain : ∀ path ∈ paths, Path.hasNull path = false) :
    ¬ r.Escaped ∧ r.main.paths ⊆ paths :=
  trace.caught contained.caught wellFormed plain

end
end Batch
end ExitSpacing
