import ExitSpacing.Proofs.Marking

/-! Passes over a document, one after another. Whatever the rules and their order, the
blocks end up as if every decision had been made on the unmarked blocks at once. -/
namespace ExitSpacing

namespace Block
open Entry

def markerAt (b : Block) (choice : Nat → Bool) (t : Statement) (i : Nat) : List Marker :=
  if choice i then (b.statements[i - 1]?.map fun p => ⟨t, p⟩).toList else []

def setOff (b : Block) (choice : Nat → Bool) : Block :=
  { b with
    entries := b.statements.zipIdx.flatMap fun (t, i) => (b.markerAt choice t i).map .marker ++ [.statement t] }

def chosen (b : Block) (choice : Nat → Bool) : List Statement :=
  (b.statements.zipIdx.filter fun s => choice s.2).map (·.1)

/-- A choice by index and one by neighbours that agree on the statements of a block. -/
structure Agree (b : Block) (choice : Nat → Bool) (due : Statement → Statement → Bool) : Prop where
  first : choice 0 = false
  later : ∀ i p t, b.statements[i]? = some p → b.statements[i + 1]? = some t → choice (i + 1) = due p t

section
variable {b : Block} {choice : Nat → Bool} {due : Statement → Statement → Bool}

theorem Agree.at (agree : b.Agree choice due) {done rest : List Statement} {t : Statement}
    (parts : b.statements = done ++ t :: rest) :
    wanted due (done.getLast?.map .statement) (.statement t) = b.markerAt choice t done.length := by
  rcases List.eq_nil_or_concat done with rfl | ⟨init, p, rfl⟩
  · simp [markerAt, agree.first, wanted]
  · simp only [List.concat_eq_append] at *
    have before : b.statements[init.length]? = some p := by rw [parts]; simp
    have here : b.statements[init.length + 1]? = some t := by rw [parts]; simp
    simp only [markerAt, List.length_append, List.length_singleton, Nat.add_sub_cancel, before,
      agree.later init.length p t before here, List.getLast?_concat, Option.map_some, wanted]
    rfl

theorem Agree.chosenAt (agree : b.Agree choice due) {done rest : List Statement} {t : Statement}
    (parts : b.statements = done ++ t :: rest) :
    (b.markerAt choice t done.length).map Marker.target = if choice done.length then [t] else [] := by
  rcases List.eq_nil_or_concat done with rfl | ⟨init, p, rfl⟩
  · simp [markerAt, agree.first]
  · simp only [List.concat_eq_append] at *
    have before : b.statements[init.length]? = some p := by rw [parts]; simp
    simp only [markerAt, List.length_append, List.length_singleton, Nat.add_sub_cancel, before]
    cases choice (init.length + 1) <;> rfl

theorem Agree.spacedFrom (agree : b.Agree choice due) (done rest : List Statement)
    (parts : b.statements = done ++ rest) :
    spaced due (done.getLast?.map .statement) (rest.map .statement) =
      (rest.zipIdx done.length).flatMap fun (t, i) => (b.markerAt choice t i).map .marker ++ [.statement t] := by
  induction rest generalizing done with
  | nil => rfl
  | cons t rest ih =>
    have next := ih (done ++ [t]) (by rw [parts, List.append_assoc]; rfl)
    rw [List.getLast?_concat, List.length_append] at next
    rw [List.map_cons, spaced, agree.at parts, List.zipIdx_cons, List.flatMap_cons, List.append_assoc]
    exact congrArg _ (congrArg _ next)

theorem Agree.wantedFrom (agree : b.Agree choice due) (done rest : List Statement)
    (parts : b.statements = done ++ rest) :
    (wantedAll due (done.getLast?.map .statement) (rest.map .statement)).map Marker.target =
      ((rest.zipIdx done.length).filter fun s => choice s.2).map (·.1) := by
  induction rest generalizing done with
  | nil => rfl
  | cons t rest ih =>
    have next := ih (done ++ [t]) (by rw [parts, List.append_assoc]; rfl)
    rw [List.getLast?_concat, List.length_append, Option.map_some] at next
    rw [List.map_cons, wantedAll, List.map_append, agree.at parts, agree.chosenAt parts, next,
      List.zipIdx_cons, List.filter_cons]
    cases choice done.length <;> rfl

theorem Agree.setOff (agree : b.Agree choice due) (unmarked : b.markers = []) :
    b.setOff choice = b.markedBy due := by
  have all := agree.spacedFrom [] b.statements rfl
  rw [← unmarkedEntries unmarked] at all
  exact congrArg (Block.mk b.owner) all.symm

theorem Agree.wanted (agree : b.Agree choice due) (unmarked : b.markers = []) :
    (wantedAll due none b.entries).map Marker.target = b.chosen choice := by
  have all := agree.wantedFrom [] b.statements rfl
  rwa [← unmarkedEntries unmarked] at all

end

theorem unmarkedAt {b : Block} (unmarked : b.markers = []) (i : Nat) :
    b.entries[i]? = b.statements[i]?.map .statement := by
  conv_lhs => rw [unmarkedEntries unmarked]
  rw [List.getElem?_map]

theorem agreeOf {b : Block} (unmarked : b.markers = []) (combine : (BlockRule → Bool) → Bool)
    (nothing : combine (fun _ => false) = false) :
    b.Agree (fun i => combine fun rule => b.shouldInsert rule i)
      fun p t => combine fun rule => b.due rule p t where
  first := nothing
  later := by
    intro i p t before found
    have all : ∀ rule, b.shouldInsert rule (i + 1) = b.due rule p t := by
      intro rule
      exact shouldInsertDue (by rw [unmarkedAt unmarked, before]; rfl) (by rw [unmarkedAt unmarked, found]; rfl)
    simp only [all]

end Block

theorem Change.notAfterTrans (a b c : Change) (ab : a.notAfter b) (bc : b.notAfter c) : a.notAfter c := by
  simp only [notAfter, Bool.or_eq_true, Bool.and_eq_true, decide_eq_true_eq, beq_iff_eq] at *
  omega

theorem Change.notAfterTotal (a b : Change) : (a.notAfter b || b.notAfter a) = true := by
  simp only [notAfter, Bool.or_eq_true, Bool.and_eq_true, decide_eq_true_eq, beq_iff_eq]
  omega

namespace Document
open Entry

structure Fresh (d : Document) : Prop where
  unmarked : ∀ b ∈ d.blocks, b.markers = []
  positive : ∀ b ∈ d.blocks, ∀ s ∈ b.statements, s.Positive

def markedBy (d : Document) (due : Block → Statement → Statement → Bool) : Document :=
  { d with blocks := d.blocks.map fun b => b.markedBy (due b) }

def setOff (d : Document) (choice : Block → Nat → Bool) : Document :=
  { d with blocks := d.blocks.map fun b => b.setOff (choice b) }

def passes (d : Document) : List BlockRule → Document × List (Except PassError (List Change))
  | [] => (d, [])
  | rule :: rest =>
    let (marked, log) := d.apply rule
    let (last, logs) := marked.passes rest
    (last, log :: logs)

structure Logs (log : List Change) (rows : List (String × String × Nat × Nat)) : Prop where
  rows : (log.map Change.row).Perm rows
  sorted : log.Pairwise fun a b => a.line < b.line ∨ a.line = b.line ∧ a.column ≤ b.column

theorem sortedLogs {log : List Change} {rows : List (String × String × Nat × Nat)}
    (same : log.map Change.row = rows) : Logs (log.mergeSort Change.notAfter) rows where
  rows := same ▸ (List.mergeSort_perm log _).map Change.row
  sorted := by
    refine (List.pairwise_mergeSort Change.notAfterTrans Change.notAfterTotal log).imp ?_
    intro a b before
    simpa [Change.notAfter] using before

theorem markAllSpaced (rule : BlockRule) (unit : String) {blocks : List Block}
    (positive : ∀ b ∈ blocks, ∀ s ∈ b.statements, s.Positive) :
    ∃ log, Block.markAll rule unit blocks = (blocks.map fun b => b.markedBy (b.due rule), .ok log) ∧
      log.map Change.row =
        blocks.flatMap fun b => (wantedAll (b.due rule) none b.entries).map fun m => m.target.row unit := by
  induction blocks with
  | nil => exact ⟨[], rfl, rfl⟩
  | cons b rest ih =>
    obtain ⟨log, ran, rows⟩ := Block.markSpaced rule unit (positive b List.mem_cons_self)
    obtain ⟨more, others, same⟩ := ih fun c mem => positive c (List.mem_cons_of_mem _ mem)
    refine ⟨log ++ more, ?_, ?_⟩
    · simp only [Block.markAll, ran, others]; rfl
    · rw [List.map_append, rows, same, List.flatMap_cons]

theorem applyMarked {d : Document} (fresh : d.Fresh) (rule : BlockRule)
    (first : Block → Statement → Statement → Bool) :
    ∃ log, (d.markedBy first).apply rule =
        (d.markedBy fun b p t => first b p t || b.due rule p t, .ok log) ∧
      Logs log (d.blocks.flatMap fun b =>
        (wantedAll (fun p t => b.due rule p t && !first b p t) none b.entries).map fun m => m.target.row d.unit) := by
  have positive : ∀ b ∈ (d.markedBy first).blocks, ∀ s ∈ b.statements, s.Positive := by
    intro b mem
    obtain ⟨a, inside, rfl⟩ := List.mem_map.mp mem
    rw [Block.markedByStatements]
    exact fresh.positive a inside
  obtain ⟨log, ran, rows⟩ := markAllSpaced rule d.unit positive
  refine ⟨log.mergeSort Change.notAfter, ?_, sortedLogs (rows.trans ?_)⟩
  · have twice : (d.markedBy first).blocks.map (fun b => b.markedBy (b.due rule)) =
        (d.markedBy fun b p t => first b p t || b.due rule p t).blocks := by
      rw [markedBy, markedBy, List.map_map]
      exact List.map_congr_left fun b mem => Block.markedTwice (fresh.unmarked b mem) rule (first b)
    rw [apply, show (d.markedBy first).unit = d.unit from rfl, ran, twice]
    rfl
  · rw [markedBy, List.flatMap_map]
    refine List.flatMap_congr fun b mem => ?_
    rw [Block.wantedMarked (fresh.unmarked b mem)]

theorem passesMarked {d : Document} (fresh : d.Fresh) (rules : List BlockRule)
    (first : Block → Statement → Statement → Bool) :
    ((d.markedBy first).passes rules).1 =
        d.markedBy (fun b p t => first b p t || rules.any (b.due · p t)) ∧
      ((d.markedBy first).passes rules).2.length = rules.length ∧
      ∀ k rule, rules[k]? = some rule →
        ∃ log, ((d.markedBy first).passes rules).2[k]? = some (.ok log) ∧
          Logs log (d.blocks.flatMap fun b =>
            (wantedAll (fun p t => b.due rule p t && !(first b p t || (rules.take k).any (b.due · p t)))
              none b.entries).map fun m => m.target.row d.unit) := by
  -- By induction on the rules, with what the passes before them have set off as `first`.
  induction rules generalizing first with
  | nil => simp [passes]
  | cons head rest ih =>
    obtain ⟨log, ran, logged⟩ := applyMarked fresh head first
    obtain ⟨last, long, each⟩ := ih fun b p t => first b p t || b.due head p t
    simp only [passes, ran]
    refine ⟨?_, by simpa using long, ?_⟩
    · rw [last]
      simp only [List.any_cons, Bool.or_assoc]
    · intro k rule found
      cases k with
      | zero =>
        cases found
        refine ⟨log, rfl, ?_⟩
        simpa using logged
      | succ k =>
        obtain ⟨other, there, logged⟩ := each k rule found
        refine ⟨other, there, ?_⟩
        simpa only [List.take_succ_cons, List.any_cons, Bool.or_assoc] using logged

theorem markedByNothing {d : Document} : d.markedBy (fun _ _ _ => false) = d := by
  have each : d.blocks.map (fun b => b.markedBy fun _ _ => false) = d.blocks := by
    refine (List.map_congr_left fun b _ => ?_).trans (List.map_id _)
    rw [Block.markedBy, spacedNothing]; rfl
  rw [markedBy, each]

theorem applyFresh {d : Document} (fresh : d.Fresh) (rule : BlockRule) :
    ∃ log, d.apply rule = (d.markedBy fun b => b.due rule, .ok log) ∧
      Logs log (d.blocks.flatMap fun b =>
        (wantedAll (b.due rule) none b.entries).map fun m => m.target.row d.unit) := by
  obtain ⟨log, ran, logged⟩ := applyMarked fresh rule fun _ _ _ => false
  rw [markedByNothing] at ran
  refine ⟨log, ?_, ?_⟩
  · simpa only [Bool.false_or] using ran
  · simpa only [Bool.not_false, Bool.and_true] using logged

theorem passesUnmarked {d : Document} (fresh : d.Fresh) (rules : List BlockRule) :
    (d.passes rules).1 = d.markedBy fun b p t => rules.any (b.due · p t) := by
  have all := (passesMarked fresh rules fun _ _ _ => false).1
  rw [markedByNothing] at all
  simpa only [Bool.false_or] using all

/-- Any sequence of passes decides as one look at the unmarked blocks: no pass stops, a
statement is set off when one of the rules asks for it there, each pass logs what none
before it asked for, and neither order nor repetition changes the blocks. -/
theorem passesDecideUnmarked (d : Document) (fresh : d.Fresh) (rules : List BlockRule) :
    (d.passes rules).1 = d.setOff (fun b i => rules.any (b.shouldInsert · i)) ∧
      (d.passes rules).2.length = rules.length ∧
      (∀ k rule, rules[k]? = some rule →
        ∃ log, (d.passes rules).2[k]? = some (.ok log) ∧
          Logs log (d.blocks.flatMap fun b =>
            (b.chosen fun i => b.shouldInsert rule i && !(rules.take k).any (b.shouldInsert · i)).map
              (Statement.row d.unit))) ∧
      (∀ others, others.Perm rules → (d.passes others).1 = (d.passes rules).1) ∧
      ∀ rule ∈ rules, (d.passes rules).1.apply rule = ((d.passes rules).1, .ok []) := by
  have last := passesUnmarked fresh rules
  obtain ⟨-, long, each⟩ := passesMarked fresh rules fun _ _ _ => false
  rw [markedByNothing] at long each
  refine ⟨?_, long, ?_, ?_, ?_⟩
  · rw [last, setOff, markedBy]
    refine congrArg (Document.mk d.unit d.source) (List.map_congr_left fun b mem => ?_)
    have unmarked := fresh.unmarked b mem
    exact ((Block.agreeOf unmarked rules.any (by simp)).setOff unmarked).symm
  · intro k rule found
    obtain ⟨log, there, logged⟩ := each k rule found
    refine ⟨log, there, ?_⟩
    have rows : d.blocks.flatMap (fun b =>
        (wantedAll (fun p t => b.due rule p t && !(false || (rules.take k).any (b.due · p t))) none
          b.entries).map fun m => m.target.row d.unit) =
        d.blocks.flatMap fun b =>
          (b.chosen fun i => b.shouldInsert rule i && !(rules.take k).any (b.shouldInsert · i)).map
            (Statement.row d.unit) := by
      refine List.flatMap_congr fun b mem => ?_
      have unmarked := fresh.unmarked b mem
      have agree := Block.agreeOf unmarked (fun decide => decide rule && !(rules.take k).any decide) rfl
      rw [← agree.wanted unmarked, List.map_map]
      rfl
    rwa [rows] at logged
  · intro others same
    rw [last, passesUnmarked fresh others]
    have agree : ∀ f : BlockRule → Bool, others.any f = rules.any f := fun f => same.any_eq
    simp only [agree]
  · intro rule mem
    obtain ⟨log, ran, logged⟩ := applyMarked fresh rule fun b p t => rules.any (b.due · p t)
    -- A rule that was applied asks for nothing that is not set off already.
    have covered : ∀ b p t, (rules.any (Block.due b · p t) || b.due rule p t) = rules.any (b.due · p t) ∧
        (b.due rule p t && !rules.any (b.due · p t)) = false := by
      intro b p t
      cases asked : b.due rule p t with
      | false => exact ⟨Bool.or_false _, rfl⟩
      | true =>
        have some : rules.any (b.due · p t) = true := List.any_eq_true.mpr ⟨rule, mem, asked⟩
        rw [some]
        exact ⟨rfl, rfl⟩
    simp only [(covered _ _ _).1] at ran
    simp only [(covered _ _ _).2, wantedNothing] at logged
    have none : (d.blocks.flatMap fun _ => ([] : List Marker).map fun m => m.target.row d.unit) = [] :=
      List.flatMap_eq_nil_iff.mpr fun _ _ => rfl
    have empty : log = [] := List.map_eq_nil_iff.mp (List.perm_nil.mp (none ▸ logged.rows))
    rw [last, ran, empty]

def nestedExits : Document where
  unit := "f.go"
  source := []
  blocks := [⟨"block", [.statement ⟨⟨0, 0⟩, "expression_statement", .plain, 1, 1, 1, 0, 3⟩,
      .statement ⟨⟨0, 1⟩, "if_statement", .plain, 2, 5, 1, 4, 20⟩,
      .statement ⟨⟨0, 2⟩, "return_statement", .returning, 6, 6, 1, 21, 27⟩]⟩,
    ⟨"block", [.statement ⟨⟨1, 0⟩, "expression_statement", .plain, 3, 3, 2, 9, 12⟩,
      .statement ⟨⟨1, 1⟩, "break_statement", .branching, 4, 4, 2, 14, 19⟩]⟩]

theorem nestedExitsFresh : nestedExits.Fresh := ⟨by decide, by unfold Statement.Positive; decide⟩

theorem nestedExitsMarked : nestedExits.Fresh ∧
    ((nestedExits.passes [⟨2, .lines⟩, ⟨0, .statements⟩]).1.blocks.map fun b => b.markers.map (·.target.id)) =
      [[⟨0, 2⟩], [⟨1, 1⟩]] ∧
    ∃ log, (nestedExits.passes [⟨2, .lines⟩, ⟨0, .statements⟩]).2[1]? = some (.ok log) ∧
      Logs log [("break", "f.go", 4, 2)] := by
  obtain ⟨last, -, each, -⟩ := passesDecideUnmarked nestedExits nestedExitsFresh [⟨2, .lines⟩, ⟨0, .statements⟩]
  refine ⟨nestedExitsFresh, ?_, each 1 ⟨0, .statements⟩ rfl⟩
  rw [last]
  decide

end Document
end ExitSpacing
