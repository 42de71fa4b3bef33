import ExitSpacing.Spacing.Marking
import Mathlib.Data.List.Basic

/-! A pass over a block that is being marked, or was marked before, decides what the
block without markers would: markers change neither its statements nor its first
entry, and the loop never comes back to what it moved. -/
namespace ExitSpacing

def Change.row (c : Change) : String × String × Nat × Nat := (c.keyword, c.unit, c.line, c.column)

def Statement.row (unit : String) (s : Statement) : String × String × Nat × Nat :=
  (s.keyword, unit, s.startLine, s.startColumn)

def Statement.Positive (s : Statement) : Prop := 0 < s.startLine ∧ 0 < s.startColumn

theorem Statement.Positive.change {s : Statement} (positive : s.Positive) (unit : String) :
    ∃ c, Change.ofStatement unit s = .ok c ∧ c.row = s.row unit :=
  ⟨_, dif_pos positive, rfl⟩

namespace Entry

def wanted (due : Statement → Statement → Bool) : Option Entry → Entry → List Marker
  | some (.statement p), .statement t => if due p t then [⟨t, p⟩] else []
  | _, _ => []

def wantedAll (due : Statement → Statement → Bool) : Option Entry → List Entry → List Marker
  | _, [] => []
  | before, e :: rest => wanted due before e ++ wantedAll due (some e) rest

def spaced (due : Statement → Statement → Bool) : Option Entry → List Entry → List Entry
  | _, [] => []
  | before, e :: rest => (wanted due before e).map .marker ++ e :: spaced due (some e) rest

theorem wantedBetween {due : Statement → Statement → Bool} {x y : Entry} {m : Marker} {ms : List Marker}
    (some : wanted due (some x) y = m :: ms) :
    ∃ p t, x = .statement p ∧ y = .statement t ∧ due p t = true ∧ m = ⟨t, p⟩ ∧ ms = [] := by
  cases x with
  | marker => simp [wanted] at some
  | statement p =>
    cases y with
    | marker => simp [wanted] at some
    | statement t =>
      simp only [wanted] at some
      split at some <;> try contradiction
      rename_i yes
      cases some
      exact ⟨p, t, rfl, rfl, yes, rfl, rfl⟩

theorem nothingWanted (before : Option Entry) (e : Entry) : wanted (fun _ _ => false) before e = [] := by
  cases before with
  | none => rfl
  | some x => cases x <;> cases e <;> rfl

theorem spacedNothing (before : Option Entry) (es : List Entry) : spaced (fun _ _ => false) before es = es := by
  induction es generalizing before with
  | nil => rfl
  | cons e rest ih => rw [spaced, ih, nothingWanted]; rfl

theorem wantedNothing (before : Option Entry) (es : List Entry) :
    wantedAll (fun _ _ => false) before es = [] := by
  induction es generalizing before with
  | nil => rfl
  | cons e rest ih => rw [wantedAll, ih, nothingWanted]; rfl

theorem lastOr (a : Entry) (l : List Entry) (before : Option Entry) :
    (a :: l).getLast?.or before = l.getLast?.or (some a) := by
  rw [List.getLast?_cons]
  cases l.getLast? <;> rfl

theorem spacedAppend (due : Statement → Statement → Bool) (before : Option Entry) (l r : List Entry) :
    spaced due before (l ++ r) = spaced due before l ++ spaced due (l.getLast?.or before) r := by
  induction l generalizing before with
  | nil => rfl
  | cons a l ih =>
    rw [List.cons_append, spaced, ih (some a), lastOr, spaced, List.append_assoc, List.cons_append]

theorem wantedAppend (due : Statement → Statement → Bool) (before : Option Entry) (l r : List Entry) :
    wantedAll due before (l ++ r) = wantedAll due before l ++ wantedAll due (l.getLast?.or before) r := by
  induction l generalizing before with
  | nil => rfl
  | cons a l ih =>
    rw [List.cons_append, wantedAll, ih (some a), lastOr, wantedAll, List.append_assoc]

theorem spacedSnoc (due : Statement → Statement → Bool) (l : List Entry) (x y : Entry) :
    spaced due none (l ++ [x] ++ [y]) =
      spaced due none (l ++ [x]) ++ ((wanted due (some x) y).map .marker ++ [y]) := by
  rw [spacedAppend, List.getLast?_concat]; rfl

theorem wantedSnoc (due : Statement → Statement → Bool) (l : List Entry) (x y : Entry) :
    wantedAll due none (l ++ [x] ++ [y]) = wantedAll due none (l ++ [x]) ++ wanted due (some x) y := by
  rw [wantedAppend, List.getLast?_concat, Option.some_or, wantedAll, wantedAll, List.append_nil]

theorem spacedStatements (due : Statement → Statement → Bool) (before : Option Entry) (es : List Entry) :
    (spaced due before es).filterMap statement? = es.filterMap statement? := by
  induction es generalizing before with
  | nil => rfl
  | cons e rest ih =>
    have none : ((wanted due before e).map marker).filterMap statement? = [] := by
      rw [List.filterMap_map]; exact List.filterMap_eq_nil_iff.mpr fun _ _ => rfl
    rw [spaced, List.filterMap_append, none, List.nil_append, List.filterMap_cons, List.filterMap_cons, ih]

theorem spacedHead (due : Statement → Statement → Bool) (es : List Entry) :
    (spaced due none es).head? = es.head? := by
  cases es <;> rfl

end Entry

namespace Block
open Entry

def roomy (b : Block) (rule : BlockRule) (t : Statement) : Bool :=
  match rule.policy with
  | .statements =>
    rule.blockSize < b.statements.countP (fun s => !s.isEmpty) - if t.isEmpty then 0 else 1
  | .lines => match b.entries.head?.bind Entry.statement? with
    | some first => first.startLine + rule.blockSize ≤ t.startLine
    | none => false

def due (b : Block) (rule : BlockRule) (p t : Statement) : Bool :=
  t.isExit && b.roomy rule t && t.startLine ≤ p.endLine + 1

theorem dueBlind {b c : Block} (rule : BlockRule) (statements : b.statements = c.statements)
    (head : b.entries.head? = c.entries.head?) : b.due rule = c.due rule := by
  funext p t
  simp only [due, roomy, statements, head]

theorem siblingsAt {b : Block} {i : Nat} {t : Statement} (found : b.entries[i]? = some (.statement t)) :
    b.siblings i = b.statements.countP (fun s => !s.isEmpty) - if t.isEmpty then 0 else 1 := by
  obtain ⟨inside, same⟩ := List.getElem?_eq_some_iff.mp found
  have parts : b.entries = b.entries.take i ++ .statement t :: b.entries.drop (i + 1) := by
    rw [← same, List.getElem_cons_drop, List.take_append_drop]
  have whole : b.statements = (b.entries.take i).filterMap statement? ++
      t :: (b.entries.drop (i + 1)).filterMap statement? := by
    conv_lhs => rw [statements, parts]
    simp only [List.filterMap_append, List.filterMap_cons, statement?]
  rw [siblings, whole, List.eraseIdx_eq_take_drop_succ, List.filterMap_append]
  simp only [List.countP_append, List.countP_cons]
  cases t.isEmpty <;> simp

theorem shouldInsertDue {b : Block} {rule : BlockRule} {i : Nat} {p t : Statement}
    (before : b.entries[i]? = some (.statement p)) (found : b.entries[i + 1]? = some (.statement t)) :
    b.shouldInsert rule (i + 1) = b.due rule p t := by
  have enough : b.longEnough rule (i + 1) t = b.roomy rule t := by
    rw [longEnough, roomy]
    cases rule.policy with
    | statements => simp only [siblingsAt found]
    | lines => cases b.entries.head?.bind statement? <;> rfl
  rw [shouldInsert, before, found, due, ← enough]

theorem insertMiddle (l r : List Entry) (e : Entry) : (l ++ r).insertIdx l.length e = l ++ e :: r := by
  induction l with
  | nil => rfl
  | cons a l ih => rw [List.cons_append, List.length_cons, List.insertIdx_succ_cons, ih, List.cons_append]

theorem spliceBetween {b : Block} {l r : List Entry} {x : Entry} {t p : Statement}
    (parts : b.entries = l ++ [x] ++ .statement t :: r) :
    b.splice (l.length + 1 : Nat) ⟨t, p⟩ =
      .ok { b with entries := l ++ [x] ++ .marker ⟨t, p⟩ :: .statement t :: r } := by
  have long : b.entries.length = l.length + 1 + (r.length + 1) := by rw [parts]; simp; omega
  have inside : (0 : Int) < (l.length + 1 : Nat) ∧ ((l.length + 1 : Nat) : Int) < b.entries.length := by omega
  have there : b.entries[l.length + 1]? = some (.statement t) := by rw [parts]; simp
  have put : b.entries.insertIdx (l.length + 1) (.marker ⟨t, p⟩) =
      l ++ [x] ++ .marker ⟨t, p⟩ :: .statement t :: r := by
    rw [parts, show l.length + 1 = (l ++ [x]).length by simp, insertMiddle]
  simp only [splice, if_pos inside, Int.toNat_natCast, there, put, ↓reduceIte]

theorem skipsUnwanted {b : Block} {rule : BlockRule} {i : Nat} {x y : Entry}
    (before : b.entries[i]? = some x) (found : b.entries[i + 1]? = some y)
    (none : wanted (b.due rule) (some x) y = []) : b.shouldInsert rule (i + 1) = false := by
  cases x with
  | marker m => simp only [shouldInsert, before]
  | statement p =>
    cases y with
    | marker m => simp only [shouldInsert, before, found]
    | statement t =>
      rw [shouldInsertDue before found]
      simpa [wanted] using none

theorem markFromSpaced {rule : BlockRule} (unit : String) {due : Statement → Statement → Bool} (n : Nat)
    {b : Block} {l r : List Entry} (log : List Change) (parts : b.entries = l ++ r)
    (long : l.length = n + 1) (decides : b.due rule = due)
    (positive : ∀ s, .statement s ∈ l → s.Positive) :
    ∃ new, markFrom rule unit n b log = ({ b with entries := spaced due none l ++ r }, .ok (new ++ log)) ∧
      new.map Change.row = (wantedAll due none l).map fun m => m.target.row unit := by
  -- `l` is still to be decided and `r` is done; a marker goes in behind all of `l`, so `due`
  -- is the same for what is left
  induction n generalizing b l r log with
  | zero =>
    obtain ⟨x, rfl⟩ := List.length_eq_one_iff.mp long
    refine ⟨[], ?_, rfl⟩
    rw [markFrom, show spaced due none [x] ++ r = b.entries from parts.symm]; rfl
  | succ n ih =>
    obtain ⟨init, y, rfl⟩ := (List.eq_nil_or_concat l).resolve_left (by rintro rfl; simp at long)
    obtain ⟨init, x, rfl⟩ := (List.eq_nil_or_concat init).resolve_left (by rintro rfl; simp at long)
    simp only [List.concat_eq_append] at *
    have short : init.length = n := by simpa using long
    have before : b.entries[n]? = some x := by rw [parts, ← short]; simp
    have found : b.entries[n + 1]? = some y := by rw [parts, ← short]; simp
    have fewer : ∀ s, .statement s ∈ init ++ [x] → s.Positive :=
      fun s mem => positive s (List.mem_append_left _ mem)
    cases none : wanted due (some x) y with
    | nil =>
      have skip := skipsUnwanted before found (decides ▸ none)
      obtain ⟨new, ran, rows⟩ := ih log (parts.trans (List.append_assoc _ _ _)) (by simpa using short) decides fewer
      refine ⟨new, ?_, ?_⟩
      · rw [markFrom, skip, if_neg Bool.false_ne_true, ran, spacedSnoc, none]; simp
      · rw [rows, wantedSnoc, none, List.append_nil]
    | cons m ms =>
      obtain ⟨p, t, rfl, rfl, yes, rfl, rfl⟩ := wantedBetween none
      have here : b.shouldInsert rule (n + 1) = true := by rw [shouldInsertDue before found, decides, yes]
      have put := spliceBetween (l := init) (x := .statement p) (p := p) (t := t) (r := r) (by rw [parts]; simp)
      rw [short] at put
      obtain ⟨change, made, row⟩ := (positive t (List.mem_append_right _ List.mem_cons_self)).change unit
      let marked : Block := { b with entries := init ++ [.statement p] ++ .marker ⟨t, p⟩ :: .statement t :: r }
      have same : marked.due rule = due := by
        rw [← decides]
        refine dueBlind rule ?_ ?_
        · simp [marked, statements, parts, List.filterMap_cons, statement?]
        · cases init <;> simp [marked, parts]
      obtain ⟨new, ran, rows⟩ := ih (change :: log) (b := marked) rfl (by simpa using short) same fewer
      refine ⟨new ++ [change], ?_, ?_⟩
      · rw [markFrom, if_pos here, before, found]
        simp only [put, made]
        rw [ran, spacedSnoc, none]
        simp [marked]
      · rw [List.map_append, rows, wantedSnoc, none, List.map_append, List.map_singleton, row]; rfl

theorem markSpaced (rule : BlockRule) (unit : String) {b : Block} (positive : ∀ s ∈ b.statements, s.Positive) :
    ∃ log, mark rule unit b = ({ b with entries := spaced (b.due rule) none b.entries }, .ok log) ∧
      log.map Change.row = (wantedAll (b.due rule) none b.entries).map fun m => m.target.row unit := by
  cases empty : b.entries with
  | nil =>
    obtain ⟨owner, entries⟩ := b
    cases empty
    exact ⟨[], rfl, rfl⟩
  | cons e rest =>
    have each : ∀ s, .statement s ∈ e :: rest → s.Positive :=
      fun s mem => positive s (List.mem_filterMap.mpr ⟨_, empty ▸ mem, rfl⟩)
    obtain ⟨log, ran, rows⟩ := markFromSpaced unit rest.length []
      (empty.trans (List.append_nil _).symm) rfl (rfl : b.due rule = _) each
    refine ⟨log, ?_, rows⟩
    rw [mark, empty]
    simpa using ran

def markedBy (b : Block) (due : Statement → Statement → Bool) : Block :=
  { b with entries := spaced due none b.entries }

theorem markedByStatements (b : Block) (due : Statement → Statement → Bool) :
    (b.markedBy due).statements = b.statements := spacedStatements due none b.entries

theorem markedByDue (b : Block) (rule : BlockRule) (due : Statement → Statement → Bool) :
    (b.markedBy due).due rule = b.due rule :=
  dueBlind rule (b.markedByStatements due) (spacedHead due b.entries)

theorem unmarkedEntries {b : Block} (unmarked : b.markers = []) :
    b.entries = b.statements.map .statement := by
  have each : ∀ e ∈ b.entries, e.marker? = none := List.filterMap_eq_nil_iff.mp unmarked
  have back : ∀ es : List Entry, (∀ e ∈ es, e.marker? = none) → es = (es.filterMap statement?).map .statement := by
    intro es none
    induction es with
    | nil => rfl
    | cons e rest ih =>
      cases e with
      | marker m => cases none _ List.mem_cons_self
      | statement s =>
        simp only [List.filterMap_cons, statement?, List.map_cons]
        rw [← ih fun e mem => none e (List.mem_cons_of_mem _ mem)]
  exact back b.entries each

end Block

namespace Entry

theorem spacedTwice (first due : Statement → Statement → Bool) (before : Option Entry) (ss : List Statement) :
    spaced due before (spaced first before (ss.map .statement)) =
      spaced (fun p t => first p t || due p t) before (ss.map .statement) := by
  induction ss generalizing before with
  | nil => rfl
  | cons t rest ih =>
    simp only [List.map_cons, spaced, ← ih (some (.statement t))]
    cases before with
    | none => rfl
    | some e =>
      cases e with
      | marker m => rfl
      | statement p => cases yes : first p t <;> simp [wanted, spaced, yes]

theorem wantedTwice (first due : Statement → Statement → Bool) (before : Option Entry) (ss : List Statement) :
    wantedAll due before (spaced first before (ss.map .statement)) =
      wantedAll (fun p t => due p t && !first p t) before (ss.map .statement) := by
  induction ss generalizing before with
  | nil => rfl
  | cons t rest ih =>
    simp only [List.map_cons, spaced, wantedAll, ← ih (some (.statement t))]
    cases before with
    | none => rfl
    | some e =>
      cases e with
      | marker m => rfl
      | statement p => cases yes : first p t <;> simp [wanted, wantedAll, yes]

end Entry

namespace Block
open Entry

theorem markedTwice {b : Block} (unmarked : b.markers = []) (rule : BlockRule)
    (first : Statement → Statement → Bool) :
    (b.markedBy first).markedBy ((b.markedBy first).due rule) =
      b.markedBy fun p t => first p t || b.due rule p t := by
  rw [markedByDue]
  refine congrArg (Block.mk b.owner) ?_
  rw [markedBy, unmarkedEntries unmarked, spacedTwice]

theorem wantedMarked {b : Block} (unmarked : b.markers = []) (rule : BlockRule)
    (first : Statement → Statement → Bool) :
    wantedAll ((b.markedBy first).due rule) none (b.markedBy first).entries =
      wantedAll (fun p t => b.due rule p t && !first p t) none b.entries := by
  rw [markedByDue, markedBy, unmarkedEntries unmarked, wantedTwice]

end Block
end ExitSpacing
