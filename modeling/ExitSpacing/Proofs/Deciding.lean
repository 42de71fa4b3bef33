import ExitSpacing.Proofs.Lines

/-! What a rule decides, in terms of the bytes of a source: statements that were built from nodes
whose points are those of the source tell by their lines how many line feeds stand between them. -/
namespace ExitSpacing
open Bytes

structure Point.Of (source : Bytes) (p : Point) : Prop where
  inside : p.offset ≤ source.length
  row : p.row = lineFeeds (source.take p.offset)
  column : p.column = p.offset - lineStart source p.offset

namespace Statement

/-- The statement of a node whose points are those of the source. -/
def Built (source : Bytes) (s : Statement) : Prop :=
  ∃ id n, s = ofNode id n ∧ n.start.Of source ∧ n.stop.Of source ∧ n.start.offset ≤ n.stop.offset

/-- The last byte of the span; of an empty one, where it ends. -/
def lastByte (s : Statement) : Nat := if s.startByte < s.endByte then s.endByte - 1 else s.endByte

def Exits (s : Statement) : Prop := s.kind = "return_statement" ∨ ∃ keyword, (s.kind, keyword) ∈ branchKeywords

end Statement

section
variable {source : Bytes}

theorem lineAtStart {b : Nat} (starts : lineStart source b = b) (positive : 0 < b) :
    lineFeeds (source.take b) = lineAt source (b - 1) := by
  obtain zero | ⟨v, front, long⟩ := lineOpens source b
  · omega
  · rw [starts] at front long
    have back : source.take (b - 1) = v := by
      rw [← Nat.min_eq_left (Nat.sub_le b 1), ← List.take_take, front, show b - 1 = v.length by omega, List.take_left]
    rw [lineAt, back, front, lineFeeds, List.count_append, List.count_singleton_self]
    rfl

theorem lastLineAt {n : Node} (stop : n.stop.Of source) :
    n.lastLine = lineAt source (if n.start.offset < n.stop.offset then n.stop.offset - 1 else n.stop.offset) := by
  have before := lineStartLe source n.stop.offset
  have column := stop.column
  by_cases some : n.start.offset < n.stop.offset
  · rw [if_pos some, Node.lastLine, decide_eq_true some, Bool.and_true, stop.row]
    split
    · rename_i starts
      rw [beq_iff_eq] at starts
      exact lineAtStart (by omega) (by omega)
    · rename_i within
      rw [beq_iff_eq] at within
      exact (sameLine (by omega) (Nat.sub_le _ 1)).symm
  · rw [if_neg some, Node.lastLine, decide_eq_false some, Bool.and_false, if_neg Bool.false_ne_true, stop.row]
    rfl

namespace Statement
variable {s t : Statement}

theorem built : s.Built source ↔ s.startByte ≤ s.endByte ∧ s.endByte ≤ source.length ∧ s.role = .ofKind s.kind ∧
    s.startLine = lineAt source s.startByte ∧ s.endLine = lineAt source s.lastByte ∧
    s.startColumn = columnAt source s.startByte := by
  constructor
  · rintro ⟨id, n, rfl, start, stop, order⟩
    refine ⟨order, stop.inside, rfl, congrArg Nat.succ start.row, lastLineAt stop, congrArg Nat.succ start.column⟩
  · rintro ⟨order, inside, role, startLine, endLine, startColumn⟩
    let place (offset : Nat) : Point := ⟨lineFeeds (source.take offset), offset - lineStart source offset, offset⟩
    have stands : ∀ offset ≤ source.length, (place offset).Of source := fun _ within => ⟨within, rfl, rfl⟩
    let n : Node := .mk ⟨s.kind, true, false, none, place s.startByte, place s.endByte⟩ []
    have last : n.lastLine = s.endLine := (lastLineAt (n := n) (stands _ inside)).trans endLine.symm
    refine ⟨s.id, n, ?_, stands _ (Nat.le_trans order inside), stands _ inside, order⟩
    rw [ofNode, last, show n.kind = s.kind from rfl, ← role]
    obtain ⟨id, kind, role, startLine, endLine, startColumn, startByte, endByte⟩ := s
    exact Statement.mk.injEq .. ▸ ⟨rfl, rfl, rfl, ‹_›, rfl, ‹_›, rfl, rfl⟩

instance (source s) : Decidable (Built source s) := decidable_of_iff _ built.symm

theorem exits (role : s.role = .ofKind s.kind) : s.isExit = true ↔ s.Exits := by
  rw [isExit, role, Role.ofKind, Exits]
  by_cases returns : s.kind = "return_statement"
  · rw [if_pos (beq_iff_eq.mpr returns)]
    exact iff_of_true rfl (.inl returns)
  · rw [if_neg (by simpa using returns), or_iff_right returns]
    have named : branchKeywords.any (·.1 == s.kind) = true ↔ ∃ keyword, (s.kind, keyword) ∈ branchKeywords := by
      rw [List.any_eq_true, Prod.exists, exists_comm]
      simp only [beq_iff_eq, exists_eq_right]
    rw [← named]
    cases branchKeywords.any (·.1 == s.kind) <;> decide

end Statement

namespace Block
variable {b : Block} {rule : BlockRule} {i : Nat} {p t : Statement}

/-- The size that a rule asks for in front of `t`, the statement at `i`: so many line feeds behind
the start of the first statement, or more than so many others that are not empty. -/
def Reaches (source : Bytes) (b : Block) (rule : BlockRule) (i : Nat) (t : Statement) : Prop :=
  match rule.policy with
  | .lines => ∃ first, b.statements[0]? = some first ∧
      rule.blockSize ≤ lineFeeds (cut source first.startByte t.startByte)
  | .statements => rule.blockSize < (b.statements.eraseIdx i).countP fun s => s.kind != "empty_statement"

theorem siblingsOf (unmarked : b.markers = []) (i : Nat) :
    b.siblings i = (b.statements.eraseIdx i).countP fun s => s.kind != "empty_statement" := by
  rw [siblings]
  conv_lhs => rw [unmarkedEntries unmarked, List.eraseIdx_map, List.filterMap_map]
  exact congrArg (List.countP _) List.filterMap_some

section
variable (built : ∀ s ∈ b.statements, s.Built source) (ascending : b.statements.Pairwise fun s t => s.endByte ≤ t.startByte)
include built ascending

theorem headBefore {first : Statement} (head : b.statements[0]? = some first) (there : b.statements[i]? = some t) :
    first.startByte ≤ t.startByte := by
  cases i with
  | zero =>
    obtain rfl : first = t := Option.some.inj (head.symm.trans there)
    exact Nat.le_refl _
  | succ i =>
    obtain ⟨inFirst, rfl⟩ := List.getElem?_eq_some_iff.mp head
    obtain ⟨inside, rfl⟩ := List.getElem?_eq_some_iff.mp there
    have order := (Statement.built.mp (built _ (List.getElem_mem inFirst))).1
    exact Nat.le_trans order (List.pairwise_iff_getElem.mp ascending 0 (i + 1) inFirst inside (Nat.succ_pos i))

theorem reaches (unmarked : b.markers = []) (there : b.statements[i]? = some t) :
    b.longEnough rule i t = true ↔ b.Reaches source rule i t := by
  obtain ⟨size, policy⟩ := rule
  cases policy with
  | statements =>
    simp only [longEnough, Reaches, siblingsOf unmarked]
    exact decide_eq_true_iff
  | lines =>
    cases parts : b.statements with
    | nil => rw [parts] at there; cases there
    | cons first rest =>
      have head : b.statements[0]? = some first := by rw [parts]; rfl
      have entry : b.entries.head? = some (.statement first) := by
        rw [List.head?_eq_getElem?, unmarkedAt unmarked, head]
        rfl
      have before := headBefore built ascending head there
      have feeds := lineAtCut source before
      obtain ⟨-, -, -, line, -⟩ := Statement.built.mp (built t (List.mem_of_getElem? there))
      obtain ⟨-, -, -, opening, -⟩ := Statement.built.mp (built first (List.mem_of_getElem? head))
      simp only [longEnough, Reaches, entry, head, Option.bind_some, Entry.statement?, Option.some.injEq, exists_eq_left',
        decide_eq_true_eq]
      omega

theorem follows (before : b.statements[i]? = some p) (there : b.statements[i + 1]? = some t) :
    t.startLine ≤ p.endLine + 1 ↔ lineFeeds (cut source p.lastByte t.startByte) ≤ 1 := by
  obtain ⟨inP, rfl⟩ := List.getElem?_eq_some_iff.mp before
  obtain ⟨inT, rfl⟩ := List.getElem?_eq_some_iff.mp there
  have order := List.pairwise_iff_getElem.mp ascending i (i + 1) inP inT (Nat.lt_succ_self i)
  have last : b.statements[i].lastByte ≤ b.statements[i + 1].startByte := by
    unfold Statement.lastByte
    split <;> omega
  have feeds := lineAtCut source last
  obtain ⟨-, -, -, -, ending, -⟩ := Statement.built.mp (built _ (List.getElem_mem inP))
  obtain ⟨-, -, -, opening, -⟩ := Statement.built.mp (built _ (List.getElem_mem inT))
  omega

theorem inserts (unmarked : b.markers = []) (rule : BlockRule) (i : Nat) : b.shouldInsert rule i = true ↔
    ∃ p t, 0 < i ∧ b.statements[i - 1]? = some p ∧ b.statements[i]? = some t ∧ t.Exits ∧ b.Reaches source rule i t ∧
      lineFeeds (cut source p.lastByte t.startByte) ≤ 1 := by
  cases i with
  | zero => exact iff_of_false Bool.false_ne_true fun ⟨_, _, positive, _⟩ => Nat.lt_irrefl 0 positive
  | succ i =>
    cases there : b.statements[i + 1]? with
    | none =>
      rw [outside unmarked rule there]
      exact iff_of_false Bool.false_ne_true fun ⟨_, _, _, _, found, _⟩ => by cases found
    | some t =>
      have inside := (List.getElem?_eq_some_iff.mp there).1
      obtain ⟨p, before⟩ : ∃ p, b.statements[i]? = some p :=
        ⟨_, List.getElem?_eq_getElem (Nat.lt_of_succ_lt inside)⟩
      have here : b.entries[i + 1]? = some (.statement t) := by rw [unmarkedAt unmarked, there]; rfl
      have behind : b.entries[i]? = some (.statement p) := by rw [unmarkedAt unmarked, before]; rfl
      have role := (Statement.built.mp (built t (List.mem_of_getElem? there))).2.2.1
      simp only [shouldInsert, here, behind, Bool.and_eq_true, decide_eq_true_eq, Statement.exits role,
        reaches built ascending unmarked there, follows built ascending before there]
      constructor
      · rintro ⟨⟨exits, long⟩, near⟩
        exact ⟨p, t, Nat.succ_pos i, before, rfl, exits, long, near⟩
      · rintro ⟨q, u, -, found, same, exits, long, near⟩
        obtain rfl : p = q := Option.some.inj (before.symm.trans found)
        obtain rfl : t = u := Option.some.inj same
        exact ⟨⟨exits, long⟩, near⟩

end

/-- A rule asks for a blank line in front of an exit that is not the first, that the block reaches far
enough for, and that at most one line feed keeps apart from the last byte of the statement before it. So
it asks for none where a whole line stands between them already. -/
theorem decides (unmarked : b.markers = []) (built : ∀ s ∈ b.statements, s.Built source)
    (ascending : b.statements.Pairwise fun s t => s.endByte ≤ t.startByte) (rule : BlockRule) (i : Nat) :
    (b.shouldInsert rule i = true ↔ ∃ p t, 0 < i ∧ b.statements[i - 1]? = some p ∧ b.statements[i]? = some t ∧
      t.Exits ∧ b.Reaches source rule i t ∧ lineFeeds (cut source p.lastByte t.startByte) ≤ 1) ∧
    ∀ p t front line back, b.statements[i - 1]? = some p → b.statements[i]? = some t →
      cut source p.lastByte t.startByte = front ++ lineFeed :: (line ++ lineFeed :: back) →
      b.shouldInsert rule i = false := by
  have asks := inserts built ascending unmarked rule i
  refine ⟨asks, fun p t front line back before there apart => ?_⟩
  by_contra inserts
  rw [Bool.not_eq_false] at inserts
  obtain ⟨q, u, -, beforeQ, thereU, -, -, near⟩ := asks.mp inserts
  obtain rfl : p = q := Option.some.inj (before.symm.trans beforeQ)
  obtain rfl : t = u := Option.some.inj (there.symm.trans thereU)
  rw [apart, lineFeeds, List.count_append, List.count_cons_self, List.count_append, List.count_cons_self] at near
  omega

theorem layeredDecides : ∃ b ∈ (Go.parse layeredSource).blocks, b.markers = [] ∧
    (∀ s ∈ b.statements, s.Built layeredSource) ∧ (b.statements.Pairwise fun s t => s.endByte ≤ t.startByte) ∧
    ∃ first p t, b.statements = [first, p, t] ∧ t.Exits ∧
      lineFeeds (cut layeredSource first.startByte t.startByte) = 3 ∧
      lineFeeds (cut layeredSource p.lastByte t.startByte) = 1 ∧ b.shouldInsert ⟨3, .lines⟩ 2 = true := by
  let b := layeredBlocks[0]
  let first := b.statements[0]
  let p := b.statements[1]
  let t := b.statements[2]
  have built : ∀ s ∈ b.statements, s.Built layeredSource := by decide +kernel
  have ascending : b.statements.Pairwise fun s t => s.endByte ≤ t.startByte := by decide +kernel
  have whole : lineFeeds (cut layeredSource first.startByte t.startByte) = 3 := by decide +kernel
  have near : lineFeeds (cut layeredSource p.lastByte t.startByte) = 1 := by decide +kernel
  have mem : b ∈ (Go.parse layeredSource).blocks := by
    rw [layeredParsed.2.1]
    decide
  refine ⟨b, mem, rfl, built, ascending, first, p, t, rfl, .inl rfl, whole, near, ?_⟩
  exact (decides rfl built ascending ⟨3, .lines⟩ 2).1.mpr
    ⟨p, t, by decide, rfl, rfl, .inl rfl, ⟨first, rfl, Nat.le_of_eq whole.symm⟩, Nat.le_of_eq near⟩

end Block
end
end ExitSpacing
