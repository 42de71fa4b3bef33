import ExitSpacing.Proofs.Composition

/-! A source with another one behind it. Where the first ends with a line feed of its own, no
decision and no edit looks across the seam, so the two are formatted as they are each alone. -/
namespace ExitSpacing
open Bytes

/-- The empty source, or one whose last line is ended by a line feed without a carriage return. -/
def EndsLine (source : Bytes) : Prop :=
  source = [] ∨ ∃ front, source = front ++ [lineFeed] ∧ front.getLast? ≠ some carriageReturn

/-- How far a source moves what stands behind it. -/
structure Lead where
  bytes : Nat
  lines : Nat
  blocks : Nat

def Lead.of (source : Bytes) (blocks : List Block) : Lead := ⟨source.length, lineFeeds source, blocks.length⟩

def Statement.behind (lead : Lead) (s : Statement) : Statement :=
  { s with
    id := ⟨s.id.block + lead.blocks, s.id.index⟩
    startLine := s.startLine + lead.lines
    endLine := s.endLine + lead.lines
    startByte := s.startByte + lead.bytes
    endByte := s.endByte + lead.bytes }

def Marker.behind (lead : Lead) (m : Marker) : Marker := ⟨m.target.behind lead, m.predecessor.behind lead⟩

def Entry.behind (lead : Lead) : Entry → Entry
  | .statement s => .statement (s.behind lead)
  | .marker m => .marker (m.behind lead)

def Block.behind (lead : Lead) (b : Block) : Block := { b with entries := b.entries.map (Entry.behind lead) }

def Edit.behind (bytes : Nat) (e : Edit) : Edit := ⟨e.start + bytes, e.stop + bytes, e.text⟩

def Change.behind (lines : Nat) (c : Change) : Change :=
  { c with line := c.line + lines, line_pos := Nat.lt_of_lt_of_le c.line_pos (Nat.le_add_right ..) }

section
variable {α : Type}

theorem takeWhileFront {p : α → Bool} {xs : List α} (stops : ∃ x ∈ xs, p x = false) (ys : List α) :
    (xs ++ ys).takeWhile p = xs.takeWhile p := by
  rw [List.takeWhile_append, if_neg]
  intro whole
  obtain ⟨x, mem, fails⟩ := stops
  have all : xs.takeWhile p = xs := (List.takeWhile_prefix p).eq_of_length whole
  have holds := List.all_eq_true.mp (List.all_takeWhile (p := p) (l := xs)) x (all.symm ▸ mem)
  rw [fails] at holds
  cases holds

end

/-! The bytes in front of the seam. -/
section
variable {a b : Bytes}

theorem takeFront {stop : Nat} (within : stop ≤ a.length) : (a ++ b).take stop = a.take stop :=
  List.take_append_of_le_length within

theorem cutFront {start stop : Nat} (within : stop ≤ a.length) : cut (a ++ b) start stop = cut a start stop := by
  rw [cut, cut, ← List.drop_take, ← List.drop_take, takeFront within]

theorem lineStartFront {offset : Nat} (within : offset ≤ a.length) :
    lineStart (a ++ b) offset = lineStart a offset := by
  simp only [lineStart, takeFront within]

theorem ofMarkerFront {m : Marker} (gap : m.Gap a) : Edit.ofMarker (a ++ b) m = Edit.ofMarker a m := by
  have inside := solidInside gap.target.first
  have before := lineStartLe a m.target.startByte
  have ending : Edit.lineEnding (a ++ b) (lineStart a m.target.startByte) =
      Edit.lineEnding a (lineStart a m.target.startByte) := by
    simp only [Edit.lineEnding, cutFront (a := a) (b := b) (Nat.le_trans before (Nat.le_of_lt inside))]
  have indent : ((a ++ b).drop (lineStart a m.target.startByte)).takeWhile isIndent =
      (a.drop (lineStart a m.target.startByte)).takeWhile isIndent := by
    obtain ⟨c, there, solid⟩ := gap.target.first
    rw [List.drop_append_of_le_length (by omega)]
    refine takeWhileFront ⟨c, ?_, ?_⟩ b
    · refine List.mem_of_getElem? (i := m.target.startByte - lineStart a m.target.startByte) ?_
      rw [List.getElem?_drop, Nat.add_sub_cancel' before, there]
    · refine Bool.eq_false_iff.mpr fun indents => ?_
      rw [LineHead.indentBlank indents] at solid
      cases solid
  simp only [Edit.ofMarker, lineStartFront (a := a) (b := b) (Nat.le_of_lt inside), ending, indent,
    cutFront (a := a) (b := b) (Nat.le_of_lt inside)]

end

/-! The bytes behind it. -/
section
variable {a : Bytes} (b : Bytes)

theorem dropBehind (start : Nat) : (a ++ b).drop (start + a.length) = b.drop start := by
  rw [Nat.add_comm, List.drop_length_add_append]

theorem cutBehind (start stop : Nat) : cut (a ++ b) (start + a.length) (stop + a.length) = cut b start stop := by
  rw [cut, cut, dropBehind, Nat.add_sub_add_right]

theorem EndsLine.stops (ends : EndsLine a) : a.reverse.takeWhile (· != lineFeed) = [] := by
  obtain rfl | ⟨front, rfl, -⟩ := ends
  · rfl
  · simp

theorem EndsLine.lineStart (ends : EndsLine a) (offset : Nat) :
    lineStart (a ++ b) (offset + a.length) = lineStart b offset + a.length := by
  have taken : (a ++ b).take (offset + a.length) = a ++ b.take offset := by
    rw [Nat.add_comm, List.take_length_add_append]
  have same : ((b.take offset).reverse ++ a.reverse).takeWhile (· != lineFeed) =
      (b.take offset).reverse.takeWhile (· != lineFeed) := by
    rw [List.takeWhile_append, ends.stops, List.append_nil]
    split
    · rename_i whole
      exact ((List.takeWhile_prefix _).eq_of_length whole).symm
    · rfl
  have short : ((b.take offset).reverse.takeWhile (· != lineFeed)).length ≤ (b.take offset).length := by
    simpa using (List.takeWhile_prefix (l := (b.take offset).reverse) (· != lineFeed)).length_le
  simp only [Bytes.lineStart, taken, List.reverse_append, same, List.length_append]
  omega

theorem EndsLine.noReturn (ends : EndsLine a) (some : a ≠ []) {first : Nat} (early : first < 2) :
    cut (a ++ b) (first + a.length - 2) (first + a.length) ≠ [carriageReturn, lineFeed] := by
  obtain ⟨front, rfl, last⟩ := ends.resolve_left some
  have starts (c : UInt8) (rest : Bytes) (init : Bytes) (other : c ≠ carriageReturn) :
      cut (init ++ c :: rest) (0 + init.length) (2 + init.length) ≠ [carriageReturn, lineFeed] := by
    rw [cutBehind]
    exact fun same => other (List.cons.inj same).1
  rw [List.append_assoc, List.length_append, List.length_singleton]
  obtain rfl | rfl : first = 0 ∨ first = 1 := by omega
  · obtain rfl | ⟨init, c, rfl⟩ := List.eq_nil_or_concat front
    · exact fun same => absurd (congrArg List.length same) (by simp [cut])
    · simp only [List.concat_eq_append] at *
      have there := starts c ([lineFeed] ++ b) init fun same => last (by simp [same])
      rw [List.append_assoc, List.length_append, List.length_singleton]
      rw [show 0 + (init.length + 1 + 1) - 2 = 0 + init.length by omega,
        show 0 + (init.length + 1 + 1) = 2 + init.length by omega]
      exact there
  · have there := starts lineFeed b front (by decide)
    rw [show 1 + (front.length + 1) - 2 = 0 + front.length by omega,
      show 1 + (front.length + 1) = 2 + front.length by omega]
    exact there

theorem EndsLine.lineEnding (ends : EndsLine a) (first : Nat) :
    Edit.lineEnding (a ++ b) (first + a.length) = Edit.lineEnding b first := by
  by_cases some : a = []
  · subst some
    rfl
  by_cases early : first < 2
  · have short : cut b (first - 2) first ≠ [carriageReturn, lineFeed] := by
      intro same
      have long := congrArg List.length same
      rw [cutLength, List.length_cons, List.length_singleton] at long
      omega
    simp only [Edit.lineEnding, beq_iff_eq, if_neg (ends.noReturn b some early), if_neg short]
  · have same : first + a.length - 2 = first - 2 + a.length := by omega
    simp only [Edit.lineEnding, same, cutBehind]

theorem ofMarkerBehind (ends : EndsLine a) (m : Marker) {lead : Lead} (long : lead.bytes = a.length) :
    Edit.ofMarker (a ++ b) (m.behind lead) = (Edit.ofMarker b m).behind a.length := by
  simp only [Edit.ofMarker, Marker.behind, Statement.behind, long, ends.lineStart, ends.lineEnding, cutBehind,
    dropBehind]
  split <;> rfl

end

/-! The decisions behind it. -/
section
variable {lead : Lead}

theorem statementsBehind (lead : Lead) (b : Block) :
    (b.behind lead).statements = b.statements.map (Statement.behind lead) := by
  rw [Block.statements, Block.behind, List.filterMap_map, Block.statements, List.map_filterMap]
  refine List.filterMap_congr fun e _ => ?_
  cases e <;> rfl

theorem dueBehind (lead : Lead) (b : Block) (rule : BlockRule) (p t : Statement) :
    (b.behind lead).due rule (p.behind lead) (t.behind lead) = b.due rule p t := by
  have nonempty : (b.behind lead).statements.countP (fun s => !s.isEmpty) =
      b.statements.countP fun s => !s.isEmpty := by
    rw [statementsBehind, List.countP_map]
    rfl
  have first : (b.behind lead).entries.head?.bind Entry.statement? =
      (b.entries.head?.bind Entry.statement?).map (Statement.behind lead) := by
    rw [Block.behind, List.head?_map]
    cases b.entries.head? with
    | none => rfl
    | some e => cases e <;> rfl
  have roomy : (b.behind lead).roomy rule (t.behind lead) = b.roomy rule t := by
    simp only [Block.roomy, nonempty, first]
    cases rule.policy with
    | statements => rfl
    | lines =>
      cases b.entries.head?.bind Entry.statement? with
      | none => rfl
      | some s =>
        refine decide_eq_decide.mpr ?_
        simp only [Statement.behind]
        omega
  have near : (t.behind lead).startLine ≤ (p.behind lead).endLine + 1 ↔ t.startLine ≤ p.endLine + 1 := by
    simp only [Statement.behind]
    omega
  simp only [Block.due, roomy, near]
  rfl

theorem wantedBehind {due moved : Statement → Statement → Bool}
    (same : ∀ p t, moved (p.behind lead) (t.behind lead) = due p t) (before : Option Entry) (es : List Entry) :
    Entry.wantedAll moved (before.map (Entry.behind lead)) (es.map (Entry.behind lead)) =
      (Entry.wantedAll due before es).map (Marker.behind lead) := by
  induction es generalizing before with
  | nil => rfl
  | cons e rest ih =>
    rw [List.map_cons, Entry.wantedAll, Entry.wantedAll, List.map_append, ← ih (some e)]
    congr 1
    cases before with
    | none => rfl
    | some first =>
      cases first with
      | marker => rfl
      | statement p =>
        cases e with
        | marker => rfl
        | statement t =>
          simp only [Option.map_some, Entry.behind, Entry.wanted, same]
          cases due p t <;> rfl

theorem Document.wantsAppend (unit : String) (a b whole : Bytes) (front back : List Block) (rule : BlockRule) :
    (⟨unit, whole, front ++ back.map (Block.behind lead)⟩ : Document).wants rule =
      (⟨unit, a, front⟩ : Document).wants rule ++
        ((⟨unit, b, back⟩ : Document).wants rule).map (Marker.behind lead) := by
  rw [wants, wants, wants, List.flatMap_append, List.flatMap_map, List.map_flatMap]
  congr 1
  refine List.flatMap_congr fun c _ => ?_
  exact wantedBehind (dueBehind lead c rule) none c.entries

end

/-! The edits on both sides. -/
section
variable {a : Bytes}

theorem applyBehind (s : Bytes) (e : Edit) : Edit.apply (a ++ s) (e.behind a.length) = a ++ Edit.apply s e := by
  have front : (a ++ s).take (e.start + a.length) = a ++ s.take e.start := by
    rw [Nat.add_comm, List.take_length_add_append]
  simp only [Edit.apply, Edit.behind, front, dropBehind, List.append_assoc]

theorem foldBehind (edits : List Edit) (s : Bytes) :
    (edits.map (Edit.behind a.length)).foldl Edit.apply (a ++ s) = a ++ edits.foldl Edit.apply s := by
  induction edits generalizing s with
  | nil => rfl
  | cons e rest ih => rw [List.map_cons, List.foldl_cons, applyBehind, ih, List.foldl_cons]

theorem fromEndAppend {front : List Edit} {bytes : Nat} (before : ∀ e ∈ front, e.start < bytes) (back : List Edit) :
    Edit.fromEnd (front ++ back.map (Edit.behind bytes)) =
      (Edit.fromEnd back).map (Edit.behind bytes) ++ Edit.fromEnd front := by
  have after : ∀ e ∈ front, ∀ f ∈ back.map (Edit.behind bytes), decide (f.start ≤ e.start) = false := by
    intro e inFront f inBack
    obtain ⟨g, -, rfl⟩ := List.mem_map.mp inBack
    have early := before e inFront
    exact decide_eq_false (by simp only [Edit.behind]; omega)
  have moved : (back.map (Edit.behind bytes)).mergeSort (fun e f => decide (f.start ≤ e.start)) =
      (Edit.fromEnd back).map (Edit.behind bytes) := by
    refine (List.map_mergeSort fun e _ f _ => ?_).symm
    simp only [Edit.behind, Nat.add_le_add_iff_right]
  refine (sortedSwap ?_ ?_ after).trans (congrArg (· ++ Edit.fromEnd front) moved)
  · simp only [decide_eq_true_eq]; omega
  · simp only [Bool.or_eq_true, decide_eq_true_eq]; omega

end

namespace Document

theorem appliedWants {d : Document} (fresh : d.Fresh) (rule : BlockRule) :
    (d.apply rule).1.text = (Edit.fromEnd ((d.wants rule).map (Edit.ofMarker d.source))).foldl Edit.apply d.source := by
  obtain ⟨log, ran, -⟩ := applyLogged fresh rule
  rw [ran, text, edits, wantsMarked fresh]
  rfl

theorem textAppend (unit : String) {a : Bytes} (b : Bytes) {front back : List Block} (rule : BlockRule)
    (freshFront : (⟨unit, a, front⟩ : Document).Fresh) (freshBack : (⟨unit, b, back⟩ : Document).Fresh)
    (fresh : (⟨unit, a ++ b, front ++ back.map (Block.behind (.of a front))⟩ : Document).Fresh)
    (ends : EndsLine a) (laid : Laid a front) :
    ((⟨unit, a ++ b, front ++ back.map (Block.behind (.of a front))⟩ : Document).apply rule).1.text =
      ((⟨unit, a, front⟩ : Document).apply rule).1.text ++ ((⟨unit, b, back⟩ : Document).apply rule).1.text := by
  obtain ⟨gaps, stacked⟩ := wantsGap freshFront laid rule
  have inside : ∀ e ∈ ((⟨unit, a, front⟩ : Document).wants rule).map (Edit.ofMarker a),
      e.start < a.length ∧ e.stop ≤ a.length := by
    intro e mem
    obtain ⟨m, held, rfl⟩ := List.mem_map.mp mem
    have window := Edit.ofMarkerWindow (gaps m held)
    have solid := solidInside (gaps m held).target.first
    dsimp only at window solid
    omega
  have edits : ((⟨unit, a ++ b, front ++ back.map (Block.behind (.of a front))⟩ : Document).wants rule).map
      (Edit.ofMarker (a ++ b)) = ((⟨unit, a, front⟩ : Document).wants rule).map (Edit.ofMarker a) ++
        (((⟨unit, b, back⟩ : Document).wants rule).map (Edit.ofMarker b)).map (Edit.behind a.length) := by
    rw [wantsAppend unit a b, List.map_append, List.map_map, List.map_map]
    congr 1
    · exact List.map_congr_left fun m mem => ofMarkerFront (gaps m mem)
    · exact List.map_congr_left fun m _ => ofMarkerBehind b ends m rfl
  have joined (rest : Bytes) := Edit.foldJoined stacked (Nat.le_refl a.length)
    (fun e mem => (inside e (List.mem_mergeSort.mp mem)).2) rest
  have alone := joined []
  rw [List.take_length, List.append_nil, List.append_nil] at alone
  rw [appliedWants fresh, appliedWants freshFront, appliedWants freshBack, edits,
    fromEndAppend fun e mem => (inside e mem).1, List.foldl_append, foldBehind, alone]
  have both := joined
    ((Edit.fromEnd (((⟨unit, b, back⟩ : Document).wants rule).map (Edit.ofMarker b))).foldl Edit.apply b)
  rw [List.take_length] at both
  exact both

end Document

theorem EndsLine.startLine {source : Bytes} (ends : EndsLine source) {s : Statement} (covers : s.Covers source)
    (located : s.Located source) : s.startLine ≤ lineFeeds source := by
  have inside := solidInside covers.first
  obtain rfl | ⟨front, rfl, -⟩ := ends
  · cases inside
  · rw [List.length_append, List.length_singleton] at inside
    have fewer := (List.take_sublist s.startByte front).count_le lineFeed
    rw [located.startLine, lineAt, List.take_append_of_le_length (by omega)]
    simpa [lineFeeds] using fewer

theorem rowsWithin {unit : String} {source : Bytes} {blocks : List Block} {rule : BlockRule} {log : List Change}
    (fresh : (⟨unit, source, blocks⟩ : Document).Fresh) (ends : EndsLine source) (laid : Laid source blocks)
    (located : ∀ b ∈ blocks, ∀ s ∈ b.statements, s.Located source)
    (rows : log.map Change.row = ((⟨unit, source, blocks⟩ : Document).wants rule).map fun m => m.target.row unit) :
    ∀ c ∈ log, c.line ≤ lineFeeds source := by
  intro c mem
  have named := List.mem_map_of_mem (f := Change.row) mem
  rw [rows, ← Document.wantsMarked fresh, Document.markedGaps fresh] at named
  obtain ⟨m, held, row⟩ := List.mem_map.mp named
  obtain ⟨g, asked, rfl⟩ := List.mem_map.mp held
  obtain ⟨inside, there⟩ := gapsOfMem (List.mem_filter.mp asked).1
  have target := (neighboursMem there).2
  have line : c.line = g.2.target.startLine := (congrArg (fun row => row.2.2.1) row).symm
  rw [line]
  exact ends.startLine (laid.spans g.1 inside _ target) (located g.1 inside _ target)

theorem rowsAppend {unit : String} {a b : Bytes} {front back : List Block} {rule : BlockRule}
    {logA logB logAll : List Change}
    (rowsA : logA.map Change.row = ((⟨unit, a, front⟩ : Document).wants rule).map fun m => m.target.row unit)
    (rowsB : logB.map Change.row = ((⟨unit, b, back⟩ : Document).wants rule).map fun m => m.target.row unit)
    (rows : logAll.map Change.row =
      ((⟨unit, a ++ b, front ++ back.map (Block.behind (.of a front))⟩ : Document).wants rule).map
        fun m => m.target.row unit) : logAll = logA ++ logB.map (Change.behind (lineFeeds a)) := by
  refine Change.rowInjective.list_map ?_
  rw [rows, Document.wantsAppend unit a b, List.map_append, List.map_append, ← rowsA]
  congr 1
  have moved := congrArg (List.map fun row => (row.1, row.2.1, row.2.2.1 + lineFeeds a, row.2.2.2)) rowsB
  rw [List.map_map, List.map_map] at moved ⊢
  exact moved.symm

theorem logAppend {logA logB : List Change} {lines : Nat} (within : ∀ c ∈ logA, c.line ≤ lines) :
    (logA ++ logB.map (Change.behind lines)).mergeSort Change.notAfter =
      logA.mergeSort Change.notAfter ++ (logB.mergeSort Change.notAfter).map (Change.behind lines) := by
  have moved : (logB.map (Change.behind lines)).mergeSort Change.notAfter =
      (logB.mergeSort Change.notAfter).map (Change.behind lines) := by
    refine (List.map_mergeSort fun c _ d _ => ?_).symm
    rw [Bool.eq_iff_iff]
    simp only [Change.notAfter, Bool.or_eq_true, Bool.and_eq_true, decide_eq_true_eq, beq_iff_eq]
    simp only [Change.behind]
    omega
  rw [sortedAppend Change.notAfterTrans Change.notAfterTotal, moved]
  intro c front d back
  obtain ⟨e, -, rfl⟩ := List.mem_map.mp back
  have early := within c front
  have late := e.line_pos
  have before : c.line < e.line + lines := by omega
  simp [Change.notAfter, Change.behind, before]

/-- What is trusted of a parser about two sources, one behind the other: the statements of the
first are laid out in it and carry their lines, both together have the blocks of the first and,
moved, those of the second, and the rendered texts are accepted. -/
structure Appends (parser : Parser) (unit : String) (rule : BlockRule) (a b : Bytes) : Prop where
  accepted : ∀ source ∈ [a, b, a ++ b], (parser source).hasError = false
  laid : Laid a (parser a).blocks
  located : ∀ c ∈ (parser a).blocks, ∀ s ∈ c.statements, s.Located a
  blocks : (parser (a ++ b)).blocks =
    (parser a).blocks ++ (parser b).blocks.map (Block.behind (.of a (parser a).blocks))
  rendered : ∀ source ∈ [a, b, a ++ b],
    (parser ((⟨unit, source, (parser source).blocks⟩ : Document).apply rule).1.text).hasError = false

/-- Formatting distributes over concatenation where the first source ends with a line feed of
its own: the contents stand one behind the other, and so do the changes, those of the second
moved by the lines of the first as it was. -/
theorem formatDistributes {parser : Parser} {unit : String} {rule : BlockRule} {a b : Bytes} (ends : EndsLine a)
    (appends : Appends parser unit rule a b) :
    ∃ first second both, format parser rule unit a = .ok first ∧ format parser rule unit b = .ok second ∧
      format parser rule unit (a ++ b) = .ok both ∧ both.content = first.content ++ second.content ∧
      both.modified = (first.modified || second.modified) ∧
      both.changes = first.changes ++ second.changes.map (Change.behind (lineFeeds a)) := by
  obtain ⟨logA, ranA, rowsA⟩ := formatLogged rule (appends.accepted a (by simp)) (appends.rendered a (by simp))
  obtain ⟨logB, ranB, rowsB⟩ := formatLogged rule (appends.accepted b (by simp)) (appends.rendered b (by simp))
  obtain ⟨log, ran, rows⟩ :=
    formatLogged rule (appends.accepted (a ++ b) (by simp)) (appends.rendered (a ++ b) (by simp))
  have freshA := treeFresh unit a (parser a)
  have freshB := treeFresh unit b (parser b)
  have fresh := treeFresh unit (a ++ b) (parser (a ++ b))
  refine ⟨_, _, _, ranA, ranB, ran, ?_, ?_, ?_⟩
  · rw [appends.blocks] at fresh ⊢
    exact Document.textAppend unit b rule freshA freshB fresh ends appends.laid
  · dsimp only
    rw [Document.appliedModified fresh, Document.appliedModified freshA, Document.appliedModified freshB,
      appends.blocks, Document.wantsAppend unit a b, ← Bool.not_and]
    congr 1
    rw [Bool.eq_iff_iff, Bool.and_eq_true, List.isEmpty_iff, List.isEmpty_iff, List.isEmpty_iff, List.append_eq_nil_iff,
      List.map_eq_nil_iff]
  · rw [appends.blocks] at rows
    rw [rowsAppend rowsA rowsB rows]
    exact logAppend (rowsWithin freshA ends appends.laid appends.located rowsA)

def frontSource : Bytes := ofString "func f() \x7b\n\ta()\n\treturn\n\x7d\n"
def backSource : Bytes := ofString "func g() \x7b b(); return \x7d\n"

def frontSpaced : Bytes := ofString "func f() \x7b\n\ta()\n\n\treturn\n\x7d\n"
def backSpaced : Bytes := ofString "func g() \x7b b()\n\nreturn \x7d\n"

def frontBlocks : List Block :=
  [⟨"block", [.statement ⟨⟨0, 0⟩, "expression_statement", .plain, 2, 2, 2, 12, 15⟩,
    .statement ⟨⟨0, 1⟩, "return_statement", .returning, 3, 3, 2, 17, 23⟩]⟩]

def backBlocks : List Block :=
  [⟨"block", [.statement ⟨⟨0, 0⟩, "expression_statement", .plain, 1, 1, 12, 11, 14⟩,
    .statement ⟨⟨0, 1⟩, "return_statement", .returning, 1, 1, 17, 16, 22⟩]⟩]

theorem seamParsed : (Go.parse frontSource).blocks = frontBlocks ∧ (Go.parse backSource).blocks = backBlocks ∧
    (Go.parse (frontSource ++ backSource)).blocks =
      frontBlocks ++ backBlocks.map (Block.behind (.of frontSource frontBlocks)) := by
  decide +kernel

theorem seamSpaced (unit : String) :
    ((⟨unit, frontSource, (Go.parse frontSource).blocks⟩ : Document).apply ⟨0, .lines⟩).1.text = frontSpaced ∧
      ((⟨unit, backSource, (Go.parse backSource).blocks⟩ : Document).apply ⟨0, .lines⟩).1.text = backSpaced ∧
      ((⟨unit, frontSource ++ backSource, (Go.parse (frontSource ++ backSource)).blocks⟩ : Document).apply
        ⟨0, .lines⟩).1.text = frontSpaced ++ backSpaced := by
  obtain ⟨front, back, both⟩ := seamParsed
  refine ⟨?_, ?_, ?_⟩
  · rw [front, (Document.appliedAs unit front (.refl _) ⟨by decide +kernel, by decide +kernel⟩ (by decide +kernel)).1]
    decide +kernel
  · rw [back, (Document.appliedAs unit back (.refl _) ⟨by decide +kernel, by decide +kernel⟩ (by decide +kernel)).1]
    decide +kernel
  · -- The exit of the second source stands behind that of the first, so its edit comes first.
    rw [both, (Document.appliedAs unit both (List.reverse_perm _).symm ⟨by decide +kernel, by decide +kernel⟩
      (by decide +kernel)).1]
    decide +kernel

theorem seamAppends : Appends Go.parse "f.go" ⟨0, .lines⟩ frontSource backSource := by
  obtain ⟨front, back, both⟩ := seamParsed
  obtain ⟨textFront, textBack, textBoth⟩ := seamSpaced "f.go"
  have accepted : ∀ source ∈ [frontSource, backSource, frontSource ++ backSource, frontSpaced, backSpaced,
      frontSpaced ++ backSpaced], (Go.parse source).hasError = false := by decide +kernel
  refine ⟨fun source mem => accepted source (by simp at mem ⊢; tauto), ?_, ?_, by rw [both, front, back], ?_⟩
  · rw [front]
    decide +kernel
  · rw [front]
    decide +kernel
  · intro source mem
    simp only [List.mem_cons, List.not_mem_nil, or_false] at mem
    obtain rfl | rfl | rfl := mem
    · rw [textFront]
      exact accepted _ (by simp)
    · rw [textBack]
      exact accepted _ (by simp)
    · rw [textBoth]
      exact accepted _ (by simp)

theorem seamDistributes : EndsLine frontSource ∧ Appends Go.parse "f.go" ⟨0, .lines⟩ frontSource backSource ∧
    ∃ first second both, format Go.parse ⟨0, .lines⟩ "f.go" frontSource = .ok first ∧
      format Go.parse ⟨0, .lines⟩ "f.go" backSource = .ok second ∧
      format Go.parse ⟨0, .lines⟩ "f.go" (frontSource ++ backSource) = .ok both ∧
      both.content = frontSpaced ++ backSpaced ∧
      both.changes = first.changes ++ second.changes.map (Change.behind 4) := by
  have ends : EndsLine frontSource := .inr ⟨frontSource.dropLast, by decide +kernel, by decide +kernel⟩
  obtain ⟨first, second, both, ranFirst, ranSecond, ranBoth, -, -, changes⟩ := formatDistributes ends seamAppends
  obtain ⟨whole, ran, content, -⟩ := formatText ⟨0, .lines⟩ (seamAppends.accepted (frontSource ++ backSource) (by simp))
    (seamAppends.rendered (frontSource ++ backSource) (by simp))
  obtain rfl : both = whole := Except.ok.inj (ranBoth.symm.trans ran)
  have lines : lineFeeds frontSource = 4 := by decide +kernel
  rw [(seamSpaced "f.go").2.2] at content
  rw [lines] at changes
  exact ⟨ends, seamAppends, first, second, both, ranFirst, ranSecond, ranBoth, content, changes⟩

end ExitSpacing
