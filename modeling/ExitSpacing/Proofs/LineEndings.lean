import ExitSpacing.Proofs.Lines

/-! The line endings of a rendered text. An insertion ends its lines as the line above its target
ends, so a text in CR LF stays one wherever there is a line above; on the first line of a source
there is none, and what is inserted there ends in bare line feeds. -/
namespace ExitSpacing
open Bytes

def Crlf (s : Bytes) : Prop := ∀ i, s[i]? = some lineFeed → ∃ j, i = j + 1 ∧ s[j]? = some carriageReturn

namespace LineHead

def closes (h : LineHead) : Bytes → Bool
  | [] => true
  | b :: rest => (b != lineFeed || h.turned) && (h.after b).closes rest

theorem closesAppend (h : LineHead) (a b : Bytes) : h.closes (a ++ b) = (h.closes a && (h.along a).closes b) := by
  induction a generalizing h with
  | nil => rfl
  | cons x rest ih => rw [List.cons_append, closes, closes, ih, Bool.and_assoc]; rfl

theorem closesBehind (a b : Bytes) : (fresh false).closes (a ++ b) = ((fresh false).closes a && (of a).closes b) :=
  closesAppend _ a b

theorem closesAt (h : LineHead) (s : Bytes) : h.closes s = true ↔
    ∀ i, s[i]? = some lineFeed → (i = 0 ∧ h.turned = true) ∨ ∃ j, i = j + 1 ∧ s[j]? = some carriageReturn := by
  induction s generalizing h with
  | nil => simp [closes]
  | cons b rest ih =>
    rw [closes, Bool.and_eq_true, ih, afterTurned]
    constructor
    · rintro ⟨here, later⟩ i there
      cases i with
      | zero =>
        obtain rfl : b = lineFeed := Option.some.inj there
        exact .inl ⟨rfl, by simpa using here⟩
      | succ i =>
        rcases later i there with ⟨rfl, turned⟩ | ⟨j, rfl, back⟩
        · exact .inr ⟨0, rfl, congrArg some (eq_of_beq turned)⟩
        · exact .inr ⟨j + 1, rfl, back⟩
    · intro each
      refine ⟨?_, fun i there => ?_⟩
      · by_cases feed : b = lineFeed
        · rcases each 0 (congrArg some feed) with ⟨-, turned⟩ | ⟨j, none, -⟩
          · rw [turned, Bool.or_true]
          · omega
        · rw [bne_iff_ne.mpr feed, Bool.true_or]
      · rcases each (i + 1) there with ⟨none, -⟩ | ⟨j, same, back⟩
        · omega
        · obtain rfl : i = j := Nat.succ.inj same
          cases i with
          | zero => exact .inl ⟨rfl, beq_iff_eq.mpr (Option.some.inj back)⟩
          | succ i => exact .inr ⟨i, rfl, back⟩

theorem closesLine (h : LineHead) {s : Bytes} (line : ∀ b ∈ s, b ≠ lineFeed) : h.closes s = true := by
  rw [closesAt]
  intro i there
  exact absurd rfl (line _ (List.mem_of_getElem? there))

theorem closesEnding (crlf : Bool) : (fresh crlf).closes (fresh crlf).ending = crlf := by cases crlf <;> rfl

theorem closesReturn (h : LineHead) : h.closes (fresh true).ending = true := by
  show h.closes [carriageReturn, lineFeed] = true
  simp only [closes, afterTurned, beq_self_eq_true, Bool.or_true, Bool.and_true]
  rfl

theorem closesEmpty (h : LineHead) (crlf : Bool) : h.closes ((fresh crlf).ending ++ (fresh crlf).ending) = crlf := by
  cases crlf with
  | true => rw [closesAppend, closesReturn, closesReturn]; rfl
  | false =>
    -- the first of two bare line feeds leaves a line that no carriage return stands on
    show ((_ || h.turned) && (false && true)) = false
    exact Bool.and_false _

end LineHead

theorem crlfCloses (s : Bytes) : Crlf s ↔ (LineHead.fresh false).closes s = true := by
  rw [LineHead.closesAt]
  refine forall₂_congr fun i _ => ⟨.inr, fun either => either.resolve_left ?_⟩
  rintro ⟨-, turned⟩
  cases turned

instance (s) : Decidable (Crlf s) := decidable_of_iff _ (crlfCloses s).symm

section
variable {source : Bytes}

theorem closesTake (closed : Crlf source) (stop : Nat) : (LineHead.fresh false).closes (source.take stop) = true := by
  have whole := (crlfCloses source).mp closed
  rw [← List.take_append_drop stop source, LineHead.closesBehind] at whole
  exact (Bool.and_eq_true_iff.mp whole).1

theorem closesCut (closed : Crlf source) {start stop : Nat} (le : start ≤ stop) :
    (LineHead.of (source.take start)).closes (cut source start stop) = true := by
  have whole := closesTake closed stop
  rw [← takeCut source le, LineHead.closesBehind] at whole
  exact (Bool.and_eq_true_iff.mp whole).2

theorem headCrlf (closed : Crlf source) {offset : Nat} {crlf : Bool}
    (start : LineHead.of (source.take (lineStart source offset)) = .fresh crlf) :
    crlf = decide (0 < lineStart source offset) := by
  rcases lineOpens source offset with zero | ⟨v, front, long⟩
  · rw [zero] at start ⊢
    exact (congrArg LineHead.crlf start).symm
  · have closes := closesTake closed (lineStart source offset)
    rw [front, LineHead.closesBehind] at closes
    have turned : (LineHead.of v).turned = true := by
      simpa [LineHead.closes] using (Bool.and_eq_true_iff.mp closes).2
    rw [front, LineHead.of, LineHead.feedFresh] at start
    rw [decide_eq_true (by omega), ← turned]
    exact (congrArg LineHead.crlf start).symm

variable {m : Marker}

theorem editCloses (closed : Crlf source) (gap : m.Gap source) :
    (LineHead.of (source.take (Edit.ofMarker source m).start)).closes (Edit.ofMarker source m).text =
      decide (0 < lineStart source m.target.startByte) := by
  obtain ⟨crlf, start, ending⟩ := headStart source m.target.startByte
  rw [← headCrlf closed start]
  cases opens : m.target.opensLine source with
  | true =>
    rw [Edit.ofMarkerOpens opens]
    dsimp only
    rw [start, ← ending, LineHead.closesEnding]
  | false =>
    have kept := closesCut closed gap.follows
    rw [← trimEndAppend isSeparator (cut source m.predecessor.endByte m.target.startByte), LineHead.closesAppend] at kept
    have indent : ∀ h : LineHead, h.closes (m.target.indent source) = true := by
      refine fun h => h.closesLine ?_
      rintro b mem rfl
      exact absurd (List.mem_takeWhile_imp mem) (by decide)
    rw [Edit.ofMarkerShares opens]
    dsimp only
    rw [LineHead.closesAppend, indent, Bool.and_true, List.append_assoc, LineHead.closesAppend,
      (Bool.and_eq_true_iff.mp kept).1, ← ending, LineHead.closesEmpty, Bool.true_and]

theorem stopWithin (gap : m.Gap source) {b : UInt8} (next : source[(Edit.ofMarker source m).stop]? = some b) :
    b ≠ lineFeed := by
  obtain ⟨c, there, solid⟩ := gap.target.first
  have atTarget : source[m.target.startByte]? = some b → b ≠ lineFeed := by
    rintro same rfl
    rw [there] at same
    cases same
    cases solid
  cases opens : m.target.opensLine source with
  | true =>
    rw [Edit.ofMarkerOpens opens] at next
    rcases Nat.lt_or_eq_of_le (lineStartLe source m.target.startByte) with before | same
    · have line := (lineParts source m.target.startByte).2
      rw [cutCons next before] at line
      exact line b List.mem_cons_self
    · exact atTarget (same ▸ next)
  | false =>
    rw [Edit.ofMarkerShares opens] at next
    exact atTarget next

theorem joinedCloses (closed : Crlf source) {ms : List Marker} (gaps : ∀ m ∈ ms, m.Gap source)
    (stacked : Edit.Stacked (ms.map (Edit.ofMarker source))) {stop : Nat} (bound : stop ≤ source.length)
    (before : ∀ m ∈ ms, (Edit.ofMarker source m).stop < stop) :
    (LineHead.fresh false).closes (Edit.joined source (ms.map (Edit.ofMarker source)) stop) = true ↔
      ∀ m ∈ ms, 0 < lineStart source m.target.startByte := by
  induction ms generalizing stop with
  | nil => exact iff_of_true (closesTake closed stop) fun m mem => by cases mem
  | cons m earlier ih =>
    have gap := gaps m List.mem_cons_self
    have fits := before m List.mem_cons_self
    have inside : (Edit.ofMarker source m).stop < source.length := by omega
    have next := List.getElem?_eq_getElem inside
    have start : (Edit.ofMarker source m).start ≤ source.length := by
      have := stacked.windows _ List.mem_cons_self
      omega
    have others : ∀ n ∈ earlier, n.Gap source := fun n mem => gaps n (List.mem_cons_of_mem m mem)
    have below : ∀ n ∈ earlier, (Edit.ofMarker source n).stop < (Edit.ofMarker source m).start :=
      fun n mem => (List.pairwise_cons.mp stacked.falling).1 _ (List.mem_map_of_mem mem)
    have front := joinedHead others stacked.tail start below
    -- the state behind the window and one byte is that of the source, and that byte is no line feed
    have behind := closesCut closed (show (Edit.ofMarker source m).stop + 1 ≤ stop from fits)
    rw [← editHead gap next] at behind
    rw [List.map_cons, Edit.joined, List.append_assoc, LineHead.closesBehind, front, LineHead.closesAppend,
      editCloses closed gap, cutCons next fits, LineHead.closes, bne_iff_ne.mpr (stopWithin gap next), Bool.true_or,
      Bool.true_and, behind, Bool.and_true, Bool.and_eq_true, ih others stacked.tail start below, decide_eq_true_eq,
      List.forall_mem_cons, and_comm]

theorem laterLine (source : Bytes) (offset : Nat) : 0 < lineStart source offset ↔ 1 < lineAt source offset := by
  have same := sameLine (Nat.le_refl _) (lineStartLe source offset)
  rcases lineOpens source offset with zero | ⟨v, front, long⟩
  · rw [zero] at same ⊢
    exact iff_of_false (Nat.lt_irrefl 0) (by rw [← same]; exact Nat.lt_irrefl 1)
  · have start : lineAt source (lineStart source offset) = lineFeeds (v ++ [lineFeed]) + 1 := congrArg _ (congrArg _ front)
    rw [lineFeeds, List.count_append, List.count_singleton_self] at start
    omega

end

section
variable {source : Bytes} (plain : carriageReturn ∉ source)
include plain

theorem cutPlain (start stop : Nat) : carriageReturn ∉ cut source start stop :=
  fun mem => plain (List.mem_of_mem_drop (List.mem_of_mem_take mem))

theorem editPlain (m : Marker) : carriageReturn ∉ (Edit.ofMarker source m).text := by
  have ending : Edit.lineEnding source (lineStart source m.target.startByte) = [lineFeed] := by
    let first := lineStart source m.target.startByte
    refine if_neg fun crlf => cutPlain plain (first - 2) first ?_
    rw [eq_of_beq crlf]
    exact List.mem_cons_self
  have feed : carriageReturn ∉ [lineFeed] := by decide
  cases opens : m.target.opensLine source with
  | true => rwa [Edit.ofMarkerOpens opens, ending]
  | false =>
    have kept : carriageReturn ∉ trimEnd isSeparator (cut source m.predecessor.endByte m.target.startByte) := by
      intro mem
      have gap := cutPlain plain m.predecessor.endByte m.target.startByte
      rw [← trimEndAppend isSeparator (cut source m.predecessor.endByte m.target.startByte)] at gap
      exact gap (List.mem_append_left _ mem)
    have indent : carriageReturn ∉ m.target.indent source :=
      fun mem => absurd (List.mem_takeWhile_imp mem) (by decide)
    rw [Edit.ofMarkerShares opens, ending]
    simp only [List.mem_append, kept, feed, indent, or_self, not_false_eq_true]

end

theorem Edit.foldPlain {edits : List Edit} (plain : ∀ e ∈ edits, carriageReturn ∉ e.text) {s : Bytes}
    (start : carriageReturn ∉ s) : carriageReturn ∉ edits.foldl apply s := by
  induction edits generalizing s with
  | nil => exact start
  | cons e rest ih =>
    refine ih (fun f mem => plain f (List.mem_cons_of_mem e mem)) ?_
    have text := plain e List.mem_cons_self
    have front : carriageReturn ∉ s.take e.start := fun mem => start (List.mem_of_mem_take mem)
    have back : carriageReturn ∉ s.drop e.stop := fun mem => start (List.mem_of_mem_drop mem)
    simp only [apply, List.mem_append, front, text, back, or_self, not_false_eq_true]

namespace Document
variable {d : Document}

theorem textPlain (plain : carriageReturn ∉ d.source) : carriageReturn ∉ d.text := by
  refine Edit.foldPlain (fun e mem => ?_) plain
  obtain ⟨m, -, rfl⟩ := List.mem_map.mp (List.mem_mergeSort.mp mem)
  exact editPlain plain m

theorem appliedCrlf (fresh : d.Fresh) (laid : Laid d.source d.blocks) (rule : BlockRule) (closed : Crlf d.source) :
    Crlf (d.apply rule).1.text ↔ ∀ m ∈ d.wants rule, 0 < lineStart d.source m.target.startByte := by
  have gaps := askedGaps laid rule
  have before : ∀ m ∈ askedFromEnd d.blocks rule, (Edit.ofMarker d.source m).stop < d.source.length := by
    intro m mem
    exact Nat.lt_of_le_of_lt (Edit.ofMarkerWindow (gaps m mem)).2.2 (gaps m mem).inside.2.2
  rw [appliedText fresh laid rule, crlfCloses]
  refine (joinedCloses closed gaps (askedStacked laid rule) (Nat.le_refl _) before).trans ?_
  exact forall_congr' fun m => by rw [(askedPerm fresh rule).mem_iff]

end Document

/-- Formatting a source in CR LF gives a text in CR LF unless an exit on the first line is set off;
where there is no carriage return none is put in. -/
theorem formatEndings {parser : Parser} {rule : BlockRule} {unit : String} {source : Bytes} {r : Formatted}
    (ran : format parser rule unit source = .ok r) (laid : Laid source (parser source).blocks)
    (located : ∀ b ∈ (parser source).blocks, ∀ s ∈ b.statements, s.Located source) :
    (Crlf source → (Crlf r.content ↔ ∀ c ∈ r.changes, 1 < c.line)) ∧
      (carriageReturn ∉ source → carriageReturn ∉ r.content) := by
  have fresh := treeFresh unit source (parser source)
  obtain ⟨log, rfl, rows⟩ := formatReturned ran
  refine ⟨fun closed => (Document.appliedCrlf fresh laid rule closed).trans ?_, fun plain => Document.textPlain plain⟩
  have targets : ∀ m ∈ Document.wants ⟨unit, source, (parser source).blocks⟩ rule,
      (0 < lineStart source m.target.startByte ↔ 1 < (m.target.row unit).2.2.1) := by
    intro m mem
    obtain ⟨g, inside, -, rfl⟩ := askedMem.mp ((Document.askedPerm fresh rule).mem_iff.mpr mem)
    obtain ⟨inB, there⟩ := gapsOfMem inside
    rw [laterLine, ← (located g.1 inB _ (neighboursMem there).2).startLine]
    rfl
  have logged := List.forall_mem_map (f := Change.row) (l := log) (P := fun row => 1 < row.2.2.1)
  rw [rows, List.forall_mem_map] at logged
  refine (forall₂_congr targets).trans (logged.trans ?_)
  exact forall_congr' fun c => by rw [List.mem_mergeSort]; rfl

def bareSource : Bytes := ofString "func f() \x7b a(); return \x7d\r\n"

def bareSpaced : Bytes := ofString "func f() \x7b a()\n\nreturn \x7d\r\n"

def bareBlocks : List Block :=
  [⟨"block", [.statement ⟨⟨0, 0⟩, "expression_statement", .plain, 1, 1, 12, 11, 14⟩,
    .statement ⟨⟨0, 1⟩, "return_statement", .returning, 1, 1, 17, 16, 22⟩]⟩]

theorem bareParsed : (Go.parse bareSource).hasError = false ∧ (Go.parse bareSource).blocks = bareBlocks ∧
    (Go.parse bareSpaced).hasError = false := by
  decide +kernel

/-- In a source of one line, which ends in CR LF, the blank line is two bare line feeds. -/
theorem firstLineBare : ∃ r, format Go.parse ⟨0, .lines⟩ "f.go" bareSource = .ok r ∧
    (Go.parse bareSource).hasError = false ∧ lineFeed ∈ bareSource ∧ Crlf bareSource ∧ ¬ Crlf r.content := by
  have text : ((⟨"f.go", bareSource, (Go.parse bareSource).blocks⟩ : Document).apply ⟨0, .lines⟩).1.text = bareSpaced := by
    rw [bareParsed.2.1, (Document.appliedAs "f.go" bareParsed.2.1 (.refl _) ⟨by decide +kernel, by decide +kernel⟩
      (by decide +kernel)).1]
    decide +kernel
  obtain ⟨r, ran, content, -⟩ :=
    formatText ⟨0, .lines⟩ bareParsed.1 (by rw [text]; exact bareParsed.2.2)
  rw [text] at content
  refine ⟨r, ran, bareParsed.1, by decide +kernel, by decide +kernel, ?_⟩
  rw [content]
  decide +kernel

theorem layeredEndings : Laid layeredSource (Go.parse layeredSource).blocks ∧
    (∀ b ∈ (Go.parse layeredSource).blocks, ∀ s ∈ b.statements, s.Located layeredSource) ∧ Crlf layeredSource ∧
    ∃ r, format Go.parse ⟨0, .lines⟩ "f.go" layeredSource = .ok r ∧ r.content = layeredSpaced ∧
      Crlf r.content ∧ ∀ c ∈ r.changes, 1 < c.line := by
  obtain ⟨r, ran, content⟩ := layeredFormats "f.go"
  have closed : Crlf layeredSource := by decide +kernel
  have spaced : Crlf r.content := by
    rw [content]
    decide +kernel
  have later := ((formatEndings ran layeredLaid Document.layeredLocated).1 closed).mp spaced
  exact ⟨layeredLaid, Document.layeredLocated, closed, r, ran, content, spaced, later⟩

end ExitSpacing
