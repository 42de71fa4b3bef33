import ExitSpacing.Go.Source
import ExitSpacing.Proofs.Composition
import Mathlib.Algebra.GroupWithZero.Nat
import Mathlib.Data.List.Perm.Basic

/-! How many lines formatting adds: one for an exit that stood first on its line, two for any other.
Whatever was inserted therefore shows in the bytes, so that what a result says of itself agrees. -/
namespace ExitSpacing
open Bytes

namespace Statement

def addedFeeds (source : Bytes) (s : Statement) : Nat := if s.opensLine source then 1 else 2

theorem addedSome (source : Bytes) (s : Statement) : 0 < s.addedFeeds source := by
  unfold addedFeeds
  split <;> decide

end Statement

namespace Edit
variable {source : Bytes} {m : Marker}

theorem ofMarkerFeeds (source : Bytes) (m : Marker) :
    lineFeeds (ofMarker source m).text =
      lineFeeds (cut source (ofMarker source m).start (ofMarker source m).stop) + m.target.addedFeeds source := by
  have one := endingFeed source (lineStart source m.target.startByte)
  cases opens : m.target.opensLine source with
  | true =>
    rw [ofMarkerOpens opens, Statement.addedFeeds, opens, if_pos rfl]
    simp only [one, cut, Nat.sub_self, List.take_zero]
    rfl
  | false =>
    -- separators and indentation hold no line feed
    have dropped : List.count lineFeed
        ((cut source m.predecessor.endByte m.target.startByte).reverse.takeWhile isSeparator).reverse = 0 :=
      List.count_eq_zero.mpr fun mem => absurd (List.all_eq_true.mp (takenBehind isSeparator _) _ mem) (by decide)
    have indent : List.count lineFeed (m.target.indent source) = 0 :=
      List.count_eq_zero.mpr fun mem => absurd (List.mem_takeWhile_imp mem) (by decide)
    have kept := congrArg (List.count lineFeed)
      (trimEndAppend isSeparator (cut source m.predecessor.endByte m.target.startByte))
    rw [List.count_append, dropped] at kept
    rw [ofMarkerShares opens, Statement.addedFeeds, opens, if_neg Bool.false_ne_true]
    simp only [lineFeeds] at one
    simp only [lineFeeds, List.count_append, one, indent]
    omega

theorem joinedAdded {α : Type} (f : α → Edit) (added : α → Nat) {l : List α} (stacked : Stacked (l.map f))
    (each : ∀ a ∈ l, lineFeeds (f a).text = lineFeeds (cut source (f a).start (f a).stop) + added a) {stop : Nat}
    (within : ∀ e ∈ l.map f, e.stop ≤ stop) :
    lineFeeds (joined source (l.map f) stop) = lineFeeds (source.take stop) + (l.map added).sum := by
  -- in front of the last edit's window the others are made, behind it nothing is
  induction l generalizing stop with
  | nil => simp [joined]
  | cons a earlier ih =>
    have window := stacked.windows _ List.mem_cons_self
    have fits := within _ List.mem_cons_self
    have front := ih stacked.tail (fun b mem => each b (List.mem_cons_of_mem _ mem)) stacked.below
    have more := each a List.mem_cons_self
    have whole := congrArg lineFeeds (takeCut source fits)
    rw [← takeCut source window] at whole
    rw [List.map_cons, joined, List.map_cons, List.sum_cons]
    simp only [lineFeeds, List.count_append] at front more whole ⊢
    omega

theorem joinedFeeds {ms : List Marker} (stacked : Stacked (ms.map (ofMarker source))) {stop : Nat}
    (within : ∀ e ∈ ms.map (ofMarker source), e.stop ≤ stop) :
    lineFeeds (joined source (ms.map (ofMarker source)) stop) =
      lineFeeds (source.take stop) + (ms.map fun m => m.target.addedFeeds source).sum :=
  joinedAdded (ofMarker source) _ stacked (fun m _ => ofMarkerFeeds source m) within

end Edit

theorem Block.outside {b : Block} (unmarked : b.markers = []) (rule : BlockRule) {i : Nat}
    (beyond : b.statements[i]? = none) : b.shouldInsert rule i = false := by
  cases i with
  | zero => rfl
  | succ i =>
    have none : b.entries[i + 1]? = none := by rw [unmarkedAt unmarked, beyond]; rfl
    simp only [shouldInsert, none]
    split
    · contradiction
    · rfl

theorem Block.chosenNone (b : Block) (rule : BlockRule) (unmarked : b.markers = []) :
    b.chosen (b.shouldInsert rule) = [] ↔ ∀ i, b.shouldInsert rule i = false := by
  rw [chosen, List.map_eq_nil_iff, List.filter_eq_nil_iff]
  constructor
  · intro skips i
    by_cases inside : i < b.statements.length
    · have mem : (b.statements[i], i) ∈ b.statements.zipIdx :=
        List.mem_zipIdx_iff_getElem?.mpr (List.getElem?_eq_getElem inside)
      exact Bool.not_eq_true _ ▸ skips _ mem
    · exact outside unmarked rule (List.getElem?_eq_none (Nat.not_lt.mp inside))
  · intro silent s _
    rw [silent s.2]
    exact Bool.false_ne_true

namespace Document
variable {d : Document}

theorem wantsChosen (fresh : d.Fresh) (rule : BlockRule) :
    (d.wants rule).map Marker.target = d.blocks.flatMap fun b => b.chosen (b.shouldInsert rule) := by
  rw [wants, List.map_flatMap]
  refine List.flatMap_congr fun b mem => ?_
  have unmarked := fresh.unmarked b mem
  exact (Block.agreeOf unmarked (fun decide => decide rule) rfl).wanted unmarked

theorem appliedNothing (fresh : d.Fresh) (rule : BlockRule) (none : d.wants rule = []) :
    (d.apply rule).1.text = d.source := by
  have modified := appliedModified fresh rule
  rw [none] at modified
  obtain ⟨log, ran, -⟩ := applyLogged fresh rule
  rw [unmodifiedText modified, ran]
  rfl

theorem appliedFeeds (fresh : d.Fresh) (laid : Laid d.source d.blocks) (rule : BlockRule) :
    lineFeeds (d.apply rule).1.text =
      lineFeeds d.source + ((d.wants rule).map fun m => m.target.addedFeeds d.source).sum := by
  have all := Edit.joinedFeeds (askedStacked laid rule) (gapsWithin (askedGaps laid rule))
  rw [List.take_length] at all
  rw [appliedText fresh laid rule, ← ((askedPerm fresh rule).map fun m => m.target.addedFeeds d.source).sum_nat]
  exact all

end Document

theorem formatAccepted {parser : Parser} {rule : BlockRule} {unit : String} {source : Bytes} {x : Formatted}
    (made : format parser rule unit source = .ok x) : (parser source).hasError = false := by
  by_contra malformed
  rw [Bool.not_eq_false] at malformed
  simp [format, Document.parse, malformed, Except.mapError, bind, Except.bind] at made

theorem formatReturned {parser : Parser} {rule : BlockRule} {unit : String} {source : Bytes} {r : Formatted}
    (ran : format parser rule unit source = .ok r) :
    let d : Document := ⟨unit, source, (parser source).blocks⟩
    ∃ log : List Change,
      r = ⟨unit, (d.apply rule).1.text, !(d.wants rule).isEmpty, log.mergeSort Change.notAfter⟩ ∧
      log.map Change.row = (d.wants rule).map fun m => m.target.row unit := by
  intro d
  have fresh : d.Fresh := treeFresh unit source (parser source)
  have accepted := formatAccepted ran
  -- An unmodified document is not parsed again, but its text is the source, which was accepted.
  have reparsed : (parser (d.apply rule).1.text).hasError = false := by
    by_contra broken
    rw [Bool.not_eq_false] at broken
    obtain ⟨log, marked, -⟩ := Document.applyLogged fresh rule
    rw [marked] at broken
    have parsed : Document.parse parser unit source = .ok d := by simp [Document.parse, accepted, d]
    simp only [format, parsed, marked, Except.mapError, bind, Except.bind] at ran
    cases modified : (d.markedBy fun b => b.due rule).modified with
    | false =>
      rw [Document.unmodifiedText modified, show (d.markedBy fun b => b.due rule).source = source from rfl,
        accepted] at broken
      cases broken
    | true => simp [modified, Document.render, broken] at ran
  obtain ⟨log, again, rows⟩ := formatLogged rule accepted reparsed
  rw [ran, Document.appliedModified fresh] at again
  exact ⟨log, Except.ok.inj again, rows⟩

theorem formatChanges {parser : Parser} {rule : BlockRule} {unit : String} {source : Bytes} {r : Formatted}
    (ran : format parser rule unit source = .ok r) (laid : Laid source (parser source).blocks) :
    r.modified = true ↔ r.content ≠ source := by
  have fresh := treeFresh unit source (parser source)
  obtain ⟨log, rfl, -⟩ := formatReturned ran
  have nothing := Document.appliedNothing fresh rule
  have feeds := Document.appliedFeeds fresh laid rule
  cases wants : Document.wants ⟨unit, source, (parser source).blocks⟩ rule with
  | nil => exact iff_of_false (by simp) fun differs => differs (nothing wants)
  | cons m rest =>
    -- A change adds line feeds, so the text has more of them than the source.
    refine iff_of_true (by simp) fun same => ?_
    have one := Statement.addedSome source m.target
    rw [wants, show Document.text _ = source from same, List.map_cons, List.sum_cons] at feeds
    dsimp only at feeds
    omega

theorem loggedStatements {unit : String} {log : List Change} {ms : List Marker}
    (rows : log.map Change.row = ms.map fun m => m.target.row unit) :
    ∃ sorted : List Marker,
      (log.mergeSort Change.notAfter).map Change.row = sorted.map (fun m => m.target.row unit) ∧ sorted.Perm ms := by
  have perm : ((log.mergeSort Change.notAfter).map Change.row).Perm (ms.map fun m => m.target.row unit) :=
    rows ▸ (List.mergeSort_perm log Change.notAfter).map Change.row
  exact (congrFun (congrFun (List.eq_map_comp_perm fun m => m.target.row unit) _) ms).mpr perm

/-- A result says that it was modified exactly when its bytes differ from the source, when it names a
change and when the rule asks for one, and then its line feeds are those of the source and those of
the changes. -/
theorem formatCoheres {parser : Parser} {rule : BlockRule} {unit : String} {source : Bytes} {r : Formatted}
    (ran : format parser rule unit source = .ok r) (laid : Laid source (parser source).blocks) :
    (r.modified = true ↔ r.content ≠ source) ∧ (r.modified = true ↔ r.changes ≠ []) ∧
      (r.modified = true ↔ ∃ b ∈ (parser source).blocks, ∃ i, b.shouldInsert rule i = true) ∧
      (r.modified = false → r.content = source) ∧
      ∃ exits : List Statement,
        exits.Perm ((parser source).blocks.flatMap fun b => b.chosen (b.shouldInsert rule)) ∧
        r.changes.map Change.row = exits.map (Statement.row unit) ∧
        lineFeeds r.content = lineFeeds source + (exits.map (Statement.addedFeeds source)).sum := by
  have fresh := treeFresh unit source (parser source)
  obtain ⟨log, rfl, rows⟩ := formatReturned ran
  obtain ⟨ms, named, perm⟩ := loggedStatements rows
  have changes := formatChanges ran laid
  have chosen := Document.wantsChosen fresh rule
  have feeds := Document.appliedFeeds fresh laid rule
  dsimp only at changes chosen feeds ⊢
  generalize Document.wants _ rule = wants at rows perm changes chosen feeds ⊢
  have modified : (!wants.isEmpty) = true ↔ wants ≠ [] := by simp
  have logged : wants ≠ [] ↔ log.mergeSort Change.notAfter ≠ [] := by
    have long := congrArg List.length named
    rw [List.length_map, List.length_map] at long
    rw [ne_eq, ne_eq, ← List.length_eq_zero_iff, ← List.length_eq_zero_iff, long, perm.length_eq]
  have asked : wants ≠ [] ↔ ∃ b ∈ (parser source).blocks, ∃ i, b.shouldInsert rule i = true := by
    rw [ne_eq, ← List.map_eq_nil_iff (f := Marker.target), chosen, List.flatMap_eq_nil_iff]
    constructor
    · intro some
      push Not at some
      obtain ⟨b, inside, some⟩ := some
      rw [ne_eq, b.chosenNone rule (fresh.unmarked b inside)] at some
      push Not at some
      obtain ⟨i, asks⟩ := some
      exact ⟨b, inside, i, Bool.not_eq_false _ ▸ asks⟩
    · intro ⟨b, inside, i, asks⟩ none
      have silent := (b.chosenNone rule (fresh.unmarked b inside)).mp (none b inside) i
      rw [asks] at silent
      cases silent
  refine ⟨changes, modified.trans logged, modified.trans asked, ?_, ms.map Marker.target, ?_, ?_, ?_⟩
  · intro unmodified
    by_contra differs
    exact absurd (changes.mpr differs) (by simp [unmodified])
  · rw [← chosen]
    exact perm.map _
  · rw [List.map_map]
    exact named
  · rw [feeds, List.map_map, ← (perm.map fun m => m.target.addedFeeds source).sum_nat]
    rfl

def layeredSource : Bytes :=
  ofString "func f() \x7b\r\n\ta()\r\n\tg(func() \x7b\r\n\t\tb(); return \x7d)\r\n\treturn\r\n\x7d\r\n"

def layeredSpaced : Bytes :=
  ofString "func f() \x7b\r\n\ta()\r\n\tg(func() \x7b\r\n\t\tb()\r\n\r\n\t\treturn \x7d)\r\n\r\n\treturn\r\n\x7d\r\n"

def layeredBlocks : List Block :=
  let call (id : StatementId) (line last column first stop : Nat) : Entry :=
    .statement ⟨id, "expression_statement", .plain, line, last, column, first, stop⟩
  let exit (id : StatementId) (line column first stop : Nat) : Entry :=
    .statement ⟨id, "return_statement", .returning, line, line, column, first, stop⟩
  [⟨"block", [call ⟨0, 0⟩ 2 2 2 13 16, call ⟨0, 1⟩ 3 4 2 19 47, exit ⟨0, 2⟩ 5 2 50 56]⟩,
    ⟨"block", [call ⟨1, 0⟩ 4 4 3 33 36, exit ⟨1, 1⟩ 4 8 38 44]⟩]

theorem layeredParsed : (Go.parse layeredSource).hasError = false ∧ (Go.parse layeredSource).blocks = layeredBlocks ∧
    (Go.parse layeredSpaced).hasError = false := by
  decide +kernel

theorem layeredLaid : Laid layeredSource (Go.parse layeredSource).blocks := by
  rw [layeredParsed.2.1]
  decide +kernel

theorem layeredText (unit : String) :
    ((⟨unit, layeredSource, (Go.parse layeredSource).blocks⟩ : Document).apply ⟨0, .lines⟩).1.text = layeredSpaced := by
  rw [layeredParsed.2.1, (Document.appliedAs unit layeredParsed.2.1 (.refl _) ⟨by decide +kernel, by decide +kernel⟩
    (by decide +kernel)).1]
  decide +kernel

theorem layeredFormats (unit : String) :
    ∃ r, format Go.parse ⟨0, .lines⟩ unit layeredSource = .ok r ∧ r.content = layeredSpaced := by
  obtain ⟨r, ran, content, -⟩ := @formatText Go.parse unit layeredSource ⟨0, .lines⟩ layeredParsed.1
    (by rw [layeredText]; exact layeredParsed.2.2)
  exact ⟨r, ran, content.trans (layeredText unit)⟩

theorem layeredCoheres : Laid layeredSource (Go.parse layeredSource).blocks ∧
    ∃ r, format Go.parse ⟨0, .lines⟩ "f.go" layeredSource = .ok r ∧ r.content ≠ layeredSource ∧ r.modified = true ∧
      r.changes ≠ [] ∧ lineFeeds layeredSpaced = lineFeeds layeredSource + 3 ∧
      ∃ exits : List Statement, r.changes.map Change.row = exits.map (Statement.row "f.go") ∧
        lineFeeds r.content = lineFeeds layeredSource + (exits.map (Statement.addedFeeds layeredSource)).sum := by
  obtain ⟨r, ran, content⟩ := layeredFormats "f.go"
  obtain ⟨differs, changes, -, -, exits, -, named, feeds⟩ := formatCoheres ran layeredLaid
  have other : r.content ≠ layeredSource := by
    rw [content]
    decide +kernel
  have modified := differs.mpr other
  exact ⟨layeredLaid, r, ran, other, modified, changes.mp modified, by decide +kernel, exits, named, feeds⟩

end ExitSpacing
