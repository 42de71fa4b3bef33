import ExitSpacing.Go.Source
import ExitSpacing.Proofs.Joining
import ExitSpacing.Proofs.Layout
import ExitSpacing.Proofs.Passes
import Mathlib.Data.List.Flatten

/-! What rendering does to a source: every marker changes bytes of its own gap only, and
the edits made from the end one after another are those edits made at once. -/
namespace ExitSpacing
open Bytes

theorem cutAt (s : Bytes) {start stop offset : Nat} (after : start ≤ offset) (before : offset < stop) :
    (cut s start stop)[offset - start]? = s[offset]? := by
  rw [cut, List.getElem?_take_of_lt (by omega), List.getElem?_drop, Nat.add_sub_cancel' after]

theorem blankWithin {s : Bytes} {start stop offset : Nat} (blank : allBlank (cut s start stop) = true)
    (after : start ≤ offset) (before : offset < stop) : ¬ Solid s offset := by
  rintro ⟨b, there, solid⟩
  have mem : b ∈ cut s start stop := List.mem_of_getElem? ((cutAt s after before).trans there)
  have blankB := List.all_eq_true.mp blank b mem
  rw [solid] at blankB
  cases blankB

theorem takenBehind (p : UInt8 → Bool) (s : Bytes) : ((s.reverse.takeWhile p).reverse).all p = true := by
  rw [List.all_reverse]
  exact List.all_takeWhile

namespace Statement

def opensLine (source : Bytes) (s : Statement) : Bool :=
  allBlank (cut source (lineStart source s.startByte) s.startByte)

def indent (source : Bytes) (s : Statement) : Bytes :=
  (source.drop (lineStart source s.startByte)).takeWhile isIndent

def lead (source : Bytes) (s : Statement) : Bytes :=
  if s.opensLine source then cut source (lineStart source s.startByte) s.startByte else s.indent source

end Statement

namespace Edit

/-- What an edit does to the bytes in its window: the front is kept, separators behind it
are dropped, and one line end, or two and an indentation, are added. -/
def Respaces (source : Bytes) (e : Edit) : Prop :=
  ∃ kept dropped ending indent : Bytes,
    cut source e.start e.stop = kept ++ dropped ∧ dropped.all isSeparator = true ∧
    (ending = [lineFeed] ∨ ending = [carriageReturn, lineFeed]) ∧ indent.all isIndent = true ∧
    (e.text = kept ++ ending ∨ e.text = kept ++ ending ++ ending ++ indent)

theorem lineEndingCases (source : Bytes) (offset : Nat) :
    lineEnding source offset = [lineFeed] ∨ lineEnding source offset = [carriageReturn, lineFeed] := by
  simp only [lineEnding]
  split
  · exact .inr rfl
  · exact .inl rfl

theorem ofMarkerOpens {source : Bytes} {m : Marker} (opens : m.target.opensLine source = true) :
    ofMarker source m = ⟨lineStart source m.target.startByte, lineStart source m.target.startByte,
      lineEnding source (lineStart source m.target.startByte)⟩ := if_pos opens

theorem ofMarkerShares {source : Bytes} {m : Marker} (shares : m.target.opensLine source = false) :
    ofMarker source m = ⟨m.predecessor.endByte, m.target.startByte,
      trimEnd isSeparator (cut source m.predecessor.endByte m.target.startByte) ++
        lineEnding source (lineStart source m.target.startByte) ++
        lineEnding source (lineStart source m.target.startByte) ++ m.target.indent source⟩ :=
  if_neg (Bool.not_eq_true _ ▸ shares)

theorem ofMarkerRespaces (source : Bytes) (m : Marker) : Respaces source (ofMarker source m) := by
  have ending := lineEndingCases source (lineStart source m.target.startByte)
  simp only [ofMarker]
  split
  · exact ⟨[], [], _, [], by simp [cut], rfl, ending, rfl, .inl rfl⟩
  · refine ⟨_, _, _, _, (trimEndAppend isSeparator _).symm, takenBehind _ _, ending, List.all_takeWhile, .inr rfl⟩

theorem ofMarkerWindow {source : Bytes} {m : Marker} (gap : m.Gap source) :
    m.predecessor.endByte ≤ (ofMarker source m).start ∧ (ofMarker source m).start ≤ (ofMarker source m).stop ∧
      (ofMarker source m).stop ≤ m.target.startByte := by
  have before := lineStartLe source m.target.startByte
  have long := gap.predecessor.nonempty
  simp only [ofMarker]
  split
  · rename_i blank
    refine ⟨?_, Nat.le_refl _, before⟩
    -- Else the predecessor would end on blanks of the target's line, but its last byte is solid.
    by_contra inside
    dsimp only at inside
    exact blankWithin blank (by omega) (by have := gap.follows; omega) gap.predecessor.last
  · exact ⟨Nat.le_refl _, gap.follows, Nat.le_refl _⟩

def Separate (e f : Edit) : Prop := e.stop < f.start ∨ f.stop < e.start

theorem fromEndStacked {edits : List Edit} (windows : ∀ e ∈ edits, e.start ≤ e.stop)
    (separate : edits.Pairwise Separate) : Stacked (fromEnd edits) where
  windows := fun e mem => windows e (List.mem_mergeSort.mp mem)
  falling := by
    have apart : (fromEnd edits).Pairwise Separate :=
      ((List.mergeSort_perm edits _).pairwise_iff fun {e f} h => h.symm).mpr separate
    refine ((fromEndSorted edits).and apart).imp_of_mem ?_
    intro e f inE inF ⟨order, either⟩
    have windowE := windows e (List.mem_mergeSort.mp inE)
    have later : f.start ≤ e.start := of_decide_eq_true order
    rcases either with below | above
    · omega
    · exact above

end Edit

theorem Marker.Gap.separate {source : Bytes} {m n : Marker} (gapM : m.Gap source) (gapN : n.Gap source)
    (clear : m.Clear n ∨ n.Clear m) : Edit.Separate (Edit.ofMarker source m) (Edit.ofMarker source n) := by
  have windowM := Edit.ofMarkerWindow gapM
  have windowN := Edit.ofMarkerWindow gapN
  refine clear.imp (fun before => ?_) fun after => ?_
  · unfold Marker.Clear at before; omega
  · unfold Marker.Clear at after; omega

theorem treeFresh (unit : String) (source : Bytes) (tree : Tree) : Document.Fresh ⟨unit, source, tree.blocks⟩ := by
  have each : ∀ b ∈ tree.blocks, ∃ number owner, b = Block.ofNode number owner := by
    intro b mem
    obtain ⟨i, inside, same⟩ := List.mem_mapIdx.mp mem
    exact ⟨i, _, same.symm⟩
  refine ⟨fun b mem => ?_, fun b mem s held => ?_⟩
  · obtain ⟨number, owner, rfl⟩ := each b mem
    refine List.filterMap_eq_nil_iff.mpr fun e inside => ?_
    obtain ⟨i, _, rfl⟩ := List.mem_mapIdx.mp inside
    rfl
  · obtain ⟨number, owner, rfl⟩ := each b mem
    obtain ⟨e, inside, isStatement⟩ := List.mem_filterMap.mp held
    obtain ⟨i, _, rfl⟩ := List.mem_mapIdx.mp inside
    cases isStatement
    exact ⟨Nat.succ_pos _, Nat.succ_pos _⟩

namespace Document

structure Spaced (d : Document) : Prop where
  gaps : ∀ m ∈ d.markers, m.Gap d.source
  clear : d.markers.Pairwise fun m n => m.Clear n ∨ n.Clear m

theorem markedBySpaced {d : Document} (laid : Laid d.source d.blocks) (fresh : d.Fresh)
    (due : Block → Statement → Statement → Bool) : (d.markedBy due).Spaced := by
  have all : (d.markedBy due).markers =
      d.blocks.flatMap fun b => (neighbours b.statements).filter fun m => due b m.predecessor m.target := by
    rw [markers, markedBy, List.flatMap_map]
    exact List.flatMap_congr fun b mem => Block.markedByMarkers (fresh.unmarked b mem) (due b)
  have fewer : (d.markedBy due).markers.Sublist (d.blocks.flatMap fun b => neighbours b.statements) := by
    rw [all]
    exact List.Sublist.flatMap_right _ fun b _ => List.filter_sublist
  refine ⟨fun m mem => ?_, laid.clear.sublist fewer⟩
  obtain ⟨b, inside, held⟩ := List.mem_flatMap.mp (fewer.subset mem)
  exact laid.gap inside held

section
variable {d : Document}

theorem Spaced.windows (spaced : d.Spaced) : ∀ e ∈ d.edits, e.start ≤ e.stop := by
  intro e mem
  obtain ⟨m, held, rfl⟩ := List.mem_map.mp mem
  exact (Edit.ofMarkerWindow (spaced.gaps m held)).2.1

theorem Spaced.separate (spaced : d.Spaced) : d.edits.Pairwise Edit.Separate :=
  List.pairwise_map.mpr (spaced.clear.imp_of_mem fun inM inN clear =>
    (spaced.gaps _ inM).separate (spaced.gaps _ inN) clear)

theorem Spaced.stacked (spaced : d.Spaced) : Edit.Stacked (Edit.fromEnd d.edits) :=
  Edit.fromEndStacked spaced.windows spaced.separate

theorem Spaced.within (spaced : d.Spaced) : ∀ e ∈ Edit.fromEnd d.edits, e.stop ≤ d.source.length := by
  intro e mem
  obtain ⟨m, held, rfl⟩ := List.mem_map.mp (List.mem_mergeSort.mp mem)
  have window := Edit.ofMarkerWindow (spaced.gaps m held)
  have inside := solidInside (spaced.gaps m held).target.first
  omega

theorem Spaced.text (spaced : d.Spaced) : d.text = Edit.joined d.source (Edit.fromEnd d.edits) d.source.length := by
  have all := Edit.foldJoined spaced.stacked (Nat.le_refl _) spaced.within []
  rw [List.take_length, List.append_nil, List.append_nil] at all
  exact all

end

/-- Rendering substitutes the gaps of the markers at once and touches nothing else: the
windows of the edits are apart, each lies between the neighbours of its marker, the text
is what stands between the windows with the edits' own texts, every other byte is found
where it has moved, in order, and in the windows only separators are dropped and only
line ends and indentations added. -/
theorem renderedAtOnce (unit : String) (source : Bytes) (tree : Tree) (rule : BlockRule)
    (laid : Laid source tree.blocks) :
    let marked := ((⟨unit, source, tree.blocks⟩ : Document).apply rule).1
    let edits := Edit.fromEnd marked.edits
    marked.edits.Pairwise Edit.Separate ∧
      (∀ m ∈ marked.markers, m.predecessor.endByte ≤ (Edit.ofMarker source m).start ∧
        (Edit.ofMarker source m).start ≤ (Edit.ofMarker source m).stop ∧
        (Edit.ofMarker source m).stop ≤ m.target.startByte) ∧
      marked.text = Edit.joined source edits source.length ∧
      (∀ a < source.length, Edit.Spared edits a → marked.text[Edit.moved edits a]? = source[a]?) ∧
      (∀ a b, Edit.Spared edits a → Edit.Spared edits b → a < b → Edit.moved edits a < Edit.moved edits b) ∧
      ∀ m ∈ marked.markers, (Edit.ofMarker source m).Respaces source := by
  have fresh := treeFresh unit source tree
  obtain ⟨log, ran, -⟩ := applyFresh fresh rule
  rw [ran]
  intro marked edits
  have spaced : marked.Spaced := markedBySpaced laid fresh _
  refine ⟨spaced.separate, fun m mem => Edit.ofMarkerWindow (spaced.gaps m mem), spaced.text, ?_, ?_, ?_⟩
  · intro a inside spared
    rw [spaced.text]
    exact Edit.joinedAt spaced.stacked (Nat.le_refl _) spaced.within inside spared
  · intro a b sparedA sparedB less
    exact Edit.movedMono spaced.stacked sparedA sparedB less
  · exact fun m _ => Edit.ofMarkerRespaces source m

def closureSource : Bytes := ofString "func f() \x7b\n\ta()\n\tg(func() \x7b b(); return \x7d); return\n\x7d\n"

def closureSpaced : Bytes := ofString "func f() \x7b\n\ta()\n\tg(func() \x7b b()\n\n\treturn \x7d)\n\n\treturn\n\x7d\n"

def closureBlocks : List Block :=
  let call (id : StatementId) (line column first last : Nat) : Entry :=
    .statement ⟨id, "expression_statement", .plain, line, line, column, first, last⟩
  let exit (id : StatementId) (line column first last : Nat) : Entry :=
    .statement ⟨id, "return_statement", .returning, line, line, column, first, last⟩
  [⟨"block", [call ⟨0, 0⟩ 2 2 12 15, call ⟨0, 1⟩ 3 2 17 42, exit ⟨0, 2⟩ 3 29 44 50]⟩,
    ⟨"block", [call ⟨1, 0⟩ 3 13 28 31, exit ⟨1, 1⟩ 3 18 33 39]⟩]

theorem closureParsed : (Go.parse closureSource).blocks = closureBlocks := by decide +kernel

theorem closureRenderedAtOnce : Laid closureSource (Go.parse closureSource).blocks ∧
    ((⟨"f.go", closureSource, (Go.parse closureSource).blocks⟩ : Document).apply ⟨0, .lines⟩).1.text = closureSpaced := by
  have laid : Laid closureSource (Go.parse closureSource).blocks := by
    rw [closureParsed]
    decide +kernel
  obtain ⟨-, -, text, -⟩ := renderedAtOnce "f.go" closureSource (Go.parse closureSource) ⟨0, .lines⟩ laid
  refine ⟨laid, text.trans ?_⟩
  rw [closureParsed, Edit.fromEnd, List.mergeSort_of_pairwise (by decide +kernel)]
  decide +kernel

end Document
end ExitSpacing
