import ExitSpacing.Format
import ExitSpacing.Proofs.Logging
import ExitSpacing.Proofs.Redeciding

/-! Formatting what was formatted: two rounds of one policy are one round with the smaller
block size, so a second round of one rule finds nothing to do. -/
namespace ExitSpacing
open Bytes

/-- What is trusted of a parser about a source: statements are laid out in it and carry
the lines and columns of their bytes, and a rendered text is accepted and has the same
blocks, each statement where its bytes went. -/
structure Faithful (parser : Parser) (source : Bytes) : Prop where
  laid : Laid source (parser source).blocks
  located : ∀ b ∈ (parser source).blocks, ∀ s ∈ b.statements, s.Located source
  rendered : ∀ (unit : String) (rule : BlockRule),
    let marked := ((⟨unit, source, (parser source).blocks⟩ : Document).apply rule).1
    (parser marked.text).hasError = false ∧ (parser marked.text).blocks =
      (parser source).blocks.map (Block.carried marked.text (Edit.fromEnd marked.edits))

def gapsFromEnd (blocks : List Block) : List (Block × Marker) :=
  (gapsOf blocks).mergeSort fun g h => decide (h.2.predecessor.endByte ≤ g.2.predecessor.endByte)

def askedFromEnd (blocks : List Block) (rule : BlockRule) : List Marker :=
  ((gapsFromEnd blocks).filter (Block.asks rule)).map Prod.snd

def gapEdit (source : Bytes) (g : Block × Marker) : Edit := Edit.ofMarker source g.2

section
variable {source : Bytes} {blocks : List Block}

theorem gapsPerm (blocks : List Block) : (gapsFromEnd blocks).Perm (gapsOf blocks) := List.mergeSort_perm _ _

theorem gapsOfMarkers (blocks : List Block) :
    (gapsOf blocks).map Prod.snd = blocks.flatMap fun b => neighbours b.statements := by
  rw [gapsOf, List.map_flatMap]
  refine List.flatMap_congr fun b _ => ?_
  rw [List.map_map]
  exact List.map_id _

theorem gapsFalling (laid : Laid source blocks) : (gapsFromEnd blocks).Pairwise fun g h => h.2.Clear g.2 := by
  have sorted : (gapsFromEnd blocks).Pairwise fun g h =>
      decide (h.2.predecessor.endByte ≤ g.2.predecessor.endByte) = true := by
    refine List.pairwise_mergeSort ?_ ?_ _
    · simp only [decide_eq_true_eq]; omega
    · simp only [Bool.or_eq_true, decide_eq_true_eq]; omega
  have clear : (gapsOf blocks).Pairwise fun g h => g.2.Clear h.2 ∨ h.2.Clear g.2 := by
    have all : ((gapsOf blocks).map Prod.snd).Pairwise fun m n => m.Clear n ∨ n.Clear m := by
      rw [gapsOfMarkers]
      exact laid.clear
    exact List.pairwise_map.mp all
  have apart := ((gapsPerm blocks).pairwise_iff fun {g h} either => either.symm).mpr clear
  refine (sorted.and apart).imp_of_mem ?_
  intro g h inG inH ⟨order, either⟩
  obtain ⟨insideG, thereG⟩ := gapsOfMem ((gapsPerm blocks).subset inG)
  have follows := (laid.gap insideG thereG).follows
  have later := of_decide_eq_true order
  unfold Marker.Clear at either ⊢
  omega

theorem gapsStacked (laid : Laid source blocks) : Edit.Stacked ((gapsFromEnd blocks).map (gapEdit source)) where
  windows := by
    intro e mem
    obtain ⟨g, held, rfl⟩ := List.mem_map.mp mem
    obtain ⟨inside, there⟩ := gapsOfMem ((gapsPerm blocks).subset held)
    exact (Edit.ofMarkerWindow (laid.gap inside there)).2.1
  falling := by
    refine List.pairwise_map.mpr ((gapsFalling laid).imp_of_mem ?_)
    intro g h inG inH clear
    obtain ⟨insideG, thereG⟩ := gapsOfMem ((gapsPerm blocks).subset inG)
    obtain ⟨insideH, thereH⟩ := gapsOfMem ((gapsPerm blocks).subset inH)
    have windowG := Edit.ofMarkerWindow (laid.gap insideG thereG)
    have windowH := Edit.ofMarkerWindow (laid.gap insideH thereH)
    unfold Marker.Clear at clear
    show (Edit.ofMarker source h.2).stop < (Edit.ofMarker source g.2).start
    omega

theorem askedFalling (laid : Laid source blocks) (rule : BlockRule) : (askedFromEnd blocks rule).Pairwise fun m n => n.Clear m :=
  List.pairwise_map.mpr ((gapsFalling laid).filter _)

theorem askedStacked (laid : Laid source blocks) (rule : BlockRule) :
    Edit.Stacked (Round.edits source (askedFromEnd blocks rule)) := by
  rw [Round.edits, askedFromEnd, List.map_map]
  exact (gapsStacked laid).made

theorem askedMem {rule : BlockRule} {m : Marker} :
    m ∈ askedFromEnd blocks rule ↔ ∃ g ∈ gapsOf blocks, Block.asks rule g = true ∧ g.2 = m := by
  simp only [askedFromEnd, List.mem_map, List.mem_filter, (gapsPerm blocks).mem_iff, and_assoc]

theorem askedGaps (laid : Laid source blocks) (rule : BlockRule) : ∀ m ∈ askedFromEnd blocks rule, m.Gap source := by
  intro m mem
  obtain ⟨g, held, -, rfl⟩ := askedMem.mp mem
  exact laid.gap (gapsOfMem held).1 (gapsOfMem held).2

theorem roundOf (laid : Laid source blocks) (located : ∀ b ∈ blocks, ∀ s ∈ b.statements, s.Located source)
    (unmarked : ∀ b ∈ blocks, b.markers = []) (rule : BlockRule) :
    Round source blocks rule (askedFromEnd blocks rule) where
  laid := laid
  located := located
  unmarked := unmarked
  stacked := askedStacked laid rule
  asked := fun _ => askedMem

end

namespace Document
variable {d : Document}

theorem markedGaps (fresh : d.Fresh) (rule : BlockRule) :
    (d.markedBy fun b => b.due rule).markers = ((gapsOf d.blocks).filter (Block.asks rule)).map Prod.snd := by
  rw [markers, markedBy, List.flatMap_map, gapsOf, List.filter_flatMap, List.map_flatMap]
  refine List.flatMap_congr fun b mem => ?_
  rw [Block.markedByMarkers (fresh.unmarked b mem), List.filter_map, List.map_map]
  exact (List.map_id _).symm

theorem appliedEdits (fresh : d.Fresh) (rule : BlockRule) :
    (d.apply rule).1.edits = ((gapsOf d.blocks).filter (Block.asks rule)).map (gapEdit d.source) := by
  obtain ⟨log, ran, -⟩ := applyFresh fresh rule
  rw [ran, edits, markedGaps fresh, List.map_map]
  rfl

theorem unmodified : d.modified = false ↔ d.markers = [] := by
  rw [modified, markers, List.flatMap_eq_nil_iff, List.any_eq_false]
  simp only [Bool.not_eq_true, Bool.not_eq_false', List.isEmpty_iff]

theorem modifiedEdits (d : Document) : d.modified = !d.edits.isEmpty := by
  rw [Bool.eq_iff_iff, ← Bool.not_eq_false, unmodified, edits, Bool.not_eq_true', ← Bool.not_eq_true, List.isEmpty_iff,
    List.map_eq_nil_iff]

theorem unmodifiedText (same : d.modified = false) : d.text = d.source := by
  rw [text, edits, unmodified.mp same, List.map_nil, Edit.fromEnd, List.mergeSort_nil, List.foldl_nil]

theorem askedPerm (fresh : d.Fresh) (rule : BlockRule) : (askedFromEnd d.blocks rule).Perm (d.wants rule) := by
  rw [← wantsMarked fresh, markedGaps fresh, askedFromEnd]
  exact ((gapsPerm d.blocks).filter _).map _

theorem appliedModified (fresh : d.Fresh) (rule : BlockRule) :
    (d.apply rule).1.modified = !(d.wants rule).isEmpty := by
  obtain ⟨log, ran, -⟩ := applyLogged fresh rule
  rw [ran, ← wantsMarked fresh, Bool.eq_iff_iff, ← Bool.not_eq_false, unmodified, Bool.not_eq_true',
    ← Bool.not_eq_true, List.isEmpty_iff]

theorem wantsGap (fresh : d.Fresh) (laid : Laid d.source d.blocks) (rule : BlockRule) :
    (∀ m ∈ d.wants rule, m.Gap d.source) ∧
      Edit.Stacked (Edit.fromEnd ((d.wants rule).map (Edit.ofMarker d.source))) := by
  have spaced := markedBySpaced laid fresh fun b => b.due rule
  have gaps := spaced.gaps
  have stacked := spaced.stacked
  rw [wantsMarked fresh] at gaps
  rw [edits, wantsMarked fresh] at stacked
  exact ⟨gaps, stacked⟩

theorem textOf {edits : List Edit} (stacked : Edit.Stacked edits) (within : ∀ e ∈ edits, e.stop ≤ d.source.length)
    (same : d.edits.Perm edits) : d.text = Edit.joined d.source edits d.source.length := by
  have all := Edit.foldJoined stacked (Nat.le_refl _) within []
  rw [List.take_length, List.append_nil, List.append_nil] at all
  rw [text, stacked.sorted same]
  exact all

theorem appliedPerm (fresh : d.Fresh) (rule : BlockRule) :
    (d.apply rule).1.edits.Perm (Round.edits d.source (askedFromEnd d.blocks rule)) := by
  rw [appliedEdits fresh, Round.edits, askedFromEnd, List.map_map]
  exact ((gapsPerm d.blocks).symm.filter _).map _

theorem appliedFromEnd (fresh : d.Fresh) (laid : Laid d.source d.blocks) (rule : BlockRule) :
    Edit.fromEnd (d.apply rule).1.edits = Round.edits d.source (askedFromEnd d.blocks rule) :=
  (askedStacked laid rule).sorted (appliedPerm fresh rule)

theorem appliedText (fresh : d.Fresh) (laid : Laid d.source d.blocks) (rule : BlockRule) :
    (d.apply rule).1.text = Round.text d.source (askedFromEnd d.blocks rule) :=
  textOf (askedStacked laid rule) (gapsWithin (askedGaps laid rule)) (appliedPerm fresh rule)

/-- With the edits that are asked for given from the end, nothing is left to be sorted. -/
theorem appliedAs {parser : Parser} {source : Bytes} {blocks : List Block} (unit : String)
    (parsed : (parser source).blocks = blocks) {rule : BlockRule} {edits : List Edit}
    (asked : (((gapsOf blocks).filter (Block.asks rule)).map (gapEdit source)).Perm edits) (stacked : Edit.Stacked edits)
    (within : ∀ e ∈ edits, e.stop ≤ source.length) :
    ((⟨unit, source, blocks⟩ : Document).apply rule).1.text = Edit.joined source edits source.length ∧
      ((⟨unit, source, blocks⟩ : Document).apply rule).1.modified = !edits.isEmpty := by
  subst parsed
  have made := appliedEdits (treeFresh unit source (parser source)) rule
  have same := (List.Perm.of_eq made).trans asked
  refine ⟨textOf stacked within same, ?_⟩
  rw [← same.isEmpty_eq, modifiedEdits]

theorem appliesRound (fresh : d.Fresh) (laid : Laid d.source d.blocks)
    (located : ∀ b ∈ d.blocks, ∀ s ∈ b.statements, s.Located d.source) (rule : BlockRule) :
    Edit.fromEnd (d.apply rule).1.edits = Round.edits d.source (askedFromEnd d.blocks rule) ∧
      (d.apply rule).1.text = Round.text d.source (askedFromEnd d.blocks rule) := by
  have round := roundOf laid located fresh.unmarked rule
  exact ⟨appliedFromEnd fresh laid rule, textOf round.stacked (gapsWithin round.gaps) (appliedPerm fresh rule)⟩

end Document

theorem Block.roomyMin (c : Block) (policy : SizePolicy) (a b : Nat) (t : Statement) :
    c.roomy ⟨min a b, policy⟩ t = (c.roomy ⟨a, policy⟩ t || c.roomy ⟨b, policy⟩ t) := by
  rw [Bool.eq_iff_iff]
  cases policy with
  | statements =>
    simp only [roomy, Bool.or_eq_true, decide_eq_true_eq]
    omega
  | lines =>
    simp only [roomy]
    cases c.entries.head?.bind Entry.statement? with
    | none => simp
    | some first =>
      simp only [Bool.or_eq_true, decide_eq_true_eq]
      omega

theorem asksMin (policy : SizePolicy) (a b : Nat) (g : Block × Marker) :
    Block.asks ⟨min a b, policy⟩ g = (Block.asks ⟨a, policy⟩ g || Block.asks ⟨b, policy⟩ g) := by
  simp only [Block.asks, Block.due, Block.roomyMin, Bool.and_or_distrib_left, Bool.and_or_distrib_right]

theorem asksLess (policy : SizePolicy) {a b : Nat} (le : a ≤ b) {g : Block × Marker}
    (asks : Block.asks ⟨b, policy⟩ g = true) : Block.asks ⟨a, policy⟩ g = true := by
  have either := asksMin policy a b g
  rw [asks, Bool.or_true, Nat.min_eq_left le] at either
  exact either

theorem gapsCarried (text : Bytes) (edits : List Edit) (blocks : List Block) :
    gapsOf (blocks.map (Block.carried text edits)) =
      (gapsOf blocks).map fun g => (g.1.carried text edits, g.2.carried text edits) := by
  rw [gapsOf, gapsOf, List.flatMap_map, List.map_flatMap]
  refine List.flatMap_congr fun b _ => ?_
  rw [Block.carriedStatements, neighboursMap, List.map_map, List.map_map]
  rfl

def Round.document (unit : String) (source : Bytes) (blocks : List Block) (rule : BlockRule) : Document where
  unit := unit
  source := text source (askedFromEnd blocks rule)
  blocks := blocks.map (Block.carried (text source (askedFromEnd blocks rule)) (edits source (askedFromEnd blocks rule)))

theorem Round.documentFresh (unit : String) (source : Bytes) (blocks : List Block) (rule : BlockRule) :
    (document unit source blocks rule).Fresh where
  unmarked := by
    intro b mem
    obtain ⟨c, -, rfl⟩ := List.mem_map.mp mem
    refine List.filterMap_eq_nil_iff.mpr fun e inside => ?_
    obtain ⟨s, -, rfl⟩ := List.mem_map.mp inside
    rfl
  positive := by
    intro b mem s held
    obtain ⟨c, -, rfl⟩ := List.mem_map.mp mem
    rw [Block.carriedStatements] at held
    obtain ⟨t, -, rfl⟩ := List.mem_map.mp held
    exact ⟨Nat.succ_pos _, Nat.succ_pos _⟩

section
variable {source : Bytes} {blocks : List Block} {policy : SizePolicy} {a : Nat}

theorem secondEdits (round : Round source blocks ⟨a, policy⟩ (askedFromEnd blocks ⟨a, policy⟩)) (unit : String) (b : Nat) :
    ((Round.document unit source blocks ⟨a, policy⟩).apply ⟨b, policy⟩).1.edits =
      ((gapsOf blocks).filter fun g => Block.asks ⟨b, policy⟩ g && !Block.asks ⟨a, policy⟩ g).map fun g =>
        Edit.carried (Round.edits source (askedFromEnd blocks ⟨a, policy⟩)) (gapEdit source g) := by
  have fresh := Round.documentFresh unit source blocks ⟨a, policy⟩
  let edits := Round.edits source (askedFromEnd blocks ⟨a, policy⟩)
  let text := Round.text source (askedFromEnd blocks ⟨a, policy⟩)
  have gaps : gapsOf (Round.document unit source blocks ⟨a, policy⟩).blocks =
      (gapsOf blocks).map fun g => (g.1.carried text edits, g.2.carried text edits) := gapsCarried text edits blocks
  have same : (gapsOf blocks).filter (Block.asks ⟨b, policy⟩ ∘ fun g => (g.1.carried text edits, g.2.carried text edits)) =
      (gapsOf blocks).filter fun g => Block.asks ⟨b, policy⟩ g && !Block.asks ⟨a, policy⟩ g :=
    List.filter_congr fun g mem => round.redecides mem b
  rw [Document.appliedEdits fresh, gaps, List.filter_map, List.map_map, same]
  refine List.map_congr_left fun g mem => ?_
  obtain ⟨inside, asks⟩ := List.mem_filter.mp mem
  have silent : Block.asks ⟨a, policy⟩ g = false := by
    simpa using (Bool.and_eq_true_iff.mp asks).2
  exact ofMarkerCarried round.gaps round.stacked (round.gapIn inside) (round.untouched inside silent)

theorem firstOfAll (blocks : List Block) (b : Nat) :
    Edit.madeBy (gapEdit source) (Block.asks ⟨a, policy⟩) ((gapsFromEnd blocks).filter (Block.asks ⟨min a b, policy⟩)) =
      Round.edits source (askedFromEnd blocks ⟨a, policy⟩) := by
  have all : ∀ g, (Block.asks ⟨a, policy⟩ g && Block.asks ⟨min a b, policy⟩ g) = Block.asks ⟨a, policy⟩ g := by
    intro g
    rw [asksMin]
    cases Block.asks ⟨a, policy⟩ g <;> rfl
  rw [Edit.madeBy, List.filter_filter, Round.edits, askedFromEnd, List.map_map]
  simp only [all]
  rfl

theorem restOfAll (blocks : List Block) (b : Nat) :
    Edit.leftBy (gapEdit source) (Block.asks ⟨a, policy⟩) ((gapsFromEnd blocks).filter (Block.asks ⟨min a b, policy⟩)) =
      ((gapsFromEnd blocks).filter fun g => Block.asks ⟨b, policy⟩ g && !Block.asks ⟨a, policy⟩ g).map fun g =>
        Edit.carried (Round.edits source (askedFromEnd blocks ⟨a, policy⟩)) (gapEdit source g) := by
  have rest : ∀ g, (!Block.asks ⟨a, policy⟩ g && Block.asks ⟨min a b, policy⟩ g) =
      (Block.asks ⟨b, policy⟩ g && !Block.asks ⟨a, policy⟩ g) := by
    intro g
    rw [asksMin]
    cases Block.asks ⟨a, policy⟩ g <;> cases Block.asks ⟨b, policy⟩ g <;> rfl
  rw [Edit.leftBy, firstOfAll, List.filter_filter]
  simp only [rest]

theorem secondText (round : Round source blocks ⟨a, policy⟩ (askedFromEnd blocks ⟨a, policy⟩)) (unit : String) (b : Nat) :
    ((Round.document unit source blocks ⟨a, policy⟩).apply ⟨b, policy⟩).1.text =
      Round.text source (askedFromEnd blocks ⟨min a b, policy⟩) := by
  let edits := Round.edits source (askedFromEnd blocks ⟨a, policy⟩)
  let text := Round.text source (askedFromEnd blocks ⟨a, policy⟩)
  let gaps := (gapsFromEnd blocks).filter (Block.asks ⟨min a b, policy⟩)
  let chosen := Block.asks ⟨a, policy⟩
  have stacked : Edit.Stacked (gaps.map (gapEdit source)) := (gapsStacked round.laid).made
  have first : Edit.madeBy (gapEdit source) chosen gaps = edits := firstOfAll blocks b
  have within : ∀ e ∈ gaps.map (gapEdit source), e.stop ≤ source.length := by
    intro e mem
    obtain ⟨g, held, rfl⟩ := List.mem_map.mp mem
    have gap := round.gapIn ((gapsPerm blocks).subset (List.mem_filter.mp held).1)
    exact Nat.le_trans (Edit.ofMarkerWindow gap).2.2 (Nat.le_of_lt gap.inside.2.2)
  have long : text.length = Edit.moved edits source.length :=
    Edit.joinedLength round.stacked (Nat.le_refl _) (gapsWithin round.gaps)
  have inside : ∀ e ∈ Edit.leftBy (gapEdit source) chosen gaps, e.stop ≤ text.length := by
    intro e mem
    obtain ⟨g, held, rfl⟩ := List.mem_map.mp mem
    rw [long, ← first]
    exact Edit.movedLe _ (within _ (List.mem_map_of_mem (List.mem_filter.mp held).1))
  have same : ((Round.document unit source blocks ⟨a, policy⟩).apply ⟨b, policy⟩).1.edits.Perm
      (Edit.leftBy (gapEdit source) chosen gaps) := by
    rw [secondEdits round, restOfAll]
    exact ((gapsPerm blocks).symm.filter _).map _
  have twice := Edit.joinedTwice (p := chosen) stacked (Nat.le_refl source.length) within []
  rw [first, List.append_nil, ← long] at twice
  refine (Document.textOf stacked.others inside same).trans (twice.trans ?_)
  rw [Round.text, Round.edits, askedFromEnd, List.map_map]
  rfl

theorem secondNothing (round : Round source blocks ⟨a, policy⟩ (askedFromEnd blocks ⟨a, policy⟩)) (unit : String) {b : Nat}
    (le : a ≤ b) : ((Round.document unit source blocks ⟨a, policy⟩).apply ⟨b, policy⟩).1.modified = false := by
  have none : (gapsOf blocks).filter (fun g => Block.asks ⟨b, policy⟩ g && !Block.asks ⟨a, policy⟩ g) = [] := by
    refine List.filter_eq_nil_iff.mpr fun g _ both => ?_
    obtain ⟨asks, silent⟩ := Bool.and_eq_true_iff.mp both
    rw [asksLess policy le asks] at silent
    cases silent
  have edits := secondEdits round unit b
  rw [none, List.map_nil, Document.edits] at edits
  exact Document.unmodified.mpr (List.map_eq_nil_iff.mp edits)

end

theorem formatLogged {parser : Parser} {unit : String} {source : Bytes} (rule : BlockRule)
    (accepted : (parser source).hasError = false)
    (reparsed : (parser ((⟨unit, source, (parser source).blocks⟩ : Document).apply rule).1.text).hasError = false) :
    let d : Document := ⟨unit, source, (parser source).blocks⟩
    ∃ log : List Change, format parser rule unit source =
        .ok ⟨unit, (d.apply rule).1.text, (d.apply rule).1.modified, log.mergeSort Change.notAfter⟩ ∧
      log.map Change.row = (d.wants rule).map fun m => m.target.row unit := by
  intro d
  have fresh : d.Fresh := treeFresh unit source (parser source)
  obtain ⟨log, ran, rows⟩ := Document.applyLogged fresh rule
  refine ⟨log, ?_, rows⟩
  have parsed : Document.parse parser unit source = .ok d := by
    simp only [Document.parse, accepted, Bool.false_eq_true, if_false]
    rfl
  have wanted := Document.wantsMarked fresh rule
  rw [ran] at reparsed ⊢
  generalize marks : Document.markedBy _ _ = marked at ran reparsed wanted ⊢
  have kept : marked.source = source := by rw [← marks]; rfl
  simp only [format, parsed, ran, Except.mapError, bind, Except.bind]
  cases modified : marked.modified with
  | false =>
    have none := Document.unmodified.mp modified
    have text : marked.text = source := (Document.unmodifiedText modified).trans kept
    have empty : log = [] := List.map_eq_nil_iff.mp (rows.trans (by rw [← wanted, none]; rfl))
    rw [text, empty, List.mergeSort_nil]
    rfl
  | true =>
    have rendered : marked.render parser = .ok marked.text := by
      simp only [Document.render, reparsed, Bool.false_eq_true, if_false]
    simp only [if_true, rendered]
    rfl

theorem formatText {parser : Parser} {unit : String} {source : Bytes} (rule : BlockRule)
    (accepted : (parser source).hasError = false)
    (reparsed : (parser ((⟨unit, source, (parser source).blocks⟩ : Document).apply rule).1.text).hasError = false) :
    ∃ r, format parser rule unit source = .ok r ∧
      r.content = ((⟨unit, source, (parser source).blocks⟩ : Document).apply rule).1.text ∧
      r.modified = ((⟨unit, source, (parser source).blocks⟩ : Document).apply rule).1.modified := by
  obtain ⟨log, ran, -⟩ := formatLogged rule accepted reparsed
  exact ⟨_, ran, rfl, rfl⟩

/-- Two rounds of one policy give the bytes of one with the smaller block size; when the
second asks for no more than the first, it leaves everything as it is. -/
theorem formatComposes (parser : Parser) (unit : String) (source : Bytes) (accepted : (parser source).hasError = false)
    (faithful : Faithful parser source) (policy : SizePolicy) (a b : Nat) :
    ∃ first second once, format parser ⟨a, policy⟩ unit source = .ok first ∧
      format parser ⟨b, policy⟩ unit first.content = .ok second ∧
      format parser ⟨min a b, policy⟩ unit source = .ok once ∧ second.content = once.content ∧
      (a ≤ b → second.modified = false ∧ second.content = first.content) := by
  let blocks := (parser source).blocks
  have fresh := treeFresh unit source (parser source)
  have round := roundOf faithful.laid faithful.located fresh.unmarked ⟨a, policy⟩
  obtain ⟨editsFirst, textFirst⟩ := Document.appliesRound fresh faithful.laid faithful.located ⟨a, policy⟩
  obtain ⟨-, textOnce⟩ := Document.appliesRound fresh faithful.laid faithful.located ⟨min a b, policy⟩
  obtain ⟨acceptedFirst, reparsed⟩ := faithful.rendered unit ⟨a, policy⟩
  obtain ⟨acceptedOnce, -⟩ := faithful.rendered unit ⟨min a b, policy⟩
  obtain ⟨first, ranFirst, contentFirst, -⟩ := formatText ⟨a, policy⟩ accepted acceptedFirst
  obtain ⟨once, ranOnce, contentOnce, -⟩ := formatText ⟨min a b, policy⟩ accepted acceptedOnce
  have document : (⟨unit, first.content, (parser first.content).blocks⟩ : Document) =
      Round.document unit source blocks ⟨a, policy⟩ := by
    rw [contentFirst, reparsed, editsFirst, textFirst]
    rfl
  have textSecond := secondText round unit b
  rw [← document, ← textOnce, ← contentOnce] at textSecond
  have acceptedText : (parser first.content).hasError = false := contentFirst ▸ acceptedFirst
  have acceptedSecond : (parser ((⟨unit, first.content, (parser first.content).blocks⟩ : Document).apply
      ⟨b, policy⟩).1.text).hasError = false := by
    rw [textSecond, contentOnce]
    exact acceptedOnce
  obtain ⟨second, ranSecond, contentSecond, modifiedSecond⟩ := formatText ⟨b, policy⟩ acceptedText acceptedSecond
  refine ⟨first, second, once, ranFirst, ranSecond, ranOnce, contentSecond.trans textSecond, fun le => ?_⟩
  have nothing := secondNothing round unit le
  rw [← document, ← modifiedSecond] at nothing
  refine ⟨nothing, ?_⟩
  rw [contentSecond, textSecond, contentOnce, Nat.min_eq_left le, contentFirst]

theorem closureAsks (rule : BlockRule) : ∃ size ∈ [0, 1, 2],
    (gapsOf Document.closureBlocks).filter (Block.asks rule) =
      (gapsOf Document.closureBlocks).filter (Block.asks ⟨size, .lines⟩) := by
  obtain ⟨size, policy⟩ := rule
  match size with
  | 0 => exact ⟨0, by decide, by cases policy <;> decide⟩
  | 1 => exact ⟨1, by decide, by cases policy <;> decide⟩
  | size + 2 =>
    have none : ∀ g ∈ gapsOf Document.closureBlocks, Block.asks ⟨2, policy⟩ g = false := by
      cases policy <;> decide
    refine ⟨2, by decide, ?_⟩
    have silent : ∀ g ∈ gapsOf Document.closureBlocks, ¬ Block.asks ⟨size + 2, policy⟩ g = true := by
      intro g mem asks
      have less := asksLess policy (Nat.le_add_left 2 size) asks
      rw [none g mem] at less
      cases less
    rw [List.filter_eq_nil_iff.mpr silent]
    decide

def closureEdits (size : Nat) : List Edit :=
  ((gapsOf Document.closureBlocks).filter (Block.asks ⟨size, .lines⟩)).map (gapEdit Document.closureSource)

theorem closureSorted : ∀ size ∈ [0, 1, 2], Edit.fromEnd (closureEdits size) = closureEdits size := by
  have falling : ∀ size ∈ [0, 1, 2], (closureEdits size).Pairwise fun e f => decide (f.start ≤ e.start) = true := by
    decide +kernel
  exact fun size mem => List.mergeSort_of_pairwise (falling size mem)

theorem closureReparsed : ∀ size ∈ [0, 1, 2],
    (Go.parse ((closureEdits size).foldl Edit.apply Document.closureSource)).hasError = false ∧
      (Go.parse ((closureEdits size).foldl Edit.apply Document.closureSource)).blocks = Document.closureBlocks.map
        (Block.carried ((closureEdits size).foldl Edit.apply Document.closureSource) (closureEdits size)) := by
  decide +kernel

theorem closureApplied (unit : String) {rule : BlockRule} {size : Nat} (mem : size ∈ [0, 1, 2])
    (asks : (gapsOf Document.closureBlocks).filter (Block.asks rule) =
      (gapsOf Document.closureBlocks).filter (Block.asks ⟨size, .lines⟩)) :
    let d : Document := ⟨unit, Document.closureSource, (Go.parse Document.closureSource).blocks⟩
    Edit.fromEnd (d.apply rule).1.edits = closureEdits size ∧
      (d.apply rule).1.text = (closureEdits size).foldl Edit.apply Document.closureSource := by
  intro d
  have fresh : d.Fresh := treeFresh unit Document.closureSource (Go.parse Document.closureSource)
  have made : (d.apply rule).1.edits = closureEdits size := by
    rw [Document.appliedEdits fresh, show gapsOf d.blocks = gapsOf Document.closureBlocks from
      congrArg gapsOf Document.closureParsed, asks]
    rfl
  have sorted : Edit.fromEnd (d.apply rule).1.edits = closureEdits size := by rw [made, closureSorted size mem]
  exact ⟨sorted, by rw [Document.text, sorted]; rfl⟩

theorem closureFaithful : Faithful Go.parse Document.closureSource where
  laid := by
    rw [Document.closureParsed]
    decide +kernel
  located := by
    rw [Document.closureParsed]
    decide +kernel
  rendered := by
    intro unit rule marked
    obtain ⟨size, mem, asks⟩ := closureAsks rule
    obtain ⟨made, text⟩ := closureApplied unit mem asks
    rw [text, made, Document.closureParsed]
    exact closureReparsed size mem

theorem closureFormatsTwice : (Go.parse Document.closureSource).hasError = false ∧
    Faithful Go.parse Document.closureSource ∧
    ∃ first second, format Go.parse ⟨1, .lines⟩ "f.go" Document.closureSource = .ok first ∧
      format Go.parse ⟨0, .lines⟩ "f.go" first.content = .ok second ∧ second.content = Document.closureSpaced := by
  have accepted : (Go.parse Document.closureSource).hasError = false := by decide +kernel
  obtain ⟨first, second, once, ranFirst, ranSecond, ranOnce, same, -⟩ :=
    formatComposes Go.parse "f.go" Document.closureSource accepted closureFaithful .lines 1 0
  obtain ⟨whole, ran, content, -⟩ := formatText ⟨0, .lines⟩ accepted (closureFaithful.rendered "f.go" ⟨0, .lines⟩).1
  obtain rfl : once = whole := Except.ok.inj (ranOnce.symm.trans ran)
  have text : (closureEdits 0).foldl Edit.apply Document.closureSource = Document.closureSpaced := by decide +kernel
  exact ⟨accepted, closureFaithful, first, second, ranFirst, ranSecond,
    same.trans (content.trans ((closureApplied "f.go" (by decide) rfl).2.trans text))⟩

end ExitSpacing
