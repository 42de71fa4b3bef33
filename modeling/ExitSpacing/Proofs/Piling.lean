import ExitSpacing.Proofs.Repeating
import ExitSpacing.Proofs.Splicing
import Mathlib.Algebra.BigOperators.Group.List.Lemmas
import Mathlib.Algebra.Order.BigOperators.Group.List
import Mathlib.Algebra.Order.Group.Nat

/-! Markers spliced into a tree by hand, any number of them before one target, and what rendering makes
of them: one edit for each, on the source's own offsets. -/
namespace ExitSpacing
open Bytes

namespace Marker
variable {source : Bytes} {ms : List Marker}

structure Scattered (source : Bytes) (ms : List Marker) : Prop where
  gaps : ∀ m ∈ ms, m.Gap source
  clear : ∀ m ∈ ms, ∀ n ∈ ms, m ≠ n → m.Clear n ∨ n.Clear m

def distinct (source : Bytes) (ms : List Marker) : List Marker :=
  ms.dedup.mergeSort fun m n => decide ((Edit.ofMarker source n).start ≤ (Edit.ofMarker source m).start)

theorem distinctPerm (source : Bytes) (ms : List Marker) : (distinct source ms).Perm ms.dedup := List.mergeSort_perm ..

theorem distinctMem {m : Marker} : m ∈ distinct source ms ↔ m ∈ ms :=
  (distinctPerm source ms).mem_iff.trans List.mem_dedup

def stack (source : Bytes) (ms : List Marker) (m : Marker) : Edit × Nat := (Edit.ofMarker source m, ms.count m - 1)

def heap (source : Bytes) (ms : List Marker) (m : Marker) : Edit := (Edit.ofMarker source m).repeated (ms.count m - 1)

theorem distinctStacked (scattered : Scattered source ms) :
    Edit.Stacked ((distinct source ms).map (Edit.ofMarker source)) := by
  have same : (distinct source ms).map (Edit.ofMarker source) = Edit.fromEnd (ms.dedup.map (Edit.ofMarker source)) :=
    List.map_mergeSort fun _ _ _ _ => rfl
  rw [same]
  refine Edit.fromEndStacked ?_ (List.pairwise_map.mpr (ms.nodup_dedup.pairwise_of_forall_ne ?_))
  · intro e mem
    obtain ⟨m, held, rfl⟩ := List.mem_map.mp mem
    exact (Edit.ofMarkerWindow (scattered.gaps m (List.mem_dedup.mp held))).2.1
  · intro m inM n inN other
    have heldM := List.mem_dedup.mp inM
    have heldN := List.mem_dedup.mp inN
    exact (scattered.gaps m heldM).separate (scattered.gaps n heldN) (scattered.clear m heldM n heldN other)

theorem stackEdits (source : Bytes) (ms : List Marker) :
    ((distinct source ms).map (stack source ms)).map Prod.fst = (distinct source ms).map (Edit.ofMarker source) := by
  rw [List.map_map]
  rfl

theorem stackStacked (scattered : Scattered source ms) :
    Edit.Stacked (((distinct source ms).map (stack source ms)).map Prod.fst) :=
  (stackEdits source ms).symm ▸ distinctStacked scattered

theorem stackInside (scattered : Scattered source ms) :
    ∀ x ∈ (distinct source ms).map (stack source ms), x.1.stop < source.length := by
  intro x mem
  obtain ⟨m, held, rfl⟩ := List.mem_map.mp mem
  have gap := scattered.gaps m (distinctMem.mp held)
  exact Nat.lt_of_le_of_lt (Edit.ofMarkerWindow gap).2.2 (solidInside gap.target.first)

theorem heapStacked (scattered : Scattered source ms) : Edit.Stacked ((distinct source ms).map (heap source ms)) := by
  have repeats := Edit.repeatedStacked (stackStacked scattered)
  rwa [List.map_map] at repeats

theorem heapWithin (scattered : Scattered source ms) :
    ∀ e ∈ (distinct source ms).map (heap source ms), e.stop ≤ source.length := by
  intro e mem
  obtain ⟨m, held, rfl⟩ := List.mem_map.mp mem
  exact Nat.le_of_lt (stackInside scattered _ (List.mem_map_of_mem held))

theorem permDistinct (ms : List Marker) : (ms.dedup.flatMap fun m => List.replicate (ms.count m) m).Perm ms := by
  refine List.perm_iff_count.mpr fun m => ?_
  have each : ∀ ds : List Marker, (ds.map (List.count m ∘ fun n => List.replicate (ms.count n) n)).sum =
      ((ds.filter (· == m)).map fun n => ms.count n).sum := by
    intro ds
    induction ds with
    | nil => rfl
    | cons n ds ih => by_cases same : n = m <;> simp [same, List.count_replicate, ih]
  rw [List.count_flatMap, each, List.sum_map_count_dedup_filter_eq_countP]
  rfl

theorem fromEndSpread (scattered : Scattered source ms) :
    Edit.fromEnd (ms.map (Edit.ofMarker source)) = Edit.spread ((distinct source ms).map (stack source ms)) := by
  refine Edit.spreadSorted (stackStacked scattered) ?_
  have all := (((distinctPerm source ms).flatMap_right _).trans (permDistinct ms)).map (Edit.ofMarker source)
  simp only [List.map_flatMap, List.map_replicate] at all
  rw [Edit.spread, List.flatMap_map]
  refine all.symm.trans (List.Perm.of_eq (List.flatMap_congr fun m mem => ?_))
  have some : 0 < ms.count m := List.count_pos_iff.mpr (distinctMem.mp mem)
  rw [stack, Nat.sub_add_cancel some]

end Marker

namespace Document
open Marker
variable {d : Document}

theorem spreadText (scattered : Scattered d.source d.markers) :
    d.text = (Edit.spread ((distinct d.source d.markers).map (stack d.source d.markers))).foldl Edit.apply
      (d.source.take d.source.length ++ []) := by
  rw [text, edits, fromEndSpread scattered, List.take_length, List.append_nil]

section
variable (scattered : Scattered d.source d.markers)
  (roomy : ∀ m ∈ d.markers, 2 ≤ d.markers.count m → (Edit.ofMarker d.source m).Roomy)
include scattered roomy

theorem stackedText :
    d.text = Edit.joined d.source ((distinct d.source d.markers).map (heap d.source d.markers)) d.source.length := by
  have room : ∀ x ∈ (distinct d.source d.markers).map (stack d.source d.markers), 0 < x.2 → x.1.Roomy := by
    intro x mem more
    obtain ⟨m, held, rfl⟩ := List.mem_map.mp mem
    exact roomy m (distinctMem.mp held) (by simp only [stack] at more; omega)
  have within := fun x mem => Nat.le_of_lt (stackInside scattered x mem)
  have atOnce := Edit.foldJoined (heapStacked scattered) (Nat.le_refl _) (heapWithin scattered) []
  rw [spreadText scattered, Edit.foldSpread (stackStacked scattered) room (Nat.le_refl _) within [], List.map_map]
  exact atOnce.trans (List.append_nil _)

theorem stackedProgram : program d.text = program d.source := by
  rw [stackedText scattered roomy]
  refine (Edit.joinedProgram (heapStacked scattered) ?_ (heapWithin scattered)).trans (congrArg program List.take_length)
  intro e mem
  obtain ⟨m, held, rfl⟩ := List.mem_map.mp mem
  obtain ⟨kept, dropped, added, parts⟩ := (Edit.ofMarkerRespaces d.source m).parts
  have inside : (Edit.ofMarker d.source m).stop ≤ d.source.length := heapWithin scattered (heap d.source d.markers m) mem
  exact parts.repeatedProgram inside _

theorem stackedFeeds :
    lineFeeds d.text = lineFeeds d.source + (d.markers.dedup.map fun m =>
      m.target.addedFeeds d.source + (d.markers.count m - 1) * lineFeeds (Edit.ofMarker d.source m).again).sum := by
  rw [stackedText scattered roomy, ← ((distinctPerm d.source d.markers).map _).sum_nat]
  exact (Edit.joinedAdded _ _ (heapStacked scattered) (fun m _ => Edit.repeatedFeeds d.source m _)
    (heapWithin scattered)).trans (congrArg (lineFeeds · + _) List.take_length)

theorem stackedEnough
    (more : ∀ m ∈ d.markers, 3 ≤ d.markers.count m → lineFeed ∈ (Edit.ofMarker d.source m).again) :
    lineFeeds d.source + d.markers.length ≤ lineFeeds d.text := by
  rw [stackedFeeds scattered roomy, ← List.sum_map_count_dedup_eq_length d.markers]
  refine Nat.add_le_add_left (List.sum_le_sum fun m mem => ?_) _
  have held := List.mem_dedup.mp mem
  exact Edit.repeatedEnough (List.count_pos_iff.mpr held) (more m held)

end

theorem stackedLoses (scattered : Scattered d.source d.markers) {m : Marker} (mem : m ∈ d.markers)
    (several : 2 ≤ d.markers.count m) (narrow : ¬ (Edit.ofMarker d.source m).Roomy)
    (visible : d.source[m.target.startByte]? ≠ some semicolon) : program d.text ≠ program d.source := by
  have stacked := stackStacked scattered
  have respaces : ∀ x ∈ (distinct d.source d.markers).map (stack d.source d.markers), Edit.Respaces d.source x.1 := by
    intro x mem
    obtain ⟨n, -, rfl⟩ := List.mem_map.mp mem
    exact Edit.ofMarkerRespaces d.source n
  -- An edit of a target that opens its line takes nothing out, so it always has room.
  have shares : m.target.opensLine d.source = false := by
    by_contra opens
    exact narrow (Edit.roomyOpens (Bool.not_eq_false _ ▸ opens))
  obtain ⟨b, there, solid⟩ := (scattered.gaps m mem).target.first
  have first : isProgram b = true := solidProgram solid fun same => visible (same ▸ there)
  have stop : (Edit.ofMarker d.source m).stop = m.target.startByte := by rw [Edit.ofMarkerShares shares]
  have fewer := (Edit.spreadFewer stacked respaces (Nat.le_refl _) (stackInside scattered) []).2
    ⟨stack d.source d.markers m, List.mem_map_of_mem (distinctMem.mpr mem), by simp only [stack]; omega, narrow, b,
      stop ▸ there, first⟩
  rw [← spreadText scattered, List.take_length, List.append_nil] at fewer
  exact fun same => absurd (congrArg List.length same) (Nat.ne_of_lt fewer)

/-- What comes of a document by calls of `splice` that succeed, each marker with the statement right before
its target. -/
inductive Spliced (d : Document) : Document → Prop where
  | untouched : Spliced d d
  | splice {e : Document} {k : Nat} {b c : Block} {i : Int} {m : Marker} (before : Spliced d e)
      (there : e.blocks[k]? = some b) (follows : m ∈ neighbours b.statements) (put : b.splice i m = .ok c) :
      Spliced d { e with blocks := e.blocks.set k c }

structure Annotates (d e : Document) : Prop where
  source : e.source = d.source
  statements : e.blocks.map Block.statements = d.blocks.map Block.statements
  markers : ∀ b ∈ e.blocks, ∀ m ∈ b.markers, m ∈ neighbours b.statements

theorem Spliced.annotates {e : Document} (spliced : Spliced d e) (fresh : d.Fresh) : d.Annotates e := by
  induction spliced with
  | untouched =>
    refine ⟨rfl, rfl, fun b mem m held => ?_⟩
    rw [fresh.unmarked b mem] at held
    cases held
  | @splice e k b c i m _ there follows put ih =>
    have same := Block.splicedStatements put
    obtain ⟨inside, here⟩ := List.getElem?_eq_some_iff.mp there
    have found : (e.blocks.map Block.statements)[k]? = some b.statements := by
      rw [List.getElem?_map, there]
      rfl
    obtain ⟨wide, held⟩ := List.getElem?_eq_some_iff.mp found
    refine ⟨ih.source, ?_, fun x mem n held => ?_⟩
    · rw [← ih.statements, List.map_set, same, ← held]
      exact List.set_getElem_self wide
    · obtain kept | rfl := List.mem_or_eq_of_mem_set mem
      · exact ih.markers x kept n held
      · rw [same]
        obtain rfl | old := List.mem_cons.mp ((Block.splicedMarkers put).mem_iff.mp held)
        · exact follows
        · exact ih.markers b (here ▸ List.getElem_mem inside) n old

theorem Annotates.scattered {e : Document} (annotates : d.Annotates e) (laid : Laid d.source d.blocks) :
    Scattered e.source e.markers := by
  have within : ∀ m ∈ e.markers, m ∈ d.blocks.flatMap fun b => neighbours b.statements := by
    intro m mem
    obtain ⟨b, inside, held⟩ := List.mem_flatMap.mp mem
    have there : b.statements ∈ d.blocks.map Block.statements := annotates.statements ▸ List.mem_map_of_mem inside
    obtain ⟨c, old, same⟩ := List.mem_map.mp there
    exact List.mem_flatMap.mpr ⟨c, old, same ▸ annotates.markers b inside m held⟩
  rw [annotates.source]
  refine ⟨fun m mem => ?_, fun m inM n inN other => ?_⟩
  · obtain ⟨b, inside, held⟩ := List.mem_flatMap.mp (within m mem)
    exact laid.gap inside held
  · have symm : Std.Symm fun m n : Marker => m.Clear n ∨ n.Clear m := ⟨fun _ _ => Or.symm⟩
    exact laid.clear.forall (within m inM) (within n inN) other

/-- Rendering a tree into which markers were spliced, each behind the statement before its target and any
number of them before one target. Where the edit of a target with several markers has room, all program
text is kept, and every further marker adds what that edit again adds; the text has a line feed more for
each marker unless from the third marker of a target on none is added. And where an edit has no room,
several markers for it cost program text, except in front of an empty statement. -/
theorem splicedRenders (unit : String) (source : Bytes) (tree : Tree) (laid : Laid source tree.blocks) {d : Document}
    (spliced : Spliced ⟨unit, source, tree.blocks⟩ d) :
    ((∀ m ∈ d.markers, 2 ≤ d.markers.count m → (Edit.ofMarker source m).Roomy) →
      program d.text = program source ∧
      lineFeeds d.text = lineFeeds source + (d.markers.dedup.map fun m =>
        m.target.addedFeeds source + (d.markers.count m - 1) * lineFeeds (Edit.ofMarker source m).again).sum ∧
      ((∀ m ∈ d.markers, 3 ≤ d.markers.count m → lineFeed ∈ (Edit.ofMarker source m).again) →
        lineFeeds source + d.markers.length ≤ lineFeeds d.text)) ∧
    (program d.text = program source → ∀ m ∈ d.markers, 2 ≤ d.markers.count m →
      source[m.target.startByte]? ≠ some semicolon → (Edit.ofMarker source m).Roomy) := by
  have annotates := spliced.annotates (treeFresh unit source tree)
  have scattered := annotates.scattered laid
  obtain rfl : d.source = source := annotates.source
  refine ⟨fun roomy => ⟨stackedProgram scattered roomy, stackedFeeds scattered roomy, stackedEnough scattered roomy⟩, ?_⟩
  intro kept m mem several visible
  by_contra narrow
  exact stackedLoses scattered mem several narrow visible kept

def closureDoubled : Document :=
  let m (t p : Statement) : Entry := .marker ⟨t, p⟩
  { unit := "f.go"
    source := closureSource
    blocks := closureBlocks.mapIdx fun i b =>
      { b with entries := match i, b.statements with
        | 0, [a, g, r] => [.statement a, .statement g, m r g, m r g, .statement r]
        | _, [a, r] => [.statement a, m r a, .statement r]
        | _, _ => b.entries } }

theorem closureSpliced : Spliced ⟨"f.go", closureSource, closureBlocks⟩ closureDoubled := by
  let outer := closureBlocks[0].statements
  let inner := closureBlocks[1].statements
  exact .splice (k := 0) (i := 3) (m := ⟨outer[2], outer[1]⟩)
    (.splice (k := 1) (i := 1) (m := ⟨inner[1], inner[0]⟩)
      (.splice (k := 0) (i := 2) (m := ⟨outer[2], outer[1]⟩) .untouched rfl (by decide) rfl) rfl (by decide) rfl)
    rfl (by decide) rfl

theorem closureKept : Laid closureSource (Go.parse closureSource).blocks ∧
    Spliced ⟨"f.go", closureSource, (Go.parse closureSource).blocks⟩ closureDoubled ∧
    (∀ m ∈ closureDoubled.markers, 2 ≤ closureDoubled.markers.count m → (Edit.ofMarker closureSource m).Roomy) ∧
    program closureDoubled.text = program closureSource ∧
    lineFeeds closureSource + 3 ≤ lineFeeds closureDoubled.text := by
  have laid : Laid closureSource (Go.parse closureSource).blocks := by
    rw [closureParsed]
    decide +kernel
  have spliced : Spliced ⟨"f.go", closureSource, (Go.parse closureSource).blocks⟩ closureDoubled := by
    rw [closureParsed]
    exact closureSpliced
  have roomy : ∀ m ∈ closureDoubled.markers, 2 ≤ closureDoubled.markers.count m →
      (Edit.ofMarker closureSource m).Roomy := by decide +kernel
  obtain ⟨kept, -, enough⟩ := (splicedRenders "f.go" closureSource (Go.parse closureSource) laid spliced).1 roomy
  exact ⟨laid, spliced, roomy, kept, enough (by decide +kernel)⟩

def wideSource : Bytes := ofString "func f() \x7b\n\ta();         return x()\n\x7d\n"

def wideSpaced : Bytes := ofString "func f() \x7b\n\ta()\n\n\tx()\n\x7d\n"

def wideBlocks : List Block :=
  [⟨"block", [.statement ⟨⟨0, 0⟩, "expression_statement", .plain, 2, 2, 2, 12, 15⟩,
    .statement ⟨⟨0, 1⟩, "return_statement", .returning, 2, 2, 15, 25, 35⟩]⟩]

/-- Two markers before the exit of `wideSource`, which more separators stand in front of than an edit adds bytes. -/
def wideDoubled : Document :=
  let call : Statement := ⟨⟨0, 0⟩, "expression_statement", .plain, 2, 2, 2, 12, 15⟩
  let exit : Statement := ⟨⟨0, 1⟩, "return_statement", .returning, 2, 2, 15, 25, 35⟩
  ⟨"f.go", wideSource, [⟨"block", [.statement call, .marker ⟨exit, call⟩, .marker ⟨exit, call⟩, .statement exit]⟩]⟩

/-- The second time the edit is made on what the first has left, it takes the keyword of the exit. -/
theorem wideLosesExit : Laid wideSource (Go.parse wideSource).blocks ∧
    Spliced ⟨"f.go", wideSource, (Go.parse wideSource).blocks⟩ wideDoubled ∧ wideDoubled.markers.length = 2 ∧
    wideDoubled.render Go.parse = .ok wideSpaced ∧ program wideSpaced ≠ program wideSource := by
  have parsed : (Go.parse wideSource).blocks = wideBlocks := by decide +kernel
  have text : wideDoubled.text = wideSpaced := by
    rw [text, Edit.fromEnd, List.mergeSort_of_pairwise (by decide +kernel)]
    decide +kernel
  have accepted : (Go.parse wideSpaced).hasError = false := by decide +kernel
  rw [parsed]
  refine ⟨by decide +kernel, ?_, rfl, ?_, by decide +kernel⟩
  · let call := wideBlocks[0].statements[0]
    let exit := wideBlocks[0].statements[1]
    exact .splice (k := 0) (i := 2) (m := ⟨exit, call⟩)
      (.splice (k := 0) (i := 1) (m := ⟨exit, call⟩) .untouched rfl (by decide) rfl) rfl (by decide) rfl
  · rw [render, text, accepted]
    rfl

end Document
end ExitSpacing
