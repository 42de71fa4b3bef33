import ExitSpacing.Proofs.LineHeads
import ExitSpacing.Proofs.Rendering
import ExitSpacing.Proofs.Rounds

/-! Statements in a rendered text: where their spans are found, on which lines they
stand there, and what the edit of a gap is there that the first round left alone. -/
namespace ExitSpacing
open Bytes

def lineAt (source : Bytes) (offset : Nat) : Nat := lineFeeds (source.take offset) + 1

def columnAt (source : Bytes) (offset : Nat) : Nat := offset - lineStart source offset + 1

structure Statement.Located (source : Bytes) (s : Statement) : Prop where
  startLine : s.startLine = lineAt source s.startByte
  endLine : s.endLine = lineAt source (s.endByte - 1)
  startColumn : s.startColumn = columnAt source s.startByte
instance (source s) : Decidable (Statement.Located source s) :=
  decidable_of_iff (s.startLine = lineAt source s.startByte ∧ s.endLine = lineAt source (s.endByte - 1) ∧
      s.startColumn = columnAt source s.startByte)
    ⟨fun h => ⟨h.1, h.2.1, h.2.2⟩, fun h => ⟨h.startLine, h.endLine, h.startColumn⟩⟩

def Statement.carried (text : Bytes) (edits : List Edit) (s : Statement) : Statement :=
  { s with
    startLine := lineAt text (Edit.moved edits s.startByte)
    endLine := lineAt text (Edit.moved edits (s.endByte - 1))
    startColumn := columnAt text (Edit.moved edits s.startByte)
    startByte := Edit.moved edits s.startByte
    endByte := Edit.moved edits (s.endByte - 1) + 1 }

def Block.carried (text : Bytes) (edits : List Edit) (b : Block) : Block :=
  { b with entries := b.statements.map fun s => .statement (s.carried text edits) }

def Marker.carried (text : Bytes) (edits : List Edit) (m : Marker) : Marker :=
  ⟨m.target.carried text edits, m.predecessor.carried text edits⟩

theorem lineAtMono (source : Bytes) {a b : Nat} (le : a ≤ b) : lineAt source a ≤ lineAt source b := by
  have fewer := (List.take_sublist_take_left (l := source) le).count_le lineFeed
  exact Nat.succ_le_succ fewer

theorem lineAtCut (source : Bytes) {a b : Nat} (le : a ≤ b) :
    lineAt source b = lineAt source a + lineFeeds (cut source a b) := by
  have parts := congrArg lineFeeds (takeCut source le)
  rw [lineFeeds, List.count_append] at parts
  simp only [lineAt, lineFeeds] at parts ⊢
  omega

theorem Block.carriedStatements (text : Bytes) (edits : List Edit) (b : Block) :
    (b.carried text edits).statements = b.statements.map (Statement.carried text edits) := by
  rw [statements, carried, List.filterMap_map]
  exact congrFun List.filterMap_eq_map b.statements

theorem neighboursMap (f : Statement → Statement) (ss : List Statement) :
    neighbours (ss.map f) = (neighbours ss).map fun m => ⟨f m.target, f m.predecessor⟩ := by
  induction ss with
  | nil => rfl
  | cons p rest ih =>
    cases rest with
    | nil => rfl
    | cons t rest =>
      rw [List.map_cons, List.map_cons, neighbours, neighbours, List.map_cons, ← ih]
      rfl

namespace Edit
variable {source : Bytes} {edits : List Edit}

def Beside (edits : List Edit) (a b : Nat) : Prop := ∀ e ∈ edits, e.stop ≤ a ∨ b < e.start

theorem Beside.spared {a b : Nat} (beside : Beside edits a b) (le : a ≤ b) :
    Spared edits a ∧ Spared edits b := by
  refine ⟨fun e mem => ?_, fun e mem => ?_⟩
  · rcases beside e mem with before | later
    · exact .inr before
    · exact .inl (by omega)
  · rcases beside e mem with before | later
    · exact .inr (by omega)
    · exact .inl later

theorem joinedBeside (stacked : Stacked edits) (within : ∀ e ∈ edits, e.stop ≤ source.length) {a b : Nat}
    (beside : Beside edits a b) (le : a ≤ b) (bound : b ≤ source.length) :
    let text := joined source edits source.length
    text.take (moved edits b) = text.take (moved edits a) ++ cut source a b := by
  intro text
  obtain ⟨sparedA, sparedB⟩ := beside.spared le
  have early : ∀ e ∈ upTo edits b, e.stop ≤ a := by
    intro e mem
    obtain ⟨inside, started⟩ := List.mem_filter.mp mem
    exact (beside e inside).resolve_right (Nat.not_lt.mpr (of_decide_eq_true started))
  have same : upTo edits b = upTo edits a := by
    refine List.filter_congr fun e mem => ?_
    have window := stacked.windows e mem
    rcases beside e mem with before | later
    · rw [decide_eq_true (by omega), decide_eq_true (by omega)]
    · rw [decide_eq_false (by omega), decide_eq_false (by omega)]
  rw [joinedTake stacked (Nat.le_refl _) within bound sparedB,
    joinedTake stacked (Nat.le_refl _) within (Nat.le_trans le bound) sparedA, joinedCut early le, same]

theorem joinedAround (stacked : Stacked edits) (within : ∀ e ∈ edits, e.stop ≤ source.length) {e : Edit}
    (mem : e ∈ edits) {a b : Nat} (before : a < e.start) (behind : e.stop ≤ b) (bound : b ≤ source.length)
    (others : ∀ f ∈ edits, f = e ∨ f.stop ≤ a ∨ b < f.start) :
    let text := joined source edits source.length
    text.take (moved edits b) = text.take (moved edits a) ++ (cut source a e.start ++ e.text ++ cut source e.stop b) := by
  intro text
  have window := stacked.windows e mem
  have sparedA : Spared edits a := by
    intro f inside
    rcases others f inside with rfl | early | late
    · exact .inl before
    · exact .inr early
    · exact .inl (by omega)
  have sparedB : Spared edits b := by
    intro f inside
    rcases others f inside with rfl | early | late
    · exact .inr behind
    · exact .inr (by omega)
    · exact .inl late
  have early : ∀ f ∈ upTo edits a, f.stop ≤ a := upToWithin sparedA
  -- Of the edits up to `b`, that one is the topmost, and the others are those up to `a`.
  have top : upTo edits b = e :: upTo edits a := by
    obtain ⟨later, rest, rfl⟩ := List.append_of_mem mem
    have falling := List.pairwise_append.mp stacked.falling
    have above : ∀ f ∈ later, b < f.start := by
      intro f inside
      have order := falling.2.2 f inside e List.mem_cons_self
      rcases others f (List.mem_append_left _ inside) with rfl | early | late
      · omega
      · have := stacked.windows f (List.mem_append_left _ inside); omega
      · exact late
    have under : ∀ f ∈ rest, f.stop ≤ a := by
      intro f inside
      have order := (List.pairwise_cons.mp falling.2.1).1 f inside
      rcases others f (by simp [inside]) with rfl | early | late
      · omega
      · exact early
      · have := stacked.windows f (by simp [inside]); omega
    have none : later.filter (fun f => decide (f.start ≤ b)) = [] ∧ later.filter (fun f => decide (f.start ≤ a)) = [] := by
      refine ⟨List.filter_eq_nil_iff.mpr fun f inside => ?_, List.filter_eq_nil_iff.mpr fun f inside => ?_⟩
      · have := above f inside; simp only [decide_eq_true_eq]; omega
      · have := above f inside; simp only [decide_eq_true_eq]; omega
    have same : rest.filter (fun f => decide (f.start ≤ b)) = rest.filter (fun f => decide (f.start ≤ a)) := by
      refine List.filter_congr fun f inside => ?_
      have window := stacked.windows f (by simp [inside])
      have below := under f inside
      rw [decide_eq_true (by omega), decide_eq_true (by omega)]
    rw [upTo, upTo, List.filter_append, List.filter_append, none.1, none.2, List.filter_cons_of_pos (by simp; omega),
      List.filter_cons_of_neg (by simp; omega), same]
    rfl
  rw [joinedTake stacked (Nat.le_refl _) within bound sparedB,
    joinedTake stacked (Nat.le_refl _) within (by omega : a ≤ source.length) sparedA, top, joined,
    joinedCut early (Nat.le_of_lt before), List.append_assoc, List.append_assoc, List.append_assoc]

end Edit

section
variable {source : Bytes} {ms : List Marker} {m : Marker}

def Marker.Untouched (m : Marker) (edits : List Edit) : Prop :=
  Edit.Beside edits (m.predecessor.endByte - 1) m.target.startByte

theorem Marker.Gap.inside (gap : m.Gap source) :
    0 < m.predecessor.endByte ∧ m.predecessor.endByte ≤ m.target.startByte ∧ m.target.startByte < source.length := by
  have long := gap.predecessor.nonempty
  exact ⟨by omega, gap.follows, solidInside gap.target.first⟩

theorem Marker.Untouched.narrow {edits : List Edit} (untouched : m.Untouched edits) {a : Nat}
    (le : m.predecessor.endByte ≤ a) : Edit.Beside edits a m.target.startByte := by
  intro e mem
  exact (untouched e mem).imp_left fun before => by omega

theorem gapsWithin (gaps : ∀ m ∈ ms, m.Gap source) : ∀ e ∈ ms.map (Edit.ofMarker source), e.stop ≤ source.length := by
  intro e mem
  obtain ⟨m, held, rfl⟩ := List.mem_map.mp mem
  have window := Edit.ofMarkerWindow (gaps m held)
  have inside := (gaps m held).inside
  omega

theorem headCarried (gaps : ∀ m ∈ ms, m.Gap source) (stacked : Edit.Stacked (ms.map (Edit.ofMarker source)))
    (gap : m.Gap source) (untouched : m.Untouched (ms.map (Edit.ofMarker source))) :
    let edits := ms.map (Edit.ofMarker source)
    LineHead.of ((Edit.joined source edits source.length).take (Edit.moved edits m.target.startByte)) =
      LineHead.of (source.take m.target.startByte) := by
  intro edits
  obtain ⟨positive, follows, inside⟩ := gap.inside
  have spared := ((untouched.narrow (Nat.le_refl _)).spared follows).2
  let p := fun n => decide ((Edit.ofMarker source n).start ≤ m.target.startByte)
  have early : Edit.upTo edits m.target.startByte = Edit.madeBy (Edit.ofMarker source) p ms := List.filter_map
  rw [Edit.joinedTake stacked (Nat.le_refl _) (gapsWithin gaps) (Nat.le_of_lt inside) spared, early]
  refine joinedHead (fun n mem => gaps n (List.mem_filter.mp mem).1) stacked.made (Nat.le_of_lt inside) ?_
  intro n mem
  obtain ⟨held, started⟩ := List.mem_filter.mp mem
  have before := (untouched _ (List.mem_map_of_mem held)).resolve_right (Nat.not_lt.mpr (of_decide_eq_true started))
  omega

theorem cutOfTake {text middle : Bytes} {start stop : Nat} (parts : text.take stop = text.take start ++ middle)
    (bound : start ≤ text.length) : cut text start stop = middle := by
  have long : (text.take start).length = start := by simp [bound]
  have back := congrArg (List.drop (text.take start).length) parts
  rw [List.drop_left, long, List.drop_take] at back
  exact back

theorem endCarried {edits : List Edit} (stacked : Edit.Stacked edits) (gap : m.Gap source)
    (untouched : m.Untouched edits) :
    Edit.moved edits m.predecessor.endByte = Edit.moved edits (m.predecessor.endByte - 1) + 1 := by
  obtain ⟨positive, follows, inside⟩ := gap.inside
  have step : Edit.moved edits m.predecessor.endByte = Edit.moved edits (m.predecessor.endByte - 1) +
      (m.predecessor.endByte - (m.predecessor.endByte - 1)) :=
    Edit.movedStep (Nat.sub_le _ 1) (fun e mem => (untouched e mem).imp_right (Nat.lt_of_le_of_lt follows))
      stacked.windows
  omega

theorem gapCarried (gaps : ∀ m ∈ ms, m.Gap source) (stacked : Edit.Stacked (ms.map (Edit.ofMarker source)))
    (gap : m.Gap source) (untouched : m.Untouched (ms.map (Edit.ofMarker source))) :
    let edits := ms.map (Edit.ofMarker source)
    let text := Edit.joined source edits source.length
    cut text (m.carried text edits).predecessor.endByte (m.carried text edits).target.startByte =
      cut source m.predecessor.endByte m.target.startByte := by
  intro edits text
  obtain ⟨positive, follows, inside⟩ := gap.inside
  have within := gapsWithin gaps
  show cut text (Edit.moved edits (m.predecessor.endByte - 1) + 1) (Edit.moved edits m.target.startByte) = _
  rw [← endCarried stacked gap untouched]
  refine cutOfTake (Edit.joinedBeside stacked within (untouched.narrow (Nat.le_refl _)) follows (Nat.le_of_lt inside)) ?_
  rw [Edit.joinedLength stacked (Nat.le_refl _) within]
  exact Edit.movedLe edits (by omega)

theorem ofMarkerCarried (gaps : ∀ m ∈ ms, m.Gap source) (stacked : Edit.Stacked (ms.map (Edit.ofMarker source)))
    (gap : m.Gap source) (untouched : m.Untouched (ms.map (Edit.ofMarker source))) :
    let edits := ms.map (Edit.ofMarker source)
    let text := Edit.joined source edits source.length
    Edit.ofMarker text (m.carried text edits) = Edit.carried edits (Edit.ofMarker source m) := by
  intro edits text
  obtain ⟨positive, follows, inside⟩ := gap.inside
  have within := gapsWithin gaps
  have long : text.length = Edit.moved edits source.length := Edit.joinedLength stacked (Nat.le_refl _) within
  have end' := endCarried stacked gap untouched
  have bytes := gapCarried gaps stacked gap untouched
  have there : (m.carried text edits).target.startByte ≤ text.length := by
    rw [long]
    exact Edit.movedLe edits (Nat.le_of_lt inside)
  have window := (Edit.ofMarkerWindow gap).1
  rw [ofMarkerHead there, ofMarkerHead (Nat.le_of_lt inside)]
  rw [ofMarkerHead (Nat.le_of_lt inside)] at window
  show LineHead.edit (LineHead.of (text.take (Edit.moved edits m.target.startByte)))
    (Edit.moved edits (m.predecessor.endByte - 1) + 1) (Edit.moved edits m.target.startByte)
    (cut text (m.carried text edits).predecessor.endByte (m.carried text edits).target.startByte) = _
  rw [headCarried gaps stacked gap untouched, bytes, ← end']
  simp only [LineHead.edit] at window ⊢
  split
  · rename_i blank
    rw [if_pos blank] at window
    dsimp only at window
    let lead := (LineHead.of (source.take m.target.startByte)).lead.length
    have step : Edit.moved edits m.target.startByte =
        Edit.moved edits (m.target.startByte - lead) + (m.target.startByte - (m.target.startByte - lead)) :=
      Edit.movedStep (Nat.sub_le _ _) (untouched.narrow window) stacked.windows
    -- The line starts as far in front of the target as it did: the blanks between went along.
    have start : Edit.moved edits m.target.startByte - lead = Edit.moved edits (m.target.startByte - lead) := by
      omega
    rw [start]
    rfl
  · rfl

end
end ExitSpacing
