import ExitSpacing.Proofs.Growing

/-! The lines of a rendered text. A statement that was set off stands first on its line, below an
empty one; how far down it has moved is told by the insertions that the log names up to its own. -/
namespace ExitSpacing
open Bytes

structure BelowEmpty (text : Bytes) (offset : Nat) : Prop where
  first : allBlank (cut text (lineStart text offset) offset) = true
  above : ∃ front ending, text.take (lineStart text offset) = front ++ lineFeed :: ending ∧
    (ending = [lineFeed] ∨ ending = [carriageReturn, lineFeed])

/-- Where the first byte of the target went it opens a line below an empty one: in the column that it
had, or indented as the line that it shared was. -/
structure Marker.SetOff (source text : Bytes) (edits : List Edit) (m : Marker) : Prop where
  byte : text[Edit.moved edits m.target.startByte]? = source[m.target.startByte]?
  below : BelowEmpty text (Edit.moved edits m.target.startByte)
  alone : m.target.opensLine source = true →
    columnAt text (Edit.moved edits m.target.startByte) = m.target.startColumn ∧
      lineFeeds (Edit.ofMarker source m).text =
        lineFeeds (cut source (Edit.ofMarker source m).start (Edit.ofMarker source m).stop) + 1
  shared : m.target.opensLine source = false →
    cut text (lineStart text (Edit.moved edits m.target.startByte)) (Edit.moved edits m.target.startByte) =
        m.target.indent source ∧
      lineFeeds (Edit.ofMarker source m).text =
        lineFeeds (cut source (Edit.ofMarker source m).start (Edit.ofMarker source m).stop) + 2

theorem lineStartIs {text front line : Bytes} {offset : Nat} (parts : text.take offset = front ++ line)
    (ends : front = [] ∨ ∃ v, front = v ++ [lineFeed]) (one : ∀ b ∈ line, b ≠ lineFeed) :
    lineStart text offset = front.length := by
  have stops : front.reverse.takeWhile (· != lineFeed) = [] := by
    obtain rfl | ⟨v, rfl⟩ := ends
    · rfl
    · simp
  have all : (line.reverse ++ front.reverse).takeWhile (· != lineFeed) = line.reverse := by
    rw [List.takeWhile_append_of_pos, stops, List.append_nil]
    intro b mem
    simpa using one b (List.mem_reverse.mp mem)
  simp only [lineStart, parts, List.reverse_append, all, List.length_append, List.length_reverse]
  omega

theorem lineParted {text front line : Bytes} {offset : Nat} (parts : text.take offset = front ++ line)
    (ends : front = [] ∨ ∃ v, front = v ++ [lineFeed]) (one : ∀ b ∈ line, b ≠ lineFeed) :
    text.take (lineStart text offset) = front ∧ cut text (lineStart text offset) offset = line := by
  have start := lineStartIs parts ends one
  have before := lineStartLe text offset
  constructor
  · rw [← Nat.min_eq_left before, ← List.take_take, parts, start, List.take_left]
  · rw [cut, ← List.drop_take, parts, start, List.drop_left]

theorem sameLine {source : Bytes} {a b : Nat} (after : lineStart source b ≤ a) (before : a ≤ b) :
    lineAt source a = lineAt source b := by
  have none : lineFeeds (cut source (lineStart source b) b) = 0 :=
    List.count_eq_zero.mpr fun mem => (lineParts source b).2 _ mem rfl
  have more := lineAtCut source before
  rw [← cutAppend source after before, lineFeeds, List.count_append] at none
  rw [lineFeeds] at more
  omega

theorem columnLess {source : Bytes} {a b : Nat} (less : a < b) (same : lineAt source a = lineAt source b) :
    columnAt source a < columnAt source b := by
  have none : lineFeeds (cut source a b) = 0 := by
    have more := lineAtCut source (Nat.le_of_lt less)
    omega
  have parts : source.take b =
      source.take (lineStart source a) ++ (cut source (lineStart source a) a ++ cut source a b) := by
    rw [← List.append_assoc, takeCut source (lineStartLe source a), takeCut source (Nat.le_of_lt less)]
  obtain ⟨ends, one⟩ := lineParts source a
  have start := lineStartIs parts ends fun c mem => by
    rcases List.mem_append.mp mem with early | late
    · exact one c early
    · rintro rfl
      exact absurd late (List.count_eq_zero.mp none)
  have inside := lineStartInside source a
  have before := lineStartLe source a
  rw [List.length_take, Nat.min_eq_left inside] at start
  unfold columnAt
  omega

namespace Statement

theorem Located.ordered {source : Bytes} {s t : Statement} (first : s.Located source) (second : t.Located source)
    (order : s.startLine < t.startLine ∨ s.startLine = t.startLine ∧ s.startColumn ≤ t.startColumn) :
    s.startByte ≤ t.startByte := by
  by_contra after
  have less := Nat.lt_of_not_le after
  have lines := lineAtMono source (Nat.le_of_lt less)
  rw [← second.startLine, ← first.startLine] at lines
  have same : s.startLine = t.startLine := by omega
  have columns := columnLess less (by rw [← second.startLine, ← first.startLine, same])
  rw [← second.startColumn, ← first.startColumn] at columns
  omega

theorem leadBlank (source : Bytes) (s : Statement) : allBlank (s.lead source) = true := by
  unfold lead
  cases opens : s.opensLine source with
  | true => exact opens
  | false => exact List.all_eq_true.mpr fun b mem => LineHead.indentBlank (List.mem_takeWhile_imp mem)

theorem leadLine (source : Bytes) (s : Statement) : ∀ b ∈ s.lead source, b ≠ lineFeed := by
  unfold lead
  cases opens : s.opensLine source with
  | true => exact (lineParts source s.startByte).2
  | false =>
    rintro b mem rfl
    exact absurd (List.mem_takeWhile_imp mem) (by decide)

end Statement

theorem filterTake {α : Type} {f : α → Nat} {l : List α} (rising : l.Pairwise fun a b => f a < f b) {k : Nat} {x : α}
    (there : l[k]? = some x) : l.filter (fun a => f a ≤ f x) = l.take (k + 1) := by
  induction l generalizing k with
  | nil => cases there
  | cons a l ih =>
    obtain ⟨above, rising⟩ := List.pairwise_cons.mp rising
    cases k with
    | zero =>
      obtain rfl : a = x := Option.some.inj there
      have none : l.filter (fun b => f b ≤ f a) = [] := by
        refine List.filter_eq_nil_iff.mpr fun b mem => ?_
        have := above b mem
        simp only [decide_eq_true_eq]
        omega
      rw [List.filter_cons_of_pos (by simp), none]
      rfl
    | succ k =>
      have below := above x (List.mem_of_getElem? there)
      rw [List.filter_cons_of_pos (by simpa using Nat.le_of_lt below), ih rising there, List.take_succ_cons]

theorem rowsOrdered {unit : String} {log : List Change} {ms : List Marker}
    (rows : log.map Change.row = ms.map fun m => m.target.row unit)
    (sorted : log.Pairwise fun a b => a.line < b.line ∨ a.line = b.line ∧ a.column ≤ b.column) : ms.Pairwise fun m n =>
      m.target.startLine < n.target.startLine ∨
        m.target.startLine = n.target.startLine ∧ m.target.startColumn ≤ n.target.startColumn := by
  let before (a b : String × String × Nat × Nat) : Prop := a.2.2.1 < b.2.2.1 ∨ a.2.2.1 = b.2.2.1 ∧ a.2.2.2 ≤ b.2.2.2
  have logged : (log.map Change.row).Pairwise before := List.pairwise_map.mpr sorted
  rw [rows] at logged
  exact List.pairwise_map.mp logged

namespace Round
variable {source : Bytes} {blocks : List Block} {rule : BlockRule} {ms : List Marker}

theorem apart (round : Round source blocks rule ms) {m n : Marker} (inM : m ∈ ms) (inN : n ∈ ms) (differ : m ≠ n) :
    m.target.startByte < (Edit.ofMarker source n).start ∨ n.target.startByte < (Edit.ofMarker source m).start := by
  have windowM := Edit.ofMarkerWindow (round.gaps m inM)
  have windowN := Edit.ofMarkerWindow (round.gaps n inN)
  obtain ⟨g, inG, -, rfl⟩ := (round.asked m).mp inM
  obtain ⟨h, inH, -, rfl⟩ := (round.asked n).mp inN
  rcases round.laid.untouched inG inH fun same => differ (congrArg Prod.snd same) with before | after
  · exact .inl (Nat.lt_of_lt_of_le before windowN.1)
  · exact .inr (Nat.lt_of_lt_of_le after windowM.1)

theorem startsBefore (round : Round source blocks rule ms) {m n : Marker} (inM : m ∈ ms) (inN : n ∈ ms) :
    (Edit.ofMarker source n).start ≤ m.target.startByte ↔ n.target.startByte ≤ m.target.startByte := by
  have windowM := Edit.ofMarkerWindow (round.gaps m inM)
  have windowN := Edit.ofMarkerWindow (round.gaps n inN)
  by_cases same : m = n
  · subst same
    exact iff_of_true (Nat.le_trans windowN.2.1 windowN.2.2) (Nat.le_refl _)
  · rcases round.apart inM inN same with before | after <;> omega

theorem spares (round : Round source blocks rule ms) {m : Marker} (mem : m ∈ ms) :
    Edit.Spared (edits source ms) m.target.startByte := by
  intro e inside
  obtain ⟨n, held, rfl⟩ := List.mem_map.mp inside
  have starts := round.startsBefore mem held
  have window := Edit.ofMarkerWindow (round.gaps n held)
  by_cases before : (Edit.ofMarker source n).start ≤ m.target.startByte
  · exact .inr (Nat.le_trans window.2.2 (starts.mp before))
  · exact .inl (Nat.lt_of_not_le before)

theorem targetLocated (round : Round source blocks rule ms) {m : Marker} (mem : m ∈ ms) : m.target.Located source := by
  obtain ⟨g, inside, -, rfl⟩ := (round.asked m).mp mem
  obtain ⟨inB, there⟩ := gapsOfMem inside
  exact round.located g.1 inB _ (neighboursMem there).2

theorem distinct (round : Round source blocks rule ms) {exits : List Marker} (same : exits.Perm ms) :
    exits.Pairwise fun m n => m.target.startByte ≠ n.target.startByte := by
  refine (same.pairwise_iff fun differ => differ.symm).mpr ?_
  refine (List.pairwise_map.mp round.stacked.falling).imp_of_mem fun {m n} inM inN below => ?_
  have windowM := Edit.ofMarkerWindow (round.gaps m inM)
  have windowN := Edit.ofMarkerWindow (round.gaps n inN)
  have differ : m ≠ n := by
    rintro rfl
    omega
  rcases round.apart inM inN differ with before | after <;> omega

theorem setsOff (round : Round source blocks rule ms) {m : Marker} (mem : m ∈ ms) :
    m.SetOff source (text source ms) (edits source ms) := by
  obtain ⟨g, inside, asks, rfl⟩ := (round.asked m).mp mem
  obtain ⟨front, parts⟩ := round.setOff inside asks
  obtain ⟨-, -, within⟩ := (round.gapIn inside).inside
  have feeds := Edit.ofMarkerFeeds source g.2
  have located := round.targetLocated mem
  obtain ⟨v, ending⟩ := endingEnds source (lineStart source g.2.target.startByte)
  rw [← List.cons_append, ← List.append_assoc, ← List.append_assoc] at parts
  obtain ⟨head, line⟩ := lineParted parts (.inr ⟨_, by rw [ending, ← List.cons_append, ← List.append_assoc]⟩)
    (g.2.target.leadLine source)
  refine ⟨?_, ⟨?_, _, _, head, Edit.lineEndingCases _ _⟩, fun opens => ⟨?_, ?_⟩, fun shares => ⟨?_, ?_⟩⟩
  · exact Edit.joinedAt round.stacked (Nat.le_refl _) (gapsWithin round.gaps) within (round.spares mem)
  · rw [line]
    exact g.2.target.leadBlank source
  · have long : (text source ms).length = Edit.moved (edits source ms) source.length :=
      Edit.joinedLength round.stacked (Nat.le_refl _) (gapsWithin round.gaps)
    have here := Edit.movedLe (edits source ms) (Nat.le_of_lt within)
    have same := congrArg List.length line
    have before := lineStartLe source g.2.target.startByte
    have start := lineStartLe (text source ms) (Edit.moved (edits source ms) g.2.target.startByte)
    rw [Statement.lead, opens, if_pos rfl, cutLength, cutLength] at same
    rw [located.startColumn]
    unfold columnAt
    omega
  · rw [feeds, Statement.addedFeeds, opens, if_pos rfl]
  · rw [line, Statement.lead, shares, if_neg Bool.false_ne_true]
  · rw [feeds, Statement.addedFeeds, shares, if_neg Bool.false_ne_true]

theorem targetLine (round : Round source blocks rule ms) {m : Marker} (mem : m ∈ ms) :
    lineAt (text source ms) (Edit.moved (edits source ms) m.target.startByte) =
      lineAt source m.target.startByte +
        ((ms.filter fun n => n.target.startByte ≤ m.target.startByte).map fun n => n.target.addedFeeds source).sum := by
  let p := fun n => decide ((Edit.ofMarker source n).start ≤ m.target.startByte)
  have spared := round.spares mem
  have inside := (round.gaps m mem).inside.2.2
  have early : Edit.upTo (edits source ms) m.target.startByte = (ms.filter p).map (Edit.ofMarker source) :=
    List.filter_map
  have same : ms.filter p = ms.filter fun n => n.target.startByte ≤ m.target.startByte :=
    List.filter_congr fun n held => decide_eq_decide.mpr (round.startsBefore mem held)
  have within := Edit.upToWithin spared
  have front := Edit.joinedTake round.stacked (Nat.le_refl _) (gapsWithin round.gaps) (Nat.le_of_lt inside) spared
  rw [show ms.map (Edit.ofMarker source) = edits source ms from rfl, early] at front
  rw [early] at within
  have stacked : Edit.Stacked ((ms.filter p).map (Edit.ofMarker source)) := round.stacked.made
  have feeds := Edit.joinedFeeds stacked within
  rw [lineAt, lineAt, text, front, feeds, ← same]
  omega

end Round

namespace Document

/-- In the text of a pass over a tree each exit that was set off opens a line below an empty one, the
bytes in front of any other statement are those of the source, and an entry of the log tells the line
that its exit opens: its own, and what the insertions up to it have added. -/
theorem appliedLines (unit : String) (source : Bytes) (tree : Tree) (rule : BlockRule)
    (laid : Laid source tree.blocks) (located : ∀ b ∈ tree.blocks, ∀ s ∈ b.statements, s.Located source) :
    let marked := (⟨unit, source, tree.blocks⟩ : Document).apply rule
    let edits := Edit.fromEnd marked.1.edits
    (∀ m ∈ marked.1.markers, m.SetOff source marked.1.text edits) ∧
      (∀ b ∈ tree.blocks, ∀ m ∈ neighbours b.statements, m ∉ marked.1.markers →
        let there := m.carried marked.1.text edits
        cut marked.1.text there.predecessor.endByte there.target.startByte =
          cut source m.predecessor.endByte m.target.startByte) ∧
      ∃ (log : List Change) (exits : List Marker), marked.2 = .ok log ∧ exits.Perm marked.1.markers ∧
        log.map Change.row = exits.map (fun m => m.target.row unit) ∧
        ∀ k c m, log[k]? = some c → exits[k]? = some m →
          lineAt marked.1.text (Edit.moved edits m.target.startByte) =
            c.line + ((exits.take (k + 1)).map fun n => n.target.addedFeeds source).sum := by
  intro marked edits
  let d : Document := ⟨unit, source, tree.blocks⟩
  have fresh : d.Fresh := treeFresh unit source tree
  have round := roundOf laid located fresh.unmarked rule
  let ms := askedFromEnd tree.blocks rule
  have sameEdits : edits = Round.edits source ms := appliedFromEnd fresh laid rule
  have sameText : marked.1.text = Round.text source ms := appliedText fresh laid rule
  obtain ⟨log, ran, rows⟩ := applyLogged fresh rule
  have perm : ms.Perm marked.1.markers := by
    show ms.Perm (d.apply rule).1.markers
    rw [ran, wantsMarked fresh]
    exact askedPerm fresh rule
  rw [sameEdits, sameText]
  refine ⟨fun m mem => round.setsOff (perm.mem_iff.mpr mem), fun b inside m mem unmarked => ?_, ?_⟩
  · have held : (b, m) ∈ gapsOf tree.blocks := List.mem_flatMap.mpr ⟨b, inside, List.mem_map_of_mem mem⟩
    have silent : Block.asks rule (b, m) = false := by
      by_contra asks
      rw [Bool.not_eq_false] at asks
      exact unmarked (perm.subset ((round.asked m).mpr ⟨_, held, asks, rfl⟩))
    exact gapCarried round.gaps round.stacked (round.gapIn held) (round.untouched held silent)
  · obtain ⟨exits, named, wanted⟩ := loggedStatements rows
    have same : exits.Perm ms := wanted.trans (askedPerm fresh rule).symm
    -- The log goes line by line, and no two exits start at one byte: so their offsets rise.
    have rising : exits.Pairwise fun m n => m.target.startByte < n.target.startByte := by
      refine ((rowsOrdered named (sortedLogs rfl).sorted).and (round.distinct same)).imp_of_mem ?_
      intro m n inM inN ⟨ordered, differ⟩
      have before := (round.targetLocated (same.subset inM)).ordered (round.targetLocated (same.subset inN)) ordered
      omega
    refine ⟨_, exits, congrArg Prod.snd ran, same.trans perm, named, fun k c m logged there => ?_⟩
    have mem : m ∈ ms := same.subset (List.mem_of_getElem? there)
    have line : c.line = m.target.startLine := by
      have row := congrArg (·[k]?) named
      simp only [List.getElem?_map, logged, there, Option.map_some] at row
      exact congrArg (fun r => r.2.2.1) (Option.some.inj row)
    have up := (same.filter fun n => decide (n.target.startByte ≤ m.target.startByte)).map fun n => n.target.addedFeeds source
    rw [round.targetLine mem, line, (round.targetLocated mem).startLine, ← filterTake rising there, up.sum_nat]

theorem layeredLocated : ∀ b ∈ (Go.parse layeredSource).blocks, ∀ s ∈ b.statements, s.Located layeredSource := by
  rw [layeredParsed.2.1]
  decide +kernel

theorem layeredLines : Laid layeredSource (Go.parse layeredSource).blocks ∧
    (∀ b ∈ (Go.parse layeredSource).blocks, ∀ s ∈ b.statements, s.Located layeredSource) ∧
    let marked := (⟨"f.go", layeredSource, (Go.parse layeredSource).blocks⟩ : Document).apply ⟨0, .lines⟩
    marked.1.text = layeredSpaced ∧ marked.1.markers.length = 2 ∧
      (∀ m ∈ marked.1.markers, m.SetOff layeredSource layeredSpaced (Edit.fromEnd marked.1.edits)) ∧
      ∃ (log : List Change) (exits : List Marker), marked.2 = .ok log ∧ log.length = 2 ∧
        ∀ k c m, log[k]? = some c → exits[k]? = some m →
          lineAt layeredSpaced (Edit.moved (Edit.fromEnd marked.1.edits) m.target.startByte) =
            c.line + ((exits.take (k + 1)).map fun n => n.target.addedFeeds layeredSource).sum := by
  obtain ⟨setOff, -, log, exits, ran, perm, named, lines⟩ :=
    appliedLines "f.go" layeredSource (Go.parse layeredSource) ⟨0, .lines⟩ layeredLaid layeredLocated
  let d : Document := ⟨"f.go", layeredSource, (Go.parse layeredSource).blocks⟩
  have two : (d.apply ⟨0, .lines⟩).1.markers.length = 2 := by
    simp only [d, layeredParsed.2.1]
    decide +kernel
  have long := congrArg List.length named
  rw [List.length_map, List.length_map, perm.length_eq, two] at long
  rw [layeredText] at setOff lines
  exact ⟨layeredLaid, layeredLocated, layeredText "f.go", two, setOff, log, exits, ran, long, lines⟩

end Document
end ExitSpacing
