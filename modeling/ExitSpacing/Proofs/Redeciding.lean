import ExitSpacing.Proofs.Carrying

/-! What a rule decides in the text that another rule of its policy made: a block that was
too short stays as short, since an insertion within it would have made it long enough,
and a gap that was widened is not widened again. -/
namespace ExitSpacing
open Bytes

def gapsOf (blocks : List Block) : List (Block × Marker) :=
  blocks.flatMap fun b => (neighbours b.statements).map fun m => (b, m)

def Block.asks (rule : BlockRule) (g : Block × Marker) : Bool := g.1.due rule g.2.predecessor g.2.target

theorem gapsOfMem {blocks : List Block} {g : Block × Marker} (mem : g ∈ gapsOf blocks) :
    g.1 ∈ blocks ∧ g.2 ∈ neighbours g.1.statements := by
  obtain ⟨b, inside, held⟩ := List.mem_flatMap.mp mem
  obtain ⟨m, there, rfl⟩ := List.mem_map.mp held
  exact ⟨inside, there⟩

section
variable {source : Bytes} {blocks : List Block}

theorem Laid.apart (laid : Laid source blocks) {b c : Block} (inB : b ∈ blocks) (inC : c ∈ blocks) (differ : b ≠ c) :
    b.Apart c := by
  refine List.Pairwise.forall_of_forall_of_flip (R := fun b c => b ≠ c → Block.Apart b c)
    (fun b _ differ => absurd rfl differ) ?_ ?_ inB inC differ
  · exact laid.nested.imp fun {b c} apart (_ : b ≠ c) => apart
  · refine laid.nested.imp fun {b c} apart (_ : c ≠ b) => ?_
    rcases apart with before | after | inside | around
    · exact .inr (.inl before)
    · exact .inl after
    · exact .inr (.inr (.inr inside))
    · exact .inr (.inr (.inl around))

theorem Laid.untouched (laid : Laid source blocks) {g h : Block × Marker} (inG : g ∈ gapsOf blocks)
    (inH : h ∈ gapsOf blocks) (differ : g ≠ h) : g.2.Clear h.2 ∨ h.2.Clear g.2 := by
  obtain ⟨blockG, heldG⟩ := gapsOfMem inG
  obtain ⟨blockH, heldH⟩ := gapsOfMem inH
  by_cases same : g.1 = h.1
  · have clear := neighboursClear (laid.spans g.1 blockG) (laid.ascending g.1 blockG)
    refine List.Pairwise.forall_of_forall_of_flip (R := fun m n => m ≠ n → Marker.Clear m n ∨ Marker.Clear n m)
      (fun m _ differ => absurd rfl differ) ?_ ?_ heldG (same ▸ heldH) fun equal => differ (Prod.ext same equal)
    · exact clear.imp fun before _ => .inl before
    · exact clear.imp fun before _ => .inr before
  · exact laid.clearApart blockG blockH (laid.apart blockG blockH same) heldG heldH

theorem Laid.ordered (laid : Laid source blocks) {b : Block} (inside : b ∈ blocks) {s t : Statement}
    (inS : s ∈ b.statements) (inT : t ∈ b.statements) : s.endByte ≤ t.startByte ∨ t.startByte ≤ s.startByte := by
  have ascending := laid.ascending b inside
  refine List.Pairwise.forall_of_forall_of_flip (R := fun s t => s.endByte ≤ t.startByte ∨ t.startByte ≤ s.startByte)
    (fun s _ => .inr (Nat.le_refl _)) ?_ ?_ inS inT
  · exact ascending.imp fun before => .inl before
  · refine ascending.imp_of_mem fun {s t} inS _ before => .inr ?_
    have long := (laid.spans b inside s inS).nonempty
    omega

theorem Laid.firstStart (laid : Laid source blocks) {b : Block} (inside : b ∈ blocks) {first s : Statement}
    (head : b.statements.head? = some first) (mem : s ∈ b.statements) : first.startByte ≤ s.startByte := by
  have ascending := laid.ascending b inside
  have spans := laid.spans b inside
  cases parts : b.statements with
  | nil => rw [parts] at mem; cases mem
  | cons f rest =>
    rw [parts] at head mem ascending spans
    cases head
    rcases List.mem_cons.mp mem with rfl | later
    · exact Nat.le_refl _
    · have order := (List.pairwise_cons.mp ascending).1 s later
      have long := (spans first List.mem_cons_self).nonempty
      omega

theorem Laid.reaches (laid : Laid source blocks) {b c : Block} (inB : b ∈ blocks) (inC : c ∈ blocks) {n : Marker}
    (mem : n ∈ neighbours c.statements) {first t origin : Statement} (head : b.statements.head? = some first)
    (held : t ∈ b.statements) (start : c.statements.head? = some origin) :
    n.target.startByte ≤ first.startByte ∨ t.startByte < n.predecessor.endByte ∨
      first.startByte ≤ origin.startByte ∧ n.target.startByte ≤ t.startByte := by
  have gap := laid.gap inC mem
  have longT := (laid.spans b inB t held).nonempty
  have longN := gap.target.nonempty
  have longP := gap.predecessor.nonempty
  obtain ⟨inP, inN⟩ := neighboursMem mem
  have firstIn : first ∈ b.statements := List.mem_of_mem_head? head
  have originIn : origin ∈ c.statements := List.mem_of_mem_head? start
  -- In one block statements follow one another; of two blocks one lies in a statement of the other.
  by_cases same : c = b
  · subst same
    obtain rfl : first = origin := Option.some.inj (head.symm.trans start)
    rcases neighboursBeside (laid.spans c inC) (laid.ascending c inC) mem held with before | after
    · exact .inr (.inl (by omega))
    · exact .inr (.inr ⟨Nat.le_refl _, after⟩)
  · rcases laid.apart inC inB same with before | after | ⟨s, inS, around⟩ | ⟨s, inS, around⟩
    · have order := before _ inN first firstIn
      exact .inl (by omega)
    · have order := after t held _ inP
      exact .inr (.inl (by omega))
    · have opens := laid.firstStart inB head inS
      have origin := around origin originIn
      have target := around _ inN
      have predecessor := around _ inP
      rcases laid.ordered inB inS held with before | after
      · exact .inr (.inr ⟨by omega, by omega⟩)
      · exact .inr (.inl (by omega))
    · have opens := around first firstIn
      have stays := around t held
      rcases neighboursBeside (laid.spans c inC) (laid.ascending c inC) mem inS with before | after
      · exact .inr (.inl (by omega))
      · exact .inl (by omega)

end

/-- A pass by `rule` over the blocks of a source, and the markers it left, later ones first. -/
structure Round (source : Bytes) (blocks : List Block) (rule : BlockRule) (ms : List Marker) : Prop where
  laid : Laid source blocks
  located : ∀ b ∈ blocks, ∀ s ∈ b.statements, s.Located source
  unmarked : ∀ b ∈ blocks, b.markers = []
  stacked : Edit.Stacked (ms.map (Edit.ofMarker source))
  asked : ∀ m, m ∈ ms ↔ ∃ g ∈ gapsOf blocks, Block.asks rule g = true ∧ g.2 = m

theorem endingFeed (source : Bytes) (offset : Nat) : lineFeeds (Edit.lineEnding source offset) = 1 := by
  rcases Edit.lineEndingCases source offset with same | same
  · rw [same]; rfl
  · rw [same]; rfl

theorem endingEnds (source : Bytes) (offset : Nat) : ∃ v, Edit.lineEnding source offset = v ++ [lineFeed] := by
  rcases Edit.lineEndingCases source offset with same | same
  · exact ⟨[], same⟩
  · exact ⟨[carriageReturn], same⟩

theorem Marker.Gap.setOff {source : Bytes} {m : Marker} (gap : m.Gap source) :
    ∃ front, cut source (m.predecessor.endByte - 1) (Edit.ofMarker source m).start ++ (Edit.ofMarker source m).text ++
        cut source (Edit.ofMarker source m).stop m.target.startByte =
      front ++ lineFeed :: (Edit.lineEnding source (lineStart source m.target.startByte) ++ m.target.lead source) := by
  have window := (Edit.ofMarkerWindow gap).1
  obtain ⟨positive, follows, inside⟩ := gap.inside
  unfold Statement.lead
  cases opens : m.target.opensLine source with
  | true =>
    rw [Edit.ofMarkerOpens opens] at window ⊢
    dsimp only at window ⊢
    rcases lineOpens source m.target.startByte with first | ⟨v, front, long⟩
    · omega
    · have back : cut source (m.predecessor.endByte - 1) (lineStart source m.target.startByte) =
          v.drop (m.predecessor.endByte - 1) ++ [lineFeed] := by
        rw [cut, ← List.drop_take, front, List.drop_append_of_le_length (by omega)]
      exact ⟨v.drop (m.predecessor.endByte - 1), by simp [back]⟩
  | false =>
    obtain ⟨v, ending⟩ := endingEnds source (lineStart source m.target.startByte)
    have empty : cut source m.target.startByte m.target.startByte = [] := by simp [cut]
    rw [Edit.ofMarkerShares opens]
    dsimp only
    refine ⟨cut source (m.predecessor.endByte - 1) m.predecessor.endByte ++
      trimEnd isSeparator (cut source m.predecessor.endByte m.target.startByte) ++ v, ?_⟩
    simp [empty, ending]

namespace Round
variable {source : Bytes} {blocks : List Block} {rule : BlockRule} {size : Nat} {ms : List Marker}

def edits (source : Bytes) (ms : List Marker) : List Edit := ms.map (Edit.ofMarker source)

def text (source : Bytes) (ms : List Marker) : Bytes := Edit.joined source (edits source ms) source.length

theorem gapIn (round : Round source blocks rule ms) {g : Block × Marker} (mem : g ∈ gapsOf blocks) : g.2.Gap source :=
  round.laid.gap (gapsOfMem mem).1 (gapsOfMem mem).2

theorem gaps (round : Round source blocks rule ms) : ∀ m ∈ ms, m.Gap source := by
  intro m mem
  obtain ⟨g, inside, -, rfl⟩ := (round.asked m).mp mem
  exact round.gapIn inside

theorem others (round : Round source blocks rule ms) {g : Block × Marker} (mem : g ∈ gapsOf blocks) {e : Edit}
    (inside : e ∈ edits source ms) : (Block.asks rule g = true ∧ e = Edit.ofMarker source g.2) ∨
      e.stop ≤ g.2.predecessor.endByte - 1 ∨ g.2.target.startByte < e.start := by
  obtain ⟨n, held, rfl⟩ := List.mem_map.mp inside
  obtain ⟨h, inH, asks, rfl⟩ := (round.asked n).mp held
  have window := Edit.ofMarkerWindow (round.gapIn inH)
  by_cases same : g = h
  · exact .inl ⟨same ▸ asks, by rw [same]⟩
  · rcases round.laid.untouched mem inH same with before | after
    · exact .inr (.inr (Nat.lt_of_lt_of_le before window.1))
    · unfold Marker.Clear at after
      exact .inr (.inl (by omega))

theorem untouched (round : Round source blocks rule ms) {g : Block × Marker} (mem : g ∈ gapsOf blocks)
    (silent : Block.asks rule g = false) : g.2.Untouched (edits source ms) := by
  intro e inside
  rcases round.others mem inside with ⟨asks, -⟩ | apart
  · rw [silent] at asks; cases asks
  · exact apart

theorem lines (round : Round source blocks rule ms) {a b : Nat} (beside : Edit.Beside (edits source ms) a b)
    (le : a ≤ b) (bound : b ≤ source.length) :
    lineAt (text source ms) (Edit.moved (edits source ms) b) + lineAt source a =
      lineAt (text source ms) (Edit.moved (edits source ms) a) + lineAt source b := by
  have parts := congrArg lineFeeds (Edit.joinedBeside round.stacked (gapsWithin round.gaps) beside le bound)
  have here := lineAtCut source le
  rw [lineFeeds, lineFeeds, List.count_append] at parts
  simp only [lineAt, lineFeeds, text, edits] at parts here ⊢
  omega

theorem setOff (round : Round source blocks rule ms) {g : Block × Marker} (mem : g ∈ gapsOf blocks)
    (asks : Block.asks rule g = true) :
    ∃ front, (text source ms).take (Edit.moved (edits source ms) g.2.target.startByte) =
      (text source ms).take (Edit.moved (edits source ms) (g.2.predecessor.endByte - 1)) ++ (front ++ lineFeed ::
        (Edit.lineEnding source (lineStart source g.2.target.startByte) ++ g.2.target.lead source)) := by
  have gap := round.gapIn mem
  obtain ⟨positive, follows, inside⟩ := gap.inside
  have window := Edit.ofMarkerWindow gap
  have held : Edit.ofMarker source g.2 ∈ edits source ms := List.mem_map_of_mem ((round.asked _).mpr ⟨g, mem, asks, rfl⟩)
  have others : ∀ f ∈ edits source ms, f = Edit.ofMarker source g.2 ∨ f.stop ≤ g.2.predecessor.endByte - 1 ∨
      g.2.target.startByte < f.start := by
    intro f mem'
    exact (round.others mem mem').imp_left And.right
  obtain ⟨front, between⟩ := gap.setOff
  refine ⟨front, ?_⟩
  rw [← between]
  exact Edit.joinedAround round.stacked (gapsWithin round.gaps) held (by omega) window.2.2 (Nat.le_of_lt inside) others

theorem widened (round : Round source blocks rule ms) {g : Block × Marker} (mem : g ∈ gapsOf blocks)
    (asks : Block.asks rule g = true) :
    lineAt (text source ms) (Edit.moved (edits source ms) (g.2.predecessor.endByte - 1)) + 2 ≤
      lineAt (text source ms) (Edit.moved (edits source ms) g.2.target.startByte) := by
  obtain ⟨front, parts⟩ := round.setOff mem asks
  have feed := endingFeed source (lineStart source g.2.target.startByte)
  have feeds := congrArg lineFeeds parts
  simp only [lineFeeds, List.count_append, List.count_cons_self] at feed feeds
  simp only [lineAt, lineFeeds]
  omega

theorem firstLine (round : Round source blocks rule ms) {b : Block} (inside : b ∈ blocks) {first : Statement}
    (head : b.statements.head? = some first) (size : Nat) (t : Statement) :
    b.roomy ⟨size, .lines⟩ t = decide (first.startLine + size ≤ t.startLine) := by
  have entries := Block.unmarkedEntries (round.unmarked b inside)
  have there : b.entries.head? = some (.statement first) := by
    rw [entries, List.head?_map, head]; rfl
  simp only [Block.roomy, there]
  rfl

theorem insertedRoomy (round : Round source blocks ⟨size, .lines⟩ ms) {b c : Block} (inB : b ∈ blocks) (inC : c ∈ blocks)
    {first origin t s : Statement} (head : b.statements.head? = some first) (held : t ∈ b.statements)
    (start : c.statements.head? = some origin) (target : s ∈ c.statements)
    (within : first.startByte ≤ origin.startByte ∧ s.startByte ≤ t.startByte)
    (long : c.roomy ⟨size, .lines⟩ s = true) : b.roomy ⟨size, .lines⟩ t = true := by
  rw [round.firstLine inC start] at long
  rw [round.firstLine inB head]
  have opening := lineAtMono source within.1
  have closing := lineAtMono source within.2
  have reach := of_decide_eq_true long
  rw [(round.located c inC origin (List.mem_of_mem_head? start)).startLine, (round.located c inC s target).startLine] at reach
  refine decide_eq_true ?_
  rw [(round.located b inB first (List.mem_of_mem_head? head)).startLine, (round.located b inB t held).startLine]
  omega

theorem shortBeside (round : Round source blocks ⟨size, .lines⟩ ms) {b : Block} (inside : b ∈ blocks)
    {first t : Statement} (head : b.statements.head? = some first) (held : t ∈ b.statements)
    (short : b.roomy ⟨size, .lines⟩ t = false) : Edit.Beside (edits source ms) first.startByte t.startByte := by
  intro e mem
  obtain ⟨n, marked, rfl⟩ := List.mem_map.mp mem
  obtain ⟨⟨c, n⟩, inG, asks, rfl⟩ := (round.asked n).mp marked
  obtain ⟨inC, there⟩ := gapsOfMem inG
  have window := Edit.ofMarkerWindow (round.gapIn inG)
  have target := (neighboursMem there).2
  obtain ⟨origin, start⟩ : ∃ origin, c.statements.head? = some origin := by
    cases parts : c.statements with
    | nil => rw [parts] at target; cases target
    | cons origin rest => exact ⟨origin, rfl⟩
  rcases round.laid.reaches inside inC there head held start with before | after | within
  · exact .inl (Nat.le_trans window.2.2 before)
  · exact .inr (Nat.lt_of_lt_of_le after window.1)
  -- an exit set off between `first` and `t` stands in a long block that `b` encloses
  · have long : c.roomy ⟨size, .lines⟩ n.target = true := by
      simp only [Block.asks, Block.due, Bool.and_eq_true] at asks
      exact asks.1.2
    rw [round.insertedRoomy inside inC head held start target within long] at short
    cases short

theorem roomy (round : Round source blocks rule ms) {b : Block} (inside : b ∈ blocks) {t : Statement}
    (held : t ∈ b.statements) (short : b.roomy rule t = false) (other : Nat) :
    (b.carried (text source ms) (edits source ms)).roomy ⟨other, rule.policy⟩
      (t.carried (text source ms) (edits source ms)) = b.roomy ⟨other, rule.policy⟩ t := by
  obtain ⟨size, policy⟩ := rule
  cases policy with
  | statements =>
    simp only [Block.roomy, Block.carriedStatements, List.countP_map]
    rfl
  | lines =>
    cases parts : b.statements with
    | nil => rw [parts] at held; cases held
    | cons first rest =>
      have head : b.statements.head? = some first := by rw [parts]; rfl
      have firstIn : first ∈ b.statements := List.mem_of_mem_head? head
      -- The block is too short for the rule, so nothing was set off within it and it keeps its lines.
      have beside := round.shortBeside inside head held short
      have order := round.laid.firstStart inside head held
      have end' : t.startByte ≤ source.length := Nat.le_of_lt (solidInside (round.laid.spans b inside t held).first)
      have lines := round.lines beside order end'
      have there : (b.carried (text source ms) (edits source ms)).entries.head? =
          some (.statement (first.carried (text source ms) (edits source ms))) := by
        rw [Block.carried, parts]; rfl
      have after : (b.carried (text source ms) (edits source ms)).roomy ⟨other, .lines⟩
          (t.carried (text source ms) (edits source ms)) =
          decide ((first.carried (text source ms) (edits source ms)).startLine + other ≤
            (t.carried (text source ms) (edits source ms)).startLine) := by
        simp only [Block.roomy, there]
        rfl
      rw [after, round.firstLine inside head, (round.located b inside first firstIn).startLine,
        (round.located b inside t held).startLine]
      refine decide_eq_decide.mpr ?_
      show lineAt _ (Edit.moved _ first.startByte) + other ≤ lineAt _ (Edit.moved _ t.startByte) ↔ _
      omega

/-- In the text of a round a rule of its policy asks for what it asked for in the source,
save what the round gave. -/
theorem redecides (round : Round source blocks rule ms) {g : Block × Marker} (mem : g ∈ gapsOf blocks) (other : Nat) :
    Block.asks ⟨other, rule.policy⟩ (g.1.carried (text source ms) (edits source ms),
        g.2.carried (text source ms) (edits source ms)) =
      (Block.asks ⟨other, rule.policy⟩ g && !Block.asks rule g) := by
  obtain ⟨inB, there⟩ := gapsOfMem mem
  obtain ⟨predecessorIn, targetIn⟩ := neighboursMem there
  obtain ⟨positive, follows, inside⟩ := (round.gapIn mem).inside
  cases asks : Block.asks rule g with
  | true =>
    have far := round.widened mem asks
    have apart : ¬ (g.2.target.carried (text source ms) (edits source ms)).startLine ≤
        (g.2.predecessor.carried (text source ms) (edits source ms)).endLine + 1 := by
      show ¬ lineAt _ (Edit.moved _ g.2.target.startByte) ≤ lineAt _ (Edit.moved _ (g.2.predecessor.endByte - 1)) + 1
      omega
    rw [Bool.not_true, Bool.and_false]
    refine Bool.eq_false_iff.mpr fun again => apart ?_
    simp only [Block.asks, Block.due, Bool.and_eq_true, decide_eq_true_eq] at again
    exact again.2
  | false =>
    have lines := round.lines (round.untouched mem asks) (by omega) (Nat.le_of_lt inside)
    have near : (g.2.target.carried (text source ms) (edits source ms)).startLine ≤
        (g.2.predecessor.carried (text source ms) (edits source ms)).endLine + 1 ↔
        g.2.target.startLine ≤ g.2.predecessor.endLine + 1 := by
      rw [(round.located g.1 inB _ targetIn).startLine, (round.located g.1 inB _ predecessorIn).endLine]
      show lineAt _ (Edit.moved _ g.2.target.startByte) ≤ lineAt _ (Edit.moved _ (g.2.predecessor.endByte - 1)) + 1 ↔ _
      omega
    rw [Bool.not_false, Bool.and_true]
    simp only [Block.asks, Block.due, Marker.carried, near] at asks ⊢
    show (g.2.target.isExit && _ && _) = _
    cases exit : g.2.target.isExit with
    | false => rfl
    | true =>
      by_cases adjacent : g.2.target.startLine ≤ g.2.predecessor.endLine + 1
      · have short : g.1.roomy rule g.2.target = false := by
          simpa only [exit, adjacent, decide_true, Bool.true_and, Bool.and_true] using asks
        rw [round.roomy inB targetIn short other]
      · simp only [adjacent, decide_false, Bool.and_false]

end Round
end ExitSpacing
