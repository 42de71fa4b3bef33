import ExitSpacing.Proofs.Bodies
import Mathlib.Data.List.InsertIdx

/-! Formatting never breaks a program: what it makes of a source is accepted, and has the
blocks of the source with the same statements in the same order. -/
namespace ExitSpacing
open Bytes
open Go
open Go.Scan

section
variable {grammar : WordGrammar} {source rest : Bytes} {os : List Outline} {tokens front back : List Token} {later : List Word}
  {place : Nat → Nat}

theorem standsWithin {p : Nat} {t : Token} (stands : Stands source p tokens) (mem : t ∈ tokens) :
    t.start.offset < reach p tokens := by
  obtain ⟨before, after, rfl⟩ := List.append_of_mem mem
  have behind := stands.behind
  rw [reachAppend, reach]
  cases behind with
  | cons order inside within gap starts token valid ahead =>
    have whole : Stands source t.stop.offset (after ++ []) := by rwa [List.append_nil]
    have last := whole.order
    omega

theorem standsEnds {p : Nat} (stands : Stands source p tokens) : Ends (source.drop (reach p tokens)) := by
  have whole : Stands source p (tokens ++ []) := by rwa [List.append_nil]
  cases whole.behind with
  | nil ends => exact ends

theorem Reworked.start {p : Nat} (stands : Stands source p tokens)
    (program : grammar (tokens.map (Token.word source)) = some os) :
    Reworked grammar source p os tokens (source.drop (reach p tokens)) [] id where
  near := .same (endsFenced (standsEnds stands))
  spells := ⟨[], _, rfl, .nil, standsEnds stands⟩
  reads := by
    have each : Span.moved id = id := rfl
    have same : Outline.moved id = id := by
      funext o
      rw [Outline.moved, each, List.map_id]
      rfl
    rw [List.append_nil, program, same, List.map_id]
  fixed := fun _ _ => rfl

theorem Reworked.words (stands : Stands source (markWidth source) (front ++ back))
    (worked : Reworked grammar source (markWidth source) os front rest later place) :
    words (source.take (reach (markWidth source) front) ++ rest) = front.map (Token.word source) ++ later := by
  have order := stands.order
  have same : markWidth (source.take (reach (markWidth source) front) ++ rest) = markWidth source := by
    have whole := markLocal worked.near.before worked.near.after (source.take (reach (markWidth source) front))
    rwa [List.take_append_drop] at whole
  have inside : markWidth source ≤ (source.take (reach (markWidth source) front)).length := by
    have within := markInside source
    rw [List.length_take]
    omega
  refine wordsOf ?_
  rw [same, List.drop_append_of_le_length inside, List.drop_take]
  exact (stands.reads.near worked.near).spells worked.spells

end

section
variable {parser : Parser} {grammar : WordGrammar} {source : Bytes} {os : List Outline}

theorem askedKnown (reading : ReadsBy parser grammar source) (program : grammar (words source) = some os)
    (laid : Laid source (parser source).blocks) (rule : BlockRule) :
    ∀ m ∈ askedFromEnd (parser source).blocks rule, m.Gap source ∧ ∃ o ∈ os, ∃ x y, [x, y] <:+: o.spans ∧ y.Exits ∧
      x.Places (tokens source) m.predecessor ∧ y.Places (tokens source) m.target := by
  intro m mem
  obtain ⟨g, held, asks, rfl⟩ := askedMem.mp mem
  obtain ⟨inside, there⟩ := gapsOfMem held
  refine ⟨laid.gap inside there, ?_⟩
  obtain ⟨o, outlined, place⟩ := placedBlock (reading.blocks os program) inside
  obtain ⟨x, y, pair, placeX, placeY⟩ := placedNeighbours place.spans there
  refine ⟨o, outlined, x, y, pair, ?_, placeX, placeY⟩
  have exits : g.2.target.isExit = true := (Bool.and_eq_true_iff.mp (Bool.and_eq_true_iff.mp asks).1).1
  have role := treeRoles (parser source) g.1 inside _ (neighboursMem there).2
  rw [Statement.isExit, role, placeY.kind, bne_iff_ne] at exits
  exact exits

theorem appliedProgram (reading : ReadsBy parser grammar source) (terminates : Terminates grammar)
    (program : grammar (words source) = some os) (laid : Laid source (parser source).blocks) (rule : BlockRule) (unit : String) :
    ∃ place, grammar (words ((⟨unit, source, (parser source).blocks⟩ : Document).apply rule).1.text) =
      some (os.map (Outline.moved place)) := by
  have fresh := treeFresh unit source (parser source)
  have valid : ∀ t ∈ tokens source, t.lexeme ≠ .invalid := by
    intro t mem
    have accepted : (grammar (words source)).isSome = true := by rw [program]; rfl
    exact reading.valid accepted _ (List.mem_map_of_mem mem)
  have stands := sourceStands valid
  have known := askedKnown reading program laid rule
  have before : ∀ m ∈ askedFromEnd (parser source).blocks rule,
      m.target.startByte < reach (markWidth source) (tokens source) := by
    intro m mem
    obtain ⟨-, o, -, x, y, -, -, -, place⟩ := known m mem
    obtain ⟨t, there, start⟩ := place.first
    rw [start]
    exact standsWithin stands (List.mem_of_getElem? there)
  obtain ⟨ahead, after, opened, later, place, parts, worked, made⟩ := Reworked.run terminates stands program known
    (askedFalling laid rule) (List.append_nil _).symm before (.start stands program)
  refine ⟨place, ?_⟩
  have sorted := Document.appliedFromEnd fresh laid rule
  have kept : ((⟨unit, source, (parser source).blocks⟩ : Document).apply rule).1.source = source := by
    obtain ⟨log, ran, -⟩ := Document.applyFresh fresh rule
    rw [ran]
    rfl
  rw [List.take_append_drop] at made
  rw [parts] at stands
  rw [Document.text, sorted, kept]
  show grammar (words (((askedFromEnd (parser source).blocks rule).map (Edit.ofMarker source)).foldl Edit.apply source)) = _
  rw [made, worked.words stands, worked.reads]

end

/-- Formatting an accepted source always gives a text; it is accepted, and its blocks have
the owners of the source's blocks and statements of the same kinds, in the same order. The
parser is asked to read two texts by their words: the source, and what is rendered of it. -/
theorem formatKeepsBlocks (parser : Parser) (grammar : WordGrammar) (terminates : Terminates grammar) (rule : BlockRule)
    (unit : String) (source : Bytes) (reading : ReadsBy parser grammar source)
    (rereading : ReadsBy parser grammar ((⟨unit, source, (parser source).blocks⟩ : Document).apply rule).1.text)
    (accepted : (parser source).hasError = false) (laid : Laid source (parser source).blocks) :
    ∃ r, format parser rule unit source = .ok r ∧ (parser r.content).hasError = false ∧
      (parser r.content).blocks.map Block.outline = (parser source).blocks.map Block.outline := by
  obtain ⟨os, program⟩ := Option.isSome_iff_exists.mp (reading.accepts.mp accepted)
  obtain ⟨place, again⟩ := appliedProgram reading terminates program laid rule unit
  have reparsed := rereading.accepts.mpr (by rw [again]; rfl)
  obtain ⟨r, ran, content, -⟩ := formatText rule accepted reparsed
  rw [← content] at again reparsed rereading
  refine ⟨r, ran, reparsed, ?_⟩
  have first := placedOutlines (reading.blocks os program) (treeRoles (parser source))
  have second := placedOutlines (rereading.blocks _ again) (treeRoles (parser r.content))
  rw [first, second, List.map_map]
  exact List.map_congr_left fun o _ => o.outlineMoved place

/-- A loop with an exit behind a comment and a semicolon, and an exit on a line of its own behind the loop. -/
def loopSource : Bytes :=
  ofString "func f() \x7b\n\t\x7b y(); z() \x7d\n\tfor \x7b\n\t\tx() /* done */; break\n\t\x7d\n\treturn\n\x7d\n"

def loopSpaced : Bytes :=
  ofString "func f() \x7b\n\t\x7b y(); z() \x7d\n\tfor \x7b\n\t\tx() /* done */\n\n\t\tbreak\n\t\x7d\n\n\treturn\n\x7d\n"

theorem loopText :
    ((⟨"f.go", loopSource, (Go.parse loopSource).blocks⟩ : Document).apply ⟨0, .lines⟩).1.text = loopSpaced := by
  have fresh := treeFresh "f.go" loopSource (Go.parse loopSource)
  have edits := Document.appliedEdits fresh ⟨0, .lines⟩
  obtain ⟨log, ran, -⟩ := Document.applyFresh fresh ⟨0, .lines⟩
  let asked := ((gapsOf (Go.parse loopSource).blocks).filter (Block.asks ⟨0, .lines⟩)).map (gapEdit loopSource)
  have made : asked.Pairwise (fun e f => decide (f.start ≤ e.start) = true) ∧ asked.foldl Edit.apply loopSource = loopSpaced := by
    decide +kernel
  rw [Document.text, edits, Edit.fromEnd, List.mergeSort_of_pairwise made.1, ran]
  exact made.2

theorem loopReads : ReadsBy Go.parse Body.grammar loopSource ∧ ReadsBy Go.parse Body.grammar loopSpaced := by
  decide +kernel

theorem loopExitsSetOff : Terminates Body.grammar ∧ (Go.parse loopSource).hasError = false ∧
    ReadsBy Go.parse Body.grammar loopSource ∧ ReadsBy Go.parse Body.grammar loopSpaced ∧
    Laid loopSource (Go.parse loopSource).blocks ∧
    ∃ r, format Go.parse ⟨0, .lines⟩ "f.go" loopSource = .ok r ∧ r.content = loopSpaced ∧
      (Go.parse loopSpaced).blocks.map Block.outline = (Go.parse loopSource).blocks.map Block.outline := by
  have accepted : (Go.parse loopSource).hasError = false ∧ (Go.parse loopSpaced).hasError = false := by decide +kernel
  have laid : Laid loopSource (Go.parse loopSource).blocks := by decide +kernel
  obtain ⟨r, ran, reparsed, same⟩ := formatKeepsBlocks Go.parse Body.grammar Body.terminates ⟨0, .lines⟩ "f.go" loopSource
    loopReads.1 (loopText ▸ loopReads.2) accepted.1 laid
  obtain ⟨s, again, content, -⟩ := formatText ⟨0, .lines⟩ accepted.1 (loopText.symm ▸ accepted.2)
  obtain rfl : r = s := Except.ok.inj (ran.symm.trans again)
  rw [loopText] at content
  rw [content] at same
  exact ⟨Body.terminates, accepted.1, loopReads.1, loopReads.2, laid, r, ran, content, same⟩

end ExitSpacing
