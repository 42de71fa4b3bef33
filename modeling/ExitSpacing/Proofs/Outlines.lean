import ExitSpacing.Proofs.Layout
import ExitSpacing.Proofs.Words

/-! What a grammar of words is trusted for: how statements of one list follow one another,
and that a parser reads a source by its words. -/
namespace ExitSpacing
open Bytes (semicolon)
open Go

structure Span where
  kind : String
  first : Nat
  last : Nat
  deriving DecidableEq, Repr

structure Outline where
  owner : String
  spans : List Span
  deriving DecidableEq, Repr

/-- The blocks of the words of a program; none when they are no program. -/
abbrev WordGrammar := List Word → Option (List Outline)

def Span.moved (place : Nat → Nat) (x : Span) : Span := ⟨x.kind, place x.first, place x.last⟩

def Outline.moved (place : Nat → Nat) (o : Outline) : Outline := ⟨o.owner, o.spans.map (Span.moved place)⟩

def Span.Exits (x : Span) : Prop := Role.ofKind x.kind ≠ .plain
instance (x) : Decidable (Span.Exits x) := by unfold Span.Exits; infer_instance

namespace Go.Word

def separator : Word := ⟨.symbol ";", [semicolon], false⟩

def freshen (w : Word) : Word := { w with fresh := true }

end Go.Word

def without (gone place : Nat) : Nat := if gone < place then place - 1 else place

/-- Statements of one list follow one another on a fresh line or behind one semicolon; a
further fresh line before an exit changes nothing, and for the semicolon before it a fresh
line will do. -/
structure Terminates (grammar : WordGrammar) : Prop where
  parted : ∀ ws os, grammar ws = some os → ∀ o ∈ os, ∀ x y, [x, y] <:+: o.spans →
    (y.first = x.last + 1 ∧ ∃ w, ws[y.first]? = some w ∧ w.fresh = true) ∨
    (y.first = x.last + 2 ∧ ws[x.last + 1]? = some Word.separator)
  further : ∀ ws os, grammar ws = some os → ∀ o ∈ os, ∀ x y, [x, y] <:+: o.spans → y.Exits →
    grammar (ws.modify y.first Word.freshen) = some os
  either : ∀ ws os, grammar ws = some os → ∀ o ∈ os, ∀ x y, [x, y] <:+: o.spans → y.Exits → y.first = x.last + 2 →
    grammar ((ws.modify y.first Word.freshen).eraseIdx (x.last + 1)) = some (os.map (Outline.moved (without (x.last + 1))))

structure Span.Places (tokens : List Token) (x : Span) (s : Statement) : Prop where
  kind : s.kind = x.kind
  first : ∃ t, tokens[x.first]? = some t ∧ s.startByte = t.start.offset
  last : ∃ t, tokens[x.last]? = some t ∧ s.endByte = t.stop.offset

instance (tokens x s) : Decidable (Span.Places tokens x s) :=
  decidable_of_iff (s.kind = x.kind ∧ tokens[x.first]?.map (·.start.offset) = some s.startByte ∧
      tokens[x.last]?.map (·.stop.offset) = some s.endByte)
    ⟨fun ⟨kind, first, last⟩ => ⟨kind, (Option.map_eq_some_iff.mp first).imp fun _ h => ⟨h.1, h.2.symm⟩,
        (Option.map_eq_some_iff.mp last).imp fun _ h => ⟨h.1, h.2.symm⟩⟩,
      fun ⟨kind, ⟨t, first, start⟩, u, last, stop⟩ => ⟨kind, by rw [first, start]; rfl, by rw [last, stop]; rfl⟩⟩

structure Outline.Places (tokens : List Token) (o : Outline) (b : Block) : Prop where
  owner : b.owner = o.owner
  spans : List.Forall₂ (Span.Places tokens) o.spans b.statements

instance (tokens o b) : Decidable (Outline.Places tokens o b) :=
  decidable_of_iff (b.owner = o.owner ∧ List.Forall₂ (Span.Places tokens) o.spans b.statements)
    ⟨fun ⟨owner, spans⟩ => ⟨owner, spans⟩, fun ⟨owner, spans⟩ => ⟨owner, spans⟩⟩

/-- A parser reads this source by its words: it accepts it if the grammar does, with no word that is
invalid, and has the blocks that the grammar has. -/
structure ReadsBy (parser : Parser) (grammar : WordGrammar) (source : Bytes) : Prop where
  accepts : (parser source).hasError = false ↔ (grammar (words source)).isSome = true
  valid : (grammar (words source)).isSome = true → ∀ w ∈ words source, w.lexeme ≠ .invalid
  blocks : ∀ os ∈ grammar (words source), List.Forall₂ (Outline.Places (tokens source)) os (parser source).blocks

instance (parser grammar source) : Decidable (ReadsBy parser grammar source) :=
  decidable_of_iff (((parser source).hasError = false ↔ (grammar (words source)).isSome = true) ∧
      ((grammar (words source)).isSome = true → ∀ w ∈ words source, w.lexeme ≠ .invalid) ∧
      ∀ os ∈ grammar (words source), List.Forall₂ (Outline.Places (tokens source)) os (parser source).blocks)
    ⟨fun ⟨accepts, valid, blocks⟩ => ⟨accepts, valid, blocks⟩, fun ⟨accepts, valid, blocks⟩ => ⟨accepts, valid, blocks⟩⟩

def Block.outline (b : Block) : String × List (String × Role) := (b.owner, b.statements.map fun s => (s.kind, s.role))

def Outline.outline (o : Outline) : String × List (String × Role) := (o.owner, o.spans.map fun x => (x.kind, Role.ofKind x.kind))

theorem Outline.outlineMoved (place : Nat → Nat) (o : Outline) : (o.moved place).outline = o.outline := by
  rw [outline, outline, moved, List.map_map]
  rfl

theorem Outline.movedTwice (after before : Nat → Nat) :
    Outline.moved after ∘ Outline.moved before = Outline.moved (after ∘ before) := by
  funext o
  rw [Function.comp, moved, moved, moved, List.map_map]
  rfl

theorem treeRoles (tree : Tree) : ∀ b ∈ tree.blocks, ∀ s ∈ b.statements, s.role = Role.ofKind s.kind := by
  intro b mem s held
  obtain ⟨i, _, rfl⟩ := List.mem_mapIdx.mp mem
  obtain ⟨e, inside, isStatement⟩ := List.mem_filterMap.mp held
  obtain ⟨j, _, rfl⟩ := List.mem_mapIdx.mp inside
  cases isStatement
  rfl

theorem placedOutlines {tokens : List Token} {os : List Outline} {blocks : List Block}
    (places : List.Forall₂ (Outline.Places tokens) os blocks)
    (roles : ∀ b ∈ blocks, ∀ s ∈ b.statements, s.role = Role.ofKind s.kind) :
    blocks.map Block.outline = os.map Outline.outline := by
  induction places with
  | nil => rfl
  | @cons o b os blocks place rest ih =>
    have here : b.outline = o.outline := by
      have own := roles b List.mem_cons_self
      have each : ∀ {xs ss}, List.Forall₂ (Span.Places tokens) xs ss → (∀ s ∈ ss, s.role = Role.ofKind s.kind) →
          ss.map (fun s => (s.kind, s.role)) = xs.map fun x => (x.kind, Role.ofKind x.kind) := by
        intro xs ss places own
        induction places with
        | nil => rfl
        | @cons x s xs ss place rest ih =>
          rw [List.map_cons, List.map_cons, own s List.mem_cons_self, place.kind,
            ih fun s mem => own s (List.mem_cons_of_mem _ mem)]
      rw [Block.outline, Outline.outline, place.owner, each place.spans own]
    rw [List.map_cons, List.map_cons, here, ih fun b mem => roles b (List.mem_cons_of_mem _ mem)]

theorem placedBlock {tokens : List Token} {os : List Outline} {blocks : List Block}
    (places : List.Forall₂ (Outline.Places tokens) os blocks) {b : Block} (mem : b ∈ blocks) :
    ∃ o ∈ os, o.Places tokens b := by
  induction places with
  | nil => cases mem
  | @cons o c os blocks place rest ih =>
    rcases List.mem_cons.mp mem with rfl | later
    · exact ⟨o, List.mem_cons_self, place⟩
    · obtain ⟨v, inside, placed⟩ := ih later
      exact ⟨v, List.mem_cons_of_mem _ inside, placed⟩

theorem placedNeighbours {tokens : List Token} {xs : List Span} {ss : List Statement}
    (places : List.Forall₂ (Span.Places tokens) xs ss) {m : Marker} (mem : m ∈ neighbours ss) :
    ∃ x y, [x, y] <:+: xs ∧ x.Places tokens m.predecessor ∧ y.Places tokens m.target := by
  induction places with
  | nil => cases mem
  | @cons x p xs ss place rest ih =>
    cases rest with
    | nil => cases mem
    | @cons y t xs ss next rest =>
      rcases List.mem_cons.mp mem with rfl | later
      · exact ⟨x, y, ⟨[], xs, rfl⟩, place, next⟩
      · obtain ⟨v, w, ⟨before, after, same⟩, placeV, placeW⟩ := ih later
        exact ⟨v, w, ⟨x :: before, after, congrArg (x :: ·) same⟩, placeV, placeW⟩

end ExitSpacing
