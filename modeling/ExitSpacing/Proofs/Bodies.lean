import ExitSpacing.Proofs.Reparsing
import Mathlib.Data.List.Chain

/-! A grammar of function bodies, read word by word: calls, exits, loops and blocks, in one another
to any depth. Its statements stand on fresh lines or behind one semicolon, as those of Go do. -/
namespace ExitSpacing
open Go

inductive Mark where
  | function
  | loop
  | name
  | leftParen
  | rightParen
  | opens
  | closes
  | exit (kind : String)
  deriving DecidableEq, Repr

namespace Mark

def ofSymbols : List (String × Mark) :=
  [("func", .function), ("for", .loop), ("(", .leftParen), (")", .rightParen), (openBrace, .opens), (closeBrace, .closes),
    ("return", .exit "return_statement"), ("break", .exit "break_statement"), ("continue", .exit "continue_statement")]

def ofWord? (w : Word) : Option Mark :=
  match w.lexeme with
  | .name => some .name
  | .symbol spelling => ofSymbols.lookup spelling
  | _ => none

end Mark

namespace Body

/-- A block that was opened: the statement that its end ends, what it has, and the blocks in it. -/
structure Frame where
  kind : String
  start : Nat
  spans : List Span := []
  inner : List Outline := []
  deriving DecidableEq, Repr

def Frame.outlines (f : Frame) : List Outline := ⟨"block", f.spans⟩ :: f.inner

def Frame.add (f : Frame) (x : Span) (inner : List Outline) : Frame :=
  { f with spans := f.spans ++ [x], inner := f.inner ++ inner }

inductive Mode where
  /-- A statement may begin, whether or not on a fresh line. -/
  | due
  | done
  | named (start : Nat)
  | called (start : Nat)
  | looping (start : Nat)
  deriving DecidableEq, Repr

inductive Reading where
  | before (marks : List Mark)
  | inside (mode : Mode) (frame : Frame) (outer : List Frame)
  | closed (outlines : List Outline)
  deriving DecidableEq, Repr

def close (i : Nat) (f : Frame) : List Frame → Reading
  | [] => .closed f.outlines
  | parent :: outer => .inside .done (parent.add ⟨f.kind, f.start, i⟩ f.outlines) outer

def begin (i : Nat) (f : Frame) (outer : List Frame) : Mark → Option Reading
  | .closes => some (close i f outer)
  | .exit kind => some (.inside .done (f.add ⟨kind, i, i⟩ []) outer)
  | .name => some (.inside (.named i) f outer)
  | .loop => some (.inside (.looping i) f outer)
  | .opens => some (.inside .due { kind := "block", start := i } (f :: outer))
  | _ => none

def stepInside (i : Nat) (f : Frame) (outer : List Frame) (w : Word) : Mode → Option Reading
  | .due => (Mark.ofWord? w).bind (begin i f outer)
  | .done =>
    if w = Word.separator then some (.inside .due f outer)
    else if w.fresh || Mark.ofWord? w == some .closes then (Mark.ofWord? w).bind (begin i f outer)
    else none
  | .named start => if Mark.ofWord? w == some .leftParen && !w.fresh then some (.inside (.called start) f outer) else none
  | .called start =>
    if Mark.ofWord? w == some .rightParen then some (.inside .done (f.add ⟨"expression_statement", start, i⟩ []) outer)
    else none
  | .looping start =>
    if Mark.ofWord? w == some .opens then some (.inside .due { kind := "for_statement", start } (f :: outer)) else none

def step (i : Nat) (w : Word) : Reading → Option Reading
  | .before (mark :: marks) =>
    if Mark.ofWord? w == some mark then
      some (if marks.isEmpty then .inside .due { kind := "function_declaration", start := i } [] else .before marks)
    else none
  | .inside mode f outer => stepInside i f outer w mode
  | .before [] | .closed _ => none

def reads (i : Nat) (r : Reading) : List Word → Option Reading
  | [] => some r
  | w :: ws => (step i w r).bind fun next => reads (i + 1) next ws

def start : Reading := .before [.function, .name, .leftParen, .rightParen, .opens]

def Reading.outlines? : Reading → Option (List Outline)
  | .closed outlines => some outlines
  | _ => none

def grammar : WordGrammar := fun ws => (reads 0 start ws).bind Reading.outlines?

theorem readsAppend (i : Nat) (r : Reading) (a b : List Word) :
    reads i r (a ++ b) = (reads i r a).bind fun next => reads (i + a.length) next b := by
  induction a generalizing i r with
  | nil => rfl
  | cons w a ih =>
    rw [List.cons_append, reads, reads, Option.bind_assoc]
    refine Option.bind_congr fun next _ => ?_
    rw [ih, List.length_cons, Nat.add_right_comm, Nat.add_assoc]

section
variable (place : Nat → Nat)

def Frame.moved (f : Frame) : Frame :=
  ⟨f.kind, place f.start, f.spans.map (Span.moved place), f.inner.map (Outline.moved place)⟩

def Mode.moved : Mode → Mode
  | .named start => .named (place start)
  | .called start => .called (place start)
  | .looping start => .looping (place start)
  | mode => mode

def Reading.moved : Reading → Reading
  | .inside mode f outer => .inside (mode.moved place) (f.moved place) (outer.map (Frame.moved place))
  | .closed outlines => .closed (outlines.map (Outline.moved place))
  | r => r

theorem addMoved (f : Frame) (x : Span) (inner : List Outline) :
    (f.add x inner).moved place = (f.moved place).add (x.moved place) (inner.map (Outline.moved place)) := by
  simp [Frame.add, Frame.moved]

theorem closeMoved (i : Nat) (f : Frame) (outer : List Frame) :
    (close i f outer).moved place = close (place i) (f.moved place) (outer.map (Frame.moved place)) := by
  cases outer with
  | nil => rfl
  | cons parent outer =>
    simp only [close, Reading.moved, addMoved]
    rfl

theorem beginMoved (i : Nat) (f : Frame) (outer : List Frame) (mark : Mark) :
    begin (place i) (f.moved place) (outer.map (Frame.moved place)) mark =
      (begin i f outer mark).map (Reading.moved place) := by
  cases mark with
  | closes => exact congrArg some (closeMoved place i f outer).symm
  | exit kind =>
    simp only [begin, Option.map_some, Reading.moved, addMoved]
    rfl
  | _ => rfl

theorem stepMoved (i : Nat) (w : Word) (r : Reading) :
    step (place i) w (r.moved place) = (step i w r).map (Reading.moved place) := by
  have begins (f : Frame) (outer : List Frame) :
      (Mark.ofWord? w).bind (begin (place i) (f.moved place) (outer.map (Frame.moved place))) =
        ((Mark.ofWord? w).bind (begin i f outer)).map (Reading.moved place) := by
    rw [Option.map_bind]
    exact Option.bind_congr fun mark _ => beginMoved place i f outer mark
  cases r with
  | before marks =>
    cases marks with
    | nil => rfl
    | cons mark marks =>
      simp only [Reading.moved, step]
      split
      · cases marks <;> rfl
      · rfl
  | closed => rfl
  | inside mode f outer =>
    cases mode with
    | due => exact begins f outer
    | done =>
      simp only [Reading.moved, Mode.moved, step, stepInside]
      split
      · rfl
      · split
        · exact begins f outer
        · rfl
    | called =>
      simp only [Reading.moved, Mode.moved, step, stepInside]
      split
      · simp only [Option.map_some, Reading.moved, addMoved]
        rfl
      · rfl
    | named | looping =>
      simp only [Reading.moved, Mode.moved, step, stepInside]
      split <;> rfl

theorem readsMoved {i j : Nat} (ws : List Word) (shift : ∀ n < ws.length, place (i + n) = j + n) (r : Reading) :
    reads j (r.moved place) ws = (reads i r ws).map (Reading.moved place) := by
  induction ws generalizing i j r with
  | nil => rfl
  | cons w ws ih =>
    have here : place i = j := shift 0 (Nat.succ_pos _)
    rw [reads, reads, ← here, stepMoved]
    cases step i w r with
    | none => rfl
    | some next =>
      refine ih (fun n less => ?_) next
      have behind := shift (n + 1) (Nat.succ_lt_succ less)
      have next : i + 1 + n = i + (n + 1) := by omega
      rw [next, behind, here]
      omega

end

/-- A statement may begin here behind this one. -/
def Behind (ws : List Word) (x : Span) (first : Nat) : Prop :=
  (first = x.last + 1 ∧ ∃ w, ws[first]? = some w ∧ w.fresh = true) ∨
    (first = x.last + 2 ∧ ws[x.last + 1]? = some Word.separator)

def Chained (ws : List Word) (spans : List Span) : Prop := spans.IsChain fun x y => Behind ws x y.first

def Awaits (ws : List Word) (f : Frame) (first : Nat) : Prop := ∀ x ∈ f.spans.getLast?, Behind ws x first

def Frame.Chained (ws : List Word) (f : Frame) : Prop := ∀ o ∈ f.outlines, Body.Chained ws o.spans

def Mode.Sound (ws : List Word) (f : Frame) : Mode → Prop
  | .due => ∀ x ∈ f.spans.getLast?, ws.length = x.last + 2 ∧ ws[x.last + 1]? = some Word.separator
  | .done => ∀ x ∈ f.spans.getLast?, ws.length = x.last + 1
  | .named start | .called start | .looping start => Awaits ws f start

inductive Stacked (ws : List Word) : Frame → List Frame → Prop where
  | bottom {f} (chained : f.Chained ws) : Stacked ws f []
  | within {f parent outer} (chained : f.Chained ws) (awaits : Awaits ws parent f.start)
      (stacked : Stacked ws parent outer) : Stacked ws f (parent :: outer)

def Reading.Sound (ws : List Word) : Reading → Prop
  | .before _ => True
  | .inside mode f outer => mode.Sound ws f ∧ Stacked ws f outer
  | .closed outlines => ∀ o ∈ outlines, Chained ws o.spans

section
variable {ws : List Word} {w : Word} {f : Frame} {outer : List Frame} {first : Nat}

theorem Behind.more {x : Span} (behind : Behind ws x first) (w : Word) : Behind (ws ++ [w]) x first := by
  have kept {n : Nat} {v : Word} (there : ws[n]? = some v) : (ws ++ [w])[n]? = some v := by
    rw [List.getElem?_append_left (List.getElem?_eq_some_iff.mp there).1, there]
  exact behind.imp (fun ⟨next, v, there, fresh⟩ => ⟨next, v, kept there, fresh⟩) fun ⟨next, there⟩ => ⟨next, kept there⟩

theorem Awaits.more (awaits : Awaits ws f first) (w : Word) : Awaits (ws ++ [w]) f first :=
  fun x last => (awaits x last).more w

theorem Chained.more {spans : List Span} (chained : Chained ws spans) (w : Word) : Chained (ws ++ [w]) spans :=
  chained.imp fun _ _ behind => behind.more w

theorem Stacked.more (stacked : Stacked ws f outer) (w : Word) : Stacked (ws ++ [w]) f outer := by
  induction stacked with
  | bottom chained => exact .bottom fun o mem => (chained o mem).more w
  | within chained awaits _ ih => exact .within (fun o mem => (chained o mem).more w) (awaits.more w) ih

theorem Stacked.chained (stacked : Stacked ws f outer) : f.Chained ws := by
  cases stacked with
  | bottom chained | within chained => exact chained

theorem Frame.Chained.add {x : Span} {inner : List Outline} (chained : f.Chained ws) (awaits : Awaits ws f x.first)
    (within : ∀ o ∈ inner, Body.Chained ws o.spans) : (f.add x inner).Chained ws := by
  obtain ⟨own, deeper⟩ := List.forall_mem_cons.mp chained
  refine List.forall_mem_cons.mpr ⟨List.isChain_append.mpr ⟨own, .singleton x, ?_⟩, List.forall_mem_append.mpr ⟨deeper, within⟩⟩
  intro last mem y same
  cases same
  exact awaits last mem

theorem Stacked.add {x : Span} {inner : List Outline} (stacked : Stacked ws f outer) (awaits : Awaits ws f x.first)
    (within : ∀ o ∈ inner, Body.Chained ws o.spans) : Stacked ws (f.add x inner) outer := by
  cases stacked with
  | bottom chained => exact .bottom (chained.add awaits within)
  | within chained parted stacked => exact .within (chained.add awaits within) parted stacked

theorem addDone {x : Span} {inner : List Outline} (last : ws.length = x.last + 1) : Mode.done.Sound ws (f.add x inner) := by
  intro y mem
  rw [Frame.add, List.getLast?_concat] at mem
  cases mem
  exact last

theorem closeSound (stacked : Stacked ws f outer) {i : Nat} (here : ws.length = i + 1) :
    (close i f outer).Sound ws := by
  cases stacked with
  | bottom chained => exact chained
  | within chained awaits stacked => exact ⟨addDone here, stacked.add awaits chained⟩

theorem beginSound (stacked : Stacked ws f outer) {i : Nat} (here : ws.length = i + 1) {mark : Mark}
    (awaits : mark = .closes ∨ Awaits ws f i) {next : Reading} (made : begin i f outer mark = some next) : next.Sound ws := by
  cases mark with
  | closes =>
    cases made
    exact closeSound stacked here
  | exit kind =>
    cases made
    exact ⟨addDone here, stacked.add (awaits.resolve_left nofun) nofun⟩
  | name | loop =>
    cases made
    exact ⟨awaits.resolve_left nofun, stacked⟩
  | opens =>
    cases made
    exact ⟨nofun, .within (by simp [Frame.Chained, Frame.outlines, Body.Chained]) (awaits.resolve_left nofun) stacked⟩
  | function | leftParen | rightParen => cases made

theorem stepSound {r next : Reading} (sound : r.Sound ws) (made : step ws.length w r = some next) :
    next.Sound (ws ++ [w]) := by
  have length : (ws ++ [w]).length = ws.length + 1 := List.length_append ..
  have word : (ws ++ [w])[ws.length]? = some w := List.getElem?_concat_length
  cases r with
  | closed => cases made
  | before marks =>
    cases marks with
    | nil => cases made
    | cons mark marks =>
      rw [step] at made
      split at made
      · cases made
        split
        · exact ⟨nofun, .bottom (by simp [Frame.Chained, Frame.outlines, Body.Chained])⟩
        · trivial
      · cases made
  | inside mode f outer =>
    obtain ⟨here, stacked⟩ := sound
    have stacked := stacked.more w
    have begins (awaits : Mark.ofWord? w = some .closes ∨ Awaits (ws ++ [w]) f ws.length)
        (made : (Mark.ofWord? w).bind (begin ws.length f outer) = some next) : next.Sound (ws ++ [w]) := by
      obtain ⟨mark, known, made⟩ := Option.bind_eq_some_iff.mp made
      exact beginSound stacked length (awaits.imp (fun closes => Option.some.inj (known.symm.trans closes)) id) made
    rw [step] at made
    cases mode with
    | due =>
      refine begins (.inr fun x last => .inr ?_) made
      obtain ⟨behind, separator⟩ := here x last
      exact ⟨behind, by rw [List.getElem?_append_left (by omega), separator]⟩
    | done =>
      rw [stepInside] at made
      split at made
      · rename_i separator
        cases made
        refine ⟨fun x last => ?_, stacked⟩
        have behind := here x last
        exact ⟨by omega, by rw [← behind, word, separator]⟩
      · split at made
        · rename_i opened
          obtain fresh | closes := Bool.or_eq_true_iff.mp opened
          · exact begins (.inr fun x last => .inl ⟨here x last, w, word, fresh⟩) made
          · exact begins (.inl (beq_iff_eq.mp closes)) made
        · cases made
    | named first =>
      rw [stepInside] at made
      split at made
      · cases made
        exact ⟨here.more w, stacked⟩
      · cases made
    | called first =>
      rw [stepInside] at made
      split at made
      · cases made
        exact ⟨addDone length, stacked.add (here.more w) nofun⟩
      · cases made
    | looping first =>
      rw [stepInside] at made
      split at made
      · cases made
        exact ⟨nofun, .within (by simp [Frame.Chained, Frame.outlines, Body.Chained]) (here.more w) stacked⟩
      · cases made

theorem readsSound (ws more : List Word) {r last : Reading} (sound : r.Sound ws)
    (made : reads ws.length r more = some last) : last.Sound (ws ++ more) := by
  induction more generalizing ws r with
  | nil =>
    cases made
    rwa [List.append_nil]
  | cons w more ih =>
    obtain ⟨next, first, rest⟩ := Option.bind_eq_some_iff.mp made
    have length : ws.length + 1 = (ws ++ [w]).length := by rw [List.length_append, List.length_singleton]
    rw [length] at rest
    have whole := ih _ (stepSound sound first) rest
    rwa [List.append_assoc] at whole

theorem grammarChained {os : List Outline} (program : grammar ws = some os) : ∀ o ∈ os, Chained ws o.spans := by
  obtain ⟨last, made, done⟩ := Option.bind_eq_some_iff.mp program
  have sound : last.Sound ([] ++ ws) := readsSound [] ws (show Reading.Sound [] start from trivial) made
  cases last with
  | closed outlines =>
    cases done
    exact sound
  | before | inside => cases done

theorem stepSeparator {i : Nat} {r next : Reading} (made : step i Word.separator r = some next) :
    ∃ f outer, r = .inside .done f outer ∧ next = .inside .due f outer := by
  have unmarked : Mark.ofWord? Word.separator = none := by decide
  cases r with
  | closed => cases made
  | before marks => cases marks <;> simp [step, unmarked] at made
  | inside mode f outer =>
    rw [step] at made
    cases mode with
    | done =>
      rw [stepInside, if_pos rfl] at made
      cases made
      exact ⟨f, outer, rfl, rfl⟩
    | _ => simp [stepInside, unmarked] at made

theorem doneFresh (i : Nat) (w : Word) (f : Frame) (outer : List Frame) :
    step i w.freshen (.inside .done f outer) = step i w (.inside .due f outer) := by
  have other : w.freshen ≠ Word.separator := fun same => nomatch congrArg Word.fresh same
  rw [step, stepInside, if_neg other]
  rfl

/-- Words around a separator: what is read up to it ends a statement, and what follows may begin one. -/
theorem readsSeparator {a b : List Word} {w : Word} {last : Reading}
    (made : reads 0 start (a ++ Word.separator :: w :: b) = some last) :
    ∃ f outer, reads 0 start a = some (.inside .done f outer) ∧
      reads (a.length + 1) (.inside .due f outer) (w :: b) = some last := by
  rw [readsAppend, Nat.zero_add] at made
  obtain ⟨r, before, made⟩ := Option.bind_eq_some_iff.mp made
  obtain ⟨next, separated, made⟩ := Option.bind_eq_some_iff.mp made
  obtain ⟨f, outer, rfl, rfl⟩ := stepSeparator separated
  exact ⟨f, outer, before, made⟩

theorem separatorFurther {a b : List Word} {w : Word} {os : List Outline}
    (program : grammar (a ++ Word.separator :: w :: b) = some os) :
    grammar (a ++ Word.separator :: w.freshen :: b) = some os := by
  obtain ⟨last, made, done⟩ := Option.bind_eq_some_iff.mp program
  obtain ⟨f, outer, before, behind⟩ := readsSeparator made
  have again : reads 0 start (a ++ Word.separator :: w.freshen :: b) = some last := by
    rw [readsAppend, before, Nat.zero_add]
    exact behind
  rw [grammar, again]
  exact done

theorem separatorEither {a b : List Word} {w : Word} {os : List Outline}
    (program : grammar (a ++ Word.separator :: w :: b) = some os) :
    grammar (a ++ w.freshen :: b) = some (os.map (Outline.moved (without a.length))) := by
  obtain ⟨last, made, done⟩ := Option.bind_eq_some_iff.mp program
  obtain ⟨f, outer, before, behind⟩ := readsSeparator made
  -- Nothing moves in front of the separator, and what is behind it moves by one.
  have front (n : Nat) (less : n < a.length) : without a.length (0 + n) = 0 + n := if_neg (by omega)
  have back (n : Nat) (_ : n < (w :: b).length) : without a.length (a.length + 1 + n) = a.length + n := by
    rw [without, if_pos (by omega)]
    omega
  have kept := readsMoved (without a.length) a front start
  rw [before] at kept
  have fixed : (Reading.inside .done f outer).moved (without a.length) = .inside .done f outer :=
    Option.some.inj (kept.symm.trans before)
  simp only [Reading.moved, Reading.inside.injEq] at fixed
  have moved := readsMoved (without a.length) (w :: b) back (.inside .due f outer)
  rw [behind, Reading.moved, fixed.2.1, fixed.2.2] at moved
  have again : reads 0 start (a ++ w.freshen :: b) = some (last.moved (without a.length)) := by
    rw [readsAppend, before, Nat.zero_add, Option.bind_some, reads, doneFresh]
    exact moved
  rw [grammar, again]
  cases last with
  | closed outlines =>
    cases done
    rfl
  | before | inside => cases done

end

theorem parted {ws : List Word} {os : List Outline} (program : grammar ws = some os) {o : Outline} (mem : o ∈ os)
    {x y : Span} (pair : [x, y] <:+: o.spans) : Behind ws x y.first := by
  obtain ⟨before, after, parts⟩ := pair
  have split : o.spans = before ++ x :: y :: after := by simp [← parts]
  exact List.isChain_iff_forall_rel_of_append_cons_cons.mp (grammarChained program o mem) split

theorem separated {ws : List Word} {os : List Outline} (program : grammar ws = some os) {n : Nat}
    (separator : ws[n]? = some Word.separator) : ∃ a w b, a.length = n ∧
      ws = a ++ Word.separator :: w :: b ∧ ws.modify (n + 1) Word.freshen = a ++ Word.separator :: w.freshen :: b := by
  have inside := (List.getElem?_eq_some_iff.mp separator).1
  have length : (ws.take n).length = n := List.length_take_of_le (by omega)
  have parts := splitAt separator
  generalize ws.take n = a, ws.drop (n + 1) = rest at length parts
  subst parts length
  cases rest with
  | nil =>
    -- Behind a last separator the body would still be open.
    obtain ⟨last, made, done⟩ := Option.bind_eq_some_iff.mp program
    rw [readsAppend] at made
    obtain ⟨r, -, made⟩ := Option.bind_eq_some_iff.mp made
    obtain ⟨next, separated, made⟩ := Option.bind_eq_some_iff.mp made
    obtain ⟨f, outer, rfl, rfl⟩ := stepSeparator separated
    cases made
    cases done
  | cons w b =>
    refine ⟨a, w, b, rfl, rfl, ?_⟩
    have behind := modifyBehind Word.freshen (a ++ [Word.separator]) b w
    simpa using behind

theorem terminates : Terminates grammar where
  parted _ _ program _ mem _ _ pair := parted program mem pair
  further ws os program o mem x y pair _ := by
    obtain ⟨-, w, there, fresh⟩ | ⟨next, separator⟩ := parted program mem pair
    · have same : w.freshen = w := by rw [Word.freshen, ← fresh]
      have parts := splitAt there
      have unchanged := modifyBehind Word.freshen (ws.take y.first) (ws.drop (y.first + 1)) w
      have inside := (List.getElem?_eq_some_iff.mp there).1
      rw [List.length_take_of_le (by omega), same, ← parts] at unchanged
      rw [unchanged, program]
    · rw [next]
      obtain ⟨a, w, b, -, parts, made⟩ := separated program separator
      rw [made]
      rw [parts] at program
      exact separatorFurther program
  either ws os program o mem x y pair _ behind := by
    obtain ⟨next, -⟩ | ⟨next, separator⟩ := parted program mem pair
    · omega
    · rw [next]
      obtain ⟨a, w, b, length, parts, made⟩ := separated program separator
      rw [made, ← length, List.eraseIdx_append_of_length_le (Nat.le_refl _), Nat.sub_self]
      rw [parts] at program
      exact separatorEither program

end Body
end ExitSpacing
