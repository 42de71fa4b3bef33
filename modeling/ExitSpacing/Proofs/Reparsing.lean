import ExitSpacing.Proofs.Composition
import ExitSpacing.Proofs.Opening
import ExitSpacing.Proofs.Outlines

/-! A formatted source is read as the source was: its words are those of the source, with
line feeds for some of the semicolons that part statements, so it has the same blocks. -/
namespace ExitSpacing
open Bytes
open Go
open Go.Scan

theorem modifyBehind {α : Type} (f : α → α) (front back : List α) (a : α) :
    (front ++ a :: back).modify front.length f = front ++ f a :: back := by
  induction front with
  | nil => rfl
  | cons b front ih => rw [List.cons_append, List.length_cons, List.modify_succ_cons, ih]; rfl

theorem reachAppend (p : Nat) (ts us : List Token) : reach p (ts ++ us) = reach (reach p ts) us := by
  induction ts generalizing p with
  | nil => rfl
  | cons t ts ih => exact ih t.stop.offset

section
variable {source rest h : Bytes} {q : Nat} {t : Token} {mid back : List Token} {later : List Word}

theorem openedSpells (stands : Stands source q (t :: mid ++ back)) (near : Near (source.drop (reach t.stop.offset mid)) rest)
    (spells : Spells rest later) (trivia : Trivia h true) :
    Spells (h ++ cut source t.start.offset (reach t.stop.offset mid) ++ rest)
      ((t.word source).freshen :: mid.map (Token.word source) ++ later) := by
  cases id stands with
  | cons order inside within gap starts token valid after =>
    have reads := (stands.regap after.reads trivia).near near
    exact reads.spells spells

theorem openedNear (stands : Stands source q (t :: mid ++ back)) (near : Near (source.drop (reach t.stop.offset mid)) rest)
    {start : Nat} (before : start ≤ t.start.offset) (opened : Opened (cut source start t.start.offset) h)
    (fenced : Fenced (source.drop start)) :
    Near (source.drop start) (h ++ cut source t.start.offset (reach t.stop.offset mid) ++ rest) := by
  cases stands with
  | cons order inside within gap starts token valid after =>
    have ahead := after.order
    have parts : cut source start t.start.offset ++
        (cut source t.start.offset (reach t.stop.offset mid) ++ source.drop (reach t.stop.offset mid)) = source.drop start := by
      rw [cutDrop source (by omega), cutDrop source before]
    rw [← parts] at fenced ⊢
    rw [List.append_assoc h]
    refine opened.near fenced fun w none => ?_
    rw [← List.append_assoc] at none ⊢
    exact near.comment none

theorem semicolonGap {s : Token} (stands : Stands source q (s :: t :: mid ++ back)) (semi : s.word source = Word.separator) :
    q ≤ t.start.offset ∧ Fenced (source.drop q) ∧ Trivia (cut source q s.start.offset) s.fresh ∧
      cut source q s.stop.offset = cut source q s.start.offset ++ [semicolon] ∧
      cut source q t.start.offset = cut source q s.start.offset ++ semicolon :: cut source s.stop.offset t.start.offset := by
  cases stands with
  | cons orderS insideS withinS gap startsS tokenS validS behind =>
    cases behind with
    | cons order inside within gapT starts token valid after =>
      have spelled : cut source s.start.offset s.stop.offset = [semicolon] := congrArg Word.spelling semi
      have upTo : cut source q s.stop.offset = cut source q s.start.offset ++ [semicolon] := by
        rw [← cutAppend source orderS (Nat.le_of_lt insideS), spelled]
      refine ⟨by omega, ?_, gap, upTo, ?_⟩
      · rw [← cutDrop source (by omega : q ≤ s.stop.offset), upTo, List.append_assoc]
        refine gap.fenced fun _ => ?_
        rintro b ⟨rfl⟩
        decide
      · rw [← cutAppend source (by omega) order, upTo, List.append_assoc]
        rfl

end

/-- A source from whose end on some gaps were opened: the tokens in front stand as they
stood, and the words behind them are still those of a program with the same blocks. -/
structure Reworked (grammar : WordGrammar) (source : Bytes) (p : Nat) (os : List Outline) (front : List Token)
    (rest : Bytes) (later : List Word) (place : Nat → Nat) : Prop where
  near : Near (source.drop (reach p front)) rest
  spells : Spells rest later
  reads : grammar (front.map (Token.word source) ++ later) = some (os.map (Outline.moved place))
  fixed : ∀ j < front.length, place j = j

section
variable {grammar : WordGrammar} {source : Bytes} {p : Nat} {os : List Outline} {front mid back : List Token} {s t : Token}
  {rest h : Bytes} {later : List Word} {place : Nat → Nat} {o : Outline} {x y : Span}

theorem Reworked.breaks (terminates : Terminates grammar) (stands : Stands source p (front ++ (t :: mid ++ back)))
    (worked : Reworked grammar source p os (front ++ t :: mid) rest later place) (mem : o ∈ os)
    (pair : [x, y] <:+: o.spans) (exits : y.Exits) (first : y.first = front.length)
    (fresh : t.fresh = true) (opened : Opened (cut source (reach p front) t.start.offset) h) :
    Reworked grammar source p os front (h ++ cut source t.start.offset (reach t.stop.offset mid) ++ rest)
      ((t.word source).freshen :: mid.map (Token.word source) ++ later) place := by
  have target := stands.behind
  have near := worked.near
  rw [reachAppend, reach] at near
  cases id target with
  | cons order inside within gap starts token valid after =>
    rw [fresh] at gap
    have fenced : Fenced (source.drop (reach p front)) := by
      rw [← cutDrop source order]
      exact gap.fenced fun none => absurd none gap.nonempty
    have further := terminates.further _ _ worked.reads (o.moved place) (List.mem_map_of_mem mem) (x.moved place)
      (y.moved place) (pair.map (Span.moved place)) exits
    have here : (y.moved place).first = (front.map (Token.word source)).length := by
      rw [Span.moved, List.length_map, ← first]
      exact worked.fixed _ (by rw [first, List.length_append, List.length_cons]; omega)
    rw [here, List.map_append, List.map_cons, List.append_assoc, List.cons_append, modifyBehind] at further
    exact ⟨openedNear target near order opened fenced, openedSpells target near worked.spells (opened.alone gap), further,
      fun j inside => worked.fixed j (by rw [List.length_append]; omega)⟩

theorem Reworked.keeps (terminates : Terminates grammar) (stands : Stands source p (front ++ (s :: t :: mid ++ back)))
    (worked : Reworked grammar source p os (front ++ s :: t :: mid) rest later place) (mem : o ∈ os)
    (pair : [x, y] <:+: o.spans) (exits : y.Exits) (first : y.first = front.length + 1)
    (semi : s.word source = Word.separator) (opened : Opened (cut source (reach p front) t.start.offset) h) {l : Bytes}
    (kept : h = cut source (reach p front) s.start.offset ++ semicolon :: l)
    (nonempty : cut source s.stop.offset t.start.offset ≠ []) (opensBehind : Opened (cut source s.stop.offset t.start.offset) l) :
    Reworked grammar source p os front (h ++ cut source t.start.offset (reach t.stop.offset mid) ++ rest)
      (s.word source :: ((t.word source).freshen :: mid.map (Token.word source) ++ later)) place := by
  have target : Stands source (reach p front) ([s] ++ (t :: mid ++ back)) := stands.behind
  have behind : Stands source s.stop.offset (t :: mid ++ back) := target.behind
  have near := worked.near
  rw [reachAppend, reach, reach] at near
  obtain ⟨order, fenced, -, upTo, -⟩ := semicolonGap target semi
  cases id behind with
  | cons orderT inside within gap starts token valid after =>
    have fencedBehind : Fenced (source.drop s.stop.offset) := by
      rw [← cutDrop source orderT]
      exact gap.fenced fun none => absurd none nonempty
    have nearBehind := openedNear behind near orderT opensBehind fencedBehind
    have spells := (target.reads.near nearBehind).spells (openedSpells behind near worked.spells (opensBehind.alone gap))
    have further := terminates.further _ _ worked.reads _ (List.mem_map_of_mem mem) _ _ (pair.map (Span.moved place)) exits
    have here : (y.moved place).first = ((front ++ [s]).map (Token.word source)).length := by
      rw [List.length_map, List.length_append, List.length_singleton, ← first]
      exact worked.fixed _ (by rw [first, List.length_append, List.length_cons, List.length_cons]; omega)
    rw [List.append_cons, List.map_append, List.append_assoc, List.map_cons, List.cons_append, here, modifyBehind] at further
    refine ⟨openedNear behind near order opened fenced, ?_, ?_, fun j inside => worked.fixed j (by
      rw [List.length_append]; omega)⟩
    · rw [reach, reach, upTo] at spells
      rw [kept]
      simpa using spells
    · simpa using further

theorem Reworked.drops (terminates : Terminates grammar) (stands : Stands source p (front ++ (s :: t :: mid ++ back)))
    (worked : Reworked grammar source p os (front ++ s :: t :: mid) rest later place) (mem : o ∈ os)
    (pair : [x, y] <:+: o.spans) (exits : y.Exits) (last : x.last + 1 = front.length) (first : y.first = front.length + 1)
    (semi : s.word source = Word.separator) (opened : Opened (cut source (reach p front) t.start.offset) h)
    (trivia : Trivia h true) :
    Reworked grammar source p os front (h ++ cut source t.start.offset (reach t.stop.offset mid) ++ rest)
      ((t.word source).freshen :: mid.map (Token.word source) ++ later) (without front.length ∘ place) := by
  have target : Stands source (reach p front) ([s] ++ (t :: mid ++ back)) := stands.behind
  have behind : Stands source s.stop.offset (t :: mid ++ back) := target.behind
  have near := worked.near
  rw [reachAppend, reach, reach] at near
  obtain ⟨order, fenced, -, -, -⟩ := semicolonGap target semi
  have lastFixed : (x.moved place).last = x.last := worked.fixed _ (by rw [List.length_append]; omega)
  have firstFixed : (y.moved place).first = y.first :=
    worked.fixed _ (by rw [first, List.length_append, List.length_cons, List.length_cons]; omega)
  -- in front of `front.length` nothing has moved, so the spans of the two statements are known
  have either := terminates.either _ _ worked.reads _ (List.mem_map_of_mem mem) _ _ (pair.map (Span.moved place)) exits
    (by rw [firstFixed, lastFixed, first, ← last])
  have here : (y.moved place).first = ((front ++ [s]).map (Token.word source)).length := by
    rw [List.length_map, List.length_append, List.length_singleton, ← first]
    exact firstFixed
  rw [List.append_cons, List.map_append, List.append_assoc, List.map_cons, List.cons_append, here, modifyBehind, lastFixed,
    last, List.map_append, List.append_assoc, List.eraseIdx_append_of_length_le (by rw [List.length_map]), List.length_map,
    Nat.sub_self, List.map_map, Outline.movedTwice] at either
  refine ⟨openedNear behind near order opened fenced, openedSpells behind near worked.spells trivia, ?_, fun j inside => ?_⟩
  · simpa using either
  · have fixed := worked.fixed j (by rw [List.length_append]; omega)
    rw [Function.comp, fixed, without, if_neg (by omega)]

theorem Reworked.parts (terminates : Terminates grammar) (stands : Stands source p (front ++ (s :: t :: mid ++ back)))
    (worked : Reworked grammar source p os (front ++ s :: t :: mid) rest later place) (mem : o ∈ os)
    (pair : [x, y] <:+: o.spans) (exits : y.Exits) (last : x.last + 1 = front.length) (first : y.first = front.length + 1)
    (semi : s.word source = Word.separator) (opened : Opened (cut source (reach p front) t.start.offset) h) :
    ∃ words place, Reworked grammar source p os front (h ++ cut source t.start.offset (reach t.stop.offset mid) ++ rest)
      words place := by
  obtain ⟨-, -, gap, -, whole⟩ := semicolonGap stands.behind semi
  rcases opened.behind whole gap with ⟨l, kept, nonempty, opensBehind⟩ | dropped
  · exact ⟨_, _, worked.keeps terminates stands mem pair exits first semi opened kept nonempty opensBehind⟩
  · exact ⟨_, _, worked.drops terminates stands mem pair exits last first semi opened dropped⟩

end
theorem splitAt {α : Type} {l : List α} {i : Nat} {a : α} (there : l[i]? = some a) : l = l.take i ++ a :: l.drop (i + 1) := by
  obtain ⟨inside, rfl⟩ := List.getElem?_eq_some_iff.mp there
  rw [← List.drop_eq_getElem_cons inside, List.take_append_drop]

theorem standsBefore {source : Bytes} {p i : Nat} {front back : List Token} {t : Token} (stands : Stands source p (front ++ back))
    (there : (front ++ back)[i]? = some t) (before : t.start.offset < reach p front) : i < front.length := by
  by_contra beyond
  rw [List.getElem?_append_right (by omega)] at there
  have parts := splitAt there
  have behind := stands.behind
  rw [parts] at behind
  have ahead := behind.order
  cases behind.behind with
  | cons order => omega

section
variable {grammar : WordGrammar} {source : Bytes} {p : Nat} {os : List Outline} {front back : List Token} {rest : Bytes}
  {later : List Word} {place : Nat → Nat} {o : Outline} {x y : Span} {m : Marker}

theorem Reworked.step (terminates : Terminates grammar) (stands : Stands source p (front ++ back))
    (program : grammar ((front ++ back).map (Token.word source)) = some os)
    (worked : Reworked grammar source p os front rest later place) (mem : o ∈ os) (pair : [x, y] <:+: o.spans)
    (exits : y.Exits) (placeX : x.Places (front ++ back) m.predecessor) (placeY : y.Places (front ++ back) m.target)
    (gap : m.Gap source) (before : m.target.startByte < reach p front) :
    ∃ ahead after opened words place, front = ahead ++ after ∧ reach p ahead = m.predecessor.endByte ∧
      Reworked grammar source p os ahead opened words place ∧
      (Edit.ofMarker source m).apply (source.take (reach p front) ++ rest) = source.take (reach p ahead) ++ opened := by
  obtain ⟨t, there, start⟩ := placeY.first
  obtain ⟨u, final, stop⟩ := placeX.last
  have inside : y.first < front.length := standsBefore stands there (by omega)
  have parted := terminates.parted _ _ program o mem x y pair
  have earlier : x.last < y.first := by rcases parted with ⟨next, -⟩ | ⟨next, -⟩ <;> omega
  rw [List.getElem?_append_left inside] at there
  rw [List.getElem?_append_left (by omega)] at final
  have wide := solidInside gap.target.first
  have long : m.target.startByte ≤ (source.take (reach p front)).length := by
    rw [List.length_take]
    omega
  have same : (source.take (reach p front) ++ rest).take m.target.startByte = source.take m.target.startByte := by
    rw [List.take_append_of_le_length long, List.take_take, Nat.min_eq_left (by omega)]
  have tail : (source.take (reach p front) ++ rest).drop m.target.startByte =
      cut source t.start.offset (reach p front) ++ rest := by
    rw [List.drop_append_of_le_length long, List.drop_take, cut, ← start]
  have reached : reach p (front.take (x.last + 1)) = m.predecessor.endByte := by
    rw [List.take_add_one, final, reachAppend, stop]
    rfl
  have length : (front.take (x.last + 1)).length = x.last + 1 := List.length_take_of_le (by omega)
  obtain ⟨h, opened, made⟩ := applyOpened gap same
  rw [tail] at made
  rw [← reached, start] at opened
  -- The statement starts a line of its own, or a semicolon stands between the two.
  rcases parted with ⟨next, w, found, fresh⟩ | ⟨next, semi⟩
  · rw [next] at there
    have parts := splitAt there
    have isFresh : t.fresh = true := by
      rw [next, List.getElem?_map, List.getElem?_append_left (by omega), there] at found
      rw [← fresh, ← Option.some.inj found]
      rfl
    generalize front.take (x.last + 1) = ahead, front.drop (x.last + 1 + 1) = mid at parts reached length opened
    subst parts
    rw [List.append_assoc] at stands
    have works := worked.breaks terminates stands mem pair exits (by omega) isFresh opened
    refine ⟨ahead, _, _, _, _, rfl, reached, works, ?_⟩
    rw [made, reached, reachAppend, reach, List.append_assoc]
  · have between : x.last + 1 < front.length := by omega
    obtain ⟨s, found, word⟩ := Option.map_eq_some_iff.mp (List.getElem?_map.symm.trans semi)
    rw [List.getElem?_append_left between] at found
    rw [next, ← Nat.zero_add (x.last + 2), Nat.add_comm 0, ← List.getElem?_drop] at there
    have parts := splitAt found
    have more := splitAt there
    rw [List.take_zero, List.nil_append, Nat.zero_add] at more
    rw [more] at parts
    generalize front.take (x.last + 1) = ahead, (front.drop (x.last + 2)).drop 1 = mid at parts reached length opened
    subst parts
    rw [List.append_assoc] at stands
    obtain ⟨words, place, works⟩ := worked.parts terminates stands mem pair exits length.symm (by omega) word opened
    refine ⟨ahead, _, _, words, place, rfl, reached, works, ?_⟩
    rw [made, reached, reachAppend, reach, reach, List.append_assoc]

theorem Reworked.run (terminates : Terminates grammar) {tokens : List Token} (stands : Stands source p tokens)
    (program : grammar (tokens.map (Token.word source)) = some os) {ms : List Marker}
    (known : ∀ m ∈ ms, m.Gap source ∧ ∃ o ∈ os, ∃ x y, [x, y] <:+: o.spans ∧ y.Exits ∧
      x.Places tokens m.predecessor ∧ y.Places tokens m.target)
    (falling : ms.Pairwise fun m n => n.Clear m) (same : tokens = front ++ back)
    (before : ∀ m ∈ ms, m.target.startByte < reach p front)
    (worked : Reworked grammar source p os front rest later place) :
    ∃ ahead after opened words place, tokens = ahead ++ after ∧ Reworked grammar source p os ahead opened words place ∧
      (ms.map (Edit.ofMarker source)).foldl Edit.apply (source.take (reach p front) ++ rest) =
        source.take (reach p ahead) ++ opened := by
  -- each edit begins behind the tokens that the next one needs, which stand as in the source
  induction ms generalizing front back rest later place with
  | nil => exact ⟨front, back, rest, later, place, same, worked, rfl⟩
  | cons m ms ih =>
    obtain ⟨clear, falling⟩ := List.pairwise_cons.mp falling
    obtain ⟨gap, o, mem, x, y, pair, exits, placeX, placeY⟩ := known m List.mem_cons_self
    rw [same] at stands program placeX placeY
    obtain ⟨ahead, after, opened, words, place, parts, reached, works, made⟩ :=
      worked.step terminates stands program mem pair exits placeX placeY gap (before m List.mem_cons_self)
    rw [← same] at stands program
    rw [List.map_cons, List.foldl_cons, made]
    refine ih (fun n held => known n (List.mem_cons_of_mem _ held)) falling (by rw [same, parts, List.append_assoc])
      (fun n held => ?_) works
    rw [reached]
    exact clear n held

end
end ExitSpacing
