import ExitSpacing.Spacing.Rendering
import Mathlib.Data.List.Basic

/-! The walk of a tree against the tree itself: it lists every node once, at its place, in the
order of the places. The blocks of a tree and its first error are found in that order. -/
namespace ExitSpacing

namespace Node

/-- What holds of a node when it holds of its children holds of every node. -/
@[elab_as_elim]
theorem byChildren {motive : Node → Prop}
    (step : ∀ label children, (∀ c ∈ children, motive c) → motive (mk label children)) : ∀ n, motive n
  | mk label children => step label children fun c mem =>
      have : sizeOf c < sizeOf children := List.sizeOf_lt_of_mem mem
      byChildren step c
termination_by n => sizeOf n
decreasing_by
  simp only [mk.sizeOf_spec]
  omega

def at? : Node → List Nat → Option Node
  | n, [] => some n
  | n, i :: place => n.children[i]?.bind (at? · place)

mutual

def preorder : Node → List Node
  | mk label children => mk label children :: preorders children

def preorders : List Node → List Node
  | [] => []
  | n :: rest => preorder n ++ preorders rest

end

mutual

def placed : Node → List (List Nat × Node)
  | mk label children => ([], mk label children) :: placedFrom 0 children

def placedFrom : Nat → List Node → List (List Nat × Node)
  | _, [] => []
  | i, n :: rest => (placed n).map (fun x => (i :: x.1, x.2)) ++ placedFrom (i + 1) rest

end

theorem preordersFlat (ns : List Node) : preorders ns = ns.flatMap preorder := by
  induction ns with
  | nil => rfl
  | cons n rest ih => rw [preorders, ih, List.flatMap_cons]

theorem preorderOf (label : Label) (children : List Node) :
    preorder (mk label children) = mk label children :: children.flatMap preorder := by
  rw [preorder, preordersFlat]

theorem walkStackPreorder (pending : List Node) : walkStack pending = pending.flatMap preorder := by
  fun_induction walkStack pending with
  | case1 => rfl
  | case2 label children pending ih =>
    rw [ih, List.flatMap_append, List.flatMap_cons, preorderOf, List.cons_append]

theorem walkPreorder (n : Node) : n.walk = n.preorder := by
  rw [walk, walkStackPreorder, List.flatMap_singleton]

theorem placedFromNodes {children : List Node} (each : ∀ c ∈ children, c.placed.map Prod.snd = c.preorder) (i : Nat) :
    (placedFrom i children).map Prod.snd = children.flatMap preorder := by
  induction children generalizing i with
  | nil => rfl
  | cons c rest ih =>
    have later := ih (fun c mem => each c (List.mem_cons_of_mem _ mem)) (i + 1)
    rw [placedFrom, List.map_append, List.map_map, later, List.flatMap_cons, ← each c List.mem_cons_self]
    rfl

theorem placedNodes (n : Node) : n.placed.map Prod.snd = n.walk := by
  rw [walkPreorder]
  induction n using byChildren with
  | step label children ih => rw [placed, List.map_cons, placedFromNodes ih, preorderOf]

theorem placedFromMem {children : List Node} {i : Nat} {place : List Nat} {n : Node} :
    (place, n) ∈ placedFrom i children ↔
      ∃ k below c, place = (i + k) :: below ∧ children[k]? = some c ∧ (below, n) ∈ c.placed := by
  induction children generalizing i with
  | nil => simp [placedFrom]
  | cons c rest ih =>
    rw [placedFrom, List.mem_append, List.mem_map, ih]
    constructor
    · rintro (⟨⟨below, m⟩, mem, same⟩ | ⟨k, below, d, rfl, there, mem⟩)
      · cases same
        exact ⟨0, below, c, rfl, rfl, mem⟩
      · exact ⟨k + 1, below, d, by rw [Nat.add_right_comm]; rfl, there, mem⟩
    · rintro ⟨k, below, d, rfl, there, mem⟩
      cases k with
      | zero =>
        cases Option.some.inj there
        exact .inl ⟨(below, n), mem, rfl⟩
      | succ k => exact .inr ⟨k, below, d, by rw [Nat.add_right_comm]; rfl, there, mem⟩

theorem placedAt (n : Node) {place : List Nat} {m : Node} : (place, m) ∈ n.placed ↔ n.at? place = some m := by
  induction n using byChildren generalizing place with
  | step label children ih =>
    rw [placed, List.mem_cons, placedFromMem]
    cases place with
    | nil => simp [at?, eq_comm]
    | cons i below =>
      simp only [at?, Prod.mk.injEq, reduceCtorEq, false_and, false_or, List.cons.injEq, Option.bind_eq_some_iff,
        Nat.zero_add]
      constructor
      · rintro ⟨_, _, c, ⟨rfl, rfl⟩, there, mem⟩
        exact ⟨c, there, (ih c (List.mem_of_getElem? there)).mp mem⟩
      · rintro ⟨c, there, found⟩
        exact ⟨i, below, c, ⟨rfl, rfl⟩, there, (ih c (List.mem_of_getElem? there)).mpr found⟩

theorem placedFromSorted {children : List Node} (each : ∀ c ∈ children, c.placed.Pairwise fun x y => x.1 < y.1) (i : Nat) :
    (placedFrom i children).Pairwise fun x y => x.1 < y.1 := by
  induction children generalizing i with
  | nil => exact .nil
  | cons c rest ih =>
    rw [placedFrom, List.pairwise_append, List.pairwise_map]
    refine ⟨(each c List.mem_cons_self).imp List.Lex.cons, ih (fun c mem => each c (List.mem_cons_of_mem _ mem)) (i + 1), ?_⟩
    rintro x left ⟨place, n⟩ right
    obtain ⟨y, -, rfl⟩ := List.mem_map.mp left
    obtain ⟨k, below, d, rfl, -, -⟩ := placedFromMem.mp right
    exact List.Lex.rel (by omega)

theorem placedSorted (n : Node) : n.placed.Pairwise fun x y => x.1 < y.1 := by
  induction n using byChildren with
  | step label children ih =>
    rw [placed, List.pairwise_cons]
    refine ⟨fun x mem => ?_, placedFromSorted ih 0⟩
    obtain ⟨k, below, c, same, -, -⟩ := placedFromMem.mp (show (x.1, x.2) ∈ placedFrom 0 children from mem)
    rw [same]
    exact List.Lex.nil

def Faulty (n : Node) : Prop := n.missing = true ∨ n.kind = "ERROR"

theorem errorNone (n : Node) : n.error? = none ↔ ¬ n.Faulty := by
  unfold error? Faulty
  cases n.missing <;> simp

theorem errorSome {n : Node} {e : SyntaxError} (found : n.error? = some e) :
    n.Faulty ∧ e = ⟨n.start.row + 1, n.start.column + 1, if n.missing then "missing " ++ n.kind else "syntax error"⟩ := by
  unfold error? at found
  unfold Faulty
  cases gone : n.missing with
  | true =>
    rw [gone, if_pos rfl] at found
    exact ⟨.inl rfl, (Option.some.inj found).symm⟩
  | false =>
    rw [gone, if_neg Bool.false_ne_true] at found
    split at found
    · rename_i broken
      exact ⟨.inr (beq_iff_eq.mp broken), (Option.some.inj found).symm⟩
    · cases found

end Node

namespace Tree

theorem firstErrorPlaced (t : Tree) :
    (∃ place n, t.root.at? place = some n ∧ n.Faulty ∧
      (∀ earlier m, earlier < place → t.root.at? earlier = some m → ¬ m.Faulty) ∧
      t.firstError =
        ⟨n.start.row + 1, n.start.column + 1, if n.missing then "missing " ++ n.kind else "syntax error"⟩) ∨
    (∀ place n, t.root.at? place = some n → ¬ n.Faulty) ∧
      t.firstError = ⟨t.root.start.row + 1, t.root.start.column + 1, "syntax error"⟩ := by
  have walked : t.root.walk.findSome? Node.error? = t.root.placed.findSome? fun x => x.2.error? := by
    rw [← Node.placedNodes, List.findSome?_map]
    rfl
  rw [firstError, walked]
  cases found : t.root.placed.findSome? fun x => x.2.error? with
  | none =>
    refine .inr ⟨fun place n there => ?_, rfl⟩
    exact (Node.errorNone n).mp (List.findSome?_eq_none_iff.mp found (place, n) ((Node.placedAt _).mpr there))
  | some e =>
    obtain ⟨front, ⟨place, n⟩, back, parts, here, none⟩ := List.findSome?_eq_some_iff.mp found
    have sorted := parts ▸ t.root.placedSorted
    obtain ⟨faulty, rfl⟩ := Node.errorSome here
    have there : t.root.at? place = some n := (Node.placedAt _).mp (by rw [parts]; simp)
    refine .inl ⟨place, n, there, faulty, fun earlier m before found => ?_, rfl⟩
    have mem := (Node.placedAt _).mpr found
    rw [parts, List.mem_append, List.mem_cons] at mem
    -- what is placed earlier was passed over, and what comes later is not placed earlier
    obtain inFront | same | inBack := mem
    · exact (Node.errorNone m).mp (none _ inFront)
    · cases same
      exact absurd before (List.lt_irrefl _)
    · have after := (List.pairwise_cons.mp (List.pairwise_append.mp sorted).2.1).1 _ inBack
      exact absurd before (List.lt_asymm after)

def owners (t : Tree) : List (List Nat × Node) := t.root.placed.filter fun x => Block.ownerKinds.contains x.2.kind

theorem ownersBlocks (t : Tree) : t.blocks = (t.owners.map Prod.snd).mapIdx Block.ofNode := by
  rw [blocks, owners, ← Node.placedNodes, List.filter_map]
  rfl

theorem ownersSorted (t : Tree) : t.owners.Pairwise fun x y => x.1 < y.1 := t.root.placedSorted.filter _

theorem ownersAt (t : Tree) {place : List Nat} {n : Node} :
    (place, n) ∈ t.owners ↔ t.root.at? place = some n ∧ n.kind ∈ Block.ownerKinds := by
  rw [owners, List.mem_filter, Node.placedAt, List.contains_iff_mem]

end Tree

theorem outerBefore {outer inner : List Nat} (inside : outer <+: inner) : ¬ inner < outer := by
  obtain ⟨below, rfl⟩ := inside
  induction outer with
  | nil => exact List.not_lt_nil _
  | cons i rest ih => simpa using ih

/-- The loop over pending nodes lists a tree as the recursion over it does: every node at its one
place, parents before children and siblings left to right. So each node that has statements makes one
block, none before a block around it, and a malformed source is told by the first faulty node, which is
told as missing when it is both, or else by the root. -/
theorem Tree.visitsInOrder (parser : Parser) (unit : String) (source : Bytes) :
    let t := parser source
    (t.root.walk = t.root.preorder ∧ t.root.placed.map Prod.snd = t.root.walk ∧
      (t.root.placed.Pairwise fun x y => x.1 < y.1) ∧
      ∀ place n, (place, n) ∈ t.root.placed ↔ t.root.at? place = some n) ∧
    (∃ owners : List (List Nat × Node), t.blocks = (owners.map Prod.snd).mapIdx Block.ofNode ∧
      (owners.Pairwise fun x y => x.1 < y.1) ∧
      (∀ place n, (place, n) ∈ owners ↔ t.root.at? place = some n ∧ n.kind ∈ Block.ownerKinds) ∧
      ∀ (i j : Nat) (x y : List Nat × Node), owners[i]? = some x → owners[j]? = some y → x.1 <+: y.1 → i ≤ j) ∧
    (t.hasError = true →
      (∃ place n, t.root.at? place = some n ∧ n.Faulty ∧
        (∀ earlier m, earlier < place → t.root.at? earlier = some m → ¬ m.Faulty) ∧
        Document.parse parser unit source = .error (.malformed unit (n.start.row + 1 : Nat) (n.start.column + 1 : Nat)
          (if n.missing then "missing " ++ n.kind else "syntax error"))) ∨
      (∀ place n, t.root.at? place = some n → ¬ n.Faulty) ∧
        Document.parse parser unit source =
          .error (.malformed unit (t.root.start.row + 1 : Nat) (t.root.start.column + 1 : Nat) "syntax error")) := by
  intro t
  refine ⟨⟨t.root.walkPreorder, t.root.placedNodes, t.root.placedSorted, fun _ _ => t.root.placedAt⟩,
    ⟨t.owners, t.ownersBlocks, t.ownersSorted, fun _ _ => t.ownersAt, ?outer⟩, fun malformed => ?error⟩
  case outer =>
    intro i j x y first second inside
    obtain ⟨inI, rfl⟩ := List.getElem?_eq_some_iff.mp first
    obtain ⟨inJ, rfl⟩ := List.getElem?_eq_some_iff.mp second
    by_contra before
    exact outerBefore inside (List.pairwise_iff_getElem.mp t.ownersSorted j i inJ inI (Nat.lt_of_not_le before))
  case error =>
    have refused : Document.parse parser unit source =
        .error (.malformed unit t.firstError.line t.firstError.column t.firstError.message) := if_pos malformed
    rw [refused]
    refine t.firstErrorPlaced.imp ?_ ?_
    · rintro ⟨place, n, there, faulty, first, told⟩
      exact ⟨place, n, there, faulty, first, by rw [told]⟩
    · rintro ⟨none, told⟩
      exact ⟨none, by rw [told]⟩

def tornTree : Tree where
  hasError := true
  root := .mk { kind := "source_file" }
    [.mk { kind := "block", start := ⟨0, 9, 9⟩ }
      [.mk { kind := "\x7b", named := false, start := ⟨0, 9, 9⟩ } [],
        .mk { kind := "ERROR", missing := true, start := ⟨1, 4, 15⟩ } []],
      .mk { kind := "ERROR", start := ⟨2, 0, 17⟩ } []]

theorem tornRefused : tornTree.hasError = true ∧
    Document.parse (fun _ => tornTree) "f.go" [] = .error (.malformed "f.go" 2 5 "missing ERROR") ∧
    tornTree.root.walk.map Node.kind = ["source_file", "block", "\x7b", "ERROR", "ERROR"] := by
  obtain ⟨⟨walked, -, -, places⟩, -, told⟩ := Tree.visitsInOrder (fun _ => tornTree) "f.go" []
  have inside : tornTree.root.at? [0, 1] = some (.mk { kind := "ERROR", missing := true, start := ⟨1, 4, 15⟩ } []) := rfl
  refine ⟨rfl, ?_, by rw [walked]; rfl⟩
  obtain ⟨place, n, there, faulty, first, refused⟩ | ⟨none, -⟩ := told rfl
  · have mem := (places place n).mpr there
    simp only [tornTree, Node.placed, Node.placedFrom, List.map_nil, List.map_cons, List.append_nil, List.cons_append,
      List.nil_append, List.mem_cons, Prod.mk.injEq, List.not_mem_nil, or_false] at mem
    obtain ⟨-, rfl⟩ | ⟨-, rfl⟩ | ⟨-, rfl⟩ | ⟨-, rfl⟩ | ⟨rfl, rfl⟩ := mem
    · exact absurd faulty (by unfold Node.Faulty; decide)
    · exact absurd faulty (by unfold Node.Faulty; decide)
    · exact absurd faulty (by unfold Node.Faulty; decide)
    · exact refused
    · exact absurd (.inl rfl) (first [0, 1] _ (by decide) inside)
  · exact absurd (.inl rfl) (none _ _ inside)

end ExitSpacing
