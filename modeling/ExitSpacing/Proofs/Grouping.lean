import ExitSpacing.Proofs.Traversal
import Mathlib.Data.List.Forall2
import Mathlib.Data.List.TakeWhile

/-! Two shapes of tree for the same statements: those of a block or case stand among its own
children, or in one `statement_list` child. Which of the two a node has is its own matter, at
any depth, and the blocks of a tree do not show it. -/
namespace ExitSpacing

inductive Part where
  | token
  | comment
  | label
  | statement
  deriving DecidableEq

def Label.part (l : Label) : Part :=
  if !l.named then .token
  else if l.kind == "comment" then .comment
  else if l.field.any Block.labelFields.contains then .label
  else .statement

namespace Node

def part (n : Node) : Part := n.label.part

theorem partCases (n : Node) : n.part =
    if !n.named then .token
    else if n.isComment then .comment
    else if n.field.any Block.labelFields.contains then .label
    else .statement := rfl

theorem partStatement (n : Node) :
    (n.part == .statement) = (n.named && !n.isComment && !n.field.any Block.labelFields.contains) := by
  rw [partCases]
  cases n.named <;> cases n.isComment <;> cases n.field.any Block.labelFields.contains <;> rfl

theorem partListed {n : Node} (unlabeled : n.part ≠ .label) : (n.part == .statement) = (n.named && !n.isComment) := by
  rw [partCases] at unlabeled ⊢
  revert unlabeled
  cases n.named <;> cases n.isComment <;> cases n.field.any Block.labelFields.contains <;> simp

/-- The other tree has the same nodes, but for a `statement_list` around the statements of some of its
blocks and cases. The list may take in tokens and comments beside them, but no label. -/
inductive Regrouped : Node → Node → Prop where
  | kept {label : Label} {children others : List Node} (each : List.Forall₂ Regrouped children others) :
      Regrouped (mk label children) (mk label others)
  | gathered {label list : Label} {front run back front' run' back' : List Node}
      (owner : label.kind ∈ Block.ownerKinds) (kind : list.kind = "statement_list") (named : list.named = true)
      (before : ∀ c ∈ front, c.part ≠ .statement) (inside : ∀ c ∈ run, c.part ≠ .label)
      (behind : ∀ c ∈ back, c.part ≠ .statement) (eachBefore : List.Forall₂ Regrouped front front')
      (eachInside : List.Forall₂ Regrouped run run') (eachBehind : List.Forall₂ Regrouped back back') :
      Regrouped (mk label (front ++ (run ++ back))) (mk label (front' ++ mk list run' :: back'))

theorem Regrouped.label {n m : Node} (same : Regrouped n m) : n.label = m.label := by
  cases same <;> rfl

theorem labelsAlike {ns ms : List Node} (each : List.Forall₂ Regrouped ns ms) : ns.map label = ms.map label := by
  induction each with
  | nil => rfl
  | cons same _ ih => rw [List.map_cons, List.map_cons, same.label, ih]

theorem eachAlike {p : Label → Prop} {ns ms : List Node} (alike : ns.map label = ms.map label)
    (each : ∀ n ∈ ns, p n.label) : ∀ m ∈ ms, p m.label := by
  intro m mem
  have labels : m.label ∈ ns.map label := alike ▸ List.mem_map_of_mem mem
  obtain ⟨n, inside, same⟩ := List.mem_map.mp labels
  exact same ▸ each n inside

def Flat (ns : List Node) : Prop := ∀ n ∈ ns, n.label.kind ≠ "statement_list"

def statementLabels (labels : List Label) : List Label := labels.filter fun l => l.part == .statement

theorem statementNodesFlat {n : Node} (flat : Flat n.children) :
    (Block.statementNodes n).map label = statementLabels (n.children.map label) := by
  have none : n.children.find? (fun n => n.named && n.kind == "statement_list") = none :=
    List.find?_eq_none.mpr fun c mem => by simp [Node.kind, flat c mem]
  rw [Block.statementNodes, none, statementLabels, List.filter_map]
  exact congrArg _ (List.filter_congr fun c _ => (partStatement c).symm)

theorem statementNodesListed {label list : Label} {front run back : List Node} (kind : list.kind = "statement_list")
    (named : list.named = true) (flat : Flat front) (inside : ∀ c ∈ run, c.part ≠ .label) :
    (Block.statementNodes (mk label (front ++ mk list run :: back))).map Node.label =
      statementLabels (run.map Node.label) := by
  have first : (front ++ mk list run :: back).find? (fun n => n.named && n.kind == "statement_list") =
      some (mk list run) := by
    rw [List.find?_append, List.find?_eq_none.mpr fun c mem => by simp [Node.kind, flat c mem], Option.none_or]
    exact List.find?_cons_of_pos (by simp [Node.named, Node.kind, Node.label, kind, named])
  simp only [Block.statementNodes, Node.children, first, statementLabels, List.filter_map]
  exact congrArg _ (List.filter_congr fun c mem => (partListed (inside c mem)).symm)

theorem statementLabelsNone {ns : List Node} (none : ∀ c ∈ ns, c.part ≠ .statement) : statementLabels (ns.map label) = [] := by
  refine List.filter_eq_nil_iff.mpr fun l mem => ?_
  obtain ⟨c, inside, rfl⟩ := List.mem_map.mp mem
  exact fun some => none c inside (beq_iff_eq.mp some)

def Alike (n m : Node) : Prop := ∀ number, Block.ofNode number n = Block.ofNode number m

theorem ofNodeAlike {n m : Node} (same : n.label = m.label)
    (alike : (Block.statementNodes n).map label = (Block.statementNodes m).map label) : Alike n m := by
  intro number
  have told (n : Node) : (Block.statementNodes n).mapIdx (fun i n => Entry.statement (.ofNode ⟨number, i⟩ n)) =
      ((Block.statementNodes n).map label).mapIdx fun i l => .statement (.ofNode ⟨number, i⟩ (mk l [])) := by
    refine List.ext_getElem? fun i => ?_
    rw [List.getElem?_mapIdx, List.getElem?_mapIdx, List.getElem?_map, Option.map_map]
    rfl
  unfold Block.ofNode Node.kind
  rw [same, told, told, alike]

theorem Regrouped.alike {n m : Node} (flat : Flat n.children) (same : Regrouped n m) : Alike n m := by
  refine ofNodeAlike same.label ?_
  rw [statementNodesFlat flat]
  cases same with
  | @kept label children others each =>
    have flatToo : Flat (mk label others).children := eachAlike (p := (·.kind ≠ "statement_list")) (labelsAlike each) flat
    rw [statementNodesFlat flatToo]
    exact congrArg statementLabels (labelsAlike each)
  | gathered owner kind named before inside behind eachBefore eachInside eachBehind =>
    have flatBefore : Flat _ := eachAlike (p := (·.kind ≠ "statement_list")) (labelsAlike eachBefore)
      fun c mem => flat c (List.mem_append_left _ mem)
    have insideToo := eachAlike (p := (·.part ≠ .label)) (labelsAlike eachInside) inside
    rw [statementNodesListed kind named flatBefore insideToo, ← labelsAlike eachInside]
    have front := statementLabelsNone before
    have back := statementLabelsNone behind
    simp only [statementLabels, Node.children, List.map_append, List.filter_append] at front back ⊢
    rw [front, back, List.nil_append, List.append_nil]

def owns (n : Node) : Bool := Block.ownerKinds.contains n.kind

def ownersBelow (ns : List Node) : List Node := (ns.flatMap preorder).filter owns

theorem ownersOf (label : Label) (children : List Node) : ownersBelow [mk label children] =
    if owns (mk label []) then mk label children :: ownersBelow children else ownersBelow children := by
  rw [ownersBelow, List.flatMap_singleton, preorderOf, List.filter_cons]
  rfl

theorem ownersAppend (ns ms : List Node) : ownersBelow (ns ++ ms) = ownersBelow ns ++ ownersBelow ms := by
  rw [ownersBelow, List.flatMap_append, List.filter_append, ownersBelow, ownersBelow]

theorem ownersEach {ns ms : List Node} (each : List.Forall₂ Regrouped ns ms)
    (alike : ∀ n ∈ ns, ∀ m, Regrouped n m → List.Forall₂ Alike (ownersBelow [n]) (ownersBelow [m])) :
    List.Forall₂ Alike (ownersBelow ns) (ownersBelow ms) := by
  induction each with
  | nil => exact .nil
  | @cons n m ns ms same _ ih =>
    rw [← List.singleton_append, ← List.singleton_append (l := ms), ownersAppend, ownersAppend]
    exact List.rel_append (alike n List.mem_cons_self m same) (ih fun c mem => alike c (List.mem_cons_of_mem _ mem))

theorem Regrouped.owners {n m : Node} (flat : Flat n.preorder) (same : Regrouped n m) :
    List.Forall₂ Alike (ownersBelow [n]) (ownersBelow [m]) := by
  induction n using byChildren generalizing m with
  | step label children ih =>
    rw [preorderOf] at flat
    have flatBelow : ∀ c ∈ children, Flat c.preorder := fun c mem x inside =>
      flat x (.tail _ (List.mem_flatMap.mpr ⟨c, mem, inside⟩))
    have self : Alike (mk label children) m :=
      same.alike fun c mem => flatBelow c mem c (by cases c; rw [preorderOf]; exact .head _)
    have each : ∀ c ∈ children, ∀ d, Regrouped c d → List.Forall₂ Alike (ownersBelow [c]) (ownersBelow [d]) :=
      fun c mem _ same => ih c mem (flatBelow c mem) same
    suffices below : List.Forall₂ Alike (ownersBelow children) (ownersBelow m.children) by
      obtain ⟨label', others⟩ := m
      obtain rfl : label = label' := same.label
      rw [ownersOf, ownersOf]
      split
      · exact .cons self below
      · exact below
    cases same with
    | kept alike => exact ownersEach alike each
    | @gathered _ list _ _ _ front' run' back' owner kind named before inside behind eachBefore eachInside eachBehind =>
      -- the list is no block and no case itself
      have silent : owns (mk list []) = false := by
        show Block.ownerKinds.contains list.kind = false
        rw [kind]
        decide
      have skipped : ownersBelow (front' ++ mk list run' :: back') = ownersBelow (front' ++ (run' ++ back')) := by
        rw [← List.singleton_append, ownersAppend, ownersAppend, ownersOf, silent, if_neg Bool.false_ne_true, ownersAppend,
          ownersAppend]
      rw [children, skipped]
      exact ownersEach (List.rel_append eachBefore (List.rel_append eachInside eachBehind)) each

end Node

theorem blocksOfAlike {ns ms : List Node} (alike : List.Forall₂ Node.Alike ns ms) :
    ns.mapIdx Block.ofNode = ms.mapIdx Block.ofNode := by
  refine List.ext_getElem (by simp [alike.length_eq]) fun i inN inM => ?_
  rw [List.getElem_mapIdx, List.getElem_mapIdx]
  exact alike.get (by simpa using inN) (by simpa using inM) i

theorem blocksRegrouped {t u : Tree} (flat : Node.Flat t.root.walk) (same : Node.Regrouped t.root u.root) :
    u.blocks = t.blocks := by
  have owners := same.owners (t.root.walkPreorder ▸ flat)
  rw [Node.ownersBelow, Node.ownersBelow, List.flatMap_singleton, List.flatMap_singleton, ← Node.walkPreorder,
    ← Node.walkPreorder] at owners
  exact (blocksOfAlike owners).symm

namespace Node

def LabelsAside (labels : List Label) : Prop :=
  ∀ a c b, [a, c, b].Sublist labels → a.part = .statement → b.part = .statement → c.part ≠ .label

def other (n : Node) : Bool := n.part != .statement

def ahead (children : List Node) : List Node := children.takeWhile other

def stretch (children : List Node) : List Node := ((children.dropWhile other).reverse.dropWhile other).reverse

def behind (children : List Node) : List Node := ((children.dropWhile other).reverse.takeWhile other).reverse

def gather (children : List Node) : List Node :=
  match (stretch children).head?, (stretch children).getLast? with
  | some first, some last =>
    ahead children ++
      mk { kind := "statement_list", start := first.start, stop := last.stop } (stretch children) :: behind children
  | _, _ => children

mutual

/-- The tree with the statements of some of its blocks and cases put in lists: of those at chosen places. -/
def grouped (chosen : List Nat → Bool) : Node → Node
  | mk label children =>
    let others := groupedFrom chosen 0 children
    mk label (if chosen [] && Block.ownerKinds.contains label.kind then gather others else others)

def groupedFrom (chosen : List Nat → Bool) (i : Nat) : List Node → List Node
  | [] => []
  | n :: rest => grouped (fun place => chosen (i :: place)) n :: groupedFrom chosen (i + 1) rest

end

theorem LabelsAside.within {labels : List Label} (aside : LabelsAside labels) {a b : Label} {run : List Label}
    (inside : run.Sublist labels) (head : run.head? = some a) (last : run.getLast? = some b)
    (opens : a.part = .statement) (closes : b.part = .statement) : ∀ c ∈ run, c.part ≠ .label := by
  intro c mem label
  obtain ⟨rest, rfl⟩ := List.head?_eq_some_iff.mp head
  obtain rfl | mem := List.mem_cons.mp mem
  · rw [label] at opens
    cases opens
  · obtain ⟨front, back, rfl⟩ := List.append_of_mem mem
    obtain rfl | ⟨init, d, rfl⟩ := back.eq_nil_or_concat
    · rw [← List.cons_append, List.getLast?_concat] at last
      cases last
      rw [label] at closes
      cases closes
    · have whole : a :: (front ++ c :: init.concat d) = a :: (front ++ c :: init) ++ [d] := by simp
      rw [whole, List.getLast?_concat] at last
      obtain rfl : d = b := Option.some.inj last
      have two : [a, c].Sublist (a :: (front ++ c :: init)) := (List.singleton_sublist.mpr (by simp)).cons_cons a
      -- `c` stands between the first and the last of the run, and both of these are statements.
      have three : [a, c, d].Sublist (a :: (front ++ c :: init) ++ [d]) := two.append (List.Sublist.refl [d])
      exact aside a c d (three.trans (whole ▸ inside)) opens closes label

theorem LabelsAside.front {labels : List Label} (k : Nat) (before : ∀ l ∈ labels.take k, l.part ≠ .statement)
    (behind : ∀ l ∈ labels.drop k, l.part ≠ .label) : LabelsAside labels := by
  intro a c b three opens _
  rw [← List.take_append_drop k labels] at three
  obtain ⟨ahead, tail, parts, inFront, inRest⟩ := List.sublist_append_iff.mp three
  cases ahead with
  | nil =>
    subst parts
    exact behind c (inRest.subset (by simp))
  | cons d ahead =>
    obtain ⟨rfl, -⟩ := List.cons.inj parts
    exact absurd opens (before a (inFront.subset List.mem_cons_self))

theorem otherPart {n : Node} : other n = true ↔ n.part ≠ .statement := bne_iff_ne

theorem notOther {n : Node} (none : other n = false) : n.part = .statement := by
  by_contra unequal
  rw [otherPart.mpr unequal] at none
  cases none

theorem restParts (children : List Node) : children.dropWhile other = stretch children ++ behind children := by
  rw [stretch, behind, ← List.reverse_append, List.takeWhile_append_dropWhile, List.reverse_reverse]

theorem childrenParts (children : List Node) : children = ahead children ++ (stretch children ++ behind children) := by
  rw [← restParts, ahead, List.takeWhile_append_dropWhile]

theorem aheadPart {children : List Node} : ∀ c ∈ ahead children, c.part ≠ .statement :=
  fun _ mem => otherPart.mp (List.mem_takeWhile_imp mem)

theorem behindPart {children : List Node} : ∀ c ∈ behind children, c.part ≠ .statement :=
  fun _ mem => otherPart.mp (List.mem_takeWhile_imp (List.mem_reverse.mp mem))

theorem firstLeft {ns : List Node} {n : Node} (head : (ns.dropWhile other).head? = some n) : n.part = .statement := by
  have left := List.head?_dropWhile_not other ns
  rw [head] at left
  exact notOther left

theorem stretchLast {children : List Node} {last : Node} (found : (stretch children).getLast? = some last) :
    last.part = .statement := by
  rw [stretch, List.getLast?_reverse] at found
  exact firstLeft found

theorem stretchFirst {children : List Node} {first : Node} (found : (stretch children).head? = some first) :
    first.part = .statement := by
  have head : (children.dropWhile other).head? = some first := by
    rw [restParts, List.head?_append, found, Option.some_or]
  exact firstLeft head

theorem alikeParts {ns front back : List Node} (each : List.Forall₂ Regrouped ns (front ++ back)) :
    ∃ ms ls, ns = ms ++ ls ∧ List.Forall₂ Regrouped ms front ∧ List.Forall₂ Regrouped ls back :=
  ⟨_, _, (List.take_append_drop front.length ns).symm, List.forall₂_take_append ns _ _ each,
    List.forall₂_drop_append ns _ _ each⟩

theorem Regrouped.gather {label : Label} {children others : List Node} (owner : label.kind ∈ Block.ownerKinds)
    (aside : LabelsAside (children.map Node.label)) (each : List.Forall₂ Regrouped children others) :
    Regrouped (mk label children) (mk label (Node.gather others)) := by
  unfold Node.gather
  split
  · rename_i first last head final
    obtain ⟨front, rest, rfl, eachFront, eachRest⟩ := alikeParts (childrenParts others ▸ each)
    obtain ⟨run, back, rfl, eachRun, eachBack⟩ := alikeParts eachRest
    have labels := labelsAlike eachRun
    have unlabeled : ∀ l ∈ run.map Node.label, l.part ≠ .label := by
      refine aside.within (a := first.label) (b := last.label) ?_ ?_ ?_ (stretchFirst head) (stretchLast final)
      · exact (List.sublist_append_of_sublist_right (List.sublist_append_left run back)).map Node.label
      · rw [labels, List.head?_map, head]
        rfl
      · rw [labels, List.getLast?_map, final]
        rfl
    exact .gathered owner rfl rfl (eachAlike (p := (·.part ≠ .statement)) (labelsAlike eachFront).symm aheadPart)
      (fun c mem => unlabeled c.label (List.mem_map_of_mem mem))
      (eachAlike (p := (·.part ≠ .statement)) (labelsAlike eachBack).symm behindPart) eachFront eachRun eachBack
  · exact .kept each

theorem groupedEach {children : List Node} (i : Nat) (chosen : List Nat → Bool)
    (each : ∀ c ∈ children, ∀ chosen, Regrouped c (c.grouped chosen)) :
    List.Forall₂ Regrouped children (groupedFrom chosen i children) := by
  induction children generalizing i with
  | nil => exact .nil
  | cons c rest ih =>
    exact .cons (each c List.mem_cons_self _) (ih (i + 1) fun d mem => each d (List.mem_cons_of_mem _ mem))

theorem groupedRegroups {n : Node}
    (aside : ∀ m ∈ n.preorder, m.kind ∈ Block.ownerKinds → LabelsAside (m.children.map label))
    (chosen : List Nat → Bool) : Regrouped n (n.grouped chosen) := by
  induction n using byChildren generalizing chosen with
  | step label children ih =>
    rw [preorderOf] at aside
    have each := groupedEach 0 chosen fun c mem => ih c mem fun m inside =>
      aside m (.tail _ (List.mem_flatMap.mpr ⟨c, mem, inside⟩))
    rw [grouped]
    split
    · rename_i picked
      have owner : label.kind ∈ Block.ownerKinds := List.contains_iff_mem.mp (Bool.and_eq_true_iff.mp picked).2
      exact .gather owner (aside _ (.head _) owner) each
    · exact .kept each

end Node

/-- A tree with no `statement_list` in which no block or case has a label between two statements has
the same blocks when the statements of any of its blocks and cases are put in such a list, whichever
tokens and comments beside them the lists take in. -/
theorem Tree.groupingUnseen (t : Tree) (flat : ∀ n ∈ t.root.walk, n.kind ≠ "statement_list")
    (aside : ∀ n ∈ t.root.walk, n.kind ∈ Block.ownerKinds → Node.LabelsAside (n.children.map Node.label)) :
    (∀ (chosen : List Nat → Bool) (hasError : Bool), Node.Regrouped t.root (t.root.grouped chosen) ∧
      (Tree.mk hasError (t.root.grouped chosen)).blocks = t.blocks) ∧
    ∀ other : Tree, Node.Regrouped t.root other.root → other.blocks = t.blocks := by
  have unseen : ∀ other : Tree, Node.Regrouped t.root other.root → other.blocks = t.blocks :=
    fun _ same => blocksRegrouped flat same
  refine ⟨fun chosen hasError => ?_, unseen⟩
  have regrouped := Node.groupedRegroups (t.root.walkPreorder ▸ aside) chosen
  exact ⟨regrouped, unseen ⟨hasError, _⟩ regrouped⟩

def caseTree : Tree where
  hasError := false
  root :=
    let token (kind : String) : Node := .mk { kind, named := false } []
    let comment : Node := .mk { kind := "comment" } []
    let inner : Node := .mk { kind := "block" } [token "\x7b", .mk { kind := "return_statement" } [], token "\x7d"]
    let first : Node := .mk { kind := "expression_case" }
      [token "case", .mk { kind := "expression_list", field := some "value" } [inner], token ":", comment,
        .mk { kind := "inc_statement" } [], token ";", comment, .mk { kind := "break_statement" } [], token ";"]
    let last : Node := .mk { kind := "default_case" } [token "default", token ":", comment]
    .mk { kind := "source_file" } [.mk { kind := "block" }
      [token "\x7b", comment, .mk { kind := "expression_switch_statement" } [first, last], token "\x7d"]]

theorem caseGrouped : (∀ n ∈ caseTree.root.walk, n.kind ≠ "statement_list") ∧
    (∀ n ∈ caseTree.root.walk, n.kind ∈ Block.ownerKinds → Node.LabelsAside (n.children.map Node.label)) ∧
    ((caseTree.root.grouped fun _ => true).walk.countP (·.kind == "statement_list")) = 3 ∧
    (Tree.mk false (caseTree.root.grouped fun _ => true)).blocks = caseTree.blocks ∧
    caseTree.blocks.map (fun b => (b.owner, b.statements.map Statement.kind)) =
      [("block", ["expression_switch_statement"]), ("expression_case", ["inc_statement", "break_statement"]),
        ("block", ["return_statement"]), ("default_case", [])] := by
  have flat : ∀ n ∈ caseTree.root.walk, n.kind ≠ "statement_list" := by
    rw [Node.walkPreorder]
    decide +kernel
  have aside : ∀ n ∈ caseTree.root.walk, n.kind ∈ Block.ownerKinds → Node.LabelsAside (n.children.map Node.label) := by
    have parts : ∀ n ∈ caseTree.root.preorder, n.kind ∈ Block.ownerKinds →
        ∃ k ∈ [1, 3], (∀ l ∈ (n.children.map Node.label).take k, l.part ≠ .statement) ∧
          ∀ l ∈ (n.children.map Node.label).drop k, l.part ≠ .label := by
      decide +kernel
    rw [Node.walkPreorder]
    intro n mem owner
    obtain ⟨k, -, before, behind⟩ := parts n mem owner
    exact .front k before behind
  obtain ⟨chosen, -⟩ := Tree.groupingUnseen caseTree flat aside
  refine ⟨flat, aside, ?_, (chosen (fun _ => true) false).2, ?_⟩
  · rw [Node.walkPreorder]
    decide +kernel
  · rw [Tree.blocks, Node.walkPreorder]
    decide +kernel

end ExitSpacing
