import GoTreeSitter.Query.Pattern
import Mathlib.Data.List.Chain

/-
  The smallest node around a byte range.

  Main declarations:
    * `SyntaxTree.descendantForByteRange`
    * `SyntaxTree.descendantForByteRangeContained`
    * `SyntaxTree.contained_getD`
    * `SyntaxTree.descendant_walks_agree`

  One walk goes down into the first child that reaches over the range, the other into every child
  that contains it. In a tree of disjoint children only one child can contain a range that is not
  empty, so that both take the same path.
-/

-- The Walks

namespace GoTreeSitter.Queries.SyntaxTree

open List

variable {N : Type} (tree : SyntaxTree N)

def containsByteRange (startByte endByte : UInt32) (node : N) : Bool :=
  startByte ≥ tree.startByte node && endByte ≤ tree.endByte node

/- The node counts for the answer. -/
def isRelevant (namedOnly : Bool) (node : N) : Bool := !namedOnly || tree.isNamed node

/- The child the first walk goes into. -/
def enterChild (startByte endByte : UInt32) : List N → Option N
  | [] => none
  | child :: rest =>
    let childStart := tree.startByte child
    let childEnd := tree.endByte child
    if childEnd < endByte then enterChild startByte endByte rest
    else if (if childStart = childEnd then childEnd < startByte else childEnd ≤ startByte) then
      enterChild startByte endByte rest
    else if childStart > startByte then none
    else some child

def descend (startByte endByte : UInt32) (namedOnly : Bool) : Nat → N → N → N
  | 0, _, lastRelevant => lastRelevant
  | fuel + 1, node, lastRelevant =>
    match tree.enterChild startByte endByte (tree.children node) with
    | none => lastRelevant
    | some child =>
      descend startByte endByte namedOnly fuel child
        (if tree.isRelevant namedOnly child then child else lastRelevant)

/- The walk ends after at most as many turns as the rank of the node. -/
def descendantForByteRange (node : N) (startByte endByte : UInt32) (namedOnly : Bool) : Option N :=
  if endByte < startByte then none
  else some (tree.descend startByte endByte namedOnly (tree.rank node + 1) node node)

/- The recursion of the second walk, over every child that contains the range. -/
def contained (startByte endByte : UInt32) (namedOnly : Bool) : Nat → N → Option N
  | 0, _ => none
  | fuel + 1, node =>
    if endByte < startByte ∨ tree.containsByteRange startByte endByte node = false then none
    else
      (tree.children node).foldl (fun deepest child =>
          if tree.containsByteRange startByte endByte child then
            (contained startByte endByte namedOnly fuel child).or deepest
          else deepest)
        (if tree.isRelevant namedOnly node then some node else none)

def descendantForByteRangeContained (node : N) (startByte endByte : UInt32) (namedOnly : Bool) :
    Option N :=
  tree.contained startByte endByte namedOnly (tree.rank node + 1) node

-- Nested Spans

/- Children are ordered, disjoint and inside their parent. -/
structure Nested : Prop where
  ordered : ∀ node : N, (tree.children node).Pairwise (fun a b => tree.endByte a ≤ tree.startByte b)
  inside : ∀ node : N, ∀ child ∈ tree.children node, tree.startByte node ≤ tree.startByte child ∧
    tree.startByte child ≤ tree.endByte child ∧ tree.endByte child ≤ tree.endByte node

/- A child that contains the range. -/
def Toward (startByte endByte : UInt32) (node child : N) : Prop :=
  child ∈ tree.children node ∧ tree.containsByteRange startByte endByte child = true

variable {tree} {startByte endByte : UInt32} {node : N}

lemma containsByteRange_iff :
    tree.containsByteRange startByte endByte node ↔
      tree.startByte node ≤ startByte ∧ endByte ≤ tree.endByte node := by simp [containsByteRange]

lemma not_contains_of_after {a b : N} (hRange : startByte < endByte)
    (hReach : endByte ≤ tree.endByte a) (hAfter : tree.endByte a ≤ tree.startByte b) :
    tree.containsByteRange startByte endByte b = false := by
  rw [← Bool.not_eq_true, containsByteRange_iff]
  simp only [UInt32.le_iff_toNat_le, UInt32.lt_iff_toNat_lt] at *
  omega

/- The first walk goes into the only child that contains the range. -/
lemma enterChild_eq_find (hRange : startByte < endByte) {children : List N}
    (hOrdered : children.Pairwise (fun a b => tree.endByte a ≤ tree.startByte b)) :
    tree.enterChild startByte endByte children =
      children.find? (tree.containsByteRange startByte endByte) := by
  induction children with
  | nil => rfl
  | cons child rest ih =>
    rcases pairwise_cons.mp hOrdered with ⟨hAfter, hRest⟩
    rw [enterChild, find?_cons]
    by_cases hShort : tree.endByte child < endByte
    · have hNot : tree.containsByteRange startByte endByte child = false := by
        rw [← Bool.not_eq_true, containsByteRange_iff, not_and, UInt32.not_le]
        exact fun _ => hShort
      rw [if_pos hShort, hNot]
      exact ih hRest
    have hReach : endByte ≤ tree.endByte child := UInt32.not_lt.mp hShort
    have hPast : startByte < tree.endByte child := UInt32.lt_of_lt_of_le hRange hReach
    have hStay : ¬
        (if tree.startByte child = tree.endByte child then tree.endByte child < startByte
        else tree.endByte child ≤ startByte) := by
      split
      · exact UInt32.lt_asymm hPast
      · exact UInt32.not_le.mpr hPast
    rw [if_neg hShort, if_neg hStay]
    by_cases hLate : tree.startByte child > startByte
    · have hNot : tree.containsByteRange startByte endByte child = false := by
        rw [← Bool.not_eq_true, containsByteRange_iff, not_and_or, UInt32.not_le]
        exact Or.inl hLate
      rw [if_pos hLate, hNot]
      refine (find?_eq_none.mpr ?_).symm
      intro other hOther
      rw [not_contains_of_after hRange hReach (hAfter other hOther)]
      exact Bool.false_ne_true
    · rw [if_neg hLate, containsByteRange_iff.mpr ⟨UInt32.not_lt.mp hLate, hReach⟩]

/- The second walk takes its answer from the same child. -/
lemma foldl_contained
    (hRange : startByte < endByte)
    (answer : N → Option N)
    {children : List N}
    (hOrdered : children.Pairwise (fun a b => tree.endByte a ≤ tree.startByte b))
    (deepest : Option N) :
    children.foldl
      (fun deepest child =>
        if tree.containsByteRange startByte endByte child then (answer child).or deepest
        else deepest) deepest =
      ((children.find? (tree.containsByteRange startByte endByte)).bind answer).or deepest := by
  induction children with
  | nil => rfl
  | cons child rest ih =>
    rcases pairwise_cons.mp hOrdered with ⟨hAfter, hRest⟩
    rw [foldl_cons, find?_cons]
    cases hChild : tree.containsByteRange startByte endByte child with
    | false => exact ih hRest
    | true =>
      have hReach := (containsByteRange_iff.mp hChild).2
      have hNone : ∀ other ∈ rest, tree.containsByteRange startByte endByte other = false :=
        fun other hOther => not_contains_of_after hRange hReach (hAfter other hOther)
      rw [if_pos rfl, Option.bind_some]
      generalize (answer child).or deepest = found
      clear ih hRest hOrdered hAfter
      induction rest with
      | nil => rfl
      | cons other rest ih =>
        rw [foldl_cons, hNone other mem_cons_self]
        exact ih fun next hNext => hNone next (mem_cons_of_mem _ hNext)

-- Agreement

section

variable (hTree : tree.Nested) (hRange : startByte < endByte)
include hTree hRange

/-
  The second walk finds what the first one finds, which starts with the node itself if it counts.
-/
lemma contained_getD (namedOnly : Bool) (fuel : Nat) (hFuel : tree.rank node < fuel)
    (hIn : tree.containsByteRange startByte endByte node) (lastRelevant : N) :
    (tree.contained startByte endByte namedOnly fuel node).getD lastRelevant =
      tree.descend startByte endByte namedOnly fuel node
        (if tree.isRelevant namedOnly node then node else lastRelevant) := by
  induction fuel generalizing node lastRelevant with
  | zero => exact absurd hFuel (Nat.not_lt_zero _)
  | succ fuel ih =>
    have hGuard : ¬
        (endByte < startByte ∨ tree.containsByteRange startByte endByte node = false) := by
      rw [hIn, not_or]
      exact ⟨UInt32.lt_asymm hRange, nofun⟩
    rw [contained, if_neg hGuard, foldl_contained hRange _ (hTree.ordered node), descend,
      enterChild_eq_find hRange (hTree.ordered node)]
    cases hFind : (tree.children node).find? (tree.containsByteRange startByte endByte) with
    | none =>
      rw [Option.bind_none, Option.none_or]
      split <;> rfl
    | some child =>
      have hRank := tree.rank_lt (mem_of_find?_eq_some hFind)
      have hChild := ih (by omega) (find?_some hFind)
      rw [Option.bind_some]
      dsimp only
      rw [← hChild]
      cases tree.contained startByte endByte namedOnly fuel child with
      | some found => rfl
      | none => split <;> rfl

lemma contained_isSome {namedOnly : Bool} (hNode : tree.isRelevant namedOnly node) (fuel : Nat)
    (hIn : tree.containsByteRange startByte endByte node) :
    (tree.contained startByte endByte namedOnly (fuel + 1) node).isSome := by
  have hGuard : ¬
      (endByte < startByte ∨ tree.containsByteRange startByte endByte node = false) := by
    rw [hIn, not_or]
    exact ⟨UInt32.lt_asymm hRange, nofun⟩
  rw [contained, if_neg hGuard, foldl_contained hRange _ (hTree.ordered node), hNode, if_pos rfl,
    Option.isSome_or]
  exact Bool.or_true _

omit hTree hRange in
lemma getLast_filter_cons (p : N → Bool) (child best : N) (path : List N) :
    ((child :: path).filter p).getLast?.getD best =
      (path.filter p).getLast?.getD (if p child then child else best) := by
  cases hChild : p child with
  | false => rw [filter_cons_of_neg (by simp [hChild]), if_neg Bool.false_ne_true]
  | true => rw [filter_cons_of_pos hChild, getLast?_cons, Option.getD_some, if_pos rfl]

/-
  The path of the walk ends where no child contains the
  range, and the answer is the last node on it that counts.
-/
lemma descend_path
    (node : N)
    (fuel : Nat)
    (hFuel : tree.rank node < fuel) :
    ∃ path,
      (node :: path).IsChain (tree.Toward startByte endByte) ∧
        (∀ x ∈ path, tree.containsByteRange startByte endByte x) ∧
        (∀ child, ¬ tree.Toward startByte endByte (path.getLast?.getD node) child) ∧
        ∀ namedOnly best,
          tree.descend startByte endByte namedOnly fuel node best =
            (path.filter (tree.isRelevant namedOnly)).getLast?.getD best := by
  induction fuel generalizing node with
  | zero => exact absurd hFuel (Nat.not_lt_zero _)
  | succ fuel ih =>
    -- The loop over the children is a search for the one that contains the range.
    simp only [descend, enterChild_eq_find hRange (hTree.ordered node)]
    cases hFind : (tree.children node).find? (tree.containsByteRange startByte endByte) with
    | none =>
      refine ⟨[], isChain_singleton node, by simp, ?_, fun _ _ => rfl⟩
      exact fun child hChild => find?_eq_none.mp hFind child hChild.1 hChild.2
    | some child =>
      have hMem := mem_of_find?_eq_some hFind
      have hRank := tree.rank_lt hMem
      have hIn := find?_some hFind
      obtain ⟨path, hChain, hPath, hEnd, hDescend⟩ := ih child (by omega)
      refine ⟨child :: path, ?_, forall_mem_cons.mpr ⟨hIn, hPath⟩, ?_, ?_⟩
      · exact isChain_cons_cons.mpr ⟨⟨hMem, hIn⟩, hChain⟩
      · rw [getLast?_cons, Option.getD_some]
        exact hEnd
      intro namedOnly best
      dsimp only
      rw [hDescend, getLast_filter_cons]

/-
  Both walks go down one path to the last node that contains the range. They find that node, and the
  last named node of the path if they start at a named node.
-/
theorem descendant_walks_agree
    (hIn : tree.containsByteRange startByte endByte node = true) :
    ∃ (path : List N) (found : N),
      (node :: path).IsChain (tree.Toward startByte endByte) ∧
        (node :: path).getLast? = some found ∧
        tree.containsByteRange startByte endByte found = true ∧
        (∀ child ∈ tree.children found,
          tree.containsByteRange startByte endByte child = false) ∧
        tree.descendantForByteRange node startByte endByte false = some found ∧
        tree.descendantForByteRangeContained node startByte endByte false = some found ∧
        (tree.isNamed node = true →
          ∃ named : N,
            ((node :: path).filter tree.isNamed).getLast? = some named ∧
              tree.descendantForByteRange node startByte endByte true = some named ∧
              tree.descendantForByteRangeContained node startByte endByte true = some named) := by
  obtain ⟨path, hChain, hPath, hEnd, hDescend⟩ :=
    descend_path hTree hRange node (tree.rank node + 1) (Nat.lt_succ_self _)
  have hForward : ∀ namedOnly : Bool,
      tree.descendantForByteRange node startByte endByte namedOnly =
        some ((path.filter (tree.isRelevant namedOnly)).getLast?.getD node) := by
    intro namedOnly
    rw [descendantForByteRange, if_neg (UInt32.lt_asymm hRange), hDescend]
  have hContained : ∀ namedOnly : Bool,
      tree.isRelevant namedOnly node = true →
        tree.descendantForByteRangeContained node startByte endByte namedOnly =
          tree.descendantForByteRange node startByte endByte namedOnly := by
    intro namedOnly hNode
    have hSome := contained_isSome hTree hRange hNode (tree.rank node) hIn
    have hSame := contained_getD hTree hRange namedOnly _ (Nat.lt_succ_self _) hIn node
    obtain ⟨found, hFound⟩ := Option.isSome_iff_exists.mp hSome
    rw [hForward, descendantForByteRangeContained, ← hDescend, hFound]
    rw [hFound, ite_self] at hSame
    exact congrArg some hSame
  have hAll : path.filter (tree.isRelevant false) = path := filter_eq_self.mpr fun _ _ => rfl
  refine ⟨path, path.getLast?.getD node, hChain, getLast?_cons, ?_, ?_, ?_, ?_, ?_⟩
  · cases hLast : path.getLast? with
    | none => exact hIn
    | some last => exact hPath last (mem_of_getLast? hLast)
  · intro child hChild
    rw [← Bool.not_eq_true]
    exact fun hContains => hEnd child ⟨hChild, hContains⟩
  · rw [hForward, hAll]
  · rw [hContained false rfl, hForward, hAll]
  intro hNamed
  have hRelevant : tree.isRelevant true = tree.isNamed := by
    funext x
    rfl
  refine ⟨(path.filter tree.isNamed).getLast?.getD node, ?_, ?_, ?_⟩
  · rw [filter_cons_of_pos hNamed, getLast?_cons]
  · rw [hForward, hRelevant]
  · rw [hContained true (by rw [hRelevant]; exact hNamed), hForward, hRelevant]

end

/- The second item of a list, from the list. -/
theorem descendant_walks_agree_item :
    listTree.descendantForByteRange 0 1 2 true =
      listTree.descendantForByteRangeContained 0 1 2 true := by
  have hTree : listTree.Nested := ⟨by decide, by decide⟩
  obtain ⟨_, _, _, _, _, _, _, _, hNamed⟩ :=
    @descendant_walks_agree _ listTree 1 2 0 hTree (by decide) (by decide)
  obtain ⟨named, _, hFirst, hSecond⟩ := hNamed rfl
  rw [hFirst, hSecond]

end GoTreeSitter.Queries.SyntaxTree
