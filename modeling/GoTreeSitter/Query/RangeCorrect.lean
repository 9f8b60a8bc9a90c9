import GoTreeSitter.Query.Cursor
import Mathlib

/-
  What restricting a cursor to a range leaves out.

  Main declarations:
    * `Nested`
    * `EndsAtStart`
    * `spanIntersects_outer`
    * `ranged_cursor_filters_iff`

  A node is passed over with all below it if it does not meet the range. Of the nodes below it only
  an empty one at the start of the range meets it, where the node above is not empty and ends there.
-/

-- Spans

namespace GoTreeSitter.Queries

open List CursorLimits

section Spans

variable {α κ : Type} [DecidableEq α] [LinearOrder κ] {less : α → α → Bool} {key : α → κ}

lemma spanIntersects_iff (hLess : ∀ a b, less a b = decide (key a < key b))
    (start stop rangeStart rangeEnd : α) (isEmpty : Bool) :
    spanIntersects less start stop rangeStart rangeEnd isEmpty ↔
      key rangeStart ≤ key rangeEnd ∧ key rangeStart ≤ key stop ∧
        (isEmpty ∨ stop ≠ rangeStart) ∧ key start < key rangeEnd := by
  simp only [spanIntersects, hLess, decide_eq_true_eq]
  split_ifs with hEnd hStop
  · simp [not_le.mpr hEnd]
  · rcases hStop with hStop | ⟨hEmpty, rfl⟩
    · simp [not_le.mpr hStop]
    · simp [hEmpty]
  rw [not_or, not_lt, not_and] at hStop
  rw [decide_eq_true_eq]
  refine ⟨?_, fun h => h.2.2.2⟩
  intro hStart
  refine ⟨not_lt.mp hEnd, hStop.1, ?_, hStart⟩
  cases isEmpty with
  | false => exact .inr (hStop.2 rfl)
  | true => exact .inl rfl

/-
  A span around one that meets the range does not meet it
  exactly if it is not empty and ends at the range start.
-/
lemma spanIntersects_outer
    (hLess : ∀ a b, less a b = decide (key a < key b))
    {start stop outerStart outerStop : α}
    {rangeStart rangeEnd : α}
    {isEmpty : Bool}
    (outerEmpty : Bool)
    (hStart : key outerStart ≤ key start)
    (hStop : key stop ≤ key outerStop)
    (hInner : spanIntersects less start stop rangeStart rangeEnd isEmpty) :
    spanIntersects less outerStart outerStop rangeStart rangeEnd outerEmpty = false ↔
      outerEmpty = false ∧ outerStop = rangeStart := by
  rw [spanIntersects_iff hLess] at hInner
  obtain ⟨hRange, hAfter, -, hBefore⟩ := hInner
  rw [← Bool.not_eq_true, spanIntersects_iff hLess]
  constructor
  · intro hNot
    by_contra hOther
    refine hNot ⟨hRange, hAfter.trans hStop, ?_, hStart.trans_lt hBefore⟩
    cases outerEmpty with
    | false => exact .inr fun hEq => hOther ⟨rfl, hEq⟩
    | true => exact .inl rfl
  · rintro ⟨hEmpty, hEq⟩ ⟨-, -, hCase, -⟩
    rcases hCase with hTrue | hNe
    · simp [hEmpty] at hTrue
    · exact hNe hEq

end Spans

/- Points in the order of the text. -/
def pointKey (p : Point) : Nat ×ₗ Nat := toLex (p.row.toNat, p.column.toNat)

lemma pointLessThan_eq (a b : Point) : pointLessThan a b = decide (pointKey a < pointKey b) := by
  have hLex : pointKey a < pointKey b ↔
      a.row.toNat < b.row.toNat ∨ a.row.toNat = b.row.toNat ∧ a.column.toNat < b.column.toNat :=
      Prod.Lex.toLex_lt_toLex
  rw [pointLessThan]
  split_ifs with hRow
  · rw [ne_eq, ← UInt32.toNat_inj] at hRow
    simp [hLex, hRow, UInt32.lt_iff_toNat_lt]
  rw [not_not] at hRow
  simp [hLex, hRow, UInt32.lt_iff_toNat_lt]

-- Nodes

variable {N : Type} {tree : SyntaxTree N} {q : Query} {lang : QueryLanguage}
  {item other : CursorItem N}

/- Children lie inside their parents. -/
structure Nested (tree : SyntaxTree N) : Prop where
  startByte : ∀ {node child : N}, child ∈ tree.children node →
      tree.startByte node ≤ tree.startByte child
  endByte : ∀ {node child : N}, child ∈ tree.children node → tree.endByte child ≤ tree.endByte node
  startPoint : ∀ {node child : N}, child ∈ tree.children node →
      pointLessThan (tree.startPoint child) (tree.startPoint node) = false
  endPoint : ∀ {node child : N}, child ∈ tree.children node →
      pointLessThan (tree.endPoint node) (tree.endPoint child) = false

/- A node that is not empty and ends where a range starts. -/
def EndsAtStart (limits : CursorLimits) (tree : SyntaxTree N) (node : N) : Prop :=
  tree.startByte node ≠ tree.endByte node ∧ ((∃ last : UInt32, limits.byteRange = some (tree.endByte
      node, last)) ∨ ∃ last : Point, limits.pointRange = some (tree.endPoint node, last))

/- A node and its children. -/
def IsChild (tree : SyntaxTree N) (node child : N) : Prop := child ∈ tree.children node

/- Where a node lies that is below another one. -/
structure Inside (tree : SyntaxTree N) (outer inner : N) : Prop where
  startByte : (tree.startByte outer).toNat ≤ (tree.startByte inner).toNat
  endByte : (tree.endByte inner).toNat ≤ (tree.endByte outer).toNat
  startPoint : pointKey (tree.startPoint outer) ≤ pointKey (tree.startPoint inner)
  endPoint : pointKey (tree.endPoint inner) ≤ pointKey (tree.endPoint outer)

lemma Nested.inside_child (hNested : Nested tree) {node child : N}
    (hChild : IsChild tree node child) :
    Inside tree node child where
  startByte := UInt32.le_iff_toNat_le.mp (hNested.startByte hChild)
  endByte := UInt32.le_iff_toNat_le.mp (hNested.endByte hChild)
  startPoint := by
    have hLess := hNested.startPoint hChild
    rw [pointLessThan_eq, decide_eq_false_iff_not] at hLess
    exact not_lt.mp hLess
  endPoint := by
    have hLess := hNested.endPoint hChild
    rw [pointLessThan_eq, decide_eq_false_iff_not] at hLess
    exact not_lt.mp hLess

lemma Nested.inside (hNested : Nested tree) {outer inner : N}
    (hBelow : Relation.TransGen (IsChild tree) outer inner) :
    Inside tree outer inner := by
  induction hBelow with
  | single hChild => exact hNested.inside_child hChild
  | tail _ hChild ih =>
    have hLast := hNested.inside_child hChild
    exact {
      startByte := ih.startByte.trans hLast.startByte
      endByte := hLast.endByte.trans ih.endByte
      startPoint := ih.startPoint.trans hLast.startPoint
      endPoint := hLast.endPoint.trans ih.endPoint }

/-
  Above a node that meets the ranges, the nodes that do not meet them end where one of them starts.
-/
lemma nodeIntersectsRanges_outer {limits : CursorLimits} {outer inner : N}
    (hInside : Inside tree outer inner) (hInner : nodeIntersectsRanges limits tree (some inner)) :
    nodeIntersectsRanges limits tree (some outer) = false ↔ EndsAtStart limits tree outer := by
  rw [nodeIntersectsRanges, Bool.and_eq_true] at hInner
  rw [nodeIntersectsRanges, Bool.and_eq_false_iff, EndsAtStart, and_or_left]
  refine or_congr ?_ ?_
  · cases hRange : limits.byteRange with
    | none => simp
    | some range =>
      rw [hRange] at hInner
      have hLess : ∀ a b : UInt32, decide (a < b) = decide (a.toNat < b.toNat) := by
        intro a b
        simp only [UInt32.lt_iff_toNat_lt]
      have hOuter := spanIntersects_outer hLess (decide (tree.startByte outer = tree.endByte outer))
        hInside.startByte hInside.endByte hInner.1
      refine hOuter.trans ?_
      simp [Prod.ext_iff, eq_comm]
  · cases hRange : limits.pointRange with
    | none => simp
    | some range =>
      rw [hRange] at hInner
      have hOuter := spanIntersects_outer pointLessThan_eq (decide (tree.startByte outer =
        tree.endByte outer)) hInside.startPoint hInside.endPoint hInner.2
      refine hOuter.trans ?_
      simp [Prod.ext_iff, eq_comm]

-- Items and Nodes

lemma mem_cursorChildren_iff :
    other ∈ cursorChildren q lang tree none item ↔
      ∃ index, (tree.children item.node)[index]? = some other.node ∧
        canSkipQueryLeafEntry q lang tree other.node = false ∧
        other =
          { node := other.node
            place := some (item.node, index)
            post := false
            depth := item.depth + 1 } := by
  rw [cursorChildren, startsBelow, if_pos rfl]
  simp only [mem_map, mem_filter, childItems, Prod.exists,
    mk_mem_zipIdx_iff_getElem?, Bool.not_eq_true']
  constructor
  · rintro ⟨_, ⟨⟨child, index, hIndex, rfl⟩, hSkip⟩, rfl⟩
    exact ⟨index, hIndex, hSkip, rfl⟩
  · rintro ⟨index, hIndex, hSkip, hEq⟩
    exact ⟨_, ⟨⟨other.node, index, hIndex, rfl⟩, hSkip⟩, hEq.symm⟩

lemma node_of_cursorNext (hNext : other ∈ cursorNext q lang tree none item) :
    other.node = item.node ∨ IsChild tree item.node other.node := by
  rw [cursorNext] at hNext
  split at hNext
  · cases hNext
  rcases mem_append.mp hNext with hChild | hPost
  · rcases mem_cursorChildren_iff.mp hChild with ⟨index, hIndex, -, -⟩
    exact .inr (mem_of_getElem? hIndex)
  split at hPost
  · rcases mem_singleton.mp hPost with rfl
    exact .inl rfl
  · cases hPost

lemma not_skip_of_child {node child : N} (hChild : IsChild tree node child) :
    canSkipQueryLeafEntry q lang tree node = false := by
  have hSome : (tree.children node).isEmpty = false := by
    rw [isEmpty_eq_false_iff]
    exact ne_nil_of_mem hChild
  rw [canSkipQueryLeafEntry, hSome, Bool.and_false, Bool.false_and]

variable [DecidableEq N]

/- What is found at a node, before or after its children. -/
def matchesAt (q : Query) (lang : QueryLanguage) (tree : SyntaxTree N) (node : N) (post : Bool) :
    List (QueryMatch N) :=
  itemOutputsBy q lang tree (matchStepsAllWithParentPredicates q lang tree)
    { node, place := none, post }

/- Whether a pattern of the query matches at a node. -/
def HasMatchAt (q : Query) (lang : QueryLanguage) (tree : SyntaxTree N) (node : N) : Prop :=
  matchesAt q lang tree node false ≠ [] ∨ (hasPostorderPatterns q = true ∧
      matchesAt q lang tree node true ≠ [])

/- Without root repetitions the place does not matter. -/
lemma itemOutputsBy_eq_matchesAt (hRoots : ∀ pat ∈ q.patterns, isRootRepetition pat = false)
    (item : WorkItem N) :
    itemOutputsBy q lang tree (matchStepsAllWithParentPredicates q lang tree) item =
      matchesAt q lang tree item.node item.post := by
  refine flatMap_congr ?_
  intro patternIndex _
  rw [itemMatchesBy, itemMatchesBy]
  cases hPat : q.patterns[patternIndex]? with
  | none => rfl
  | some pat =>
    have hPlain := hRoots pat (mem_of_getElem? hPat)
    simp [hPlain]

lemma not_hasMatchAt_of_skip {node : N} (hSkip : canSkipQueryLeafEntry q lang tree node) :
    ¬HasMatchAt q lang tree node := by
  simp only [canSkipQueryLeafEntry, canSkipExactRootLeaves, Bool.and_eq_true, Bool.not_eq_true',
    List.isEmpty_iff] at hSkip
  obtain ⟨⟨⟨-, hPost⟩, -⟩, hNone⟩ := hSkip
  rintro (hPre | ⟨hHas, -⟩)
  · refine hPre ?_
    rw [matchesAt, itemOutputsBy, itemCandidates, if_neg Bool.false_ne_true]
    simp [hNone]
  · simp [hPost] at hHas

/- The node of an item below another one. -/
omit [DecidableEq N] in
lemma node_of_below (hBelow : (cursorWalk q lang tree none).Below item other) :
    other.node = item.node ∨ Relation.TransGen (IsChild tree) item.node other.node := by
  induction hBelow with
  | child hNext => exact (node_of_cursorNext hNext).imp id .single
  | step hNext _ ih =>
    rcases node_of_cursorNext hNext with hSame | hChild
    · rw [← hSame]
      exact ih
    rcases ih with hSame | hDeep
    · rw [hSame]
      exact .inr (.single hChild)
    · exact .inr (.head hChild hDeep)

/- A child that is not passed over has an item. -/
omit [DecidableEq N] in
lemma exists_next_of_child {child : N} (hPre : item.post = false)
    (hChild : IsChild tree item.node child)
    (hSkip : canSkipQueryLeafEntry q lang tree child = false) :
    ∃ other ∈ (cursorWalk q lang tree none).next item, other.node = child ∧ other.post = false := by
  obtain ⟨index, hIndex⟩ := mem_iff_getElem?.mp hChild
  let other : CursorItem N :=
    { node := child
      place := some (item.node, index)
      post := false
      depth := item.depth + 1 }
  have hMem : other ∈ cursorChildren q lang tree none item :=
    mem_cursorChildren_iff.mpr ⟨index, hIndex, hSkip, rfl⟩
  refine ⟨other, ?_, rfl, rfl⟩
  have hNext : (cursorWalk q lang tree none).next item = cursorNext q lang tree none item := rfl
  rw [hNext, cursorNext, hPre, if_neg Bool.false_ne_true]
  exact mem_append_left _ hMem

/- A node below another one has an item below its item. -/
omit [DecidableEq N] in
lemma exists_below {outer inner : N} (hBelow : Relation.TransGen (IsChild tree) outer inner)
    (hSkip : canSkipQueryLeafEntry q lang tree inner = false) (hNode : item.node = outer)
    (hPre : item.post = false) :
    ∃ other,
      (cursorWalk q lang tree none).Below item other ∧ other.node = inner ∧ other.post = false := by
  induction hBelow using Relation.TransGen.head_induction_on generalizing item with
  | single hChild =>
    rcases exists_next_of_child hPre (hNode ▸ hChild) hSkip with ⟨other, hNext, hOther, hPost⟩
    exact ⟨other, .child hNext, hOther, hPost⟩
  | head hChild hRest ih =>
    rcases Relation.TransGen.head'_iff.mp hRest with ⟨_, hFirst, -⟩
    rcases exists_next_of_child hPre (hNode ▸ hChild) (not_skip_of_child hFirst) with
      ⟨middle, hNext, hMiddle, hPost⟩
    rcases ih hMiddle hPost with ⟨other, hDeep, hOther, hLast⟩
    exact ⟨other, .step hNext hDeep, hOther, hLast⟩

-- Ranges as Filters

variable {N : Type} [DecidableEq N] {tree : SyntaxTree N}

/-
  No match is rooted at a node in range below one that is not empty and ends where the range starts.
-/
def BoundaryClear (q : Query) (lang : QueryLanguage) (tree : SyntaxTree N) (root : N)
    (limits : CursorLimits) : Prop :=
  ∀ outer inner : N, Relation.ReflTransGen (IsChild tree) root outer → Relation.TransGen (IsChild
      tree) outer inner → EndsAtStart limits tree outer → nodeIntersectsRanges limits tree (some
      inner) = true → ¬HasMatchAt q lang tree inner

lemma maxStartDepth_of_calls (calls : List RangeCall) (limits : CursorLimits) :
    (calls.foldl RangeCall.apply limits).maxStartDepth = limits.maxStartDepth := by
  induction calls generalizing limits with
  | nil => rfl
  | cons call calls ih =>
    rw [foldl_cons, ih]
    cases call with
    | bytes startByte endByte =>
      change (setByteRangeExact _ _ _).maxStartDepth = _
      rw [setByteRangeExact, apply_ite maxStartDepth, ite_self]
    | points startPoint endPoint =>
      change (setPointRangeExact _ _ _).maxStartDepth = _
      rw [setPointRangeExact, apply_ite maxStartDepth, ite_self]

lemma filter_itemSeen
    (q : Query)
    (lang : QueryLanguage)
    (tree : SyntaxTree N)
    (limits : CursorLimits)
    (items : List (CursorItem N)) :
    (((items.flatMap (itemSeen q lang tree)).filter fun entry =>
      nodeIntersectsRanges limits tree entry.1).map Prod.snd) =
      (items.filter (inRange limits tree)).flatMap fun item =>
        itemOutputsBy q lang tree (matchStepsAllWithParentPredicates q lang tree)
          item.toWorkItem := by
  rw [filter_flatMap, map_flatMap, Traversal.flatMap_filter]
  refine flatMap_congr ?_
  intro item _
  have hSame : (fun entry : Option N × QueryMatch N => nodeIntersectsRanges limits tree entry.1)
      ∘ (fun found => (some item.node, found)) =
      fun _ => inRange limits tree item := rfl
  rw [itemSeen, filter_map, map_map, hSame]
  cases inRange limits tree item with
  | false => simp
  | true => simp [Function.comp_def]

/- A node of the tree has an item if it has children. -/
omit [DecidableEq N] in
lemma exists_from_root
    {root outer inner : N}
    (hOuter : Relation.ReflTransGen (IsChild tree) root outer)
    (hInner : Relation.TransGen (IsChild tree) outer inner) :
    ∃ item,
      (cursorWalk q lang tree none).From { rootItem root with depth := 0 } item ∧
        item.node = outer ∧ item.post = false := by
  let top : CursorItem N := { rootItem root with depth := 0 }
  rcases Relation.reflTransGen_iff_eq_or_transGen.mp hOuter with rfl | hBelow
  · exact ⟨top, .inl rfl, rfl, rfl⟩
  rcases Relation.TransGen.head'_iff.mp hInner with ⟨_, hFirst, -⟩
  have hTop : top.node = root := rfl
  rcases exists_below hBelow (not_skip_of_child hFirst) hTop rfl with ⟨item, hItem, hNode, hPre⟩
  exact ⟨item, .inr hItem, hNode, hPre⟩

/- An item for after the children is there for a reason. -/
omit [DecidableEq N] in
lemma hasPostorderPatterns_of_below {item other : CursorItem N}
    (hBelow : (cursorWalk q lang tree none).Below item other) (hPost : other.post) :
    hasPostorderPatterns q := by
  induction hBelow with
  | child hNext =>
    have hCases : _ ∈ cursorNext q lang tree none _ := hNext
    rw [cursorNext] at hCases
    split at hCases
    · cases hCases
    rcases mem_append.mp hCases with hChild | hLast
    · rcases mem_cursorChildren_iff.mp hChild with ⟨index, -, -, hEq⟩
      rw [hEq] at hPost
      cases hPost
    split_ifs at hLast with hHas
    · exact hHas
    · cases hLast
  | step _ _ ih => exact ih hPost

/- Nothing is lost below items out of range. -/
def NothingLost (q : Query) (lang : QueryLanguage) (tree : SyntaxTree N) (root : N)
    (limits : CursorLimits) : Prop :=
  ∀ k j : CursorItem N, (cursorWalk q lang tree none).From { rootItem root with depth := 0 } k →
      inRange limits tree k = false → (cursorWalk q lang tree none).Below k j → inRange limits tree
          j = true → itemOutputsBy q lang tree (matchStepsAllWithParentPredicates q lang tree)
          j.toWorkItem = []

section

variable (hNested : Nested tree) (hRoots : ∀ pat ∈ q.patterns, isRootRepetition pat = false)
  {root : N} {limits : CursorLimits}

include hNested hRoots

lemma boundaryClear_of_nothingLost (hNone : NothingLost q lang tree root limits) :
    BoundaryClear q lang tree root limits := by
  intro outer inner hOuter hInner hEnds hIn hHas
  have hOut := (nodeIntersectsRanges_outer (hNested.inside hInner) hIn).mpr hEnds
  have hNoSkip : canSkipQueryLeafEntry q lang tree inner = false := by
    by_contra hSkip
    rw [Bool.not_eq_false] at hSkip
    exact not_hasMatchAt_of_skip hSkip hHas
  rcases exists_from_root hOuter hInner with ⟨k, hFrom, hNode, hPre⟩
  rcases exists_below hInner hNoSkip hNode hPre with ⟨j, hBelow, hSame, hjPre⟩
  have hkOut : inRange limits tree k = false := by rw [inRange, hNode, hOut]
  have hjIn : inRange limits tree j := by rw [inRange, hSame, hIn]
  rcases hHas with hFound | ⟨hHasPost, hFound⟩
  · refine hFound ?_
    have hEmpty := hNone k j hFrom hkOut hBelow hjIn
    rw [itemOutputsBy_eq_matchesAt hRoots, hSame, hjPre] at hEmpty
    exact hEmpty
  refine hFound ?_
  have hPost : { j with post := true } ∈ (cursorWalk q lang tree none).next j := by
    have hNext : (cursorWalk q lang tree none).next j = cursorNext q lang tree none j := rfl
    rw [hNext, cursorNext, hjPre, if_neg Bool.false_ne_true, if_pos hHasPost]
    exact mem_append_right _ (mem_singleton.mpr rfl)
  have hEmpty := hNone k { j with post := true } hFrom hkOut
    ((cursorWalk q lang tree none).below_of_from (.inr hBelow) (.child hPost)) hjIn
  rw [itemOutputsBy_eq_matchesAt hRoots] at hEmpty
  rw [← hSame]
  exact hEmpty

lemma nothingLost_of_boundaryClear (hClear : BoundaryClear q lang tree root limits) :
    NothingLost q lang tree root limits := by
  intro k j hFrom hkOut hBelow hjIn
  rcases node_of_below hBelow with hSame | hInner
  · rw [inRange, hSame] at hjIn
    rw [inRange, hjIn] at hkOut
    cases hkOut
  have hOuter : Relation.ReflTransGen (IsChild tree) root k.node := by
    rcases hFrom with rfl | hDeep
    · exact .refl
    rcases node_of_below hDeep with hRoot | hDeep
    · rw [hRoot]
      exact .refl
    · exact hDeep.to_reflTransGen
  have hEnds := (nodeIntersectsRanges_outer (hNested.inside hInner) hjIn).mp hkOut
  have hNot := hClear k.node j.node hOuter hInner hEnds hjIn
  rw [itemOutputsBy_eq_matchesAt hRoots]
  by_contra hFound
  refine hNot ?_
  cases hPost : j.post with
  | false =>
    rw [hPost] at hFound
    exact .inl hFound
  | true =>
    rw [hPost] at hFound
    exact .inr ⟨hasPostorderPatterns_of_below hBelow hPost, hFound⟩

end

/- The matches a cursor restricted to ranges yields. -/
def rangedMatches (q : Query) (lang : QueryLanguage) (tree : SyntaxTree N) (root : N)
    (limits : CursorLimits) : List (QueryMatch N) :=
  if inRange limits tree { rootItem root with depth := 0 } = true then
    (((cursorWalk q lang tree none).prune (inRange limits tree)).order
        { rootItem root with depth := 0 }).flatMap
      fun item => itemOutputsBy q lang tree (matchStepsAllWithParentPredicates q lang tree)
        item.toWorkItem
  else []

lemma drain_restrict (q : Query) (lang : QueryLanguage) (tree : SyntaxTree N) (root : N)
    (calls : List RangeCall) :
    ∃ enough, ∀ turns,
      enough ≤ turns →
        (((QueryCursor.exec root).restrict calls).drain q lang tree turns).map Prod.snd =
          rangedMatches q lang tree root ((QueryCursor.exec root).restrict calls).limits := by
  let limits : CursorLimits := calls.foldl RangeCall.apply {}
  have hDepth : limits.maxStartDepth = none := maxStartDepth_of_calls calls {}
  obtain ⟨enough, hYields⟩ := QueryCursor.yields_exec q lang tree root limits
  refine ⟨enough, ?_⟩
  intro turns hTurns
  have hDrain : ((QueryCursor.exec root).restrict calls).drain q lang tree turns = _ := hYields
      turns turns hTurns hTurns
  rw [hDrain, limitedWalk, hDepth, apply_ite (List.map _), map_snd_itemSeen]
  rfl

/- The matches in range that an unrestricted cursor yields. -/
lemma drain_filter
    (q : Query)
    (lang : QueryLanguage)
    (tree : SyntaxTree N)
    (root : N)
    (limits : CursorLimits) :
    ∃ enough, ∀ turns,
      enough ≤ turns →
        ((((QueryCursor.exec root).drain q lang tree turns).filter fun entry =>
          nodeIntersectsRanges limits tree entry.1).map Prod.snd) =
          (cursorWalk q lang tree none).keptOutputs (inRange limits tree)
            (fun item =>
              itemOutputsBy q lang tree (matchStepsAllWithParentPredicates q lang tree)
                item.toWorkItem) { rootItem root with depth := 0 } := by
  obtain ⟨enough, hDrain⟩ := drain_exec_seen q lang tree root
  refine ⟨enough, ?_⟩
  intro turns hTurns
  rw [hDrain turns hTurns, filter_itemSeen]
  rfl

/- A range is a filter on the matches exactly if no match is rooted at its boundary. -/
theorem ranged_cursor_filters_iff
    (q : Query)
    (lang : QueryLanguage)
    (tree : SyntaxTree N)
    (root : N)
    (hNested : Nested tree)
    (hRoots : ∀ pat ∈ q.patterns, isRootRepetition pat = false)
    (calls : List RangeCall) :
    ∃ enough : Nat, ∀ turns : Nat,
      enough ≤ turns →
        ((((QueryCursor.exec root).restrict calls).drain q lang tree turns).map Prod.snd =
          (((QueryCursor.exec root).drain q lang tree turns).filter fun entry =>
            nodeIntersectsRanges ((QueryCursor.exec root).restrict calls).limits tree
              entry.1).map Prod.snd ↔
          BoundaryClear q lang tree root ((QueryCursor.exec root).restrict calls).limits) := by
  obtain ⟨enough, hRanged⟩ := drain_restrict q lang tree root calls
  obtain ⟨more, hFree⟩ := drain_filter q lang tree root
      ((QueryCursor.exec root).restrict calls).limits
  refine ⟨max enough more, ?_⟩
  intro turns hTurns
  rw [hRanged turns ((le_max_left _ _).trans hTurns), hFree turns ((le_max_right _ _).trans
    hTurns), rangedMatches, Traversal.System.outputs_from_iff]
  exact ⟨boundaryClear_of_nothingLost hNested hRoots, nothingLost_of_boundaryClear hNested hRoots⟩

/- Three kinds of nodes, one inside the other. -/
def boundaryLanguage : QueryLanguage where
  symbolNames := ["end", "outer", "middle", "inner"]
  symbolNamed := [true, true, true, true]
  fieldNames := [""]
  supertypeSymbols := []
  supertypeChildren := fun _ => []
  isUpper := Char.isUpper

section

local instance three_neZero : NeZero 3 := ⟨by decide⟩

/- A node up to byte 5 with an empty node at its end, inside a node up to byte 6. -/
def boundaryTree : SyntaxTree (Fin 3) where
  symbol := fun node => node.val + 1
  isNamed := fun _ => true
  isMissing := fun _ => false
  type := fun _ => ""
  startByte := fun node => if node = 2 then 5 else 1
  endByte := fun node => if node = 0 then 6 else 5
  startPoint := fun node => ⟨0, if node = 2 then 5 else 1⟩
  endPoint := fun node => ⟨0, if node = 0 then 6 else 5⟩
  text := none
  parent := fun node =>
    if node = 0 then none else some (node - 1)
  children := fun node =>
    if node = 2 then [] else [node + 1]
  fieldNameForChild := fun _ _ => ""
  rank := fun node => 2 - node.val
  rank_lt := by decide
  depth := fun node => node.val
  depth_lt := by decide
  mem_children := by decide

end

/- The innermost nodes. -/
def boundaryQuery : Query where
  patterns := [
    { steps := [
        { symbol := 3, isNamed := true,
          captureIDs := [0] }] }]
  captures := ["inner"]

/- A range that starts elsewhere is a filter here. -/
theorem ranged_cursor_filters_iff_boundary :
    Nested boundaryTree ∧
      ∃ enough : Nat, ∀ turns : Nat,
        enough ≤ turns →
          ((((QueryCursor.exec 0).restrict [.bytes 4 6]).drain boundaryQuery
            boundaryLanguage boundaryTree turns).map Prod.snd =
            (((QueryCursor.exec 0).drain boundaryQuery boundaryLanguage
              boundaryTree turns).filter fun entry => nodeIntersectsRanges
              ((QueryCursor.exec (0 : Fin 3)).restrict [.bytes 4 6]).limits
              boundaryTree entry.1).map Prod.snd ↔
            BoundaryClear boundaryQuery boundaryLanguage boundaryTree 0
              ((QueryCursor.exec (0 : Fin 3)).restrict [.bytes 4 6]).limits) := by
  have hNested : Nested boundaryTree :=
    { startByte := by decide
      endByte := by decide
      startPoint := by decide
      endPoint := by decide }
  refine ⟨hNested, ranged_cursor_filters_iff boundaryQuery
    boundaryLanguage boundaryTree 0 hNested ?_ [.bytes 4 6]⟩
  intro pat hPat
  rcases mem_singleton.mp hPat with rfl
  rfl

/- The empty node at the start of a range is lost. -/
theorem ranged_cursor_loses_match :
    ∃ enough : Nat, ∀ turns : Nat,
      enough ≤ turns →
        (((QueryCursor.exec 0).restrict [.bytes 5 6]).drain boundaryQuery
          boundaryLanguage boundaryTree turns).map Prod.snd ≠
          (((QueryCursor.exec 0).drain boundaryQuery boundaryLanguage boundaryTree
            turns).filter fun entry => nodeIntersectsRanges
            ((QueryCursor.exec (0 : Fin 3)).restrict [.bytes 5 6]).limits boundaryTree
            entry.1).map Prod.snd := by
  obtain ⟨enough, hRanged⟩ := drain_restrict boundaryQuery boundaryLanguage
      boundaryTree 0 [.bytes 5 6]
  obtain ⟨more, hFree⟩ := drain_filter boundaryQuery boundaryLanguage boundaryTree
      0 ((QueryCursor.exec (0 : Fin 3)).restrict [.bytes 5 6]).limits
  refine ⟨max enough more, ?_⟩
  intro turns hTurns
  rw [hRanged turns ((le_max_left _ _).trans hTurns), hFree turns ((le_max_right _ _).trans hTurns)]
  decide

end GoTreeSitter.Queries
