import GoTreeSitter.Query.Execute
import GoTreeSitter.Query.NodeMatcher

/-
  The streaming cursor of a query.

  Main declarations:
    * `nodeIntersectsRanges`
    * `CursorLimits.setByteRange`
    * `drain_exec`
    * `candidateMatches_eq`

  A turn of the cursor takes one node from its stack, tries one pattern at the node it stands at,
  hands out one match found before or goes on to the children. No match limit is set, as the cursor
  is created.
-/

-- Ranges

namespace GoTreeSitter.Queries

open List

variable (q : Query) (lang : QueryLanguage)

section

def pointLessThan (a b : Point) : Bool :=
  if a.row ≠ b.row then decide (a.row < b.row)
  else decide (a.column < b.column)

/-
  Whether a span meets a half-open range. An empty span at the start of the range does, one that
  ends there does not.
-/
def spanIntersects {α : Type} [DecidableEq α] (less : α → α → Bool)
    (start stop rangeStart rangeEnd : α) (isEmpty : Bool) : Bool :=
  if less rangeEnd rangeStart = true then false
  else if less stop rangeStart = true ∨ (isEmpty = false ∧ stop = rangeStart) then false
  else less start rangeEnd

def byteRangeIntersects (start stop rangeStart rangeEnd : UInt32) : Bool :=
  spanIntersects (fun a b => decide (a < b)) start stop rangeStart rangeEnd (decide (start = stop))

def pointRangeIntersects (start stop rangeStart rangeEnd : Point) (isEmpty : Bool) : Bool :=
  spanIntersects pointLessThan start stop rangeStart rangeEnd isEmpty

/- What a cursor is restricted to. -/
structure CursorLimits where
  byteRange : Option (UInt32 × UInt32) := none
  pointRange : Option (Point × Point) := none
  maxStartDepth : Option Nat := none

variable (limits : CursorLimits)

namespace CursorLimits

/- A range that ends before it starts is not taken. -/
def setByteRangeExact (startByte endByte : UInt32) : CursorLimits :=
  if endByte < startByte then limits
  else { limits with byteRange := some (startByte, endByte) }

/- An end of zero stands for no end. -/
def setByteRange (startByte endByte : UInt32) : CursorLimits :=
  limits.setByteRangeExact startByte (if endByte = 0 then ~~~0 else endByte)

def pointRangeEndSentinel (endPoint : Point) : Point :=
  if endPoint = ⟨0, 0⟩ then ⟨~~~0, ~~~0⟩ else endPoint

def setPointRangeExact (startPoint endPoint : Point) : CursorLimits :=
  if pointLessThan endPoint startPoint = true then limits
  else
    { limits with pointRange := some (startPoint, endPoint) }

def setPointRange (startPoint endPoint : Point) : CursorLimits :=
  limits.setPointRangeExact startPoint (pointRangeEndSentinel endPoint)

def setMaxStartDepth (depth : Nat) : CursorLimits :=
  { limits with maxStartDepth := some depth }

end CursorLimits

/- A call that restricts a cursor to a range. -/
inductive RangeCall where
  | bytes (startByte endByte : UInt32)
  | points (startPoint endPoint : Point)

namespace RangeCall

def apply (call : RangeCall) : CursorLimits :=
  match call with
  | bytes startByte endByte => limits.setByteRange startByte endByte
  | points startPoint endPoint => limits.setPointRange startPoint endPoint

end RangeCall

variable {N : Type}

def nodeIntersectsRanges (tree : SyntaxTree N) : Option N → Bool
  | none => false
  | some node =>
    (match limits.byteRange with
      | none => true
      | some (first, last) =>
        byteRangeIntersects (tree.startByte node) (tree.endByte node) first last) &&
    (match limits.pointRange with
      | none => true
      | some (first, last) =>
        pointRangeIntersects (tree.startPoint node) (tree.endPoint node) first last
          (decide (tree.startByte node = tree.endByte node)))

-- Patterns at a Node

variable {N : Type} [DecidableEq N]

/- A pattern that is one plain step is matched at once. -/
def singleStepQueryMatch (tree : SyntaxTree N) (pat : Pattern) (patternIndex : Nat) (node : N) :
    Option (QueryMatch N) :=
  match pat.predicates, pat.steps with
  | [], [step] =>
    if step.field = 0 ∧ step.absentFields.isEmpty = true ∧ step.alternatives.isEmpty = true ∧
        step.textMatch = "" ∧ step.depth = 0 ∧
        step.quantifier = .one ∧
        step.anchorBefore = false ∧
        step.anchorAfter = false ∧
        nodeMatchesStep lang tree step node = true then
      some
        { patternIndex
          captures := appendCaptureIDs q step.captureIDs node [] }
    else none
  | _, _ => none

/- The matches of a pattern at the node of an item. -/
def candidateMatches (tree : SyntaxTree N) (item : WorkItem N) (patternIndex : Nat) :
    List (QueryMatch N) :=
  if isPatternDisabled q patternIndex = true then []
  else
    match q.patterns[patternIndex]? with
    | none => []
    | some pat =>
      match (if item.post = true then none
        else singleStepQueryMatch q lang tree pat patternIndex item.node) with
      | some found => [found]
      | none =>
        let found :=
          if item.post && isRootRepetition pat then
            matchPatternPostorderAll q lang tree pat item.node item.place
          else
            matchPatternAll q lang tree pat item.node
        found.map fun captures =>
          { patternIndex, captures }

lemma matchPatternAll_of_single {q : Query} {lang : QueryLanguage} {tree : SyntaxTree N}
    {pat : Pattern} {patternIndex : Nat} {node : N} {found : QueryMatch N}
    (hFound : singleStepQueryMatch q lang tree pat patternIndex node = some found) :
    ((matchPatternAll q lang tree pat node).map fun captures =>
      ({ patternIndex, captures } : QueryMatch N)) = [found] := by
  obtain ⟨steps, predicates⟩ := pat
  rw [singleStepQueryMatch] at hFound
  split at hFound
  · rename_i step hPredicates hSteps
    split at hFound
    · rename_i hPlain
      obtain ⟨-, -, hAlternatives, -, -, hOne, -, -, hMatch⟩ := hPlain
      cases hFound
      subst hPredicates hSteps
      simp [matchPatternAll, matchPatternBy, hOne, matchDepth, matchStepsAllWithParentPredicates,
        matchStepBody, matchStepHead, hAlternatives, hMatch, captureViable, predicatesStillViable,
        childStepsOf, matchChildSteps, finishMatches, matchesPredicates, applyDirectives]
    · cases hFound
  · cases hFound

/- The shortcut for plain steps makes no difference. -/
lemma candidateMatches_eq (tree : SyntaxTree N) (item : WorkItem N) (patternIndex : Nat) :
    candidateMatches q lang tree item patternIndex =
      itemMatchesBy q lang tree (matchStepsAllWithParentPredicates q lang tree) item
        patternIndex := by
  rw [candidateMatches, itemMatchesBy]
  split
  · rfl
  cases hPat : q.patterns[patternIndex]? with
  | none => rfl
  | some pat =>
    cases hPost : item.post with
    | true => rfl
    | false =>
      cases hSingle : singleStepQueryMatch q lang tree pat patternIndex item.node with
      | none =>
        simp only [Bool.false_eq_true, if_false, hSingle]
        rfl
      | some found =>
        simp only [Bool.false_eq_true, if_false, hSingle]
        exact (matchPatternAll_of_single hSingle).symm

end

-- The Cursor

variable {N : Type} (q : Query) (lang : QueryLanguage) (tree : SyntaxTree N)

/- A node to visit, with its depth below the first one. -/
structure CursorItem (N : Type) extends WorkItem N where
  depth : Nat

variable (maxStartDepth : Option Nat) (item : CursorItem N)

/- A cursor. The stack has the next node first, and only the candidates not yet tried are kept. -/
structure QueryCursor (N : Type) where
  worklist : List (CursorItem N)
  current : Option (CursorItem N) := none
  currentCandidates : List Nat := []
  pendingMatches : List (QueryMatch N) := []
  limits : CursorLimits := {}

/- Leaves may be passed over if all patterns have symbols. -/
def canSkipExactRootLeaves : Bool :=
  (rootFallbackCandidates q).isEmpty && !hasPostorderPatterns q

def canSkipQueryLeafEntry (node : N) : Bool :=
  canSkipExactRootLeaves q && (tree.children node).isEmpty &&
    (rootPatternCandidates q (lookupSymbol lang tree node)).isEmpty

/- Whether matches may start below a depth. -/
def startsBelow (depth : Nat) : Bool :=
  match maxStartDepth with
  | none => true
  | some most => decide (depth < most)

/- The children of an item, first child first. -/
def cursorChildren : List (CursorItem N) :=
  if startsBelow maxStartDepth item.depth = true then
    ((childItems tree item.node).filter fun child =>
      !canSkipQueryLeafEntry q lang tree child.node).map
        fun child => { child with depth := item.depth + 1 }
  else []

/- What a visited item leads to, were there no range. -/
def cursorNext : List (CursorItem N) :=
  if item.post = true then []
  else
    cursorChildren q lang tree maxStartDepth item ++ (if hasPostorderPatterns q = true then
        [{ item with post := true }]
      else [])

/- Put a node once more and its children on the stack. -/
def pushCurrentNodeChildren (limits : CursorLimits) (item : CursorItem N)
    (worklist : List (CursorItem N)) : List (CursorItem N) :=
  if item.post = true then worklist
  else
    (cursorChildren q lang tree limits.maxStartDepth item).filter (fun child =>
        nodeIntersectsRanges limits tree (some child.node)) ++
      ((if hasPostorderPatterns q = true then
        [{ item with post := true }]
      else []) ++ worklist)

namespace QueryCursor

/- A cursor over the matches from a node on. -/
def exec (root : N) : QueryCursor N where
  worklist := [{ rootItem root with depth := 0 }]

/- The cursor with its limits changed by calls. -/
def restrict (c : QueryCursor N) (calls : List RangeCall) : QueryCursor N :=
  { c with limits := calls.foldl RangeCall.apply c.limits }

/- Whether an item taken from the stack is visited. -/
def admits (limits : CursorLimits) (item : CursorItem N) : Bool :=
  nodeIntersectsRanges limits tree (some item.node) && (item.post ||
      match limits.maxStartDepth with
      | none => true
      | some most => decide (item.depth ≤ most))

variable [DecidableEq N]

/- One turn of the loop in `nextMatchRaw`. -/
def turn (c : QueryCursor N) : Turns.Outcome (QueryCursor N) (QueryMatch N) :=
  match c.pendingMatches with
  | found :: rest => .put found { c with pendingMatches := rest }
  | [] =>
    match c.current with
    | none =>
      match c.worklist with
      | [] => .done
      | item :: rest =>
        if admits tree c.limits item = true then
          .quiet { c with
            worklist := rest
            current := some item
            currentCandidates := itemCandidates q lang tree
                item.toWorkItem }
        else .quiet { c with worklist := rest }
    | some item =>
      match c.currentCandidates with
      | [] =>
        .quiet { c with
          worklist := pushCurrentNodeChildren q lang tree
              c.limits item c.worklist
          current := none }
      | patternIndex :: rest =>
        match candidateMatches q lang tree item.toWorkItem patternIndex with
        | [] => .quiet { c with currentCandidates := rest }
        | found :: more =>
          .put found { c with
            currentCandidates := rest
            pendingMatches := more }

/- A match with the node the cursor stands at. -/
def seen (found : QueryMatch N) (c : QueryCursor N) : Option N × QueryMatch N :=
  (c.current.map fun item => item.node, found)

/- The matches drained with so many turns for each. -/
def drain (q : Query) (lang : QueryLanguage) (tree : SyntaxTree N) (turns : Nat)
    (c : QueryCursor N) : List (Option N × QueryMatch N) :=
  Turns.drain (turn q lang tree) seen turns turns c

end QueryCursor

-- Draining the Cursor

variable {N : Type} [DecidableEq N] (tree : SyntaxTree N)

omit [DecidableEq N] in
lemma cursorItemRank_lt (maxStartDepth : Option Nat) {item other : CursorItem N}
    (hOther : other ∈ cursorNext q lang tree maxStartDepth item) :
    itemRank tree other.toWorkItem < itemRank tree item.toWorkItem := by
  refine itemRank_lt q tree ?_
  rw [cursorNext] at hOther
  rw [nextItems]
  split at hOther
  · cases hOther
  rename_i hPre
  rw [if_neg hPre]
  rcases mem_append.mp hOther with hChild | hPost
  · refine mem_append_left _ ?_
    rw [cursorChildren] at hChild
    split at hChild
    · rcases mem_map.mp hChild with ⟨child, hMem, rfl⟩
      exact (mem_filter.mp hMem).1
    · cases hChild
  refine mem_append_right _ ?_
  split_ifs at hPost with hHas
  · rcases mem_singleton.mp hPost with rfl
    rw [if_pos hHas]
    exact mem_singleton.mpr rfl
  · cases hPost

/- The walk of a cursor without a range. -/
def cursorWalk (maxStartDepth : Option Nat) : Traversal.System (CursorItem N) where
  next := cursorNext q lang tree maxStartDepth
  rank := fun item => itemRank tree item.toWorkItem
  rank_lt := cursorItemRank_lt q lang tree maxStartDepth

/- The items a range does not leave out. -/
def inRange (limits : CursorLimits) (tree : SyntaxTree N) (item : CursorItem N) : Bool :=
  nodeIntersectsRanges limits tree (some item.node)

/- The walk of a cursor. -/
def limitedWalk (limits : CursorLimits) : Traversal.System (CursorItem N) :=
  (cursorWalk q lang tree limits.maxStartDepth).prune (inRange limits tree)

/- The matches at an item, each with its node. -/
def itemSeen (item : CursorItem N) : List (Option N × QueryMatch N) :=
  (itemOutputsBy q lang tree (matchStepsAllWithParentPredicates q lang tree)
    item.toWorkItem).map fun found => (some item.node, found)

/- What is pushed for an item in range is in range. -/
omit [DecidableEq N] in
lemma pushCurrentNodeChildren_eq (limits : CursorLimits) {item : CursorItem N}
    (hIn : inRange limits tree item) (worklist : List (CursorItem N)) :
    pushCurrentNodeChildren q lang tree limits item worklist =
      (limitedWalk q lang tree limits).next item ++ worklist := by
  have hNext : (limitedWalk q lang tree limits).next item =
      (cursorNext q lang tree limits.maxStartDepth item).filter (inRange limits tree) := rfl
  rw [hNext, pushCurrentNodeChildren, cursorNext]
  split
  · rfl
  rw [filter_append, append_assoc]
  congr 1
  split
  · have hPost : inRange limits tree { item with post := true } := hIn
    rw [filter_cons, if_pos hPost, filter_nil]
  · rfl

/- Items that an admitted item leads to are admitted. -/
omit [DecidableEq N] in
lemma admits_of_next {q : Query} {lang : QueryLanguage} {tree : SyntaxTree N}
    {limits : CursorLimits} {item other : CursorItem N}
    (hNext : other ∈ (limitedWalk q lang tree limits).next item) :
    QueryCursor.admits tree limits other := by
  rcases mem_filter.mp hNext with ⟨hNext, hIn⟩
  rw [QueryCursor.admits, Bool.and_eq_true]
  refine ⟨hIn, ?_⟩
  have hCases : other ∈ cursorNext q lang tree limits.maxStartDepth item := hNext
  rw [cursorNext] at hCases
  split at hCases
  · cases hCases
  rcases mem_append.mp hCases with hChild | hPost
  · rw [cursorChildren] at hChild
    split_ifs at hChild with hBelow
    · rcases mem_map.mp hChild with ⟨child, -, rfl⟩
      cases hMax : limits.maxStartDepth with
      | none => exact Bool.or_true _
      | some most =>
        rw [hMax] at hBelow
        have hLe : item.depth + 1 ≤ most := of_decide_eq_true hBelow
        simp [hLe]
    · cases hChild
  · split at hPost
    · rcases mem_singleton.mp hPost with rfl
      rfl
    · cases hPost

namespace QueryCursor

variable {q : Query} {lang : QueryLanguage} {tree : SyntaxTree N}
  {rest : List (Option N × QueryMatch N)}

lemma yields_pending
    (c : QueryCursor N)
    (pending : List (QueryMatch N))
    (hRest : Turns.Yields (turn q lang tree) seen { c with pendingMatches := [] } rest) :
    Turns.Yields (turn q lang tree) seen { c with pendingMatches := pending }
      (pending.map (fun found => (c.current.map fun item => item.node, found)) ++ rest) := by
  induction pending with
  | nil => exact hRest
  | cons found pending ih =>
    have hTurn : turn q lang tree { c with pendingMatches := found :: pending } =
        .put found { c with pendingMatches := pending } := rfl
    have hPut := Turns.Yields.put hTurn ih
    exact hPut

variable {worklist : List (CursorItem N)}

lemma yields_candidates {limits : CursorLimits}
    {item : CursorItem N}
    (hRest : Turns.Yields (turn q lang tree) seen
      { worklist := worklist, current := some item, limits }
      rest)
    (candidates : List Nat) :
    Turns.Yields (turn q lang tree) seen
      { worklist := worklist, current := some item,
        currentCandidates := candidates, limits }
      ((candidates.flatMap (candidateMatches q lang tree item.toWorkItem)).map
          (fun found => (some item.node, found)) ++ rest) := by
  induction candidates with
  | nil => exact hRest
  | cons patternIndex candidates ih =>
    rw [flatMap_cons, map_append, append_assoc]
    cases hFound : candidateMatches q lang tree item.toWorkItem patternIndex with
    | nil =>
      refine .quiet ?_ ih
      rw [turn]
      simp [hFound]
    | cons found more =>
      have hMore := yields_pending
        { worklist := worklist, current := some item,
          currentCandidates := candidates, limits }
        more ih
      refine .put ?_ hMore
      rw [turn]
      simp [hFound]

lemma yields_item
    {limits : CursorLimits}
    (item : CursorItem N)
    (hAdmits : admits tree limits item)
    (hRest : Turns.Yields (turn q lang tree) seen { worklist := worklist, limits } rest) :
    Turns.Yields (turn q lang tree) seen { worklist := item :: worklist, limits }
      (((limitedWalk q lang tree limits).order item).flatMap (itemSeen q lang tree) ++ rest) := by
  induction item using (limitedWalk q lang tree limits).induct generalizing worklist rest with
  | hStep item ih =>
    have hIn : inRange limits tree item := by
      rw [admits, Bool.and_eq_true] at hAdmits
      exact hAdmits.1
    have hBelow : ∀ items : List (CursorItem N),
        (∀ other ∈ items, other ∈ (limitedWalk q lang tree limits).next item) →
          Turns.Yields (turn q lang tree) seen { worklist := items ++ worklist, limits }
            ((items.flatMap (limitedWalk q lang tree limits).order).flatMap
              (itemSeen q lang tree) ++
              rest) := by
      intro items hItems
      induction items with
      | nil => exact hRest
      | cons other items ihItems =>
        rw [forall_mem_cons] at hItems
        rw [flatMap_cons, flatMap_append, append_assoc]
        exact ih other hItems.1 (admits_of_next hItems.1) (ihItems hItems.2)
    have hPushed := hBelow _ fun other hOther => hOther
    rw [← pushCurrentNodeChildren_eq q lang tree limits hIn] at hPushed
    have hHere := yields_candidates (.quiet rfl hPushed)
      (itemCandidates q lang tree item.toWorkItem)
    rw [flatMap_congr fun patternIndex _ =>
      candidateMatches_eq q lang tree item.toWorkItem patternIndex] at hHere
    rw [Traversal.System.order_eq, flatMap_cons, append_assoc]
    refine .quiet ?_ hHere
    rw [turn]
    simp [hAdmits]

lemma yields_exec
    (q : Query)
    (lang : QueryLanguage)
    (tree : SyntaxTree N)
    (root : N)
    (limits : CursorLimits) :
    Turns.Yields (turn q lang tree) seen { exec root with limits := limits }
      (if inRange limits tree { rootItem root with depth := 0 } = true then
        ((limitedWalk q lang tree limits).order { rootItem root with depth := 0 }).flatMap
          (itemSeen q lang tree)
      else []) := by
  have hDone : Turns.Yields (turn q lang tree) seen
      ({ worklist := [], limits } : QueryCursor N) [] := .done rfl
  have hAdmits : admits tree limits { rootItem root with depth := 0 } =
      inRange limits tree { rootItem root with depth := 0 } := by
    rw [admits]
    cases hMax : limits.maxStartDepth with
    | none => simp [inRange]
    | some most => simp [inRange]
  split_ifs with hIn
  · rw [← hAdmits] at hIn
    have hItem := yields_item _ hIn hDone
    rw [append_nil] at hItem
    exact hItem
  rw [← hAdmits] at hIn
  refine .quiet ?_ hDone
  rw [turn]
  simp only [exec, hIn]
  rfl

end QueryCursor

variable (q : Query) (lang : QueryLanguage) (tree : SyntaxTree N)

lemma map_snd_itemSeen (items : List (CursorItem N)) :
    (items.flatMap (itemSeen q lang tree)).map Prod.snd =
      items.flatMap fun item =>
        itemOutputsBy q lang tree (matchStepsAllWithParentPredicates q lang tree)
          item.toWorkItem := by
  rw [map_flatMap]
  refine flatMap_congr ?_
  intro item _
  rw [itemSeen, map_map]
  exact map_id _

/- What a cursor without limits yields, with the nodes. -/
lemma drain_exec_seen (root : N) :
    ∃ enough, ∀ turns,
      enough ≤ turns →
        (QueryCursor.exec root).drain q lang tree turns =
          ((cursorWalk q lang tree none).order { rootItem root with depth := 0 }).flatMap
            (itemSeen q lang tree) := by
  obtain ⟨enough, hYields⟩ := QueryCursor.yields_exec q lang tree root {}
  refine ⟨enough, ?_⟩
  intro turns hTurns
  have hWalk : (limitedWalk q lang tree {}).order { rootItem root with depth := 0 } =
      (cursorWalk q lang tree none).order { rootItem root with depth := 0 } :=
    Traversal.System.order_prune_of_all _ (fun _ => rfl) _
  have hDrain : (QueryCursor.exec root).drain q lang tree turns =
      ((limitedWalk q lang tree {}).order { rootItem root with depth := 0 }).flatMap
        (itemSeen q lang tree) := hYields turns turns hTurns hTurns
  rw [hDrain, hWalk]

/- What a cursor without limits yields. -/
lemma drain_exec
    (root : N) :
    ∃ enough, ∀ turns,
      enough ≤ turns →
        ((QueryCursor.exec root).drain q lang tree turns).map Prod.snd =
          ((cursorWalk q lang tree none).order { rootItem root with depth := 0 }).flatMap fun
            item => itemOutputsBy q lang tree (matchStepsAllWithParentPredicates q lang tree)
            item.toWorkItem := by
  obtain ⟨enough, hDrain⟩ := drain_exec_seen q lang tree root
  refine ⟨enough, ?_⟩
  intro turns hTurns
  rw [hDrain turns hTurns, map_snd_itemSeen]

end GoTreeSitter.Queries
