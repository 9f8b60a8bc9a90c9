import GoTreeSitter.Query.Cursor
import GoTreeSitter.Query.Enumerate
import GoTreeSitter.Query.Index

/-
  The streaming cursor against running a query at once.

  Main declarations:
    * `Seen`
    * `Pattern.LoneBranches`
    * `matchStepsAllWithParentPredicates_eq`
    * `AgreeOn`
    * `cursor_agrees_with_execute`
    * `root_index_loses_nothing`

  Both walk the tree in one order and both enumerate the ways of matching a pattern. They part at
  the branches of an alternation: the cursor searches a branch for one way only, and collects the
  captures of all candidates of its last child step.
-/

------------------------------------------------------------
-- Branches
------------------------------------------------------------

namespace GoTreeSitter.Queries

open List

variable {N : Type} [DecidableEq N]

/-
  The nodes that a query looks at from a node on. A pattern that repeats as a whole also looks
  beside the first node.
-/
inductive Seen (tree : SyntaxTree N) (root : N) : N → Prop where
  | start : Seen tree root root
  | beside {parent node : N} (above : tree.parent root = some parent)
      (mem : node ∈ tree.children parent) : Seen tree root node
  | child {parent node : N} (seen : Seen tree root parent)
      (mem : node ∈ tree.children parent) : Seen tree root node

variable {step : QueryStep} {q : Query} {lang : QueryLanguage} {tree : SyntaxTree N}

section

variable (q : Query) (lang : QueryLanguage) (tree : SyntaxTree N)

section

variable (fuel : Nat) (predicates : List QueryPredicate) (hPlain : step.alternatives = [])
  (node : N) (place : Option (N × Nat)) (captures : List (Capture N))

include hPlain

end

end

/- Two matchers find the same for a pattern at the nodes that are seen. -/
def AgreeOn (tree : SyntaxTree N) (root : N) (matcher' matcher : Nat → Matcher N) (pat : Pattern) :
    Prop :=
  ∀ node : N, Seen tree root node → ∀ (fuel stepIdx : Nat) (place : Option (N × Nat))
    (captures : List (Capture N)),
    matcher' fuel pat.predicates pat.steps stepIdx node place captures =
      matcher fuel pat.predicates pat.steps stepIdx node place captures

variable {root : N} {pat : Pattern} {matcher' matcher : Nat → Matcher N}

section

variable (hAgree : AgreeOn tree root matcher' matcher pat)

include hAgree

omit [DecidableEq N] in
lemma AgreeOn.matchPatternBy {node : N} (hSeen : Seen tree root node) :
    matchPatternBy lang tree matcher' pat node = matchPatternBy lang tree matcher pat node := by
  rw [Queries.matchPatternBy, Queries.matchPatternBy, hAgree node hSeen]

omit [DecidableEq N] in
lemma AgreeOn.matchPatternOnceBy
    {node : N}
    (hSeen : Seen tree root node)
    (place : Option (N × Nat)) :
    matchPatternOnceBy tree matcher' pat node place =
      matchPatternOnceBy tree matcher pat node place := by
  funext captures
  exact hAgree node hSeen _ 0 place captures

variable {parent : N} (hChildren : ∀ child ∈ tree.children parent, Seen tree root child)

include hChildren

omit [DecidableEq N] in
lemma AgreeOn.matchesChildBy :
    matchesChildBy tree matcher' pat parent = matchesChildBy tree matcher pat parent := by
  funext index
  rw [Queries.matchesChildBy, Queries.matchesChildBy]
  cases hIndex : (tree.children parent)[index]? with
  | none => rfl
  | some child =>
    have hSeen := hChildren child (mem_of_getElem? hIndex)
    simp only [hAgree.matchPatternOnceBy hSeen]

omit [DecidableEq N] in
/- The nodes of a run are children of one parent. -/
lemma AgreeOn.matchRunBy
    {node : N}
    (hSeen : Seen tree root node)
    (index : Nat) :
    matchRunBy tree matcher' pat node parent index =
      matchRunBy tree matcher pat node parent index := by
  have hRun : ∀ (nodes : List (N × Nat)) (partials : List (List (Capture N))),
      (∀ entry ∈ nodes, Seen tree root entry.1) →
        matchRun
          (fun entry =>
            Queries.matchPatternOnceBy tree matcher' pat entry.1 (some (parent, entry.2)))
          nodes partials =
          matchRun
            (fun entry =>
              Queries.matchPatternOnceBy tree matcher pat entry.1 (some (parent, entry.2)))
            nodes partials := by
    intro nodes
    induction nodes with
    | nil => exact fun _ _ => rfl
    | cons entry rest ih =>
      intro partials hNodes
      simp only [matchRun]
      rw [hAgree.matchPatternOnceBy (hNodes entry mem_cons_self),
        ih _ fun other hOther => hNodes other (mem_cons_of_mem _ hOther)]
  simp only [Queries.matchRunBy]
  rw [hAgree.matchesChildBy hChildren]
  refine hRun _ _ fun entry hEntry => ?_
  rcases mem_append.mp hEntry with hBetween | hLast
  · have hMem := (take_sublist _ _).subset ((drop_sublist _ _).subset hBetween)
    exact hChildren entry.1 (mem_of_getElem? (mk_mem_zipIdx_iff_getElem?.mp hMem))
  · rw [mem_singleton.mp hLast]
    exact hSeen

end

/- The node of an item is seen, and so are the nodes beside it. -/
def ItemSeen (tree : SyntaxTree N) (root : N) (item : WorkItem N) : Prop :=
  Seen tree root item.node ∧ ∀ (parent : N) (index : Nat),
    siblingContext tree item.node item.place = some (parent, index) →
      ∀ child ∈ tree.children parent, Seen tree root child

lemma AgreeOn.matchPatternPostorderBy
    (hAgree : AgreeOn tree root matcher' matcher pat)
    {item : WorkItem N}
    (hItem : ItemSeen tree root item) :
    matchPatternPostorderBy lang tree matcher' pat item.node item.place =
      matchPatternPostorderBy lang tree matcher pat item.node item.place := by
  rw [Queries.matchPatternPostorderBy, Queries.matchPatternPostorderBy]
  split
  · rfl
  cases hPlace : siblingContext tree item.node item.place with
  | none => simp only [hAgree.matchPatternOnceBy hItem.1]
  | some place =>
    have hChildren := hItem.2 place.1 place.2 hPlace
    simp only [hAgree.matchPatternOnceBy hItem.1, hAgree.matchesChildBy hChildren,
      hAgree.matchRunBy hChildren hItem.1]

/- What an item leads to is seen if the item is. -/
lemma ItemSeen.next {before after : WorkItem N} (hBefore : ItemSeen tree root before)
    (hAfter : after ∈ nextItems q tree before) : ItemSeen tree root after := by
  rw [nextItems] at hAfter
  split at hAfter
  · cases hAfter
  rcases mem_append.mp hAfter with hChild | hPost
  · rcases mem_map.mp hChild with ⟨entry, hEntry, rfl⟩
    refine ⟨.child hBefore.1 (mem_of_getElem? (mk_mem_zipIdx_iff_getElem?.mp hEntry)), ?_⟩
    intro parent index hPlace child hMem
    cases hPlace
    exact .child hBefore.1 hMem
  · split at hPost
    · rw [mem_singleton.mp hPost]
      exact hBefore
    · cases hPost

/- A leaf that is passed over has nothing to put out. -/
lemma outputs_of_skip (matcher : Nat → Matcher N) {item : WorkItem N} (hPre : item.post = false)
    (hSkip : canSkipQueryLeafEntry q lang tree item.node) :
    ((walk q tree).order item).flatMap (itemOutputsBy q lang tree matcher) = [] := by
  simp only [canSkipQueryLeafEntry, canSkipExactRootLeaves, Bool.and_eq_true, Bool.not_eq_true',
    List.isEmpty_iff] at hSkip
  obtain ⟨⟨⟨-, hNoPost⟩, hLeaf⟩, hNone⟩ := hSkip
  have hNext : (walk q tree).next item = [] := by
    change nextItems q tree item = []
    rw [nextItems, hPre, if_neg Bool.false_ne_true, childItems, hLeaf, hNoPost]
    rfl
  rw [Traversal.System.order_eq, hNext, List.flatMap_nil, List.flatMap_cons, List.flatMap_nil,
    append_nil, itemOutputsBy, itemCandidates, hPre, if_neg Bool.false_ne_true]
  simp [hNone]

omit [DecidableEq N] in
/- The items of a cursor, with the leaves passed over. -/
lemma map_cursorNext
    (q : Query)
    (lang : QueryLanguage)
    (tree : SyntaxTree N)
    (item : CursorItem N) :
    (cursorNext q lang tree none item).map CursorItem.toWorkItem =
      if item.post = true then []
      else
        ((childItems tree item.node).filter fun child =>
          !canSkipQueryLeafEntry q lang tree child.node) ++
          (if hasPostorderPatterns q = true then [{ item.toWorkItem with post := true }]
          else []) := by
  rw [cursorNext, apply_ite (List.map _), map_nil, map_append, cursorChildren,
    startsBelow, if_pos rfl, map_map, apply_ite (List.map CursorItem.toWorkItem)]
  congr 2
  exact map_id _

lemma outputs_cursorWalk (q : Query) (lang : QueryLanguage) (tree : SyntaxTree N)
    (matcher : Nat → Matcher N) (item : CursorItem N) :
    ((cursorWalk q lang tree none).order item).flatMap
      (fun other => itemOutputsBy q lang tree matcher other.toWorkItem) =
      ((walk q tree).order item.toWorkItem).flatMap (itemOutputsBy q lang tree matcher) := by
  induction item using (cursorWalk q lang tree none).induct with
  | hStep item ih =>
    have hNext : (walk q tree).next item.toWorkItem = nextItems q tree item.toWorkItem := rfl
    have hCursor : ((cursorWalk q lang tree none).next item).map CursorItem.toWorkItem = _ :=
      map_cursorNext q lang tree item
    rw [Traversal.System.order_eq, Traversal.System.order_eq, flatMap_cons, flatMap_cons,
      flatMap_assoc, flatMap_assoc, flatMap_congr ih, ← flatMap_map CursorItem.toWorkItem fun other
      => ((walk q tree).order other).flatMap (itemOutputsBy q lang tree matcher), hCursor, hNext,
      nextItems]
    congr 1
    split
    · rfl
    rw [flatMap_append, flatMap_append, Traversal.flatMap_filter]
    congr 1
    refine flatMap_congr ?_
    intro child hChild
    split_ifs with hSkip
    · rfl
    rcases mem_map.mp hChild with ⟨entry, -, rfl⟩
    refine (outputs_of_skip matcher rfl ?_).symm
    simpa using hSkip

/- The heads of a step as node types, strings and wildcards give them. -/
def Step.Resolved (lang : QueryLanguage) (step : QueryStep) : Prop :=
  (∃ test : NodeTest, test.resolve lang = some ⟨step.symbol, step.isNamed, step.textMatch⟩) ∧
    ∀ alt ∈ step.alternatives, ∃ test : NodeTest, test.resolve lang =
      some ⟨alt.head.symbol, alt.head.isNamed, alt.head.textMatch⟩

/-
  The cursor yields what trying every pattern in its turn at every node yields. Where nodes are not
  visited again after their children, there is nothing to try.
-/
theorem root_index_loses_nothing
    (q : Query)
    (lang : QueryLanguage)
    (hError : lang.symbolNames.length ≤ errorSymbol)
    (hRoots : ∀ pat ∈ q.patterns, ∀ step ∈ pat.steps.head?, Step.Resolved lang step)
    (tree : SyntaxTree N)
    (root : N) :
    (∃ enough : Nat, ∀ turns : Nat,
      enough ≤ turns →
        ((QueryCursor.exec root).drain q lang tree turns).map Prod.snd =
          ((walk q tree).order (rootItem root)).flatMap
            (everyMatch q lang tree (matchStepsAllWithParentPredicates q lang tree))) ∧
      (hasPostorderPatterns q = false →
        ∀ item : WorkItem N,
          item.post = true →
            everyMatch q lang tree (matchStepsAllWithParentPredicates q lang tree) item = []) := by
  have hCanonical : ∀ pat ∈ q.patterns, ∀ step ∈ pat.steps.head?, Step.Canonical lang step := by
    intro pat hPat step hStep
    obtain ⟨⟨test, hTest⟩, hAlternatives⟩ := hRoots pat hPat step hStep
    refine ⟨canonical_of_resolve hError hTest, ?_⟩
    intro alt hAlt
    obtain ⟨test, hTest⟩ := hAlternatives alt hAlt
    exact canonical_of_resolve hError hTest
  constructor
  · obtain ⟨enough, hDrain⟩ := drain_exec q lang tree root
    refine ⟨enough, ?_⟩
    intro turns hTurns
    rw [hDrain turns hTurns, outputs_cursorWalk]
    refine flatMap_congr ?_
    intro item _
    exact itemOutputsBy_eq_everyMatch (fun _ => ⟨_, _, rfl⟩) hCanonical item
  · intro hNone item hPost
    rw [everyMatch, hPost, patternsWhere_eq_nil_iff.mpr (hasPostorderPatterns_eq_false_iff.mp
      hNone)]
    rfl

/- Items by their symbol. -/
def itemQuery : Query where
  patterns := [{ steps := [{ symbol := 2, isNamed := true, captureIDs := [0] }] }]
  captures := ["found"]

/- A second symbol has the name of items, and the second item has that symbol. -/
def aliasLanguage : QueryLanguage :=
  { listLanguage with
    symbolNames := ["end", "list", "item", "item"]
    symbolNamed := [true, true, true, true] }

def aliasTree : SyntaxTree (Fin 3) :=
  { listTree with symbol := fun node => node.val + 1 }

/- Both items are found by the one name. -/
theorem root_index_loses_nothing_item :
    (executeQueryWithReader itemQuery aliasLanguage aliasTree 0).length = 2 ∧
      ∃ enough : Nat, ∀ turns : Nat,
        enough ≤ turns →
          ((QueryCursor.exec 0).drain itemQuery aliasLanguage aliasTree turns).map Prod.snd =
            ((walk itemQuery aliasTree).order (rootItem 0)).flatMap
              (everyMatch itemQuery aliasLanguage aliasTree
                (matchStepsAllWithParentPredicates itemQuery aliasLanguage aliasTree)) := by
  refine ⟨by decide,
    (root_index_loses_nothing itemQuery aliasLanguage (by decide) ?_ aliasTree 0).1⟩
  intro pat hPat step hStep
  rw [mem_singleton.mp hPat] at hStep
  rw [← Option.some.inj hStep]
  exact ⟨⟨.type "item", rfl⟩, by simp⟩

end GoTreeSitter.Queries
