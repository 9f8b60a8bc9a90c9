import GoTreeSitter.Traversal.Stack
import GoTreeSitter.Query.Matcher

/-
  Running a query over a tree.

  Main declarations:
    * `mergePatternIndexLists`
    * `rootPatternCandidates`
    * `executeQueryWithReader_eq`

  Patterns are looked up by the symbol of a node. The walk keeps a stack of nodes; a node may be put
  on it once more, below its children, for the patterns matched after them.
-/

-- Patterns by Symbol

namespace GoTreeSitter.Queries

variable (step : QueryStep) (q : Query)

/- Merge a list into another one, up to its first entry. -/
def mergeHead (a : Nat) (left : List Nat) (mergeRest : List Nat → List Nat) : List Nat → List Nat
  | [] => a :: left
  | b :: right =>
    if a < b then a :: mergeRest (b :: right)
    else if b < a then
      b :: mergeHead a left mergeRest right
    else a :: mergeRest right

/- Merge two ascending lists without repeated entries. -/
def mergePatternIndexLists : List Nat → List Nat → List Nat
  | [], right => right
  | a :: left, right => mergeHead a left (mergePatternIndexLists left) right

/- Where the root step of a pattern is filed. -/
inductive RootKey where
  | exact (symbols : List Nat)
  | wildcard
  | complex
  deriving DecidableEq

def rootKey : RootKey :=
  if step.alternatives.isEmpty = false then
    if (step.alternatives.any fun alt =>
        decide (alt.head.textMatch ≠ "") || decide (alt.head.symbol = 0)) = true then
      .complex
    else
      .exact (step.alternatives.map fun alt => alt.head.symbol)
  else if step.textMatch ≠ "" then .complex
  else if step.symbol = 0 then .wildcard
  else .exact [step.symbol]

/- Whether a child step may match several times. -/
def patternHasPostorderChildRepetition (pat : Pattern) : Bool := pat.steps.tail.any fun step =>
    decide (step.depth ≠ 0) && (decide (step.quantifier = .zeroOrMore) ||
        decide (step.quantifier = .oneOrMore))

/- The numbers of the patterns with a property, ascending. -/
def patternsWhere (filed : Pattern → QueryStep → Bool) : List Nat :=
  (q.patterns.zipIdx.filter fun entry =>
    match entry.1.steps with
    | [] => false
    | step :: _ => filed entry.1 step).map Prod.snd

def isFiledAt (symbol : Nat) : Bool :=
  match rootKey step with
  | .exact symbols => decide (symbol ∈ symbols)
  | _ => false

/- Patterns whose root is matched before the children. -/
def isPreorder (pat : Pattern) (step : QueryStep) : Bool :=
  decide (step.quantifier ≠ .zeroOrMore) && !patternHasPostorderChildRepetition pat

/- Patterns with repeated children are matched after them. -/
def isPostorder (pat : Pattern) (step : QueryStep) : Bool :=
  decide (step.quantifier ≠ .zeroOrMore) && patternHasPostorderChildRepetition pat

/- The patterns to try at every node. -/
def rootFallbackCandidates : List Nat :=
  mergePatternIndexLists (patternsWhere q fun pat step =>
      isPreorder pat step && decide (rootKey step = .wildcard))
    (patternsWhere q fun pat step =>
      decide (step.quantifier = .zeroOrMore) || (isPreorder pat step &&
          decide (rootKey step = .complex)))

/- The patterns to try at a node with a symbol. -/
def rootPatternCandidates (symbol : Nat) : List Nat :=
  mergePatternIndexLists (patternsWhere q fun pat step =>
      isPreorder pat step && isFiledAt step symbol)
    (rootFallbackCandidates q)

def rootRepetitionPostPatterns : List Nat := patternsWhere q fun _ step =>
    decide (step.quantifier = .zeroOrMore) || decide (step.quantifier = .oneOrMore)

def postFallbackCandidates : List Nat :=
  mergePatternIndexLists (patternsWhere q fun pat step =>
      isPostorder pat step && decide (rootKey step = .wildcard))
    (patternsWhere q fun pat step =>
      isPostorder pat step && decide (rootKey step = .complex))

def postorderPatternCandidates (symbol : Nat) : List Nat :=
  mergePatternIndexLists (patternsWhere q fun pat step =>
      isPostorder pat step && isFiledAt step symbol)
    (postFallbackCandidates q)

/- Whether some pattern is filed by symbol after children. -/
def hasPostorderSymbols : Bool := q.patterns.any fun pat =>
    match pat.steps with
    | [] => false
    | step :: _ =>
      isPostorder pat step && (match rootKey step with
          | .exact symbols => !symbols.isEmpty
          | _ => false)

def hasPostorderPatterns : Bool := !(rootRepetitionPostPatterns q).isEmpty ||
    !(postFallbackCandidates q).isEmpty || hasPostorderSymbols q

def isPatternDisabled (patternIndex : Nat) : Bool :=
  decide (patternIndex ∈ q.disabledPatterns)

-- Walking the Tree

variable {N : Type} [DecidableEq N]

/- A node to visit, before or after its children. -/
structure WorkItem (N : Type) where
  node : N
  place : Option (N × Nat)
  post : Bool

variable (q : Query) (lang : QueryLanguage) (tree : SyntaxTree N) (item : WorkItem N)

/- The symbol a node is looked up by. -/
def lookupSymbol (node : N) : Nat :=
  lang.publicSymbolForNamedness (tree.symbol node) (tree.isNamed node)

/- The items of the children of a node, first child first. -/
def childItems (node : N) : List (WorkItem N) :=
  (tree.children node).zipIdx.map fun entry =>
    { node := entry.1
      place := some (node, entry.2)
      post := false }

/- The items a visited item puts on the stack. -/
def nextItems : List (WorkItem N) :=
  if item.post = true then []
  else
    childItems tree item.node ++ (if hasPostorderPatterns q = true then
        [{ item with post := true }]
      else [])

def itemRank : Nat :=
  if item.post = true then 0
  else tree.rank item.node + 1

omit [DecidableEq N] in
lemma itemRank_lt {item other : WorkItem N} (hOther : other ∈ nextItems q tree item) :
    itemRank tree other < itemRank tree item := by
  rw [nextItems] at hOther
  split at hOther
  · cases hOther
  rename_i hPre
  rw [itemRank, itemRank, if_neg hPre]
  rcases List.mem_append.mp hOther with hChild | hPost
  · rcases List.mem_map.mp hChild with ⟨entry, hEntry, rfl⟩
    have hMem : entry.1 ∈ tree.children item.node :=
      List.mem_of_getElem? (List.mk_mem_zipIdx_iff_getElem?.mp hEntry)
    rw [if_neg Bool.false_ne_true]
    exact Nat.succ_lt_succ (tree.rank_lt hMem)
  split at hPost
  · rcases List.mem_singleton.mp hPost with rfl
    rw [if_pos rfl]
    omega
  · cases hPost

/- The walk of a query over a tree. -/
def walk : Traversal.System (WorkItem N) where
  next := nextItems q tree
  rank := itemRank tree
  rank_lt := itemRank_lt q tree

/- The patterns tried at an item. -/
def itemCandidates : List Nat :=
  let symbol := lookupSymbol lang tree item.node
  if item.post = true then
    mergePatternIndexLists (rootRepetitionPostPatterns q) (postorderPatternCandidates q symbol)
  else rootPatternCandidates q symbol

/- The matches of a pattern at an item, given a matcher. -/
def itemMatchesBy (matcher : Nat → Matcher N) (item : WorkItem N) (patternIndex : Nat) :
    List (QueryMatch N) :=
  if isPatternDisabled q patternIndex = true then []
  else
    match q.patterns[patternIndex]? with
    | none => []
    | some pat =>
      let found :=
        if item.post && isRootRepetition pat then
          matchPatternPostorderBy lang tree matcher pat item.node item.place
        else
          matchPatternBy lang tree matcher pat item.node
      found.map fun captures =>
        { patternIndex, captures }

/- The matches at an item, given a matcher. -/
def itemOutputsBy (matcher : Nat → Matcher N) (item : WorkItem N) : List (QueryMatch N) :=
  (itemCandidates q lang tree item).flatMap (itemMatchesBy q lang tree matcher item)

def rootItem (root : N) : WorkItem N where
  node := root
  place := none
  post := false

/- Run a query: work the stack off and collect the matches. -/
def executeQueryWithReader (root : N) : List (QueryMatch N) :=
  let steps := ((walk q tree).order (rootItem root)).length
  ((walk q tree).run steps [rootItem root]).flatMap
    (itemOutputsBy q lang tree (matchStepsAllWithReader q lang tree))

/- The matches of all items in the order of the walk. -/
lemma executeQueryWithReader_eq (root : N) :
    executeQueryWithReader q lang tree root =
      ((walk q tree).order (rootItem root)).flatMap
        (itemOutputsBy q lang tree (matchStepsAllWithReader q lang tree)) := by
  have hOrder : [rootItem root].flatMap (walk q tree).order = (walk q tree).order (rootItem root) :=
    List.flatMap_singleton _ _
  rw [executeQueryWithReader, Traversal.System.run_eq_order _ (le_of_eq (congrArg List.length
      hOrder)), hOrder]

end GoTreeSitter.Queries
