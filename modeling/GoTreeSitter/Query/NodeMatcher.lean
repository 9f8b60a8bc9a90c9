import GoTreeSitter.Query.Matcher

/-
  The matcher of the streaming cursor.

  Key definitions include:
    * `firstCombination`
    * `matchAggregatedFinalStep`

  Patterns are matched in all ways here too, but a branch of an alternation is matched by a search
  of its own, which returns the captures of the first way it finds.
-/

-- Children

namespace GoTreeSitter.Queries

variable {N : Type} (steps : List QueryStep)
  (tryChild : Nat → List (Capture N) → Option (List (Capture N)))

/- What the first way of matching a step finds at a node. -/
abbrev FirstMatcher (N : Type) :=
  List QueryPredicate → List QueryStep → Nat → N →
    Option (N × Nat) → List (Capture N) → Option (List (Capture N))

/-
  The first choice of so many candidates that leads on. A candidate keeps the first way it matched.
-/
def firstCombination (position : Nat → Option Nat)
    (finish : Nat → NamedSpan → List (Capture N) → Option (List (Capture N))) :
    Nat → List Nat → Nat → NamedSpan → List (Capture N) → Option (List (Capture N))
  | 0, _, nextIdx, span, current => finish nextIdx span current
  | _ + 1, [], _, _, _ => none
  | remaining + 1, index :: rest, nextIdx, span, current =>
    ((tryChild index current).bind fun next =>
      firstCombination position finish remaining rest (max nextIdx (index + 1))
        (span.withNamedPosition (position index)) next).or
      (firstCombination position finish (remaining + 1) rest nextIdx span current)

/- Whether the last child step is matched for all at once. -/
def canAggregateFinalStep (predicates : List QueryPredicate) (step : QueryStep) (isLast : Bool)
    (bounds : Nat × Nat) : Bool :=
  !predicatesCanRejectMatch predicates && isLast && decide (bounds = (1, 1)) &&
    !step.anchorBefore && !step.anchorAfter

def queryStepHasNestedChildren (stepIdx : Nat) : Bool :=
  match steps[stepIdx]?, steps[stepIdx + 1]? with
  | some step, some next => decide (step.depth < next.depth)
  | _, _ => false

/- Add the captures of every candidate that matches. -/
def aggregate (standsRight : Nat → Bool) :
    List Nat → Bool → List (Capture N) → Option (List (Capture N))
  | [], found, captures =>
    if found = true then some captures else none
  | index :: rest, found, captures =>
    match tryChild index captures with
    | none => aggregate standsRight rest found captures
    | some next =>
      if standsRight index = true then
        aggregate standsRight rest true next
      else
        aggregate standsRight rest found captures

/-
  Match the last child step. A step that captures nothing and has nothing below it is not looked at
  again.
-/
def matchAggregatedFinalStep (step : QueryStep) (stepIdx : Nat)
    (tryChild : Nat → List (Capture N) → Option (List (Capture N))) (standsRight : Nat → Bool)
    (candidates : List Nat) (captures : List (Capture N)) : Option (List (Capture N)) :=
  if step.captureIDs.isEmpty = true ∧ step.alternatives.isEmpty = true ∧
      queryStepHasNestedChildren steps stepIdx = false then
    if candidates.any standsRight = true then some captures
    else none
  else aggregate tryChild standsRight candidates false captures

/- The first result of the counts, in order. -/
def firstOf {α : Type} (run : Nat → Option α) : List Nat → Option α
  | [] => none
  | count :: counts => (run count).or (firstOf run counts)

/-
  Match the child steps of a node in order, the first way found. Anchors are checked for a count of
  zero as well.
-/
def matchChildStepsRecursive (lang : QueryLanguage) (tree : SyntaxTree N)
    (predicates : List QueryPredicate) (steps : List QueryStep) (parent : N)
    (tryChild : List QueryPredicate → Nat → Nat → List (Capture N) → Option (List (Capture N))) :
    List (QueryStep × Nat) → Nat → Nat → Option Nat → List (Capture N) →
      Option (List (Capture N))
  | [], _, _, _, captures => some captures
  | (step, stepIdx) :: rest, childPos, nextChildIdx, previous, captures =>
    match collectChildCandidates lang tree parent step nextChildIdx with
    | none => none
    | some candidates =>
      let bounds := quantifierBounds step.quantifier candidates.length
      let standsRight := fun span =>
        stepAnchorsSatisfied step childPos span previous (lastNamedPosition tree parent)
      if canAggregateFinalStep predicates step rest.isEmpty bounds = true then
        matchAggregatedFinalStep steps step stepIdx (tryChild [] stepIdx) (fun index =>
            standsRight (NamedSpan.withNamedPosition none (namedPosition tree parent index)))
          candidates captures
      else
        firstOf (fun count =>
            firstCombination (tryChild predicates stepIdx) (namedPosition tree parent)
              (fun nextIdx span current =>
                if standsRight span = true then
                  matchChildStepsRecursive lang tree predicates steps parent tryChild rest (childPos
                    + 1) nextIdx (span.lastAfter previous) current
                else none)
              count candidates nextChildIdx none captures)
          (countsDown bounds.1 bounds.2)

-- Steps

variable {N : Type} [DecidableEq N] (q : Query) (lang : QueryLanguage) (tree : SyntaxTree N)

/-
  The alternatives tried at a node. An index finds them by symbol and text; without one each is
  asked for itself.
-/
def triedAlternatives (step : QueryStep) (node : N) : List Alternative :=
  step.alternatives.filter fun alt =>
    if hasAlternationIndex step = true then
      isIndexed lang tree alt node
    else alternativeMatchesNode lang tree alt node

/- The first branch of an alternation that matches. -/
def matchAlternationStep (branch : BranchMatcher N) (predicates : List QueryPredicate)
    (step : QueryStep) (node : N) (place : Option (N × Nat)) (captures : List (Capture N)) :
    Option (List (Capture N)) :=
  (triedAlternatives lang tree step node).findSome? fun alt =>
      if alternativeFieldMatches lang tree alt node place = true then
        branch predicates step alt node captures
      else none

/-
  A branch takes the first way found, whether or not that one meets the predicates of the branch.
-/
def matchAlternationBranch (first : FirstMatcher N) : BranchMatcher N :=
  fun predicates step alt node captures =>
    if alt.steps.isEmpty = true then
      matchSimpleBranch q lang tree predicates step alt node captures
    else
      (captureAlternation q lang tree predicates step node captures).bind fun next =>
          (first predicates alt.steps 0 node none next).filter
            (matchesPredicates lang tree alt.predicates)

/- The first way to match a step at a node. -/
def matchStepsWithParentPredicates : Nat → FirstMatcher N
  | 0 => fun _ _ _ _ _ _ => none
  | fuel + 1 =>
    fun predicates steps stepIdx node place captures =>
      match steps[stepIdx]? with
      | none => none
      | some step =>
        (if step.alternatives.isEmpty = true then
          if nodeMatchesStep lang tree step node = true
          then
            captureViable q lang tree predicates step.captureIDs node captures
          else none
        else
          matchAlternationStep lang tree (matchAlternationBranch q lang tree
              (matchStepsWithParentPredicates fuel))
            predicates step node place captures).bind
          fun next =>
            matchChildStepsRecursive lang tree predicates steps node
              (fun inner childStep index current =>
                match (tree.children node)[index]? with
                | none => none
                | some child =>
                  matchStepsWithParentPredicates fuel inner steps childStep
                    child (some (node, index)) current)
              (childStepsOf steps stepIdx step.depth)
              0 0 none next

/- All ways to match a step, with branches by first way. -/
def matchStepsAllWithParentPredicates : Nat → Matcher N
  | 0 => fun _ _ _ _ _ _ => []
  | fuel + 1 =>
    matchStepBody q lang tree (matchAlternationBranch q lang tree (matchStepsWithParentPredicates q
        lang tree fuel)) (matchStepsAllWithParentPredicates fuel)

def matchPatternAll (pat : Pattern) (node : N) : List (List (Capture N)) :=
  matchPatternBy lang tree (matchStepsAllWithParentPredicates q lang tree) pat node

def matchPatternPostorderAll (pat : Pattern) (node : N) (place : Option (N × Nat)) :
    List (List (Capture N)) :=
  matchPatternPostorderBy lang tree (matchStepsAllWithParentPredicates q lang tree) pat node place

end GoTreeSitter.Queries
