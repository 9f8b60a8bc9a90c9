import GoTreeSitter.Query.Execute

/-
  The patterns tried at a node, among all patterns.

  Key theorems include:
    * `patternsWhere_eq`
    * `rootPatternCandidates_eq`
    * `itemOutputsBy_eq_everyMatch`
    * `hasPostorderPatterns_eq_false_iff`

  Merging lists of pattern numbers keeps them ascending, so that the patterns tried are a part of
  all patterns, in order. A pattern whose root matches a node is filed under the symbol the node is
  looked up by.
-/

-- Merging

namespace GoTreeSitter.Queries

open List

variable (q : Query) (symbol : Nat)

/- A first number below all others comes first. -/
lemma mergeHead_of_lt {a : Nat} {left right : List Nat} (mergeRest : List Nat → List Nat)
    (hNil : mergeRest [] = left) (hRight : ∀ b ∈ right, a < b) :
    mergeHead a left mergeRest right = a :: mergeRest right := by
  cases right with
  | nil => rw [mergeHead, hNil]
  | cons b right => rw [mergeHead, if_pos (hRight b mem_cons_self)]

lemma mergePatternIndexLists_nil (left : List Nat) : mergePatternIndexLists left [] = left := by
  cases left with
  | nil => rfl
  | cons a left => rfl

lemma mergePatternIndexLists_cons_of_lt {b : Nat} {left : List Nat} (hLeft : ∀ a ∈ left, b < a)
    (right : List Nat) :
    mergePatternIndexLists left (b :: right) = b :: mergePatternIndexLists left right := by
  cases left with
  | nil => rfl
  | cons a left =>
    have hLt := hLeft a mem_cons_self
    rw [mergePatternIndexLists, mergeHead, if_neg (lt_asymm hLt), if_pos hLt,
      mergePatternIndexLists]

lemma mergePatternIndexLists_filter (first second : Nat → Bool) {items : List Nat}
    (hItems : items.Pairwise (· < ·)) :
    mergePatternIndexLists (items.filter first) (items.filter second) =
      items.filter fun i => first i || second i := by
  induction items with
  | nil => rfl
  | cons i items ih =>
    rw [pairwise_cons] at hItems
    have hRest := ih hItems.2
    have hAfter : ∀ keep : Nat → Bool, ∀ j ∈ items.filter keep, i < j := by
      intro keep j hj
      exact hItems.1 j (mem_filter.mp hj).1
    cases hFirst : first i with
    | true =>
      cases hSecond : second i with
      | true =>
        simp only [filter_cons, hFirst, hSecond, Bool.or_self, if_true]
        rw [mergePatternIndexLists, mergeHead, if_neg (lt_irrefl i), if_neg (lt_irrefl i), hRest]
      | false =>
        simp only [filter_cons, hFirst, hSecond, Bool.or_false, if_true, Bool.false_eq_true,
          if_false]
        rw [mergePatternIndexLists, mergeHead_of_lt _ (mergePatternIndexLists_nil _)
            (hAfter second), hRest]
    | false =>
      cases hSecond : second i with
      | true =>
        simp only [filter_cons, hFirst, hSecond, Bool.or_true, if_true, Bool.false_eq_true,
          if_false]
        rw [mergePatternIndexLists_cons_of_lt (hAfter first), hRest]
      | false =>
        simp only [filter_cons, hFirst, hSecond, Bool.or_self, Bool.false_eq_true, if_false]
        exact hRest

-- Patterns by Number

/- Whether the pattern of a number has a property. -/
def patternHas (filed : Pattern → QueryStep → Bool) (patternIndex : Nat) : Bool :=
  match q.patterns[patternIndex]? with
  | none => false
  | some pat =>
    match pat.steps with
    | [] => false
    | step :: _ => filed pat step

lemma patternsWhere_eq (filed : Pattern → QueryStep → Bool) :
    patternsWhere q filed = (List.range q.patterns.length).filter (patternHas q filed) := by
  have hSame : patternsWhere q filed =
      (q.patterns.zipIdx.filter fun entry => patternHas q filed entry.2).map Prod.snd := by
    rw [patternsWhere]
    congr 1
    refine filter_congr ?_
    rintro ⟨pat, i⟩ hEntry
    have hPat := mk_mem_zipIdx_iff_getElem?.mp hEntry
    cases hSteps : pat.steps with
    | nil => simp [patternHas, hPat, hSteps]
    | cons step steps => simp [patternHas, hPat, hSteps]
  have hRange : q.patterns.zipIdx.map Prod.snd = List.range q.patterns.length := by
    rw [zipIdx_map_snd, range_eq_range']
  rw [hSame, ← hRange, filter_map]
  rfl

lemma mergePatternIndexLists_patternsWhere (first second : Pattern → QueryStep → Bool) :
    mergePatternIndexLists (patternsWhere q first) (patternsWhere q second) =
      patternsWhere q fun pat step => first pat step || second pat step := by
  rw [patternsWhere_eq, patternsWhere_eq, patternsWhere_eq,
    mergePatternIndexLists_filter _ _ pairwise_lt_range]
  refine filter_congr ?_
  intro i _
  cases hPat : q.patterns[i]? with
  | none => simp [patternHas, hPat]
  | some pat =>
    cases hSteps : pat.steps with
    | nil => simp [patternHas, hPat, hSteps]
    | cons step steps => simp [patternHas, hPat, hSteps]

/- The patterns tried before the children of a node. -/
def isTriedAt (pat : Pattern) (step : QueryStep) : Bool :=
  (isPreorder pat step && isFiledAt step symbol) || ((isPreorder pat step && decide (rootKey step =
    .wildcard)) || (decide (step.quantifier = .zeroOrMore) || (isPreorder pat step && decide
    (rootKey step = .complex))))

lemma rootPatternCandidates_eq :
    rootPatternCandidates q symbol =
      (List.range q.patterns.length).filter (patternHas q (isTriedAt symbol)) := by
  rw [rootPatternCandidates, rootFallbackCandidates, mergePatternIndexLists_patternsWhere,
    mergePatternIndexLists_patternsWhere, patternsWhere_eq]
  rfl

-- Patterns in Their Turn

/- Patterns that are tried at every node. -/
def isAlwaysTried (post : Bool) (step : QueryStep) : Bool :=
  decide (step.quantifier = .zeroOrMore) || (post && decide (step.quantifier = .oneOrMore))

/- Patterns whose turn it is before or after the children. -/
def hasTurn (post : Bool) (pat : Pattern) (step : QueryStep) : Bool :=
  isAlwaysTried post step || (if post then isPostorder pat step else isPreorder pat step)

/- Whether a step is filed for all nodes or under a symbol. -/
def isFound (step : QueryStep) : Bool :=
  isFiledAt step symbol || decide (rootKey step = .wildcard) || decide (rootKey step = .complex)

lemma patternsWhere_congr {filed other : Pattern → QueryStep → Bool}
    (hSame : ∀ pat step, filed pat step = other pat step) :
    patternsWhere q filed = patternsWhere q other := by
  rw [show filed = other from funext fun pat => funext (hSame pat)]

section

variable {N : Type} {q : Query} {lang : QueryLanguage} {tree : SyntaxTree N} {node : N}
  {step : QueryStep}

lemma itemCandidates_patternsWhere (item : WorkItem N) :
    itemCandidates q lang tree item =
      patternsWhere q fun pat step =>
        hasTurn item.post pat step &&
          (isAlwaysTried item.post step || isFound (lookupSymbol lang tree item.node) step) := by
  rw [itemCandidates]
  cases item.post with
  | false =>
    rw [if_neg Bool.false_ne_true, rootPatternCandidates_eq, ← patternsWhere_eq]
    refine patternsWhere_congr q ?_
    intro pat step
    simp only [isTriedAt, hasTurn, isAlwaysTried, isFound]
    cases decide (step.quantifier = .zeroOrMore) <;> cases isPreorder pat step <;> simp
      [Bool.or_assoc]
  | true =>
    rw [if_pos rfl, rootRepetitionPostPatterns, postorderPatternCandidates, postFallbackCandidates]
    simp only [mergePatternIndexLists_patternsWhere]
    refine patternsWhere_congr q ?_
    intro pat step
    simp only [hasTurn, isAlwaysTried, isFound]
    cases decide (step.quantifier = .zeroOrMore) <;> cases decide (step.quantifier = .oneOrMore) <;>
      cases isPostorder pat step <;> simp [Bool.or_assoc]

lemma lookupSymbol_of_headMatches {symbol : Nat} {isNamed isMissing : Bool}
    (hCanonical : lang.IsCanonical symbol isNamed) (hSymbol : symbol ≠ 0)
    (hMatches : headMatches lang tree symbol isNamed isMissing "" node) :
    lookupSymbol lang tree node = symbol := by
  simp only [headMatches, ne_eq, not_true_eq_false, if_false, hSymbol, Bool.and_eq_true,
    decide_eq_true_eq] at hMatches
  rw [lookupSymbol, hMatches.1.2, hCanonical.resolve_left hSymbol]

/- The heads of a step are those its nodes are looked up by. -/
def Step.Canonical (lang : QueryLanguage) (step : QueryStep) : Prop :=
  lang.IsCanonical step.symbol step.isNamed ∧ ∀ alt ∈ step.alternatives,
    lang.IsCanonical alt.head.symbol alt.head.isNamed

variable [DecidableEq N]

/- A step that matches a node is filed where it is looked up. -/
lemma isFound_of_matchStepHead (hStep : Step.Canonical lang step) {branch : BranchMatcher N}
    {predicates : List QueryPredicate} {place : Option (N × Nat)} {captures : List (Capture N)}
    (hHead : matchStepHead q lang tree branch predicates step node place captures ≠ []) :
    isFound (lookupSymbol lang tree node) step := by
  simp only [isFound, Bool.or_eq_true, decide_eq_true_eq]
  by_cases hPlain : step.alternatives.isEmpty
  · have hMatches : headMatches lang tree step.symbol step.isNamed step.isMissing
        step.textMatch node := by
      by_contra hNot
      simp [matchStepHead, hPlain, nodeMatchesStep, nodeCanMatchStepShallow, hNot] at hHead
    by_cases hText : step.textMatch = ""
    · by_cases hSymbol : step.symbol = 0
      · exact .inl (.inr (by simp [rootKey, hPlain, hText, hSymbol]))
      rw [hText] at hMatches
      rw [lookupSymbol_of_headMatches hStep.1 hSymbol hMatches]
      exact .inl (.inl (by simp [isFiledAt, rootKey, hPlain, hText, hSymbol]))
    · exact .inr (by simp [rootKey, hPlain, hText])
  have hSome : ∃ alt ∈ step.alternatives, alternativeMatchesNode lang tree alt node := by
    by_contra hNone
    push Not at hNone
    refine hHead ?_
    rw [matchStepHead, if_neg hPlain, flatMap_eq_nil_iff]
    intro alt hAlt
    rw [if_neg fun h => hNone alt hAlt h.1]
  by_cases hComplex : (step.alternatives.any fun alt =>
      decide (alt.head.textMatch ≠ "") || decide (alt.head.symbol = 0))
  · exact .inr (by simp only [rootKey, hPlain, hComplex, if_true])
  obtain ⟨alt, hAlt, hMatches⟩ := hSome
  have hBoth : alt.head.textMatch = "" ∧ alt.head.symbol ≠ 0 := by
    simp only [any_eq_true, not_exists, not_and, Bool.or_eq_true, decide_eq_true_eq] at hComplex
    have hNot := hComplex alt hAlt
    push Not at hNot
    exact hNot
  rw [alternativeMatchesNode, hBoth.1] at hMatches
  rw [lookupSymbol_of_headMatches (hStep.2 alt hAlt) hBoth.2 hMatches]
  refine .inl (.inl ?_)
  simp only [isFiledAt, rootKey, hPlain, hComplex, if_true]
  exact decide_eq_true (mem_map_of_mem hAlt)

/- The matches of every pattern in its turn at an item. -/
def everyMatch (q : Query) (lang : QueryLanguage) (tree : SyntaxTree N)
    (matcher : Nat → Matcher N) (item : WorkItem N) : List (QueryMatch N) :=
  (patternsWhere q (hasTurn item.post)).flatMap (itemMatchesBy q lang tree matcher item)

variable {matcher : Nat → Matcher N}
  (hMatcher : ∀ fuel, ∃ branch recur, matcher (fuel + 1) = matchStepBody q lang tree branch recur)

include hMatcher

lemma isFound_of_matchPatternBy {pat : Pattern} {below : List QueryStep}
    (hSteps : pat.steps = step :: below) (hStep : Step.Canonical lang step)
    (hOnce : step.quantifier ≠ .zeroOrMore)
    (hFound : matchPatternBy lang tree matcher pat node ≠ []) :
    isFound (lookupSymbol lang tree node) step := by
  by_contra hNot
  have hNone :
      matcher (matchDepth tree pat.steps node) pat.predicates pat.steps 0 node none [] = [] := by
    obtain ⟨branch, recur, hBody⟩ := hMatcher (tree.rank node + stepsNesting pat.steps)
    rw [matchDepth, hBody, matchStepBody, hSteps]
    simp only [getElem?_cons_zero, flatMap_eq_nil_iff]
    intro next hNext
    exact absurd (isFound_of_matchStepHead hStep (ne_nil_of_mem hNext)) hNot
  refine hFound ?_
  have hHead : pat.steps.head?.map Step.quantifier = some step.quantifier := by
    rw [hSteps]
    rfl
  have hFinish := congrArg (finishMatches lang tree pat.predicates) hNone
  rw [matchPatternBy, hHead]
  cases hQuantifier : step.quantifier with
  | zeroOrMore => exact absurd hQuantifier hOnce
  | oneOrMore => rfl
  | one => exact hFinish
  | zeroOrOne => exact hFinish

/- What the index leaves out has no match. -/
lemma itemOutputsBy_eq_everyMatch
    (hRoots : ∀ pat ∈ q.patterns, ∀ step ∈ pat.steps.head?, Step.Canonical lang step)
    (item : WorkItem N) :
    itemOutputsBy q lang tree matcher item = everyMatch q lang tree matcher item := by
  rw [itemOutputsBy, everyMatch, itemCandidates_patternsWhere, patternsWhere_eq, patternsWhere_eq,
    Traversal.flatMap_filter, Traversal.flatMap_filter]
  refine flatMap_congr ?_
  intro i _
  cases hPat : q.patterns[i]? with
  | none => simp [patternHas, hPat]
  | some pat =>
    cases hSteps : pat.steps with
    | nil => simp [patternHas, hPat, hSteps]
    | cons step below =>
      simp only [patternHas, hPat, hSteps, Bool.and_eq_true, Bool.or_eq_true]
      by_cases hTurn : hasTurn item.post pat step
      · by_cases hAlways : isAlwaysTried item.post step
        · simp [hTurn, hAlways]
        simp only [hTurn, hAlways, true_and, false_or, if_true, Bool.false_eq_true]
        split_ifs with hNot
        · rfl
        simp only [isAlwaysTried, Bool.or_eq_true, Bool.and_eq_true, decide_eq_true_eq, not_or,
          not_and] at hAlways
        have hRoot := hRoots pat (mem_of_getElem? hPat) step (by rw [hSteps]; rfl)
        have hPlace : (item.post && isRootRepetition pat) = false := by
          rw [isRootRepetition, hSteps]
          cases hPost : item.post <;> cases hQuantifier : step.quantifier <;> simp_all
        have hNone : matchPatternBy lang tree matcher pat item.node = [] := by
          by_contra hFound
          exact hNot (isFound_of_matchPatternBy hMatcher hSteps hRoot hAlways.1 hFound)
        simp [itemMatchesBy, hPat, hPlace, hNone]
      · simp [hTurn]

end

-- Later Visits

variable {q : Query}

lemma patternsWhere_eq_nil_iff {filed : Pattern → QueryStep → Bool} :
    patternsWhere q filed = [] ↔
      ∀ pat ∈ q.patterns, ∀ step ∈ pat.steps.head?, filed pat step = false := by
  rw [patternsWhere, map_eq_nil_iff, filter_eq_nil_iff]
  constructor
  · intro hNone pat hPat step hStep
    obtain ⟨i, hi⟩ := mem_iff_getElem?.mp hPat
    have hEntry := hNone (pat, i) (mk_mem_zipIdx_iff_getElem?.mpr hi)
    cases hSteps : pat.steps <;> simp_all
  · rintro hNone ⟨pat, i⟩ hEntry
    have hPat := hNone pat (mem_of_getElem? (mk_mem_zipIdx_iff_getElem?.mp hEntry))
    cases hSteps : pat.steps <;> simp_all

/- Nodes are visited again if a pattern has its turn then. -/
lemma hasPostorderPatterns_eq_false_iff :
    hasPostorderPatterns q = false ↔
      ∀ pat ∈ q.patterns, ∀ step ∈ pat.steps.head?, hasTurn true pat step = false := by
  simp only [hasPostorderPatterns, Bool.or_eq_false_iff, Bool.not_eq_false', List.isEmpty_iff,
    rootRepetitionPostPatterns, postFallbackCandidates, mergePatternIndexLists_patternsWhere,
    patternsWhere_eq_nil_iff, hasPostorderSymbols, any_eq_false, ← forall_and]
  refine forall₂_congr ?_
  intro pat hPat
  cases pat.steps with
  | nil => simp
  | cons step below =>
    have hKey : rootKey step ≠ .exact [] := by
      rw [rootKey]
      cases step.alternatives with
      | nil =>
        by_cases hText : step.textMatch = "" <;> by_cases hSymbol : step.symbol = 0 <;>
          simp [hText, hSymbol]
      | cons alt alts =>
        simp only [isEmpty_cons, if_true]
        split <;> simp
    simp only [head?_cons, Option.mem_some_iff, forall_eq', hasTurn, isAlwaysTried]
    cases hRoot : rootKey step with
    | exact symbols =>
      have hSome : symbols ≠ [] := by
        rintro rfl
        exact hKey hRoot
      cases isPostorder pat step <;> simp [hSome]
    | wildcard => cases isPostorder pat step <;> simp
    | complex => cases isPostorder pat step <;> simp

end GoTreeSitter.Queries
