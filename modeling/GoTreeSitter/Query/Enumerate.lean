import GoTreeSitter.Query.Matcher

/-
  How the matcher enumerates the ways to match.

  Key theorems include:
    * `matchChildSteps_one`
    * `matchStepsAllWithReader_fuel`

  A step that matches once takes each of its candidates in turn. The depth of a node and the nesting
  of alternations bound how far the recursion goes, so that more fuel than that finds nothing new.
-/

-- Steps That Match Once

namespace GoTreeSitter.Queries

variable {N : Type}

lemma collectMatching_eq_filter (matched : Nat → Bool) (started : Bool) (indices : List Nat) :
    collectMatching matched false started indices = indices.filter matched := by
  induction indices generalizing started with
  | nil => rfl
  | cons index rest ih =>
    rw [collectMatching, List.filter_cons, ih, ih]
    rfl

/- Choosing one candidate tries each of them. -/
lemma combinations_one
    (tryChild : Nat → List (Capture N) → List (List (Capture N)))
    (position : Nat → Option Nat)
    (finish : Nat → NamedSpan → List (Capture N) → List (List (Capture N)))
    (candidates : List Nat)
    (nextIdx : Nat)
    (span : NamedSpan)
    (current : List (Capture N)) :
    combinations tryChild position finish 1 candidates nextIdx span current =
      candidates.flatMap fun index =>
        (tryChild index current).flatMap
          (finish (max nextIdx (index + 1)) (span.withNamedPosition (position index))) := by
  induction candidates with
  | nil => rfl
  | cons index rest ih =>
    have hZero : ∀ nextIdx span,
        combinations tryChild position finish 0 rest nextIdx span = finish nextIdx span := by
      intro nextIdx span
      funext current
      rw [combinations]
    rw [combinations, ih, List.flatMap_cons, hZero]

lemma firstCount_singleton {α : Type} (run : Nat → List α) (count : Nat) :
    firstCount run [count] = run count := by
  rw [firstCount]
  split_ifs with hEmpty
  · rw [firstCount, List.isEmpty_iff.mp hEmpty]
  · rfl

lemma matchChildSteps_one (lang : QueryLanguage) (tree : SyntaxTree N) (parent : N)
    (tryChild : Nat → Nat → List (Capture N) → List (List (Capture N)))
    {step : QueryStep} (hOne : step.quantifier = .one)
    (stepIdx : Nat) (rest : List (QueryStep × Nat))
    (childPos nextChildIdx : Nat) (previous : Option Nat) (captures : List (Capture N)) :
    matchChildSteps lang tree parent tryChild ((step, stepIdx) :: rest) childPos nextChildIdx
        previous captures =
      ((collectChildCandidates lang tree parent step nextChildIdx).getD []).flatMap fun index =>
          (tryChild stepIdx index captures).flatMap fun current =>
              let span := NamedSpan.withNamedPosition none (namedPosition tree parent index)
              if stepAnchorsSatisfied step childPos span previous (lastNamedPosition tree parent) =
                  false then []
              else
                matchChildSteps lang tree parent tryChild rest (childPos + 1) (max nextChildIdx
                  (index + 1)) (span.lastAfter previous) current := by
  rw [matchChildSteps]
  cases collectChildCandidates lang tree parent step nextChildIdx with
  | none => rfl
  | some candidates =>
    cases candidates with
    | nil => simp [hOne, quantifierBounds, countsDown, firstCount]
    | cons first others =>
      have hCounts : countsDown
          (quantifierBounds step.quantifier (first :: others).length).1
          (quantifierBounds step.quantifier (first :: others).length).2 = [1] := by
        rw [hOne, quantifierBounds]
        simp [countsDown]
      simp only [hCounts, firstCount_singleton, combinations_one, Option.getD_some]
      simp

-- Nesting

variable {steps : List QueryStep} {step : QueryStep}

lemma nesting_le_of_mem {alts : List Alternative} {alt : Alternative} (hAlt : alt ∈ alts) :
    alt.nesting ≤ alternativesNesting alts := by
  induction alts with
  | nil => cases hAlt
  | cons first rest ih =>
    rw [alternativesNesting]
    rcases List.mem_cons.mp hAlt with rfl | hRest
    · exact le_max_left _ _
    · exact le_trans (ih hRest) (le_max_right _ _)

lemma stepNesting_le_of_mem (hStep : step ∈ steps) : stepNesting step ≤ stepsNesting steps := by
  induction steps with
  | nil => cases hStep
  | cons first rest ih =>
    rw [stepsNesting]
    rcases List.mem_cons.mp hStep with rfl | hRest
    · exact le_max_left _ _
    · exact le_trans (ih hRest) (le_max_right _ _)

lemma stepsNesting_lt_of_alternative {alt : Alternative} (hStep : step ∈ steps)
    (hAlt : alt ∈ step.alternatives) :
    stepsNesting alt.steps < stepsNesting steps := by
  have hOuter := stepNesting_le_of_mem hStep
  have hInner := nesting_le_of_mem hAlt
  have hStepEq : stepNesting step = alternativesNesting step.alternatives := by
    cases step
    rw [stepNesting]
  have hAltEq : alt.nesting = stepsNesting alt.steps + 1 := by
    cases alt
    rw [Alternative.nesting]
    rfl
  omega

-- Fuel

variable {N : Type} [DecidableEq N]

section

variable (q : Query) (lang : QueryLanguage) (tree : SyntaxTree N) {branch other : BranchMatcher N}
  {predicates : List QueryPredicate} {node : N}

/- Only the branches whose head fits the node are tried. -/
lemma matchStepHead_congr
    {captures : List (Capture N)}
    (hBranch : ∀ alt ∈ step.alternatives,
      alternativeMatchesNode lang tree alt node = true →
        branch predicates step alt node captures = other predicates step alt node captures)
    (place : Option (N × Nat)) :
    matchStepHead q lang tree branch predicates step node place captures =
      matchStepHead q lang tree other predicates step node place captures := by
  rw [matchStepHead, matchStepHead]
  split
  · rfl
  refine List.flatMap_congr ?_
  intro alt hAlt
  split_ifs with hFits
  · rw [hBranch alt hAlt hFits.1]
  · rfl

lemma matchStepBody_congr
    {recur again : Matcher N}
    (hBranch : ∀ step ∈ steps, ∀ alt ∈ step.alternatives,
      alternativeMatchesNode lang tree alt node = true →
        ∀ captures : List (Capture N),
          branch predicates step alt node captures = other predicates step alt node captures)
    (hRecur : ∀ child ∈ tree.children node, ∀ stepIdx place captures,
      recur predicates steps stepIdx child place captures =
        again predicates steps stepIdx child place captures)
    (stepIdx : Nat)
    (place : Option (N × Nat))
    (captures : List (Capture N)) :
    matchStepBody q lang tree branch recur predicates steps stepIdx node place captures =
      matchStepBody q lang tree other again predicates steps stepIdx node place captures := by
  rw [matchStepBody, matchStepBody]
  cases hStep : steps[stepIdx]? with
  | none => rfl
  | some step =>
    have hMem := List.mem_of_getElem? hStep
    have hHead := matchStepHead_congr q lang tree (fun alt hAlt hFits =>
      hBranch step hMem alt hAlt hFits captures) place
    simp only [hHead]
    refine List.flatMap_congr ?_
    intro next _
    congr 1
    funext childStep index current
    cases hIndex : (tree.children node)[index]? with
    | none => rfl
    | some child =>
      exact hRecur child (List.mem_of_getElem? hIndex) childStep (some (node, index)) current

end

lemma childStepsOf_mem
    {stepIdx depth : Nat}
    {entry : QueryStep × Nat}
    (hEntry : entry ∈ childStepsOf steps stepIdx depth) :
    steps[entry.2]? = some entry.1 := by
  have hFiltered := (List.mem_filter.mp hEntry).1
  have hTaken := (List.takeWhile_sublist _).subset hFiltered
  have hDropped := (List.drop_sublist _ _).subset hTaken
  exact List.mk_mem_zipIdx_iff_getElem?.mp hDropped

/- Match a child step at the child of an index. -/
def matchChildAt (tree : SyntaxTree N) (recur : Matcher N) (predicates : List QueryPredicate)
    (steps : List QueryStep) (node : N) (childStep index : Nat) (captures : List (Capture N)) :
    List (List (Capture N)) :=
  match (tree.children node)[index]? with
  | none => []
  | some child => recur predicates steps childStep child (some (node, index)) captures

/- A step is matched at its node, then its child steps are. -/
lemma matchStepsAllWithReader_succ
    (q : Query)
    (lang : QueryLanguage)
    (tree : SyntaxTree N)
    (fuel : Nat)
    (predicates : List QueryPredicate)
    {stepIdx : Nat}
    (hStep : steps[stepIdx]? = some step)
    (node : N)
    (place : Option (N × Nat)) :
    matchStepsAllWithReader q lang tree (fuel + 1) predicates steps stepIdx node place =
      fun captures =>
        (matchStepHead q lang tree
          (matchAlternationBranchWithReader q lang tree
            (matchStepsAllWithReader q lang tree fuel)) predicates step node place
          captures).flatMap
          (matchChildSteps lang tree node
            (matchChildAt tree (matchStepsAllWithReader q lang tree fuel) predicates steps
              node) (childStepsOf steps stepIdx step.depth) 0 0 none) := by
  funext captures
  rw [matchStepsAllWithReader, matchStepBody, hStep]
  rfl

lemma matchStepsAllWithReader_fuel
    (q : Query)
    (lang : QueryLanguage)
    (tree : SyntaxTree N)
    (predicates : List QueryPredicate)
    {node : N}
    {fuel more : Nat}
    (hFuel : matchDepth tree steps node ≤ fuel)
    (hMore : matchDepth tree steps node ≤ more)
    (stepIdx : Nat)
    (place : Option (N × Nat))
    (captures : List (Capture N)) :
    matchStepsAllWithReader q lang tree fuel predicates steps stepIdx node place captures =
      matchStepsAllWithReader q lang tree more predicates steps stepIdx node place captures := by
  induction fuel generalizing more steps node stepIdx place captures with
  | zero => exact absurd hFuel (Nat.not_succ_le_zero _)
  | succ fuel ih =>
    cases more with
    | zero => exact absurd hMore (Nat.not_succ_le_zero _)
    | succ more =>
      rw [matchStepsAllWithReader, matchStepsAllWithReader]
      rw [matchDepth] at hFuel hMore
      refine matchStepBody_congr q lang tree ?_ ?_ stepIdx place captures
      · -- a branch is nested less deep than its step
        intro step hStep alt hAlt _ current
        have hNesting := stepsNesting_lt_of_alternative hStep hAlt
        rw [matchAlternationBranchWithReader, matchAlternationBranchWithReader]
        split
        · rfl
        have hHere : matchDepth tree alt.steps node ≤ fuel := by
          rw [matchDepth]
          omega
        have hThere : matchDepth tree alt.steps node ≤ more := by
          rw [matchDepth]
          omega
        congr 1
        funext next
        rw [ih hHere hThere]
      · -- a child has a lower rank than its parent
        intro child hChild stepIdx place current
        have hRank := tree.rank_lt hChild
        exact ih (by rw [matchDepth]; omega) (by rw [matchDepth]; omega) stepIdx place current

omit [DecidableEq N] in
lemma finishMatches_nil (lang : QueryLanguage) (tree : SyntaxTree N)
    (found : List (List (Capture N))) :
    finishMatches lang tree [] found = found := by
  have hAll : matchesPredicates lang tree [] = fun _ => true := rfl
  have hSame : applyDirectives tree [] = id := rfl
  rw [finishMatches, hAll, hSame, List.map_id, List.filter_eq_self]
  exact fun _ _ => rfl

end GoTreeSitter.Queries
