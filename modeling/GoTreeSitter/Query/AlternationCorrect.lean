import GoTreeSitter.Search.Pruning
import GoTreeSitter.Query.Enumerate

/-
  Alternations as unions of their branches.

  Main declarations:
    * `Element`
    * `Element.FitsRoot`
    * `alternation_matches_iff`
    * `alternation_is_union`

  Predicates cut a search off early, which loses nothing where every step matches once. As a branch
  an element keeps its steps only if it has predicates or more than one step; of a lone node just
  the head is kept.
-/

-- Predicates along a Search

namespace GoTreeSitter.Queries

open List

section

variable {N : Type} (lang : QueryLanguage) (tree : SyntaxTree N) {captures : List (Capture N)}
  {pred : QueryPredicate}

lemma captureText_append {name text : String} (hText : captureText tree name captures = some text)
    (more : List (Capture N)) :
    captureText tree name (captures ++ more) = some text := by
  rw [captureText] at hText ⊢
  cases hTree : tree.text with
  | none => simp [hTree] at hText
  | some read =>
    rw [hTree] at hText
    simp only [Option.map_eq_some_iff] at hText ⊢
    rcases hText with ⟨capture, hFound, hEq⟩
    refine ⟨capture, ?_, hEq⟩
    rw [find?_append, hFound]
    rfl

lemma predicateRightText_append {text : String}
    (hText : predicateRightText tree pred captures = some text) (more : List (Capture N)) :
    predicateRightText tree pred (captures ++ more) = some text := by
  rw [predicateRightText] at hText ⊢
  split_ifs with hNone
  · rw [if_pos hNone] at hText
    exact hText
  rw [if_neg hNone] at hText
  exact captureText_append tree hText more

lemma predicateStillViable_of_append {more : List (Capture N)}
    (hViable : predicateStillViable lang tree pred (captures ++ more)) :
    predicateStillViable lang tree pred captures := by
  rw [predicateStillViable] at hViable ⊢
  cases hLeft : captureText tree pred.leftCapture captures with
  | none => cases pred.kind <;> rfl
  | some left =>
    rw [captureText_append tree hLeft] at hViable
    cases hRight : predicateRightText tree pred captures with
    | none => cases hKind : pred.kind <;> simp_all
    | some right =>
      rw [predicateRightText_append tree hRight] at hViable
      exact hViable

lemma predicateStillViable_of_matches (hMatches : matchesPredicate lang tree pred captures) :
    predicateStillViable lang tree pred captures := by
  rw [matchesPredicate] at hMatches
  rw [predicateStillViable]
  cases hLeft : captureText tree pred.leftCapture captures with
  | none => cases pred.kind <;> rfl
  | some left =>
    cases hRight : predicateRightText tree pred captures with
    | none => cases hKind : pred.kind <;>
        simp_all [textEqualityPredicateMatches, regexPredicateMatches, anyOfMatches,
          isExportedMatches]
    | some right => cases hKind : pred.kind <;>
        simp_all [textEqualityPredicateMatches, regexPredicateMatches, anyOfMatches,
          isExportedMatches]

end

-- Matching under Predicates

section

open Pruning

variable {N : Type} (q : Query) (lang : QueryLanguage) (tree : SyntaxTree N)
  (predicates : List QueryPredicate)

lemma predicatesStillViable_of_append {captures more : List (Capture N)}
    (hViable : predicatesStillViable lang tree predicates (captures ++ more)) :
    predicatesStillViable lang tree predicates captures := by
  rw [predicatesStillViable, all_eq_true] at hViable ⊢
  intro pred hPred
  exact predicateStillViable_of_append lang tree (hViable pred hPred)

lemma not_matchesPredicates_of_cut {captures : List (Capture N)}
    (hCut : predicatesStillViable lang tree predicates captures = false) (more : List (Capture N)) :
    matchesPredicates lang tree predicates (captures ++ more) = false := by
  rw [predicatesStillViable, all_eq_false] at hCut
  obtain ⟨pred, hPred, hNot⟩ := hCut
  rw [matchesPredicates, all_eq_false]
  refine ⟨pred, hPred, ?_⟩
  intro hMatches
  have hViable := predicateStillViable_of_matches lang tree hMatches
  exact hNot (predicateStillViable_of_append lang tree hViable)

/-
  Captures that pruning cuts off are rejected however they go
  on, also where a matcher cuts a step off for them.
-/
theorem cut_captures_never_match :
    (∀ captures more : List (Capture N),
      predicatesStillViable lang tree predicates captures = false →
        matchesPredicates lang tree predicates (captures ++ more) = false) ∧
      ∀ (ids : List Nat) (node : N) (captures more : List (Capture N)),
        captureViable q lang tree predicates ids node captures = none →
          matchesPredicates lang tree predicates
            (appendCaptureIDs q ids node captures ++ more) = false := by
  constructor
  · intro captures more hCut
    exact not_matchesPredicates_of_cut lang tree predicates hCut more
  intro ids node captures more hNone
  rw [captureViable] at hNone
  split at hNone
  · cases hNone
  · rename_i hNot
    exact not_matchesPredicates_of_cut lang tree predicates (Bool.eq_false_of_not_eq_true hNot) more

/- An item that is not the word asked for. -/
theorem cut_captures_never_match_item :
    matchesPredicates listLanguage { listTree with text := some (fun _ => "b") }
      [{ kind := .eq, leftCapture := "x", literal := "a" }]
      ([{ name := "x", node := 1 }] ++ [{ name := "x", node := 2 }]) = false :=
  (cut_captures_never_match { patterns := [], captures := [] } _ _ _).1 _ _ rfl

lemma predicatesStillViable_nil :
    predicatesStillViable lang tree predicates ([] : List (Capture N)) := by
  rw [predicatesStillViable, all_eq_true]
  intro pred _
  have hNone : captureText tree pred.leftCapture ([] : List (Capture N)) = none := by
    rw [captureText]
    cases tree.text with
    | none => rfl
    | some read => rfl
  rw [predicateStillViable, hNone]
  cases pred.kind <;> rfl

lemma prunes_captureViable (ids : List Nat) (node : N) :
    Prunes (predicatesStillViable lang tree predicates)
      (fun captures => (captureViable q lang tree predicates ids node captures).toList)
      (fun captures => (captureViable q lang tree [] ids node captures).toList) where
  eq := by
    intro captures _
    have hFull : captureViable q lang tree [] ids node captures =
        some (appendCaptureIDs q ids node captures) := rfl
    rw [hFull, captureViable, Option.toList_some, filter_cons, filter_nil]
    split
    · rfl
    · rfl
  back := by
    intro captures next hNext hViable
    have hEq : next = captures ++ newCaptures q ids node := mem_singleton.mp hNext
    rw [hEq] at hViable
    exact predicatesStillViable_of_append lang tree predicates hViable

lemma prunes_captureAlternation (step : QueryStep) (node : N) :
    Prunes (predicatesStillViable lang tree predicates)
      (fun captures => (captureAlternation q lang tree predicates step node captures).toList)
      (fun captures => (captureAlternation q lang tree [] step node captures).toList) := by
  by_cases hNone : step.captureIDs.isEmpty
  · simp only [captureAlternation, if_pos hNone]
    exact .pure
  · simp only [captureAlternation, if_neg hNone]
    exact prunes_captureViable q lang tree predicates step.captureIDs node

lemma toList_bind {α β : Type} (x : Option α) (f : α → Option β) :
    (x.bind f).toList = x.toList.flatMap fun a => (f a).toList := by
  cases x with
  | none => rfl
  | some a => rw [Option.bind_some, Option.toList_some, flatMap_cons, flatMap_nil, append_nil]

lemma prunes_matchSimpleBranch (step : QueryStep) (alt : Alternative) (node : N) :
    Prunes (predicatesStillViable lang tree predicates)
      (fun captures =>
        (matchSimpleBranch q lang tree predicates step alt node captures).toList)
      (fun captures => (matchSimpleBranch q lang tree [] step alt node captures).toList) := by
  by_cases hNone : step.captureIDs.isEmpty ∧ alt.head.captureIDs.isEmpty
  · simp only [matchSimpleBranch, if_pos hNone]
    exact .pure
  simp only [matchSimpleBranch, if_neg hNone, toList_bind]
  exact .comp (prunes_captureAlternation q lang tree predicates step node) (prunes_captureViable q
    lang tree predicates alt.head.captureIDs node)

lemma prunes_matchChildSteps
    (parent : N)
    {pruned full : Nat → Nat → List (Capture N) → List (List (Capture N))}
    (hTry : ∀ stepIdx index,
      Prunes (predicatesStillViable lang tree predicates) (pruned stepIdx index)
        (full stepIdx index))
    {entries : List (QueryStep × Nat)}
    (hOne : ∀ entry ∈ entries, entry.1.quantifier = .one)
    (childPos nextChildIdx : Nat)
    (previous : Option Nat) :
    Prunes (predicatesStillViable lang tree predicates)
      (matchChildSteps lang tree parent pruned entries childPos nextChildIdx previous)
      (matchChildSteps lang tree parent full entries childPos nextChildIdx previous) := by
  induction entries generalizing childPos nextChildIdx previous with
  | nil =>
    have hNil : ∀ tryChild : Nat → Nat → List (Capture N) → List (List (Capture N)),
        matchChildSteps lang tree parent tryChild [] childPos nextChildIdx previous =
          fun captures => [captures] := by
      intro tryChild
      funext captures
      rw [matchChildSteps]
    rw [hNil, hNil]
    exact .pure
  | cons entry rest ih =>
    obtain ⟨step, stepIdx⟩ := entry
    rw [forall_mem_cons] at hOne
    have hNormal := fun tryChild => funext (matchChildSteps_one lang tree parent tryChild hOne.1
      stepIdx rest childPos nextChildIdx previous)
    rw [hNormal pruned, hNormal full]
    refine .flatMap ?_
    intro index _
    refine .comp (hTry stepIdx index) ?_
    simp only
    split
    · exact .nil
    · exact ih hOne.2 _ _ _

variable [DecidableEq N]

lemma prunes_matchStepHead
    (recur again : Matcher N)
    {step : QueryStep}
    (hLone : ∀ alt ∈ step.alternatives, alt.steps = [])
    (node : N)
    (place : Option (N × Nat)) :
    Prunes (predicatesStillViable lang tree predicates)
      (matchStepHead q lang tree (matchAlternationBranchWithReader q lang tree recur)
        predicates step node place)
      (matchStepHead q lang tree (matchAlternationBranchWithReader q lang tree again) [] step
        node place) := by
  by_cases hPlain : step.alternatives.isEmpty
  · by_cases hNode : nodeMatchesStep lang tree step node
    · have hHead : ∀ preds branch,
          matchStepHead q lang tree branch preds step node place =
            fun captures =>
              (captureViable q lang tree preds step.captureIDs node captures).toList := by
        intro preds branch
        funext captures
        rw [matchStepHead, if_pos hPlain, if_pos hNode]
      rw [hHead, hHead]
      exact prunes_captureViable q lang tree predicates step.captureIDs node
    have hHead : ∀ preds branch,
        matchStepHead q lang tree branch preds step node place = fun _ => [] := by
      intro preds branch
      funext captures
      rw [matchStepHead, if_pos hPlain, if_neg hNode]
    rw [hHead, hHead]
    exact .nil
  have hHead : ∀ preds branch,
      matchStepHead q lang tree branch preds step node place =
        fun captures =>
          step.alternatives.flatMap fun alt =>
            if alternativeMatchesNode lang tree alt node ∧
              alternativeFieldMatches lang tree alt node place = true then
              (branch preds step alt node captures).toList
            else [] := by
    intro preds branch
    funext captures
    rw [matchStepHead, if_neg hPlain]
  rw [hHead, hHead]
  refine .flatMap ?_
  intro alt hAlt
  have hBranch : ∀ preds matcher captures,
      matchAlternationBranchWithReader q lang tree matcher preds step alt node captures =
        matchSimpleBranch q lang tree preds step alt node captures := by
    intro preds matcher captures
    rw [matchAlternationBranchWithReader, hLone alt hAlt]
    rfl
  simp only [hBranch]
  split
  · exact prunes_matchSimpleBranch q lang tree predicates step alt node
  · exact .nil

/-
  Where every step matches once and branches are lone nodes,
  predicates only cut off what they rule out.
-/
lemma prunes_matchSteps
    {steps : List QueryStep}
    (hOne : ∀ step ∈ steps, step.quantifier = .one)
    (hLone : ∀ step ∈ steps, ∀ alt ∈ step.alternatives, alt.steps = [])
    (fuel stepIdx : Nat)
    (node : N)
    (place : Option (N × Nat)) :
    Prunes (predicatesStillViable lang tree predicates)
      (matchStepsAllWithReader q lang tree fuel predicates steps stepIdx node place)
      (matchStepsAllWithReader q lang tree fuel [] steps stepIdx node place) := by
  induction fuel generalizing stepIdx node place with
  | zero => exact .nil
  | succ fuel ih =>
    cases hStep : steps[stepIdx]? with
    | none =>
      have hNone : ∀ preds,
          matchStepsAllWithReader q lang tree (fuel + 1) preds steps stepIdx node place =
            fun _ => [] := by
        intro preds
        funext captures
        rw [matchStepsAllWithReader, matchStepBody, hStep]
      rw [hNone, hNone]
      exact .nil
    | some step =>
      have hMem := mem_of_getElem? hStep
      rw [matchStepsAllWithReader_succ q lang tree fuel predicates hStep node place,
          matchStepsAllWithReader_succ q lang tree fuel [] hStep node place]
      refine .comp (prunes_matchStepHead q lang tree predicates _ _ (hLone step hMem) node place)
        (prunes_matchChildSteps lang tree predicates node ?_ ?_ 0 0 none)
      · intro childStep index
        cases hChild : (tree.children node)[index]? with
        | none =>
          have hNone : ∀ matcher preds,
              matchChildAt tree matcher preds steps node childStep index = fun _ => [] := by
            intro matcher preds
            funext captures
            rw [matchChildAt, hChild]
          rw [hNone, hNone]
          exact .nil
        | some child =>
          have hSome : ∀ matcher preds,
              matchChildAt tree matcher preds steps node childStep index =
                matcher preds steps childStep child (some (node, index)) := by
            intro matcher preds
            funext captures
            rw [matchChildAt, hChild]
          rw [hSome, hSome]
          exact ih childStep child (some (node, index))
      · intro entry hEntry
        exact hOne entry.1 (mem_of_getElem? (childStepsOf_mem hEntry))

-- Predicates Checked at the End

/- The kinds of predicates that may rule captures out early. -/
def isCheckedEarly (kind : PredicateKind) : Bool := decide (kind ∈
    [PredicateKind.eq, .notEq, .match, .luaMatch, .notMatch, .anyOf, .notAnyOf, .isExported])

variable {N : Type} (tree : SyntaxTree N)

lemma predicatesStillViable_of_late {predicates : List QueryPredicate}
    (hLate : ∀ pred ∈ predicates, isCheckedEarly pred.kind = false) :
    predicatesStillViable lang tree predicates = predicatesStillViable lang tree [] := by
  funext captures
  have hNil : predicatesStillViable lang tree [] captures := rfl
  rw [hNil, predicatesStillViable, all_eq_true]
  intro pred hPred
  have hKind := hLate pred hPred
  rw [predicateStillViable]
  cases h : pred.kind <;> first
      | rfl
      | (rw [h] at hKind; exact absurd hKind (by decide))

variable {predicates others : List QueryPredicate}
  (hViable : predicatesStillViable lang tree predicates = predicatesStillViable lang tree others)

include hViable

lemma captureViable_congr :
    captureViable q lang tree predicates = captureViable q lang tree others := by
  funext ids node captures
  rw [captureViable, captureViable, hViable]

lemma captureAlternation_congr :
    captureAlternation q lang tree predicates = captureAlternation q lang tree others := by
  funext step node captures
  rw [captureAlternation, captureAlternation, captureViable_congr q lang tree hViable]

variable [DecidableEq N]

lemma matchSteps_predicates_congr (fuel : Nat) :
    matchStepsAllWithReader q lang tree fuel predicates =
      matchStepsAllWithReader q lang tree fuel others := by
  induction fuel with
  | zero => rfl
  | succ fuel ih =>
    have hBranch : matchAlternationBranchWithReader q lang tree
        (matchStepsAllWithReader q lang tree fuel) predicates =
        matchAlternationBranchWithReader q lang tree
          (matchStepsAllWithReader q lang tree fuel) others := by
      funext step alt node captures
      rw [matchAlternationBranchWithReader, matchAlternationBranchWithReader, matchSimpleBranch,
        matchSimpleBranch, ih, captureAlternation_congr q lang tree hViable, captureViable_congr q
        lang tree hViable]
    funext steps stepIdx node place captures
    rw [matchStepsAllWithReader, matchStepBody, matchStepBody]
    cases steps[stepIdx]? with
    | none => rfl
    | some step => simp only [matchStepHead, hBranch, ih, captureViable_congr q lang tree hViable]

end

-- Elements

/-
  An element of a query as it is read for itself, without a quantifier. Its root is in no field, and
  the root of an alternation asks nothing of its node but the branches.
-/
structure Element where
  root : QueryStep
  below : List QueryStep
  predicates : List QueryPredicate
  field_eq : root.field = 0
  quantifier_eq : root.quantifier = .one
  bare : root.alternatives ≠ [] → root.symbol = 0 ∧ root.isNamed = false ∧ root.isMissing = false ∧
    root.textMatch = ""

namespace Element

variable (element : Element)

def steps : List QueryStep := element.root :: element.below

/- The element as a pattern of its own. -/
def pattern : Pattern where
  steps := element.steps
  predicates := element.predicates

def head : AlternativeHead where
  symbol := element.root.symbol
  isNamed := element.root.isNamed
  isMissing := element.root.isMissing
  textMatch := element.root.textMatch

/- Whether a branch keeps the steps of the element. -/
def keepsSteps : Bool := !element.predicates.isEmpty || !element.below.isEmpty

/- The element as a branch. -/
def alternative : Alternative :=
  if element.keepsSteps = true then
    .mk element.head element.steps element.predicates
  else
    .mk { element.head with
        captureIDs := element.root.captureIDs } [] []

lemma alternativeOf_pattern : alternativeOf element.pattern = some element.alternative := by
  obtain ⟨root, below, predicates, hField, hOne, hBare⟩ := element
  have hRoot : { root with field := 0 } = root := by rw [← hField]
  cases predicates with
  | nil =>
    cases below with
    | nil => simp [alternativeOf, pattern, steps, alternative, keepsSteps, head, hField]
    | cons step below => simp [alternativeOf, pattern, steps, alternative, keepsSteps, head, hField,
        hRoot]
  | cons pred predicates => simp [alternativeOf, pattern,
      steps, alternative, keepsSteps, head, hField, hRoot]

variable {N : Type} (lang : QueryLanguage) (tree : SyntaxTree N)

/- Whether the head of an element fits a node. -/
def FitsRoot (node : N) : Prop :=
  headMatches lang tree element.root.symbol element.root.isNamed element.root.isMissing
    element.root.textMatch node = true

/-
  Whether nothing an element asks at a node is lost in a branch. A lone node must not be an
  alternation and must satisfy its absent fields. Predicates must be checked at the end only, or
  rule out single nodes.
-/
def KeptWhole (node : N) : Prop :=
  if element.predicates = [] then
    element.below ≠ [] ∨ (element.root.alternatives = [] ∧ (element.root.textMatch ≠ "" ∨
      element.root.symbol = 0 ∨ absentFieldsSatisfied lang tree element.root node = true))
  else
    (∀ pred ∈ element.predicates, isCheckedEarly pred.kind = false) ∨
    (∀ step ∈ element.steps, step.quantifier = .one ∧ ∀ alt ∈ step.alternatives, alt.steps = [])

end Element

-- Elements as Patterns and as Branches

variable {N : Type} [DecidableEq N] (q : Query) (lang : QueryLanguage) (tree : SyntaxTree N)

/- The ways to match steps that no predicate cuts off. -/
def freeWays (steps : List QueryStep) (node : N) : List (List (Capture N)) :=
  matchStepsAllWithReader q lang tree (matchDepth tree steps node) [] steps 0 node none []

namespace Element

variable {element : Element} {node : N}

/- Whether an element has a match as a branch. -/
def MatchesAsBranch (element : Element) (node : N) : Prop :=
  element.FitsRoot lang tree node ∧ (element.keepsSteps = true → ∃ found ∈ freeWays q lang tree
    element.steps node, matchesPredicates lang tree element.predicates found = true)

lemma pattern_matches_iff (element : Element) (node : N) :
    matchPatternAllWithReader q lang tree element.pattern node ≠ [] ↔
      ∃ found ∈ matchStepsAllWithReader q lang tree (matchDepth tree element.steps node)
        element.predicates element.steps 0 node none [],
        matchesPredicates lang tree element.predicates found := by
  have hHead : element.pattern.steps.head?.map Step.quantifier = some .one :=
    congrArg some element.quantifier_eq
  rw [matchPatternAllWithReader, matchPatternBy, hHead]
  simp only [finishMatches, ne_eq, map_eq_nil_iff, filter_eq_nil_iff, not_forall, not_not,
    exists_prop]
  rfl

lemma fitsRoot_of_way {fuel : Nat} {predicates : List QueryPredicate} {found : List (Capture N)}
    (hFound : found ∈
      matchStepsAllWithReader q lang tree fuel predicates element.steps 0 node none []) :
    element.FitsRoot lang tree node := by
  by_cases hPlain : element.root.alternatives = []
  · cases fuel with
    | zero => cases hFound
    | succ fuel =>
      rcases mem_flatMap.mp hFound with ⟨next, hNext, _⟩
      rw [matchStepHead, hPlain, if_pos isEmpty_nil] at hNext
      split_ifs at hNext with hMatches
      · rw [nodeMatchesStep, Bool.and_eq_true, nodeCanMatchStepShallow, hPlain] at hMatches
        exact hMatches.1
      · cases hNext
  · obtain ⟨hSymbol, hNamed, hMissing, hText⟩ := element.bare hPlain
    rw [FitsRoot, hSymbol, hNamed, hMissing, hText]
    rfl

lemma way_of_lone (hBelow : element.below = []) (hPlain : element.root.alternatives = [])
    (hNode : nodeMatchesStep lang tree element.root node) :
    freeWays q lang tree element.steps node ≠ [] := by
  have hSteps : element.steps = [element.root] := by rw [steps, hBelow]
  rw [freeWays, hSteps, matchDepth, matchStepsAllWithReader_succ q lang tree _ [] rfl]
  simp only [matchStepHead, hPlain, isEmpty_nil, if_true, hNode]
  exact cons_ne_nil _ _

lemma pattern_matches_iff_of_kept (hKept : element.KeptWhole lang tree node) :
    matchPatternAllWithReader q lang tree element.pattern node ≠ [] ↔
      ∃ found ∈ freeWays q lang tree element.steps node,
        matchesPredicates lang tree element.predicates found := by
  rw [pattern_matches_iff, freeWays]
  rw [KeptWhole] at hKept
  split_ifs at hKept with hNone
  · rw [hNone]
  rcases hKept with hLate | hSingle
  · rw [matchSteps_predicates_congr q lang tree (predicatesStillViable_of_late lang tree hLate)]
  have hPrunes := prunes_matchSteps q lang tree element.predicates (fun step hStep => (hSingle
    step hStep).1) (fun step hStep => (hSingle step hStep).2) (matchDepth tree element.steps
    node) 0 node none
  rw [hPrunes.eq [] (predicatesStillViable_nil lang tree element.predicates)]
  refine exists_congr fun found => ?_
  rw [mem_filter, and_assoc]
  refine and_congr_right fun _ => ?_
  refine and_iff_right_of_imp ?_
  intro hMatches
  rw [matchesPredicates, all_eq_true] at hMatches
  rw [predicatesStillViable, all_eq_true]
  intro pred hPred
  exact predicateStillViable_of_matches lang tree (hMatches pred hPred)

lemma matchesAsBranch_iff
    (hKept : element.FitsRoot lang tree node → element.KeptWhole lang tree node) :
    element.MatchesAsBranch q lang tree node ↔
      matchPatternAllWithReader q lang tree element.pattern node ≠ [] := by
  by_cases hFits : element.FitsRoot lang tree node
  · rw [pattern_matches_iff_of_kept q lang tree (hKept hFits), MatchesAsBranch, and_iff_right hFits]
    by_cases hSteps : element.keepsSteps
    · rw [imp_iff_right hSteps]
    refine iff_of_true (fun hKeeps => absurd hKeeps hSteps) ?_
    have hLone := hKept hFits
    simp only [keepsSteps, Bool.or_eq_true, Bool.not_eq_true', isEmpty_eq_false_iff, not_or,
      not_not] at hSteps
    obtain ⟨hNone, hBelow⟩ := hSteps
    rw [KeptWhole, if_pos hNone, hBelow] at hLone
    obtain ⟨hPlain, hAbsent⟩ := hLone.resolve_left fun hNe => hNe rfl
    have hNode : nodeMatchesStep lang tree element.root node = true := by
      rw [nodeMatchesStep, nodeCanMatchStepShallow, hPlain]
      simp only [isEmpty_nil, Bool.true_eq_false, if_false, Bool.not_true, Bool.false_or,
        Bool.and_eq_true, Bool.or_eq_true, decide_eq_true_eq]
      exact ⟨hFits, or_assoc.mpr hAbsent⟩
    obtain ⟨found, hFound⟩ := exists_mem_of_ne_nil _ (way_of_lone q lang tree hBelow hPlain hNode)
    refine ⟨found, hFound, ?_⟩
    rw [hNone]
    rfl
  · refine iff_of_false (fun hBranch => hFits hBranch.1) ?_
    rw [pattern_matches_iff]
    rintro ⟨found, hFound, _⟩
    exact hFits (fitsRoot_of_way q lang tree hFound)

lemma isTried_alternative_iff (element : Element) (node : N) (place : Option (N × Nat)) :
    (alternativeMatchesNode lang tree element.alternative node ∧
      alternativeFieldMatches lang tree element.alternative node place) ↔
      element.FitsRoot lang tree node := by
  rw [alternative]
  split
  · exact and_iff_left rfl
  · exact and_iff_left rfl

lemma matchBranch_isSome_iff
    (element : Element)
    (node : N)
    {fuel : Nat}
    (hFuel : element.keepsSteps → matchDepth tree element.steps node ≤ fuel)
    (step : QueryStep)
    (hCaptures : step.captureIDs = []) :
    (matchAlternationBranchWithReader q lang tree
      (matchStepsAllWithReader q lang tree fuel) [] step element.alternative node []).isSome ↔
      (element.keepsSteps →
        ∃ found ∈ freeWays q lang tree element.steps node,
          matchesPredicates lang tree element.predicates found) := by
  have hNext : captureAlternation q lang tree [] step node ([] : List (Capture N)) = some [] := by
    rw [captureAlternation, hCaptures]
    rfl
  by_cases hKeeps : element.keepsSteps
  · have hSteps : element.alternative.steps = element.steps := by
      rw [alternative, if_pos hKeeps]
      rfl
    have hPredicates : element.alternative.predicates = element.predicates := by
      rw [alternative, if_pos hKeeps]
      rfl
    have hSome : element.steps.isEmpty = false := rfl
    rw [imp_iff_right hKeeps, matchAlternationBranchWithReader, hSteps, hSome, if_neg
      Bool.false_ne_true, hNext, Option.bind_some, hPredicates, find?_isSome,
      matchStepsAllWithReader_fuel q lang tree [] (hFuel hKeeps) le_rfl, freeWays]
  · have hSteps : element.alternative.steps = [] := by
      rw [alternative, if_neg hKeeps]
      rfl
    refine iff_of_true ?_ fun hSome => absurd hSome hKeeps
    rw [matchAlternationBranchWithReader, hSteps, if_pos isEmpty_nil, matchSimpleBranch, hNext]
    split
    · rfl
    · rfl

end Element

/- An alternation has a match where one of its elements has one as a branch. -/
lemma alternation_matches_iff {elements : List Element} (hSome : elements ≠ []) (node : N) :
    matchPatternAllWithReader q lang tree
      (alternationPattern (elements.map Element.pattern)) node ≠ [] ↔
      ∃ element ∈ elements, element.MatchesAsBranch q lang tree node := by
  have hAlternatives : (elements.map Element.pattern).filterMap alternativeOf =
      elements.map Element.alternative := by
    rw [filterMap_map, ← filterMap_eq_map]
    refine filterMap_congr fun element _ => ?_
    exact element.alternativeOf_pattern
  have hNonempty : (elements.map Element.alternative).isEmpty = false := by
    rw [isEmpty_eq_false_iff]
    exact fun hNil => hSome (map_eq_nil_iff.mp hNil)
  rw [matchPatternAllWithReader, matchPatternBy, alternationPattern, hAlternatives]
  simp only [head?_cons, Option.map_some, finishMatches_nil]
  rw [matchDepth, matchStepsAllWithReader_succ q lang tree _ [] rfl]
  simp only [matchStepHead, hNonempty, Bool.false_eq_true, if_false, flatMap_map]
  -- the steps a branch keeps are nested less deep
  have hFuel : ∀ element ∈ elements, element.keepsSteps →
      matchDepth tree element.steps node ≤ tree.rank node + stepsNesting
          [{ alternatives :=
            elements.map Element.alternative }] := by
    intro element hElement hKeeps
    have hNesting := stepsNesting_lt_of_alternative (mem_singleton_self
        ({ alternatives := elements.map Element.alternative } : QueryStep))
      (mem_map_of_mem hElement)
    rw [Element.alternative, if_pos hKeeps] at hNesting
    exact Nat.add_lt_add_left hNesting _
  have hTry := fun element hElement =>
    Element.matchBranch_isSome_iff q lang tree element node (hFuel element hElement)
      { alternatives := elements.map Element.alternative }
      rfl
  constructor
  · intro hMatches
    obtain ⟨way, hWay⟩ := exists_mem_of_ne_nil _ hMatches
    rcases mem_flatMap.mp hWay with ⟨found, hFound, _⟩
    rcases mem_flatMap.mp hFound with ⟨element, hElement, hBranch⟩
    split_ifs at hBranch with hFits
    · refine ⟨element, hElement, (Element.isTried_alternative_iff lang tree element node none).mp
        hFits, ?_⟩
      refine (hTry element hElement).mp ?_
      exact Option.isSome_of_mem (Option.mem_toList.mp hBranch)
    · cases hBranch
  · rintro ⟨element, hElement, hFits, hWay⟩
    obtain ⟨found, hFound⟩ := Option.isSome_iff_exists.mp ((hTry element hElement).mpr hWay)
    refine ne_nil_of_mem (mem_flatMap.mpr ⟨found, ?_, mem_singleton_self found⟩)
    refine mem_flatMap.mpr ⟨element, hElement, ?_⟩
    rw [if_pos ((Element.isTried_alternative_iff lang tree element node none).mpr hFits), hFound]
    exact mem_singleton_self found

/-
  An alternation has a match at a node exactly where one of its elements has one, if the elements
  whose heads fit the node are kept whole.
-/
theorem alternation_is_union
    {elements : List Element}
    (hSome : elements ≠ [])
    {node : N}
    (hKept : ∀ element ∈ elements,
      element.FitsRoot lang tree node → element.KeptWhole lang tree node) :
    matchPatternAllWithReader q lang tree
      (alternationPattern (elements.map Element.pattern)) node ≠ [] ↔
      ∃ element ∈ elements, matchPatternAllWithReader q lang tree element.pattern node ≠ [] := by
  rw [alternation_matches_iff q lang tree hSome]
  refine exists_congr fun element => ?_
  refine and_congr_right fun hElement => ?_
  exact Element.matchesAsBranch_iff q lang tree (hKept element hElement)

/- A list with an item in it. -/
def listElement : Element where
  root := { symbol := 1, isNamed := true }
  below := [{ symbol := 2, isNamed := true, depth := 1 }]
  predicates := []
  field_eq := rfl
  quantifier_eq := rfl
  bare := fun hSome => absurd rfl hSome

/- An item by itself. -/
def itemElement : Element where
  root := { symbol := 2, isNamed := true }
  below := []
  predicates := []
  field_eq := rfl
  quantifier_eq := rfl
  bare := fun hSome => absurd rfl hSome

/- An alternation of one item. -/
def itemAlternation : Element where
  root := { alternatives := [.mk { symbol := 2, isNamed := true } [] []] }
  below := []
  predicates := []
  field_eq := rfl
  quantifier_eq := rfl
  bare := fun _ => ⟨rfl, rfl, rfl, rfl⟩

/- A list with an item in it or an item, at every node of a list. -/
theorem alternation_is_union_list :
    (∀ (node : Fin 3), ∀ element ∈ [listElement, itemElement],
      element.FitsRoot listLanguage listTree node →
        element.KeptWhole listLanguage listTree node) ∧
      ∀ node : Fin 3,
        matchPatternAllWithReader { patterns := [], captures := [] } listLanguage listTree
          (alternationPattern ([listElement, itemElement].map Element.pattern)) node ≠ [] ↔
          ∃ element ∈ [listElement, itemElement],
            matchPatternAllWithReader { patterns := [], captures := [] } listLanguage listTree
              element.pattern node ≠ [] := by
  have hKept : ∀ (node : Fin 3), ∀ element ∈ [listElement, itemElement],
      element.FitsRoot listLanguage listTree node →
        element.KeptWhole listLanguage listTree node := by
    intro node element hElement _
    rcases mem_pair.mp hElement with rfl | rfl
    · simp [Element.KeptWhole, listElement]
    · exact .inr ⟨rfl, .inr (.inr rfl)⟩
  refine ⟨hKept, fun node => ?_⟩
  exact alternation_is_union _ _ _ (cons_ne_nil _ _) (hKept node)

/- A nested alternation of items matches a list. -/
theorem nested_alternation_matches_any :
    matchPatternAllWithReader { patterns := [], captures := [] } listLanguage listTree
      (alternationPattern ([itemAlternation].map Element.pattern)) 0 ≠ [] ∧
      ¬ ∃ element ∈ [itemAlternation],
        matchPatternAllWithReader { patterns := [], captures := [] } listLanguage listTree
          element.pattern 0 ≠ [] := by
  decide

end GoTreeSitter.Queries
