import Mathlib.Data.List.Nodup
import GoTreeSitter.Query.Enumerate
import GoTreeSitter.Query.Index

/-
  Plain patterns are matched in every way, once each.

  Main declarations:
    * `Way`
    * `Fits`
    * `matchStepsAllWithReader_plain`
    * `plain_query_matches_exact`

  A way to match a pattern gives every step a node, with the place of the node among its siblings.
  The matcher puts the captures of the ways out in the order of `ways`.
-/

-- Ways to Match

namespace GoTreeSitter.Queries

open List

section

/- A node for each step, below the node of its parent. -/
inductive Way (N : Type) where
  | mk (index : Nat) (node : N) (lower : List (Way N))

namespace Way

variable {N : Type}

def index : Way N → Nat
  | mk index _ _ => index

def node : Way N → N
  | mk _ node _ => node

/- The nodes of the child steps. -/
def lower : Way N → List (Way N)
  | mk _ _ lower => lower

end Way

variable {N : Type}

/- Whether a node is one that a plain pattern asks for. -/
def PlainPattern.accepts (lang : QueryLanguage) (tree : SyntaxTree N) (p : PlainPattern)
    (node : N) : Bool :=
  headMatches lang tree p.head.symbol p.head.isNamed false p.head.textMatch node

mutual

/-
  Every step has a node that it accepts, and the nodes of the
  child steps are children in strictly increasing order.
-/
def Fits (lang : QueryLanguage) (tree : SyntaxTree N) : PlainPattern → Way N → Prop
  | .mk head field captureIDs patterns, way =>
    (PlainPattern.mk head field captureIDs patterns).accepts lang tree way.node = true ∧
      (way.lower.map Way.index).Pairwise (· < ·) ∧ EachFits lang tree patterns way.node way.lower

/- Each child step has a child in the field it asks for. -/
def EachFits (lang : QueryLanguage) (tree : SyntaxTree N) :
    List PlainPattern → N → List (Way N) → Prop
  | [], _, below => below = []
  | p :: rest, parent, below =>
    ∃ (way : Way N) (others : List (Way N)), below = way :: others ∧ (tree.children
        parent)[way.index]? = some way.node ∧ childHasField lang tree parent way.index p.field =
        true ∧ Fits lang tree p way ∧ EachFits lang tree rest parent others

end

mutual

/- The captures of a way, those of a parent first. -/
def wayCaptures (q : Query) : PlainPattern → Way N → List (Capture N)
  | .mk _ _ captureIDs patterns, way =>
    newCaptures q captureIDs way.node ++ wayCapturesBelow q patterns way.lower

def wayCapturesBelow (q : Query) : List PlainPattern → List (Way N) → List (Capture N)
  | [], _ => []
  | p :: rest, below =>
    match below with
    | [] => []
    | way :: others => wayCaptures q p way ++ wayCapturesBelow q rest others

end

mutual

/- The ways to match a pattern at a node. -/
def ways (lang : QueryLanguage) (tree : SyntaxTree N) : PlainPattern → Nat → N → List (Way N)
  | .mk head field captureIDs patterns, index, node =>
    if (PlainPattern.mk head field captureIDs patterns).accepts lang tree node = true then
      (waysBelow lang tree patterns node 0).map (Way.mk index node)
    else []

/- The ways to match child steps from an index on. -/
def waysBelow (lang : QueryLanguage) (tree : SyntaxTree N) :
    List PlainPattern → N → Nat → List (List (Way N))
  | [], _, _ => [[]]
  | p :: rest, parent, next =>
    (List.range' next ((tree.children parent).length - next)).flatMap fun index =>
        match (tree.children parent)[index]? with
        | none => []
        | some child =>
          if childHasField lang tree parent index p.field = true then
            (ways lang tree p index child).flatMap fun way =>
                (waysBelow lang tree rest parent (index + 1)).map (way :: ·)
          else []

end

end

variable (q : Query) (p : PlainPattern) (depth : Nat)

-- Every Way Once

variable {N : Type} {lang : QueryLanguage} {tree : SyntaxTree N} {p : PlainPattern}
  {rest : List PlainPattern}

/- The ways with a child of an index first. -/
lemma mem_choice {parent : N} {index : Nat} {below : List (Way N)} :
    (below ∈ match (tree.children parent)[index]? with
      | none => []
      | some child =>
        if childHasField lang tree parent index p.field = true then
          (ways lang tree p index child).flatMap fun way =>
            (waysBelow lang tree rest parent (index + 1)).map (way :: ·)
        else []) ↔
      ∃ child way others, (tree.children parent)[index]? = some child ∧
        childHasField lang tree parent index p.field ∧ way ∈ ways lang tree p index child ∧
        others ∈ waysBelow lang tree rest parent (index + 1) ∧ below = way :: others := by
  cases (tree.children parent)[index]? with
  | none => simp
  | some child =>
    by_cases hField : childHasField lang tree parent index p.field
    · simp only [hField, if_true, mem_flatMap, mem_map, Option.some.injEq, true_and]
      constructor
      · rintro ⟨way, hWay, others, hOthers, rfl⟩
        exact ⟨child, way, others, rfl, hWay, hOthers, rfl⟩
      · rintro ⟨_, way, others, rfl, hWay, hOthers, rfl⟩
        exact ⟨way, hWay, others, hOthers, rfl⟩
    · simp [hField]

/- A choice of a child and of what follows it. -/
lemma mem_waysBelow_cons
    {parent : N}
    {next : Nat}
    {below : List (Way N)} :
    below ∈ waysBelow lang tree (p :: rest) parent next ↔
      ∃ index child way others,
        next ≤ index ∧ (tree.children parent)[index]? = some child ∧
          childHasField lang tree parent index p.field ∧ way ∈ ways lang tree p index child ∧
          others ∈ waysBelow lang tree rest parent (index + 1) ∧ below = way :: others := by
  simp only [waysBelow, mem_flatMap, mem_choice, mem_range'_1]
  constructor
  · rintro ⟨index, hIndex, child, way, others, hChoice⟩
    exact ⟨index, child, way, others, hIndex.1, hChoice⟩
  rintro ⟨index, child, way, others, hNext, hChoice⟩
  have hLength := (List.getElem?_eq_some_iff.mp hChoice.1).1
  exact ⟨index, by omega, child, way, others, hChoice⟩

mutual

lemma mem_ways_iff :
    ∀ p index node way,
      way ∈ ways lang tree p index node ↔
        way.index = index ∧ way.node = node ∧ Fits lang tree p way
  | .mk head field captureIDs patterns, index, node, way => by
      obtain ⟨i, n, below⟩ := way
      rw [ways, Fits]
      split_ifs with hAccepts
      · rw [mem_map]
        constructor
        · rintro ⟨found, hFound, hEq⟩
          cases hEq
          have hBelow := (mem_waysBelow_iff patterns node 0 below).mp hFound
          exact ⟨rfl, rfl, hAccepts, hBelow.2⟩
        · rintro ⟨rfl, rfl, -, hFits⟩
          refine ⟨below, ?_, rfl⟩
          exact (mem_waysBelow_iff patterns n 0 below).mpr ⟨fun _ _ => Nat.zero_le _, hFits⟩
      · refine ⟨nofun, ?_⟩
        rintro ⟨-, rfl, hHead, -⟩
        exact absurd hHead hAccepts

/- The same for child steps, from an index on. -/
lemma mem_waysBelow_iff :
    ∀ patterns parent next below,
      below ∈ waysBelow lang tree patterns parent next ↔
        (∀ way ∈ below, next ≤ way.index) ∧ (below.map Way.index).Pairwise (· < ·) ∧
          EachFits lang tree patterns parent below
  | [], parent, next, below => by
      rw [waysBelow, EachFits, mem_singleton]
      refine ⟨?_, fun h => h.2.2⟩
      rintro rfl
      exact ⟨nofun, .nil, rfl⟩
  | p :: rest, parent, next, below => by
      rw [mem_waysBelow_cons, EachFits]
      constructor
      · rintro ⟨index, child, way, others, hNext, hChild, hField, hWay, hOthers, rfl⟩
        rcases (mem_ways_iff p index child way).mp hWay with ⟨rfl, rfl, hFits⟩
        rcases (mem_waysBelow_iff rest parent _ others).mp hOthers with ⟨hAfter, hSorted, hEach⟩
        refine ⟨?_, ?_, way, others, rfl, hChild, hField, hFits, hEach⟩
        · rw [forall_mem_cons]
          refine ⟨hNext, ?_⟩
          intro other hOther
          have hLt := hAfter other hOther
          omega
        rw [map_cons, pairwise_cons]
        refine ⟨?_, hSorted⟩
        intro i hi
        rcases mem_map.mp hi with ⟨other, hOther, rfl⟩
        exact hAfter other hOther
      · rintro ⟨hFrom, hSorted, way, others, rfl, hChild, hField, hFits, hEach⟩
        rw [map_cons, pairwise_cons] at hSorted
        refine ⟨way.index, way.node, way, others, hFrom way mem_cons_self, hChild, hField, ?_,
          ?_, rfl⟩
        · exact (mem_ways_iff p _ _ way).mpr ⟨rfl, rfl, hFits⟩
        refine (mem_waysBelow_iff rest parent _ others).mpr ⟨?_, hSorted.2, hEach⟩
        intro other hOther
        exact hSorted.1 _ (mem_map_of_mem hOther)

end

mutual

/- No way comes twice. -/
lemma ways_nodup : ∀ p index node, (ways lang tree p index node).Nodup
  | .mk head field captureIDs patterns, index, node => by
      rw [ways]
      split
      · refine (waysBelow_nodup patterns node 0).map ?_
        intro below other hEq
        cases hEq
        rfl
      · exact nodup_nil

lemma waysBelow_nodup : ∀ patterns parent next, (waysBelow lang tree patterns parent next).Nodup
  | [], parent, next => by
      rw [waysBelow]
      exact nodup_singleton []
  | p :: rest, parent, next => by
      rw [waysBelow, nodup_flatMap]
      constructor
      · intro index _
        cases (tree.children parent)[index]? with
        | none => exact nodup_nil
        | some child =>
          simp only
          split
          · rw [nodup_flatMap]
            constructor
            · exact fun way _ => (waysBelow_nodup rest parent _).map cons_injective
            refine (ways_nodup p index child).imp ?_
            intro way other hNe below hWay hOther
            rcases mem_map.mp hWay with ⟨_, -, rfl⟩
            rcases mem_map.mp hOther with ⟨_, -, hEq⟩
            cases hEq
            exact hNe rfl
          · exact nodup_nil
      · refine List.Pairwise.imp ?_ (nodup_range' (s := next)
            (n := (tree.children parent).length - next))
        intro index other hNe
        refine disjoint_left.mpr ?_
        intro below hHere hThere
        refine hNe ?_
        obtain ⟨_, way, _, -, -, hWay, -, rfl⟩ := mem_choice.mp hHere
        obtain ⟨_, _, _, -, -, hWay', -, hEq⟩ := mem_choice.mp hThere
        cases hEq
        rw [← ((mem_ways_iff _ _ _ way).mp hWay).1, ((mem_ways_iff _ _ _ way).mp hWay').1]

end

-- Steps in Preorder

lemma plainSteps_eq (p : PlainPattern) :
    plainSteps depth p = p.step depth :: plainStepsAll (depth + 1) p.children := by
  cases p
  rw [plainSteps]
  rfl

mutual

lemma mem_plainSteps :
    ∀ depth p, ∀ step ∈ plainSteps depth p, depth ≤ step.depth ∧ step.quantifier = .one
  | depth, .mk head field captureIDs patterns => by
      rw [plainSteps, forall_mem_cons]
      refine ⟨⟨Nat.le_refl _, rfl⟩, ?_⟩
      intro step hStep
      have hBelow := mem_plainStepsAll (depth + 1) patterns step hStep
      exact ⟨by omega, hBelow.2⟩

lemma mem_plainStepsAll :
    ∀ depth patterns, ∀ step ∈ plainStepsAll depth patterns,
      depth ≤ step.depth ∧ step.quantifier = .one
  | depth, [] => by
      rw [plainStepsAll]
      exact nofun
  | depth, p :: rest => by
      rw [plainStepsAll, forall_mem_append]
      exact ⟨mem_plainSteps depth p, mem_plainStepsAll depth rest⟩

end

/- The steps of child patterns, with their places. -/
def childEntries : Nat → List PlainPattern → List (QueryStep × Nat)
  | _, [] => []
  | offset, p :: rest =>
    (p.step depth, offset) :: childEntries (offset + (plainSteps depth p).length) rest

lemma filter_plainStepsAll (offset : Nat) (patterns : List PlainPattern) :
    ((plainStepsAll depth patterns).zipIdx offset).filter
      (fun entry => decide (entry.1.depth = depth)) =
      childEntries depth offset patterns := by
  induction patterns generalizing offset with
  | nil =>
    rw [plainStepsAll]
    rfl
  | cons p rest ih =>
    have hBelow : (((plainStepsAll (depth + 1) p.children).zipIdx (offset + 1)).filter fun entry =>
        decide (entry.1.depth = depth)) = [] := by
      rw [filter_eq_nil_iff]
      rintro ⟨step, index⟩ hEntry
      have hStep := fst_mem_of_mem_zipIdx hEntry
      have hLe := mem_plainStepsAll (depth + 1) p.children step hStep
      rw [decide_eq_true_eq]
      simp only
      omega
    have hRoot : (p.step depth).depth = depth := rfl
    rw [plainStepsAll, zipIdx_append, filter_append, ih, childEntries]
    rw [plainSteps_eq, zipIdx_cons, filter_cons]
    simp only [hRoot, decide_true, if_true, hBelow]
    rfl

/- What follows a pattern does not lie below it. -/
def EndsAt (after : List QueryStep) : Prop := ∀ step ∈ after.head?, step.depth ≤ depth

variable {depth : Nat} {steps before after : List QueryStep}

lemma childStepsOf_plain (hSteps : steps = before ++ (plainSteps depth p ++ after))
    (hAfter : EndsAt depth after) :
    childStepsOf steps before.length depth =
      childEntries (depth + 1) (before.length + 1) p.children := by
  have hSplit : steps =
      (before ++ [p.step depth]) ++ (plainStepsAll (depth + 1) p.children ++ after) := by
    rw [hSteps, plainSteps_eq]
    simp
  have hDrop : steps.zipIdx.drop (before.length + 1) =
      (plainStepsAll (depth + 1) p.children ++ after).zipIdx (before.length + 1) := by
    rw [hSplit, zipIdx_append, drop_left' (by simp)]
    simp
  have hBelow : ∀ entry ∈ (plainStepsAll (depth + 1) p.children).zipIdx (before.length + 1),
      decide (depth < entry.1.depth) := by
    rintro ⟨step, index⟩ hEntry
    have hLe := mem_plainStepsAll (depth + 1) p.children step (fst_mem_of_mem_zipIdx hEntry)
    exact decide_eq_true hLe.1
  have hStop : ∀ offset,
      (after.zipIdx offset).takeWhile (fun entry => decide (depth < entry.1.depth)) = [] := by
    intro offset
    cases after with
    | nil => rfl
    | cons step rest =>
      have hLe := hAfter step rfl
      rw [zipIdx_cons, takeWhile_cons_of_neg]
      simpa using hLe
  rw [childStepsOf, hDrop, zipIdx_append, takeWhile_append_of_pos hBelow, hStop,
    append_nil, filter_plainStepsAll]

-- Matching Plain Patterns

variable {N : Type}

section

variable (lang : QueryLanguage) (tree : SyntaxTree N)

lemma nodeCanMatchStepShallow_plain (node : N) :
    nodeCanMatchStepShallow lang tree (p.step depth) node = p.accepts lang tree node := rfl

lemma nodeMatchesStep_plain (node : N) :
    nodeMatchesStep lang tree (p.step depth) node = p.accepts lang tree node := by
  have hAbsent : absentFieldsSatisfied lang tree (p.step depth) node = true := rfl
  rw [nodeMatchesStep, hAbsent, Bool.or_true, Bool.and_true, nodeCanMatchStepShallow_plain]

lemma collectChildCandidates_plain (parent : N) (p : PlainPattern) (depth next : Nat) :
    (collectChildCandidates lang tree parent (p.step depth) next).getD [] =
      (List.range' next ((tree.children parent).length - next)).filter fun index =>
        (match (tree.children parent)[index]? with
          | none => false
          | some child => p.accepts lang tree child) &&
          childHasField lang tree parent index p.field := by
  have hContiguous : stepUsesContiguousRun (p.step depth) = false := rfl
  rw [collectChildCandidates]
  split_ifs with hNone
  · have hField : ∀ index, childHasField lang tree parent index p.field = false := by
      intro index
      have hEq : (p.step depth).field = p.field := rfl
      rw [hEq] at hNone
      simp [childHasField, hNone.1, hNone.2]
    simp [hField]
  · rw [hContiguous, Option.getD_some, collectMatching_eq_filter]
    rfl

end

variable {lang : QueryLanguage}

lemma ways_of_not_accepts {tree : SyntaxTree N} {node : N}
    (hNot : p.accepts lang tree node = false) (index : Nat) :
    ways lang tree p index node = [] := by
  cases p
  rw [ways, hNot]
  rfl

lemma ways_of_accepts {tree : SyntaxTree N} {node : N} (hAccepts : p.accepts lang tree node)
    (index : Nat) :
    ways lang tree p index node =
      (waysBelow lang tree p.children node 0).map (Way.mk index node) := by
  cases p
  rw [ways, if_pos hAccepts]
  rfl

/- What follows the steps of one child pattern. -/
lemma endsAt_append {after : List QueryStep} (hAfter : EndsAt depth after)
    (patterns : List PlainPattern) :
    EndsAt depth (plainStepsAll depth patterns ++ after) := by
  cases patterns with
  | nil =>
    rw [plainStepsAll]
    exact hAfter
  | cons p rest =>
    rw [plainStepsAll, plainSteps_eq]
    intro step hStep
    cases hStep
    exact le_rfl

/- The ways to match the first child step at one child. -/
lemma map_wayCapturesBelow
    (captures : List (Capture N))
    (found : List (Way N))
    (more : List (List (Way N))) :
    ((found.flatMap fun way => more.map (way :: ·)).map fun below =>
      captures ++ wayCapturesBelow q (p :: rest) below) =
      (found.map fun way => captures ++ wayCaptures q p way).flatMap fun current =>
        more.map fun others => current ++ wayCapturesBelow q rest others := by
  rw [map_flatMap, flatMap_map]
  refine flatMap_congr ?_
  intro way _
  rw [map_map]
  refine map_congr_left ?_
  intro others _
  rw [Function.comp_apply, wayCapturesBelow, append_assoc]

variable {patterns : List PlainPattern}

/- Child steps are matched in every way, in order. -/
lemma matchChildSteps_plain
    (lang : QueryLanguage)
    (tree : SyntaxTree N)
    (parent : N)
    {tryChild : Nat → Nat → List (Capture N) → List (List (Capture N))}
    {steps : List QueryStep}
    (hTry : ∀ p before after,
      steps = before ++ (plainSteps depth p ++ after) → EndsAt depth after →
        ∀ index child captures,
          (tree.children parent)[index]? = some child →
            tryChild before.length index captures =
              (ways lang tree p index child).map fun way => captures ++ wayCaptures q p way)
    {before after : List QueryStep}
    (hSteps : steps = before ++ (plainStepsAll depth patterns ++ after))
    (hAfter : EndsAt depth after)
    (childPos next : Nat)
    (previous : Option Nat)
    (captures : List (Capture N)) :
    matchChildSteps lang tree parent tryChild (childEntries depth before.length patterns)
      childPos next previous captures =
      (waysBelow lang tree patterns parent next).map fun below =>
        captures ++ wayCapturesBelow q patterns below := by
  induction patterns generalizing before childPos next previous captures with
  | nil =>
    rw [childEntries, matchChildSteps, waysBelow]
    simp [wayCapturesBelow]
  | cons p rest ih =>
    have hFirst : steps = before ++ (plainSteps depth p ++ (plainStepsAll depth rest ++ after)) :=
        by rw [hSteps, plainStepsAll, append_assoc]
    have hRest : steps = (before ++ plainSteps depth p) ++ (plainStepsAll depth rest ++ after) := by
      rw [hFirst, append_assoc]
    have hOne : (p.step depth).quantifier = .one := rfl
    rw [childEntries, matchChildSteps_one lang tree parent tryChild hOne,
      collectChildCandidates_plain, Traversal.flatMap_filter, waysBelow, map_flatMap]
    refine flatMap_congr ?_
    intro index hIndex
    rw [mem_range'_1] at hIndex
    cases hChild : (tree.children parent)[index]? with
    | none => simp
    | some child =>
      have hFound := hTry p before _ hFirst (endsAt_append hAfter rest) index child captures hChild
      have hMax : max next (index + 1) = index + 1 := by omega
      cases hField : childHasField lang tree parent index p.field with
      | false => simp
      | true =>
        cases hAccepts : p.accepts lang tree child with
        | false => simp [hAccepts, ways_of_not_accepts hAccepts]
        | true =>
          have hAnchors : ∀ span,
              stepAnchorsSatisfied (p.step depth) childPos span previous
                (lastNamedPosition tree parent) =
                true := fun _ => rfl
          simp only [hAccepts, Bool.and_self, if_true, hFound, hAnchors,
            Bool.true_eq_false, if_false, hMax]
          rw [map_wayCapturesBelow]
          refine flatMap_congr ?_
          intro current _
          have hLater := ih hRest (childPos + 1) (index + 1) (NamedSpan.lastAfter
            (NamedSpan.withNamedPosition none (namedPosition tree parent index)) previous) current
          rw [length_append] at hLater
          exact hLater

variable [DecidableEq N]

/- Matching the steps of a plain pattern among other steps finds its ways. -/
lemma matchStepsAllWithReader_plain
    (lang : QueryLanguage)
    (tree : SyntaxTree N)
    {fuel : Nat}
    {node : N}
    (hFuel : tree.rank node < fuel)
    (hSteps : steps = before ++ (plainSteps depth p ++ after))
    (hAfter : EndsAt depth after)
    (index : Nat)
    (place : Option (N × Nat))
    (captures : List (Capture N)) :
    matchStepsAllWithReader q lang tree fuel [] steps before.length node place captures =
      (ways lang tree p index node).map fun way => captures ++ wayCaptures q p way := by
  induction fuel generalizing before after depth p node index place captures with
  | zero => exact absurd hFuel (Nat.not_lt_zero _)
  | succ fuel ih =>
    have hStep : steps[before.length]? = some (p.step depth) := by
      rw [hSteps, plainSteps_eq]
      simp
    have hHead : ∀ branch,
        matchStepHead q lang tree branch [] (p.step depth) node place captures =
          if p.accepts lang tree node = true then
            [captures ++ newCaptures q p.captureIDs node]
          else [] := by
      intro branch
      rw [matchStepHead, nodeMatchesStep_plain]
      rfl
    have hTry : ∀ child first last,
        steps = first ++ (plainSteps (depth + 1) child ++ last) →
          EndsAt (depth + 1) last → ∀ i below current,
              (tree.children node)[i]? = some below → (match (tree.children node)[i]? with
                  | none => []
                  | some child =>
                    matchStepsAllWithReader q lang tree fuel [] steps first.length child
                      (some (node, i)) current) =
                  (ways lang tree child i below).map fun way =>
                      current ++ wayCaptures q child way := by
      intro child first last hChild hLast i below current hBelow
      have hRank := tree.rank_lt (mem_of_getElem? hBelow)
      rw [hBelow]
      exact ih (by omega) hChild hLast i _ current
    rw [matchStepsAllWithReader, matchStepBody]
    simp only [hStep, hHead]
    cases hAccepts : p.accepts lang tree node with
    | false =>
      rw [ways_of_not_accepts hAccepts]
      rfl
    | true =>
      have hBelow : steps =
          (before ++ [p.step depth]) ++ (plainStepsAll (depth + 1) p.children ++ after) := by
        rw [hSteps, plainSteps_eq]
        simp
      have hLast : EndsAt (depth + 1) after := by
        intro step hStep
        have hLe := hAfter step hStep
        omega
      have hEntries : childStepsOf steps before.length (p.step depth).depth =
          childEntries (depth + 1) (before ++ [p.step depth]).length p.children := by
        rw [length_append]
        exact childStepsOf_plain hSteps hAfter
      rw [if_pos rfl, flatMap_cons, flatMap_nil, append_nil, hEntries]
      rw [matchChildSteps_plain q lang tree node hTry hBelow hLast, ways_of_accepts hAccepts,
        map_map]
      refine map_congr_left ?_
      intro below _
      cases p
      rw [Function.comp_apply, wayCaptures, append_assoc]
      rfl

-- Plain Queries

lemma not_postorder_plain :
    patternHasPostorderChildRepetition { steps := plainSteps 0 p } = false := by
  rw [patternHasPostorderChildRepetition, any_eq_false]
  intro step hStep
  have hOne := (mem_plainSteps 0 p step (mem_of_mem_tail hStep)).2
  simp [hOne]

lemma hasPostorderPatterns_plain (patterns : List PlainPattern) (captures : List String) :
    hasPostorderPatterns (plainQuery patterns captures) = false := by
  rw [hasPostorderPatterns_eq_false_iff]
  intro pat hPat step hStep
  rcases mem_map.mp hPat with ⟨p, -, rfl⟩
  rw [plainSteps_eq] at hStep
  rw [← Option.some.inj hStep, hasTurn, if_pos rfl, isPostorder, not_postorder_plain,
    Bool.and_false]
  rfl

variable {N : Type} [DecidableEq N]

lemma matchPatternAllWithReader_plain (lang : QueryLanguage) (tree : SyntaxTree N)
    (p : PlainPattern) (node : N) :
    matchPatternAllWithReader q lang tree { steps := plainSteps 0 p } node =
      (ways lang tree p 0 node).map (wayCaptures q p) := by
  have hFuel : tree.rank node < matchDepth tree (plainSteps 0 p) node := by
    rw [matchDepth]
    omega
  have hSteps : plainSteps 0 p = [] ++ (plainSteps 0 p ++ []) := by
    rw [append_nil, nil_append]
  have hEnd : EndsAt 0 [] := by simp [EndsAt]
  have hFound := matchStepsAllWithReader_plain q lang tree hFuel hSteps hEnd 0 none []
  have hQuantifier : (plainSteps 0 p).head?.map Step.quantifier = some .one := by
    rw [plainSteps_eq]
    rfl
  simp only [length_nil, nil_append] at hFound
  rw [matchPatternAllWithReader, matchPatternBy, hQuantifier]
  change finishMatches lang tree [] _ = _
  rw [finishMatches_nil, hFound]

/- The nodes of a tree, each before its children. -/
def nodeWalk (tree : SyntaxTree N) : Traversal.System N where
  next := tree.children
  rank := tree.rank
  rank_lt := tree.rank_lt

/- A walk without later visits goes over the nodes. -/
omit [DecidableEq N] in
lemma flatMap_order_walk {β : Type} {q : Query} {tree : SyntaxTree N}
    (hNoPost : hasPostorderPatterns q = false) {out : WorkItem N → List β} {outAt : N → List β}
    (hOut : ∀ item, item.post = false → out item = outAt item.node) {item : WorkItem N}
    (hPre : item.post = false) :
    ((walk q tree).order item).flatMap out = ((nodeWalk tree).order item.node).flatMap outAt := by
  induction item using (walk q tree).induct with
  | hStep item ih =>
    have hNext : (walk q tree).next item = childItems tree item.node := by
      change nextItems q tree item = _
      rw [nextItems, hPre, hNoPost]
      exact append_nil _
    have hNodes : (childItems tree item.node).map WorkItem.node = tree.children item.node := by
      rw [childItems, map_map]
      exact zipIdx_map_fst 0 _
    have hChildren :
        (nodeWalk tree).next item.node = (childItems tree item.node).map WorkItem.node :=
      hNodes.symm
    rw [Traversal.System.order_eq, Traversal.System.order_eq, flatMap_cons, flatMap_cons,
      hOut item hPre, hChildren, flatMap_map, flatMap_assoc, flatMap_assoc, hNext]
    congr 1
    refine flatMap_congr ?_
    intro child hChild
    rw [hNext] at ih
    refine ih child hChild ?_
    rcases mem_map.mp hChild with ⟨entry, -, rfl⟩
    rfl

/- The matches at a node are the ways of all patterns. -/
lemma itemOutputsBy_plain {tree : SyntaxTree N} {captures : List String}
    (hRoots : ∀ p ∈ patterns, lang.IsCanonical p.head.symbol p.head.isNamed)
    {item : WorkItem N} (hPre : item.post = false) :
    itemOutputsBy (plainQuery patterns captures) lang tree
      (matchStepsAllWithReader (plainQuery patterns captures) lang tree) item =
      patterns.zipIdx.flatMap fun entry =>
        (ways lang tree entry.1 0 item.node).map fun way =>
          { patternIndex := entry.2
            captures := wayCaptures (plainQuery patterns captures) entry.1 way } := by
  have hMatches : ∀ p i, patterns[i]? = some p →
      itemMatchesBy (plainQuery patterns captures) lang tree
        (matchStepsAllWithReader (plainQuery patterns captures) lang tree) item i =
        (ways lang tree p 0 item.node).map fun way =>
          { patternIndex := i
            captures := wayCaptures (plainQuery patterns captures) p way } := by
    intro p i hp
    have hPattern : (plainQuery patterns captures).patterns[i]? =
        some { steps := plainSteps 0 p } := by
      rw [plainQuery, getElem?_map, hp]
      rfl
    have hEnabled : isPatternDisabled (plainQuery patterns captures) i = false := rfl
    have hFound := matchPatternAllWithReader_plain
      (plainQuery patterns captures) lang tree p item.node
    rw [matchPatternAllWithReader] at hFound
    simp only [itemMatchesBy, hEnabled, hPattern, hPre, Bool.false_and, Bool.false_eq_true,
      if_false, hFound, map_map]
    rfl
  have hCanonical : ∀ pat ∈ (plainQuery patterns captures).patterns, ∀ step ∈ pat.steps.head?,
      Step.Canonical lang step := by
    intro pat hPat step hStep
    rcases mem_map.mp hPat with ⟨p, hp, rfl⟩
    rw [plainSteps_eq] at hStep
    rw [← Option.some.inj hStep]
    exact ⟨hRoots p hp, fun _ hAlt => absurd hAlt not_mem_nil⟩
  have hTurns : patternsWhere (plainQuery patterns captures) (hasTurn false) =
      patterns.zipIdx.map Prod.snd := by
    rw [patternsWhere, plainQuery, filter_eq_self.mpr, zipIdx_map_snd, zipIdx_map_snd, length_map]
    rintro ⟨pat, i⟩ hEntry
    rcases mem_map.mp (mem_of_getElem? (mk_mem_zipIdx_iff_getElem?.mp hEntry)) with ⟨p, -, rfl⟩
    simp only [plainSteps_eq]
    rw [← plainSteps_eq, hasTurn, isPreorder, not_postorder_plain]
    rfl
  rw [itemOutputsBy_eq_everyMatch (fun _ => ⟨_, _, rfl⟩) hCanonical, everyMatch, hPre, hTurns,
    flatMap_map]
  refine flatMap_congr ?_
  rintro ⟨p, i⟩ hEntry
  exact hMatches p i (mk_mem_zipIdx_iff_getElem?.mp hEntry)

/-
  A query of plain patterns returns, node by node and pattern by pattern, one match for each way to
  match, with the captures in the order of the steps.
-/
theorem plain_query_matches_exact
    (lang : QueryLanguage)
    (hError : lang.symbolNames.length ≤ errorSymbol)
    (tree : SyntaxTree N)
    (root : N)
    (patterns : List PlainPattern)
    (captures : List String)
    (hResolve : ∀ p ∈ patterns, ∃ test : NodeTest, test.resolve lang = some p.head) :
    ∃ found : PlainPattern → N → List (Way N),
      (∀ (p : PlainPattern) (node : N), (found p node).Nodup ∧
        ∀ way : Way N, way ∈ found p node ↔
          way.index = 0 ∧ way.node = node ∧ Fits lang tree p way) ∧
      executeQueryWithReader (plainQuery patterns captures) lang tree root =
        ((nodeWalk tree).order root).flatMap fun node =>
          patterns.zipIdx.flatMap fun entry =>
            (found entry.1 node).map fun way =>
              { patternIndex := entry.2
                captures := wayCaptures (plainQuery patterns captures) entry.1 way } := by
  refine ⟨fun p node => ways lang tree p 0 node, ?_, ?_⟩
  · intro p node
    exact ⟨ways_nodup p 0 node, mem_ways_iff p 0 node⟩
  have hRoots : ∀ p ∈ patterns, lang.IsCanonical p.head.symbol p.head.isNamed := by
    intro p hp
    rcases hResolve p hp with ⟨test, hTest⟩
    exact canonical_of_resolve hError hTest
  have hRoot : (rootItem root).post = false := rfl
  rw [executeQueryWithReader_eq]
  exact flatMap_order_walk (hasPostorderPatterns_plain patterns captures)
    (fun _ hPre => itemOutputsBy_plain hRoots hPre) hRoot

/- Lists with an item in them. -/
def listWithItem : PlainPattern := .mk { symbol := 1, isNamed := true } 0 []
    [.mk { symbol := 2, isNamed := true } 0 [0] []]

/- A list of two items is matched twice. -/
theorem plain_query_matches_exact_list :
    (∃ found : PlainPattern → Fin 3 → List (Way (Fin 3)),
      (∀ (p : PlainPattern) (node : Fin 3), (found p node).Nodup ∧
        ∀ way : Way (Fin 3), way ∈ found p node ↔
          way.index = 0 ∧ way.node = node ∧ Fits listLanguage listTree p way) ∧
      executeQueryWithReader (plainQuery [listWithItem] ["found"]) listLanguage listTree 0 =
        ((nodeWalk listTree).order 0).flatMap fun node =>
          [listWithItem].zipIdx.flatMap fun entry =>
            (found entry.1 node).map fun way =>
              { patternIndex := entry.2
                captures := wayCaptures (plainQuery [listWithItem] ["found"]) entry.1 way }) ∧
      executeQueryWithReader (plainQuery [listWithItem] ["found"]) listLanguage listTree 0 =
        [⟨0, [⟨"found", 1, ""⟩]⟩, ⟨0, [⟨"found", 2, ""⟩]⟩] := by
  refine ⟨plain_query_matches_exact listLanguage (by decide)
    listTree 0 [listWithItem] ["found"] ?_, by decide⟩
  intro p hp
  rcases mem_singleton.mp hp with rfl
  exact ⟨.type "list", rfl⟩

end GoTreeSitter.Queries
