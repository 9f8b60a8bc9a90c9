import GoTreeSitter.Grammargen.SweepCorrect
import GoTreeSitter.Pool.Intern

/-
  The subset construction finds all sets, and ends.

  Main declarations:
    * `IsSubset`
    * `RowRight`
    * `expandAll_explored`
    * `subsetConstruction_explored`

  Every set is a sorted list of states of the first automaton, so that there are finitely many. A
  set that is expanded has the right transitions, and a set that is not is on the worklist.
-/

-- Closures

namespace GoTreeSitter.Grammargen

open List

open Automata

variable {n : Nfa}

lemma mem_transitions {q : Nat} {t : NfaTransition} :
    t ∈ n.transitions q ↔ ∃ state, n.states[q]? = some state ∧ t ∈ state.transitions := by
  unfold Nfa.transitions
  cases n.states[q]? with
  | none =>
    refine ⟨fun h => ?_, ?_⟩
    · cases h
    · simp
  | some state =>
    rw [Option.getD_some]
    refine ⟨fun h => ⟨state, rfl, h⟩, ?_⟩
    rintro ⟨other, hOther, ht⟩
    cases hOther
    exact ht

lemma nextState_mem_targets {q : Nat} {t : NfaTransition} (ht : t ∈ n.transitions q) :
    t.nextState ∈ n.targets := by
  rcases mem_transitions.mp ht with ⟨state, hState, hIn⟩
  exact mem_flatMap.mpr ⟨state, mem_of_getElem? hState, mem_map_of_mem hIn⟩

lemma mem_epsilonTargets {q y : Nat} : y ∈ n.epsilonTargets q ↔ y ∈ nfaEdges n.states q none := by
  unfold Nfa.epsilonTargets nfaEdges
  rw [mem_map]
  constructor
  · rintro ⟨t, ht, rfl⟩
    rw [mem_filter, mem_transitions] at ht
    rcases ht with ⟨⟨state, hState, hIn⟩, hEps⟩
    exact ⟨state, hState, t, hIn, hEps, rfl⟩
  rintro ⟨state, hState, t, hIn, hEps, rfl⟩
  refine ⟨t, ?_, rfl⟩
  rw [mem_filter, mem_transitions]
  exact ⟨⟨state, hState, hIn⟩, hEps⟩

lemma reaches_iff_reads {p q : Nat} :
    Graph.Reaches n.epsilonTargets p q ↔ Reads (nfaEdges n.states) p [] q := by
  rw [reads_nil_iff]
  unfold Graph.Reaches
  have hSame : (fun m k => k ∈ n.epsilonTargets m) = (fun m k => k ∈ nfaEdges n.states m none) := by
    funext m k
    exact propext mem_epsilonTargets
  rw [hSame]

/- A sorted list of states that is not empty. -/
structure IsSubset (n : Nfa) (states : List Nat) : Prop where
  nonempty : states ≠ []
  sorted : states.Pairwise (· < ·)
  within : ∀ q ∈ states, q ∈ n.start :: n.targets

lemma epsilonClosure_spec (n : Nfa) (seeds : List Nat) :
    (epsilonClosure n seeds).Pairwise (· < ·) ∧
      ∀ q, q ∈ epsilonClosure n seeds ↔ ∃ p ∈ seeds, Reads (nfaEdges n.states) p [] q := by
  have hAll : ∀ m ∈ (seeds ++ n.targets).toFinset, ∀ k ∈ n.epsilonTargets m,
      k ∈ (seeds ++ n.targets).toFinset := by
    intro m _ k hk
    rcases mem_map.mp hk with ⟨t, ht, rfl⟩
    rw [mem_toFinset]
    exact mem_append_right _ (nextState_mem_targets (mem_filter.mp ht).1)
  have hFuel : (seeds ++ n.targets).toFinset.card ≤ seeds.length + n.targets.length := by
    rw [← length_append]
    exact toFinset_card_le _
  rcases Graph.mem_flood_iff hAll (fun m hm => mem_toFinset.mpr (mem_append_left _ hm)) hFuel with
    ⟨hNodup, hMem⟩
  unfold epsilonClosure
  generalize Graph.flood n.epsilonTargets _ (Graph.markAll seeds ([], [])) = found at hNodup hMem
  constructor
  · have hSorted := pairwise_insertionSort (· ≤ ·) found
    have hNodup' : (found.insertionSort (· ≤ ·)).Nodup :=
      (perm_insertionSort (· ≤ ·) found).nodup_iff.mpr hNodup
    exact (hSorted.and hNodup').imp fun h => lt_of_le_of_ne h.1 h.2
  intro q
  rw [mem_insertionSort, hMem]
  constructor
  · rintro ⟨p, hp, hWay⟩
    exact ⟨p, hp, reaches_iff_reads.mp hWay⟩
  · rintro ⟨p, hp, hWay⟩
    exact ⟨p, hp, reaches_iff_reads.mpr hWay⟩

lemma epsilonClosure_ne_nil {seeds : List Nat} (hSome : seeds ≠ []) :
    epsilonClosure n seeds ≠ [] := by
  rcases exists_mem_of_ne_nil seeds hSome with ⟨q, hq⟩
  have hMem : q ∈ epsilonClosure n seeds := ((epsilonClosure_spec n seeds).2 q).mpr ⟨q, hq, .done q⟩
  exact ne_nil_of_mem hMem

/- What is reached is a seed or a target. -/
lemma isSubset_epsilonClosure {seeds : List Nat} (hSome : seeds ≠ [])
    (hSeeds : ∀ q ∈ seeds, q ∈ n.start :: n.targets) :
    IsSubset n (epsilonClosure n seeds) := by
  rcases epsilonClosure_spec n seeds with ⟨hSorted, hMem⟩
  refine ⟨epsilonClosure_ne_nil hSome, hSorted, ?_⟩
  intro q hq
  rcases (hMem q).mp hq with ⟨p, hp, hReads⟩
  rw [← reaches_iff_reads] at hReads
  rcases Relation.ReflTransGen.cases_tail hReads with rfl | ⟨m, _, hEdge⟩
  · exact hSeeds q hp
  · rcases mem_map.mp hEdge with ⟨t, ht, rfl⟩
    exact mem_cons_of_mem _ (nextState_mem_targets (mem_filter.mp ht).1)

/- There are only so many sets. -/
lemma length_le_of_subsets {sets : List (List Nat)} (hNodup : sets.Nodup)
    (hSubsets : ∀ S ∈ sets, IsSubset n S) :
    sets.length ≤ 2 ^ (n.targets.length + 1) := by
  have hInj : ∀ S ∈ sets, ∀ T ∈ sets, S.toFinset = T.toFinset → S = T := by
    intro S hS T hT hSame
    have hPerm : S.Perm T := perm_of_nodup_nodup_toFinset_eq ((hSubsets S hS).sorted.imp
        ne_of_lt) ((hSubsets T hT).sorted.imp ne_of_lt) hSame
    exact hPerm.eq_of_pairwise (fun a b _ _ hab hba => absurd hba (lt_asymm hab)) (hSubsets S
      hS).sorted (hSubsets T hT).sorted
  have hMapped : (sets.map List.toFinset).Nodup := List.Nodup.map_on hInj hNodup
  have hIn : (sets.map List.toFinset).toFinset ⊆ (n.start :: n.targets).toFinset.powerset := by
    intro F hF
    rw [mem_toFinset, mem_map] at hF
    rcases hF with ⟨S, hS, rfl⟩
    rw [Finset.mem_powerset]
    intro q hq
    exact mem_toFinset.mpr ((hSubsets S hS).within q (mem_toFinset.mp hq))
  calc sets.length = (sets.map List.toFinset).toFinset.card := by
        rw [toFinset_card_of_nodup hMapped, length_map]
    _ ≤ (n.start :: n.targets).toFinset.powerset.card := Finset.card_le_card hIn
    _ = 2 ^ (n.start :: n.targets).toFinset.card := Finset.card_powerset _
    _ ≤ 2 ^ (n.targets.length + 1) := Nat.pow_le_pow_right (by decide)
          (toFinset_card_le _)

-- Sets Found

variable {s s' : Subsets} {id : Nat} {S : List Nat}

/- Every set has a state that accepts what it should. -/
structure Known (n : Nfa) (s : Subsets) : Prop where
  first : s.stateSets[0]? = some (epsilonClosure n [n.start])
  nodup : s.stateSets.Nodup
  subsets : ∀ S ∈ s.stateSets, IsSubset n S
  length : s.dfaStates.length = s.stateSets.length
  accepts : ∀ (i : Nat) (S : List Nat) (state : DfaState), s.stateSets[i]? = some S →
      s.dfaStates[i]? = some state → state.accept = (newDfaState n S).accept ∧ state.acceptPriority
      = (newDfaState n S).acceptPriority

/- The sets from a number on are still to be expanded. -/
def Pending (s : Subsets) (k : Nat) : Prop := s.worklist = (s.stateSets.zipIdx.drop k).map Prod.swap

/- New sets are at the end, without transitions. -/
structure MoreSets (s s' : Subsets) : Prop where
  front : s.stateSets <+: s'.stateSets
  same : ∀ i : Nat, i < s.dfaStates.length → s'.dfaStates[i]? = s.dfaStates[i]?
  new : ∀ (i : Nat) (state : DfaState), s.dfaStates.length ≤ i →
      s'.dfaStates[i]? = some state → state.transitions = []
  pending : ∀ k : Nat, k ≤ s.stateSets.length → Pending s k → Pending s' k

lemma transitions_newDfaState (n : Nfa) (S : List Nat) : (newDfaState n S).transitions = [] := by
  unfold newDfaState
  cases bestAccept n S with
  | none => rfl
  | some best => rfl

lemma addDfaState_spec (hKnown : Known n s) (hS : IsSubset n S) :
    Known n (addDfaState n S s).2 ∧
      (addDfaState n S s).2.stateSets[(addDfaState n S s).1]? = some S ∧
      MoreSets s (addDfaState n S s).2 := by
  unfold addDfaState
  cases hFind : s.stateSets.idxOf? S with
  | some i =>
    rcases idxOf?_eq_some_iff.mp hFind with ⟨hLt, hAt, _⟩
    refine ⟨hKnown, List.getElem?_eq_some_iff.mpr ⟨hLt, hAt⟩, List.prefix_rfl, fun _ _ => rfl, ?_,
      fun _ _ h => h⟩
    intro i state hLe hSome
    rw [getElem?_eq_none hLe] at hSome
    cases hSome
  | none =>
    have hNot := idxOf?_eq_none_iff.mp hFind
    have hLength := hKnown.length
    refine ⟨⟨?_, ?_, ?_, ?_, ?_⟩, ?_, ?_, ?_, ?_, ?_⟩
    · exact Pool.getElem_of_front (prefix_append _ _) hKnown.first
    · refine nodup_append.mpr ⟨hKnown.nodup, nodup_singleton S, ?_⟩
      intro T hT T' hT' hSame
      rw [hSame, mem_singleton.mp hT'] at hT
      exact hNot hT
    · intro T hT
      rcases mem_append.mp hT with hOld | hNew
      · exact hKnown.subsets T hOld
      · rw [mem_singleton.mp hNew]
        exact hS
    · rw [length_append, length_append, hLength, length_singleton, length_singleton]
    · intro i T state hT hState
      by_cases hLt : i < s.stateSets.length
      · rw [getElem?_append_left hLt] at hT
        rw [getElem?_append_left (by omega)] at hState
        exact hKnown.accepts i T state hT hState
      rw [getElem?_append_right (Nat.not_lt.mp hLt), getElem?_singleton] at hT
      rw [getElem?_append_right (by omega), getElem?_singleton] at hState
      split at hT
      · cases hT
        split at hState
        · cases hState
          exact ⟨rfl, rfl⟩
        · cases hState
      · cases hT
    · rw [hLength, getElem?_append_right (le_refl _), Nat.sub_self]
      rfl
    · exact prefix_append _ _
    · intro i hLt
      exact getElem?_append_left hLt
    · intro i state hLe hState
      rw [getElem?_append_right hLe, getElem?_singleton] at hState
      split at hState
      · cases hState
        exact transitions_newDfaState n S
      · cases hState
    · intro k hk hPending
      unfold Pending at hPending ⊢
      rw [hPending, zipIdx_append, drop_append_of_le_length (by
          rw [length_zipIdx]
          exact hk), map_append, hLength, zero_add]
      rfl

lemma addDfaTransition_spec (hKnown : Known n s) {state : DfaState}
    (hState : s.dfaStates[id]? = some state) (t : DfaTransition) :
    Known n (addDfaTransition id t s) ∧
      (addDfaTransition id t s).dfaStates[id]? =
        some { state with transitions := Ranges.addRange state.transitions t } ∧
      ∀ i, i ≠ id → (addDfaTransition id t s).dfaStates[i]? = s.dfaStates[i]? := by
  have hHere : (addDfaTransition id t s).dfaStates[id]? =
      some { state with transitions := Ranges.addRange state.transitions t } := by
    unfold addDfaTransition
    rw [getElem?_modify, hState]
    simp
  have hOthers : ∀ i, i ≠ id → (addDfaTransition id t s).dfaStates[i]? = s.dfaStates[i]? := by
    intro i hNe
    unfold addDfaTransition
    rw [getElem?_modify]
    simp [hNe.symm]
  refine ⟨⟨hKnown.first, hKnown.nodup, hKnown.subsets, ?_, ?_⟩, hHere, hOthers⟩
  · unfold addDfaTransition
    rw [length_modify]
    exact hKnown.length
  intro i T other hT hOther
  by_cases hSame : i = id
  · rw [hSame] at hT hOther
    rw [hHere] at hOther
    cases hOther
    exact hKnown.accepts id T state hT hState
  · rw [hOthers i hSame] at hOther
    exact hKnown.accepts i T other hT hOther

-- One Set

open Ranges

variable {s : Subsets} {sets : List (List Nat)} {done moves : List NfaRangeMove}
  {move : NfaRangeMove} {transitions : List DfaTransition}

/- The states that are next at a number. -/
def NextAt (n : Nfa) (S : List Nat) (x : Int) (k : Nat) : Prop :=
  ∃ q ∈ S, ∃ t ∈ n.transitions q, TransitionAt t x k

/- Transitions are apart, and lead to the closures of what is next. -/
structure RowRight (n : Nfa) (sets : List (List Nat)) (S : List Nat)
    (transitions : List DfaTransition) : Prop where
  apart : Apart transitions
  next : ∀ x : Int,
      match labelAt transitions x with
      | none => ∀ k : Nat, ¬ NextAt n S x k
      | some i =>
        ∃ seeds : List Nat, seeds ≠ [] ∧ (∀ k : Nat, k ∈ seeds ↔ NextAt n S x k) ∧
            sets[i]? = some (epsilonClosure n seeds)

/- The transitions of the moves so far. -/
structure RowFor (n : Nfa) (sets : List (List Nat)) (done : List NfaRangeMove)
    (transitions : List DfaTransition) : Prop where
  apart : Apart transitions
  before : ∀ t ∈ transitions, ∃ m ∈ done, t.hi ≤ m.hi
  labels : ∀ x : Int,
      match labelAt done x with
      | none => labelAt transitions x = none
      | some seeds =>
        ∃ i : Nat, labelAt transitions x = some i ∧ sets[i]? = some (epsilonClosure n seeds)

lemma RowFor.rowRight (hRow : RowFor n sets moves transitions)
    (hMoves : ∀ x, MovesAt moves x (NextAt n S x)) :
    RowRight n sets S transitions := by
  refine ⟨hRow.apart, ?_⟩
  intro x
  have hLabels := hRow.labels x
  have hNext := hMoves x
  unfold MovesAt at hNext
  cases hAt : labelAt moves x with
  | none =>
    rw [hAt] at hLabels hNext
    rw [hLabels]
    exact hNext
  | some seeds =>
    rw [hAt] at hLabels hNext
    rcases hLabels with ⟨i, hLabel, hSet⟩
    rw [hLabel]
    exact ⟨seeds, hNext.1, hNext.2, hSet⟩

variable {sets' : List (List Nat)}

/- Sets that are found stay found. -/
lemma RowFor.more (hRow : RowFor n sets done transitions) (hFront : sets <+: sets') :
    RowFor n sets' done transitions := by
  refine ⟨hRow.apart, hRow.before, ?_⟩
  intro x
  have hLabels := hRow.labels x
  cases hAt : labelAt done x with
  | none =>
    rw [hAt] at hLabels
    exact hLabels
  | some seeds =>
    rw [hAt] at hLabels
    rcases hLabels with ⟨i, hLabel, hSet⟩
    exact ⟨i, hLabel, Pool.getElem_of_front hFront hSet⟩

lemma RowRight.more (hRow : RowRight n sets S transitions) (hFront : sets <+: sets') :
    RowRight n sets' S transitions := by
  refine ⟨hRow.apart, ?_⟩
  intro x
  have hAt := hRow.next x
  cases hLabel : labelAt transitions x with
  | none =>
    rw [hLabel] at hAt
    exact hAt
  | some i =>
    rw [hLabel] at hAt
    rcases hAt with ⟨seeds, hSome, hNext, hSet⟩
    exact ⟨seeds, hSome, hNext, Pool.getElem_of_front hFront hSet⟩

/- One more move. -/
lemma RowFor.add {i : Nat} (hRow : RowFor n sets done transitions)
    (hApart : Apart (done ++ [move])) (hSet : sets[i]? = some (epsilonClosure n move.label)) :
    RowFor n sets (done ++ [move]) (addRange transitions ⟨move.lo, move.hi, i⟩) := by
  rcases hApart.front with ⟨_, hBefore, hProper⟩
  have hAfter : ∀ t ∈ transitions, t.hi < move.lo := by
    intro t ht
    rcases hRow.before t ht with ⟨m, hm, hLe⟩
    exact Int.lt_of_le_of_lt hLe (hBefore m hm)
  refine ⟨apart_addRange hRow.apart hAfter hProper, ?_, ?_⟩
  · intro t ht
    have hLe := @hi_le_of_mem_addRange _ _ transitions ⟨move.lo, move.hi, i⟩ hAfter hProper t ht
    exact ⟨move, mem_append_right _ (mem_singleton_self move), hLe⟩
  intro x
  rw [labelAt_concat hBefore, labelAt_addRange hRow.apart hAfter hProper]
  split_ifs with hIn
  · exact ⟨i, rfl, hSet⟩
  · exact hRow.labels x

/- A set is expanded while those before it are done. -/
structure Expanding (n : Nfa) (s : Subsets) (id : Nat) (S : List Nat) (done : List NfaRangeMove) :
    Prop where
  known : Known n s
  pending : Pending s (id + 1)
  here : s.stateSets[id]? = some S
  rows : ∀ (i : Nat) (T : List Nat) (state : DfaState), i < id → s.stateSets[i]? = some T →
      s.dfaStates[i]? = some state → RowRight n s.stateSets T state.transitions
  fresh : ∀ (i : Nat) (state : DfaState), id < i →
      s.dfaStates[i]? = some state → state.transitions = []
  row : ∃ state : DfaState, s.dfaStates[id]? = some state ∧
      RowFor n s.stateSets done state.transitions

lemma Expanding.expandMove (hExp : Expanding n s id S done) (hApart : Apart (done ++ [move]))
    (hSome : move.label ≠ []) (hTargets : ∀ k ∈ move.label, k ∈ n.targets) :
    Expanding n (Grammargen.expandMove n id s move) id S (done ++ [move]) := by
  have hSubset : IsSubset n (epsilonClosure n move.label) := isSubset_epsilonClosure hSome (fun q hq
    => mem_cons_of_mem _ (hTargets q hq))
  unfold Grammargen.expandMove
  rw [if_neg (epsilonClosure_ne_nil hSome)]
  rcases addDfaState_spec hExp.known hSubset with ⟨hKnown, hAt, hMore⟩
  generalize addDfaState n (epsilonClosure n move.label) s = added at hKnown hAt hMore
  rcases added with ⟨i, s1⟩
  rcases hExp.row with ⟨state, hState, hRow⟩
  have hLt : id < s.stateSets.length := (List.getElem?_eq_some_iff.mp hExp.here).1
  have hLength := hExp.known.length
  have hState1 : s1.dfaStates[id]? = some state := by
    rw [hMore.same id (by omega)]
    exact hState
  rcases addDfaTransition_spec hKnown hState1 ⟨move.lo, move.hi, i⟩ with ⟨hKnown', hHere, hOthers⟩
  refine ⟨hKnown', ?_, ?_, ?_, ?_, ?_⟩
  · exact hMore.pending (id + 1) hLt hExp.pending
  · exact Pool.getElem_of_front hMore.front hExp.here
  · intro j T other hj hT hOther
    rw [hOthers j (by omega), hMore.same j (by omega)] at hOther
    have hT' : s.stateSets[j]? = some T := by
      rcases hMore.front with ⟨rest, hRest⟩
      change s1.stateSets[j]? = some T at hT
      rw [← hRest, getElem?_append_left (by omega)] at hT
      exact hT
    exact (hExp.rows j T other hj hT' hOther).more hMore.front
  · intro j other hj hOther
    rw [hOthers j (by omega)] at hOther
    by_cases hOld : j < s.dfaStates.length
    · rw [hMore.same j hOld] at hOther
      exact hExp.fresh j other hj hOther
    · exact hMore.new j other (Nat.not_lt.mp hOld) hOther
  · exact ⟨_, hHere, (hRow.more hMore.front).add hApart hAt⟩

lemma Expanding.expandMoves {rest : List NfaRangeMove} (hExp : Expanding n s id S done)
    (hApart : Apart (done ++ rest))
    (hLabels : ∀ m ∈ rest, m.label ≠ [] ∧ ∀ k ∈ m.label, k ∈ n.targets) :
    Expanding n (rest.foldl (Grammargen.expandMove n id) s) id S (done ++ rest) := by
  induction rest generalizing s done with
  | nil =>
    rw [append_nil]
    exact hExp
  | cons move rest ih =>
    rw [append_cons] at hApart ⊢
    have hFront : Apart (done ++ [move]) := by
      constructor
      · intro r hr
        exact hApart.proper r (mem_append_left _ hr)
      · exact (pairwise_append.mp hApart.sorted).1
    have hMove := hLabels move mem_cons_self
    exact ih (hExp.expandMove hFront hMove.1 hMove.2) hApart
      (fun m hm => hLabels m (mem_cons_of_mem move hm))

-- All Sets

variable {k : Nat}

/- The sets before a number are expanded. -/
structure Explored (n : Nfa) (s : Subsets) (k : Nat) : Prop where
  known : Known n s
  bound : k ≤ s.stateSets.length
  pending : Pending s k
  rows : ∀ (i : Nat) (T : List Nat) (state : DfaState), i < k → s.stateSets[i]? = some T →
      s.dfaStates[i]? = some state → RowRight n s.stateSets T state.transitions
  fresh : ∀ (i : Nat) (state : DfaState), k ≤ i →
      s.dfaStates[i]? = some state → state.transitions = []

/- More fuel changes nothing. -/
lemma expandAll_mono {fuel fuel' : Nat} {dfa : List DfaState}
    (hDone : expandAll n fuel s = some dfa) (hLe : fuel ≤ fuel') :
    expandAll n fuel' s = some dfa := by
  induction fuel generalizing s fuel' with
  | zero =>
    rw [expandAll] at hDone ⊢
    cases hWork : s.worklist with
    | nil =>
      rw [hWork] at hDone
      exact hDone
    | cons item worklist => simp [hWork] at hDone
  | succ fuel ih =>
    rw [expandAll] at hDone ⊢
    cases hWork : s.worklist with
    | nil =>
      rw [hWork] at hDone
      exact hDone
    | cons item worklist =>
      rw [hWork] at hDone
      cases fuel' with
      | zero => omega
      | succ fuel' => exact ih hDone (by omega)

lemma explored_start (n : Nfa) :
    Explored n (addDfaState n (epsilonClosure n [n.start]) ⟨[], [], []⟩).2 0 := by
  have hSubset : IsSubset n (epsilonClosure n [n.start]) := by
    refine isSubset_epsilonClosure (cons_ne_nil _ _) ?_
    intro q hq
    rw [mem_singleton.mp hq]
    exact mem_cons_self
  refine ⟨⟨rfl, nodup_singleton _, ?_, rfl, ?_⟩, Nat.zero_le _, rfl, ?_, ?_⟩
  · intro S hS
    rw [mem_singleton.mp hS]
    exact hSubset
  · intro i S state hS hState
    cases i with
    | zero =>
      cases hS
      cases hState
      exact ⟨rfl, rfl⟩
    | succ i => cases hS
  · omega
  · intro i state _ hState
    cases i with
    | zero =>
      cases hState
      exact transitions_newDfaState n _
    | succ i => cases hState

section

variable (hOrdered : EdgesOrdered n.states)

include hOrdered

lemma labels_collectTransitionMoves (S : List Nat) :
    ∀ m ∈ collectTransitionMoves n S, m.label ≠ [] ∧ ∀ k ∈ m.label, k ∈ n.targets := by
  rcases labelAt_collectTransitionMoves hOrdered S with ⟨hApart, hMoves⟩
  intro m hm
  have hAt := hMoves m.lo
  unfold MovesAt at hAt
  rw [labelAt_of_mem hApart hm ⟨Int.le_refl _, hApart.proper m hm⟩] at hAt
  refine ⟨hAt.1, ?_⟩
  intro k hk
  rcases (hAt.2 k).mp hk with ⟨q, _, t, ht, hTo⟩
  rw [← hTo.2.1]
  exact nextState_mem_targets ht

lemma Explored.expand (hExplored : Explored n s k) {id : Nat}
    {S : List Nat} {worklist : List (Nat × List Nat)} (hWork : s.worklist = (id, S) :: worklist) :
    Explored n
      ((collectTransitionMoves n S).foldl (expandMove n id) { s with worklist := worklist })
      (k + 1) := by
  have hLength := hExplored.known.length
  -- the worklist has the sets from the number on
  have hPending := hExplored.pending
  unfold Pending at hPending
  rw [hWork] at hPending
  have hLt : k < s.stateSets.length := by
    by_contra hOut
    have hNil : s.stateSets.zipIdx.drop k = [] := by
      rw [drop_eq_nil_iff, length_zipIdx]
      exact Nat.not_lt.mp hOut
    simp [hNil] at hPending
  have hDrop :
      s.stateSets.zipIdx.drop k = (s.stateSets[k], k) :: s.stateSets.zipIdx.drop (k + 1) := by
    rw [drop_eq_getElem_cons (by
      rw [length_zipIdx]
      exact hLt), getElem_zipIdx, zero_add]
  rw [hDrop, map_cons, List.cons.injEq] at hPending
  rcases hPending with ⟨hHead, hTail⟩
  have hId : id = k := congrArg Prod.fst hHead
  have hS : S = s.stateSets[k] := congrArg Prod.snd hHead
  subst hId
  subst hS
  rcases labelAt_collectTransitionMoves hOrdered s.stateSets[id] with ⟨hApart, hMoves⟩
  have hState : ∃ state, s.dfaStates[id]? = some state :=
    ⟨_, getElem?_eq_getElem (by omega)⟩
  rcases hState with ⟨state, hState⟩
  have hStart : Expanding n { s with worklist := worklist } id s.stateSets[id] [] := by
    refine ⟨⟨hExplored.known.first, hExplored.known.nodup, hExplored.known.subsets,
      hExplored.known.length, hExplored.known.accepts⟩, hTail, getElem?_eq_getElem hLt,
      hExplored.rows, ?_, state, hState, ?_⟩
    · intro i other hi hOther
      exact hExplored.fresh i other hi.le hOther
    rw [hExplored.fresh id state (le_refl id) hState]
    refine ⟨apart_nil, ?_, fun _ => rfl⟩
    intro t ht
    cases ht
  have hExp :
      Expanding n
        ((collectTransitionMoves n s.stateSets[id]).foldl (expandMove n id)
          { s with worklist := worklist })
        id s.stateSets[id] ([] ++ collectTransitionMoves n s.stateSets[id]) :=
    hStart.expandMoves hApart (labels_collectTransitionMoves hOrdered _)
  refine ⟨hExp.known, ?_, hExp.pending, ?_, ?_⟩
  · exact (List.getElem?_eq_some_iff.mp hExp.here).1
  · intro i T other hi hT hOther
    by_cases hSame : i = id
    · rcases hExp.row with ⟨own, hOwn, hRow⟩
      rw [hSame] at hT hOther
      rw [hExp.here] at hT
      rw [hOwn] at hOther
      cases hT
      cases hOther
      exact hRow.rowRight hMoves
    · exact hExp.rows i T other (by omega) hT hOther
  · intro i other hi hOther
    exact hExp.fresh i other hi hOther

/- With fuel for every set, all sets are expanded. -/
lemma expandAll_explored {fuel : Nat} (hExplored : Explored n s k)
    (hFuel : 2 ^ (n.targets.length + 1) ≤ fuel + k) :
    ∃ s', expandAll n fuel s = some s'.dfaStates ∧ Explored n s' s'.stateSets.length := by
  have hCount := length_le_of_subsets hExplored.known.nodup hExplored.known.subsets
  induction fuel generalizing s k with
  | zero =>
    have hEnd : k = s.stateSets.length := le_antisymm hExplored.bound (by omega)
    have hWork : s.worklist = [] := by
      rw [hExplored.pending, hEnd, ← length_zipIdx, drop_length, map_nil]
    refine ⟨s, ?_, hEnd ▸ hExplored⟩
    rw [expandAll, hWork]
  | succ fuel ih =>
    cases hWork : s.worklist with
    | nil =>
      have hEnd : k = s.stateSets.length := by
        have hPending := hExplored.pending
        unfold Pending at hPending
        rw [hWork] at hPending
        have hNil := map_eq_nil_iff.mp hPending.symm
        rw [drop_eq_nil_iff, length_zipIdx] at hNil
        exact le_antisymm hExplored.bound hNil
      refine ⟨s, ?_, hEnd ▸ hExplored⟩
      rw [expandAll, hWork]
    | cons item worklist =>
      rcases item with ⟨id, S⟩
      have hNext := hExplored.expand hOrdered hWork
      rw [expandAll, hWork]
      exact ih hNext (by omega) (length_le_of_subsets hNext.known.nodup hNext.known.subsets)

/- The construction ends, with all sets expanded. -/
lemma subsetConstruction_explored :
    ∃ s,
      Explored n s s.stateSets.length ∧
        ∀ fuel,
          2 ^ (n.targets.length + 1) ≤ fuel → subsetConstruction n fuel = some s.dfaStates := by
  rcases expandAll_explored hOrdered (explored_start n) (le_refl (2 ^ (n.targets.length + 1))) with
    ⟨s, hDone, hExplored⟩
  exact ⟨s, hExplored, fun fuel hFuel => expandAll_mono hDone hFuel⟩

end

end GoTreeSitter.Grammargen
