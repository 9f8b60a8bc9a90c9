import GoTreeSitter.Grammargen.Dfa
import GoTreeSitter.Grammargen.FragmentCorrect

/-
  The sweep finds the states that are next.

  Main declarations:
    * `countAt`
    * `ActiveCounts`
    * `countAt_transitions`
    * `labelAt_collectTransitionMoves`

  At every number, the changes up to it add up to how many ranges have it. Between two points
  nothing changes, and after the last one no range is left.
-/

-- Counts

namespace GoTreeSitter.Grammargen

open List NfaSweepEvent

variable {events : List NfaSweepEvent} {active : ActiveTargets} {moves : List NfaRangeMove}

/- What an event adds to the count of a state. -/
def eventDelta (k : Nat) (ev : NfaSweepEvent) : Int :=
  if ev.nextState = k then ev.delta else 0

/- How many ranges to a state have a number. -/
def countAt (events : List NfaSweepEvent) (x : Int) (k : Nat) : Int := (events.map (fun ev =>
    if ev.point ≤ x then eventDelta k ev else 0)).sum

/- How many ranges to a state are open after all events. -/
def countAll (events : List NfaSweepEvent) (k : Nat) : Int := (events.map (eventDelta k)).sum

lemma countAt_append (front back : List NfaSweepEvent) (x : Int) (k : Nat) :
    countAt (front ++ back) x k = countAt front x k + countAt back x k := by
  unfold countAt
  rw [map_append, sum_append]

lemma countAll_concat (front : List NfaSweepEvent) (ev : NfaSweepEvent) (k : Nat) :
    countAll (front ++ [ev]) k = countAll front k + eventDelta k ev := by
  unfold countAll
  rw [map_append, sum_append, map_singleton, sum_singleton]

lemma countAt_of_le {x : Int} (hLe : ∀ ev ∈ events, ev.point ≤ x) (k : Nat) :
    countAt events x k = countAll events k := by
  refine congrArg List.sum (map_congr_left ?_)
  intro ev hEv
  exact if_pos (hLe ev hEv)

lemma countAt_of_lt {x : Int} (hLt : ∀ ev ∈ events, x < ev.point) (k : Nat) :
    countAt events x k = 0 := by
  refine sum_eq_zero ?_
  intro value hValue
  rcases mem_map.mp hValue with ⟨ev, hEv, rfl⟩
  exact if_neg (Int.not_le.mpr (hLt ev hEv))

lemma countAt_perm {events' : List NfaSweepEvent} (hPerm : events.Perm events') (x : Int)
    (k : Nat) :
    countAt events x k = countAt events' x k := (hPerm.map _).sum_eq

-- Active States

/- The active states are those with a count. -/
structure ActiveCounts (active : ActiveTargets) (count : Nat → Int) : Prop where
  lookup : ∀ k : Nat, (active.lookup k).getD 0 = count k
  keys : ∀ k : Nat, k ∈ active.map Prod.fst ↔ count k ≠ 0

lemma activeCounts_nil : ActiveCounts [] (fun _ => 0) := by
  refine ⟨fun _ => rfl, ?_⟩
  intro k
  simp

lemma lookup_filter_ne (active : ActiveTargets) (state k : Nat) :
    (active.filter (fun entry => entry.1 ≠ state)).lookup k =
      if k = state then none else active.lookup k := by
  induction active with
  | nil => simp
  | cons entry rest ih =>
    rcases entry with ⟨key, value⟩
    by_cases hKey : key = state
    · rw [filter_cons_of_neg (by simp [hKey]), ih]
      by_cases hSame : k = state
      · rw [if_pos hSame, if_pos hSame]
      have hOther : (k == key) = false := by
        rw [hKey]
        exact beq_false_of_ne hSame
      rw [if_neg hSame, if_neg hSame, lookup_cons, hOther]
    rw [filter_cons_of_pos (by simp [hKey]), lookup_cons, lookup_cons, ih]
    cases hHere : k == key with
    | true =>
      have hNe : k ≠ state := by
        rw [eq_of_beq hHere]
        exact hKey
      rw [if_neg hNe, if_neg hNe]
    | false => rfl

lemma ActiveCounts.update {count : Nat → Int} (hCounts : ActiveCounts active count)
    (ev : NfaSweepEvent) :
    ActiveCounts (updateActive active ev) (fun k => count k + eventDelta k ev) := by
  have hKeys : ∀ k,
      k ∈ (active.filter (fun entry => entry.1 ≠ ev.nextState)).map Prod.fst ↔
        k ≠ ev.nextState ∧ count k ≠ 0 := by
    intro k
    rw [← hCounts.keys k]
    simp only [mem_map, mem_filter, decide_eq_true_eq]
    constructor
    · rintro ⟨entry, ⟨hMem, hNe⟩, rfl⟩
      exact ⟨hNe, entry, hMem, rfl⟩
    · rintro ⟨hNe, entry, hMem, rfl⟩
      exact ⟨entry, ⟨hMem, hNe⟩, rfl⟩
  have hOther : ∀ k, k ≠ ev.nextState → count k + eventDelta k ev = count k := by
    intro k hNe
    rw [eventDelta, if_neg hNe.symm, add_zero]
  have hSelf : eventDelta ev.nextState ev = ev.delta := if_pos rfl
  unfold updateActive
  dsimp only
  rw [hCounts.lookup]
  split_ifs with hZero
  · constructor
    · intro k
      rw [lookup_filter_ne]
      split_ifs with hSame
      · rw [hSame, hSelf, hZero]
        rfl
      · rw [hCounts.lookup, hOther k hSame]
    intro k
    rw [hKeys]
    by_cases hSame : k = ev.nextState
    · rw [hSame, hSelf, hZero]
      simp
    · rw [hOther k hSame]
      simp [hSame]
  constructor
  · intro k
    rw [lookup_cons, lookup_filter_ne]
    by_cases hSame : k = ev.nextState
    · rw [hSame, beq_self_eq_true, hSelf]
      rfl
    · rw [beq_false_of_ne hSame, if_neg hSame, hOther k hSame]
      exact hCounts.lookup k
  intro k
  rw [map_cons, mem_cons, hKeys]
  by_cases hSame : k = ev.nextState
  · rw [hSame, hSelf]
    simp [hZero]
  · rw [hOther k hSame]
    simp [hSame]

-- Sweeps

open Ranges

/- The moves at a number lead to the states with a count. -/
def MovesAt (moves : List NfaRangeMove) (x : Int) (next : Nat → Prop) : Prop :=
  match labelAt moves x with
  | none => ∀ k : Nat, ¬ next k
  | some targets => targets ≠ [] ∧ ∀ k : Nat, k ∈ targets ↔ next k

/- The moves before a point are right. -/
structure Swept (events : List NfaSweepEvent) (moves : List NfaRangeMove) (pos : Int) : Prop where
  apart : Apart moves
  before : ∀ m ∈ moves, m.hi < pos
  right : ∀ x : Int, x < pos → MovesAt moves x (fun k => countAt events x k ≠ 0)

lemma MovesAt.congr {x : Int} {next next' : Nat → Prop} (hMoves : MovesAt moves x next)
    (hSame : ∀ k, next k ↔ next' k) :
    MovesAt moves x next' := by
  have hEq : next = next' := funext fun k => propext (hSame k)
  rw [← hEq]
  exact hMoves

lemma Swept.addMove {count : Nat → Int} {lo next : Int} (hSwept : Swept events moves lo)
    (hCounts : ActiveCounts active count) (hLt : lo < next)
    (hSame : ∀ x, lo ≤ x → x < next → ∀ k, countAt events x k = count k) :
    Swept events (addMove active lo (next - 1) moves) next := by
  unfold Grammargen.addMove
  split_ifs with hNothing
  · have hEmpty : active = [] := hNothing.resolve_right (by omega)
    have hZero : ∀ k, count k = 0 := by
      intro k
      rw [← hCounts.lookup k, hEmpty]
      rfl
    refine ⟨hSwept.apart, ?_, ?_⟩
    · intro m hm
      have hBefore := hSwept.before m hm
      omega
    intro x hx
    by_cases hOld : x < lo
    · exact hSwept.right x hOld
    have hNone : labelAt moves x = none := by
      rw [labelAt_eq_none_iff]
      intro m hm
      have hBefore := hSwept.before m hm
      omega
    unfold MovesAt
    rw [hNone]
    intro k hk
    apply hk
    rw [hSame x (by omega) hx k]
    exact hZero k
  rw [not_or] at hNothing
  have hTargets : ∀ k, k ∈ (active.map Prod.fst).insertionSort (· ≤ ·) ↔ count k ≠ 0 := by
    intro k
    rw [mem_insertionSort]
    exact hCounts.keys k
  have hNonempty : (active.map Prod.fst).insertionSort (· ≤ ·) ≠ [] := by
    intro hNil
    have hLength := length_insertionSort (· ≤ ·) (active.map Prod.fst)
    rw [hNil, length_map] at hLength
    exact hNothing.1 (eq_nil_of_length_eq_zero hLength.symm)
  generalize (active.map Prod.fst).insertionSort (· ≤ ·) = targets at hTargets hNonempty ⊢
  have hAfter : ∀ m ∈ moves, m.hi < lo := hSwept.before
  have hProper : lo ≤ next - 1 := by omega
  refine ⟨?_, ?_, ?_⟩
  · exact apart_addRange hSwept.apart hAfter hProper
  · intro m hm
    have hLe := @hi_le_of_mem_addRange _ _ moves ⟨lo, next - 1, targets⟩ hAfter hProper m hm
    dsimp only at hLe
    omega
  intro x hx
  unfold MovesAt
  rw [labelAt_addRange hSwept.apart hAfter hProper]
  dsimp only
  by_cases hOld : x < lo
  · rw [if_neg (by omega)]
    exact hSwept.right x hOld
  rw [if_pos (by omega)]
  refine ⟨hNonempty, ?_⟩
  intro k
  rw [hTargets, hSame x (by omega) hx k]

/- The rest of a sweep. The events before are at or before the first of the rest. -/
lemma sweepEvents_swept
    {done rest : List NfaSweepEvent}
    {ev : NfaSweepEvent}
    (hSorted : (done ++ ev :: rest).Pairwise (fun a b => a.point ≤ b.point))
    (hCounts : ActiveCounts active (countAll done))
    (hSwept : Swept (done ++ ev :: rest) moves ev.point)
    (hClosed : ∀ k, countAll (done ++ ev :: rest) k = 0) :
    Apart (sweepEvents (ev :: rest) active moves) ∧
      ∀ x,
        MovesAt (sweepEvents (ev :: rest) active moves) x
          (fun k => countAt (done ++ ev :: rest) x k ≠ 0) := by
  induction rest generalizing done active moves ev with
  | nil =>
    rw [sweepEvents]
    refine ⟨hSwept.apart, ?_⟩
    intro x
    by_cases hx : x < ev.point
    · exact hSwept.right x hx
    -- the last event closes the last range
    have hAll : ∀ other ∈ done ++ [ev], other.point ≤ x := by
      intro other hOther
      rcases mem_append.mp hOther with hIn | hIn
      · have hLe := (pairwise_append.mp hSorted).2.2 other hIn ev mem_cons_self
        omega
      · rw [mem_singleton.mp hIn]
        omega
    have hNone : labelAt moves x = none := by
      rw [labelAt_eq_none_iff]
      intro m hm
      have hBefore := hSwept.before m hm
      omega
    unfold MovesAt
    rw [hNone]
    intro k hk
    apply hk
    rw [countAt_of_le hAll]
    exact hClosed k
  | cons next rest ih =>
    rw [sweepEvents]
    have hUpdated : ActiveCounts (updateActive active ev) (countAll (done ++ [ev])) := by
      have hEq : countAll (done ++ [ev]) = fun k => countAll done k + eventDelta k ev := funext
          (countAll_concat done ev)
      rw [hEq]
      exact hCounts.update ev
    rw [append_cons] at hSorted hSwept hClosed ⊢
    have hSplit := pairwise_append.mp hSorted
    have hBound : ∀ other ∈ done ++ [ev], other.point ≤ ev.point := by
      intro other hOther
      rcases mem_append.mp hOther with hIn | hIn
      · exact (pairwise_append.mp hSplit.1).2.2 other hIn ev mem_cons_self
      · rw [mem_singleton.mp hIn]
    have hNext : ev.point ≤ next.point := hSplit.2.2 ev (mem_append_right _
        (mem_singleton_self ev)) next mem_cons_self
    refine ih hSorted hUpdated ?_ hClosed
    split_ifs with hSame
    · rw [← hSame]
      exact hSwept
    refine hSwept.addMove hUpdated (by omega) ?_
    intro x hLo hHi k
    rw [countAt_append, countAt_of_le (fun other hOther => by
        have hLe := hBound other hOther
        omega),
      countAt_of_lt, add_zero]
    intro other hOther
    rcases mem_cons.mp hOther with rfl | hRest
    · exact hHi
    · have hLe := rel_of_pairwise_cons hSplit.2.1 hRest
      omega

-- Transitions

/- A transition leads to a state at a number. -/
def TransitionAt (t : NfaTransition) (x : Int) (k : Nat) : Prop :=
  t.epsilon = false ∧ t.nextState = k ∧ t.lo ≤ x ∧ x ≤ t.hi

instance (t : NfaTransition) (x : Int) (k : Nat) : Decidable (TransitionAt t x k) := inferInstanceAs
    (Decidable (_ ∧ _ ∧ _ ∧ _))

lemma countAt_transitionEvents {t : NfaTransition} (hOrdered : t.lo ≤ t.hi) (x : Int) (k : Nat) :
    countAt (transitionEvents t) x k = if TransitionAt t x k then 1 else 0 := by
  rcases t with ⟨lo, hi, epsilon, nextState⟩
  unfold countAt transitionEvents TransitionAt eventDelta
  dsimp only at hOrdered ⊢
  cases epsilon with
  | true => simp
  | false =>
    by_cases hState : nextState = k
    · simp only [Bool.false_eq_true, if_false, map_cons, map_nil, sum_cons,
        sum_nil, hState, if_true, true_and]
      split
      · split
        · rw [if_neg (by omega)]
          omega
        · rw [if_pos (by omega)]
          omega
      · omega
    · simp [hState]

lemma countAll_transitionEvents (t : NfaTransition) (k : Nat) :
    countAll (transitionEvents t) k = 0 := by
  unfold countAll transitionEvents eventDelta
  cases t.epsilon with
  | true => rfl
  | false =>
    by_cases hState : t.nextState = k
    · simp [hState]
    · simp [hState]

lemma countAll_transitions (ts : List NfaTransition) (k : Nat) :
    countAll (ts.flatMap transitionEvents) k = 0 := by
  induction ts with
  | nil => rfl
  | cons t ts ih =>
    have hFirst := countAll_transitionEvents t k
    unfold countAll at hFirst ih ⊢
    rw [flatMap_cons, map_append, sum_append, hFirst, ih, add_zero]

lemma countAt_transitions {ts : List NfaTransition} (hOrdered : ∀ t ∈ ts, t.lo ≤ t.hi) (x : Int)
    (k : Nat) :
    0 ≤ countAt (ts.flatMap transitionEvents) x k ∧
      (countAt (ts.flatMap transitionEvents) x k ≠ 0 ↔ ∃ t ∈ ts, TransitionAt t x k) := by
  induction ts with
  | nil =>
    refine ⟨Int.le_refl 0, ?_⟩
    refine ⟨fun h => absurd rfl h, ?_⟩
    rintro ⟨t, ht, _⟩
    cases ht
  | cons t ts ih =>
    rcases ih (fun other hOther => hOrdered other (mem_cons_of_mem t hOther)) with
      ⟨hNonneg, hIff⟩
    rw [flatMap_cons, countAt_append, countAt_transitionEvents (hOrdered t mem_cons_self)]
    split
    · rename_i hAt
      refine ⟨by omega, ?_⟩
      refine ⟨fun _ => ⟨t, mem_cons_self, hAt⟩, ?_⟩
      omega
    rename_i hNot
    rw [zero_add]
    refine ⟨hNonneg, hIff.trans ?_⟩
    constructor
    · rintro ⟨other, hOther, hAt⟩
      exact ⟨other, mem_cons_of_mem t hOther, hAt⟩
    rintro ⟨other, hOther, hAt⟩
    rcases mem_cons.mp hOther with rfl | hRest
    · exact absurd hAt hNot
    · exact ⟨other, hRest, hAt⟩

lemma NfaSweepEvent.total (a b : NfaSweepEvent) : a.le b ∨ b.le a := by
  unfold le
  by_cases hPoint : a.point = b.point
  · by_cases hState : a.nextState = b.nextState
    · simp only [hPoint, hState, ne_eq, not_true_eq_false, if_false]
      omega
    have hState' : b.nextState ≠ a.nextState := fun h => hState h.symm
    simp only [hPoint, ne_eq, not_true_eq_false, if_false,
      hState, hState', not_false_eq_true, if_true]
    omega
  · have hPoint' : b.point ≠ a.point := fun h => hPoint h.symm
    simp only [ne_eq, hPoint, hPoint', not_false_eq_true, if_true]
    omega

lemma NfaSweepEvent.point_le {a b : NfaSweepEvent} (hLe : a.le b) : a.point ≤ b.point := by
  unfold le at hLe
  split at hLe
  · omega
  · omega

lemma NfaSweepEvent.trans {a b c : NfaSweepEvent} (hFirst : a.le b) (hSecond : b.le c) :
    a.le c := by
  unfold le at hFirst hSecond ⊢
  split_ifs at hFirst hSecond ⊢ <;> omega

instance : Std.Total NfaSweepEvent.le := ⟨NfaSweepEvent.total⟩

instance : IsTrans NfaSweepEvent NfaSweepEvent.le := ⟨fun _ _ _ => NfaSweepEvent.trans⟩

lemma labelAt_collectTransitionMoves {n : Nfa} (hOrdered : EdgesOrdered n.states)
    (states : List Nat) :
    Apart (collectTransitionMoves n states) ∧
      ∀ x,
        MovesAt (collectTransitionMoves n states) x
          (fun k => ∃ q ∈ states, ∃ t ∈ n.transitions q, TransitionAt t x k) := by
  have hEvents : states.flatMap (fun q => (n.transitions q).flatMap transitionEvents) =
      (states.flatMap n.transitions).flatMap transitionEvents := by rw [flatMap_assoc]
  have hTransitions : ∀ t ∈ states.flatMap n.transitions, t.lo ≤ t.hi := by
    intro t ht
    rcases mem_flatMap.mp ht with ⟨q, _, hq⟩
    unfold Nfa.transitions at hq
    cases hState : n.states[q]? with
    | none => simp [hState] at hq
    | some state =>
      rw [hState] at hq
      exact hOrdered state (mem_of_getElem? hState) t hq
  have hNext : ∀ x k,
      (∃ t ∈ states.flatMap n.transitions, TransitionAt t x k) ↔
        ∃ q ∈ states, ∃ t ∈ n.transitions q, TransitionAt t x k := by
    intro x k
    constructor
    · rintro ⟨t, ht, hAt⟩
      rcases mem_flatMap.mp ht with ⟨q, hq, htq⟩
      exact ⟨q, hq, t, htq, hAt⟩
    · rintro ⟨q, hq, t, htq, hAt⟩
      exact ⟨t, mem_flatMap.mpr ⟨q, hq, htq⟩, hAt⟩
  unfold collectTransitionMoves
  dsimp only
  rw [hEvents]
  generalize states.flatMap n.transitions = ts at hTransitions hNext
  have hPerm := perm_insertionSort le (ts.flatMap transitionEvents)
  have hSorted := (pairwise_insertionSort le (ts.flatMap transitionEvents)).imp
      (fun h => point_le h)
  have hCount : ∀ x k,
      countAt ((ts.flatMap transitionEvents).insertionSort le) x k ≠ 0 ↔
        ∃ q ∈ states, ∃ t ∈ n.transitions q, TransitionAt t x k := by
    intro x k
    rw [countAt_perm hPerm, ← hNext]
    exact (countAt_transitions hTransitions x k).2
  have hClosed : ∀ k, countAll ((ts.flatMap transitionEvents).insertionSort le) k = 0 := by
    intro k
    rw [← countAll_transitions ts k]
    exact (hPerm.map _).sum_eq
  generalize (ts.flatMap transitionEvents).insertionSort le = events at hSorted hCount hClosed ⊢
  cases events with
  | nil =>
    refine ⟨apart_nil, ?_⟩
    intro x k hk
    exact absurd rfl ((hCount x k).mpr hk)
  | cons ev rest =>
    have hStart : Swept ([] ++ ev :: rest) [] ev.point := by
      refine ⟨apart_nil, ?_, ?_⟩
      · simp
      intro x hx k hk
      apply hk
      refine countAt_of_lt ?_ k
      intro other hOther
      rcases mem_cons.mp hOther with rfl | hRest
      · exact hx
      · have hLe := rel_of_pairwise_cons hSorted hRest
        omega
    rcases sweepEvents_swept hSorted activeCounts_nil hStart hClosed with ⟨hApart, hMoves⟩
    exact ⟨hApart, fun x => (hMoves x).congr fun k => hCount x k⟩

end GoTreeSitter.Grammargen
