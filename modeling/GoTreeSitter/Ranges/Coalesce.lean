import Mathlib.Order.Lattice
import Mathlib.Data.List.Basic
import Mathlib.Data.List.Induction

/-
  Joining ranges that touch, and ranges of numbers with labels.

  Main declarations:
    * `Ranges.Joiner`
    * `Ranges.Joiner.separated_coalesce`
    * `Ranges.Labeled`
    * `Ranges.labelAt_addRange`

  One pass over a sorted list covers what the list covers, with a gap between any two ranges. Ranges
  with labels are added in order: one that goes on where the last one ends, with its label, makes
  that one longer.
-/

namespace Ranges

open List

/-
  How ranges are joined: the bounds of a range, the test for two ranges that touch, and the range
  that has both. The second range never starts before the first.
-/
structure Joiner (ρ : Type) where
  lo : ρ → Nat
  hi : ρ → Nat
  touches : ρ → ρ → Bool
  join : ρ → ρ → ρ
  lo_le_of_touches : ∀ a b : ρ, touches a b = true → lo b ≤ hi a
  apart : ∀ a b : ρ, lo a ≤ lo b → lo b ≤ hi b → touches a b = false → hi a < lo b
  lo_join : ∀ a b : ρ, lo a ≤ lo b → lo (join a b) = lo a
  hi_join : ∀ a b : ρ, hi (join a b) = max (hi a) (hi b)

namespace Joiner

variable {ρ : Type} (J : Joiner ρ) {rest : List ρ}

/- The ranges that follow a current one are joined to it. -/
def coalesce : ρ → List ρ → List ρ
  | current, [] => [current]
  | current, r :: rest =>
    if J.touches current r = true then
      coalesce (J.join current r) rest
    else current :: coalesce r rest

/- A place lies in one of the ranges. -/
def Covers (ranges : List ρ) (place : Nat) : Prop := ∃ r ∈ ranges, J.lo r ≤ place ∧ place < J.hi r

variable {J}

lemma covers_cons {r : ρ} {place : Nat} :
    J.Covers (r :: rest) place ↔ (J.lo r ≤ place ∧ place < J.hi r) ∨ J.Covers rest place := by
  simp [Covers]

lemma covers_join {a b : ρ} (hOrder : J.lo a ≤ J.lo b) (hTouch : J.touches a b) {place : Nat} :
    J.Covers (J.join a b :: rest) place ↔ J.Covers (a :: b :: rest) place := by
  have hGap := J.lo_le_of_touches a b hTouch
  rw [covers_cons, covers_cons, covers_cons, ← or_assoc, J.lo_join a b hOrder, J.hi_join]
  refine or_congr_left ?_
  omega

lemma covers_coalesce {current : ρ}
    (hSorted : (current :: rest).Pairwise fun a b => J.lo a ≤ J.lo b) (place : Nat) :
    J.Covers (J.coalesce current rest) place ↔ J.Covers (current :: rest) place := by
  induction rest generalizing current with
  | nil => rfl
  | cons r rest ih =>
    obtain ⟨hFirst, hRest⟩ := pairwise_cons.mp hSorted
    obtain ⟨hSecond, hTail⟩ := pairwise_cons.mp hRest
    have hOrder := hFirst r mem_cons_self
    rw [coalesce]
    split_ifs with hTouch
    · rw [ih ?_, covers_join hOrder hTouch]
      refine pairwise_cons.mpr ⟨?_, hTail⟩
      intro other hOther
      rw [J.lo_join current r hOrder]
      exact hFirst other (mem_cons_of_mem r hOther)
    · rw [covers_cons, ih hRest, ← covers_cons]

/- Ranges sorted by their starts are left with gaps, and no shorter than they were. -/
lemma separated_coalesce {current : ρ} {k : Nat}
    (hSorted : (current :: rest).Pairwise fun a b => J.lo a ≤ J.lo b)
    (hValid : ∀ r ∈ current :: rest, J.lo r + k ≤ J.hi r) :
    (∀ r ∈ J.coalesce current rest, J.lo current ≤ J.lo r ∧ J.lo r + k ≤ J.hi r) ∧
      (J.coalesce current rest).Pairwise fun a b => J.hi a < J.lo b := by
  induction rest generalizing current with
  | nil =>
    refine ⟨?_, pairwise_singleton _ _⟩
    intro r hr
    rw [mem_singleton.mp hr]
    exact ⟨le_rfl, hValid _ mem_cons_self⟩
  | cons r rest ih =>
    obtain ⟨hFirst, hRest⟩ := pairwise_cons.mp hSorted
    obtain ⟨hSecond, hTail⟩ := pairwise_cons.mp hRest
    rw [forall_mem_cons, forall_mem_cons] at hValid
    have hOrder := hFirst r mem_cons_self
    rw [coalesce]
    split_ifs with hApart
    · have hLo := J.lo_join current r hOrder
      rw [← hLo]
      refine ih (pairwise_cons.mpr ⟨?_, hTail⟩) (forall_mem_cons.mpr ⟨?_, hValid.2.2⟩)
      · intro other hOther
        rw [hLo]
        exact hFirst other (mem_cons_of_mem r hOther)
      · rw [hLo, J.hi_join]
        exact hValid.1.trans (le_max_left _ _)
    have hGap := J.apart current r hOrder (Nat.le_of_add_right_le hValid.2.1)
      (Bool.not_eq_true _ ▸ hApart)
    obtain ⟨hAfter, hSeparated⟩ := ih hRest (forall_mem_cons.mpr hValid.2)
    refine ⟨?_, pairwise_cons.mpr ⟨?_, hSeparated⟩⟩
    · refine forall_mem_cons.mpr ⟨⟨le_rfl, hValid.1⟩, ?_⟩
      intro other hOther
      obtain ⟨hStart, hEnd⟩ := hAfter other hOther
      exact ⟨hOrder.trans hStart, hEnd⟩
    · intro other hOther
      exact hGap.trans_le (hAfter other hOther).1

/- Ranges that do not touch stay as they are. -/
lemma coalesce_eq_self {current : ρ}
    (hApart : (current :: rest).Pairwise fun a b => J.touches a b = false) :
    J.coalesce current rest = current :: rest := by
  induction rest generalizing current with
  | nil => rfl
  | cons r rest ih =>
    rw [pairwise_cons] at hApart
    rw [coalesce, hApart.1 r mem_cons_self, if_neg Bool.false_ne_true, ih hApart.2]

end Joiner

-- Lookups

/- The numbers from one to another have a label. -/
structure Labeled (κ : Type) where
  lo : Int
  hi : Int
  label : κ
  deriving DecidableEq

variable {κ : Type}

/- One more range at the end. -/
def addRange [DecidableEq κ] (ranges : List (Labeled κ)) (next : Labeled κ) : List (Labeled κ) :=
  match ranges.getLast? with
  | none => ranges ++ [next]
  | some last =>
    if last.label = next.label ∧ last.hi + 1 = next.lo then
      ranges.dropLast ++ [{ last with hi := next.hi }]
    else
      ranges ++ [next]

/- The label of the first range with a number. -/
def labelAt (ranges : List (Labeled κ)) (x : Int) : Option κ := (ranges.find? (fun r =>
    decide (r.lo ≤ x ∧ x ≤ r.hi))).map Labeled.label

/- Ranges are not reversed and stand in order. -/
structure Apart (ranges : List (Labeled κ)) : Prop where
  proper : ∀ r ∈ ranges, r.lo ≤ r.hi
  sorted : ranges.Pairwise (fun a b => a.hi < b.lo)

variable {ranges : List (Labeled κ)} {next : Labeled κ}

lemma labelAt_eq_none_iff {x : Int} :
    labelAt ranges x = none ↔ ∀ r ∈ ranges, ¬ (r.lo ≤ x ∧ x ≤ r.hi) := by
  unfold labelAt
  rw [Option.map_eq_none_iff, find?_eq_none]
  simp

lemma apart_nil : Apart ([] : List (Labeled κ)) := by
  refine ⟨?_, List.Pairwise.nil⟩
  intro r hr
  cases hr

/- A range that stands after the others. -/
lemma labelAt_concat (hAfter : ∀ r ∈ ranges, r.hi < next.lo) (x : Int) :
    labelAt (ranges ++ [next]) x =
      if next.lo ≤ x ∧ x ≤ next.hi then some next.label else labelAt ranges x := by
  split_ifs with hIn
  · have hNone : ranges.find? (fun r => decide (r.lo ≤ x ∧ x ≤ r.hi)) = none := by
      rw [find?_eq_none]
      intro r hr
      have hLt := hAfter r hr
      simp only [decide_eq_true_eq]
      omega
    unfold labelAt
    rw [find?_append, hNone, Option.none_or, find?_singleton, if_pos (decide_eq_true hIn),
      Option.map_some]
  · unfold labelAt
    have hNot : ¬ decide (next.lo ≤ x ∧ x ≤ next.hi) := by
      rw [decide_eq_true_eq]
      exact hIn
    rw [find?_append, find?_singleton, if_neg hNot, Option.or_none]

lemma Apart.concat (hApart : Apart ranges) (hAfter : ∀ r ∈ ranges, r.hi < next.lo)
    (hNext : next.lo ≤ next.hi) :
    Apart (ranges ++ [next]) := by
  constructor
  · intro r hr
    rcases mem_append.mp hr with hOld | hNew
    · exact hApart.proper r hOld
    · rw [mem_singleton.mp hNew]
      exact hNext
  rw [pairwise_append]
  refine ⟨hApart.sorted, pairwise_singleton _ _, ?_⟩
  intro r hr other hOther
  rw [mem_singleton.mp hOther]
  exact hAfter r hr

lemma Apart.front {front : List (Labeled κ)} {last : Labeled κ} (hApart : Apart (front ++ [last])) :
    Apart front ∧ (∀ r ∈ front, r.hi < last.lo) ∧ last.lo ≤ last.hi := by
  have hSplit := pairwise_append.mp hApart.sorted
  refine ⟨⟨?_, hSplit.1⟩, ?_, ?_⟩
  · intro r hr
    exact hApart.proper r (mem_append_left _ hr)
  · intro r hr
    exact hSplit.2.2 r hr last (mem_singleton_self last)
  · exact hApart.proper last (mem_append_right _ (mem_singleton_self last))

lemma labelAt_cons (x : Int) :
    labelAt (next :: ranges) x =
      if next.lo ≤ x ∧ x ≤ next.hi then some next.label else labelAt ranges x := by
  unfold labelAt
  rw [find?_cons]
  by_cases hIn : next.lo ≤ x ∧ x ≤ next.hi
  · rw [decide_eq_true hIn, if_pos hIn, Option.map_some]
  · rw [decide_eq_false hIn, if_neg hIn]

lemma labelAt_eq_some {x : Int} {label : κ} (hLabel : labelAt ranges x = some label) :
    ∃ r ∈ ranges, r.label = label ∧ r.lo ≤ x ∧ x ≤ r.hi := by
  rcases Option.map_eq_some_iff.mp hLabel with ⟨r, hFind, hSame⟩
  have hIn := find?_some hFind
  exact ⟨r, mem_of_find?_eq_some hFind, hSame, of_decide_eq_true hIn⟩

lemma Apart.tail (hApart : Apart (next :: ranges)) :
    Apart ranges ∧ (∀ r ∈ ranges, next.hi < r.lo) ∧ next.lo ≤ next.hi := by
  rcases pairwise_cons.mp hApart.sorted with ⟨hAfter, hSorted⟩
  rcases forall_mem_cons.mp hApart.proper with ⟨hNext, hProper⟩
  exact ⟨⟨hProper, hSorted⟩, hAfter, hNext⟩

lemma labelAt_of_mem (hApart : Apart ranges) {r : Labeled κ} (hr : r ∈ ranges) {x : Int}
    (hx : r.lo ≤ x ∧ x ≤ r.hi) :
    labelAt ranges x = some r.label := by
  induction ranges using List.reverseRecOn with
  | nil => cases hr
  | append_singleton front last ih =>
    rcases hApart.front with ⟨hFront, hBefore, _⟩
    rw [labelAt_concat hBefore]
    rcases mem_append.mp hr with hOld | hLast
    · have hLt := hBefore r hOld
      rw [if_neg (by omega)]
      exact ih hFront hOld
    · rw [mem_singleton.mp hLast] at hx ⊢
      rw [if_pos hx]

-- Adding Ranges

variable {κ : Type} [DecidableEq κ] {ranges : List (Labeled κ)} {next : Labeled κ}

lemma addRange_cases (ranges : List (Labeled κ)) (next : Labeled κ) :
    addRange ranges next = ranges ++ [next] ∨
      ∃ front last,
        ranges = front ++ [last] ∧ last.label = next.label ∧ last.hi + 1 = next.lo ∧
          addRange ranges next = front ++ [{ last with hi := next.hi }] := by
  unfold addRange
  cases hLast : ranges.getLast? with
  | none => exact .inl rfl
  | some last =>
    dsimp only
    split_ifs with hJoins
    · have hEq := dropLast_append_getLast? last hLast
      exact .inr ⟨ranges.dropLast, last, hEq.symm, hJoins.1, hJoins.2, rfl⟩
    · exact .inl rfl

lemma apart_addRange (hApart : Apart ranges) (hAfter : ∀ r ∈ ranges, r.hi < next.lo)
    (hNext : next.lo ≤ next.hi) :
    Apart (addRange ranges next) := by
  rcases addRange_cases ranges next with hNew | ⟨front, last, rfl, _, hJoin, hLonger⟩
  · rw [hNew]
    exact hApart.concat hAfter hNext
  rw [hLonger]
  rcases hApart.front with ⟨hFront, hBefore, hLast⟩
  refine hFront.concat hBefore ?_
  dsimp only
  omega

lemma hi_le_of_mem_addRange (hAfter : ∀ r ∈ ranges, r.hi < next.lo) (hNext : next.lo ≤ next.hi) :
    ∀ r ∈ addRange ranges next, r.hi ≤ next.hi := by
  intro r hr
  rcases addRange_cases ranges next with hNew | ⟨front, last, rfl, _, hJoin, hLonger⟩
  · rw [hNew] at hr
    rcases mem_append.mp hr with hOld | hLast
    · have hLt := hAfter r hOld
      omega
    · refine Int.le_of_eq ?_
      rw [mem_singleton.mp hLast]
  rw [hLonger] at hr
  rcases mem_append.mp hr with hOld | hLast
  · have hLt := hAfter r (mem_append_left _ hOld)
    omega
  · refine Int.le_of_eq ?_
    rw [mem_singleton.mp hLast]

/- The new range has its label, and the others keep theirs. -/
lemma labelAt_addRange (hApart : Apart ranges) (hAfter : ∀ r ∈ ranges, r.hi < next.lo)
    (hNext : next.lo ≤ next.hi) (x : Int) :
    labelAt (addRange ranges next) x =
      if next.lo ≤ x ∧ x ≤ next.hi then some next.label else labelAt ranges x := by
  rcases addRange_cases ranges next with hNew | ⟨front, last, rfl, hLabel, hJoin, hLonger⟩
  · rw [hNew]
    exact labelAt_concat hAfter x
  rw [hLonger]
  rcases hApart.front with ⟨_, hBefore, hLast⟩
  have hLong := @labelAt_concat κ front { last with hi := next.hi } hBefore x
  dsimp only at hLong
  rw [hLong, labelAt_concat hBefore, hLabel]
  split
  · split
    · rfl
    · rw [if_pos (by omega)]
  · rw [if_neg (by omega), if_neg (by omega)]

end Ranges
