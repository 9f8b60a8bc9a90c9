import Mathlib.Data.List.Nodup

/-
  Interning values in a pool.

  Main declarations:
    * `Pool.internValue`
    * `Pool.internAll`
    * `Pool.internAll_eq_iff`
    * `Pool.foldl_max_internAll`

  A value is numbered by its place in the pool, and a value that is not there yet goes to the end.
  The numbers of a list of values say which of them are equal.
-/

-- One Value

namespace Pool

open List

variable {α : Type} {pool values : List α} {value : α}

/- Intern a value: its index, and the grown pool. -/
def internValue [DecidableEq α] (pool : List α) (value : α) : Nat × List α :=
  match pool.idxOf? value with
  | some idx => (idx, pool)
  | none => (pool.length, pool ++ [value])

lemma internValue_getElem? [DecidableEq α] (pool : List α) (value : α) :
    (internValue pool value).2[(internValue pool value).1]? = some value := by
  unfold internValue
  cases hFind : pool.idxOf? value with
  | none => simp
  | some idx =>
    rcases idxOf?_eq_some_iff.mp hFind with ⟨hLt, hValue, _⟩
    exact List.getElem?_eq_some_iff.mpr ⟨hLt, hValue⟩

lemma internValue_eq [DecidableEq α] (pool : List α) (value : α) :
    (internValue pool value).2 = pool ∨
      ((internValue pool value).2 = pool ++ [value] ∧ value ∉ pool) := by
  unfold internValue
  cases hFind : pool.idxOf? value with
  | none => exact .inr ⟨rfl, idxOf?_eq_none_iff.mp hFind⟩
  | some idx => exact .inl rfl

lemma internValue_front [DecidableEq α] (pool : List α) (value : α) :
    pool <+: (internValue pool value).2 := by
  rcases internValue_eq pool value with hSame | ⟨hNew, _⟩
  · refine ⟨[], ?_⟩
    rw [append_nil, hSame]
  · rw [hNew]
    exact prefix_append pool [value]

lemma internValue_nodup [DecidableEq α] (hNodup : pool.Nodup) (value : α) :
    (internValue pool value).2.Nodup := by
  rcases internValue_eq pool value with hSame | ⟨hNew, hMem⟩
  · rw [hSame]
    exact hNodup
  rw [hNew]
  exact nodup_append.mpr ⟨hNodup, nodup_singleton value, fun a ha b hb hab =>
      hMem (mem_singleton.mp hb ▸ hab ▸ ha)⟩

lemma mem_of_mem_internValue [DecidableEq α] {other : α}
    (hMem : other ∈ (internValue pool value).2) :
    other ∈ pool ∨ other = value := by
  rcases internValue_eq pool value with hSame | ⟨hNew, _⟩
  · rw [hSame] at hMem
    exact .inl hMem
  · rw [hNew] at hMem
    simpa using hMem

/- What is there keeps its place. -/
lemma getElem_of_front {grown : List α} (hFront : pool <+: grown) {idx : Nat}
    (hAt : pool[idx]? = some value) :
    grown[idx]? = some value := by
  rcases hFront with ⟨rest, rfl⟩
  have hBound := (List.getElem?_eq_some_iff.mp hAt).1
  rw [getElem?_append_left hBound]
  exact hAt

-- All Values of a List

/- Intern the values of a list, one after the other. -/
def internAll [DecidableEq α] (pool : List α) : List α → List Nat × List α
  | [] => ([], pool)
  | value :: values =>
    let interned := internValue pool value
    let rest := internAll interned.2 values
    (interned.1 :: rest.1, rest.2)

/- The pool only grows, and numbers lead to the values. -/
structure Interns (pool values : List α) (numbers : List Nat) (grown : List α) : Prop where
  front : pool <+: grown
  nodup : pool.Nodup → grown.Nodup
  members : ∀ value ∈ grown, value ∈ pool ∨ value ∈ values
  indexed : List.Forall₂ (fun (number : Nat) (value : α) =>
      grown[number]? = some value)
      numbers values

lemma internAll_interns [DecidableEq α] (pool values : List α) :
    Interns pool values (internAll pool values).1 (internAll pool values).2 := by
  induction values generalizing pool with
  | nil => exact ⟨prefix_rfl, id, fun _ hMem => .inl hMem, .nil⟩
  | cons value values ih =>
    have hRest := ih (internValue pool value).2
    refine ⟨(internValue_front pool value).trans hRest.front, ?_, ?_, ?_⟩
    · intro hNodup
      exact hRest.nodup (internValue_nodup hNodup value)
    · intro other hMem
      rcases hRest.members other hMem with hOld | hNew
      · rcases mem_of_mem_internValue hOld with hIn | hSame
        · exact .inl hIn
        · exact .inr (hSame ▸ mem_cons_self)
      · exact .inr (mem_cons_of_mem value hNew)
    · exact .cons (getElem_of_front hRest.front (internValue_getElem? pool value)) hRest.indexed

/- Every value of the list has a number. -/
lemma length_internAll [DecidableEq α] (pool values : List α) :
    (internAll pool values).1.length = values.length :=
  (internAll_interns pool values).indexed.length_eq

/- The number of a value leads to it. -/
lemma getElem_internAll [DecidableEq α] {i number : Nat}
    (hNumber : (internAll pool values).1[i]? = some number) (hValue : values[i]? = some value) :
    (internAll pool values).2[number]? = some value := by
  have hIndexed := (internAll_interns pool values).indexed
  rcases List.getElem?_eq_some_iff.mp hNumber with ⟨hi, rfl⟩
  rcases List.getElem?_eq_some_iff.mp hValue with ⟨hj, rfl⟩
  exact List.Forall₂.get hIndexed hi hj

/- Every value of the list gets into the pool. -/
lemma mem_internAll [DecidableEq α] (hMem : value ∈ values) :
    value ∈ (internAll pool values).2 := by
  rcases mem_iff_getElem?.mp hMem with ⟨i, hAt⟩
  have hBound : i < (internAll pool values).1.length := by
    rw [length_internAll]
    exact (List.getElem?_eq_some_iff.mp hAt).1
  exact mem_of_getElem? (getElem_internAll (getElem?_eq_getElem hBound) hAt)

/- Equal numbers are those of equal values. -/
lemma internAll_eq_iff [DecidableEq α] {i j m n : Nat} {x y : α}
    (hm : (internAll [] values).1[i]? = some m) (hx : values[i]? = some x)
    (hn : (internAll [] values).1[j]? = some n) (hy : values[j]? = some y) :
    m = n ↔ x = y := by
  have hNodup := (internAll_interns [] values).nodup nodup_nil
  have hLeft := getElem_internAll hm hx
  have hRight := getElem_internAll hn hy
  rcases List.getElem?_eq_some_iff.mp hLeft with ⟨hi, hAt⟩
  rcases List.getElem?_eq_some_iff.mp hRight with ⟨hj, hAt'⟩
  rw [← hAt, ← hAt']
  exact (hNodup.getElem_inj_iff).symm

/- The pool is as long as the largest number, plus one. -/
lemma foldl_max_internAll [DecidableEq α] (pool values : List α) :
    (internAll pool values).1.foldl (fun count number => max count (number + 1)) pool.length =
      (internAll pool values).2.length := by
  induction values generalizing pool with
  | nil => rfl
  | cons value values ih =>
    have hCount : max pool.length ((internValue pool value).1 + 1) =
        (internValue pool value).2.length := by
      unfold internValue
      cases hFind : pool.idxOf? value with
      | none =>
        rw [length_append, length_singleton]
        exact Nat.max_eq_right (Nat.le_succ _)
      | some idx =>
        have hBound := (idxOf?_eq_some_iff.mp hFind).1
        exact Nat.max_eq_left hBound
    rw [internAll, foldl_cons, hCount]
    exact ih _

end Pool
