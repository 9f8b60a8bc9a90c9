import Mathlib.Data.List.Basic

/-
  Searches that give partial results up early.

  Main declarations:
    * `Pruning.Prunes`
    * `Pruning.Prunes.comp`
    * `Pruning.Prunes.flatMap`

  A search goes from one partial result to a list of others. A result that fails a test has none
  beyond it that passes, so that giving it up loses only results that fail.
-/

-- Pruned Searches

namespace Pruning

variable {α ι : Type}

/-
  From a result that passes, the pruned search finds what the
  full one finds, without the results that fail.
-/
structure Prunes (passes : α → Bool) (pruned full : α → List α) : Prop where
  eq : ∀ x : α, passes x = true → pruned x = (full x).filter passes
  back : ∀ x : α, ∀ y ∈ full x, passes y = true → passes x = true

namespace Prunes

variable {passes : α → Bool}

lemma pure : Prunes passes (fun x => [x]) (fun x => [x]) where
  eq := by
    intro x hx
    rw [List.filter_cons, if_pos hx, List.filter_nil]
  back := by
    intro x y hy hPasses
    rw [List.mem_singleton.mp hy] at hPasses
    exact hPasses

lemma nil : Prunes passes (fun _ => []) (fun _ => []) where
  eq := fun _ _ => rfl
  back := nofun

/- One search after another. -/
lemma comp {first first' second second' : α → List α} (hFirst : Prunes passes first' first)
    (hSecond : Prunes passes second' second) :
    Prunes passes (fun x => (first' x).flatMap second') (fun x => (first x).flatMap second) where
  eq := by
    intro x hx
    rw [hFirst.eq x hx, List.filter_flatMap]
    induction first x with
    | nil => rfl
    | cons y rest ih =>
      rw [List.filter_cons, List.flatMap_cons]
      split_ifs with hy
      · rw [List.flatMap_cons, ih, hSecond.eq y hy]
      have hNone : (second y).filter passes = [] := by
        rw [List.filter_eq_nil_iff]
        intro z hz hPasses
        exact hy (hSecond.back y z hz hPasses)
      rw [ih, hNone, List.nil_append]
  back := by
    intro x z hz hPasses
    rcases List.mem_flatMap.mp hz with ⟨y, hy, hyz⟩
    exact hFirst.back x y hy (hSecond.back y z hyz hPasses)

/- Several searches side by side. -/
lemma flatMap {items : List ι} {pruned full : ι → α → List α}
    (hEach : ∀ i ∈ items, Prunes passes (pruned i) (full i)) :
    Prunes passes (fun x => items.flatMap fun i => pruned i x)
      (fun x => items.flatMap fun i => full i x) where
  eq := by
    intro x hx
    rw [List.filter_flatMap]
    refine List.flatMap_congr ?_
    intro i hi
    exact (hEach i hi).eq x hx
  back := by
    intro x y hy
    rcases List.mem_flatMap.mp hy with ⟨i, hi, hFound⟩
    exact (hEach i hi).back x y hFound

end Prunes

end Pruning
