import Mathlib.Data.Finset.Card

/-
  Maps that refine each other on a finite set.

  Main declarations:
    * `Partition.Refines`
    * `Partition.Refines.card_le`
    * `Partition.Refines.eq_of_card`

  A map sorts the items of a set into classes. A finer map has at least as many classes, and if it
  has as many the classes are the same.
-/

namespace Partition

variable {ι α β : Type}

/- Items that the first map joins, the second joins too. -/
def Refines (items : Finset ι) (f : ι → α) (g : ι → β) : Prop :=
  ∀ s ∈ items, ∀ t ∈ items, f s = f t → g s = g t

namespace Refines

variable {items : Finset ι} {f : ι → α} {g : ι → β} (hRefines : Refines items f g)

include hRefines

lemma factor [Nonempty β] : ∃ h : α → β, ∀ s ∈ items, g s = h (f s) := by
  classical
  refine ⟨fun c => if hFound : ∃ s, s ∈ items ∧ f s = c then g hFound.choose else
    Classical.arbitrary β, fun s hs => ?_⟩
  have hFound : ∃ t, t ∈ items ∧ f t = f s := ⟨s, hs, rfl⟩
  simp only [hFound, dif_pos]
  exact hRefines s hs _ hFound.choose_spec.1 hFound.choose_spec.2.symm

/- The classes of a coarser map are unions of classes. -/
lemma image_eq [Nonempty β] [DecidableEq α] [DecidableEq β] :
    ∃ h : α → β, (∀ s ∈ items, g s = h (f s)) ∧ items.image g = (items.image f).image h := by
  rcases hRefines.factor with ⟨h, hFactor⟩
  refine ⟨h, hFactor, ?_⟩
  rw [Finset.image_image]
  exact Finset.image_congr (fun s hs => hFactor s (Finset.mem_coe.mp hs))

/- A finer map has at least as many classes. -/
lemma card_le [Nonempty β] [DecidableEq α] [DecidableEq β] :
    (items.image g).card ≤ (items.image f).card := by
  rcases hRefines.image_eq with ⟨h, _, hImage⟩
  rw [hImage]
  exact Finset.card_image_le

/- As many classes are the same classes. -/
lemma eq_of_card [Nonempty β] [DecidableEq α] [DecidableEq β]
    (hCard : (items.image f).card = (items.image g).card) :
    Refines items g f := by
  rcases hRefines.image_eq with ⟨h, hFactor, hImage⟩
  rw [hImage] at hCard
  have hInj := Finset.card_image_iff.mp hCard.symm
  intro s hs t ht hSame
  refine hInj ?_ ?_ ?_
  · exact Finset.mem_coe.mpr (Finset.mem_image_of_mem f hs)
  · exact Finset.mem_coe.mpr (Finset.mem_image_of_mem f ht)
  · rw [← hFactor s hs, ← hFactor t ht]
    exact hSame

end Refines

end Partition
