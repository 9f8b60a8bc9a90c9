import Mathlib.Data.Set.Finite.Lemmas

/-
  Selections that keep the best item of every key.

  Main declarations:
    * `Selection.Covers`
    * `Selection.Takes`
    * `Selection.Takes.keyAt`
    * `Selection.Covers.exists_isGreatest`

  Items have a key and a rank. They are taken one after the other into a list of survivors, which
  may grow, lose an item to a better one of its key, or turn a new item away for a better one of its
  key.
-/

-- Survivors

namespace Selection

open List

variable {α κ ρ : Type} [LinearOrder ρ] (key : α → κ) (rank : α → ρ)

/-
  Survivors have the key and rank of an item, and every item
  has a survivor of its key that ranks no lower.
-/
structure Covers (items survivors : List α) : Prop where
  sound : ∀ r ∈ survivors, ∃ t ∈ items, key r = key t ∧ rank r = rank t
  complete : ∀ t ∈ items, ∃ r ∈ survivors, key r = key t ∧ rank t ≤ rank r

/- What taking an item in may do to the survivors. -/
inductive Takes (item : α) (survivors : List α) : List α → Prop where
  | append : Takes item survivors (survivors ++ [item])
  | turnAway {other : α} (hMem : other ∈ survivors) (hKey : key other = key item)
      (hRank : rank item ≤ rank other) :
      Takes item survivors survivors
  | replace {idx : Nat} {old new : α} (hAt : survivors[idx]? = some old) (hOld : key old = key item)
      (hBelow : rank old ≤ rank item)
      (hKey : key new = key item)
      (hRank : rank new = rank item) :
      Takes item survivors (survivors.set idx new)

/- The survivor at an index has the key. -/
def KeyAt (survivors : List α) (idx : Nat) (k : κ) : Prop :=
  ∃ r : α, survivors[idx]? = some r ∧ key r = k

-- Steps

variable {α κ ρ : Type} [LinearOrder ρ] {key : α → κ} {rank : α → ρ}
  {items survivors survivors' : List α} {item : α}

lemma covers_nil : Covers key rank [] [] where
  sound := by
    intro r hMem
    cases hMem
  complete := by
    intro t hMem
    cases hMem

lemma covers_refl (items : List α) : Covers key rank items items where
  sound := fun r hMem => ⟨r, hMem, rfl, rfl⟩
  complete := fun t hMem => ⟨t, hMem, rfl, le_refl _⟩

lemma Covers.sound_append (hCovers : Covers key rank items survivors) :
    ∀ r ∈ survivors, ∃ t ∈ items ++ [item], key r = key t ∧ rank r = rank t := by
  intro r hMem
  rcases hCovers.sound r hMem with ⟨t, hItem, hSame⟩
  exact ⟨t, mem_append_left _ hItem, hSame⟩

/- An item is covered by a survivor of its key and rank. -/
lemma complete_append (hOld : ∀ t ∈ items, ∃ r ∈ survivors, key r = key t ∧ rank t ≤ rank r)
    (hNew : ∃ r ∈ survivors, key r = key item ∧ rank item ≤ rank r) :
    ∀ t ∈ items ++ [item], ∃ r ∈ survivors, key r = key t ∧ rank t ≤ rank r := by
  intro t hMem
  rcases mem_append.mp hMem with hItem | hItem
  · exact hOld t hItem
  rw [mem_singleton] at hItem
  rw [hItem]
  exact hNew

/- Replacing a survivor keeps every better one of a key. -/
lemma exists_mem_set {idx : Nat} {old new r : α} (hAt : survivors[idx]? = some old)
    (hKey : key old = key new) (hRank : rank old ≤ rank new) (hMem : r ∈ survivors) :
    ∃ r' ∈ survivors.set idx new, key r' = key r ∧ rank r ≤ rank r' := by
  rcases mem_iff_getElem?.mp hMem with ⟨i, hi⟩
  by_cases hSame : idx = i
  · rw [hSame, hi] at hAt
    cases hAt
    have hLt : idx < survivors.length := by
      rw [hSame]
      exact (List.getElem?_eq_some_iff.mp hi).1
    exact ⟨new, mem_set hLt new, hKey.symm, hRank⟩
  · refine ⟨r, ?_, rfl, le_refl _⟩
    apply mem_of_getElem?
    rw [getElem?_set_ne hSame]
    exact hi

lemma covers_takes (hCovers : Covers key rank items survivors)
    (hTakes : Takes key rank item survivors survivors') :
    Covers key rank (items ++ [item]) survivors' := by
  cases hTakes with
  | append =>
    refine ⟨?_, complete_append ?_ ?_⟩
    · intro r hMem
      rcases mem_append.mp hMem with hOld | hNew
      · exact hCovers.sound_append r hOld
      · rw [mem_singleton] at hNew
        exact ⟨item, by simp, by rw [hNew], by rw [hNew]⟩
    · intro t hItem
      rcases hCovers.complete t hItem with ⟨r, hr, hBest⟩
      exact ⟨r, mem_append_left _ hr, hBest⟩
    · exact ⟨item, by simp, rfl, le_refl _⟩
  | turnAway hMem hKey hRank =>
    exact ⟨hCovers.sound_append, complete_append hCovers.complete ⟨_, hMem, hKey, hRank⟩⟩
  | replace hAt hOld hBelow hKey hRank =>
    refine ⟨?_, complete_append ?_ ?_⟩
    · intro r hMem
      rcases mem_or_eq_of_mem_set hMem with hOther | hNew
      · exact hCovers.sound_append r hOther
      · exact ⟨item, by simp, by rw [hNew, hKey], by rw [hNew, hRank]⟩
    · intro t hItem
      rcases hCovers.complete t hItem with ⟨r, hr, hrKey, hrRank⟩
      rcases exists_mem_set hAt (hOld.trans hKey.symm) (hBelow.trans_eq hRank.symm) hr with
        ⟨r', hr', hKey', hRank'⟩
      exact ⟨r', hr', hKey'.trans hrKey, hrRank.trans hRank'⟩
    · have hLt := (List.getElem?_eq_some_iff.mp hAt).1
      exact ⟨_, mem_set hLt _, hKey, hRank.ge⟩

/- Taking an item in keeps the keys of the survivors. -/
lemma Takes.keyAt (hTakes : Takes key rank item survivors survivors') {idx : Nat} {k : κ}
    (hKeyAt : KeyAt key survivors idx k) :
    KeyAt key survivors' idx k := by
  rcases hKeyAt with ⟨r, hAt, hKey⟩
  have hLt := (List.getElem?_eq_some_iff.mp hAt).1
  cases hTakes with
  | append => exact ⟨r, by rw [getElem?_append_left hLt, hAt], hKey⟩
  | turnAway => exact ⟨r, hAt, hKey⟩
  | @replace j old new hOldAt hOld hBelow hNew hRank =>
    by_cases hSame : j = idx
    · subst hSame
      rw [hAt] at hOldAt
      cases hOldAt
      refine ⟨new, getElem?_set_self hLt, ?_⟩
      rw [hNew, ← hOld, hKey]
    · refine ⟨r, ?_, hKey⟩
      rw [getElem?_set_ne hSame]
      exact hAt

/- The key of a new survivor at the end. -/
lemma keyAt_length (survivors : List α) (item : α) :
    KeyAt key (survivors ++ [item]) survivors.length (key item) := ⟨item, by simp, rfl⟩

-- The Best of Every Key

variable {α κ ρ : Type} [LinearOrder ρ] {key : α → κ} {rank : α → ρ} {items survivors : List α}

/- The keys are those of the items. -/
lemma Covers.exists_key_iff (hCovers : Covers key rank items survivors) (k : κ) :
    (∃ r ∈ survivors, key r = k) ↔ ∃ t ∈ items, key t = k := by
  constructor
  · rintro ⟨r, hr, hKey⟩
    rcases hCovers.sound r hr with ⟨t, ht, hSame, _⟩
    exact ⟨t, ht, hSame.symm.trans hKey⟩
  rintro ⟨t, ht, hKey⟩
  rcases hCovers.complete t ht with ⟨r, hr, hSame, _⟩
  exact ⟨r, hr, hSame.trans hKey⟩

lemma Covers.exists_isGreatest (hCovers : Covers key rank items survivors) {k : κ}
    (hKey : ∃ t ∈ items, key t = k) :
    ∃ r ∈ survivors, key r = k ∧ IsGreatest (rank '' {t | t ∈ items ∧ key t = k}) (rank r) := by
  have hFinite : {t | t ∈ items ∧ key t = k}.Finite :=
    (finite_toSet items).subset (fun t ht => ht.1)
  rcases Set.exists_max_image _ rank hFinite hKey with ⟨best, ⟨hBest, hBestKey⟩, hMax⟩
  rcases hCovers.complete best hBest with ⟨r, hr, hrKey, hrRank⟩
  rcases hCovers.sound r hr with ⟨t, ht, htKey, htRank⟩
  have htk : key t = k := htKey.symm.trans (hrKey.trans hBestKey)
  refine ⟨r, hr, hrKey.trans hBestKey, ⟨t, ⟨ht, htk⟩, htRank.symm⟩, ?_⟩
  rintro _ ⟨s, hs, rfl⟩
  exact (hMax s hs).trans hrRank

end Selection
