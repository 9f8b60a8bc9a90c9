import Mathlib.Data.Finset.Union
import Mathlib.Data.List.Sort

/-
  Finite partial maps, and sets with a few items inline and more in a shared store.

  Main declarations:
    * `Store.PartialMap`
    * `Store.PartialMap.get_mapValues`
    * `Spill.SpillSet`
    * `Spill.Holds.extend`

  A map carries the finite set of its keys, so that it can be gone through in an order of the keys.
  The store of sets only grows at its end, so that a set keeps its items whatever is stored for
  others.
-/

namespace Store

/- A partial map with the set of its keys. -/
structure PartialMap (κ α : Type) where
  keys : Finset κ
  get : κ → Option α
  mem_keys : ∀ k : κ, k ∈ keys ↔ (get k).isSome = true

namespace PartialMap

variable {κ α β : Type}

/- Maps with the same entries are equal. -/
lemma ext_get {left right : PartialMap κ α} (hGet : ∀ k, left.get k = right.get k) :
    left = right := by
  rcases left with ⟨leftKeys, leftGet, hLeft⟩
  rcases right with ⟨rightKeys, rightGet, hRight⟩
  have hFun : leftGet = rightGet := funext hGet
  subst hFun
  have hKeys : leftKeys = rightKeys := by
    ext k
    rw [hLeft, hRight]
  subst hKeys
  rfl

/- The map without entries. -/
def empty : PartialMap κ α where
  keys := ∅
  get := fun _ => none
  mem_keys := by
    intro k
    simp

@[simp]
lemma get_empty (k : κ) : (empty : PartialMap κ α).get k = none := rfl

/- All values are mapped. -/
def mapValues (f : α → β) (m : PartialMap κ α) : PartialMap κ β where
  keys := m.keys
  get := fun k => (m.get k).map f
  mem_keys := by
    intro k
    rw [Option.isSome_map]
    exact m.mem_keys k

@[simp]
lemma get_mapValues (f : α → β) (m : PartialMap κ α) (k : κ) :
    (m.mapValues f).get k = (m.get k).map f := rfl

/- Entries of the second map fill the gaps of the first. -/
def fill [DecidableEq κ] (m other : PartialMap κ α) : PartialMap κ α where
  keys := m.keys ∪ other.keys
  get := fun k => (m.get k).or (other.get k)
  mem_keys := by
    intro k
    rw [Finset.mem_union, m.mem_keys, other.mem_keys, Option.isSome_or, Bool.or_eq_true]

/- A key of a list of entries is found. -/
lemma mem_keys_lookup [DecidableEq κ] (entries : List (κ × α)) (k : κ) :
    k ∈ (entries.map Prod.fst).toFinset ↔ (entries.lookup k).isSome := by
  induction entries with
  | nil => simp
  | cons entry rest ih =>
    rw [List.map_cons, List.toFinset_cons, Finset.mem_insert, ih, List.lookup_cons]
    by_cases hSame : k = entry.1
    · simp [hSame]
    · simp [hSame, beq_eq_false_iff_ne.mpr hSame]

/- The map of a list; the first entry of a key counts. -/
def ofList [DecidableEq κ] (entries : List (κ × α)) : PartialMap κ α where
  keys := (entries.map Prod.fst).toFinset
  get := fun k => entries.lookup k
  mem_keys := mem_keys_lookup entries

lemma mem_of_get_ofList [DecidableEq κ] {entries : List (κ × α)} {k : κ} {value : α}
    (hGet : (ofList entries).get k = some value) :
    (k, value) ∈ entries := by
  rcases List.lookup_eq_some_iff.mp hGet with ⟨before, after, rfl, _⟩
  exact List.mem_append_right before List.mem_cons_self

end PartialMap

end Store

namespace Spill

open List

/- References are one more than a place in the store. -/
structure SpillSet (α : Type) where
  inlineItems : List α := []
  count : Nat := 0
  overflowed : Bool := false
  spilled : Bool := false
  spillRef : Nat := 0
  deriving DecidableEq

variable {α : Type} {store more items : List α} {set grown : SpillSet α}

/- A set has items, inline or in the store. -/
inductive Holds (store : List α) (set : SpillSet α) (items : List α) : Prop
  | inline (hPlace : set.spilled = false) (hCount : set.count = items.length)
      (hItems : items <+: set.inlineItems)
  | spilled (front back : List α) (hPlace : set.spilled = true) (hCount : set.count = items.length)
      (hRef : set.spillRef = front.length + 1)
      (hStore : store = front ++ items ++ back)

section

variable (hHolds : Holds store set items)

include hHolds

lemma Holds.append (more : List α) : Holds (store ++ more) set items := by
  cases hHolds with
  | inline hPlace hCount hItems => exact .inline hPlace hCount hItems
  | spilled front back hPlace hCount hRef hStore =>
    refine .spilled front (back ++ more) hPlace hCount hRef ?_
    rw [hStore, append_assoc]

lemma Holds.count_eq : set.count = items.length := by
  cases hHolds with
  | inline _ hCount _ => exact hCount
  | spilled _ _ _ hCount _ _ => exact hCount

/- A set at the end of the store grows with it. -/
lemma Holds.extend (hPlace : set.spilled) (hEnd : set.spillRef + set.count = store.length + 1)
    (hGrown : grown.spilled) (hCount : grown.count = (items ++ more).length)
    (hRef : grown.spillRef = set.spillRef) :
    Holds (store ++ more) grown (items ++ more) := by
  cases hHolds with
  | inline hInline _ _ => simp [hInline] at hPlace
  | spilled front back _ hOld hAt hStore =>
    have hLength := congrArg List.length hStore
    rw [length_append, length_append] at hLength
    have hBack : back = [] := eq_nil_of_length_eq_zero (by omega)
    refine .spilled front [] hGrown hCount (hRef.trans hAt) ?_
    rw [hStore, hBack, append_nil, append_nil, append_assoc]

/- The places of the store that a set reads. -/
lemma Holds.within (hPlace : set.spilled) :
    0 < set.spillRef ∧ set.spillRef - 1 + set.count ≤ store.length ∧
      ∀ i < items.length, store[set.spillRef - 1 + i]? = items[i]? := by
  cases hHolds with
  | inline hInline _ _ => simp [hInline] at hPlace
  | spilled front back _ hCount hRef hStore =>
    rw [hRef, hCount, hStore, Nat.add_sub_cancel, append_assoc, length_append, length_append]
    refine ⟨by omega, by omega, fun i hi => ?_⟩
    rw [getElem?_append_right (by omega), Nat.add_sub_cancel_left, getElem?_append_left hi]

lemma Holds.mark (overflowed : Bool) : Holds store { set with overflowed := overflowed } items := by
  cases hHolds with
  | inline hPlace hCount hItems => exact .inline hPlace hCount hItems
  | spilled front back hPlace hCount hRef hStore =>
    exact .spilled front back hPlace hCount hRef hStore

end

/- Items that are read one by one. -/
lemma mapM_range {f : Nat → Option α} (hRead : ∀ i < items.length, f i = items[i]?) :
    (List.range items.length).mapM f = some items := by
  induction items using List.reverseRecOn with
  | nil => rfl
  | append_singleton front last ih =>
    have hFront : (List.range front.length).mapM f = some front := by
      refine ih fun i hi => ?_
      rw [hRead i (by rw [length_append]; omega), getElem?_append_left hi]
    have hLast : f front.length = some last := by
      rw [hRead _ (by rw [length_append, length_singleton]; omega), getElem?_concat_length]
    rw [length_append, length_singleton, range_succ, mapM_append, hFront]
    simp [hLast]

/- A new item is put before the first that is larger. -/
lemma pairwise_orderedInsert [LinearOrder α] {a : α} (hSorted : items.Pairwise (· < ·))
    (hNew : a ∉ items) :
    (items.orderedInsert (· < ·) a).Pairwise (· < ·) := by
  induction items with
  | nil => exact pairwise_singleton _ a
  | cons b rest ih =>
    rcases pairwise_cons.mp hSorted with ⟨hAfter, hRest⟩
    rw [mem_cons, not_or] at hNew
    rw [orderedInsert_cons]
    split_ifs with hLess
    · refine pairwise_cons.mpr ⟨?_, hSorted⟩
      intro c hc
      rcases mem_cons.mp hc with hSame | hc
      · rw [hSame]
        exact hLess
      · exact hLess.trans (hAfter c hc)
    refine pairwise_cons.mpr ⟨?_, ih hRest hNew.2⟩
    intro c hc
    rcases (mem_orderedInsert _).mp hc with hSame | hc
    · rw [hSame]
      exact lt_of_le_of_ne (not_lt.mp hLess) (Ne.symm hNew.1)
    · exact hAfter c hc

end Spill
