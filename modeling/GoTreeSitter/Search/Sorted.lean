import Mathlib.Algebra.Order.Ring.Nat
import Mathlib.Data.List.Nodup

/-
  Binary search, and lookups in lists of entries.

  Main declarations:
    * `Search.lowerBound`
    * `Search.Sorted`
    * `Search.scan`
    * `Search.lowerBound_of_sorted`
    * `Search.lookup_eq_find`
    * `Search.getElem_fillRow`

  Records may take several places. The search then moves by whole records, of `stride` places each.
  Every lookup is told by the entries of the list: a value is found exactly if it is in the list
  under its key.
-/

-- Search

namespace Search

variable {stride : Nat}

/-
  Narrow `lo` and `hi` to the first record that is not below. The fuel bounds the number of rounds.
-/
def lowerBound (stride : Nat) (below : Nat → Bool) : Nat → Nat → Nat → Nat
| 0, lo, _ => lo
| fuel + 1, lo, hi =>
  if lo < hi then
    let mid := (lo + hi) / 2 / stride * stride
    if below mid then
      lowerBound stride below fuel (mid + stride) hi
    else
      lowerBound stride below fuel lo mid
  else
    lo

variable (hStride : 0 < stride)

include hStride

lemma middle_eq (a b : Nat) :
    (stride * a + stride * b) / 2 / stride * stride = stride * ((a + b) / 2) := by
  rw [← Nat.mul_add, Nat.div_div_eq_div_mul, Nat.mul_comm 2 stride,
    Nat.mul_div_mul_left _ _ hStride, Nat.mul_comm]

/- One round of the search on records. This is the only place where the search is unfolded. -/
lemma lowerBound_step (below : Nat → Bool) (fuel a b : Nat) (hLt : a < b) :
    lowerBound stride below (fuel + 1) (stride * a) (stride * b) =
      if below (stride * ((a + b) / 2)) then
        lowerBound stride below fuel (stride * ((a + b) / 2 + 1)) (stride * b)
      else lowerBound stride below fuel (stride * a) (stride * ((a + b) / 2)) := by
  have hMul : stride * a < stride * b := Nat.mul_lt_mul_of_pos_left hLt hStride
  rw [lowerBound, if_pos hMul]
  rw [middle_eq hStride, Nat.mul_add, Nat.mul_one]

/- The search stops at a record. -/
lemma lowerBound_aligned (below : Nat → Bool) (fuel a b : Nat) :
    ∃ m, lowerBound stride below fuel (stride * a) (stride * b) = stride * m := by
  induction fuel generalizing a b with
  | zero => exact ⟨a, rfl⟩
  | succ fuel ih =>
    by_cases hLt : a < b
    · rw [lowerBound_step hStride below fuel a b hLt]
      split
      · exact ih _ _
      · exact ih _ _
    have hMul : ¬ stride * a < stride * b := by
      intro h
      exact hLt (Nat.lt_of_mul_lt_mul_left h)
    exact ⟨a, by rw [lowerBound, if_neg hMul]⟩

/-
  The search finds the boundary between the records that are below and the others. The invariant is
  that the boundary stays between the two ends.
-/
lemma lowerBound_eq {below : Nat → Bool} {first : Nat} (fuel a b : Nat)
    (hBelow : ∀ j, j < first → below (stride * j))
    (hAbove : ∀ j, first ≤ j → j < b → below (stride * j) = false) (hLow : a ≤ first)
    (hHigh : first ≤ b) (hFuel : b - a ≤ fuel) :
    lowerBound stride below fuel (stride * a) (stride * b) = stride * first := by
  induction fuel generalizing a b with
  | zero =>
    have hSame : a = first := by omega
    rw [lowerBound, hSame]
  | succ fuel ih =>
    by_cases hLt : a < b
    · rw [lowerBound_step hStride below fuel a b hLt]
      by_cases hMid : (a + b) / 2 < first
      · rw [hBelow _ hMid, if_pos rfl]
        exact ih _ _ hAbove (by omega) hHigh (by omega)
      rw [hAbove _ (by omega) (by omega)]
      apply ih _ _ _ hLow (by omega) (by omega)
      intro j hFirst hj
      exact hAbove j hFirst (by omega)
    · have hSame : a = first := by omega
      have hMul : ¬ stride * a < stride * b := by
        intro h
        exact hLt (Nat.lt_of_mul_lt_mul_left h)
      rw [lowerBound, if_neg hMul, hSame]

/- The search finds the record of a key that is there. -/
lemma lowerBound_of_sorted {keys : List Nat} (hSorted : keys.Pairwise (· < ·)) {target i : Nat}
    (hTarget : keys[i]? = some target) {below : Nat → Bool}
    (hRead : ∀ j key, keys[j]? = some key → below (stride * j) = decide (key < target))
    {fuel : Nat} (hFuel : keys.length ≤ fuel) :
    lowerBound stride below fuel 0 (stride * keys.length) = stride * i := by
  rcases List.getElem?_eq_some_iff.mp hTarget with ⟨hi, hKey⟩
  have hOrder := List.pairwise_iff_getElem.mp hSorted
  have hStart : (0 : Nat) = stride * 0 := by simp
  rw [hStart]
  apply lowerBound_eq hStride
  · intro j hj
    have hjLength : j < keys.length := Nat.lt_trans hj hi
    have hLt := hOrder j i hjLength hi hj
    rw [hRead j _ (List.getElem?_eq_getElem hjLength)]
    rw [hKey] at hLt
    exact decide_eq_true hLt
  · intro j hij hj
    rw [hRead j _ (List.getElem?_eq_getElem hj)]
    apply decide_eq_false
    rcases Nat.eq_or_lt_of_le hij with rfl | hLt
    · omega
    have hGreater := hOrder i j hi hj hLt
    rw [hKey] at hGreater
    exact Nat.lt_asymm hGreater
  · exact Nat.zero_le _
  · exact Nat.le_of_lt hi
  · exact hFuel

end Search

-- Sorted Lists

namespace Search

open List

variable {κ α : Type} [LinearOrder κ] {entries : List (κ × α)}

/- The keys of the entries increase. -/
def Sorted (entries : List (κ × α)) : Prop := entries.Pairwise (fun a b => a.1 < b.1)

/- A scan stops behind the place of the key. -/
def scan (target : κ) : List (κ × α) → Option α
  | [] => none
  | entry :: rest =>
    if entry.1 = target then
      some entry.2
    else if target < entry.1 then
      none
    else
      scan target rest

lemma scan_eq_some_iff (hSorted : Sorted entries) (target : κ) (value : α) :
    scan target entries = some value ↔ (target, value) ∈ entries := by
  induction entries with
  | nil => exact ⟨nofun, nofun⟩
  | cons entry rest ih =>
    rcases pairwise_cons.mp hSorted with ⟨hFirst, hRest⟩
    rw [scan, mem_cons]
    split
    · rename_i hKey
      constructor
      · intro hValue
        cases hValue
        exact Or.inl (Prod.ext hKey.symm rfl)
      rintro (rfl | hMem)
      · rfl
      · exact absurd hKey (ne_of_lt (hFirst _ hMem))
    rename_i hKey
    have hNe : (target, value) ≠ entry := fun hEq => hKey (congrArg Prod.fst hEq).symm
    split_ifs with hLt
    · constructor
      · simp
      rintro (hEq | hMem)
      · exact absurd hEq hNe
      · exact absurd (hFirst _ hMem) (lt_asymm hLt)
    · rw [ih hRest]
      exact ⟨Or.inr, fun h => h.resolve_left hNe⟩

lemma Sorted.lt_of_lt (hSorted : Sorted entries) {i j : Nat} {a b : κ × α} (hLt : i < j)
    (ha : entries[i]? = some a) (hb : entries[j]? = some b) :
    a.1 < b.1 := by
  rcases List.getElem?_eq_some_iff.mp ha with ⟨hi, rfl⟩
  rcases List.getElem?_eq_some_iff.mp hb with ⟨hj, rfl⟩
  exact pairwise_iff_getElem.mp hSorted i j hi hj hLt

/- The entry at the lower bound, if it has the key. -/
def bisect (target : κ) (entries : List (κ × α)) : Option α :=
  let below := fun i =>
    (entries[i]?).any (fun entry => entry.1 < target)
  match entries[lowerBound 1 below entries.length 0 entries.length]? with
  | some entry =>
    if entry.1 = target then some entry.2 else none
  | none => none

/- The search goes to an entry with the key. -/
lemma lowerBound_of_key (hSorted : Sorted entries) {target : κ} {value : α} {i : Nat}
    (hAt : entries[i]? = some (target, value)) :
    lowerBound 1 (fun i => (entries[i]?).any (fun entry => entry.1 < target)) entries.length
      0 entries.length = i := by
  have hBound := (List.getElem?_eq_some_iff.mp hAt).1
  have hFound := @lowerBound_eq 1 Nat.one_pos (fun i => (entries[i]?).any (fun entry => entry.1 <
    target)) i entries.length 0 entries.length
  rw [one_mul, one_mul, one_mul] at hFound
  refine hFound ?_ ?_ (Nat.zero_le _) hBound.le (le_refl _)
  · intro j hj
    have hOther := getElem?_eq_getElem (lt_trans hj hBound)
    rw [one_mul, hOther]
    exact decide_eq_true (hSorted.lt_of_lt hj hOther hAt)
  intro j hj hLength
  have hOther := getElem?_eq_getElem hLength
  rw [one_mul, hOther]
  refine decide_eq_false ?_
  rcases Nat.eq_or_lt_of_le hj with rfl | hj
  · rw [hOther] at hAt
    rw [Option.some.inj hAt]
    exact lt_irrefl target
  · exact lt_asymm (hSorted.lt_of_lt hj hAt hOther)

lemma bisect_eq_some_iff (hSorted : Sorted entries) (target : κ) (value : α) :
    bisect target entries = some value ↔ (target, value) ∈ entries := by
  unfold bisect
  dsimp only
  constructor
  · intro hFound
    split at hFound
    · rename_i entry hAt
      split at hFound
      · rename_i hKey
        cases hFound
        rw [← hKey]
        exact mem_of_getElem? hAt
      · cases hFound
    · cases hFound
  · intro hMem
    rcases mem_iff_getElem?.mp hMem with ⟨i, hAt⟩
    rw [lowerBound_of_key hSorted hAt, hAt]
    dsimp only
    rw [if_pos rfl]

end Search

-- Lists with Distinct Keys

namespace Search

open List

variable {κ α : Type} {entries : List (κ × α)}

/- The value of the first entry with the key. -/
def find [DecidableEq κ] (target : κ) (entries : List (κ × α)) : Option α :=
  (entries.find? (fun entry => entry.1 == target)).map Prod.snd

lemma mem_of_find [DecidableEq κ] {target : κ} {value : α}
    (hFind : find target entries = some value) :
    (target, value) ∈ entries := by
  rcases Option.map_eq_some_iff.mp hFind with ⟨entry, hEntry, rfl⟩
  have hTest := find?_some hEntry
  have hKey : entry.1 = target := beq_iff_eq.mp hTest
  rw [← hKey]
  exact mem_of_find?_eq_some hEntry

lemma notMem_of_find [DecidableEq κ] {target : κ} (hFind : find target entries = none) (value : α) :
    (target, value) ∉ entries := by
  intro hMem
  have hNone := find?_eq_none.mp (Option.map_eq_none_iff.mp hFind) _ hMem
  exact hNone (beq_self_eq_true target)

/- Entries with distinct keys are told by their keys. -/
lemma find_eq_some_iff [DecidableEq κ] (hNodup : (entries.map Prod.fst).Nodup) (target : κ)
    (value : α) :
    find target entries = some value ↔ (target, value) ∈ entries := by
  constructor
  · exact mem_of_find
  intro hMem
  cases hFound : find target entries with
  | none => exact absurd hMem (notMem_of_find hFound value)
  | some other =>
    have hOther := mem_of_find hFound
    have hSame : (target, other) = (target, value) := inj_on_of_nodup_map hNodup hOther hMem rfl
    cases hSame
    rfl

/- The first entry with a key is the one `lookup` finds. -/
lemma lookup_eq_find [DecidableEq κ] [BEq κ] [LawfulBEq κ] (target : κ) (entries : List (κ × α)) :
    entries.lookup target = find target entries := by
  induction entries with
  | nil => rfl
  | cons entry rest ih =>
    unfold find at ih ⊢
    rw [lookup_cons, find?_cons, ih]
    by_cases hKey : entry.1 = target
    · have hTest : @BEq.beq κ instBEqOfDecidableEq entry.1 target := decide_eq_true hKey
      rw [hTest, beq_iff_eq.mpr hKey.symm]
      rfl
    · have hTest : @BEq.beq κ instBEqOfDecidableEq entry.1 target = false := decide_eq_false hKey
      rw [hTest, beq_eq_false_iff_ne.mpr (Ne.symm hKey)]

-- Rows

variable {α : Type}

/- The values are written at their keys, within the row. -/
def fillRow (row : List α) (entries : List (Nat × α)) : List α :=
  entries.foldl (fun row entry => row.set entry.1 entry.2) row

@[simp]
lemma length_fillRow (row : List α) (entries : List (Nat × α)) :
    (fillRow row entries).length = row.length := by
  unfold fillRow
  induction entries generalizing row with
  | nil => rfl
  | cons entry rest ih => rw [foldl_cons, ih, length_set]

variable {entries : List (Nat × α)}

/- A place that is no key keeps its value. -/
lemma getElem_fillRow_of_notMem {row : List α} {i : Nat} (hKey : i ∉ entries.map Prod.fst) :
    (fillRow row entries)[i]? = row[i]? := by
  unfold fillRow
  induction entries generalizing row with
  | nil => rfl
  | cons entry rest ih =>
    rw [map_cons, mem_cons, not_or] at hKey
    rw [foldl_cons, ih hKey.2, getElem?_set_ne (Ne.symm hKey.1)]

/- A place that is a key gets the value of the entry. -/
lemma getElem_fillRow {row : List α} (hNodup : (entries.map Prod.fst).Nodup) {i : Nat} {value : α}
    (hMem : (i, value) ∈ entries) (hBound : i < row.length) :
    (fillRow row entries)[i]? = some value := by
  induction entries generalizing row with
  | nil => cases hMem
  | cons entry rest ih =>
    rw [map_cons, nodup_cons] at hNodup
    rcases mem_cons.mp hMem with rfl | hMem
    · show (fillRow (row.set i value) rest)[i]? = _
      rw [getElem_fillRow_of_notMem hNodup.1, getElem?_set_self hBound]
    refine ih hNodup.2 hMem ?_
    rw [length_set]
    exact hBound

end Search
