import Mathlib.Data.Nat.Size
import Mathlib.Algebra.Order.Ring.Int

/-
  Values of a text format with objects and arrays, and integers in a binary floating point format.

  Main declarations:
    * `Numbers.roundInt`
    * `Numbers.roundInt_eq_self_iff`
    * `Codes.Json`
    * `Codes.Json.lookup_of_mem`

  A number is cut to a count of binary digits, to the nearest one and to the even one of two that
  are as near. The entries of an object keep their order. Of several entries with one key the last
  one counts.
-/

-- Natural Numbers

namespace Numbers

variable (digits n : Nat)

/- The digits a number has past the kept ones. -/
def excess : Nat := n.size - digits

/- Whether cutting a number goes to the next one up. -/
def roundsUp : Bool :=
  let unit := 2 ^ excess digits n
  let rest := n % unit
  decide (unit < 2 * rest) || (decide (unit = 2 * rest) && decide (n / unit % 2 = 1))

/- The nearest number with that many digits. -/
def roundNat : Nat :=
  let unit := 2 ^ excess digits n
  (n / unit + (roundsUp digits n).toNat) * unit

/- The digits past the kept ones are all zero. -/
def ExactNat : Prop := 2 ^ excess digits n ∣ n

instance (digits n : Nat) :
    Decidable (ExactNat digits n) := inferInstanceAs (Decidable (2 ^ excess digits n ∣ n))

lemma roundsUp_of_exact {digits n : Nat} (hExact : ExactNat digits n) :
    roundsUp digits n = false := by
  have hRest : n % 2 ^ excess digits n = 0 := Nat.mod_eq_zero_of_dvd hExact
  simp only [roundsUp, hRest, mul_zero]
  simp

/- A number survives the cut when it is exact. -/
lemma roundNat_eq_self_iff : roundNat digits n = n ↔ ExactNat digits n := by
  constructor
  · intro hEq
    have hDvd : 2 ^ excess digits n ∣ roundNat digits n := Dvd.intro_left _ rfl
    rwa [hEq] at hDvd
  intro hExact
  simp only [roundNat, roundsUp_of_exact hExact, Bool.toNat_false, add_zero]
  exact Nat.div_mul_cancel hExact

-- Integers

/- The nearest integer with that many digits. -/
def roundInt (n : Int) : Int :=
  if 0 ≤ n then roundNat digits n.natAbs
  else -roundNat digits n.natAbs

/- An integer survives when its size is exact. -/
lemma roundInt_eq_self_iff (n : Int) : roundInt digits n = n ↔ ExactNat digits n.natAbs := by
  rw [← roundNat_eq_self_iff]
  simp only [roundInt]
  split
  · omega
  · omega

end Numbers

namespace Codes

/- A value; its numbers are whole. -/
inductive Json where
  | null
  | bool (value : Bool)
  | number (value : Int)
  | string (value : String)
  | array (items : List Json)
  | object (entries : List (String × Json))

namespace Json

variable {key : String} {entries : List (String × Json)} {value : Json}

/- The last entry with a key. -/
def lookup (key : String) : List (String × Json) → Option Json
  | [] => none
  | (name, value) :: rest =>
    match lookup key rest with
    | some found => some found
    | none => if name = key then some value else none

/- The field of an object. -/
def field? (key : String) : Json → Option Json
  | object entries => lookup key entries
  | _ => none

lemma sizeOf_lookup (hValue : lookup key entries = some value) : sizeOf value < sizeOf entries := by
  induction entries with
  | nil => cases hValue
  | cons entry rest ih =>
    rcases entry with ⟨name, here⟩
    simp only [List.cons.sizeOf_spec, Prod.mk.sizeOf_spec]
    rw [lookup] at hValue
    cases hRest : lookup key rest with
    | some found =>
      rw [hRest] at hValue
      cases hValue
      have hLt := ih hRest
      omega
    | none =>
      simp only [hRest] at hValue
      split at hValue
      · cases hValue
        omega
      · cases hValue

lemma sizeOf_field? {json : Json} (hValue : json.field? key = some value) :
    sizeOf value < sizeOf json := by
  cases json with
  | object entries =>
    have hLt := sizeOf_lookup hValue
    simp only [object.sizeOf_spec]
    omega
  | _ => cases hValue

/- A key that no entry has is not found. -/
lemma lookup_eq_none (hKey : key ∉ entries.map Prod.fst) : lookup key entries = none := by
  induction entries with
  | nil => rfl
  | cons entry rest ih =>
    rcases entry with ⟨name, here⟩
    rw [List.map_cons, List.mem_cons, not_or] at hKey
    rw [lookup, ih hKey.2]
    exact if_neg (Ne.symm hKey.1)

/- An entry of an object with distinct keys is found. -/
lemma lookup_of_mem (hDistinct : (entries.map Prod.fst).Nodup) (hMem : (key, value) ∈ entries) :
    lookup key entries = some value := by
  induction entries with
  | nil => cases hMem
  | cons entry rest ih =>
    rw [List.map_cons, List.nodup_cons] at hDistinct
    rcases List.mem_cons.mp hMem with hHere | hRest
    · subst hHere
      rw [lookup, lookup_eq_none hDistinct.1]
      exact if_pos rfl
    · rw [lookup, ih hDistinct.2 hRest]

end Json

end Codes
