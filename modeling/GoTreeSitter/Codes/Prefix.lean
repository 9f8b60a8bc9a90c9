import Mathlib.Data.List.Basic
import Mathlib.Tactic.Ring

/-
  Codes and messages that can be read from the front.

  Main declarations:
    * `Codes.Unambiguous`
    * `Codes.decimal`
    * `Codes.Message`
    * `Codes.unambiguous_sized`
    * `Codes.unambiguous_decimal`
    * `Codes.bigEndianValue_bigEndian`

  A code is unambiguous if a value can be read off the front of a text, whatever follows it. Such
  codes can be written one after the other. A message is read whatever follows it, and what follows
  is left.
-/

-- Unambiguous Codes

namespace Codes

open List

variable {α β γ : Type} {code : α → List γ}

/- A value is determined by a text that starts with it. -/
def Unambiguous (code : α → List γ) : Prop :=
  ∀ (a b : α) (x y : List γ), code a ++ x = code b ++ y → a = b ∧ x = y

/- Texts without a mark, each followed by the mark. -/
lemma unambiguous_terminated {mark : γ} (hInjective : Function.Injective code)
    (hMark : ∀ a, mark ∉ code a) :
    Unambiguous (fun a => code a ++ [mark]) := by
  intro a b x y hEq
  simp only [append_assoc, singleton_append] at hEq
  have hSplit : ∀ u v, mark ∉ u → mark ∉ v → u ++ mark :: x = v ++ mark :: y → u = v ∧ x = y := by
    intro u
    induction u with
    | nil =>
      intro v _ hv hText
      cases v with
      | nil => exact ⟨rfl, (List.cons.inj hText).2⟩
      | cons c v =>
        have hHead : mark = c := (List.cons.inj hText).1
        exact absurd (hHead ▸ mem_cons_self) hv
    | cons c u ih =>
      intro v hu hv hText
      cases v with
      | nil =>
        have hHead : c = mark := (List.cons.inj hText).1
        exact absurd (hHead ▸ mem_cons_self) hu
      | cons d v =>
        rcases List.cons.inj hText with ⟨hHead, hRest⟩
        rcases ih v (fun hMem => hu (mem_cons_of_mem c hMem)) (fun hMem => hv
          (mem_cons_of_mem d hMem)) hRest with ⟨hSame, hTail⟩
        exact ⟨by rw [hHead, hSame], hTail⟩
  rcases hSplit _ _ (hMark a) (hMark b) hEq with ⟨hCode, hRest⟩
  exact ⟨hInjective hCode, hRest⟩

section

variable (hCode : Unambiguous code)

include hCode

lemma Unambiguous.injective : Function.Injective code := by
  intro a b hEq
  exact (hCode a b [] [] (by rw [hEq])).1

/- Different values of another type may be coded. -/
lemma Unambiguous.comp {f : β → α} (hInjective : Function.Injective f) :
    Unambiguous (fun b => code (f b)) := by
  intro a b x y hEq
  rcases hCode _ _ _ _ hEq with ⟨hSame, hRest⟩
  exact ⟨hInjective hSame, hRest⟩

/- Lists of the same length, item by item. -/
lemma flatMap_append_inj {as bs : List α} {x y : List γ} (hLength : as.length = bs.length)
    (hEq : as.flatMap code ++ x = bs.flatMap code ++ y) :
    as = bs ∧ x = y := by
  induction as generalizing bs with
  | nil =>
    cases bs with
    | nil => exact ⟨rfl, hEq⟩
    | cons b bs => cases hLength
  | cons a as ih =>
    cases bs with
    | nil => cases hLength
    | cons b bs =>
      simp only [flatMap_cons, append_assoc] at hEq
      rcases hCode a b _ _ hEq with ⟨hHead, hRest⟩
      rcases ih (Nat.succ.inj hLength) hRest with ⟨hTail, hText⟩
      exact ⟨by rw [hHead, hTail], hText⟩

/- A list of codes that are not empty, up to the end. -/
lemma flatMap_injective (hNonempty : ∀ a, code a ≠ []) :
    Function.Injective (fun as : List α => as.flatMap code) := by
  intro as bs hEq
  induction as generalizing bs with
  | nil =>
    cases bs with
    | nil => rfl
    | cons b bs => exact absurd (append_eq_nil_iff.mp hEq.symm).1 (hNonempty b)
  | cons a as ih =>
    cases bs with
    | nil => exact absurd (append_eq_nil_iff.mp hEq).1 (hNonempty a)
    | cons b bs =>
      rcases hCode a b _ _ hEq with ⟨hHead, hRest⟩
      rw [hHead, ih hRest]

/- A list after its length. -/
lemma unambiguous_counted {number : Int → List γ} (hNumber : Unambiguous number) :
    Unambiguous (fun as : List α => number as.length ++ as.flatMap code) := by
  intro as bs x y hEq
  simp only [append_assoc] at hEq
  rcases hNumber _ _ _ _ hEq with ⟨hLength, hRest⟩
  exact flatMap_append_inj hCode (Int.ofNat.inj hLength) hRest

end

/- A text after its length. -/
lemma unambiguous_sized {number : Int → List γ} (hNumber : Unambiguous number) :
    Unambiguous (fun text : List γ => number text.length ++ text) := by
  intro u v x y hEq
  simp only [append_assoc] at hEq
  rcases hNumber _ _ _ _ hEq with ⟨hLength, hRest⟩
  exact append_inj hRest (Int.ofNat.inj hLength)

-- Decimal Numbers

/- A number in decimal notation, closed by a semicolon. -/
def decimal (value : Int) : List Char := value.repr.toList ++ [';']

lemma isDigit_of_mem_repr {value : Nat} {c : Char} (hMem : c ∈ value.repr.toList) : c.isDigit := by
  rw [Nat.repr_eq_ofList_toDigits, String.toList_ofList] at hMem
  exact Nat.isDigit_of_mem_toDigits (by decide) (by decide) hMem

/- A number has digits and maybe a sign. -/
lemma mem_repr {value : Int} {c : Char} (hMem : c ∈ value.repr.toList) : c.isDigit ∨ c = '-' := by
  rw [Int.repr_eq_if] at hMem
  split at hMem
  · exact .inl (isDigit_of_mem_repr hMem)
  rw [String.toList_append, mem_append] at hMem
  rcases hMem with hSign | hDigit
  · exact .inr (mem_singleton.mp hSign)
  · exact .inl (isDigit_of_mem_repr hDigit)

/- The digits of a natural number can be read back. -/
lemma natRepr_injective : Function.Injective Nat.repr := by
  intro m n hEq
  have hDigits := congrArg String.toList hEq
  have hValue := congrArg (fun digits => Nat.ofDigitChars 10 digits 0) hDigits
  simpa using hValue

lemma natRepr_ne_signed (m n : Nat) : m.repr ≠ "-" ++ n.repr := by
  intro hEq
  have hMem : '-' ∈ m.repr.toList := by
    rw [hEq, String.toList_append]
    exact mem_append_left _ (mem_singleton_self _)
  exact absurd (isDigit_of_mem_repr hMem) (by decide)

lemma intRepr_injective : Function.Injective Int.repr := by
  intro a b hEq
  rw [Int.repr_eq_if, Int.repr_eq_if] at hEq
  split at hEq
  · split at hEq
    · have hNat := natRepr_injective hEq
      omega
    · exact absurd hEq (natRepr_ne_signed _ _)
  split at hEq
  · exact absurd hEq.symm (natRepr_ne_signed _ _)
  have hText := congrArg String.toList hEq
  rw [String.toList_append, String.toList_append] at hText
  have hNat := natRepr_injective (String.toList_inj.mp (append_cancel_left hText))
  omega

/- Numbers closed by a sign that is not one of theirs. -/
lemma unambiguous_repr {mark : Char} (hDigit : mark.isDigit = false) (hSign : mark ≠ '-') :
    Unambiguous (fun value : Int => value.repr.toList ++ [mark]) := by
  refine unambiguous_terminated ?_ ?_
  · intro a b hEq
    exact intRepr_injective (String.toList_inj.mp hEq)
  intro value hMem
  rcases mem_repr hMem with hIs | hIs
  · simp [hDigit] at hIs
  · exact hSign hIs

lemma unambiguous_decimal : Unambiguous decimal := unambiguous_repr (by decide) (by decide)

variable (value : Int)

/- A number is not empty before its semicolon. -/
lemma repr_toList_ne_nil : value.repr.toList ≠ [] := by
  intro hNil
  have hEmpty : value.repr = "" := String.toList_inj.mp (hNil.trans rfl)
  rw [Int.repr_eq_if] at hEmpty
  split at hEmpty
  · exact Nat.repr_ne_empty hEmpty
  have hLength := congrArg String.length hEmpty
  rw [String.length_append] at hLength
  exact absurd hLength (by
    have hSign : "-".length = 1 := rfl
    have hNone : "".length = 0 := rfl
    omega)

/- A number does not start with any other sign. -/
lemma decimal_append_ne {mark : Char} (hDigit : mark.isDigit = false) (hSign : mark ≠ '-')
    (x y : List Char) :
    decimal value ++ x ≠ mark :: y := by
  intro hEq
  unfold decimal at hEq
  cases hText : value.repr.toList with
  | nil => exact repr_toList_ne_nil value hText
  | cons c rest =>
    rw [hText] at hEq
    have hHead : c = mark := (List.cons.inj hEq).1
    have hMem : c ∈ value.repr.toList := by
      rw [hText]
      exact mem_cons_self
    rcases mem_repr hMem with hIs | hIs
    · rw [hHead, hDigit] at hIs
      cases hIs
    · exact hSign (hHead.symm.trans hIs)

/- A number takes at least two signs. -/
lemma two_le_length_decimal : 2 ≤ (decimal value).length := by
  unfold decimal
  rw [length_append, length_singleton]
  have hPos := length_pos_of_ne_nil (repr_toList_ne_nil value)
  omega

end Codes

-- Messages

namespace Codes

variable {γ α : Type}

/- Values are written, and read from the front. -/
structure Message (γ α : Type) where
  encode : α → List γ
  decode : List γ → Option (α × List γ)
  decode_encode : ∀ (a : α) (rest : List γ), decode (encode a ++ rest) = some (a, rest)

namespace Message

/- Where there are two values, none is written as nothing. -/
lemma encode_ne_nil (m : Message γ α) {a b : α} (hDiffer : a ≠ b) : m.encode a ≠ [] := by
  intro hNil
  have hFirst := m.decode_encode a (m.encode b)
  have hThen := m.decode_encode b []
  rw [hNil, List.nil_append] at hFirst
  rw [List.append_nil, hFirst] at hThen
  have hPair := Option.some.inj hThen
  exact hDiffer (congrArg Prod.fst hPair)

/- Codes that can be read from the front are messages. -/
noncomputable def ofUnambiguous {code : α → List γ} (hCode : Unambiguous code) : Message γ α where
  encode := code
  decode text := open Classical in
    if h : ∃ pair : α × List γ, code pair.1 ++ pair.2 = text
    then some h.choose
    else none
  decode_encode := by
    intro a rest
    have hSome : ∃ pair : α × List γ, code pair.1 ++ pair.2 = code a ++ rest := ⟨(a, rest), rfl⟩
    rw [dif_pos hSome]
    have hBoth := hCode _ _ _ _ hSome.choose_spec
    exact congrArg some (Prod.ext hBoth.1 hBoth.2)

end Message

-- Numbers in Bytes

/- The last bytes of a number, the highest first. -/
def bigEndian : Nat → Nat → List UInt8
  | 0, _ => []
  | width + 1, n => UInt8.ofNat (n / 256 ^ width) :: bigEndian width n

/- The number that bytes stand for. -/
def bigEndianValue : List UInt8 → Nat
  | [] => 0
  | b :: rest => b.toNat * 256 ^ rest.length + bigEndianValue rest

@[simp]
lemma length_bigEndian (width n : Nat) : (bigEndian width n).length = width := by
  induction width with
  | zero => rfl
  | succ width ih => rw [bigEndian, List.length_cons, ih]

lemma bigEndianValue_bigEndian (width n : Nat) :
    bigEndianValue (bigEndian width n) = n % 256 ^ width := by
  induction width with
  | zero => simp [bigEndian, bigEndianValue, Nat.mod_one]
  | succ width ih =>
    have hByte : (UInt8.ofNat (n / 256 ^ width)).toNat = n / 256 ^ width % 256 := UInt8.toNat_ofNat'
    rw [bigEndian, bigEndianValue, length_bigEndian, ih, hByte, pow_succ, Nat.mod_mul]
    ring

end Codes
