import Mathlib.Data.List.Basic

/-
  Decoding the first rune of a byte sequence, and encoding.

  Main declarations:
    * `Text.SequenceLead`
    * `Text.decodeRune`
    * `Text.decodeRune_append`
    * `Text.mem_encodeRune_iff`

  A byte that does not start a complete sequence decodes to the replacement rune, with size one.
-/

-- Sequence Leads

namespace Text

/-
  What the first byte of a multi-byte sequence determines: the size of the sequence, the bounds of
  its second byte and its own share of the rune.
-/
structure SequenceLead where
  size : Nat
  low : UInt8
  high : UInt8
  bits : Nat

/- The lead of a multi-byte sequence. -/
def sequenceLead (b : UInt8) : Option SequenceLead :=
  if b < 0xC2 then
    none
  else if b ≤ 0xDF then
    some ⟨2, 0x80, 0xBF, (b &&& 0x1F).toNat⟩
  else if b = 0xE0 then
    some ⟨3, 0xA0, 0xBF, (b &&& 0x0F).toNat⟩
  else if b = 0xED then
    some ⟨3, 0x80, 0x9F, (b &&& 0x0F).toNat⟩
  else if b ≤ 0xEF then
    some ⟨3, 0x80, 0xBF, (b &&& 0x0F).toNat⟩
  else if b = 0xF0 then
    some ⟨4, 0x90, 0xBF, (b &&& 0x07).toNat⟩
  else if b ≤ 0xF3 then
    some ⟨4, 0x80, 0xBF, (b &&& 0x07).toNat⟩
  else if b = 0xF4 then
    some ⟨4, 0x80, 0x8F, (b &&& 0x07).toNat⟩
  else
    none

variable {b : UInt8}

lemma one_lt_size_of_sequenceLead {lead : SequenceLead} (hLead : sequenceLead b = some lead) :
    1 < lead.size := by
  unfold sequenceLead at hLead
  -- Every branch that returns a lead returns a constant.
  repeat' split at hLead
  all_goals cases hLead
  all_goals dsimp only
  all_goals decide

namespace SequenceLead

/- The bytes after the lead are in their bounds. -/
def accepts (lead : SequenceLead) : List UInt8 → Bool
| [] => true
| b :: more =>
  decide (lead.low ≤ b) && decide (b ≤ lead.high) && more.all
      (fun c => decide (0x80 ≤ c) && decide (c ≤ 0xBF))

/- The rune of a complete sequence. -/
def rune (lead : SequenceLead) (tail : List UInt8) : Nat := tail.foldl (fun value b => value * 64 +
    (b &&& 0x3F).toNat) lead.bits

/- The rune if the sequence is complete and accepted. -/
def decodeTail (lead : SequenceLead) (rest : List UInt8) : Option Nat :=
  if rest.length < lead.size - 1 then
    none
  else if lead.accepts (rest.take (lead.size - 1)) then
    some (lead.rune (rest.take (lead.size - 1)))
  else
    none

lemma decodeTail_append (lead : SequenceLead) {first : List UInt8} (second : List UInt8)
    (hFirst : lead.size - 1 ≤ first.length) :
    lead.decodeTail (first ++ second) = lead.decodeTail first := by
  unfold decodeTail
  rw [List.take_append_of_le_length hFirst, if_neg (by
      rw [List.length_append]
      omega),
    if_neg (Nat.not_lt.mpr hFirst)]

end SequenceLead

-- Runes

/- The replacement rune. -/
def runeError : Nat := 0xFFFD

/- The first rune of a byte sequence and its size. -/
def decodeRune : List UInt8 → Nat × Nat
| [] => (runeError, 0)
| b :: rest =>
  if b < 0x80 then
    (b.toNat, 1)
  else
    match sequenceLead b with
    | none => (runeError, 1)
    | some lead =>
      match lead.decodeTail rest with
      | none => (runeError, 1)
      | some rune => (rune, lead.size)

lemma decodeRune_size_pos (b : UInt8) (rest : List UInt8) : 0 < (decodeRune (b :: rest)).2 := by
  rw [decodeRune]
  split
  · exact Nat.one_pos
  cases hLead : sequenceLead b with
  | none => exact Nat.one_pos
  | some lead =>
    have hSize := one_lt_size_of_sequenceLead hLead
    dsimp only
    split
    · exact Nat.one_pos
    · exact Nat.lt_trans Nat.one_pos hSize

/- A rune that ends inside the first piece of a text is read from that piece alone. -/
lemma decodeRune_append {first : List UInt8} (second : List UInt8) (hFirst : first ≠ [])
    (hSize : (decodeRune (first ++ second)).2 ≤ first.length) :
    decodeRune (first ++ second) = decodeRune first := by
  cases first with
  | nil => exact absurd rfl hFirst
  | cons b rest =>
    rw [List.cons_append] at hSize ⊢
    rw [decodeRune] at hSize
    rw [decodeRune, decodeRune]
    by_cases hAscii : b < 0x80
    · rw [if_pos hAscii, if_pos hAscii]
    rw [if_neg hAscii] at hSize
    rw [if_neg hAscii, if_neg hAscii]
    cases hLead : sequenceLead b with
    | none => rfl
    | some lead =>
      rw [hLead] at hSize
      dsimp only at hSize ⊢
      by_cases hRest : lead.size - 1 ≤ rest.length
      · rw [lead.decodeTail_append second hRest]
      -- The piece is too short for the sequence, so
      -- the longer text must not complete it.
      have hShort : lead.decodeTail rest = none := by
        unfold SequenceLead.decodeTail
        rw [if_pos (Nat.not_le.mp hRest)]
      rw [hShort]
      cases hTail : lead.decodeTail (rest ++ second) with
      | none => rfl
      | some rune =>
        rw [hTail, List.length_cons] at hSize
        dsimp only at hSize
        omega

-- Encoding

/- A byte that continues a sequence. -/
def continuation (bits : Nat) : UInt8 := UInt8.ofNat (0x80 + bits % 64)

/- The bytes of a rune. A number that is no rune is replaced. -/
def encodeRune (r : Nat) : List UInt8 :=
  if r ≤ 0x7F then
    [UInt8.ofNat r]
  else if r ≤ 0x7FF then
    [UInt8.ofNat (0xC0 + r / 64), continuation r]
  else if (0xD800 ≤ r ∧ r ≤ 0xDFFF) ∨ 0x10FFFF < r then
    [0xEF, 0xBF, 0xBD]
  else if r ≤ 0xFFFF then
    [UInt8.ofNat (0xE0 + r / 4096), continuation (r / 64), continuation r]
  else
    [UInt8.ofNat (0xF0 + r / 262144), continuation (r / 4096), continuation (r / 64),
      continuation r]

lemma encodeRune_length_pos (r : Nat) : 0 < (encodeRune r).length := by
  unfold encodeRune
  repeat' split
  all_goals exact Nat.succ_pos _

lemma not_ascii_ofNat (hb : b.toNat < 0x80) {n : Nat} (hLow : 0x80 ≤ n) (hHigh : n < 256) :
    b ≠ UInt8.ofNat n := by
  intro hEq
  have hNat := congrArg UInt8.toNat hEq
  rw [UInt8.toNat_ofNat_of_lt' hHigh] at hNat
  omega

lemma not_ascii_continuation (hb : b.toNat < 0x80) (bits : Nat) : b ≠ continuation bits :=
  not_ascii_ofNat hb (by omega) (by omega)

lemma mem_encodeRune_iff (hb : b.toNat < 0x80) (r : Nat) : b ∈ encodeRune r ↔ r = b.toNat := by
  constructor
  · intro hMem
    unfold encodeRune at hMem
    split at hMem
    · rename_i hAscii
      rw [List.mem_singleton.mp hMem, UInt8.toNat_ofNat_of_lt' (Nat.lt_of_le_of_lt hAscii
          (by decide))]
    exfalso
    have hCont := not_ascii_continuation hb
    split at hMem
    · have hLead : b ≠ UInt8.ofNat (0xC0 + r / 64) := not_ascii_ofNat hb (by omega) (by omega)
      simp only [List.mem_cons, hLead, hCont, List.not_mem_nil, or_self] at hMem
    split at hMem
    · have hFirst : b ≠ 0xEF := @not_ascii_ofNat b hb 0xEF (by decide) (by decide)
      have hSecond : b ≠ 0xBF := @not_ascii_ofNat b hb 0xBF (by decide) (by decide)
      have hThird : b ≠ 0xBD := @not_ascii_ofNat b hb 0xBD (by decide) (by decide)
      simp [hFirst, hSecond, hThird] at hMem
    split at hMem
    · have hLead : b ≠ UInt8.ofNat (0xE0 + r / 4096) := not_ascii_ofNat hb (by omega) (by omega)
      simp only [List.mem_cons, hLead, hCont, List.not_mem_nil, or_self] at hMem
    · have hLead : b ≠ UInt8.ofNat (0xF0 + r / 262144) := not_ascii_ofNat hb (by omega) (by omega)
      simp only [List.mem_cons, hLead, hCont, List.not_mem_nil, or_self] at hMem
  · rintro rfl
    unfold encodeRune
    rw [if_pos (by omega), UInt8.ofNat_toNat]
    exact List.mem_singleton_self b

end Text
