import Mathlib.Algebra.Order.Ring.Nat
import Mathlib.Data.List.Basic

/-
  Row/column positions in a text over an arbitrary alphabet with one line-break letter.

  Main declarations:
    * `Text.Position`
    * `Text.Position.advance`
    * `Text.positionAt_splice_of_le`
    * `Text.positionAt_splice_tail`

  A position is obtained by reading a text from its start, so every fact below is a fact about
  reading one more piece of text.
-/

-- Positions

namespace Text

open List

/- A zero-based row and a zero-based column. -/
structure Position where
  row : Nat
  column : Nat
deriving DecidableEq

namespace Position

variable {α : Type} [DecidableEq α]

/- The position at the start of a text. -/
def origin : Position where
  row := 0
  column := 0

/- The position after reading one letter. -/
def step (nl : α) (p : Position) (c : α) : Position :=
  if c = nl then
    ⟨p.row + 1, 0⟩
  else
    ⟨p.row, p.column + 1⟩

/- The position after reading a piece of text. -/
def advance (nl : α) (p : Position) (text : List α) : Position := text.foldl (step nl) p

section

variable (nl : α) (p : Position)

@[simp]
lemma advance_nil : advance nl p [] = p := rfl

@[simp]
lemma advance_cons (c : α) (text : List α) :
    advance nl p (c :: text) = advance nl (step nl p c) text := rfl

/- Reading two pieces is reading their concatenation. -/
lemma advance_append (first second : List α) :
    advance nl p (first ++ second) = advance nl (advance nl p first) second := by
  simp [advance, foldl_append]

/- Reading never decreases the row. -/
lemma row_le_advance (text : List α) : p.row ≤ (advance nl p text).row := by
  induction text generalizing p with
  | nil => simp
  | cons c text ih =>
    have hStep : p.row ≤ (step nl p c).row := by
      unfold step
      split <;> simp
    exact hStep.trans (ih (step nl p c))

/- Row and column are bounded by the number of letters. -/
lemma advance_le (text : List α) :
    (advance nl p text).row ≤ p.row + text.length ∧
      (advance nl p text).column ≤ p.column + text.length := by
  induction text generalizing p with
  | nil => simp
  | cons c text ih =>
    have hTail := ih (step nl p c)
    have hStep : (step nl p c).row ≤ p.row + 1 ∧ (step nl p c).column ≤ p.column + 1 := by
      unfold step
      split <;> simp
    simp only [advance_cons, length_cons]
    omega

end

/-
  Reading the same text from two positions: as long as no line break is read both columns move
  together, and after a line break the columns agree. The rows always move together.
-/
lemma advance_rebase (nl : α) (p q : Position) (text : List α) :
    (advance nl p text).row + q.row = (advance nl q text).row + p.row ∧
      (if (advance nl p text).row = p.row then
        p.column ≤ (advance nl p text).column ∧
          (advance nl p text).column + q.column = (advance nl q text).column + p.column
      else (advance nl p text).column = (advance nl q text).column) := by
  induction text generalizing p q with
  | nil => simp [add_comm]
  | cons c text ih =>
    have hTail := ih (step nl p c) (step nl q c)
    have hRow := row_le_advance nl (step nl p c) text
    by_cases hBreak : c = nl
    · simp only [advance_cons, step, hBreak, if_true] at hTail hRow ⊢
      rw [if_neg (by omega)]
      refine ⟨by omega, ?_⟩
      -- The line break resets both columns, so from
      -- there on the two readings have equal columns.
      have hCol := hTail.2
      split at hCol
      · omega
      · exact hCol
    simp only [advance_cons, step, hBreak, if_false] at hTail hRow ⊢
    refine ⟨hTail.1, ?_⟩
    have hCol := hTail.2
    split_ifs at hCol with hSame
    · rw [if_pos hSame]
      omega
    rw [if_neg hSame]
    exact hCol

end Position

-- Positions of Offsets

open Position

variable {α : Type} [DecidableEq α] (nl : α) (text first second : List α) (offset : Nat)

/- The position of an offset of a text. -/
def positionAt : Position :=
  advance nl origin (text.take offset)

@[simp]
lemma positionAt_zero : positionAt nl text 0 = origin := by
  simp [positionAt]

lemma positionAt_prefix : positionAt nl (first ++ second) first.length = advance nl origin first :=
    by rw [positionAt, take_left]

/- Row and column of an offset are at most the offset. -/
lemma positionAt_le :
    (positionAt nl text offset).row ≤ offset ∧ (positionAt nl text offset).column ≤ offset := by
  have hBound := advance_le nl origin (text.take offset)
  have hLength := length_take_le offset text
  simp only [positionAt, origin, zero_add] at hBound ⊢
  omega

variable {offset : Nat}

/- An offset inside the first piece ignores the second. -/
lemma positionAt_append_of_le (hOffset : offset ≤ first.length) :
    positionAt nl (first ++ second) offset = positionAt nl first offset := by
  unfold positionAt
  rw [take_append_of_le_length hOffset]

/- An offset past the first piece continues from its end. -/
lemma positionAt_append_add :
    positionAt nl (first ++ second) (first.length + offset) =
      advance nl (positionAt nl first first.length) (second.take offset) := by
  unfold positionAt
  rw [take_length_add_append, take_length, advance_append]

-- Slices and Splices

variable {α : Type} {start stop : Nat} (text replacement : List α)

/- The letters of a text from `start` up to `stop`. -/
def slice (start stop : Nat) : List α := (text.take stop).drop start

/- Replace the letters from `start` up to `stop`. -/
def splice (start stop : Nat) (replacement : List α) : List α :=
  text.take start ++ replacement ++ text.drop stop

lemma length_slice (hStop : stop ≤ text.length) : (slice text start stop).length = stop - start :=
    by simp [slice, min_eq_left hStop]

lemma slice_append_drop (hOrder : start ≤ stop) :
    slice text start stop ++ text.drop stop = text.drop start := by
  unfold slice
  rw [drop_take]
  have hDrop : text.drop stop = (text.drop start).drop (stop - start) := by
    rw [drop_drop, Nat.add_sub_cancel' hOrder]
  rw [hDrop, take_append_drop]

lemma length_splice (hStart : start ≤ text.length) :
    (splice text start stop replacement).length =
      start + replacement.length + (text.length - stop) := by
  simp [splice, min_eq_left hStart, add_assoc]

lemma splice_append (first old rest replacement : List α) :
    splice (first ++ old ++ rest) first.length (first.length + old.length) replacement =
      first ++ replacement ++ rest := by
  have hTake : (first ++ old ++ rest).take first.length = first := by rw [append_assoc, take_left]
  rw [splice, hTake, ← length_append, drop_left]

lemma take_splice_of_le (hOffset : offset ≤ start) (hStart : start ≤ text.length) :
    (splice text start stop replacement).take offset = text.take offset := by
  have hLength : offset ≤ (text.take start).length := by simp [min_eq_left hStart, hOffset]
  rw [splice, append_assoc, take_append_of_le_length hLength, take_take, min_eq_left hOffset]

/- Splicing keeps every text after it, moved. -/
lemma drop_splice_add (hStart : start ≤ text.length) (offset : Nat) :
    (splice text start stop replacement).drop (start + replacement.length + offset) =
      text.drop (stop + offset) := by
  have hLength : (text.take start ++ replacement).length = start + replacement.length := by
    simp [min_eq_left hStart]
  rw [splice, ← hLength, drop_append, drop_of_length_le (by omega), nil_append, drop_drop]
  congr 1
  omega

variable [DecidableEq α]

lemma positionAt_splice_of_le (nl : α) (text replacement : List α) (hOffset : offset ≤ start)
    (hStart : start ≤ text.length) :
    positionAt nl (splice text start stop replacement) offset = positionAt nl text offset := by
  unfold positionAt
  rw [take_splice_of_le text replacement hOffset hStart]

lemma positionAt_splice_tail (nl : α) (text replacement : List α) (hStart : start ≤ text.length)
    (offset : Nat) :
    positionAt nl (splice text start stop replacement) (start + replacement.length + offset) =
      advance nl
        (positionAt nl (splice text start stop replacement) (start + replacement.length))
        ((text.drop stop).take offset) := by
  have hLength : (text.take start ++ replacement).length = start + replacement.length := by
    simp [min_eq_left hStart]
  have hHead : positionAt nl (splice text start stop replacement)
      (start + replacement.length) =
      positionAt nl (text.take start ++ replacement) (text.take start ++ replacement).length := by
    rw [splice, ← hLength, positionAt_append_of_le nl _ _ le_rfl]
  rw [hHead, splice, ← hLength, positionAt_append_add]

/- Offsets after a slice are read from its end. -/
lemma positionAt_add (nl : α) (text : List α) (start offset : Nat) :
    positionAt nl text (start + offset) =
      advance nl (positionAt nl text start) ((text.drop start).take offset) := by
  unfold positionAt
  rw [take_add, advance_append]

end Text
