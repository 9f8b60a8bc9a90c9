import GoTreeSitter.Text.Position

/-
  Source texts, row/column points and input edits.

  Key definitions include:
    * `Source`
    * `Point`

  Coordinates are 32-bit, as in the parser; `Point.IsAt` and `InputEdit.Describes` say that they are
  the true coordinates of a byte and of a replacement.
-/

-- Source Points

namespace GoTreeSitter

/- A source text is a sequence of bytes. -/
abbrev Source := List UInt8

/- The line-feed byte. -/
def newline : UInt8 := 10

/- A row/column position in source text. -/
structure Point where
  row : UInt32
  column : UInt32
deriving DecidableEq

namespace Point

/- The point of a position, with both fields truncated. -/
def ofPosition (p : Text.Position) : Point where
  row := UInt32.ofNat p.row
  column := UInt32.ofNat p.column

/- The point is the row and column of a byte offset. -/
def IsAt (p : Point) (text : Source) (offset : Nat) : Prop :=
  p.row.toNat = (Text.positionAt newline text offset).row ∧
    p.column.toNat = (Text.positionAt newline text offset).column

instance (p : Point) (text : Source) (offset : Nat) : Decidable (IsAt p text offset) := by
  unfold IsAt
  infer_instance

/- Below `2 ^ 32` bytes truncation loses nothing. -/
lemma isAt_ofPosition (text : Source) {offset : Nat} (hOffset : offset < 2 ^ 32) :
    IsAt (ofPosition (Text.positionAt newline text offset)) text offset := by
  have hBound := Text.positionAt_le newline text offset
  constructor
  · exact UInt32.toNat_ofNat_of_lt' (by
      show _ < 2 ^ 32
      omega)
  exact UInt32.toNat_ofNat_of_lt' (by
    show _ < 2 ^ 32
    omega)

lemma isAt_prefix (first second : Source) (hFirst : first.length < 2 ^ 32) :
    IsAt (ofPosition (Text.Position.advance newline Text.Position.origin first))
      (first ++ second) first.length := by
  rw [← Text.positionAt_prefix newline first second]
  exact isAt_ofPosition (first ++ second) hFirst

/- Points are equal when their numbers are. -/
lemma eq_of_toNat_eq {p q : Point} (hRow : p.row.toNat = q.row.toNat)
    (hColumn : p.column.toNat = q.column.toNat) :
    p = q := by
  cases p
  cases q
  simp only [mk.injEq]
  exact ⟨UInt32.toNat_inj.mp hRow, UInt32.toNat_inj.mp hColumn⟩

/- Two points of one offset are equal. -/
lemma IsAt.unique {p q : Point} {text : Source} {offset : Nat} (hp : p.IsAt text offset)
    (hq : q.IsAt text offset) :
    p = q := eq_of_toNat_eq (hp.1.trans hq.1.symm) (hp.2.trans hq.2.symm)

end Point

-- Input Edits

/- One recorded edit, in byte and point coordinates. -/
structure InputEdit where
  startByte : UInt32
  oldEndByte : UInt32
  newEndByte : UInt32
  startPoint : Point
  oldEndPoint : Point
  newEndPoint : Point
deriving DecidableEq

namespace InputEdit

/- The text after replacing the edit's old range. -/
def applyTo (edit : InputEdit) (text newText : Source) : Source :=
  Text.splice text edit.startByte.toNat edit.oldEndByte.toNat newText

/-
  The six coordinates are those of replacing the bytes from
  `startByte` up to `oldEndByte` of `text` by `newText`.
-/
structure Describes (edit : InputEdit) (text newText : Source) : Prop where
  start_le : edit.startByte.toNat ≤ edit.oldEndByte.toNat
  oldEnd_le : edit.oldEndByte.toNat ≤ text.length
  newEnd_eq : edit.newEndByte.toNat = edit.startByte.toNat + newText.length
  startPoint_isAt : edit.startPoint.IsAt text edit.startByte.toNat
  oldEndPoint_isAt : edit.oldEndPoint.IsAt text edit.oldEndByte.toNat
  newEndPoint_isAt : edit.newEndPoint.IsAt (edit.applyTo text newText) edit.newEndByte.toNat

end InputEdit

end GoTreeSitter
