import GoTreeSitter.Text.Extent
import GoTreeSitter.Tree.Edit
import Mathlib.Data.List.Forall2

/-
  Correctness of editing a syntax tree.

  Main declarations:
    * `Span.Over`
    * `Node.WellFormed`
    * `Tree.edit_wellFormed`
    * `Tree.edit_saturates`

  The node functions are compared with the extents of `Text.Extent.move`, which carry all order and
  nesting facts.
-/

-- Well-Formed Trees

namespace GoTreeSitter

open List UInt32 EditDelta InputEdit

open Text

namespace Span

/- The byte extent of a span. -/
def extent (span : Span) : Extent where
  start := span.startByte.toNat
  stop := span.endByte.toNat

/- The span lies in the text, and the points it records are those of its bytes. -/
structure Over (text : Source) (kind : NodeKind) (span : Span) : Prop where
  valid : span.extent.Valid
  stop_le : span.extent.stop ≤ text.length
  start_isAt : kind.hasPoints = true → span.startPoint.IsAt text span.extent.start
  end_isAt : kind.hasPoints = true → span.endPoint.IsAt text span.extent.stop

end Span

namespace Node

/- The byte extent of a node. -/
def extent (n : Node) : Extent := n.span.extent

/- Every span lies over the text, and the children of a node are inside it, ordered and disjoint. -/
inductive WellFormed (text : Source) : Node → Prop where
  | mk {kind : NodeKind} {span : Span} {dirty : Bool} {children : List Node}
      (hSpan : span.Over text kind)
      (hKind : kind.hasChildren = false → children = [])
      (hInside : ∀ c ∈ children, c.extent.Inside span.extent)
      (hOrder : children.Pairwise (fun c d => c.extent.stop ≤ d.extent.start))
      (hChildren : ∀ c ∈ children, WellFormed text c) :
      WellFormed text (Node.mk kind span dirty children)

/- Every span lies over the text. -/
inductive Coherent (text : Source) : Node → Prop where
  | mk {kind : NodeKind} {span : Span} {dirty : Bool} {children : List Node}
      (hSpan : span.Over text kind)
      (hKind : kind.hasChildren = false → children = [])
      (hChildren : ∀ c ∈ children, Coherent text c) :
      Coherent text (Node.mk kind span dirty children)

/-
  A node and what an edit made of it: either it overlaps the edit and is marked dirty, or it keeps
  its mark and covers the text it covered before.
-/
inductive Edited (edit : InputEdit) (text newText : Source) : Node → Node → Prop where
  | mk {kind : NodeKind} {span span' : Span} {dirty dirty' : Bool} {children children' : List Node}
      (hNode : (span.extent.Meets edit.startByte.toNat edit.oldEndByte.toNat ∧ dirty' = true) ∨
          (dirty' = dirty ∧ slice newText span'.extent.start span'.extent.stop = slice text
          span.extent.start span.extent.stop))
      (hChildren : List.Forall₂ (Edited edit text newText) children children') :
      Edited edit text newText (Node.mk kind span dirty children)
        (Node.mk kind span' dirty' children')

variable {text : Source}

lemma WellFormed.coherent {n : Node} (hn : n.WellFormed text) : n.Coherent text := by
  induction hn with
  | mk hSpan hKind _ _ _ ih => exact .mk hSpan hKind ih

lemma WellFormed.span_over {n : Node} (hn : n.WellFormed text) : n.span.Over text n.kind := by
  cases hn with
  | mk hSpan _ _ _ _ => exact hSpan

end Node

-- Points Behind an Edit

/- A sum in range is not clamped. -/
lemma addUint32Delta_toNat {value : UInt32} {delta : Int} {n : Nat}
    (hSum : (value.toNat : Int) + delta = n) (hn : n < 2 ^ 32) :
    (addUint32Delta value delta).toNat = n := by
  unfold addUint32Delta
  rw [hSum, if_neg (by omega), if_neg (by omega), Int.toNat_natCast]
  exact toNat_ofNat_of_lt' hn

/- Adding nothing changes nothing. -/
@[simp]
lemma addUint32Delta_zero (value : UInt32) : addUint32Delta value 0 = value := by
  apply UInt32.toNat_inj.mp
  exact addUint32Delta_toNat (by simp) value.toNat_lt

variable {edit : InputEdit}

lemma EditDelta.of_hasTailShift_eq_false (hTail : (ofEdit edit).hasTailShift = false) :
    (ofEdit edit).byteDelta = 0 ∧ edit.newEndPoint = edit.oldEndPoint := by
  simpa [ofEdit] using hTail

lemma InputEdit.isSingleByteReplacement_cases (hSingle : edit.isSingleByteReplacement) :
    edit.newEndByte = edit.oldEndByte ∧ edit.oldEndByte.toNat = edit.startByte.toNat + 1 ∧
      edit.newEndPoint = edit.oldEndPoint := by
  simp only [isSingleByteReplacement, Bool.and_eq_true, decide_eq_true_eq] at hSingle
  rcases hSingle with ⟨⟨⟨hByte, hLt⟩, hOne⟩, hPoint⟩
  refine ⟨hByte, ?_, hPoint⟩
  have hLe := le_iff_toNat_le.mpr (le_of_lt (lt_iff_toNat_lt.mp hLt))
  have hSub := UInt32.toNat_sub_of_le _ _ hLe
  rw [hOne] at hSub
  have hValue : (1 : UInt32).toNat = 1 := rfl
  omega

/- Replacing one byte by one byte moves nothing. -/
lemma EditDelta.ofEdit_eq_unshifted (hSingle : edit.isSingleByteReplacement = true) :
    ofEdit edit = unshifted edit := by
  rcases isSingleByteReplacement_cases hSingle with ⟨hByte, -, hPoint⟩
  simp [ofEdit, unshifted, hByte, hPoint]

section

variable {edit : InputEdit} {text newText : Source} {p : Point}

/-
  The shifted point in numbers: `r` and `k` are the row and the column of the point, `r'` and `k'`
  those of its new place, related as readings of one text from the old and from the new end of the
  edit.
-/
lemma shiftPointAfterEdit_toNat
    {r' k' : Nat}
    (hRow : p.row.toNat + edit.newEndPoint.row.toNat = r' + edit.oldEndPoint.row.toNat)
    (hOldRow : edit.oldEndPoint.row.toNat ≤ p.row.toNat)
    (hColumn : if p.row.toNat = edit.oldEndPoint.row.toNat then
      edit.oldEndPoint.column.toNat ≤ p.column.toNat ∧
        p.column.toNat + edit.newEndPoint.column.toNat = k' + edit.oldEndPoint.column.toNat
    else p.column.toNat = k')
    (hr' : r' < 2 ^ 32)
    (hk' : k' < 2 ^ 32) :
    (shiftPointAfterEdit p edit (EditDelta.ofEdit edit).rowDelta).row.toNat = r' ∧
      (shiftPointAfterEdit p edit (EditDelta.ofEdit edit).rowDelta).column.toNat = k' := by
  have hNewRow : (addUint32Delta p.row (ofEdit edit).rowDelta).toNat = r' := by
    apply addUint32Delta_toNat _ hr'
    unfold ofEdit
    dsimp only
    omega
  unfold shiftPointAfterEdit
  rw [if_neg (by
    rw [lt_iff_toNat_lt]
    omega)]
  by_cases hLater : p.row > edit.oldEndPoint.row
  · have hNe := lt_iff_toNat_lt.mp hLater
    rw [if_neg (by omega)] at hColumn
    rw [if_pos hLater]
    exact ⟨hNewRow, hColumn⟩
  have hNot := lt_iff_toNat_lt.not.mp hLater
  rw [if_pos (by omega)] at hColumn
  have hLe : edit.oldEndPoint.column ≤ p.column := le_iff_toNat_le.mpr hColumn.1
  rw [if_neg hLater, if_pos hLe]
  refine ⟨hNewRow, ?_⟩
  apply addUint32Delta_toNat _ hk'
  rw [UInt32.toNat_sub_of_le _ _ hLe]
  omega

lemma Point.IsAt.behind {p q : Point} {first second : Nat} (hq : q.IsAt text first)
    (hp : p.IsAt text second) (hOrder : first ≤ second) :
    q.row.toNat ≤ p.row.toNat ∧ (p.row.toNat = q.row.toNat → q.column.toNat ≤ p.column.toNat) := by
  have hRead := positionAt_add newline text first (second - first)
  rw [Nat.add_sub_cancel' hOrder] at hRead
  have hRows := Position.row_le_advance newline (positionAt newline text first)
    ((text.drop first).take (second - first))
  have hSelf := Position.advance_rebase newline (positionAt newline text first) (positionAt newline
    text first) ((text.drop first).take (second - first))
  rw [← hRead, ← hq.1, ← hp.1] at hRows
  rw [← hRead, ← hq.1, ← hp.1, ← hq.2, ← hp.2] at hSelf
  refine ⟨hRows, ?_⟩
  intro hRow
  have hColumn := hSelf.2
  rw [if_pos hRow] at hColumn
  exact hColumn.1

lemma shiftPointAfterEdit_eq_self (hOld : edit.oldEndPoint.IsAt text edit.oldEndByte.toNat)
    (hPoints : edit.newEndPoint = edit.oldEndPoint) {offset : Nat} (hPoint : p.IsAt text offset)
    (hOffset : edit.oldEndByte.toNat ≤ offset) :
    shiftPointAfterEdit p edit (EditDelta.ofEdit edit).rowDelta = p := by
  have hBehind := hOld.behind hPoint hOffset
  have hColumn : if p.row.toNat = edit.oldEndPoint.row.toNat then
      edit.oldEndPoint.column.toNat ≤ p.column.toNat ∧
        p.column.toNat + edit.newEndPoint.column.toNat =
          p.column.toNat + edit.oldEndPoint.column.toNat
    else p.column.toNat = p.column.toNat := by
    rw [hPoints]
    split
    · omega
    · rfl
  have hShift := shiftPointAfterEdit_toNat (by rw [hPoints]) hBehind.1 hColumn
    p.row.toNat_lt p.column.toNat_lt
  exact Point.eq_of_toNat_eq hShift.1 hShift.2

section

variable (hEdit : edit.Describes text newText)

include hEdit

lemma InputEdit.Describes.length_applyTo :
    (edit.applyTo text newText).length =
      text.length - edit.oldEndByte.toNat + edit.newEndByte.toNat := by
  have hOrder := hEdit.start_le
  have hStop := hEdit.oldEnd_le
  have hNew := hEdit.newEnd_eq
  unfold applyTo
  rw [length_splice text newText (by omega)]
  omega

/- Points in front of the edit stay. -/
lemma isAt_before {offset : Nat} (hPoint : p.IsAt text offset)
    (hOffset : offset ≤ edit.startByte.toNat) :
    p.IsAt (edit.applyTo text newText) offset := by
  have hOrder := hEdit.start_le
  have hStop := hEdit.oldEnd_le
  unfold Point.IsAt applyTo
  rw [positionAt_splice_of_le newline text newText hOffset (by omega)]
  exact hPoint

lemma shiftPointAfterEdit_isAt (hShort : (edit.applyTo text newText).length < 2 ^ 32)
    {offset : Nat} (hPoint : p.IsAt text offset) (hOffset : edit.oldEndByte.toNat ≤ offset)
    (hLength : offset ≤ text.length) :
    (shiftPointAfterEdit p edit (EditDelta.ofEdit edit).rowDelta).IsAt
      (edit.applyTo text newText) (offset - edit.oldEndByte.toNat + edit.newEndByte.toNat) := by
  have hOrder := hEdit.start_le
  have hNew := hEdit.newEnd_eq
  rw [hEdit.length_applyTo] at hShort
  have hBound := positionAt_le newline (edit.applyTo text newText)
    (offset - edit.oldEndByte.toNat + edit.newEndByte.toNat)
  have hOld := hEdit.oldEndPoint_isAt
  have hEnd := hEdit.newEndPoint_isAt
  rcases positionAt_splice_shift newline text newText hOffset (hOrder.trans hEdit.oldEnd_le) with
    ⟨rest, hBefore, hAfter⟩
  rw [← hNew] at hAfter
  change positionAt newline (edit.applyTo text newText) _ = Position.advance newline (positionAt
      newline (edit.applyTo text newText) _) rest at hAfter
  have hRebase := Position.advance_rebase newline (positionAt newline text edit.oldEndByte.toNat)
    (positionAt newline (edit.applyTo text newText) edit.newEndByte.toNat) rest
  have hRows := Position.row_le_advance newline (positionAt newline text edit.oldEndByte.toNat) rest
  rw [← hBefore, ← hAfter, ← hOld.1, ← hOld.2, ← hEnd.1,
    ← hEnd.2, ← hPoint.1, ← hPoint.2] at hRebase
  rw [← hBefore, ← hOld.1, ← hPoint.1] at hRows
  exact shiftPointAfterEdit_toNat hRebase.1 hRows hRebase.2 (by omega) (by omega)

end

end

-- Edited Spans

namespace Span

variable {kind : NodeKind} {span : Span} {byte : UInt32} {point : Point}

@[simp]
lemma extent_setStart :
    (span.setStart kind byte point).extent = ⟨byte.toNat, span.extent.stop⟩ := by
  unfold setStart
  split <;> rfl

@[simp]
lemma extent_setEnd : (span.setEnd kind byte point).extent = ⟨span.extent.start, byte.toNat⟩ := by
  unfold setEnd
  split <;> rfl

@[simp]
lemma endPoint_setStart : (span.setStart kind byte point).endPoint = span.endPoint := by
  unfold setStart
  split <;> rfl

@[simp]
lemma startPoint_setEnd : (span.setEnd kind byte point).startPoint = span.startPoint := by
  unfold setEnd
  split <;> rfl

lemma startPoint_setStart (hPoints : kind.hasPoints) :
    (span.setStart kind byte point).startPoint = point := by rw [setStart, if_pos hPoints]

lemma endPoint_setEnd (hPoints : kind.hasPoints) :
    (span.setEnd kind byte point).endPoint = point := by rw [setEnd, if_pos hPoints]

variable {edit : InputEdit} {text newText : Source}

section

variable (hEdit : edit.Describes text newText)

include hEdit

lemma addUint32Delta_byteDelta (hShort : (edit.applyTo text newText).length < 2 ^ 32)
    (hByte : edit.oldEndByte.toNat ≤ byte.toNat) (hLength : byte.toNat ≤ text.length) :
    (addUint32Delta byte (EditDelta.ofEdit edit).byteDelta).toNat =
      byte.toNat - edit.oldEndByte.toNat + edit.newEndByte.toNat := by
  rw [hEdit.length_applyTo] at hShort
  apply addUint32Delta_toNat
  · unfold ofEdit
    dsimp only
    omega
  · omega

lemma Over.before (hSpan : span.Over text kind) (hStop : span.extent.stop ≤ edit.startByte.toNat) :
    span.Over (edit.applyTo text newText) kind := by
  have hNew := hEdit.newEnd_eq
  have hValid := hSpan.valid
  unfold Extent.Valid at hValid
  refine ⟨hSpan.valid, ?_, ?_, ?_⟩
  · rw [hEdit.length_applyTo]
    omega
  · intro hPoints
    exact isAt_before hEdit (hSpan.start_isAt hPoints) (by omega)
  · intro hPoints
    exact isAt_before hEdit (hSpan.end_isAt hPoints) hStop

section

variable (hShort : (edit.applyTo text newText).length < 2 ^ 32) (hSpan : span.Over text kind)
  (hStart : edit.oldEndByte.toNat ≤ span.extent.start)

include hShort hSpan hStart

lemma extent_shiftAfterEdit :
    (span.shiftAfterEdit (.ofEdit edit) kind).extent =
      span.extent.shift edit.oldEndByte.toNat edit.newEndByte.toNat := by
  have hValid := hSpan.valid
  have hStop := hSpan.stop_le
  unfold Extent.Valid at hValid
  simp only [extent] at hValid hStop hStart
  simp only [shiftAfterEdit, extent_setEnd, extent_setStart, Extent.shift, Extent.mk.injEq]
  constructor
  · exact addUint32Delta_byteDelta hEdit hShort hStart (by omega)
  · exact addUint32Delta_byteDelta hEdit hShort (by omega) hStop

lemma Over.shift :
    (span.shiftAfterEdit (.ofEdit edit) kind).Over (edit.applyTo text newText) kind := by
  have hValid := hSpan.valid
  have hStop := hSpan.stop_le
  have hExtent := extent_shiftAfterEdit hEdit hShort hSpan hStart
  unfold Extent.Valid at hValid
  constructor
  · rw [hExtent]
    exact Extent.shift_valid hSpan.valid
  · rw [hExtent, hEdit.length_applyTo]
    simp only [Extent.shift]
    omega
  · intro hPoints
    rw [hExtent]
    simp only [shiftAfterEdit, startPoint_setEnd, startPoint_setStart hPoints]
    exact shiftPointAfterEdit_isAt hEdit hShort (hSpan.start_isAt hPoints) hStart (by omega)
  · intro hPoints
    rw [hExtent]
    simp only [shiftAfterEdit, endPoint_setEnd hPoints]
    exact shiftPointAfterEdit_isAt hEdit hShort (hSpan.end_isAt hPoints) (by omega) hStop

end

lemma shiftAfterEdit_eq_self (hTail : (EditDelta.ofEdit edit).hasTailShift = false)
    (hSpan : span.Over text kind) (hStart : edit.oldEndByte.toNat ≤ span.extent.start) :
    span.shiftAfterEdit (.ofEdit edit) kind = span := by
  have hValid := hSpan.valid
  unfold Extent.Valid at hValid
  rcases of_hasTailShift_eq_false hTail with ⟨hDelta, hPoints⟩
  unfold shiftAfterEdit
  rw [hDelta, addUint32Delta_zero, addUint32Delta_zero, ofEdit_edit]
  cases hHas : kind.hasPoints with
  | true =>
    rw [shiftPointAfterEdit_eq_self hEdit.oldEndPoint_isAt hPoints (hSpan.start_isAt hHas) hStart,
      shiftPointAfterEdit_eq_self hEdit.oldEndPoint_isAt hPoints (hSpan.end_isAt hHas) (by omega)]
    simp [setStart, setEnd]
  | false => simp [setStart, setEnd, hHas]

end

lemma extent_adjustStart :
    (span.adjustStart (.ofEdit edit) kind).extent =
      ⟨if edit.startByte.toNat < span.extent.start then edit.newEndByte.toNat
      else span.extent.start, span.extent.stop⟩ := by
  unfold adjustStart
  rw [ofEdit_edit]
  by_cases hInner : span.startByte > edit.startByte
  · have hLt := lt_iff_toNat_lt.mp hInner
    rw [if_pos hInner, extent_setStart, if_pos (by simpa [extent] using hLt)]
  · have hNot := lt_iff_toNat_lt.not.mp hInner
    rw [if_neg hInner, if_neg (by simpa [extent] using hNot)]

section

variable (hEdit : edit.Describes text newText)

include hEdit

lemma adjustStart_isAt (hSpan : span.Over text kind) (hPoints : kind.hasPoints) :
    (span.adjustStart (.ofEdit edit) kind).startPoint.IsAt (edit.applyTo text newText)
      (span.adjustStart (.ofEdit edit) kind).extent.start := by
  unfold adjustStart
  rw [ofEdit_edit]
  by_cases hInner : span.startByte > edit.startByte
  · rw [if_pos hInner, startPoint_setStart hPoints, extent_setStart]
    exact hEdit.newEndPoint_isAt
  have hNot := lt_iff_toNat_lt.not.mp hInner
  rw [if_neg hInner]
  exact isAt_before hEdit (hSpan.start_isAt hPoints) (Nat.not_lt.mp hNot)

section

variable (hShort : (edit.applyTo text newText).length < 2 ^ 32)

include hShort

lemma extent_adjustEnd (hStop : span.extent.stop ≤ text.length) :
    (span.adjustEnd (.ofEdit edit) kind).extent =
      ⟨span.extent.start, if span.extent.stop ≤ edit.oldEndByte.toNat then
        edit.newEndByte.toNat else span.extent.stop - edit.oldEndByte.toNat +
        edit.newEndByte.toNat⟩ := by
  unfold adjustEnd
  rw [ofEdit_edit]
  by_cases hInner : span.endByte ≤ edit.oldEndByte
  · have hLe := le_iff_toNat_le.mp hInner
    rw [if_pos hInner, extent_setEnd, if_pos (by simpa [extent] using hLe)]
  have hNot := le_iff_toNat_le.not.mp hInner
  rw [if_neg hInner, extent_setEnd, if_neg (by simpa [extent] using hNot),
    addUint32Delta_byteDelta hEdit hShort (by omega) hStop]
  rfl

lemma extent_adjustOverlap (hSpan : span.Over text kind) :
    (span.adjustOverlap (.ofEdit edit) kind).extent =
      span.extent.clamp edit.startByte.toNat edit.oldEndByte.toNat edit.newEndByte.toNat := by
  unfold adjustOverlap
  rw [extent_adjustEnd hEdit hShort, extent_adjustStart]
  · rfl
  · rw [extent_adjustStart]
    exact hSpan.stop_le

lemma adjustEnd_isAt (hStop : span.extent.stop ≤ text.length)
    (hEnd : span.endPoint.IsAt text span.extent.stop) (hPoints : kind.hasPoints) :
    (span.adjustEnd (.ofEdit edit) kind).endPoint.IsAt (edit.applyTo text newText)
      (span.adjustEnd (.ofEdit edit) kind).extent.stop := by
  rw [extent_adjustEnd hEdit hShort hStop]
  unfold adjustEnd
  rw [ofEdit_edit]
  by_cases hInner : span.endByte ≤ edit.oldEndByte
  · have hLe : span.extent.stop ≤ edit.oldEndByte.toNat := le_iff_toNat_le.mp hInner
    rw [if_pos hInner, endPoint_setEnd hPoints]
    rw [if_pos hLe]
    exact hEdit.newEndPoint_isAt
  have hNot : ¬ span.extent.stop ≤ edit.oldEndByte.toNat := le_iff_toNat_le.not.mp hInner
  rw [if_neg hInner, endPoint_setEnd hPoints]
  rw [if_neg hNot]
  exact shiftPointAfterEdit_isAt hEdit hShort hEnd (by omega) hStop

lemma Over.adjust (hSpan : span.Over text kind)
    (hMeets : span.extent.Meets edit.startByte.toNat edit.oldEndByte.toNat) :
    (span.adjustOverlap (.ofEdit edit) kind).Over (edit.applyTo text newText) kind := by
  have hNew := hEdit.newEnd_eq
  have hStop := hSpan.stop_le
  have hExtent := extent_adjustOverlap hEdit hShort hSpan
  have hStarted : (span.adjustStart (.ofEdit edit) kind).extent.stop = span.extent.stop := by rw
      [extent_adjustStart]
  have hEndPoint : (span.adjustStart (.ofEdit edit) kind).endPoint = span.endPoint := by
    unfold adjustStart
    split
    · exact endPoint_setStart
    · rfl
  constructor
  · rw [hExtent]
    exact Extent.clamp_valid (by omega) hMeets
  · rw [hExtent, hEdit.length_applyTo]
    simp only [Extent.clamp]
    split <;> omega
  · intro hPoints
    have hStart := adjustStart_isAt hEdit hSpan hPoints
    have hSame : (span.adjustOverlap (.ofEdit edit) kind).extent.start =
        (span.adjustStart (.ofEdit edit) kind).extent.start := by
      rw [hExtent, extent_adjustStart]
      rfl
    rw [hSame]
    unfold adjustOverlap adjustEnd
    split
    · rw [startPoint_setEnd]
      exact hStart
    · rw [startPoint_setEnd]
      exact hStart
  · intro hPoints
    apply adjustEnd_isAt hEdit hShort _ _ hPoints
    · rw [hStarted]
      exact hStop
    · rw [hStarted, hEndPoint]
      exact hSpan.end_isAt hPoints

end

end

/- A span around one replaced byte stays: it starts before the byte, and its end does not move. -/
lemma adjustOverlap_eq_self (hOld : edit.oldEndPoint.IsAt text edit.oldEndByte.toNat)
    (hSingle : edit.isSingleByteReplacement) (hSpan : span.Over text kind)
    (hMeets : span.extent.Meets edit.startByte.toNat edit.oldEndByte.toNat) :
    span.adjustOverlap (.ofEdit edit) kind = span := by
  rcases isSingleByteReplacement_cases hSingle with ⟨hByte, hOne, hPoint⟩
  rcases hMeets with ⟨hStop, hStart⟩
  have hStarted : span.adjustStart (.ofEdit edit) kind = span := by
    unfold adjustStart
    rw [if_neg]
    intro hInner
    have hLt := lt_iff_toNat_lt.mp hInner
    simp only [ofEdit_edit, extent] at hLt hStart
    omega
  unfold adjustOverlap
  rw [hStarted]
  unfold adjustEnd
  rw [ofEdit_edit, hByte, hPoint]
  by_cases hInner : span.endByte ≤ edit.oldEndByte
  · have hLe := le_iff_toNat_le.mp hInner
    have hEnd : edit.oldEndByte = span.endByte := by
      apply UInt32.toNat_inj.mp
      simp only [extent] at hStop
      omega
    rw [if_pos hInner, hEnd]
    cases hHas : kind.hasPoints with
    | true =>
      rw [hEnd] at hOld
      rw [hOld.unique (hSpan.end_isAt hHas)]
      simp [setEnd]
    | false => simp [setEnd, hHas]
  · have hNot := le_iff_toNat_le.not.mp hInner
    have hDelta : (ofEdit edit).byteDelta = 0 := by
      rw [ofEdit_eq_unshifted hSingle]
      rfl
    rw [if_neg hInner, hDelta, addUint32Delta_zero]
    cases hHas : kind.hasPoints with
    | true =>
      rw [shiftPointAfterEdit_eq_self hOld hPoint (hSpan.end_isAt hHas)
        (le_of_lt (Nat.not_le.mp hNot))]
      simp [setEnd]
    | false => simp [setEnd, hHas]

end Span

-- Edited Nodes

namespace Node

lemma shiftChildrenAfterEdit_eq_map (d : EditDelta) (children : List Node) :
    shiftChildrenAfterEdit d children = children.map (shiftSubtreeAfterEdit d) := by
  induction children with
  | nil => rfl
  | cons child children ih => rw [shiftChildrenAfterEdit, ih, map_cons]

variable {d : EditDelta} {n : Node} {children : List Node}

lemma editNodeWithDelta_before (hStop : n.endByte ≤ d.edit.startByte) :
    n.editNodeWithDelta d = n := by
  cases n with
  | mk kind span dirty children =>
    rw [editNodeWithDelta]
    exact if_pos hStop

lemma editNodeWithDelta_after (hStop : ¬ n.endByte ≤ d.edit.startByte)
    (hStart : n.startByte ≥ d.edit.oldEndByte) :
    n.editNodeWithDelta d = if ! d.hasTailShift then n else n.shiftSubtreeAfterEdit d := by
  cases n with
  | mk kind span dirty children =>
    rw [editNodeWithDelta]
    exact (if_neg hStop).trans (if_pos hStart)

/-
  The loop over edited children edits each of them: the children that are skipped, and those left
  behind when the loop stops early, are not changed by an edit either.
-/
lemma editChildrenWithDelta_eq_map (d : EditDelta) (children : List Node)
    (hValid : ∀ c ∈ children, c.extent.Valid)
    (hOrder : children.Pairwise (fun c e => c.extent.stop ≤ e.extent.start)) :
    editChildrenWithDelta d children = children.map (editNodeWithDelta d) := by
  induction children with
  | nil => rfl
  | cons child children ih =>
    rw [pairwise_cons] at hOrder
    have hTail := ih (fun c hc => hValid c (mem_cons_of_mem _ hc)) hOrder.2
    rw [editChildrenWithDelta, map_cons, hTail]
    split
    · rename_i hStop
      rw [editNodeWithDelta_before hStop]
    rename_i hStop
    split
    · rename_i hStart
      rw [editNodeWithDelta_after hStop hStart]
      cases hShift : d.hasTailShift with
      | true => rfl
      | false =>
        -- The rest of the children start behind the
        -- edit as well.
        have hRest : ∀ c ∈ children, c.editNodeWithDelta d = c := by
          intro c hc
          by_cases hc' : c.endByte ≤ d.edit.startByte
          · exact editNodeWithDelta_before hc'
          have hBehind : c.startByte ≥ d.edit.oldEndByte := by
            have hFirst := hOrder.1 c hc
            have hChild := hValid child (by simp)
            have hLe := le_iff_toNat_le.mp hStart
            apply le_iff_toNat_le.mpr
            exact hLe.trans (hChild.trans hFirst)
          rw [editNodeWithDelta_after hc' hBehind, hShift]
          rfl
        have hMap : children.map (editNodeWithDelta d) = children := (map_congr_left hRest).trans
            (map_id' children)
        rw [hMap]
        rfl
    · rfl

variable {edit : InputEdit} {text newText : Source}

lemma children_eq {kind : NodeKind} (f : Node → Node)
    (hKind : kind.hasChildren = false → children = []) :
    (if kind.hasChildren then children.map f else children) = children.map f := by
  cases hHas : kind.hasChildren with
  | true => rfl
  | false =>
    rw [hKind hHas]
    rfl

section

variable (hEdit : edit.Describes text newText)

include hEdit

lemma shiftSubtreeAfterEdit_wellFormed
    (hShort : (edit.applyTo text newText).length < 2 ^ 32)
    (hn : n.WellFormed text)
    (hStart : edit.oldEndByte.toNat ≤ n.extent.start) :
    (n.shiftSubtreeAfterEdit (.ofEdit edit)).extent =
      n.extent.shift edit.oldEndByte.toNat edit.newEndByte.toNat ∧
      (n.shiftSubtreeAfterEdit (.ofEdit edit)).WellFormed (edit.applyTo text newText) ∧
      Edited edit text (edit.applyTo text newText) n (n.shiftSubtreeAfterEdit (.ofEdit edit)) := by
  induction hn with
  | @mk kind span dirty children hSpan hKind hInside hOrder hChildren ih =>
    have hExtent := Span.extent_shiftAfterEdit hEdit hShort hSpan hStart
    have hChild : ∀ c ∈ children, edit.oldEndByte.toNat ≤ c.extent.start := by
      intro c hc
      exact hStart.trans (hInside c hc).1
    rw [shiftSubtreeAfterEdit, shiftChildrenAfterEdit_eq_map, children_eq _ hKind]
    refine ⟨hExtent, ?_, ?_⟩
    · refine WellFormed.mk (hSpan.shift hEdit hShort hStart) ?_ ?_ ?_ ?_
      · intro hHas
        rw [hKind hHas]
        rfl
      · intro c' hc'
        rcases mem_map.mp hc' with ⟨c, hc, rfl⟩
        rw [(ih c hc (hChild c hc)).1, hExtent]
        exact Extent.shift_inside_shift (hInside c hc)
      · rw [pairwise_map]
        refine hOrder.imp_of_mem ?_
        intro c e hc he hce
        rw [(ih c hc (hChild c hc)).1, (ih e he (hChild e he)).1]
        exact Extent.shift_le_shift hce
      · intro c' hc'
        rcases mem_map.mp hc' with ⟨c, hc, rfl⟩
        exact (ih c hc (hChild c hc)).2.1
    · refine Edited.mk (.inr ⟨rfl, ?_⟩) ?_
      · rw [hExtent]
        simp only [Extent.shift, hEdit.newEnd_eq]
        exact slice_splice_after hStart hSpan.valid (le_trans hEdit.start_le hEdit.oldEnd_le)
      rw [List.forall₂_map_right_iff, List.forall₂_same]
      intro c hc
      exact (ih c hc (hChild c hc)).2.2

lemma shiftSubtreeAfterEdit_eq_self (hTail : (EditDelta.ofEdit edit).hasTailShift = false)
    (hn : n.WellFormed text) (hStart : edit.oldEndByte.toNat ≤ n.extent.start) :
    n.shiftSubtreeAfterEdit (.ofEdit edit) = n := by
  induction hn with
  | @mk kind span dirty children hSpan hKind hInside hOrder hChildren ih =>
    have hMap : children.map (shiftSubtreeAfterEdit (.ofEdit edit)) = children := by
      refine (map_congr_left ?_).trans (map_id' children)
      intro c hc
      exact ih c hc (hStart.trans (hInside c hc).1)
    rw [shiftSubtreeAfterEdit, shiftChildrenAfterEdit_eq_map, children_eq _ hKind, hMap,
      Span.shiftAfterEdit_eq_self hEdit hTail hSpan hStart]

lemma WellFormed.before (hn : n.WellFormed text) (hStop : n.extent.stop ≤ edit.startByte.toNat) :
    n.WellFormed (edit.applyTo text newText) ∧
      Edited edit text (edit.applyTo text newText) n n := by
  induction hn with
  | @mk kind span dirty children hSpan hKind hInside hOrder hChildren ih =>
    have hChild : ∀ c ∈ children, c.extent.stop ≤ edit.startByte.toNat := by
      intro c hc
      exact le_trans (hInside c hc).2 hStop
    constructor
    · refine WellFormed.mk (hSpan.before hEdit hStop) hKind hInside hOrder ?_
      intro c hc
      exact (ih c hc (hChild c hc)).1
    refine Edited.mk (.inr ⟨rfl, ?_⟩) ?_
    · exact slice_splice_before hStop (le_trans hEdit.start_le hEdit.oldEnd_le)
    rw [List.forall₂_same]
    intro c hc
    exact (ih c hc (hChild c hc)).2

/- A node behind the edit is moved, if anything moves. -/
lemma editNodeWithDelta_eq_shift (hn : n.WellFormed text)
    (hStop : ¬ n.extent.stop ≤ edit.startByte.toNat)
    (hStart : edit.oldEndByte.toNat ≤ n.extent.start) :
    n.editNodeWithDelta (.ofEdit edit) = n.shiftSubtreeAfterEdit (.ofEdit edit) := by
  have hStop' : ¬ n.endByte ≤ (ofEdit edit).edit.startByte := fun h => hStop (le_iff_toNat_le.mp h)
  have hStart' : n.startByte ≥ (ofEdit edit).edit.oldEndByte := le_iff_toNat_le.mpr hStart
  rw [editNodeWithDelta_after hStop' hStart']
  cases hTail : (ofEdit edit).hasTailShift with
  | true => rfl
  | false => exact (shiftSubtreeAfterEdit_eq_self hEdit hTail hn hStart).symm

end

/- A node that overlaps the edit, with all its children. -/
lemma editNodeWithDelta_overlap
    {kind : NodeKind}
    {span : Span}
    {dirty : Bool}
    (hMeets : span.extent.Meets edit.startByte.toNat edit.oldEndByte.toNat)
    (hKind : kind.hasChildren = false → children = [])
    (hValid : ∀ c ∈ children, c.extent.Valid)
    (hOrder : children.Pairwise (fun c e => c.extent.stop ≤ e.extent.start)) :
    (mk kind span dirty children).editNodeWithDelta (.ofEdit edit) =
      mk kind (span.adjustOverlap (.ofEdit edit) kind) true
        (children.map (editNodeWithDelta (.ofEdit edit))) := by
  have hStop : ¬ span.endByte ≤ (ofEdit edit).edit.startByte :=
    fun h => Nat.not_le.mpr hMeets.1 (le_iff_toNat_le.mp h)
  have hStart : ¬ span.startByte ≥ (ofEdit edit).edit.oldEndByte :=
    fun h => Nat.not_le.mpr hMeets.2 (le_iff_toNat_le.mp h)
  rw [editNodeWithDelta, if_neg hStop, if_neg hStart, editChildrenWithDelta_eq_map _ _ hValid
    hOrder, children_eq _ hKind]

/-
  An edited node has the moved extent, is well formed over
  the edited text, and is either marked or unchanged.
-/
lemma editNodeWithDelta_wellFormed
    (hEdit : edit.Describes text newText)
    (hShort : (edit.applyTo text newText).length < 2 ^ 32)
    (hn : n.WellFormed text) :
    (n.editNodeWithDelta (.ofEdit edit)).extent =
      n.extent.move edit.startByte.toNat edit.oldEndByte.toNat edit.newEndByte.toNat ∧
      (n.editNodeWithDelta (.ofEdit edit)).WellFormed (edit.applyTo text newText) ∧
      Edited edit text (edit.applyTo text newText) n (n.editNodeWithDelta (.ofEdit edit)) := by
  induction hn with
  | @mk kind span dirty children hSpan hKind hInside hOrder hChildren ih =>
    have hn : (mk kind span dirty children).WellFormed text :=
      WellFormed.mk hSpan hKind hInside hOrder hChildren
    by_cases hStop : (mk kind span dirty children).extent.stop ≤ edit.startByte.toNat
    · have hBefore : (mk kind span dirty children).endByte ≤ (ofEdit edit).edit.startByte :=
          le_iff_toNat_le.mpr hStop
      rw [editNodeWithDelta_before hBefore, Extent.move_of_stop_le hStop]
      exact ⟨rfl, hn.before hEdit hStop⟩
    by_cases hStart : edit.oldEndByte.toNat ≤ (mk kind span dirty children).extent.start
    · rw [editNodeWithDelta_eq_shift hEdit hn hStop hStart, Extent.move_of_le_start hStop hStart]
      exact shiftSubtreeAfterEdit_wellFormed hEdit hShort hn hStart
    -- The node overlaps the edit; its children are edited
    -- and stay in order inside it.
    have hMeets : span.extent.Meets edit.startByte.toNat edit.oldEndByte.toNat :=
        ⟨Nat.not_le.mp hStop, Nat.not_le.mp hStart⟩
    have hValid : ∀ c ∈ children, c.extent.Valid := fun c hc => (hChildren c hc).span_over.valid
    have hNew : edit.startByte.toNat ≤ edit.newEndByte.toNat := by
      have hEq := hEdit.newEnd_eq
      omega
    have hExtent := Span.extent_adjustOverlap hEdit hShort hSpan
    rw [editNodeWithDelta_overlap hMeets hKind hValid hOrder]
    refine ⟨?_, ?_, ?_⟩
    · exact hExtent.trans (Extent.move_of_meets hMeets).symm
    · refine WellFormed.mk (hSpan.adjust hEdit hShort hMeets) ?_ ?_ ?_ ?_
      · intro hHas
        rw [hKind hHas]
        rfl
      · intro c' hc'
        rcases mem_map.mp hc' with ⟨c, hc, rfl⟩
        rw [(ih c hc).1, hExtent, ← Extent.move_of_meets hMeets]
        exact Extent.move_inside_move hNew (hValid c hc) (hInside c hc) hMeets
      · rw [pairwise_map]
        refine hOrder.imp_of_mem ?_
        intro c e hc he hce
        rw [(ih c hc).1, (ih e he).1]
        exact Extent.move_le_move hNew (hValid c hc) (hValid e he) hce
      · intro c' hc'
        rcases mem_map.mp hc' with ⟨c, hc, rfl⟩
        exact (ih c hc).2.1
    · refine Edited.mk (.inl ⟨hMeets, rfl⟩) ?_
      rw [List.forall₂_map_right_iff, List.forall₂_same]
      intro c hc
      exact (ih c hc).2.2

lemma editChildrenSingleByteReplacement_eq (hTail : (EditDelta.ofEdit edit).hasTailShift = false)
    (children : List Node)
    (hChildren : ∀ c ∈ children,
      c.editNodeSingleByteReplacement edit = c.editNodeWithDelta (.ofEdit edit)) :
    editChildrenSingleByteReplacement edit children =
      editChildrenWithDelta (.ofEdit edit) children := by
  induction children with
  | nil => rfl
  | cons child children ih =>
    have hRest := ih (fun c hc => hChildren c (mem_cons_of_mem _ hc))
    rw [editChildrenSingleByteReplacement, editChildrenWithDelta, hRest,
      hChildren child (by simp), hTail]
    rfl

/-
  Replacing one byte by one byte marks the same nodes as the general edit, which then moves no span.
-/
lemma editNodeSingleByteReplacement_eq (hOld : edit.oldEndPoint.IsAt text edit.oldEndByte.toNat)
    (hSingle : edit.isSingleByteReplacement) (hn : n.Coherent text) :
    n.editNodeSingleByteReplacement edit = n.editNodeWithDelta (.ofEdit edit) := by
  have hDelta := ofEdit_eq_unshifted hSingle
  induction hn with
  | @mk kind span dirty children hSpan hKind hChildren ih =>
    have hLoop := editChildrenSingleByteReplacement_eq (by rw [hDelta]; rfl) children ih
    rw [editNodeSingleByteReplacement, ← hDelta]
    by_cases hRefs : kind = .finalChildRefs
    · -- This kind is handed to the general edit, unless
      -- the edit does not touch it.
      rw [if_pos hRefs, ite_eq_right_iff]
      intro hOutside
      rw [editNodeWithDelta, ofEdit_edit]
      split
      · rfl
      · rename_i hStop
        rw [if_pos (hOutside.resolve_left hStop), hDelta]
        rfl
    rw [if_neg hRefs, editNodeWithDelta, ofEdit_edit]
    by_cases hStop : span.endByte ≤ edit.startByte
    · rw [if_pos (.inl hStop), if_pos hStop]
    by_cases hStart : span.startByte ≥ edit.oldEndByte
    · rw [if_pos (.inr hStart), if_neg hStop, if_pos hStart, hDelta]
      rfl
    have hMeets : span.extent.Meets edit.startByte.toNat edit.oldEndByte.toNat := ⟨Nat.not_le.mp
      (fun h => hStop (le_iff_toNat_le.mpr h)), Nat.not_le.mp (fun h => hStart (le_iff_toNat_le.mpr
      h))⟩
    rw [if_neg (not_or.mpr ⟨hStop, hStart⟩), if_neg hStop, if_neg hStart, hLoop,
      Span.adjustOverlap_eq_self hOld hSingle hSpan hMeets]
    cases hHas : kind.hasChildren with
    | true => rfl
    | false =>
      rw [hKind hHas]
      rfl

mutual
lemma lastEditedLeafSingleByteReplacement_eq (edit : InputEdit) (n : Node) :
    n.lastEditedLeafSingleByteReplacement edit = n.lastEditedLeafWithDelta (.unshifted edit) := by
  obtain ⟨kind, span, dirty, children⟩ := n
  rw [lastEditedLeafSingleByteReplacement, lastEditedLeafWithDelta,
    lastLeafOfChildrenSingleByteReplacement_eq]
  by_cases hOutside : span.endByte ≤ edit.startByte ∨ span.startByte ≥ edit.oldEndByte
  · simp [hOutside]
  by_cases hRefs : kind = .finalChildRefs
  · simp [hOutside, hRefs]
  · simp [hOutside, hRefs]

lemma lastLeafOfChildrenSingleByteReplacement_eq (edit : InputEdit) (i : Nat)
    (children : List Node) :
    lastLeafOfChildrenSingleByteReplacement edit i children =
      lastLeafOfChildrenWithDelta (.unshifted edit) i children := by
  match children with
  | [] => rfl
  | child :: children =>
    rw [lastLeafOfChildrenSingleByteReplacement, lastLeafOfChildrenWithDelta,
      lastLeafOfChildrenSingleByteReplacement_eq, lastEditedLeafSingleByteReplacement_eq]
    rfl
end

/-
  On a tree over its text the edit of one byte marks, keeps
  and remembers what the general edit does.
-/
theorem single_byte_edit_is_general
    {n : Node}
    (hNode : n.Coherent text)
    (hOld : edit.oldEndPoint.IsAt text edit.oldEndByte.toNat)
    (hSingle : edit.isSingleByteReplacement = true) :
    n.editNodeSingleByteReplacement edit = n.editNodeWithDelta (.ofEdit edit) ∧
      n.lastEditedLeafSingleByteReplacement edit = n.lastEditedLeafWithDelta (.ofEdit edit) := by
  refine ⟨editNodeSingleByteReplacement_eq hOld hSingle hNode, ?_⟩
  rw [ofEdit_eq_unshifted hSingle]
  exact lastEditedLeafSingleByteReplacement_eq edit n

/- Two words with a blank between them. -/
def twoWords : Node :=
  .mk .node ⟨0, 5, ⟨0, 0⟩, ⟨0, 5⟩⟩ false
    [.mk .node ⟨0, 2, ⟨0, 0⟩, ⟨0, 2⟩⟩ false [], .mk .node ⟨3, 5, ⟨0, 3⟩, ⟨0, 5⟩⟩ false []]

lemma twoWords_wellFormed : twoWords.WellFormed [97, 98, 32, 99, 100] := by
  refine .mk (by constructor <;> decide) (by decide) (by decide) (by decide) ?_
  intro c hc
  rcases List.mem_pair.mp hc with rfl | rfl
  · exact .mk (by constructor <;> decide) (by decide) (by decide) (by decide) (by simp)
  · exact .mk (by constructor <;> decide) (by decide) (by decide) (by decide) (by simp)

/- The second letter of the first word is replaced. -/
theorem single_byte_edit_second_letter :
    let edit : InputEdit := ⟨1, 2, 2, ⟨0, 1⟩, ⟨0, 2⟩, ⟨0, 2⟩⟩
    twoWords.editNodeSingleByteReplacement edit = twoWords.editNodeWithDelta (.ofEdit edit) ∧
      twoWords.lastEditedLeafSingleByteReplacement edit =
        twoWords.lastEditedLeafWithDelta (.ofEdit edit) :=
  single_byte_edit_is_general twoWords_wellFormed.coherent (by decide) (by decide)

end Node

-- Edited Trees

namespace Tree

/- Every node of the tree is well formed over the text. -/
def WellFormed (text : Source) (t : Tree) : Prop :=
  ∀ root, t.root = some root → root.WellFormed text

lemma edit_root {t : Tree} {root : Node} {text newText : Source} (hRoot : t.root = some root)
    (hn : root.WellFormed text) (hEdit : edit.Describes text newText) :
    (t.edit edit).root = some (root.editNodeWithDelta (.ofEdit edit)) := by
  simp only [Tree.edit, hRoot, Option.map_some]
  cases hSingle : edit.isSingleByteReplacement with
  | true =>
    rw [if_pos rfl, Node.editNodeSingleByteReplacement_eq
      hEdit.oldEndPoint_isAt hSingle hn.coherent]
  | false => rfl

/-
  Editing a well-formed tree by a true description of a replacement, with an edited text of less
  than `2 ^ 32` bytes, gives a tree that is well formed over the edited text. Every node of it is
  either marked dirty or covers the text it covered before.
-/
theorem edit_wellFormed
    (t : Tree)
    (text newText : Source)
    (edit : InputEdit)
    (hTree : t.WellFormed text)
    (hEdit : edit.Describes text newText)
    (hShort : (edit.applyTo text newText).length < 2 ^ 32) :
    (t.edit edit).WellFormed (edit.applyTo text newText) ∧
      Option.Rel (Node.Edited edit text (edit.applyTo text newText)) t.root (t.edit edit).root := by
  cases hRoot : t.root with
  | none =>
    have hNone : (t.edit edit).root = none := by simp [Tree.edit, hRoot]
    rw [hNone]
    refine ⟨?_, Option.Rel.none⟩
    intro root' hRoot'
    simp [hNone] at hRoot'
  | some root =>
    have hn := hTree root hRoot
    have hEdited := Node.editNodeWithDelta_wellFormed hEdit hShort hn
    have hSome := edit_root hRoot hn hEdit
    rw [hSome]
    refine ⟨?_, Option.Rel.some hEdited.2.2⟩
    intro root' hRoot'
    rw [hSome] at hRoot'
    cases hRoot'
    exact hEdited.2.1

/-
  Two words around a line break; the last letter of the
  first word and the break are replaced by three bytes.
-/
theorem edit_wellFormed_two_words :
    let first : Node := .mk .node ⟨0, 2, ⟨0, 0⟩, ⟨0, 2⟩⟩ false []
    let second : Node := .mk .node ⟨3, 5, ⟨1, 0⟩, ⟨1, 2⟩⟩ false []
    let t : Tree := ⟨some (.mk .node ⟨0, 5, ⟨0, 0⟩, ⟨1, 2⟩⟩ false [first, second]), []⟩
    let edit : InputEdit := ⟨1, 3, 4, ⟨0, 1⟩, ⟨1, 0⟩, ⟨1, 1⟩⟩
    (t.edit edit).WellFormed [97, 120, 10, 121, 99, 100] ∧ Option.Rel (Node.Edited edit [97, 98, 10,
      99, 100] [97, 120, 10, 121, 99, 100]) t.root (t.edit edit).root := by
  intro first second t edit
  have hTree : t.WellFormed [97, 98, 10, 99, 100] := by
    intro root hRoot
    cases hRoot
    refine Node.WellFormed.mk (by constructor <;> decide) (by decide) (by decide) (by decide) ?_
    intro c hc
    simp only [mem_cons, not_mem_nil, or_false] at hc
    rcases hc with rfl | rfl
    · exact Node.WellFormed.mk (by constructor <;> decide)
        (by decide) (by decide) (by decide) (by simp)
    · exact Node.WellFormed.mk (by constructor <;> decide)
        (by decide) (by decide) (by decide) (by simp)
  exact edit_wellFormed t [97, 98, 10, 99, 100] [120, 10, 121] edit hTree
    (by constructor <;> decide) (by decide)

/-
  One byte inserted in front of a leaf that ends at the last 32-bit offset: the start moves, the end
  is clamped, and the leaf covers one byte less without being marked.
-/
lemma insert_before_full_leaf (text : Source) (hLength : text.length = 2 ^ 32 - 1) :
    ∃ (t : Tree) (edit : InputEdit),
      t.WellFormed text ∧ edit.Describes text [97] ∧
        ¬ Option.Rel (Node.Edited edit text (edit.applyTo text [97])) t.root
          (t.edit edit).root := by
  let edit : InputEdit := ⟨0, 0, 1, ⟨0, 0⟩, ⟨0, 0⟩, ⟨0, 1⟩⟩
  let endPoint : Point := Point.ofPosition (positionAt newline text (2 ^ 32 - 1))
  let span : Span := ⟨0, UInt32.ofNat (2 ^ 32 - 1), ⟨0, 0⟩, endPoint⟩
  let t : Tree := ⟨some (.mk .node span false []), []⟩
  have hOrigin : (Point.mk 0 0).IsAt text 0 := by simp [Point.IsAt, Position.origin]
  refine ⟨t, edit, ?_, ?_, ?_⟩
  · intro root hRoot
    cases hRoot
    refine Node.WellFormed.mk ⟨?_, ?_, ?_, ?_⟩ (by decide) (by simp) List.Pairwise.nil (by simp)
    · exact Nat.zero_le _
    · exact hLength.symm.le
    · intro _hPoints
      exact hOrigin
    · intro _hPoints
      exact Point.isAt_ofPosition text (by omega)
  · refine ⟨by decide, Nat.zero_le _, rfl, hOrigin, hOrigin, ?_⟩
    simp [Point.IsAt, applyTo, splice, edit, positionAt, Position.step, newline, Position.origin]
  intro hRel
  have hRoot : (t.edit edit).root =
      some (.mk .node ((span.shiftAfterEdit (.ofEdit edit) .node)) false []) := by rfl
  cases hRel with
  | some hEdited =>
    cases hEdited with
    | mk hNode _hChildren =>
      rcases hNode with ⟨hMeets, -⟩ | ⟨-, hSlice⟩
      · exact Nat.not_lt_zero _ hMeets.2
      have hExtent : (span.shiftAfterEdit (.ofEdit edit) .node).extent = ⟨1, 2 ^ 32 - 1⟩ := by rfl
      have hNew : (edit.applyTo text [97]).length = 2 ^ 32 := by
        simp [applyTo, splice, edit, hLength]
      have hOld : span.extent = ⟨0, 2 ^ 32 - 1⟩ := by rfl
      have hLengths := congrArg List.length hSlice
      rw [hExtent, hOld] at hLengths
      dsimp only at hLengths
      rw [length_slice _ (by omega), length_slice _ (by omega)] at hLengths
      omega

/-
  Without a bound on the edited text the offsets run out,
  and an unmarked node changes the text it covers.
-/
theorem edit_saturates :
    ∃ (t : Tree) (text newText : Source) (edit : InputEdit),
      t.WellFormed text ∧ edit.Describes text newText ∧
        ¬ Option.Rel (Node.Edited edit text (edit.applyTo text newText)) t.root
          (t.edit edit).root := by
  rcases insert_before_full_leaf (List.replicate (2 ^ 32 - 1) 98) length_replicate with
    ⟨t, edit, hTree, hEdit, hNot⟩
  exact ⟨t, _, _, edit, hTree, hEdit, hNot⟩

end Tree

end GoTreeSitter
