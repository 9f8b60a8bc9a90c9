import GoTreeSitter.Lexer.ScanSimulation
import GoTreeSitter.Text.Extent

/-
  Lexing over included ranges is lexing of the included text.

  Main declarations:
    * `Lexer.Normalized`
    * `Lexer.includedText`
    * `Lexer.scanIncluded_matches_scanContiguous`
    * `Lexer.scanIncluded_rejoined_sequence`
-/

-- Included Texts

namespace GoTreeSitter

open List

open Text

/- The byte extent of a range. -/
def SourceRange.extent (r : SourceRange) : Extent where
  start := r.startByte.toNat
  stop := r.endByte.toNat

namespace Lexer

variable {r : SourceRange}

/- The byte extents of the included ranges. -/
def extents (l : Lexer) : List Extent := l.includedRanges.map SourceRange.extent

/- The included text, without the gaps. -/
def includedText (l : Lexer) : Source := joined l.source l.extents

/- The offset of a source position in the included text. -/
def includedOffset (l : Lexer) (pos : Nat) : Nat := joinedOffset l.extents pos

/-
  There are included ranges, and they are nonempty, inside
  the source, in order and without overlaps.
-/
structure Normalized (l : Lexer) : Prop where
  included : l.includedRanges ≠ []
  separated : Separated l.source.length l.extents

/-
  No UTF-8 sequence of the included text is split by the end of a range: wherever a range is
  entered, the rune read from the included text ends inside the range.
-/
def Unsplit (l : Lexer) : Prop := ∀ r ∈ l.includedRanges, ∀ p < r.endByte.toNat, r.startByte.toNat ≤
    p → (decodeRune (l.includedText.drop (l.includedOffset p))).2 ≤ r.endByte.toNat - p

instance (l : Lexer) : Decidable l.Unsplit := by
  unfold Unsplit
  infer_instance

/- No UTF-8 sequence of the source itself is split by the start or the end of a range. -/
def SourceUnsplit (l : Lexer) : Prop := ∀ r ∈ l.includedRanges,
    ∀ b ∈ [r.startByte.toNat, r.endByte.toNat], ∀ p < b, p + (decodeRune (l.source.drop p)).2 ≤ b

instance (l : Lexer) : Decidable l.SourceUnsplit := by
  unfold SourceUnsplit
  infer_instance

/- The lexer of the included text. -/
def contiguous (l : Lexer) : Lexer where
  tables := l.tables
  source := l.includedText
  includedRanges := []
  includedRangeIdx := 0

/- A cursor in a range, or behind the last one. -/
inductive Normal (l : Lexer) (c : IncludedLexerCursor) : Prop where
  | inside (before after : List SourceRange) (r : SourceRange)
      (hRanges : l.includedRanges = before ++ r :: after)
      (hIdx : c.rangeIdx = before.length)
      (hStart : r.startByte.toNat ≤ c.pos)
      (hStop : c.pos < r.endByte.toNat)
  | behind (hIdx : c.rangeIdx = l.includedRanges.length) (hPos : c.pos = l.includedEOFPosition.1)

variable {l : Lexer}

lemma Normalized.rangeBounds_eq (h : l.Normalized) (hr : r ∈ l.includedRanges) :
    l.rangeBounds r = (r.startByte.toNat, r.endByte.toNat) := by
  have hMem : r.extent ∈ l.extents := mem_map_of_mem hr
  have hStart := h.separated.nonempty _ hMem
  have hStop := h.separated.bounded _ hMem
  simp only [SourceRange.extent] at hStart hStop
  simp only [rangeBounds, Prod.mk.injEq]
  omega

variable {before after : List SourceRange}

lemma extents_split (hRanges : l.includedRanges = before ++ r :: after) :
    l.extents = before.map SourceRange.extent ++ r.extent :: after.map SourceRange.extent := by
  simp [extents, hRanges]

lemma Normalized.includedRangeBounds_eq (h : l.Normalized)
    (hRanges : l.includedRanges = before ++ r :: after) :
    l.includedRangeBounds before.length = (r.startByte.toNat, r.endByte.toNat) := by
  have hr : r ∈ l.includedRanges := by simp [hRanges]
  have hGet : l.includedRanges[before.length]? = some r := by simp [hRanges]
  rw [includedRangeBounds, hGet]
  exact h.rangeBounds_eq hr

/- The end of the included text is the last range's end. -/
lemma Normalized.eofPosition_spec (h : l.Normalized) :
    (∃ r ∈ l.includedRanges, l.includedEOFPosition.1 = r.endByte.toNat) ∧
      ∀ r ∈ l.includedRanges, r.endByte.toNat ≤ l.includedEOFPosition.1 := by
  rcases eq_nil_or_concat l.includedRanges with hNil | ⟨front, last, hRanges⟩
  · exact absurd hNil h.included
  rw [concat_eq_append] at hRanges
  have hLast : last ∈ l.includedRanges := by simp [hRanges]
  have hBounds := h.rangeBounds_eq hLast
  have hMem : last.extent ∈ l.extents := mem_map_of_mem hLast
  have hNonempty := h.separated.nonempty _ hMem
  have hBounded := h.separated.bounded _ hMem
  simp only [SourceRange.extent] at hNonempty hBounded
  have hEnd : l.includedEOFPosition.1 = last.endByte.toNat := by
    unfold includedEOFPosition
    rw [hRanges, reverse_append]
    simp [hBounds, hNonempty, hBounded]
  rw [hEnd]
  refine ⟨⟨last, hLast, rfl⟩, ?_⟩
  intro r hr
  rw [hRanges] at hr
  rcases mem_append.mp hr with hr | hr
  · have hSplit := extents_split hRanges
    have hSeparated := h.separated
    rw [hSplit] at hSeparated
    have hOrder := hSeparated.stop_le_start (mem_map_of_mem hr)
    simp only [SourceRange.extent] at hOrder
    omega
  · refine le_of_eq ?_
    rw [mem_singleton.mp hr]

-- Included Cursors

variable {before after : List SourceRange}

section

variable (h : l.Normalized)

include h

lemma includedOffset_of_behind {pos : Nat} (hPos : ∀ r ∈ l.includedRanges, r.endByte.toNat ≤ pos) :
    l.includedOffset pos = l.includedText.length := by
  apply joinedOffset_of_stop_le h.separated.bounded
  intro x hx
  rcases mem_map.mp hx with ⟨r, hr, rfl⟩
  exact hPos r hr

/- The included ranges are not empty. -/
lemma Normalized.start_lt_end (hr : r ∈ l.includedRanges) :
    r.startByte.toNat < r.endByte.toNat := h.separated.nonempty r.extent (mem_map_of_mem hr)

section

variable (hRanges : l.includedRanges = before ++ r :: after)

include hRanges

/- In the gap between two ranges the included text of the ranges in front of it is passed. -/
lemma includedOffset_between {pos : Nat} (hBefore : ∀ q ∈ before, q.endByte.toNat ≤ pos)
    (hPos : pos ≤ r.startByte.toNat) :
    l.includedOffset pos = (joined l.source (before.map SourceRange.extent)).length := by
  have hSeparated := h.separated
  rw [extents_split hRanges] at hSeparated
  unfold includedOffset
  rw [extents_split hRanges]
  apply joinedOffset_between hSeparated
  · intro x hx
    rcases mem_map.mp hx with ⟨q, hq, rfl⟩
    exact hBefore q hq
  intro x hx
  rcases mem_cons.mp hx with rfl | hx
  · exact hPos
  · have hNonempty := hSeparated.nonempty r.extent (by simp)
    exact hPos.trans (hNonempty.le.trans (hSeparated.le_start hx))

lemma Normalized.end_le_start {q : SourceRange} (hq : q ∈ before) :
    q.endByte.toNat ≤ r.startByte.toNat := by
  have hSeparated := h.separated
  rw [extents_split hRanges] at hSeparated
  exact hSeparated.stop_le_start (mem_map_of_mem hq)

lemma includedOffset_gap {pos : Nat} (hBefore : ∀ q ∈ before, q.endByte.toNat ≤ pos)
    (hPos : pos ≤ r.startByte.toNat) :
    l.includedOffset pos = l.includedOffset r.startByte.toNat := by
  rw [includedOffset_between h hRanges hBefore hPos, includedOffset_between h hRanges (fun q hq =>
      h.end_le_start hRanges hq) le_rfl]

end

variable (c : IncludedLexerCursor)

/-
  Searching the remaining ranges: the cursor found is normal, and as many included bytes are in
  front of it. Induction over the remaining ranges; all ranges already passed end in front of the
  cursor.
-/
lemma seekIncluded_spec {rest : List SourceRange} (hRanges : l.includedRanges = before ++ rest)
    (hBefore : ∀ q ∈ before, q.endByte.toNat ≤ c.pos) :
    l.Normal (l.seekIncluded c rest before.length) ∧
      l.includedOffset (l.seekIncluded c rest before.length).pos = l.includedOffset c.pos := by
  induction rest generalizing before with
  | nil =>
    rw [append_nil] at hRanges
    have hBehind : ∀ q ∈ l.includedRanges, q.endByte.toNat ≤ c.pos := by
      rw [hRanges]
      exact hBefore
    refine ⟨Normal.behind (by rw [hRanges]; rfl) rfl, ?_⟩
    rw [includedOffset_of_behind h hBehind]
    exact includedOffset_of_behind h h.eofPosition_spec.2
  | cons r rest ih =>
    have hr : r ∈ l.includedRanges := by simp [hRanges]
    have hNonempty := h.start_lt_end hr
    unfold seekIncluded
    simp only [h.rangeBounds_eq hr]
    rw [if_neg (Nat.not_le.mpr hNonempty)]
    split
    · rename_i hStart
      refine ⟨Normal.inside before rest r hRanges rfl le_rfl hNonempty, ?_⟩
      exact (includedOffset_gap h hRanges hBefore hStart.le).symm
    rename_i hStart
    split_ifs with hStop
    · exact ⟨Normal.inside before rest r hRanges rfl (Nat.not_lt.mp hStart) hStop, rfl⟩
    have hSplit : l.includedRanges = (before ++ [r]) ++ rest := by
      rw [hRanges, append_assoc]
      rfl
    have hPassed : ∀ q ∈ before ++ [r], q.endByte.toNat ≤ c.pos := by
      intro q hq
      rcases mem_append.mp hq with hq | hq
      · exact hBefore q hq
      · rw [mem_singleton.mp hq]
        exact Nat.not_lt.mp hStop
    have hNext := ih hSplit hPassed
    rw [length_append, length_singleton] at hNext
    exact hNext

/- All ranges in front of the search end before it. -/
lemma seekIndex_spec :
    l.seekIndex c ≤ l.includedRanges.length ∧
      ∀ q ∈ l.includedRanges.take (l.seekIndex c), q.endByte.toNat ≤ c.pos := by
  unfold seekIndex
  by_cases hHigh : c.rangeIdx > l.includedRanges.length
  · simp [hHigh]
  rw [if_neg hHigh]
  by_cases hBack : c.rangeIdx > 0 ∧ c.pos < (l.includedRangeBounds (c.rangeIdx - 1)).2
  · simp [hBack]
  rw [if_neg hBack]
  refine ⟨Nat.not_lt.mp hHigh, ?_⟩
  intro q hq
  cases hIdx : c.rangeIdx with
  | zero => simp [hIdx] at hq
  | succ k =>
    -- The last range in front of the search ends before
    -- the cursor, and the others end before that range.
    have hk : k < l.includedRanges.length := by omega
    have hRanges : l.includedRanges =
        l.includedRanges.take k ++ l.includedRanges[k] :: l.includedRanges.drop (k + 1) := by
        rw [getElem_cons_drop, take_append_drop]
    have hBounds := h.includedRangeBounds_eq hRanges
    rw [length_take, min_eq_left hk.le] at hBounds
    have hLast : (l.includedRanges[k]).endByte.toNat ≤ c.pos := by
      rw [hIdx, Nat.add_sub_cancel, hBounds] at hBack
      omega
    rw [hIdx, take_succ_eq_append_getElem hk] at hq
    rcases mem_append.mp hq with hq | hq
    · have hOrder := h.end_le_start hRanges hq
      have hNonempty := h.start_lt_end (getElem_mem hk)
      omega
    · rw [mem_singleton.mp hq]
      exact hLast

lemma normalizeIncludedCursor_spec :
    l.Normal (l.normalizeIncludedCursor c) ∧
      l.includedOffset (l.normalizeIncludedCursor c).pos = l.includedOffset c.pos := by
  rcases seekIndex_spec h c with ⟨hIndex, hBefore⟩
  have hSeek := seekIncluded_spec h c (take_append_drop (l.seekIndex c)
      l.includedRanges).symm hBefore
  rw [length_take, min_eq_left hIndex] at hSeek
  unfold normalizeIncludedCursor
  rw [if_neg h.included]
  exact hSeek

end

variable {before after : List SourceRange} {c : IncludedLexerCursor}

section

variable (h : l.Normalized) (hRanges : l.includedRanges = before ++ r :: after)

include h hRanges

lemma normalizeIncludedCursor_inside (hIdx : c.rangeIdx = before.length)
    (hStart : r.startByte.toNat ≤ c.pos) (hStop : c.pos < r.endByte.toNat) :
    l.normalizeIncludedCursor c = c := by
  have hr : r ∈ l.includedRanges := by simp [hRanges]
  have hNonempty := h.start_lt_end hr
  have hIndex : l.seekIndex c = before.length := by
    unfold seekIndex
    rw [if_neg (by simp [hIdx, hRanges]), if_neg, hIdx]
    rintro ⟨hPos, hBack⟩
    rcases eq_nil_or_concat before with hNil | ⟨front, last, hFront⟩
    · simp [hIdx, hNil] at hPos
    rw [concat_eq_append] at hFront
    have hSplit : l.includedRanges = front ++ last :: (r :: after) := by
      rw [hRanges, hFront, append_assoc]
      rfl
    have hLength : c.rangeIdx - 1 = front.length := by
      rw [hIdx, hFront]
      simp
    rw [hLength, h.includedRangeBounds_eq hSplit] at hBack
    have hOrder := h.end_le_start hRanges (show last ∈ before by simp [hFront])
    omega
  unfold normalizeIncludedCursor
  rw [if_neg h.included, hIndex]
  have hDrop : l.includedRanges.drop before.length = r :: after := by rw [hRanges, drop_left]
  dsimp only
  rw [hDrop, seekIncluded, h.rangeBounds_eq hr]
  rw [if_neg (Nat.not_le.mpr hNonempty), if_neg (Nat.not_lt.mpr hStart), if_pos hStop, ← hIdx]

lemma includedRest_eq (hIdx : c.rangeIdx = before.length) :
    l.includedRest c = slice l.source c.pos r.endByte.toNat := by
  rw [includedRest, hIdx, h.includedRangeBounds_eq hRanges]

lemma drop_includedText {pos : Nat} (hStart : r.startByte.toNat ≤ pos)
    (hStop : pos ≤ r.endByte.toNat) :
    l.includedText.drop (l.includedOffset pos) =
      slice l.source pos r.endByte.toNat ++ joined l.source (after.map SourceRange.extent) := by
  have hSeparated := h.separated
  unfold includedText includedOffset
  rw [extents_split hRanges] at hSeparated ⊢
  exact drop_joined hSeparated hStart hStop

lemma includedOffset_add {pos size : Nat} (hStart : r.startByte.toNat ≤ pos)
    (hStop : pos + size ≤ r.endByte.toNat) :
    l.includedOffset (pos + size) = l.includedOffset pos + size := by
  have hSeparated := h.separated
  have hExtent : r.extent.start = r.startByte.toNat := rfl
  unfold includedOffset
  rw [extents_split hRanges] at hSeparated ⊢
  rw [joinedOffset_of_mem hSeparated (hStart.trans (Nat.le_add_right _ _)) hStop,
    joinedOffset_of_mem hSeparated hStart (le_trans (Nat.le_add_right _ _) hStop), hExtent]
  omega

/- A position of a range is in front of the text's end. -/
lemma includedOffset_lt_length {pos : Nat} (hStart : r.startByte.toNat ≤ pos)
    (hStop : pos < r.endByte.toNat) :
    l.includedOffset pos < l.includedText.length := by
  have hr : r ∈ l.includedRanges := by simp [hRanges]
  rw [← includedOffset_of_behind h h.eofPosition_spec.2]
  refine joinedOffset_lt_of_included (mem_map_of_mem hr) hStart hStop ?_
  exact hStop.trans_le (h.eofPosition_spec.2 r hr)

end

lemma decodeRune_includedRest (h : l.Normalized) (hUnsplit : l.Unsplit)
    (hRanges : l.includedRanges = before ++ r :: after) (hIdx : c.rangeIdx = before.length)
    (hStart : r.startByte.toNat ≤ c.pos) (hStop : c.pos < r.endByte.toNat) :
    decodeRune (l.includedRest c) = decodeRune (l.includedText.drop (l.includedOffset c.pos)) := by
  have hr : r ∈ l.includedRanges := by simp [hRanges]
  have hBounded : r.endByte.toNat ≤ l.source.length :=
    h.separated.bounded r.extent (mem_map_of_mem hr)
  have hSize := hUnsplit r hr c.pos hStop hStart
  rw [includedRest_eq h hRanges hIdx]
  rw [drop_includedText h hRanges hStart hStop.le] at hSize ⊢
  have hLength : (slice l.source c.pos r.endByte.toNat).length = r.endByte.toNat - c.pos :=
    length_slice l.source hBounded
  refine (decodeRune_append _ ?_ ?_).symm
  · intro hNil
    rw [hNil] at hLength
    simp at hLength
    omega
  · omega

-- Lock Step with the Included Text

/- A normal cursor of the included ranges and the cursor of the included text at its offset. -/
def ReadsAs (l : Lexer) (c : IncludedLexerCursor) (d : LexerCursor) : Prop :=
  l.Normal c ∧ d.pos = l.includedOffset c.pos

lemma Normal.exists_range (hc : l.Normal c) (hEnd : l.includedOps.atEnd c = false) :
    ∃ before after r,
      l.includedRanges = before ++ r :: after ∧ c.rangeIdx = before.length ∧
        r.startByte.toNat ≤ c.pos ∧ c.pos < r.endByte.toNat := by
  cases hc with
  | inside before after r hRanges hIdx hStart hStop =>
    exact ⟨before, after, r, hRanges, hIdx, hStart, hStop⟩
  | behind hIdx hPos => simp [includedOps, hIdx] at hEnd

section

variable (h : l.Normalized)

include h

lemma Normal.pos_le (hc : l.Normal c) : c.pos ≤ l.includedEOFPosition.1 := by
  cases hc with
  | inside before after r hRanges hIdx hStart hStop =>
    have hEnd := h.eofPosition_spec.2 r (by simp [hRanges])
    omega
  | behind hIdx hPos => exact hPos.le

lemma Normal.lt_iff {d : IncludedLexerCursor} (hc : l.Normal c) (hd : l.Normal d) :
    c.pos < d.pos ↔ l.includedOffset c.pos < l.includedOffset d.pos := by
  constructor
  · intro hLt
    cases hc with
    | inside before after r hRanges hIdx hStart hStop =>
      exact joinedOffset_lt_of_included (mem_map_of_mem (by simp [hRanges])) hStart hStop hLt
    | behind hIdx hPos =>
      have hLe := hd.pos_le h
      omega
  · intro hLt
    by_contra hNot
    have hMono : l.includedOffset d.pos ≤ l.includedOffset c.pos :=
      joinedOffset_mono (Nat.not_lt.mp hNot)
    omega

/- Two cursors that read alike are at the end together. -/
lemma atEnd_eq {d : LexerCursor} (hRel : l.ReadsAs c d) :
    l.includedOps.atEnd c = (contiguousOps l.includedText).atEnd d := by
  rcases hRel with ⟨hc, hPos⟩
  simp only [includedOps, contiguousOps, ge_iff_le, decide_eq_decide, hPos]
  cases hc with
  | inside before after r hRanges hIdx hStart hStop =>
    have hLt := includedOffset_lt_length h hRanges hStart hStop
    rw [hIdx, hRanges, length_append]
    simp only [length_cons]
    omega
  | behind hIdx hEnd =>
    have hAll := includedOffset_of_behind h h.eofPosition_spec.2
    rw [hIdx, hEnd, hAll]
    exact ⟨fun _ => le_rfl, fun _ => le_rfl⟩

lemma getD_includedText {r : SourceRange} (hRanges : l.includedRanges = before ++ r :: after)
    {pos : Nat} (hStart : r.startByte.toNat ≤ pos) (hStop : pos < r.endByte.toNat) :
    l.source.getD pos 0 = l.includedText.getD (l.includedOffset pos) 0 := by
  have hBounded : r.endByte.toNat ≤ l.source.length := h.separated.bounded r.extent
      (mem_map_of_mem (by simp [hRanges]))
  have hDrop := drop_includedText h hRanges hStart hStop.le
  have hFirst : (l.includedText.drop (l.includedOffset pos))[0]? = l.source[pos]? := by
    rw [hDrop, getElem?_append_left (by
      rw [length_slice l.source hBounded]
      omega)]
    simp [slice, getElem?_drop, hStop]
  rw [getElem?_drop, add_zero] at hFirst
  rw [getD_eq_getElem?_getD, getD_eq_getElem?_getD, hFirst]

lemma advance_rel (hUnsplit : l.Unsplit) {d : LexerCursor} (hRel : l.ReadsAs c d)
    (hEnd : l.includedOps.atEnd c = false) :
    Option.Rel l.ReadsAs (l.includedOps.advance c) ((contiguousOps l.includedText).advance d) := by
  rcases hRel with ⟨hc, hPos⟩
  rcases hc.exists_range hEnd with ⟨before, after, r, hRanges, hIdx, hStart, hStop⟩
  have hDecode := decodeRune_includedRest h hUnsplit hRanges hIdx hStart hStop
  have hSize := hUnsplit r (by simp [hRanges]) c.pos hStop hStart
  rw [← hDecode] at hSize
  have hOffset := includedOffset_add h hRanges hStart
    (show c.pos + (decodeRune (l.includedRest c)).2 ≤ r.endByte.toNat by omega)
  simp only [includedOps, contiguousOps, advanceIncludedCursor,
    normalizeIncludedCursor_inside h hRanges hIdx hStart hStop]
  rw [if_neg (by simp [hIdx, hRanges]), hIdx, h.includedRangeBounds_eq hRanges]
  rw [if_neg (Nat.not_le.mpr hStop), hPos, ← hDecode]
  split_ifs with hLeaves
  · apply Option.Rel.some
    rcases normalizeIncludedCursor_spec h ⟨c.pos + (decodeRune (l.includedRest c)).2, _, _,
        before.length + 1⟩ with ⟨hNormal, hSame⟩
    exact ⟨hNormal, by rw [hSame]; exact hOffset.symm⟩
  · apply Option.Rel.some
    exact ⟨Normal.inside before after r hRanges rfl (hStart.trans (Nat.le_add_right _ _))
      (Nat.not_le.mp hLeaves), hOffset.symm⟩

lemma included_simulation (hUnsplit : l.Unsplit) :
    CursorSimulation l.includedOps (contiguousOps l.includedText) l.ReadsAs where
  lt_iff := by
    intro c d c' d' hc hd
    have hIff := hc.1.lt_iff h hd.1
    rw [← hc.2, ← hd.2] at hIff
    exact hIff
  atEnd_eq := atEnd_eq h
  peek_eq := by
    intro c d hRel hEnd
    rcases hRel with ⟨hc, hPos⟩
    rcases hc.exists_range hEnd with ⟨before, after, r, hRanges, hIdx, hStart, hStop⟩
    simp only [includedOps, contiguousOps, hPos, Prod.mk.injEq]
    exact ⟨getD_includedText h hRanges hStart hStop,
      congrArg Prod.fst (decodeRune_includedRest h hUnsplit hRanges hIdx hStart hStop)⟩
  advance_rel := advance_rel h hUnsplit

end

-- Tokens

/- The end of a token is not behind the cursor, and the same included bytes are in front of it. -/
lemma includedMarkEnd_spec (h : l.Normalized) (hc : l.Normal c) :
    (l.includedMarkEnd c).1 ≤ c.pos ∧
      l.includedOffset (l.includedMarkEnd c).1 = l.includedOffset c.pos := by
  unfold includedMarkEnd
  split_ifs with hBoundary
  · rcases hBoundary with ⟨hPositive, hLast, hPos⟩
    cases hc with
    | behind hIdx hEnd => omega
    | inside before after r hRanges hIdx hStart hStop =>
      rcases eq_nil_or_concat before with hNil | ⟨front, previous, hFront⟩
      · rw [hIdx, hNil] at hPositive
        exact absurd hPositive (lt_irrefl 0)
      rw [concat_eq_append] at hFront
      have hGet : l.includedRanges[c.rangeIdx - 1]? = some previous := by
        rw [hIdx, hRanges, hFront]
        simp
      have hPrevious : previous ∈ before := by simp [hFront]
      have hOrder := h.end_le_start hRanges hPrevious
      have hBounds := h.rangeBounds_eq (show previous ∈ l.includedRanges by simp [hRanges, hFront])
      rw [hIdx, h.includedRangeBounds_eq hRanges] at hPos
      dsimp only at hPos
      -- Both branches return the end of the range before.
      have hEnds : ∀ q ∈ before, q.endByte.toNat ≤ previous.endByte.toNat := by
        intro q hq
        rw [hFront] at hq
        rcases mem_append.mp hq with hq | hq
        · have hSplit : l.includedRanges = front ++ previous :: (r :: after) := by
            rw [hRanges, hFront, append_assoc]
            rfl
          have hEarlier := h.end_le_start hSplit hq
          have hNonempty := h.start_lt_end (show previous ∈ l.includedRanges by simp [hSplit])
          omega
        · refine le_of_eq ?_
          rw [mem_singleton.mp hq]
      have hGap := includedOffset_gap h hRanges hEnds hOrder
      rw [hGet]
      dsimp only
      rw [hBounds]
      rw [← hPos] at hGap
      split
      · exact ⟨by omega, hGap⟩
      · exact ⟨by omega, hGap⟩
  · exact ⟨le_rfl, rfl⟩

lemma tokenText_eq (h : l.Normalized) (start stop : Nat) :
    l.tokenText start stop =
      slice l.includedText (l.includedOffset start) (l.includedOffset stop) := by
  unfold tokenText
  split
  · rename_i hEmpty
    have hMono : l.includedOffset stop ≤ l.includedOffset start := joinedOffset_mono hEmpty
    unfold slice
    rw [drop_of_length_le (by
      rw [length_take]
      omega)]
  rw [if_neg h.included]
  have hClip := joined_clip h.separated start stop
  unfold extents at hClip
  rw [flatMap_map] at hClip
  refine Eq.trans ?_ hClip
  apply flatMap_congr
  intro r hr
  rw [h.rangeBounds_eq hr]
  rfl

lemma Normal.toNat_ofNat (h : l.Normalized) (hc : l.Normal c) {pos : Nat} (hPos : pos ≤ c.pos) :
    (UInt32.ofNat pos).toNat = pos ∧
      (UInt32.ofNat (l.includedOffset pos)).toNat = l.includedOffset pos := by
  have hLe := hc.pos_le h
  rcases h.eofPosition_spec.1 with ⟨r, -, hEnd⟩
  have hShort := r.endByte.toNat_lt
  have hOffset : l.includedOffset pos ≤ pos - 0 :=
    joinedOffset_le h.separated (fun x _ => Nat.zero_le _)
  constructor
  · exact UInt32.toNat_ofNat_of_lt' (by
      show _ < 2 ^ 32
      omega)
  exact UInt32.toNat_ofNat_of_lt' (by
    show _ < 2 ^ 32
    omega)

/-
  A token of the included ranges and one of the included
  text: the same symbol and text, at corresponding bytes.
-/
structure TokenMatches (l : Lexer) (tok tok' : Token) : Prop where
  symbol : tok.symbol = tok'.symbol
  text : tok.text = tok'.text
  startByte : l.includedOffset tok.startByte.toNat = tok'.startByte.toNat
  endByte : l.includedOffset tok.endByte.toNat = tok'.endByte.toNat

/- Two scans that both fail, or find matching tokens. -/
inductive ResultMatches (l : Lexer) : ScanResult IncludedLexerCursor → ScanResult LexerCursor → Prop
    where
  | token {tok tok' : Token} {c : IncludedLexerCursor} {c' : LexerCursor}
      (hToken : l.TokenMatches tok tok') :
      ResultMatches l (.token tok c) (.token tok' c')
  | failed {c : Option IncludedLexerCursor} {c' : Option LexerCursor} :
      ResultMatches l (.failed c) (.failed c')

lemma tokenOf_matches
    (h : l.Normalized)
    {a : Accept IncludedLexerCursor}
    {a' : Accept LexerCursor}
    (hRel : a.Rel l.includedOps (contiguousOps l.includedText) l.ReadsAs a')
    (startPos startPos' : Nat)
    (point : IncludedLexerCursor → Point)
    (point' : LexerCursor → Point)
    (skipped skipped' : Bool) :
    l.TokenMatches (tokenOf startPos IncludedLexerCursor.pos point l.tokenText a skipped)
      (tokenOf startPos' LexerCursor.pos point' (slice l.includedText) a' skipped') := by
  rcases hRel.cursor with ⟨hCursor, hCursorPos⟩
  rcases hRel.start with ⟨hStart, hStartPos⟩
  have hMark := includedMarkEnd_spec h hCursor
  have hPos : a.pos = (l.includedMarkEnd a.cursor).1 := hRel.pos
  have hPos' : a'.pos = a'.cursor.pos := hRel.pos'
  have hEnd : a'.pos = l.includedOffset a.pos := by rw [hPos', hCursorPos, hPos, hMark.2]
  have hStart32 := hStart.toNat_ofNat h le_rfl
  have hEndLe : a.pos ≤ a.cursor.pos := by
    omega
  have hEnd32 := hCursor.toNat_ofNat h hEndLe
  constructor
  · simp [tokenOf, hRel.symbol, hRel.skip]
  · simp [tokenOf, hRel.skip, tokenText_eq h, hStartPos, hEnd]
  · simp only [tokenOf, hStartPos]
    rw [hStart32.1, hStart32.2]
  · simp only [tokenOf, hEnd]
    rw [hEnd32.1, hEnd32.2]

lemma contiguous_size_lt (source : Source) (c c' : LexerCursor)
    (hEnd : (contiguousOps source).atEnd c = false)
    (hAdvance : (contiguousOps source).advance c = some c') :
    source.length - c'.pos < source.length - c.pos := by
  simp only [contiguousOps, ge_iff_le, decide_eq_false_iff_not, not_le] at hEnd
  simp only [contiguousOps, Option.some.injEq] at hAdvance
  subst hAdvance
  cases hRest : source.drop c.pos with
  | nil =>
    have hLength := drop_eq_nil_iff.mp hRest
    omega
  | cons b rest =>
    have hSize := decodeRune_size_pos b rest
    dsimp only
    omega

lemma scan_contiguous_isSome (l : Lexer) (startState : UInt32) (start : LexerCursor) :
    (scan (contiguousOps l.source) l.tables l.scanFuel startState start).isSome := by
  unfold scan
  split
  · rfl
  rw [Option.isSome_map]
  refine scanLoop_isSome (contiguous_size_lt l.source) ?_
  unfold ScanState.turns scanFuel
  dsimp only
  split <;> omega

lemma length_includedText_le (h : l.Normalized) : l.includedText.length ≤ l.source.length := by
  have hAll : joinedOffset l.extents l.source.length = l.includedText.length :=
      joinedOffset_of_stop_le h.separated.bounded h.separated.bounded
  rw [← hAll]
  exact joinedOffset_le h.separated fun x _ => Nat.zero_le _

/-
  Scanning the included ranges and scanning the included text both end, and have related outcomes.
-/
lemma scan_included_rel
    (h : l.Normalized)
    (hUnsplit : l.Unsplit)
    (startState : UInt32)
    {d : LexerCursor}
    (hStart : l.ReadsAs c d) :
    ∃ outcome outcome',
      scan l.includedOps l.tables l.scanFuel startState c = some outcome ∧
        scan (contiguousOps l.includedText) l.tables l.contiguous.scanFuel startState d =
          some outcome' ∧
        ScanOutcome.Rel l.includedOps (contiguousOps l.includedText) l.ReadsAs outcome
          outcome' := by
  have hRel := scan_rel (t := l.tables) (included_simulation h hUnsplit)
    l.contiguous.scanFuel startState hStart
  rcases Option.isSome_iff_exists.mp (scan_contiguous_isSome l.contiguous startState d)
    with ⟨outcome', hOutcome'⟩
  have hSame : scan (contiguousOps l.includedText) l.tables l.contiguous.scanFuel startState
      d =
      some outcome' := hOutcome'
  rw [hSame] at hRel
  cases hScan : scan l.includedOps l.tables l.contiguous.scanFuel startState c with
  | none => simp [hScan] at hRel
  | some outcome =>
    rw [hScan] at hRel
    have hFuel : l.contiguous.scanFuel ≤ l.scanFuel := by
      have hLength := length_includedText_le h
      simp only [scanFuel, contiguous]
      omega
    cases hRel with
    | some hOutcomes => exact ⟨outcome, outcome', scan_mono hScan hFuel, hSame, hOutcomes⟩

/-
  Lexing over included ranges is lexing of the included text. Both scans end; they fail together,
  and otherwise find the same symbol with the same text, at bytes that correspond.
-/
theorem scanIncluded_matches_scanContiguous
    (l : Lexer)
    (h : l.Normalized)
    (hUnsplit : l.Unsplit)
    (startState : UInt32)
    (start start' : LexerCursor)
    (hStart : start'.pos = l.includedOffset start.pos) :
    ∃ result result',
      l.scanIncluded startState start = some result ∧
        l.contiguous.scanContiguous startState start' = some result' ∧
        l.ResultMatches result result' := by
  rcases normalizeIncludedCursor_spec h ⟨start.pos, start.row, start.col,
      l.includedRangeIdx⟩ with ⟨hNormal, hOffset⟩
  have hReads : l.ReadsAs _ start' := ⟨hNormal, by rw [hOffset]; exact hStart⟩
  rcases scan_included_rel h hUnsplit startState hReads with
    ⟨outcome, outcome', hScan, hScan', hRel⟩
  have hContiguous : scan (contiguousOps l.contiguous.source) l.contiguous.tables
      l.contiguous.scanFuel startState start' =
      some outcome' := hScan'
  unfold scanIncluded scanContiguous
  dsimp only
  rw [hScan, hContiguous]
  cases hRel with
  | accepted hAccept =>
    exact ⟨_, _, rfl, rfl, ResultMatches.token (tokenOf_matches h hAccept _ _ _ _ _ _)⟩
  | failed hFailed => exact ⟨_, _, rfl, rfl, ResultMatches.failed⟩

/- A table that accepts one rune after another. -/
def sequenceTables (runes : List Int) : LexTables where
  states := runes.mapIdx (fun i r =>
      ⟨0, 0, false, -1, -1, [⟨r, r, i + 1, false⟩]⟩) ++
      [⟨1, 0, false, -1, -1, []⟩]
  asciiTable := []
  immediateTokens := []
  zeroWidthTokens := []

/- A token of two runes with a gap between them. -/
theorem scanIncluded_matches_over_gap :
    let l : Lexer := ⟨sequenceTables [0xE9, 0x62], [0xC3, 0xA9, 0x2D, 0x62],
        [⟨0, 2, ⟨0, 0⟩, ⟨0, 2⟩⟩, ⟨3, 4, ⟨0, 3⟩, ⟨0, 4⟩⟩], 0⟩
    ∃ result result', l.scanIncluded 0 ⟨0, 0, 0⟩ = some result ∧ l.contiguous.scanContiguous 0 ⟨0,
        0, 0⟩ = some result' ∧ l.ResultMatches result result' := by
  intro l
  exact scanIncluded_matches_scanContiguous l ⟨by decide, (by constructor <;> decide)⟩
    (by decide) 0 ⟨0, 0, 0⟩ ⟨0, 0, 0⟩ (by decide)

/-
  Two ranges that split no sequence of the source, since neither half belongs to one there. Their
  texts form a sequence together, which only the scan of the included text reads.
-/
theorem scanIncluded_rejoined_sequence :
    ∃ l : Lexer,
      l.Normalized ∧ l.SourceUnsplit ∧
        (∃ tok c, l.contiguous.scanContiguous 0 ⟨0, 0, 0⟩ = some (.token tok c)) ∧
        ∃ c, l.scanIncluded 0 ⟨0, 0, 0⟩ = some (.failed c) := by
  refine ⟨⟨sequenceTables [0xE9], [0xC3, 0x78, 0xA9], [⟨0, 1, ⟨0, 0⟩, ⟨0, 1⟩⟩, ⟨2, 3, ⟨0, 2⟩, ⟨0,
    3⟩⟩], 0⟩, ⟨by decide, (by constructor <;> decide)⟩, by decide, ?_, ?_⟩
  · exact ⟨_, _, rfl⟩
  · exact ⟨_, rfl⟩

end Lexer

end GoTreeSitter
