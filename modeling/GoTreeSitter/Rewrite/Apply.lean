import GoTreeSitter.Rewrite.Rewriter
import GoTreeSitter.Text.Patch
import GoTreeSitter.Tree.Reuse
import Mathlib.Data.UInt

/-
  Correctness of applying a set of rewrites.

  Main declarations:
    * `RewriteEdit.toPatch`
    * `Rewriter.Refused`
    * `Rewriter.apply_contract`
    * `Rewriter.oversized_not_replays`
    * `Rewriter.applyToTree_wellFormed`
-/

-- Edits as Patches

namespace GoTreeSitter

open Text List UInt32 RewriteEdit Position

namespace RewriteEdit

/- The edit as a range replacement. -/
def toPatch (e : RewriteEdit) : Patch UInt8 where
  start := e.startByte.toNat
  stop := e.endByte.toNat
  text := e.newText

lemma toPatch_injective : Function.Injective toPatch := by
  intro a b hEq
  cases a
  cases b
  simp only [toPatch, Patch.mk.injEq] at hEq
  simp only [mk.injEq]
  exact ⟨UInt32.toNat_inj.mp hEq.1, UInt32.toNat_inj.mp hEq.2.1, hEq.2.2⟩

lemma invalidRange_eq_false_iff (source : Source) (e : RewriteEdit) :
    e.invalidRange source = false ↔ e.toPatch.InRange source.length := by
  simp only [invalidRange, Patch.InRange, toPatch, Bool.or_eq_false_iff, decide_eq_false_iff_not,
    gt_iff_lt, lt_iff_toNat_lt, not_lt]

lemma checkRanges_eq_ok_iff (source : Source) (edits : List RewriteEdit) :
    checkRanges source edits = .ok () ↔ ∀ p ∈ edits.map toPatch, Patch.InRange source.length p := by
  induction edits with
  | nil => simp [checkRanges]
  | cons e es ih =>
    unfold checkRanges
    cases hInvalid : e.invalidRange source with
    | false =>
      have hRange := (invalidRange_eq_false_iff source e).mp hInvalid
      simpa [hRange] using ih
    | true =>
      have hRange : ¬ e.toPatch.InRange source.length := by
        intro hRange
        have hFalse := (invalidRange_eq_false_iff source e).mpr hRange
        simp [hInvalid] at hFalse
      simp [hRange]

lemma checkOverlaps_eq_ok_iff (edits : List RewriteEdit) :
    checkOverlaps edits = .ok () ↔ List.IsChain Patch.Before (edits.map toPatch) := by
  induction edits using checkOverlaps.induct with
  | case1 => simp [checkOverlaps]
  | case2 e => simp [checkOverlaps]
  | case3 prev cur rest hOverlap =>
    have hLt := lt_iff_toNat_lt.mp hOverlap
    simp [checkOverlaps, hOverlap, Patch.Before, toPatch]
    omega
  | case4 prev cur rest hOverlap hInsertions =>
    have hNot : ¬ Patch.Before prev.toPatch cur.toPatch := by
      intro hBefore
      apply hBefore.2
      simp only [Patch.IsInsertion, toPatch, UInt32.toNat_inj]
      exact hInsertions
    rw [checkOverlaps, if_neg hOverlap, if_pos hInsertions]
    simp [hNot]
  | case5 prev cur rest hOverlap hInsertions ih =>
    have hBefore : Patch.Before prev.toPatch cur.toPatch := by
      constructor
      · have hLe := lt_iff_toNat_lt.not.mp hOverlap
        simp only [toPatch]
        omega
      · simpa only [Patch.IsInsertion, toPatch, UInt32.toNat_inj] using hInsertions
    rw [checkOverlaps, if_neg hOverlap, if_neg hInsertions, ih]
    simp [hBefore]

/- Sorted edits are listed by start and then by end. -/
lemma not_less_iff (a b : RewriteEdit) :
    ¬ less b a ↔
      a.toPatch.start < b.toPatch.start ∨
        a.toPatch.start = b.toPatch.start ∧ a.toPatch.stop ≤ b.toPatch.stop := by
  unfold less
  simp only [toPatch]
  by_cases hStart : b.startByte = a.startByte
  · simp only [hStart, ne_eq, not_true_eq_false, if_false, decide_eq_true_eq,
      lt_iff_toNat_lt, true_and]
    omega
  have hNe : b.startByte.toNat ≠ a.startByte.toNat := fun hEq => hStart (UInt32.toNat_inj.mp hEq)
  simp only [ne_eq, hStart, not_false_eq_true, if_true, decide_eq_true_eq, lt_iff_toNat_lt]
  omega

/- For a sorted list in range, adjacent order is the absence of clashes between any two edits. -/
lemma Sorts.isChain_before_iff {source : Source} {edits sorted : List RewriteEdit}
    (hSorts : Sorts edits sorted)
    (hRange : ∀ p ∈ sorted.map toPatch, Patch.InRange source.length p) :
    List.IsChain Patch.Before (sorted.map toPatch) ↔
      (edits.map toPatch).Pairwise (fun p q => ¬ Patch.Clash p q) := by
  have hPerm : (sorted.map toPatch).Pairwise (fun p q => ¬ Patch.Clash p q) ↔
      (edits.map toPatch).Pairwise (fun p q => ¬ Patch.Clash p q) :=
      (hSorts.perm.map toPatch).pairwise_iff (fun
    h hClash => h hClash.symm)
  rw [← hPerm]
  constructor
  · intro hChain
    exact (Patch.pairwise_before_of_chain hRange hChain).imp Patch.not_clash_of_before
  intro hPairwise
  apply List.Pairwise.isChain
  rw [pairwise_map] at hPairwise ⊢
  have hKeys := hSorts.ordered.imp fun h => (not_less_iff _ _).mp h
  have hBoth := hPairwise.and hKeys
  refine hBoth.imp_of_mem ?_
  intro a b ha hb hab
  exact Patch.before_of_not_clash (hRange _ (mem_map_of_mem ha)) (hRange _
    (mem_map_of_mem hb)) hab.2 hab.1

lemma Sorts.unique {source : Source} {edits edits' sorted sorted' : List RewriteEdit}
    (hSorts : Sorts edits sorted) (hSorts' : Sorts edits' sorted') (hPerm : edits'.Perm edits)
    (hRange : ∀ p ∈ sorted.map toPatch, Patch.InRange source.length p)
    (hChain : List.IsChain Patch.Before (sorted.map toPatch)) :
    sorted' = sorted := by
  have hAll : sorted'.Perm sorted := (hSorts'.perm.trans hPerm).trans hSorts.perm.symm
  have hRange' : ∀ p ∈ sorted'.map toPatch, Patch.InRange source.length p := by
    intro p hp
    exact hRange p ((hAll.map toPatch).mem_iff.mp hp)
  have hClash := (hSorts.isChain_before_iff hRange).mp hChain
  have hClash' : (edits'.map toPatch).Pairwise (fun p q => ¬ Patch.Clash p q) :=
    ((hPerm.map toPatch).pairwise_iff fun h hClash => h hClash.symm).mpr hClash
  have hChain' := (hSorts'.isChain_before_iff hRange').mpr hClash'
  have hEq := Patch.eq_of_perm hRange' (hAll.map toPatch) (Patch.pairwise_before_of_chain hRange'
    hChain') (Patch.pairwise_before_of_chain hRange hChain)
  exact (toPatch_injective.list_map) hEq

end RewriteEdit

-- The Application Pass

@[simp]
lemma computeNewEndPoint_nil (p : Point) : computeNewEndPoint p [] = p := rfl

lemma computeNewEndPoint_ofPosition (p : Position) (text : Source) :
    computeNewEndPoint (Point.ofPosition p) text =
      Point.ofPosition (Position.advance newline p text) := by
  induction text generalizing p with
  | nil => rfl
  | cons b text ih =>
    have hStep : computeNewEndPoint (Point.ofPosition p) (b :: text) =
        computeNewEndPoint (Point.ofPosition (step newline p b)) text := by
      unfold computeNewEndPoint step
      by_cases hBreak : b = newline
      · simp [hBreak, Point.ofPosition]
      · simp [hBreak, Point.ofPosition]
    rw [hStep, ih, advance_cons]

namespace Rewriter

/-
  Replaying recorded edits one after another: each edit describes the replacement of its old range
  by its new text in the text reached so far.
-/
inductive Replays : Source → List (InputEdit × Source) → Source → Prop where
  | nil (text : Source) : Replays text [] text
  | cons {text newText final : Source} {edit : InputEdit} {rest : List (InputEdit × Source)}
      (hEdit : edit.Describes text newText)
      (hRest : Replays (edit.applyTo text newText) rest final) :
      Replays text ((edit, newText) :: rest) final

namespace BuildState

/- The text reached by the edits applied so far. -/
def text (source : Source) (st : BuildState) : Source := st.buf ++ source.drop st.pos.toNat

/-
  Invariant of the application pass: the output is in front of an unread suffix, and the current
  point is the point of the end of the output.
-/
structure Inv (source : Source) (st : BuildState) : Prop where
  pos_le : st.pos.toNat ≤ source.length
  point_eq : st.currentPoint = Point.ofPosition (Position.advance newline Position.origin st.buf)

end BuildState

lemma unchanged_eq (source : Source) {pos : UInt32} {e : RewriteEdit}
    (hPos : pos.toNat ≤ e.startByte.toNat) :
    (if e.startByte > pos then slice source pos.toNat e.startByte.toNat else []) =
      slice source pos.toNat e.startByte.toNat := by
  by_cases hGt : e.startByte > pos
  · rw [if_pos hGt]
  have hLe := lt_iff_toNat_lt.not.mp hGt
  have hEq : pos.toNat = e.startByte.toNat := by omega
  rw [if_neg hGt, hEq]
  simp [slice]

variable {source : Source} {st : BuildState} {e : RewriteEdit}

/- The output after one edit. -/
lemma buildStep_buf (hPos : st.pos.toNat ≤ e.startByte.toNat) :
    (buildStep source st e).buf =
      st.buf ++ slice source st.pos.toNat e.startByte.toNat ++ e.newText := by
  simp [buildStep, unchanged_eq
    source hPos]

lemma startPoint_eq (hInv : st.Inv source) (gap : Source) :
    computeNewEndPoint st.currentPoint gap =
      Point.ofPosition (Position.advance newline Position.origin (st.buf ++ gap)) := by
  rw [hInv.point_eq, computeNewEndPoint_ofPosition, advance_append]

/- One edit keeps the invariant of the pass. -/
lemma buildStep_inv (hInv : st.Inv source) (hPos : st.pos.toNat ≤ e.startByte.toNat)
    (hRange : e.toPatch.InRange source.length) :
    (buildStep source st e).Inv source := by
  refine ⟨hRange.2, ?_⟩
  have hPoint : (buildStep source st e).currentPoint =
      computeNewEndPoint
        (computeNewEndPoint st.currentPoint (slice source st.pos.toNat e.startByte.toNat))
        e.newText := by simp
      [buildStep, unchanged_eq source hPos]
  rw [hPoint, startPoint_eq hInv, computeNewEndPoint_ofPosition, buildStep_buf hPos,
    ← advance_append]

lemma BuildState.text_eq (hPos : st.pos.toNat ≤ e.startByte.toNat)
    (hRange : e.toPatch.InRange source.length) :
    st.text source =
      st.buf ++ slice source st.pos.toNat e.startByte.toNat ++
        slice source e.startByte.toNat e.endByte.toNat ++ source.drop e.endByte.toNat := by
  have hOrder : e.startByte.toNat ≤ e.endByte.toNat := hRange.1
  rw [BuildState.text, append_assoc, slice_append_drop source hOrder, append_assoc,
    slice_append_drop source hPos]

/-
  The record of replacing `old` by `newText` right after the
  output `first`, whose end point is `startPoint`.
-/
def recordEdit (first old newText : Source) (startPoint : Point) : InputEdit where
  startByte := UInt32.ofNat first.length
  oldEndByte := UInt32.ofNat first.length + UInt32.ofNat old.length
  newEndByte := UInt32.ofNat first.length + UInt32.ofNat newText.length
  startPoint := startPoint
  oldEndPoint := computeNewEndPoint startPoint old
  newEndPoint := computeNewEndPoint startPoint newText

/- A sum of two truncated lengths below `2 ^ 32`. -/
lemma toNat_ofNat_add {m n : Nat} (hSum : m + n < 2 ^ 32) :
    (UInt32.ofNat m + UInt32.ofNat n).toNat = m + n := by
  rw [← ofNat_add]
  exact toNat_ofNat_of_lt' hSum

section

variable {first old newText rest : Source} {p : Point}

lemma recordEdit_applyTo (hOld : first.length + old.length < 2 ^ 32) :
    (recordEdit first old newText p).applyTo (first ++ old ++ rest) newText =
      first ++ newText ++ rest := by
  have hStart : (UInt32.ofNat first.length).toNat = first.length := toNat_ofNat_of_lt' (by
      show _ < 2 ^ 32
      omega)
  simp only [InputEdit.applyTo, recordEdit, hStart, toNat_ofNat_add hOld]
  exact splice_append first old rest newText

lemma recordEdit_describes (hOld : first.length + old.length < 2 ^ 32)
    (hNew : first.length + newText.length < 2 ^ 32)
    (hPoint : p = Point.ofPosition (Position.advance newline Position.origin first)) :
    (recordEdit first old newText p).Describes (first ++ old ++ rest) newText := by
  have hStart : (UInt32.ofNat first.length).toNat = first.length := toNat_ofNat_of_lt' (by
      show _ < 2 ^ 32
      omega)
  have hOldEnd := toNat_ofNat_add hOld
  have hNewEnd := toNat_ofNat_add hNew
  constructor
  · simp only [recordEdit, hStart, hOldEnd]
    omega
  · simp only [recordEdit, hOldEnd, length_append]
    omega
  · simp [recordEdit, hStart, hNewEnd]
  · simp only [recordEdit, hStart, hPoint, append_assoc]
    exact Point.isAt_prefix first (old ++ rest) (by omega)
  · simp only [recordEdit, hOldEnd, hPoint, computeNewEndPoint_ofPosition,
      ← advance_append, ← length_append]
    exact Point.isAt_prefix (first ++ old) rest (by
      simpa using hOld)
  rw [recordEdit_applyTo hOld]
  simp only [recordEdit, hNewEnd, hPoint, computeNewEndPoint_ofPosition,
    ← advance_append, ← length_append]
  exact Point.isAt_prefix (first ++ newText) rest (by
    simpa using hNew)

end

/- The edit record that one step appends. -/
def stepEdit (source : Source) (st : BuildState) (e : RewriteEdit) : InputEdit :=
  recordEdit (st.buf ++ slice source st.pos.toNat e.startByte.toNat) (slice source e.startByte.toNat
    e.endByte.toNat) e.newText (computeNewEndPoint st.currentPoint (slice source st.pos.toNat
    e.startByte.toNat))

lemma buildStep_edits (hPos : st.pos.toNat ≤ e.startByte.toNat) :
    (buildStep source st e).edits = st.edits ++ [stepEdit source st e] := by
  simp [buildStep, stepEdit, recordEdit, unchanged_eq source hPos]

lemma buildStep_text (hPos : st.pos.toNat ≤ e.startByte.toNat) :
    (buildStep source st e).text source =
      st.buf ++ slice source st.pos.toNat e.startByte.toNat ++ e.newText ++
        source.drop e.endByte.toNat := by
  rw [BuildState.text, buildStep_buf hPos]
  rfl

/-
  One step records a true edit of the text reached so far,
  and applying that edit gives the text reached next.
-/
lemma buildStep_describes
    (hInv : st.Inv source)
    (hPos : st.pos.toNat ≤ e.startByte.toNat)
    (hRange : e.toPatch.InRange source.length)
    (hText : (st.text source).length < 2 ^ 32)
    (hNext : ((buildStep source st e).text source).length < 2 ^ 32) :
    (stepEdit source st e).Describes (st.text source) e.newText ∧
      (stepEdit source st e).applyTo (st.text source) e.newText =
        (buildStep source st e).text source := by
  rw [buildStep_text hPos] at hNext ⊢
  rw [BuildState.text_eq hPos hRange] at hText ⊢
  simp only [length_append] at hText hNext
  constructor
  · apply recordEdit_describes
    · simp only [length_append]
      omega
    · simp only [length_append]
      omega
    · exact startPoint_eq hInv _
  · apply recordEdit_applyTo
    simp only [length_append]
    omega

/-
  The rest of the pass replays the rest of the edits, and the text it reaches is the source with
  these edits' ranges replaced. Induction over the edits; the texts reached on the way are the
  patched prefixes.
-/
lemma foldl_buildStep_replays
    (es : List RewriteEdit)
    (hInv : st.Inv source)
    (hRange : ∀ p ∈ es.map RewriteEdit.toPatch, Patch.InRange source.length p)
    (hOrder : (es.map RewriteEdit.toPatch).Pairwise Patch.Before)
    (hPos : ∀ p ∈ es.map RewriteEdit.toPatch, st.pos.toNat ≤ p.start) :
    (es.foldl (buildStep source) st).text source =
      st.buf ++ patchFrom source st.pos.toNat (es.map RewriteEdit.toPatch) ∧
      (es.foldl (buildStep source) st).Inv source ∧
      ∃ records,
        (es.foldl (buildStep source) st).edits = st.edits ++ records ∧
          records.length = es.length ∧
          ((∀ k,
            (st.buf ++
              patchFrom source st.pos.toNat ((es.take k).map RewriteEdit.toPatch)).length <
              2 ^ 32) →
            Replays (st.text source) (records.zip (es.map RewriteEdit.newText))
              ((es.foldl (buildStep source) st).text source)) := by
  induction es generalizing st with
  | nil =>
    refine ⟨rfl, hInv, [], by simp, rfl, ?_⟩
    intro _hLengths
    exact Replays.nil _
  | cons e es ih =>
    simp only [map_cons, pairwise_cons] at hOrder
    have hPosE : st.pos.toNat ≤ e.startByte.toNat := hPos e.toPatch (by simp)
    have hRangeE : e.toPatch.InRange source.length := hRange e.toPatch (by simp)
    have hInvNext := buildStep_inv hInv hPosE hRangeE
    have hPosNext : ∀ p ∈ es.map toPatch, (buildStep source st e).pos.toNat ≤ p.start := by
      intro p hp
      exact (hOrder.1 p hp).1
    rcases ih hInvNext (fun p hp => hRange p (by
        simp only [map_cons, mem_cons]
        exact Or.inr hp))
        hOrder.2 hPosNext with
      ⟨hTextEq, hInvEnd, records, hRecords, hLength, hReplay⟩
    -- The step writes what `patchFrom` puts in front.
    have hUnfold : ∀ ps : List (Patch UInt8),
        (buildStep source st e).buf ++ patchFrom source (buildStep source st e).pos.toNat ps =
          st.buf ++ patchFrom source st.pos.toNat (e.toPatch :: ps) := by
      intro ps
      rw [buildStep_buf hPosE]
      simp [patchFrom, toPatch, buildStep]
    refine ⟨?_, hInvEnd, stepEdit source st e :: records, ?_, ?_, ?_⟩
    · rw [foldl_cons, hTextEq, hUnfold]
      rfl
    · rw [foldl_cons, hRecords, buildStep_edits hPosE]
      simp
    · simp [hLength]
    intro hLengths
    have hText : (st.text source).length < 2 ^ 32 := by exact hLengths 0
    have hNext : ((buildStep source st e).text source).length < 2 ^ 32 := by
      have hOne := hLengths 1
      rw [take_succ_cons, take_zero, map_cons, ← hUnfold] at hOne
      exact hOne
    rcases buildStep_describes hInv hPosE hRangeE hText hNext with ⟨hDescribes, hApply⟩
    refine Replays.cons hDescribes ?_
    rw [hApply]
    apply hReplay
    intro k
    have hLater := hLengths (k + 1)
    rw [take_succ_cons, map_cons, ← hUnfold] at hLater
    exact hLater

-- Outcomes

/-
  The edits that are refused: a reversed range, a range past the end of the source, two overlapping
  ranges, or two insertions at one position.
-/
def Refused (r : Rewriter) : Prop := (∃ e ∈ r.edits, ¬ e.toPatch.InRange r.source.length) ∨
    ¬ (r.edits.map RewriteEdit.toPatch).Pairwise (fun p q => ¬ Patch.Clash p q)

variable {sorted : List RewriteEdit}

/- The tail that is copied after the last edit. -/
lemma remaining_eq {pos : UInt32} (hSource : source.length < 2 ^ 32) :
    remaining source pos = source.drop pos.toNat := by
  unfold remaining
  have hLength : (UInt32.ofNat source.length).toNat = source.length := toNat_ofNat_of_lt' hSource
  split_ifs with hPos
  · rfl
  rw [drop_eq_nil_of_le]
  have hLe := lt_iff_toNat_lt.not.mp hPos
  omega

lemma applySorted_eq_ok (hRange : RewriteEdit.checkRanges source sorted = .ok ())
    (hOverlaps : RewriteEdit.checkOverlaps sorted = .ok ()) :
    applySorted source sorted =
      .ok
        ((build source sorted).buf ++
          remaining source (build source sorted).pos, (build source sorted).edits) := by
  unfold applySorted
  rw [hRange, hOverlaps]
  rfl

lemma applySorted_eq_error_iff :
    (∃ err, applySorted source sorted = .error err) ↔
      ¬
        (RewriteEdit.checkRanges source sorted = .ok () ∧
          RewriteEdit.checkOverlaps sorted = .ok ()) := by
  unfold applySorted
  cases hRange : checkRanges source sorted with
  | error err => simp [bind, Except.bind]
  | ok _ =>
    cases hOverlaps : checkOverlaps sorted with
    | error err => simp [bind, Except.bind]
    | ok _ => simp [bind, Except.bind, pure, Except.pure]

/- The checks on a sorted list refuse what `Refused` says. -/
lemma Refused.iff_checks {r : Rewriter} (hSorted : RewriteEdit.Sorts r.edits sorted) :
    r.Refused ↔
      ¬
        (RewriteEdit.checkRanges r.source sorted = .ok () ∧
          RewriteEdit.checkOverlaps sorted = .ok ()) := by
  rw [checkRanges_eq_ok_iff, checkOverlaps_eq_ok_iff]
  have hPerm := hSorted.perm.map toPatch
  by_cases hRange : ∀ p ∈ sorted.map toPatch, Patch.InRange r.source.length p
  · have hAll : ¬ ∃ e ∈ r.edits, ¬ e.toPatch.InRange r.source.length := by
      rintro ⟨e, he, hNot⟩
      exact hNot (hRange _ (hPerm.mem_iff.mpr (mem_map_of_mem he)))
    rw [hSorted.isChain_before_iff hRange]
    constructor
    · rintro (hOut | hClash)
      · exact absurd hOut hAll
      · exact fun h => hClash h.2
    · intro h
      exact Or.inr fun hClash => h ⟨hRange, hClash⟩
  constructor
  · intro _hRefused h
    exact hRange h.1
  intro _hChecks
  left
  by_contra hNone
  apply hRange
  intro p hp
  rcases mem_map.mp (hPerm.mem_iff.mp hp) with ⟨e, he, rfl⟩
  by_contra hNot
  exact hNone ⟨e, he, hNot⟩

/-
  What the pass builds from accepted sorted edits: the patched source, and one record for each edit,
  which replay to it while the texts on the way stay short.
-/
lemma build_replays
    (hSource : source.length < 2 ^ 32)
    (hRange : ∀ p ∈ sorted.map RewriteEdit.toPatch, Patch.InRange source.length p)
    (hChain : List.IsChain Patch.Before (sorted.map RewriteEdit.toPatch)) :
    (build source sorted).buf ++ remaining source (build source sorted).pos =
      patch source (sorted.map RewriteEdit.toPatch) ∧
      (build source sorted).edits.length = sorted.length ∧
      ((∀ k, (patch source ((sorted.take k).map RewriteEdit.toPatch)).length < 2 ^ 32) →
        Replays source ((build source sorted).edits.zip (sorted.map RewriteEdit.newText))
          (patch source (sorted.map RewriteEdit.toPatch))) := by
  let st : BuildState := ⟨[], 0, ⟨0, 0⟩, []⟩
  have hInv : st.Inv source := ⟨Nat.zero_le _, rfl⟩
  rcases foldl_buildStep_replays sorted hInv hRange (Patch.pairwise_before_of_chain hRange hChain)
      (fun p _hp => Nat.zero_le p.start) with
    ⟨hText, -, records, hRecords, hLength, hReplay⟩
  have hEdits : (build source sorted).edits = records := hRecords
  have hOut : (build source sorted).text source = patch source (sorted.map toPatch) := hText
  refine ⟨?_, ?_, ?_⟩
  · rw [remaining_eq hSource]
    exact hOut
  · rw [hEdits, hLength]
  intro hLengths
  rw [hEdits, ← hOut]
  exact hReplay hLengths

/- Every rewriter has an outcome. -/
lemma apply_apply (r : Rewriter) : r.Apply r.apply := by
  unfold apply
  split_ifs with hEdits
  · exact Apply.unedited hEdits
  refine Apply.edited _ hEdits ⟨perm_insertionSort _ _, ?_⟩
  have hTotal : Std.Total (fun a b : RewriteEdit => ¬ b.less a) := by
    constructor
    intro a b
    rw [not_less_iff, not_less_iff]
    omega
  have hTrans : IsTrans RewriteEdit (fun a b => ¬ b.less a) := by
    constructor
    intro a b c hab hbc
    rw [not_less_iff] at hab hbc ⊢
    omega
  exact pairwise_insertionSort _ _

/-
  An accepted outcome: the sorted list, the patched source, the replay, and independence of the
  order in which the edits were collected.
-/
lemma applySorted_accepted
    {r : Rewriter}
    (hSource : r.source.length < 2 ^ 32)
    (hSorted : RewriteEdit.Sorts r.edits sorted)
    (hRange : ∀ p ∈ sorted.map RewriteEdit.toPatch, Patch.InRange r.source.length p)
    (hChain : List.IsChain Patch.Before (sorted.map RewriteEdit.toPatch))
    {r' : Rewriter}
    (hSame : r'.source = r.source)
    (hPerm : r'.edits.Perm r.edits)
    {out : Except RewriteError (Source × List InputEdit)}
    (hApply : r'.Apply out) :
    out = .ok (patch r.source (sorted.map RewriteEdit.toPatch), (build r.source sorted).edits) := by
  have hBuild := build_replays hSource hRange hChain
  have hOk : applySorted r.source sorted =
      .ok (patch r.source (sorted.map toPatch), (build r.source sorted).edits) := by
    rw [applySorted_eq_ok ((checkRanges_eq_ok_iff _ _).mpr hRange)
      ((checkOverlaps_eq_ok_iff _).mpr hChain), hBuild.1]
  cases hApply with
  | unedited hEdits =>
    have hNone : r.edits = [] := by
      rw [hEdits] at hPerm
      exact hPerm.nil_eq.symm
    have hEmpty : sorted = [] := by
      have hAll := hSorted.perm
      rw [hNone] at hAll
      exact hAll.eq_nil
    rw [hEmpty, hSame]
    simp [build]
  | edited sorted' hEdits hSorted' =>
    have hEq : sorted' = sorted := hSorted.unique hSorted' hPerm hRange hChain
    rw [hEq, hSame]
    exact hOk

/-
  Applying the collected edits. It fails exactly on refused edits. Otherwise the new source is the
  source with every edited range replaced, the records replay to it with the true coordinates of
  every step as long as each text on the way is shorter than `2 ^ 32`, and the order in which the
  edits were collected does not matter.
-/
theorem apply_contract
    (r : Rewriter)
    (out : Except RewriteError (Source × List InputEdit))
    (hApply : r.Apply out)
    (hSource : r.source.length < 2 ^ 32) :
    ((∃ err, out = .error err) ↔ r.Refused) ∧
      ∀ newSource edits,
        out = .ok (newSource, edits) →
          ∃ sorted,
            RewriteEdit.Sorts r.edits sorted ∧
              newSource = patch r.source (sorted.map RewriteEdit.toPatch) ∧
              edits.length = sorted.length ∧
              ((∀ k,
                (patch r.source ((sorted.take k).map RewriteEdit.toPatch)).length < 2 ^ 32) →
                Replays r.source (edits.zip (sorted.map RewriteEdit.newText)) newSource) ∧
              ∀ r' : Rewriter,
                r'.source = r.source → r'.edits.Perm r.edits →
                  ∀ out', r'.Apply out' → out' = .ok (newSource, edits) := by
  -- A sorted list exists in both cases of the outcome.
  have hCases : ∃ sorted, RewriteEdit.Sorts r.edits sorted ∧ out = applySorted r.source sorted := by
    cases hApply with
    | unedited hEdits =>
      refine ⟨[], ⟨by rw [hEdits], List.Pairwise.nil⟩, ?_⟩
      rw [applySorted_eq_ok rfl rfl, remaining_eq hSource]
      simp [build]
    | edited sorted hEdits hSorted => exact ⟨sorted, hSorted, rfl⟩
  rcases hCases with ⟨sorted, hSorted, hOut⟩
  have hRefused := Refused.iff_checks hSorted
  constructor
  · rw [hRefused, hOut]
    exact applySorted_eq_error_iff
  intro newSource edits hOk
  have hAccepted : checkRanges r.source sorted = .ok () ∧ checkOverlaps sorted = .ok () := by
    by_contra hNot
    rcases applySorted_eq_error_iff.mpr hNot with ⟨err, hErr⟩
    rw [hOut, hErr] at hOk
    cases hOk
  have hRange := (checkRanges_eq_ok_iff _ _).mp hAccepted.1
  have hChain := (checkOverlaps_eq_ok_iff _).mp hAccepted.2
  have hUnique := applySorted_accepted hSource hSorted hRange hChain rfl (List.Perm.refl _) hApply
  rcases build_replays hSource hRange hChain with ⟨-, hLength, hReplay⟩
  rw [hOk] at hUnique
  rcases hUnique with ⟨rfl, rfl⟩
  refine ⟨sorted, hSorted, rfl, hLength, hReplay, ?_⟩
  intro r' hSame hPerm out' hApply'
  exact applySorted_accepted hSource hSorted hRange hChain hSame hPerm hApply'

/- An insertion in front of a replacement at one byte. -/
theorem apply_contract_touching :
    let r : Rewriter := ⟨[97, 10, 98], [⟨0, 2, [99]⟩, ⟨0, 0, [10]⟩]⟩
    ∃ newSource edits, r.apply = .ok (newSource, edits) ∧ newSource = [10, 99, 98] ∧
        Replays r.source (edits.zip [[10], [99]])
          newSource := by
  intro r
  have hContract := apply_contract r _ (apply_apply r) (by decide)
  have hOk : r.apply =
      .ok
        ([10, 99, 98], [⟨0, 0, 1, ⟨0, 0⟩, ⟨0, 0⟩, ⟨1, 0⟩⟩, ⟨1, 3, 2, ⟨1, 0⟩, ⟨2, 0⟩, ⟨1, 1⟩⟩]) := by
      decide
  rcases hContract.2 _ _ hOk with ⟨sorted, hSorted, -, -, hReplay, -⟩
  have hKnown : RewriteEdit.Sorts r.edits [⟨0, 0, [10]⟩, ⟨0, 2, [99]⟩] := ⟨by decide, by decide⟩
  have hRange : ∀ p ∈ ([⟨0, 0, [10]⟩, ⟨0, 2, [99]⟩] : List RewriteEdit).map toPatch,
      Patch.InRange r.source.length p := by decide
  have hEq : sorted = [⟨0, 0, [10]⟩, ⟨0, 2, [99]⟩] :=
    hKnown.unique hSorted (List.Perm.refl _) hRange (by decide)
  subst hEq
  refine ⟨_, _, hOk, rfl, hReplay ?_⟩
  intro k
  rcases k with _ | _ | k
  · decide
  · decide
  · rw [take_of_length_le (by simp)]
    decide

/-
  Replacing a source of `2 ^ 31` bytes by as many new bytes that are inserted before the old ones
  are deleted: the text between the two edits has `2 ^ 32` bytes, and the end of the deleted range
  wraps around to zero.
-/
lemma replace_all_not_replays
    (source newText : Source)
    (hSource : source.length = 2 ^ 31)
    (hText : newText.length = 2 ^ 31) :
    ∃ newSource edits,
      (Rewriter.mk source [⟨0, 0, newText⟩, ⟨0, 2 ^ 31, []⟩]).Apply (.ok (newSource, edits)) ∧
        newSource.length = 2 ^ 31 ∧
        ∀ sorted,
          RewriteEdit.Sorts [⟨0, 0, newText⟩, ⟨0, 2 ^ 31, []⟩] sorted →
            ¬ Replays source (edits.zip (sorted.map RewriteEdit.newText)) newSource := by
  let sorted : List RewriteEdit := [⟨0, 0, newText⟩, ⟨0, 2 ^ 31, []⟩]
  have hStop : (2 ^ 31 : UInt32).toNat = 2 ^ 31 := by decide
  have hRanges : checkRanges source sorted = .ok () := by
    rw [checkRanges_eq_ok_iff]
    simp [sorted, toPatch, Patch.InRange, hSource, hStop]
  have hOverlaps : checkOverlaps sorted = .ok () := by
    rw [checkOverlaps_eq_ok_iff]
    simp [sorted, toPatch, Patch.Before, Patch.IsInsertion, hStop]
  have hSorted : RewriteEdit.Sorts sorted sorted := by
    refine ⟨List.Perm.refl _, ?_⟩
    simp [sorted, less]
  have hApply : (Rewriter.mk source sorted).Apply (applySorted source sorted) :=
    Apply.edited sorted (by simp [sorted]) hSorted
  rw [applySorted_eq_ok hRanges hOverlaps] at hApply
  refine ⟨_, _, hApply, ?_, ?_⟩
  · rw [remaining_eq (by omega)]
    simp [build, buildStep, sorted, hStop, hSource, hText]
  intro sorted' hSorted' hReplays
  have hEq : sorted' = sorted := hSorted.unique hSorted' (List.Perm.refl _) ((checkRanges_eq_ok_iff
      _ _).mp hRanges) ((checkOverlaps_eq_ok_iff _).mp hOverlaps)
  have hTexts : sorted'.map RewriteEdit.newText = [newText, []] := by
    rw [hEq]
    rfl
  rw [hTexts] at hReplays
  have hSecond : (build source sorted).edits.zip [newText, []] =
      [(recordEdit [] [] newText ⟨0, 0⟩, newText),
        (recordEdit newText source [] (computeNewEndPoint ⟨0, 0⟩ newText), [])] := by
    simp [build, buildStep, sorted, recordEdit, slice, hStop, ← hSource]
  rw [hSecond] at hReplays
  cases hReplays with
  | cons _hFirst hRest =>
    cases hRest with
    | cons hEdit _hRest =>
      have hLe := hEdit.start_le
      simp only [recordEdit, hText, hSource] at hLe
      exact absurd hLe (by decide)

/-
  A short source and a short result do not bound the texts
  between the edits, and the replay fails there.
-/
theorem oversized_not_replays :
    ∃ (r : Rewriter) (newSource : Source) (edits : List InputEdit),
      r.source.length < 2 ^ 32 ∧ r.Apply (.ok (newSource, edits)) ∧
        newSource.length < 2 ^ 32 ∧
        ∀ sorted,
          RewriteEdit.Sorts r.edits sorted →
            ¬ Replays r.source (edits.zip (sorted.map RewriteEdit.newText)) newSource := by
  rcases replace_all_not_replays (List.replicate (2 ^ 31) 97) (List.replicate (2 ^ 31) 98)
      length_replicate length_replicate with
    ⟨newSource, edits, hApply, hLength, hNot⟩
  refine ⟨_, newSource, edits, ?_, hApply, ?_, hNot⟩
  · rw [length_replicate]
    omega
  · omega

-- Trees of Rewritten Sources

variable {r : Rewriter} {text final newSource : Source} {edits : List InputEdit}

/- The edits that were applied are recorded on a tree. -/
inductive ApplyToTree (r : Rewriter) (t : Tree) : Except RewriteError (Source × Tree) → Prop where
  | refused {err : RewriteError} (hApply : r.Apply (.error err)) : ApplyToTree r t (.error err)
  | applied {newSource : Source} {edits : List InputEdit}
      (hApply : r.Apply (.ok (newSource, edits))) :
      ApplyToTree r t (.ok (newSource, edits.foldl Tree.edit t))

/- The source and all new texts fit in 32 bits. -/
abbrev Fits (r : Rewriter) : Prop := r.source.length + (r.edits.map (·.newText.length)).sum < 2 ^ 32

lemma Replays.editsTo {records : List (InputEdit × Source)}
    (hReplays : Replays text records final)
    (hFits : text.length + ((records.map Prod.snd).map length).sum < 2 ^ 32) :
    EditsTo text (records.map Prod.fst) final := by
  induction hReplays with
  | nil text => exact .nil text
  | @cons text newText _ edit _ hEdit _ ih =>
    have hOrder := hEdit.start_le
    have hInside := hEdit.oldEnd_le
    have hLength : (edit.applyTo text newText).length = _ :=
      length_splice text newText (hOrder.trans hInside)
    simp only [map_cons, sum_cons] at hFits ⊢
    exact .cons hEdit (by omega) (ih (by omega))

lemma Apply.editsTo (hApply : r.Apply (.ok (newSource, edits))) (hFits : r.Fits) :
    EditsTo r.source edits newSource := by
  unfold Fits at hFits
  generalize hOut : Except.ok (newSource, edits) = out at hApply
  cases hApply with
  | unedited =>
    cases hOut
    exact .nil _
  | edited sorted _ hSorted =>
    have hAccepted : checkRanges r.source sorted = .ok () ∧ checkOverlaps sorted = .ok () := by
      by_contra hNot
      rcases applySorted_eq_error_iff.mpr hNot with ⟨err, hErr⟩
      simp [hErr] at hOut
    have hRange := (checkRanges_eq_ok_iff _ _).mp hAccepted.1
    have hChain := (checkOverlaps_eq_ok_iff _).mp hAccepted.2
    rcases build_replays (by omega) hRange hChain with ⟨hText, hLength, hReplay⟩
    rw [applySorted_eq_ok hAccepted.1 hAccepted.2, hText] at hOut
    cases hOut
    rw [← (hSorted.perm.map (·.newText.length)).sum_nat] at hFits
    have hAll := (hReplay ?_).editsTo ?_
    · rwa [map_fst_zip (by simp [hLength])] at hAll
    · -- No text on the way is too long.
      intro k
      have hTake := (take_sublist k sorted).map toPatch
      have hLe : (patch r.source _).length ≤ _ := length_patchFrom_le (fun p hp => hRange p
        (hTake.subset hp)) (by simp) ((Patch.pairwise_before_of_chain hRange hChain).sublist hTake)
      rw [map_map] at hLe
      rw [← take_append_drop k sorted, map_append, sum_append_nat] at hFits
      refine hLe.trans_lt (lt_of_le_of_lt ?_ hFits)
      exact Nat.add_le_add_left (Nat.le_add_right _ _) _
    · rw [map_snd_zip (by simp [hLength]), map_map]
      exact hFits

/-
  Rewrites recorded on a well-formed tree of the source make it a well-formed tree of the new
  source, in which a node without a mark covers the text it covered in the source.
-/
theorem applyToTree_wellFormed
    {root : Node}
    {t t' : Tree}
    (hFits : r.Fits)
    (hRoot : t.root = some root)
    (hWell : root.WellFormed r.source)
    (hApply : r.ApplyToTree t (.ok (newSource, t'))) :
    ∃ root',
      t'.root = some root' ∧ root'.WellFormed newSource ∧
        ∀ path m,
          root'.descend path = some m → m.dirty = false →
            ∃ n,
              root.descend path = some n ∧
                slice newSource m.extent.start m.extent.stop =
                  slice r.source n.extent.start n.extent.stop := by
  cases hApply with
  | applied hApply => exact Tree.edits_wellFormed (hApply.editsTo hFits) hRoot hWell

/- Letters before two words and a blank more between them, which moves both. -/
theorem applyToTree_wellFormed_moved :
    let r : Rewriter := ⟨[97, 98, 32, 99, 100], [⟨2, 3, [32, 32]⟩, ⟨0, 0, [120, 121]⟩]⟩
    ∃ t', r.ApplyToTree ⟨some Node.twoWords, []⟩
        (.ok ([120, 121, 97, 98, 32, 32, 99, 100], t')) ∧
      ∃ root', t'.root = some root' ∧ (root'.descend [1]).map Node.extent = some ⟨6, 8⟩ ∧
        root'.WellFormed [120, 121, 97, 98, 32, 32, 99, 100] := by
  intro r
  have hApply := ApplyToTree.applied (t := ⟨some Node.twoWords, []⟩) (apply_apply r)
  rcases applyToTree_wellFormed (by decide) rfl Node.twoWords_wellFormed hApply with
    ⟨root', hRoot', hWell, -⟩
  refine ⟨_, hApply, root', hRoot', ?_, hWell⟩
  cases hRoot'
  rfl

end Rewriter

end GoTreeSitter
