import GoTreeSitter.Source.Utf16
import GoTreeSitter.Text.Lines

/-
  The map between UTF-16 and UTF-8 is coherent.

  Main declarations:
    * `Utf16SourceMap.Built`
    * `Utf16SourceMap.Coherent`
    * `Utf16SourceMap.Built.addRune`
    * `encodeUTF16ToUTF8WithMap_coherent`

  The runes cut the source and its UTF-8 form into parts. The arrays of the map list these cuts, and
  the cuts are the offsets where no pair of surrogates is split.
-/

-- Runes of a Source

namespace GoTreeSitter

open List UInt32

variable {source : List UInt16}

/- The offset does not split a pair of surrogates. -/
def BetweenRunes (source : List UInt16) (offset : Nat) : Prop :=
  ∀ prev next : UInt16, 0 < offset → source[offset - 1]? = some prev → source[offset]? = some next →
    isUTF16LeadSurrogate prev = true → isUTF16TrailSurrogate next = true → False

/- A lead is no trail and neither is a line feed. -/
lemma surrogate_facts (u : UInt16) :
    (isUTF16LeadSurrogate u →
      isSurrogate u ∧ u ≠ newlineUnit ∧ isUTF16TrailSurrogate u = false) ∧
      (isUTF16TrailSurrogate u → u ≠ newlineUnit) ∧ (isSurrogate u → u ≠ newlineUnit) := by
  unfold isUTF16LeadSurrogate isUTF16TrailSurrogate isSurrogate newlineUnit
  simp only [Bool.and_eq_true, decide_eq_true_eq, ne_eq, Bool.and_eq_false_iff,
    decide_eq_false_iff_not, UInt16.le_iff_toNat_le, UInt16.lt_iff_toNat_lt, ← UInt16.toNat_inj]
  have hd8 : (0xD800 : UInt16).toNat = 0xD800 := rfl
  have hdb : (0xDBFF : UInt16).toNat = 0xDBFF := rfl
  have hdc : (0xDC00 : UInt16).toNat = 0xDC00 := rfl
  have hdf : (0xDFFF : UInt16).toNat = 0xDFFF := rfl
  have he0 : (0xE000 : UInt16).toNat = 0xE000 := rfl
  have hlf : (10 : UInt16).toNat = 10 := rfl
  rw [hd8, hdb, hdc, hdf, he0, hlf]
  omega

/- A rune takes one code unit that does not start a pair, or the two of a pair. -/
inductive RuneAt (source : List UInt16) (pos : Nat) : Nat → Nat → Prop where
  | single (r : Nat) (u : UInt16) (hAt : source[pos]? = some u) (hBreak : r = 10 ↔ u = newlineUnit)
      (hWhole : BetweenRunes source (pos + 1)) :
      RuneAt source pos r 1
  | pair (r : Nat) (first second : UInt16) (hFirst : source[pos]? = some first)
      (hSecond : source[pos + 1]? = some second)
      (hLead : isUTF16LeadSurrogate first = true)
      (hTrail : isUTF16TrailSurrogate second = true)
      (hRune : 0x10000 ≤ r) :
      RuneAt source pos r 2

lemma decodePair_eq (first second : UInt16) :
    (isUTF16LeadSurrogate first ∧ isUTF16TrailSurrogate second ∧
      0x10000 ≤ decodePair first second) ∨
      (¬ (isUTF16LeadSurrogate first ∧ isUTF16TrailSurrogate second) ∧
        decodePair first second = Text.runeError) := by
  unfold decodePair
  split_ifs with hPair
  · rw [Bool.and_eq_true] at hPair
    exact .inl ⟨hPair.1, hPair.2, Nat.le_add_left _ _⟩
  rw [Bool.and_eq_true] at hPair
  exact .inr ⟨hPair, rfl⟩

lemma runeAt_decodeUTF16Rune {pos : Nat} (hPos : pos < source.length) :
    RuneAt source pos (decodeUTF16Rune source pos).1 (decodeUTF16Rune source pos).2 := by
  have hAt := getElem?_eq_getElem hPos
  have hGet : source.getD pos 0 = source[pos] := by
    rw [getD_eq_getElem?_getD, hAt]
    rfl
  unfold decodeUTF16Rune
  dsimp only
  rw [hGet]
  generalize source[pos] = u at hAt
  have hFacts := surrogate_facts u
  have hLone :
      BetweenRunes source (pos + 1) → isSurrogate u → RuneAt source pos Text.runeError 1 := by
    intro hWhole hSurrogate
    refine RuneAt.single _ u hAt ?_ hWhole
    exact ⟨fun h => absurd h (by decide), fun h => absurd h (hFacts.2.2 hSurrogate)⟩
  split_ifs with hSurrogate
  · cases hNext : source[pos + 1]? with
    | none =>
      refine hLone ?_ hSurrogate
      intro prev next _ _ hSome
      simp [hNext] at hSome
    | some second =>
      dsimp only
      rcases decodePair_eq u second with ⟨hLead, hTrail, hRune⟩ | ⟨hNoPair, hRune⟩
      · have hNe : decodePair u second ≠ Text.runeError := by
          have hError : Text.runeError = 0xFFFD := rfl
          omega
        rw [if_pos hNe]
        exact RuneAt.pair _ u second hAt hNext hLead hTrail hRune
      rw [if_neg (not_not_intro hRune)]
      refine hLone ?_ hSurrogate
      intro prev next _ hPrev hSome hLead hTrail
      rw [Nat.add_sub_cancel, hAt] at hPrev
      rw [hNext] at hSome
      cases hPrev
      cases hSome
      exact hNoPair ⟨hLead, hTrail⟩
  · refine RuneAt.single _ u hAt ?_ ?_
    · rw [← UInt16.toNat_inj]
      rfl
    intro prev next _ hPrev _ hLead _
    rw [Nat.add_sub_cancel, hAt] at hPrev
    cases hPrev
    exact hSurrogate (hFacts.1 hLead).1

namespace RuneAt

variable {pos r size : Nat}

/- The offsets in a rune split it, the one after does not. -/
lemma between (hRune : RuneAt source pos r size) :
    0 < size ∧ pos + size ≤ source.length ∧ BetweenRunes source (pos + size) ∧
      ∀ u, pos < u → u < pos + size → ¬ BetweenRunes source u := by
  cases hRune with
  | single u hAt hBreak hWhole =>
    have hBound := (List.getElem?_eq_some_iff.mp hAt).1
    refine ⟨Nat.one_pos, hBound, hWhole, ?_⟩
    intro u hLow hHigh
    omega
  | pair first second hFirst hSecond hLead hTrail hRune =>
    have hBound := (List.getElem?_eq_some_iff.mp hSecond).1
    refine ⟨Nat.two_pos, hBound, ?_, ?_⟩
    · intro prev next _ hPrev _ hOther _
      change source[pos + 1]? = some prev at hPrev
      rw [hSecond] at hPrev
      cases hPrev
      rw [((surrogate_facts second).1 hOther).2.2] at hTrail
      cases hTrail
    · intro u hLow hHigh hBetween
      have hMiddle : u = pos + 1 := by omega
      subst hMiddle
      exact hBetween first second (Nat.succ_pos _) hFirst hSecond hLead hTrail

/- The code units of a rune come after those before it. -/
lemma take_add (hRune : RuneAt source pos r size) :
    ∃ units,
      source.take (pos + size) = source.take pos ++ units ∧ units.length = size ∧
        (r = 10 → units = [newlineUnit]) ∧ (r ≠ 10 → newlineUnit ∉ units) := by
  refine ⟨(source.drop pos).take size, List.take_add, ?_⟩
  cases hRune with
  | single u hAt hBreak hWhole =>
    have hUnits : (source.drop pos).take 1 = [u] := by
      rw [take_one, head?_drop, hAt]
      rfl
    rw [hUnits]
    refine ⟨rfl, ?_, ?_⟩
    · intro hRune
      rw [hBreak.mp hRune]
    · intro hRune hMem
      exact hRune (hBreak.mpr (mem_singleton.mp hMem).symm)
  | pair first second hFirst hSecond hLead hTrail hRune =>
    rcases List.getElem?_eq_some_iff.mp hFirst with ⟨hPos, rfl⟩
    rcases List.getElem?_eq_some_iff.mp hSecond with ⟨hNext, rfl⟩
    have hUnits : (source.drop pos).take 2 = [source[pos], source[pos + 1]] := by
      rw [drop_eq_getElem_cons hPos, drop_eq_getElem_cons hNext]
      rfl
    rw [hUnits]
    refine ⟨rfl, fun h => by omega, ?_⟩
    intro _ hMem
    rcases mem_cons.mp hMem with hEq | hMem
    · exact ((surrogate_facts _).1 hLead).2.1 hEq.symm
    · exact (surrogate_facts _).2.1 hTrail (mem_singleton.mp hMem).symm

/- A rune has at least as many bytes as code units. -/
lemma size_le (hRune : RuneAt source pos r size) : size ≤ (Text.encodeRune r).length := by
  cases hRune with
  | single u hAt hBreak hWhole => exact Text.encodeRune_length_pos r
  | pair first second hFirst hSecond hLead hTrail hRune =>
    unfold Text.encodeRune
    rw [if_neg (by omega)]
    repeat' split
    all_goals exact Nat.le_add_left 2 _

end RuneAt

-- Marks of Cuts

namespace Utf16SourceMap

open Search Text

/- The arrays over code units list the cuts. -/
structure UnitMarks (m : Utf16SourceMap) (cuts : List (Nat × Nat)) : Prop where
  bytesLength : m.unitToByte.length = m.source.length + 1
  marksLength : m.unitBoundary.length = m.source.length + 1
  marks : ∀ u : Nat, u ≤ m.source.length →
      (m.unitBoundary[u]? = some true ↔ ∃ b : Nat, (u, b) ∈ cuts)
  bytes : ∀ cut ∈ cuts, m.unitToByte[cut.1]? = some (UInt32.ofNat cut.2)

/- The arrays over bytes list the cuts. -/
structure ByteMarks (m : Utf16SourceMap) (cuts : List (Nat × Nat)) : Prop where
  unitsLength : m.byteToUnit.length = m.utf8.length + 1
  marksLength : m.byteBoundary.length = m.utf8.length + 1
  marks : ∀ b : Nat, b ≤ m.utf8.length → (m.byteBoundary[b]? = some true ↔ ∃ u : Nat, (u, b) ∈ cuts)
  units : ∀ cut ∈ cuts, m.byteToUnit[cut.2]? = some (UInt32.ofNat cut.1)

variable {m : Utf16SourceMap} {cuts : List (Nat × Nat)} {unitPos : Nat}

/- The cut after the rune at a position. -/
def nextCut (m : Utf16SourceMap) (unitPos : Nat) : Nat × Nat :=
  (unitPos + (decodeUTF16Rune m.source unitPos).2, m.utf8.length + (encodeRune
      (decodeUTF16Rune m.source unitPos).1).length)

lemma mem_snoc_fst {next : Nat × Nat} {u : Nat} :
    (∃ b, (u, b) ∈ cuts ++ [next]) ↔ (∃ b, (u, b) ∈ cuts) ∨ u = next.1 := by
  rcases next with ⟨u', b'⟩
  simp [exists_or]

lemma mem_snoc_snd {next : Nat × Nat} {b : Nat} :
    (∃ u, (u, b) ∈ cuts ++ [next]) ↔ (∃ u, (u, b) ∈ cuts) ∨ b = next.2 := by
  rcases next with ⟨u', b'⟩
  simp [exists_or]

/- All places of a run get one value. -/
lemma foldl_set_eq_fillRow (places : List Nat) (value : UInt32) (row : List UInt32) :
    places.foldl (fun row u => row.set u value) row =
      fillRow row (places.map (fun u => (u, value))) := by
  unfold fillRow
  rw [foldl_map]

lemma UnitMarks.addRune (hMarks : UnitMarks m cuts) (hCuts : Cuts cuts unitPos m.utf8.length)
    (hEnd : (m.nextCut unitPos).1 ≤ m.source.length) :
    UnitMarks (m.addRune unitPos) (cuts ++ [m.nextCut unitPos]) := by
  have hSize := decodeUTF16Rune_size_pos m.source unitPos
  have hPos : unitPos < (m.nextCut unitPos).1 := Nat.lt_add_of_pos_right hSize
  refine ⟨?_, ?_, ?_, ?_⟩
  · unfold Utf16SourceMap.addRune
    rw [length_set, foldl_set_eq_fillRow, length_fillRow]
    exact hMarks.bytesLength
  · unfold Utf16SourceMap.addRune
    rw [length_set, length_set]
    exact hMarks.marksLength
  · intro u hu
    change u ≤ m.source.length at hu
    show ((m.unitBoundary.set unitPos true).set (m.nextCut unitPos).1 true)[u]? = some true ↔ _
    have hIn : u < m.unitBoundary.length := by
      rw [hMarks.marksLength]
      omega
    rw [mem_snoc_fst, ← hMarks.marks u hu]
    by_cases hNext : u = (m.nextCut unitPos).1
    · rw [← hNext, getElem?_set_self (by
        rw [length_set]
        exact hIn)]
      exact ⟨fun _ => .inr rfl, fun _ => rfl⟩
    rw [getElem?_set_ne (Ne.symm hNext)]
    by_cases hHere : u = unitPos
    · rw [hHere] at hIn hu ⊢
      rw [getElem?_set_self hIn]
      refine ⟨fun _ => .inl ?_, fun _ => rfl⟩
      exact (hMarks.marks unitPos hu).mpr ⟨_, hCuts.finish⟩
    · rw [getElem?_set_ne (Ne.symm hHere)]
      exact ⟨.inl, fun h => h.resolve_right hNext⟩
  intro cut hMem
  unfold Utf16SourceMap.addRune
  dsimp only
  rw [foldl_set_eq_fillRow]
  show ((fillRow m.unitToByte _).set (m.nextCut unitPos).1 (UInt32.ofNat
      (m.nextCut unitPos).2))[cut.1]? = _
  rcases mem_append.mp hMem with hMem | hMem
  · have hBound := (hCuts.bound cut hMem).1
    rw [getElem?_set_ne (by omega)]
    rcases Nat.eq_or_lt_of_le hBound with hHere | hBefore
    · have hSame : cut = (unitPos, m.utf8.length) := hCuts.eq_of_fst hMem hCuts.finish hHere
      subst hSame
      refine getElem_fillRow ?_ ?_ ?_
      · rw [map_map]
        exact (map_id _).symm ▸ nodup_range'
      · refine mem_map.mpr ⟨unitPos, ?_, rfl⟩
        exact mem_range'_1.mpr ⟨le_rfl, Nat.lt_add_of_pos_right hSize⟩
      · rw [hMarks.bytesLength]
        omega
    · rw [getElem_fillRow_of_notMem ?_]
      · exact hMarks.bytes cut hMem
      rw [map_map]
      intro hKey
      rcases mem_map.mp hKey with ⟨u, hu, hEq⟩
      have hFrom := (mem_range'_1.mp hu).1
      change u = cut.1 at hEq
      omega
  · rw [mem_singleton.mp hMem]
    refine getElem?_set_self ?_
    rw [length_fillRow, hMarks.bytesLength]
    omega

/- The last of a run of marks is at its end. -/
lemma getElem_run {β : Type} (f : Nat → β) {size i : Nat} (hi : i < size) :
    ((List.range' 1 size).map f)[i]? = some (f (i + 1)) := by
  rw [getElem?_map, getElem?_range' hi]
  rw [Option.map_some, Nat.one_mul, add_comm]

lemma ByteMarks.addRune (hMarks : ByteMarks m cuts) (hCuts : Cuts cuts unitPos m.utf8.length) :
    ByteMarks (m.addRune unitPos) (cuts ++ [m.nextCut unitPos]) := by
  have hPos := encodeRune_length_pos (decodeUTF16Rune m.source unitPos).1
  have hLength : (m.addRune unitPos).utf8.length = (m.nextCut unitPos).2 := by
    unfold Utf16SourceMap.addRune nextCut
    rw [length_append]
  have hNext : (m.nextCut unitPos).2 =
      m.utf8.length + (encodeRune (decodeUTF16Rune m.source unitPos).1).length := rfl
  generalize hEncoded : (encodeRune (decodeUTF16Rune m.source unitPos).1).length
      = size at hPos hNext
  refine ⟨?_, ?_, ?_, ?_⟩
  · rw [hLength, hNext]
    unfold Utf16SourceMap.addRune
    rw [length_append, length_map, length_range', hEncoded, hMarks.unitsLength]
    omega
  · rw [hLength, hNext]
    unfold Utf16SourceMap.addRune
    rw [length_append, length_map, length_range', hEncoded, hMarks.marksLength]
    omega
  · intro b hb
    unfold Utf16SourceMap.addRune
    dsimp only
    rw [hEncoded, mem_snoc_snd]
    by_cases hOld : b ≤ m.utf8.length
    · have hIn : b < m.byteBoundary.length := by
        rw [hMarks.marksLength]
        omega
      rw [getElem?_append_left hIn, hMarks.marks b hOld]
      exact ⟨.inl, fun h => h.resolve_right (by omega)⟩
    rw [getElem?_append_right (by
      rw [hMarks.marksLength]
      omega), hMarks.marksLength, getElem_run _ (by omega)]
    have hNone : ¬ ∃ u, (u, b) ∈ cuts := by
      rintro ⟨u, hMem⟩
      have hBound := (hCuts.bound _ hMem).2
      omega
    rw [Option.some_inj, beq_iff_eq]
    constructor
    · omega
    rintro (hCut | hLast)
    · exact absurd hCut hNone
    · omega
  · intro cut hMem
    unfold Utf16SourceMap.addRune
    dsimp only
    rw [hEncoded]
    rcases mem_append.mp hMem with hMem | hMem
    · have hBound := (hCuts.bound cut hMem).2
      rw [getElem?_append_left (by
        rw [hMarks.unitsLength]
        omega)]
      exact hMarks.units cut hMem
    rw [mem_singleton.mp hMem, hNext, getElem?_append_right (by
        rw [hMarks.unitsLength]
        omega), hMarks.unitsLength, getElem_run _ (by omega),
      if_pos (by omega)]
    rfl

-- Lines

/- Starts of lines are listed, and rows agree at cuts. -/
structure LineMarks (m : Utf16SourceMap) (unitPos : Nat) (cuts : List (Nat × Nat)) : Prop where
  units : m.lineStartUnits = (lineStarts newlineUnit (m.source.take unitPos)).map UInt32.ofNat
  bytes : m.lineStartBytes = (lineStarts newline m.utf8).map UInt32.ofNat
  count : (lineStarts newlineUnit (m.source.take unitPos)).length
      = (lineStarts newline m.utf8).length
  rows : ∀ cut ∈ cuts, (positionAt newlineUnit m.source cut.1).row
      = (positionAt newline m.utf8 cut.2).row

lemma breaksFrom_of_notMem {α : Type} [DecidableEq α] {nl : α} {text : List α}
    (hBreak : nl ∉ text) (start : Nat) :
    breaksFrom nl start text = [] := by
  induction text generalizing start with
  | nil => rfl
  | cons c rest ih =>
    rw [mem_cons, not_or] at hBreak
    rw [breaksFrom, if_neg (Ne.symm hBreak.1)]
    exact ih hBreak.2 (start + 1)

lemma map_lineStarts_append
    {α : Type}
    [DecidableEq α]
    {nl : α}
    {r : Nat}
    (first : List α)
    {second : List α}
    (hLine : r = 10 → second = [nl])
    (hOther : r ≠ 10 → nl ∉ second) :
    (lineStarts nl (first ++ second)).map UInt32.ofNat =
      addLineStart r (first.length + second.length) ((lineStarts nl first).map UInt32.ofNat) ∧
      (lineStarts nl (first ++ second)).length =
        (lineStarts nl first).length + if r = 10 then 1 else 0 := by
  rw [lineStarts_append]
  unfold addLineStart
  by_cases hRune : r = 10
  · rw [if_pos hRune, if_pos hRune, hLine hRune, breaksFrom, if_pos rfl, breaksFrom,
      map_append, length_append]
    exact ⟨rfl, rfl⟩
  · rw [if_neg hRune, if_neg hRune, breaksFrom_of_notMem (hOther hRune), append_nil]
    exact ⟨rfl, rfl⟩

/- The number of starts tells the row of the end. -/
lemma row_positionAt {α : Type} [DecidableEq α] (nl : α) (text : List α) (offset : Nat) :
    (positionAt nl text offset).row + 1 = (lineStarts nl (text.take offset)).length :=
  (lineStarts_read nl (text.take offset)).1.symm

lemma LineMarks.addRune (hLines : LineMarks m unitPos cuts)
    (hCuts : Cuts cuts unitPos m.utf8.length) (hPos : unitPos < m.source.length) :
    LineMarks (m.addRune unitPos) (m.nextCut unitPos).1 (cuts ++ [m.nextCut unitPos]) := by
  have hRune := runeAt_decodeUTF16Rune hPos
  rcases hRune.take_add with ⟨units, hTake, hSize, hLine, hOther⟩
  have hFront : (m.source.take unitPos).length = unitPos := length_take_of_le (by omega)
  have hUnits := map_lineStarts_append (m.source.take unitPos) hLine hOther
  rw [hFront, hSize, ← hTake] at hUnits
  have hAscii : newline.toNat < 0x80 := by decide
  have hByteLine : (decodeUTF16Rune m.source unitPos).1 = 10 →
      encodeRune (decodeUTF16Rune m.source unitPos).1 = [newline] := by
    intro hLF
    rw [hLF]
    rfl
  have hBytes := map_lineStarts_append m.utf8 hByteLine (fun hNe hMem => hNe ((mem_encodeRune_iff
      hAscii _).mp hMem))
  have hCount := hLines.count
  refine ⟨?_, ?_, ?_, ?_⟩
  · show addLineStart _ _ m.lineStartUnits = _
    rw [hLines.units]
    exact hUnits.1.symm
  · show addLineStart _ _ m.lineStartBytes = _
    rw [hLines.bytes]
    exact hBytes.1.symm
  · show (lineStarts newlineUnit (m.source.take (unitPos + _))).length
        = (lineStarts newline (m.utf8 ++ _)).length
    rw [hUnits.2, hBytes.2, hCount]
  intro cut hMem
  show (positionAt newlineUnit m.source cut.1).row = (positionAt newline (m.utf8 ++ _) cut.2).row
  rcases mem_append.mp hMem with hMem | hMem
  · rw [positionAt_append_of_le _ _ _ (hCuts.bound cut hMem).2]
    exact hLines.rows cut hMem
  have hUnitRow := row_positionAt newlineUnit m.source (m.nextCut unitPos).1
  have hByteRow := row_positionAt newline (m.utf8 ++ encodeRune (decodeUTF16Rune m.source
      unitPos).1) (m.nextCut unitPos).2
  have hAll : (m.utf8 ++ encodeRune (decodeUTF16Rune m.source unitPos).1).take
      (m.nextCut unitPos).2 =
      m.utf8 ++ encodeRune (decodeUTF16Rune m.source unitPos).1 := by
    refine take_of_length_le ?_
    rw [length_append]
    exact le_rfl
  rw [hAll, hBytes.2] at hByteRow
  have hUnitCount := hUnits.2
  change (lineStarts newlineUnit (m.source.take (m.nextCut unitPos).1)).length = _ at hUnitCount
  rw [mem_singleton.mp hMem]
  omega

-- The Whole Map

variable {source : List UInt16}

/- A map of the source up to a position. -/
structure Built (source : List UInt16) (m : Utf16SourceMap) (unitPos : Nat)
    (cuts : List (Nat × Nat)) : Prop where
  same : m.source = source
  bound : unitPos ≤ source.length
  grows : unitPos ≤ m.utf8.length
  aligned : Cuts cuts unitPos m.utf8.length
  units : UnitMarks m cuts
  bytes : ByteMarks m cuts
  lines : LineMarks m unitPos cuts
  between : ∀ u : Nat, u ≤ unitPos → ((∃ b : Nat, (u, b) ∈ cuts) ↔ BetweenRunes source u)

lemma built_initial (source : List UInt16) : Built source (initial source) 0 [(0, 0)] where
  same := rfl
  bound := Nat.zero_le _
  grows := Nat.zero_le _
  aligned := Cuts.nil
  units := by
    refine ⟨length_replicate, ?_, ?_, ?_⟩
    · show ((List.replicate _ _).set 0 true).length = _
      rw [length_set, length_replicate]
      rfl
    · intro u _
      show ((List.replicate (source.length + 1) false).set 0 true)[u]? = some true ↔ _
      cases u with
      | zero =>
        rw [getElem?_set_self (by
          rw [length_replicate]
          exact Nat.succ_pos _)]
        exact ⟨fun _ => ⟨0, mem_singleton_self _⟩, fun _ => rfl⟩
      | succ u =>
        rw [getElem?_set_ne (Nat.succ_ne_zero u).symm, getElem?_replicate]
        refine ⟨fun hMark => ?_, ?_⟩
        · split at hMark
          · cases hMark
          · cases hMark
        · simp
    · intro cut hMem
      rw [mem_singleton.mp hMem]
      rfl
  bytes := by
    refine ⟨rfl, rfl, ?_, ?_⟩
    · intro b hb
      have hZero : b = 0 := Nat.le_zero.mp hb
      subst hZero
      exact ⟨fun _ => ⟨0, mem_singleton_self _⟩, fun _ => rfl⟩
    · intro cut hMem
      rw [mem_singleton.mp hMem]
      rfl
  lines := by
    refine ⟨rfl, rfl, rfl, ?_⟩
    intro cut hMem
    rw [mem_singleton.mp hMem, positionAt_zero, positionAt_zero]
  between := by
    intro u hu
    have hZero : u = 0 := Nat.le_zero.mp hu
    subst hZero
    refine ⟨fun _ => ?_, fun _ => ⟨0, mem_singleton_self _⟩⟩
    intro prev next hPos
    exact absurd hPos (lt_irrefl 0)

lemma Built.addRune (hBuilt : Built source m unitPos cuts) (hPos : unitPos < source.length) :
    Built source (m.addRune unitPos) (m.nextCut unitPos).1 (cuts ++ [m.nextCut unitPos]) := by
  have hSame := hBuilt.same
  subst hSame
  have hRune := runeAt_decodeUTF16Rune hPos
  rcases hRune.between with ⟨hSize, hEnd, hAfter, hInside⟩
  have hBytes := encodeRune_length_pos (decodeUTF16Rune m.source unitPos).1
  have hGrows := hBuilt.grows
  have hLength : (m.addRune unitPos).utf8.length = (m.nextCut unitPos).2 := by
    unfold Utf16SourceMap.addRune nextCut
    rw [length_append]
  refine ⟨rfl, hEnd, ?_, ?_, hBuilt.units.addRune hBuilt.aligned hEnd, hBuilt.bytes.addRune
    hBuilt.aligned, hBuilt.lines.addRune hBuilt.aligned hPos, ?_⟩
  · rw [hLength]
    exact add_le_add hGrows hRune.size_le
  · rw [hLength]
    exact hBuilt.aligned.snoc hSize hBytes
  intro u hu
  rw [mem_snoc_fst]
  by_cases hOld : u ≤ unitPos
  · rw [hBuilt.between u hOld]
    refine ⟨fun h => h.resolve_right ?_, .inl⟩
    show ¬ u = unitPos + _
    omega
  have hNone : ¬ ∃ b, (u, b) ∈ cuts := by
    rintro ⟨b, hMem⟩
    exact hOld (hBuilt.aligned.bound _ hMem).1
  by_cases hNext : u = (m.nextCut unitPos).1
  · rw [hNext]
    exact ⟨fun _ => hAfter, fun _ => .inr rfl⟩
  have hSplit : ¬ BetweenRunes m.source u := by
    refine hInside u (Nat.lt_of_not_le hOld) ?_
    exact lt_of_le_of_ne hu hNext
  exact ⟨fun h => absurd (h.resolve_right hNext) hNone, fun h => absurd h hSplit⟩

lemma Built.addRunes (hBuilt : Built source m unitPos cuts) :
    ∃ all : List (Nat × Nat), Built source (addRunes source m unitPos) source.length all := by
  fun_induction Utf16SourceMap.addRunes source m unitPos generalizing cuts with
  | case1 m unitPos hPos ih =>
    have hNext := hBuilt.addRune hPos
    unfold nextCut at hNext
    rw [hBuilt.same] at hNext
    exact ih hNext
  | case2 m unitPos hEnd =>
    have hBound := hBuilt.bound
    have hAll : unitPos = source.length := by omega
    rw [← hAll]
    exact ⟨cuts, hBuilt⟩

lemma built_encode (source : List UInt16) :
    ∃ cuts : List (Nat × Nat),
      Built source (encodeUTF16ToUTF8WithMap source).2 source.length cuts :=
  (built_initial source).addRunes

end Utf16SourceMap

-- Coherence

open Text

lemma toNat_ofNat_length {n : Nat} (hSmall : n < 2 ^ 32) : (UInt32.ofNat n).toNat = n :=
  toNat_ofNat_of_lt' hSmall

lemma utf16Boundary_iff {source : List UInt16} (hSmall : source.length < 2 ^ 32) (u : UInt32) :
    utf16Boundary source u ↔ u.toNat ≤ source.length ∧ BetweenRunes source u.toNat := by
  have hLength := toNat_ofNat_length hSmall
  unfold utf16Boundary
  split
  · rename_i hPast
    have hNat : source.length < u.toNat := by
      have hLt := lt_iff_toNat_lt.mp hPast
      rw [hLength] at hLt
      exact hLt
    constructor
    · simp
    · omega
  rename_i hPast
  have hNat : u.toNat ≤ source.length := by
    have hLe := Nat.le_of_not_lt fun h => hPast (lt_iff_toNat_lt.mpr h)
    rw [hLength] at hLe
    exact hLe
  split_ifs with hEnds
  · refine ⟨fun _ => ⟨hNat, ?_⟩, fun _ => rfl⟩
    intro prev next hPos _ hNext
    rcases hEnds with rfl | rfl
    · exact absurd hPos (lt_irrefl 0)
    · rw [hLength, getElem?_eq_none_iff.mpr le_rfl] at hNext
      cases hNext
  rw [not_or] at hEnds
  have hPos : 0 < u.toNat := pos_of_ne_zero fun h => hEnds.1 (UInt32.toNat_inj.mp h)
  have hLt : u.toNat < source.length := by
    refine lt_of_le_of_ne hNat fun h => hEnds.2 ?_
    rw [← UInt32.toNat_inj, hLength]
    exact h
  have hBefore : u.toNat - 1 < source.length := by omega
  have hPrev := getElem?_eq_getElem hBefore
  have hNext := getElem?_eq_getElem hLt
  rw [getD_eq_getElem?_getD, getD_eq_getElem?_getD, hPrev, hNext]
  dsimp only [Option.getD_some]
  rw [Bool.or_eq_true, Bool.not_eq_true', Bool.not_eq_true']
  constructor
  · intro hTest
    refine ⟨hNat, ?_⟩
    intro prev next _ hp hn hLead hTrail
    rw [hPrev] at hp
    rw [hNext] at hn
    cases hp
    cases hn
    rcases hTest with hTest | hTest
    · simp [hTest] at hLead
    · simp [hTest] at hTrail
  · rintro ⟨_, hBetween⟩
    by_contra hBoth
    rw [not_or, Bool.not_eq_false, Bool.not_eq_false] at hBoth
    exact hBetween _ _ hPos hPrev hNext hBoth.1 hBoth.2

namespace Utf16SourceMap

/-
  The map of a source: its arrays have an entry for every offset, its boundaries are those of the
  source, it goes back and forth between boundaries and keeps their order, and the points of an
  offset are on one row, with the columns that reading the two texts leads to.
-/
structure Coherent (source : List UInt16) (m : Utf16SourceMap) : Prop where
  unitsTotal : m.unitToByte.length = source.length + 1 ∧ m.unitBoundary.length = source.length + 1
  bytesTotal : m.byteToUnit.length = m.utf8.length + 1 ∧ m.byteBoundary.length = m.utf8.length + 1
  boundary : ∀ u : UInt32, m.unitBoundary.getD u.toNat false = utf16Boundary source u
  unitDefined : ∀ u : UInt32, (m.utf16UnitToByte u).isSome = utf16Boundary source u
  byteDefined : ∀ b : UInt32, (m.byteToUTF16Unit b).isSome = m.byteBoundary.getD b.toNat false
  inverse : ∀ u b : UInt32, m.utf16UnitToByte u = some b ↔ m.byteToUTF16Unit b = some u
  increasing : ∀ u v b c : UInt32, m.utf16UnitToByte u = some b →
      m.utf16UnitToByte v = some c → (u < v ↔ b < c)
  points : ∀ u b : UInt32, m.utf16UnitToByte u = some b → ∃ p q : Point, m.pointForUnit u = some p ∧
      m.pointForUTF8Byte b = some q ∧ p.row = q.row ∧ p.row.toNat = (positionAt newlineUnit source
      u.toNat).row ∧ p.column.toNat = (positionAt newlineUnit source u.toNat).column ∧
      q.column.toNat = (positionAt newline m.utf8 b.toNat).column

variable {source : List UInt16} {m : Utf16SourceMap} {cuts : List (Nat × Nat)} {marks : List Bool}

/-
  A guarded lookup in a table finds the pairs of a relation if the table holds their second parts
  and the marks say where it does.
-/
lemma markedLookup_iff
    {table : List UInt32}
    {size : Nat}
    {R : Nat → Nat → Prop}
    (hSize : size < 2 ^ 32)
    (hLength : table.length = size + 1)
    (hMarks : ∀ i ≤ size, marks[i]? = some true ↔ ∃ j, R i j)
    (hTable : ∀ i j, R i j → table[i]? = some (UInt32.ofNat j))
    (hBound : ∀ i j, R i j → i ≤ size ∧ j < 2 ^ 32)
    (offset value : UInt32) :
    (if offset > UInt32.ofNat (table.length - 1) then none
    else if marks[offset.toNat]? = some true then table[offset.toNat]? else none) = some value ↔
      R offset.toNat value.toNat := by
  have hLast : (UInt32.ofNat (table.length - 1)).toNat = size := by
    rw [hLength, Nat.add_sub_cancel]
    exact toNat_ofNat_length hSize
  constructor
  · intro hFound
    split at hFound
    · cases hFound
    rename_i hPast
    split at hFound
    · rename_i hMark
      have hIn : offset.toNat ≤ size := by
        rw [← hLast]
        exact Nat.le_of_not_lt fun h => hPast (lt_iff_toNat_lt.mpr h)
      obtain ⟨j, hPair⟩ := (hMarks offset.toNat hIn).mp hMark
      rw [hTable _ _ hPair] at hFound
      cases hFound
      rw [toNat_ofNat_length (hBound _ _ hPair).2]
      exact hPair
    · cases hFound
  · intro hPair
    have hIn := (hBound _ _ hPair).1
    have hMark := (hMarks offset.toNat hIn).mpr ⟨_, hPair⟩
    have hPast : ¬ offset > UInt32.ofNat (table.length - 1) := by
      intro h
      have hLt := lt_iff_toNat_lt.mp h
      omega
    rw [if_neg hPast, if_pos hMark, hTable _ _ hPair, UInt32.ofNat_toNat]

lemma rowOf_eq {starts : List Nat} (hStarts : ∀ start ∈ starts, start < 2 ^ 32) (offset : UInt32) :
    rowOf (starts.map UInt32.ofNat) offset = lineAt starts offset.toNat := by
  have hBelow : (fun i : Nat => ((starts.map UInt32.ofNat)[i]?).any fun start => ¬ start > offset) =
      fun i : Nat => (starts[i]?).any (fun start => start ≤ offset.toNat) := by
    funext i
    rw [getElem?_map]
    cases hAt : starts[i]? with
    | none => rfl
    | some start =>
      have hSmall := hStarts start (mem_of_getElem? hAt)
      rw [Option.map_some, Option.any_some, Option.any_some]
      refine decide_eq_decide.mpr ?_
      rw [gt_iff_lt, lt_iff_toNat_lt, toNat_ofNat_length hSmall, not_lt]
  unfold rowOf lineAt
  rw [hBelow, length_map]

/- A search among starts finds the position of an offset. -/
lemma pointFrom_eq {α : Type} [DecidableEq α] {nl : α} {text : List α}
    (hSmall : text.length < 2 ^ 32) {offset : UInt32} (hOffset : offset.toNat ≤ text.length) :
    pointFrom ((lineStarts nl text).map UInt32.ofNat) offset =
      Point.ofPosition (positionAt nl text offset.toNat) := by
  have hStarts : ∀ start ∈ lineStarts nl text, start < 2 ^ 32 := by
    intro start hMem
    rcases mem_cons.mp hMem with rfl | hMem
    · decide
    · have hBound := (lt_of_mem_breaksFrom hMem).2
      omega
  have hColumn := (positionAt_le nl text offset.toNat).2
  have hStart : (UInt32.ofNat (offset.toNat - (positionAt nl text offset.toNat).column)).toNat =
      offset.toNat - (positionAt nl text offset.toNat).column := toNat_ofNat_length (by omega)
  unfold pointFrom Point.ofPosition
  rw [rowOf_eq hStarts, lineAt_eq hOffset, getD_eq_getElem?_getD, getElem?_map,
    lineStarts_getElem hOffset, Option.map_some, Option.getD_some]
  congr 1
  rw [← UInt32.toNat_inj, UInt32.toNat_sub_of_le, hStart, toNat_ofNat_length (by omega)]
  · omega
  · rw [le_iff_toNat_le, hStart]
    exact Nat.sub_le _ _

section

variable (hBuilt : Built source m source.length cuts)

include hBuilt

lemma utf16UnitToByte_iff (hSmall : m.utf8.length < 2 ^ 32) (u b : UInt32) :
    m.utf16UnitToByte u = some b ↔ (u.toNat, b.toNat) ∈ cuts := by
  have hSource := hBuilt.same
  subst hSource
  refine markedLookup_iff (hBuilt.grows.trans_lt hSmall) hBuilt.units.bytesLength
    hBuilt.units.marks (fun _ _ hMem => hBuilt.units.bytes _ hMem) ?_ u b
  intro unit byte hMem
  have hIn := hBuilt.aligned.bound _ hMem
  exact ⟨hIn.1, hIn.2.trans_lt hSmall⟩

lemma byteToUTF16Unit_iff (hSmall : m.utf8.length < 2 ^ 32) (u b : UInt32) :
    m.byteToUTF16Unit b = some u ↔ (u.toNat, b.toNat) ∈ cuts := by
  refine markedLookup_iff hSmall hBuilt.bytes.unitsLength hBuilt.bytes.marks
    (fun _ _ hMem => hBuilt.bytes.units _ hMem) ?_ b u
  intro byte unit hMem
  have hIn := hBuilt.aligned.bound _ hMem
  exact ⟨hIn.2, lt_of_le_of_lt (hIn.1.trans hBuilt.grows) hSmall⟩

lemma Built.points (hSmall : m.utf8.length < 2 ^ 32) {u b : UInt32}
    (hMem : (u.toNat, b.toNat) ∈ cuts) :
    m.pointForUnit u = some (Point.ofPosition (positionAt newlineUnit source u.toNat)) ∧
      m.pointForUTF8Byte b = some (Point.ofPosition (positionAt newline m.utf8 b.toNat)) := by
  have hSource := hBuilt.same
  subst hSource
  have hBound := hBuilt.aligned.bound _ hMem
  have hLess : m.source.length < 2 ^ 32 := hBuilt.grows.trans_lt hSmall
  have hNotPast : ∀ offset n, n < 2 ^ 32 → offset.toNat ≤ n → ¬ offset > UInt32.ofNat n := by
    intro offset n hn hLe hGt
    have hLt := lt_iff_toNat_lt.mp hGt
    rw [toNat_ofNat_length hn] at hLt
    omega
  unfold pointForUnit pointForUTF8Byte
  rw [if_neg (hNotPast u _ hLess hBound.1), if_neg (hNotPast b _ hSmall hBound.2),
    hBuilt.lines.units, hBuilt.lines.bytes, take_length,
    pointFrom_eq hLess hBound.1, pointFrom_eq hSmall hBound.2]
  exact ⟨rfl, rfl⟩

end

lemma getD_false_eq_true_iff {i : Nat} : marks.getD i false ↔ marks[i]? = some true := by
  rw [getD_eq_getElem?_getD]
  cases marks[i]? with
  | none => exact ⟨nofun, nofun⟩
  | some mark => exact ⟨congrArg some, Option.some.inj⟩

lemma mark_iff {n i : Nat} {P : Nat → Prop} (hLength : marks.length ≤ n + 1)
    (hMarks : ∀ i, i ≤ n → (marks[i]? = some true ↔ P i)) (hBound : P i → i ≤ n) :
    marks[i]? = some true ↔ P i := by
  constructor
  · intro hMark
    have hIn := (List.getElem?_eq_some_iff.mp hMark).1
    exact (hMarks i (by omega)).mp hMark
  · intro hP
    exact (hMarks i (hBound hP)).mpr hP

lemma Built.coherent (hBuilt : Built source m source.length cuts)
    (hSmall : m.utf8.length < 2 ^ 32) :
    Coherent source m := by
  have hLess : source.length < 2 ^ 32 := hBuilt.grows.trans_lt hSmall
  have hUnits := utf16UnitToByte_iff hBuilt hSmall
  have hBytes := byteToUTF16Unit_iff hBuilt hSmall
  have hSource := hBuilt.same
  have hCut : ∀ u, utf16Boundary source u ↔ ∃ b, (u.toNat, b) ∈ cuts := by
    intro u
    rw [utf16Boundary_iff hLess]
    constructor
    · rintro ⟨hBound, hBetween⟩
      exact (hBuilt.between u.toNat hBound).mpr hBetween
    rintro ⟨b, hMem⟩
    have hBound := (hBuilt.aligned.bound _ hMem).1
    exact ⟨hBound, (hBuilt.between u.toNat hBound).mp ⟨b, hMem⟩⟩
  have hUnitMark : ∀ u, m.unitBoundary.getD u false ↔ ∃ b, (u, b) ∈ cuts := by
    intro u
    rw [getD_false_eq_true_iff]
    refine mark_iff ?_ hBuilt.units.marks ?_
    · exact hBuilt.units.marksLength.le
    rintro ⟨b, hMem⟩
    rw [hSource]
    exact (hBuilt.aligned.bound _ hMem).1
  have hByteMark : ∀ b, m.byteBoundary.getD b false ↔ ∃ u, (u, b) ∈ cuts := by
    intro b
    rw [getD_false_eq_true_iff]
    refine mark_iff ?_ hBuilt.bytes.marks ?_
    · exact hBuilt.bytes.marksLength.le
    · rintro ⟨u, hMem⟩
      exact (hBuilt.aligned.bound _ hMem).2
  refine ⟨?_, ?_, ?_, ?_, ?_, ?_, ?_, ?_⟩
  · rw [← hSource]
    exact ⟨hBuilt.units.bytesLength, hBuilt.units.marksLength⟩
  · exact ⟨hBuilt.bytes.unitsLength, hBuilt.bytes.marksLength⟩
  · intro u
    rw [Bool.eq_iff_iff, hUnitMark, hCut]
  · intro u
    rw [Bool.eq_iff_iff, hCut, Option.isSome_iff_exists]
    constructor
    · rintro ⟨b, hFound⟩
      exact ⟨b.toNat, (hUnits u b).mp hFound⟩
    rintro ⟨b, hMem⟩
    have hByte := (hBuilt.aligned.bound _ hMem).2
    refine ⟨UInt32.ofNat b, (hUnits u _).mpr ?_⟩
    rw [toNat_ofNat_length (hByte.trans_lt hSmall)]
    exact hMem
  · intro b
    rw [Bool.eq_iff_iff, hByteMark, Option.isSome_iff_exists]
    constructor
    · rintro ⟨u, hFound⟩
      exact ⟨u.toNat, (hBytes u b).mp hFound⟩
    rintro ⟨u, hMem⟩
    have hUnit := (hBuilt.aligned.bound _ hMem).1
    refine ⟨UInt32.ofNat u, (hBytes _ b).mpr ?_⟩
    rw [toNat_ofNat_length (hUnit.trans_lt hLess)]
    exact hMem
  · intro u b
    rw [hUnits, hBytes]
  · intro u v b c hb hc
    rw [lt_iff_toNat_lt, lt_iff_toNat_lt]
    exact hBuilt.aligned.lt_iff ((hUnits u b).mp hb) ((hUnits v c).mp hc)
  · intro u b hFound
    have hMem := (hUnits u b).mp hFound
    rcases hBuilt.points hSmall hMem with ⟨hUnit, hByte⟩
    have hRow := hBuilt.lines.rows _ hMem
    rw [hSource] at hRow
    have hBound := hBuilt.aligned.bound _ hMem
    have hUnitLe := positionAt_le newlineUnit source u.toNat
    have hByteLe := positionAt_le newline m.utf8 b.toNat
    refine ⟨_, _, hUnit, hByte, ?_, ?_, ?_, ?_⟩
    · exact congrArg UInt32.ofNat hRow
    · exact toNat_ofNat_length (by omega)
    · exact toNat_ofNat_length (by omega)
    · exact toNat_ofNat_length (by omega)

end Utf16SourceMap

/-
  The map between a source and its UTF-8 form is coherent if
  the form is short enough for 32-bit offsets.
-/
theorem encodeUTF16ToUTF8WithMap_coherent
    (source : List UInt16)
    (hSmall : (encodeUTF16ToUTF8WithMap source).1.length < 2 ^ 32) :
    Utf16SourceMap.Coherent source (encodeUTF16ToUTF8WithMap source).2 := by
  rcases Utf16SourceMap.built_encode source with ⟨cuts, hBuilt⟩
  exact hBuilt.coherent hSmall

/- A lone surrogate, a pair and a line feed. -/
theorem encodeUTF16ToUTF8WithMap_coherent_pair :
    Utf16SourceMap.Coherent [0xD800, 0xD83D, 0xDE00, 10]
      (encodeUTF16ToUTF8WithMap [0xD800, 0xD83D, 0xDE00, 10]).2 :=
  encodeUTF16ToUTF8WithMap_coherent [0xD800, 0xD83D, 0xDE00, 10] (by decide +kernel)

/-
  With as many code units as there are 32-bit numbers the
  length wraps to 0, and no offset after it is a boundary.
-/
theorem huge_source_boundaries_differ :
    ∃ source : List UInt16,
      (encodeUTF16ToUTF8WithMap source).2.unitBoundary.getD 1 false = true ∧
        utf16Boundary source 1 = false := by
  refine ⟨List.replicate (2 ^ 32) 0x61, ?_, ?_⟩
  · rcases Utf16SourceMap.built_encode (List.replicate (2 ^ 32) 0x61) with ⟨cuts, hBuilt⟩
    have hSource := hBuilt.same
    have hLength := length_replicate (n := 2 ^ 32) (a := (0x61 : UInt16))
    have hOne : 1 ≤ (List.replicate (2 ^ 32) (0x61 : UInt16)).length := by
      rw [hLength]
      decide
    have hBetween : BetweenRunes (List.replicate (2 ^ 32) 0x61) 1 := by
      intro prev next _ hPrev _ hLead _
      rw [eq_of_mem_replicate (mem_of_getElem? hPrev)] at hLead
      cases hLead
    rw [Utf16SourceMap.getD_false_eq_true_iff, hBuilt.units.marks 1 (by
        rw [hSource]
        exact hOne),
      hBuilt.between 1 hOne]
    exact hBetween
  · unfold utf16Boundary
    rw [length_replicate, if_pos (by decide)]

end GoTreeSitter
