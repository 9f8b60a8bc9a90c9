import GoTreeSitter.Grammargen.Assemble
import GoTreeSitter.Language.LookupCorrect

/-
  Dense and small rows decode to the cells they are made of.

  Key theorems include:
    * `linearActionIndex_emitTables`
    * `lookupLargeStateGoto_emitTables`

  A cell is found by the place of its symbol in a dense row, and by the section of its value in a
  small row. A goto that does not fit is found among the large gotos.
-/

-- Sections

namespace GoTreeSitter.Grammargen

open List

open GoTreeSitter.Language

/- The pairs that sections stand for. -/
def sectionSymbols (parts : List (UInt16 × List UInt16)) : List (Symbol × UInt16) :=
  parts.flatMap (fun part =>
    part.2.map (fun sym => (sym, part.1)))

variable {parts : List (UInt16 × List UInt16)} {value sym : UInt16}

lemma sectionPairs_encode (hSizes : ∀ part ∈ parts, part.2.length < 65536)
    (before after : List UInt16) :
    sectionPairs (before ++ (encodeSections parts ++ after)) parts.length before.length =
      sectionSymbols parts := by
  induction parts generalizing before with
  | nil => rfl
  | cons part rest ih =>
    have hSize : (UInt16.ofNat part.2.length).toNat = part.2.length :=
      UInt16.toNat_ofNat_of_lt' (hSizes part mem_cons_self)
    have hTable : before ++ (encodeSections (part :: rest) ++ after) =
        before ++
          (part.1 :: UInt16.ofNat part.2.length :: (part.2 ++ (encodeSections rest ++ after))) := by
      unfold encodeSections
      rw [flatMap_cons, cons_append, cons_append, cons_append, cons_append, append_assoc]
    have hNext : before ++ (encodeSections (part :: rest) ++ after) =
        (before ++ (part.1 :: UInt16.ofNat part.2.length :: part.2)) ++
          (encodeSections rest ++ after) := by
      rw [hTable, append_assoc]
      rfl
    have hSyms :
        ((before ++ (encodeSections (part :: rest) ++ after)).drop (before.length + 2)).take
          part.2.length = part.2 := by
      rw [hTable, ← drop_drop, drop_left]
      exact take_left
    have hRest := ih (fun other hMem => hSizes other (mem_cons_of_mem part hMem)) (before ++ (part.1
      :: UInt16.ofNat part.2.length :: part.2))
    rw [← hNext, length_append, length_cons, length_cons] at hRest
    have hValue :
        (before ++ (encodeSections (part :: rest) ++ after))[before.length]? = some part.1 := by
      rw [hTable, getElem?_append_right (le_refl _), Nat.sub_self]
      rfl
    have hCount : (before ++ (encodeSections (part :: rest) ++ after))[before.length + 1]? =
        some (UInt16.ofNat part.2.length) := by
      rw [hTable, getElem?_append_right (by omega), Nat.add_sub_cancel_left]
      rfl
    rw [length_cons, sectionPairs, hValue, hCount]
    dsimp only
    rw [hSize, hSyms, show before.length + 2 + part.2.length = before.length + (part.2.length + 1 +
      1) by omega, hRest]
    rfl

/- The offset of a row is the length of those before it. -/
lemma buildSmallTable_eq (rows : List (List UInt16)) :
    (buildSmallTable rows).1 = rows.flatten ∧
      (buildSmallTable rows).2 =
        (List.range rows.length).map (fun i => UInt32.ofNat (rows.take i).flatten.length) := by
  unfold buildSmallTable
  induction rows using List.reverseRecOn with
  | nil => exact ⟨rfl, rfl⟩
  | append_singleton rows row ih =>
    rcases ih with ⟨hTable, hMap⟩
    rw [foldl_append, foldl_cons, foldl_nil]
    constructor
    · rw [hTable, flatten_append]
      rw [flatten_singleton]
    dsimp only
    rw [hMap, hTable, length_append, length_singleton, range_succ, map_append, map_singleton]
    congr 1
    · refine map_congr_left (fun i hi => ?_)
      rw [take_append_of_le_length (le_of_lt (mem_range.mp hi))]
    · rw [take_left]

lemma smallPairs_buildSmallTable
    {lang : Language}
    {rows : List (List (UInt16 × List UInt16))}
    (hTable : lang.smallParseTable =
      (buildSmallTable
        (rows.map (fun parts => UInt16.ofNat parts.length :: encodeSections parts))).1)
    (hMap : lang.smallParseTableMap =
      (buildSmallTable
        (rows.map (fun parts => UInt16.ofNat parts.length :: encodeSections parts))).2)
    (hTotal : lang.smallParseTable.length < 2 ^ 32)
    {i : Nat}
    (hAt : rows[i]? = some parts)
    (hCount : parts.length < 65536)
    (hSizes : ∀ part ∈ parts, part.2.length < 65536) :
    lang.smallPairs i = sectionSymbols parts := by
  generalize hRows : rows.map (fun parts => UInt16.ofNat parts.length
      :: encodeSections parts) = coded at hTable hMap
  have hCoded : coded[i]? = some (UInt16.ofNat parts.length :: encodeSections parts) := by
    rw [← hRows, getElem?_map, hAt]
    rfl
  rcases List.getElem?_eq_some_iff.mp hCoded with ⟨hi, hRow⟩
  rw [(buildSmallTable_eq coded).1] at hTable
  rw [(buildSmallTable_eq coded).2] at hMap
  have hSplit : coded.flatten =
      (coded.take i).flatten ++
        (UInt16.ofNat parts.length :: (encodeSections parts ++ (coded.drop (i + 1)).flatten)) := by
    have hParts : coded = coded.take i ++ coded[i] :: coded.drop (i + 1) := by
      rw [getElem_cons_drop, take_append_drop]
    rw [hRow] at hParts
    have hFlat := congrArg List.flatten hParts
    rw [flatten_append, flatten_cons, cons_append] at hFlat
    exact hFlat
  rw [hTable, hSplit, length_append] at hTotal
  have hOffset : (UInt32.ofNat (coded.take i).flatten.length).toNat =
      (coded.take i).flatten.length :=
    UInt32.toNat_ofNat_of_lt' (by
      show _ < 2 ^ 32
      omega)
  unfold Language.smallPairs
  rw [hMap, getElem?_map, getElem?_range hi, Option.map_some]
  dsimp only
  rw [hOffset, hTable, hSplit, getElem?_append_right (le_refl _), Nat.sub_self, getElem?_cons_zero]
  dsimp only
  rw [UInt16.toNat_ofNat_of_lt' hCount]
  have hWalk := sectionPairs_encode hSizes ((coded.take i).flatten ++ [UInt16.ofNat parts.length])
    (coded.drop (i + 1)).flatten
  rw [length_append, length_singleton, append_assoc, singleton_append] at hWalk
  exact hWalk

-- Cells of a Small Row

open Search
variable {tokenCount : Nat} {row : List UInt32}

lemma mem_smallCells :
    (value, sym) ∈ smallCells tokenCount row ↔
      ∃ place cell,
        row[place]? = some cell ∧ downcastCell tokenCount place cell = value ∧
          UInt16.ofNat place = sym ∧ value ≠ 0 := by
  unfold smallCells
  rw [mem_filter, mem_map, decide_eq_true_eq]
  constructor
  · rintro ⟨⟨⟨cell, place⟩, hMem, hEq⟩, hValue⟩
    rw [Prod.mk.injEq] at hEq
    exact ⟨place, cell, mem_zipIdx_iff_getElem?.mp hMem, hEq.1, hEq.2, hValue⟩
  rintro ⟨place, cell, hAt, hDown, hSym, hValue⟩
  refine ⟨⟨(cell, place), ?_, ?_⟩, hValue⟩
  · exact mem_zipIdx_iff_getElem?.mpr hAt
  · rw [hDown, hSym]

lemma mem_symbols {cells : List (UInt16 × UInt16)} :
    sym ∈ ((cells.filter (fun cell => cell.1 = value)).map Prod.snd).insertionSort (· ≤ ·) ↔
      (value, sym) ∈ cells := by
  rw [mem_insertionSort]
  constructor
  · intro hMem
    rcases mem_map.mp hMem with ⟨cell, hCell, rfl⟩
    rcases mem_filter.mp hCell with ⟨hIn, hValue⟩
    rw [← of_decide_eq_true hValue]
    exact hIn
  · simp

lemma mem_sectionSymbols {sym value : UInt16} :
    (sym, value) ∈ sectionSymbols (smallSections tokenCount row) ↔
      (value, sym) ∈ smallCells tokenCount row := by
  unfold sectionSymbols smallSections
  rw [mem_flatMap]
  constructor
  · rintro ⟨part, hPart, hMem⟩
    rcases mem_map.mp hPart with ⟨v, _, rfl⟩
    rcases mem_map.mp hMem with ⟨s, hs, hEq⟩
    rcases hEq with ⟨rfl, rfl⟩
    exact mem_symbols.mp hs
  · intro hCell
    refine ⟨(value, _), mem_map.mpr ⟨value, ?_, rfl⟩, mem_map.mpr ⟨sym, mem_symbols.mpr hCell, rfl⟩⟩
    rw [mem_insertionSort, mem_dedup]
    exact mem_map_of_mem hCell

lemma length_encodeSections (parts : List (UInt16 × List UInt16)) :
    (encodeSections parts).length = 2 * parts.length + (sectionSymbols parts).length := by
  unfold encodeSections sectionSymbols
  induction parts with
  | nil => rfl
  | cons part rest ih =>
    rw [flatMap_cons, flatMap_cons, length_append, length_append, ih,
      length_map, length_cons, length_cons, length_cons]
    omega

section

variable (tokenCount : Nat) {row : List UInt32}

lemma nodup_smallCells (hWidth : row.length < 65536) :
    ((smallCells tokenCount row).map Prod.snd).Nodup := by
  have hSyms : ((row.zipIdx.map
      (fun cell => (downcastCell tokenCount cell.2 cell.1, UInt16.ofNat cell.2))).map
      Prod.snd).Nodup := by
    rw [map_map]
    refine List.Nodup.map_on ?_ ?_
    · rintro ⟨a, i⟩ ha ⟨b, j⟩ hb hEq
      have hi := (List.getElem?_eq_some_iff.mp (List.mem_zipIdx_iff_getElem?.mp ha)).1
      have hj := (List.getElem?_eq_some_iff.mp (List.mem_zipIdx_iff_getElem?.mp hb)).1
      have hPlace := congrArg UInt16.toNat hEq
      change (UInt16.ofNat i).toNat = (UInt16.ofNat j).toNat at hPlace
      rw [UInt16.toNat_ofNat_of_lt' (by exact lt_trans hi hWidth), UInt16.toNat_ofNat_of_lt' (by
        exact lt_trans hj hWidth)] at hPlace
      subst hPlace
      have ha := mem_zipIdx_iff_getElem?.mp ha
      have hb := mem_zipIdx_iff_getElem?.mp hb
      rw [ha] at hb
      cases hb
      rfl
    · refine List.Nodup.of_map Prod.snd ?_
      rw [zipIdx_map_snd]
      exact nodup_range'
  exact hSyms.sublist (filter_sublist.map Prod.snd)

lemma nodup_sectionSymbols (hWidth : row.length < 65536) :
    ((sectionSymbols (smallSections tokenCount row)).map Prod.fst).Nodup := by
  have hCells := nodup_smallCells tokenCount hWidth
  have hUnique : ∀ sym v w,
      (v, sym) ∈ smallCells tokenCount row → (w, sym) ∈ smallCells tokenCount row → v = w := by
    intro sym v w hv hw
    exact congrArg Prod.fst (inj_on_of_nodup_map hCells hv hw rfl)
  unfold sectionSymbols
  rw [map_flatMap, nodup_flatMap]
  constructor
  · intro part hPart
    rw [map_map, show (Prod.fst ∘ fun sym : UInt16 => (sym, part.1)) = id from rfl, map_id]
    rcases mem_map.mp hPart with ⟨v, _, rfl⟩
    rw [(perm_insertionSort (· ≤ ·) _).nodup_iff]
    exact hCells.sublist (filter_sublist.map Prod.snd)
  have hValues : (((smallCells tokenCount row).map Prod.fst).dedup.insertionSort (· ≤ ·)).Nodup :=
    (perm_insertionSort (· ≤ ·) _).nodup_iff.mpr (nodup_dedup _)
  unfold smallSections
  rw [pairwise_map]
  refine hValues.imp fun hNe => ?_
  rw [Function.onFun, disjoint_left]
  intro sym hLeft hRight
  rw [map_map] at hLeft hRight
  rcases mem_map.mp hLeft with ⟨s, hs, rfl⟩
  rcases mem_map.mp hRight with ⟨t, ht, hEq⟩
  change t = s at hEq
  rw [hEq] at ht
  exact hNe (hUnique s _ _ (mem_symbols.mp hs) (mem_symbols.mp ht))

lemma length_smallCells (row : List UInt32) : (smallCells tokenCount row).length ≤ row.length := by
  refine (length_filter_le _ _).trans ?_
  rw [length_map, length_zipIdx]

lemma length_smallSections (row : List UInt32) :
    (smallSections tokenCount row).length ≤ row.length ∧
      ∀ part ∈ smallSections tokenCount row, part.2.length ≤ row.length := by
  have hCells := length_smallCells tokenCount row
  unfold smallSections
  constructor
  · rw [length_map, length_insertionSort]
    refine (dedup_sublist _).length_le.trans ?_
    rw [length_map]
    exact hCells
  intro part hPart
  rcases mem_map.mp hPart with ⟨v, _, rfl⟩
  rw [length_insertionSort, length_map]
  exact (length_filter_le _ _).trans hCells

lemma length_smallRow (hWidth : row.length < 65536) :
    (smallRow tokenCount row).length ≤ 3 * row.length + 1 := by
  have hSections := (length_smallSections tokenCount row).1
  have hNodup := (nodup_sectionSymbols tokenCount hWidth).of_map Prod.fst
  have hCells := length_smallCells tokenCount row
  have hSwapped : ((sectionSymbols (smallSections tokenCount row)).map Prod.swap).length ≤
      (smallCells tokenCount row).length := by
    refine (subperm_of_subset (hNodup.map Prod.swap_injective) ?_).length_le
    intro cell hCell
    rcases mem_map.mp hCell with ⟨⟨sym, value⟩, hMem, rfl⟩
    exact mem_sectionSymbols.mp hMem
  rw [length_map] at hSwapped
  unfold smallRow
  rw [length_cons, length_encodeSections]
  omega

end

lemma find_sectionSymbols (hWidth : row.length < 65536) {place : Nat} {cell : UInt32}
    (hAt : row[place]? = some cell) :
    (find (UInt16.ofNat place) (sectionSymbols (smallSections tokenCount row))).getD 0 =
      downcastCell tokenCount place cell := by
  have hNodup := nodup_sectionSymbols tokenCount hWidth
  have hPlace := (List.getElem?_eq_some_iff.mp hAt).1
  by_cases hZero : downcastCell tokenCount place cell = 0
  · cases hFind : find (UInt16.ofNat place) (sectionSymbols (smallSections tokenCount row)) with
    | none => exact hZero.symm
    | some value =>
      rw [find_eq_some_iff hNodup, mem_sectionSymbols, mem_smallCells] at hFind
      rcases hFind with ⟨other, found, hOther, hDown, hSym, hValue⟩
      have hBound := (List.getElem?_eq_some_iff.mp hOther).1
      have hSame := congrArg UInt16.toNat hSym
      rw [UInt16.toNat_ofNat_of_lt' (by
          show _ < 65536
          omega),
        UInt16.toNat_ofNat_of_lt' (by
          show _ < 65536
          omega)] at hSame
      subst hSame
      rw [hAt] at hOther
      cases hOther
      exact hDown.symm
  · have hFind : find (UInt16.ofNat place) (sectionSymbols (smallSections tokenCount row)) =
        some (downcastCell tokenCount place cell) := by
      rw [find_eq_some_iff hNodup, mem_sectionSymbols, mem_smallCells]
      exact ⟨place, cell, hAt, rfl, rfl, hZero⟩
    rw [hFind]
    rfl

-- Lookups in Emitted Tables

/- The rows of the small table. -/
def smallRows (ng : NormalizedGrammar) (tokenCount : Nat) (rows : List (List UInt32)) :
    List (List UInt16) :=
  let newRows := newRawTable ng tokenCount rows
  (newRows.drop (largeStates (denseThreshold rows) newRows)).map (smallRow tokenCount)

/- Rows that fit the numbers of symbols, states, offsets. -/
structure RowsFit (ng : NormalizedGrammar) (tokenCount : Nat) (raw : List (List UInt32)) :
    Prop where
  rows : ∀ row ∈ newRawTable ng tokenCount raw, row.length = ng.symbolCount
  symbols : ng.symbolCount < 65536
  states : (newRawTable ng tokenCount raw).length < 2 ^ 32
  offsets : (smallRows ng tokenCount raw).flatten.length < 2 ^ 32

variable {lang : Language} {ng : NormalizedGrammar} {rows : List (List UInt32)}
  {groups : ActionGroups} {newRows : List (List UInt32)} {state place : Nat} {cell : UInt32}

lemma length_flatten_smallRows {width : Nat} (hRows : ∀ row ∈ newRows, row.length = width)
    (hWidth : width < 65536) (tokenCount : Nat) :
    ((newRows.map (smallRow tokenCount)).flatten).length ≤ newRows.length * (3 * width + 1) := by
  induction newRows with
  | nil => exact Nat.zero_le _
  | cons row rest ih =>
    have hRow := hRows row mem_cons_self
    have hRest := ih (fun other hMem => hRows other (mem_cons_of_mem row hMem))
    have hLength := @length_smallRow tokenCount row (by omega)
    rw [map_cons, flatten_cons, length_append, length_cons, add_mul, one_mul]
    omega

lemma largeStates_bounds (threshold : Nat) (ng : NormalizedGrammar) (tokenCount : Nat)
    (rows : List (List UInt32)) :
    0 < largeStates threshold (newRawTable ng tokenCount rows) ∧
      largeStates threshold (newRawTable ng tokenCount rows) ≤
        (newRawTable ng tokenCount rows).length := by
  have hLength : (newRawTable ng tokenCount rows).length = rows.length + 1 := by
    unfold newRawTable
    rw [length_cons, length_map]
  unfold largeStates
  rw [hLength]
  omega

section

variable {row : List UInt32} (hFit : RowsFit ng tokenCount rows)
  (hRow : (newRawTable ng tokenCount rows)[state]? = some row)

include hFit hRow

lemma RowsFit.toNat_state : (UInt32.ofNat state).toNat = state := by
  have hState := (List.getElem?_eq_some_iff.mp hRow).1
  have hStates := hFit.states
  refine UInt32.toNat_ofNat_of_lt' ?_
  show _ < 2 ^ 32
  omega

lemma RowsFit.toNat_place (hCell : row[place]? = some cell) :
    (UInt16.ofNat place).toNat = place := by
  have hPlace := (List.getElem?_eq_some_iff.mp hCell).1
  have hLength := hFit.rows row (mem_of_getElem? hRow)
  have hSymbols := hFit.symbols
  refine UInt16.toNat_ofNat_of_lt' ?_
  show _ < 65536
  omega

end

/- A cell is found in the dense or in the small row. -/
lemma linearActionIndex_emitTables
    (hFit : RowsFit ng tokenCount rows)
    {row : List UInt32}
    (hRow : (newRawTable ng tokenCount rows)[state]? = some row)
    (hCell : row[place]? = some cell) :
    (emitTables lang ng tokenCount rows groups).linearActionIndex (UInt32.ofNat state)
      (UInt16.ofNat place) =
      downcastCell tokenCount place cell := by
  have hState := (List.getElem?_eq_some_iff.mp hRow).1
  have hLength := hFit.rows row (List.mem_of_getElem? hRow)
  have hSymbols := hFit.symbols
  have hStates := hFit.states
  have hBounds := largeStates_bounds (denseThreshold rows) ng tokenCount rows
  generalize hLarge : largeStates (denseThreshold rows)
      (newRawTable ng tokenCount rows) = large at hBounds
  have hCount : ((emitTables lang ng tokenCount rows groups).largeStateCount).toNat = large := by
    show (UInt32.ofNat (largeStates (denseThreshold rows)
      (newRawTable ng tokenCount rows))).toNat = large
    rw [hLarge]
    refine UInt32.toNat_ofNat_of_lt' ?_
    show _ < 2 ^ 32
    omega
  have hLimit : (emitTables lang ng tokenCount rows groups).denseLimit = large := by
    unfold Language.denseLimit
    rw [if_pos, hCount]
    rw [gt_iff_lt, UInt32.lt_iff_toNat_lt, hCount]
    exact hBounds.1
  unfold linearActionIndex
  rw [hFit.toNat_state hRow, hFit.toNat_place hRow hCell, hLimit, hCount]
  by_cases hDense : state < large
  · have hDenseRow : (emitTables lang ng tokenCount rows groups).parseTable[state]? =
        some (denseRow tokenCount row) := by
      show (((newRawTable ng tokenCount rows).take
        (largeStates _ _)).map (denseRow tokenCount))[state]? = _
      rw [hLarge, getElem?_map, getElem?_take, if_pos hDense, hRow]
      rfl
    have hDenseCell :
        (denseRow tokenCount row)[place]? = some (downcastCell tokenCount place cell) := by
      unfold denseRow
      rw [getElem?_map, getElem?_zipIdx, hCell]
      rw [Option.map_some, Option.map_some, zero_add]
    rw [if_pos hDense, getD_eq_getElem?_getD, hDenseRow,
      Option.getD_some, hDenseCell, Option.getD_some]
  rw [if_neg hDense, if_neg hDense]
  have hMore : large < (newRawTable ng tokenCount rows).length := by omega
  have hCoded : ((newRawTable ng tokenCount rows).drop large).map (smallRow tokenCount) =
      (((newRawTable ng tokenCount rows).drop large).map (smallSections tokenCount)).map
        (fun parts => UInt16.ofNat parts.length :: encodeSections parts) := by
    rw [map_map]
    rfl
  have hSmall : (emitTables lang ng tokenCount rows groups).smallParseTable =
      (buildSmallTable
        (((newRawTable ng tokenCount rows).drop large).map (smallRow tokenCount))).1 ∧
      (emitTables lang ng tokenCount rows groups).smallParseTableMap =
        (buildSmallTable
          (((newRawTable ng tokenCount rows).drop large).map (smallRow tokenCount))).2 := by
    unfold emitTables
    dsimp only
    rw [hLarge, if_pos hMore, if_pos hMore]
    exact ⟨rfl, rfl⟩
  have hTotal : (emitTables lang ng tokenCount rows groups).smallParseTable.length < 2 ^ 32 := by
    rw [hSmall.1, (buildSmallTable_eq _).1, ← hLarge]
    exact hFit.offsets
  rw [hCoded] at hSmall
  have hSections := length_smallSections tokenCount row
  have hPairs : (emitTables lang ng tokenCount rows groups).smallPairs (state - large) =
      sectionSymbols (smallSections tokenCount row) := by
    refine smallPairs_buildSmallTable hSmall.1 hSmall.2 hTotal ?_ (by omega) ?_
    · rw [getElem?_map, getElem?_drop, Nat.add_sub_cancel' (Nat.le_of_not_lt hDense), hRow]
      rfl
    intro part hPart
    have hPartLength := hSections.2 part hPart
    omega
  unfold walkActionIndex
  rw [hPairs, find_sectionSymbols (by omega) hCell]

lemma mem_largeGotos {state : StateID} {sym : Symbol} {target : StateID} :
    ((state, sym), target) ∈ newRows.zipIdx.flatMap (rowLargeGotos tokenCount) ↔
      ∃ s place row,
        newRows[s]? = some row ∧ row[place]? = some target ∧ tokenCount ≤ place ∧
          target.toNat > maxUint16Index ∧ UInt32.ofNat s = state ∧ UInt16.ofNat place = sym := by
  rw [mem_flatMap]
  constructor
  · rintro ⟨⟨row, s⟩, hRow, hMem⟩
    rcases mem_filterMap.mp hMem with ⟨⟨cell, place⟩, hCell, hEq⟩
    split at hEq
    · rename_i hLarge
      rw [Option.some_inj, Prod.mk.injEq, Prod.mk.injEq] at hEq
      rcases hEq with ⟨⟨hState, hSym⟩, rfl⟩
      exact ⟨s, place, row, mem_zipIdx_iff_getElem?.mp hRow, mem_zipIdx_iff_getElem?.mp
        hCell, hLarge.1, hLarge.2, hState, hSym⟩
    · cases hEq
  · rintro ⟨s, place, row, hRow, hCell, hToken, hTarget, rfl, rfl⟩
    refine ⟨(row, s), mem_zipIdx_iff_getElem?.mpr hRow,
      mem_filterMap.mpr ⟨(target, place), mem_zipIdx_iff_getElem?.mpr hCell, ?_⟩⟩
    rw [if_pos ⟨hToken, hTarget⟩]

lemma lookupLargeStateGoto_emitTables
    (hFit : RowsFit ng tokenCount rows)
    (hFresh : lang.largeStateGotos = [])
    {row : List UInt32}
    (hRow : (newRawTable ng tokenCount rows)[state]? = some row)
    (hCell : row[place]? = some cell) :
    (emitTables lang ng tokenCount rows groups).lookupLargeStateGoto (UInt32.ofNat state)
      (UInt16.ofNat place) =
      if tokenCount ≤ place ∧ cell.toNat > maxUint16Index then cell else 0 := by
  show (((((newRawTable ng tokenCount rows).zipIdx.flatMap (rowLargeGotos tokenCount)).reverse
      ++ lang.largeStateGotos).lookup _).getD 0) = _
  rw [hFresh, append_nil, lookup_eq_find]
  cases hFind : find (UInt32.ofNat state, UInt16.ofNat place)
      ((newRawTable ng tokenCount rows).zipIdx.flatMap (rowLargeGotos tokenCount)).reverse with
  | none =>
    have hNone := notMem_of_find hFind cell
    rw [mem_reverse, mem_largeGotos] at hNone
    rw [if_neg]
    · rfl
    · rintro ⟨hToken, hTarget⟩
      exact hNone ⟨state, place, row, hRow, hCell, hToken, hTarget, rfl, rfl⟩
  | some target =>
    have hMem := mem_of_find hFind
    rw [mem_reverse, mem_largeGotos] at hMem
    rcases hMem with ⟨s, p, r, hr, hp, hToken, hTarget, hState, hSym⟩
    have hSameState := congrArg UInt32.toNat hState
    have hSamePlace := congrArg UInt16.toNat hSym
    rw [hFit.toNat_state hr, hFit.toNat_state hRow] at hSameState
    rw [hFit.toNat_place hr hp, hFit.toNat_place hRow hCell] at hSamePlace
    subst hSameState
    subst hSamePlace
    rw [hRow] at hr
    cases hr
    rw [hCell] at hp
    cases hp
    rw [if_pos ⟨hToken, hTarget⟩]
    rfl

end GoTreeSitter.Grammargen
