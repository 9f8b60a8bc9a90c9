import GoTreeSitter.Language.Lookup

/-
  The derived tables hold what the sections hold.

  Main declarations:
    * `Language.SectionsInside`
    * `Language.RowDistinct`
    * `Language.RowWellFormed`
    * `ActionTableView.lookupSmallRow_eq_iff`
    * `Language.lookup_is_walk_and_visits_each_once`

  Both representations of a small state are told by its pairs. A dense row has the pairs below its
  length, and the sorted list has the others.
-/

-- Well-Formed Rows

namespace GoTreeSitter

open List

namespace Language

variable {pairs : List (Symbol × UInt16)}

/- All sections of a row lie inside the table. -/
def SectionsInside (table : List UInt16) : Nat → Nat → Prop
  | 0, _ => True
  | groups + 1, pos =>
    ∃ symbolCount : UInt16, table[pos + 1]? = some symbolCount ∧ pos + 2 + symbolCount.toNat ≤
      table.length ∧ SectionsInside table groups (pos + 2 + symbolCount.toNat)

/- A row of a small state with sections inside the table and no symbol twice. -/
structure RowDistinct (lang : Language) (smallIdx : Nat) : Prop where
  inside : ∀ (offset : UInt32) (groupCount : UInt16), lang.smallParseTableMap[smallIdx]? = some
      offset → lang.smallParseTable[offset.toNat]? = some groupCount → SectionsInside
      lang.smallParseTable groupCount.toNat (offset.toNat + 1)
  nodup : ((lang.smallPairs smallIdx).map Prod.fst).Nodup

/- A row that has no value zero besides. -/
structure RowWellFormed (lang : Language) (smallIdx : Nat) : Prop extends RowDistinct lang smallIdx
    where
  nonzero : ∀ pair ∈ lang.smallPairs smallIdx, pair.2 ≠ 0

-- Dense Rows

open Search

/- The pairs of a row with symbols as places. -/
def placedPairs (pairs : List (Symbol × UInt16)) : List (Nat × UInt16) :=
  pairs.map (fun pair => (pair.1.toNat, pair.2))

lemma mem_placedPairs {sym : Symbol} {idx : UInt16} :
    (sym.toNat, idx) ∈ placedPairs pairs ↔ (sym, idx) ∈ pairs := by
  unfold placedPairs
  rw [mem_map]
  constructor
  · rintro ⟨pair, hMem, hEq⟩
    rw [Prod.mk.injEq] at hEq
    rw [← UInt16.toNat_inj.mp hEq.1, ← hEq.2]
    exact hMem
  · intro hMem
    exact ⟨(sym, idx), hMem, rfl⟩

lemma nodup_placedPairs (hNodup : (pairs.map Prod.fst).Nodup) :
    ((placedPairs pairs).map Prod.fst).Nodup := by
  unfold placedPairs
  rw [map_map, show (Prod.fst ∘ fun pair : Symbol × UInt16 => (pair.1.toNat, pair.2)) = UInt16.toNat
    ∘ Prod.fst from rfl, ← map_map]
  exact hNodup.map fun _ _ => UInt16.toNat_inj.mp

/- Counting aside, the values are written into the row. -/
lemma fst_foldl_writeUsed (pairs : List (Symbol × UInt16)) (state : List UInt16 × Nat) :
    (pairs.foldl writeUsed state).1 = fillRow state.1 (placedPairs pairs) := by
  induction pairs generalizing state with
  | nil => rfl
  | cons pair rest ih =>
    rw [foldl_cons, ih]
    show _ = fillRow (state.1.set pair.1.toNat pair.2) (placedPairs rest)
    unfold writeUsed
    dsimp only
    split
    · rfl
    · rename_i hBound
      rw [set_eq_of_length_le (Nat.le_of_not_lt hBound)]

/- A dense row is a row of zeros with pairs written to it. -/
lemma smallTokenLookup_eq_fillRow (lang : Language) (smallIdx : Nat) :
    ∃ width,
      lang.buildSmallTokenLookup.getD smallIdx [] =
        fillRow (List.replicate width 0) (placedPairs (lang.smallPairs smallIdx)) := by
  have hEmpty : ([] : List UInt16) =
      fillRow (List.replicate 0 0) (placedPairs (lang.smallPairs smallIdx)) := by
    symm
    rw [← length_eq_zero_iff, length_fillRow]
    rfl
  have hRows : ∀ f : Nat → List UInt16,
      (∃ width,
        f smallIdx =
          fillRow (List.replicate width 0) (placedPairs (lang.smallPairs smallIdx))) →
        ∃ width,
          ((List.range lang.smallParseTableMap.length).map f).getD smallIdx [] =
            fillRow (List.replicate width 0) (placedPairs (lang.smallPairs smallIdx)) := by
    intro f hRow
    rw [getD_eq_getElem?_getD, getElem?_map]
    by_cases hBound : smallIdx < lang.smallParseTableMap.length
    · rw [getElem?_range hBound]
      exact hRow
    rw [getElem?_eq_none_iff.mpr (by
      rw [length_range]
      exact Nat.le_of_not_lt hBound)]
    exact ⟨0, hEmpty⟩
  have hFull : ∀ threshold, ∃ width,
      (lang.buildSmallTokenLookupFullRows threshold).getD smallIdx [] =
        fillRow (List.replicate width 0) (placedPairs (lang.smallPairs smallIdx)) := by
    intro threshold
    refine hRows _ ?_
    unfold fullRow
    dsimp only
    split
    · exact ⟨_, fst_foldl_writeUsed _ _⟩
    · exact ⟨0, hEmpty⟩
  unfold buildSmallTokenLookup
  split
  · exact ⟨0, hEmpty⟩
  split
  · refine hRows _ ?_
    unfold compactRow
    dsimp only
    split
    · exact ⟨_, rfl⟩
    · exact ⟨0, hEmpty⟩
  · split
    · exact hFull 0
    split
    · exact hFull typeScriptSmallTokenDenseThreshold
    · exact hFull smallTokenDenseThreshold

/- A row that holds the pairs of its symbols, and nothing but zeros besides. -/
structure HoldsPairs (row : List UInt16) (pairs : List (Symbol × UInt16)) : Prop where
  stored : ∀ (sym : Symbol) (idx : UInt16), (sym, idx) ∈ pairs →
      sym.toNat < row.length → row[sym.toNat]? = some idx
  listed : ∀ (place : Nat) (idx : UInt16), row[place]? = some idx → idx ≠ 0 →
      ∃ sym : Symbol, sym.toNat = place ∧ (sym, idx) ∈ pairs

lemma holdsPairs_fillRow (hNodup : (pairs.map Prod.fst).Nodup) (width : Nat) :
    HoldsPairs (fillRow (List.replicate width 0) (placedPairs pairs)) pairs := by
  have hPlaces := nodup_placedPairs hNodup
  constructor
  · intro sym idx hMem hBound
    rw [length_fillRow] at hBound
    exact getElem_fillRow hPlaces (mem_placedPairs.mpr hMem) hBound
  intro place idx hAt hIdx
  have hBound := (List.getElem?_eq_some_iff.mp hAt).1
  rw [length_fillRow] at hBound
  by_cases hKey : place ∈ (placedPairs pairs).map Prod.fst
  · rcases mem_map.mp hKey with ⟨⟨_, value⟩, hMem, rfl⟩
    rw [getElem_fillRow hPlaces hMem hBound] at hAt
    cases hAt
    rcases mem_map.mp hMem with ⟨pair, hPair, hEq⟩
    rw [Prod.mk.injEq] at hEq
    rw [← hEq.2]
    exact ⟨pair.1, hEq.1, hPair⟩
  · rw [getElem_fillRow_of_notMem hKey, getElem?_replicate] at hAt
    split at hAt
    · cases hAt
      exact absurd rfl hIdx
    · cases hAt

-- Sorted Pairs

/- The pairs of sections inside the table are counted. -/
lemma overflowTotal_eq {table : List UInt16} (denseLimit : Nat) {groups pos : Nat}
    (hInside : SectionsInside table groups pos) (total : Nat) :
    overflowTotal table denseLimit groups pos total =
      total +
        ((sectionPairs table groups pos).filter
          (fun pair => denseLimit = 0 ∨ denseLimit ≤ pair.1.toNat)).length := by
  induction groups generalizing pos total with
  | zero => rfl
  | succ groups ih =>
    rcases hInside with ⟨symbolCount, hCount, hEnd, hRest⟩
    have hLength : ((table.drop (pos + 2)).take symbolCount.toNat).length = symbolCount.toNat := by
      rw [length_take, length_drop]
      omega
    have hPos : pos < table.length := by omega
    rw [overflowTotal, sectionPairs, hCount, getElem?_eq_getElem hPos]
    dsimp only
    rw [hLength, filter_append, length_append]
    split_ifs with hZero
    · rw [ih hRest, add_assoc]
      congr 2
      rw [filter_eq_self.mpr fun pair _ => decide_eq_true (.inl hZero), length_map, hLength]
    rw [ih hRest, add_assoc]
    congr 2
    rw [filter_map, length_map]
    congr 1
    refine filter_congr fun sym _ => ?_
    simp [hZero]

/- The sorted pairs of a row are those past its dense row. -/
lemma smallLookupRow_eq {lang : Language} {smallIdx : Nat} (hRow : lang.RowDistinct smallIdx)
    (smallTokenLookup : List (List UInt16)) :
    lang.smallLookupRow smallTokenLookup smallIdx =
      (lang.overflowPairs (smallTokenLookup.getD smallIdx []).length smallIdx).insertionSort
        (fun a b => a.1 ≤ b.1) := by
  unfold smallLookupRow
  cases hMap : lang.smallParseTableMap[smallIdx]? with
  | none =>
    unfold overflowPairs smallPairs
    rw [hMap]
    rfl
  | some offset =>
    dsimp only
    cases hTable : lang.smallParseTable[offset.toNat]? with
    | none =>
      unfold overflowPairs smallPairs
      rw [hMap]
      dsimp only
      rw [hTable]
      rfl
    | some groupCount =>
      dsimp only
      split_ifs with hTotal
      · rw [overflowTotal_eq _ (hRow.inside offset groupCount hMap hTable),
          zero_add, length_eq_zero_iff] at hTotal
        have hNil :
            lang.overflowPairs (smallTokenLookup.getD smallIdx []).length smallIdx = [] := by
          unfold overflowPairs smallPairs
          rw [hMap]
          dsimp only
          rw [hTable]
          exact hTotal
        rw [hNil]
        rfl
      · rfl

lemma sorted_insertionSort (hNodup : (pairs.map Prod.fst).Nodup) :
    Sorted (pairs.insertionSort (fun a b => a.1 ≤ b.1)) := by
  have hPerm := perm_insertionSort (fun a b : Symbol × UInt16 => a.1 ≤ b.1) pairs
  have hKeys := ((hPerm.map Prod.fst).nodup_iff.mpr hNodup)
  have hOrdered := pairwise_insertionSort (fun a b : Symbol × UInt16 => a.1 ≤ b.1) pairs
  refine (hOrdered.and (pairwise_map.mp hKeys)).imp ?_
  intro a b hBoth
  exact lt_of_le_of_ne hBoth.1 hBoth.2

end Language

-- Lookups of a Small State

namespace ActionTableView

open GoTreeSitter.Language
open Search

variable {idx : UInt16} {sym : Symbol} {row : List UInt16}

/-
  The representation of a small state: the dense row has the low symbols and the sorted pairs the
  others, unless there is neither.
-/
structure RowFormed (pairs : List (Symbol × UInt16)) (row : List UInt16)
    (sorted : List (Symbol × UInt16)) : Prop where
  holds : HoldsPairs row pairs
  order : Sorted sorted
  listed : ∀ pair ∈ sorted, pair ∈ pairs ∧ row.length ≤ pair.1.toNat
  complete : row ≠ [] ∨ sorted ≠ [] → ∀ pair ∈ pairs, row.length ≤ pair.1.toNat → pair ∈ sorted

variable {lang : Language} {smallIdx : Nat}

/- A value other than the default was found. -/
lemma getD_eq_iff {found : Option UInt16} (hIdx : idx ≠ 0) :
    found.getD 0 = idx ↔ found = some idx := by
  cases found with
  | none => exact ⟨fun h => absurd h.symm hIdx, nofun⟩
  | some value => exact ⟨congrArg some, Option.some.inj⟩

lemma lookupPairs_eq_iff {pairs : List (Symbol × UInt16)} (hSorted : Sorted pairs)
    (hIdx : idx ≠ 0) :
    lookupPairs pairs sym = idx ↔ (sym, idx) ∈ pairs := by
  unfold lookupPairs
  split
  · rw [getD_eq_iff hIdx, scan_eq_some_iff hSorted]
  · rw [getD_eq_iff hIdx, bisect_eq_some_iff hSorted]

section

variable (hRow : lang.RowDistinct smallIdx)

include hRow

lemma rowFormed_actionTableView (hBound : smallIdx < lang.smallParseTableMap.length) :
    RowFormed (lang.smallPairs smallIdx)
      (lang.actionTableView.smallTokenLookup.getD smallIdx [])
      (lang.actionTableView.smallLookup.getD smallIdx []) := by
  unfold Language.actionTableView
  dsimp only
  split
  · rcases lang.smallTokenLookup_eq_fillRow smallIdx with ⟨width, hWidth⟩
    have hSorted : (lang.buildSmallLookup lang.buildSmallTokenLookup).getD smallIdx [] =
        lang.smallLookupRow lang.buildSmallTokenLookup smallIdx := by
      unfold buildSmallLookup
      rw [getD_eq_getElem?_getD, getElem?_map, getElem?_range hBound]
      rfl
    rw [hSorted, smallLookupRow_eq hRow]
    refine ⟨?_, ?_, ?_, ?_⟩
    · rw [hWidth]
      exact holdsPairs_fillRow hRow.nodup width
    · refine sorted_insertionSort ?_
      exact hRow.nodup.sublist (filter_sublist.map Prod.fst)
    · intro pair hMem
      rw [mem_insertionSort] at hMem
      rcases mem_filter.mp hMem with ⟨hPair, hTest⟩
      refine ⟨hPair, ?_⟩
      rcases of_decide_eq_true hTest with hZero | hLimit
      · omega
      · exact hLimit
    · intro _ pair hPair hLimit
      rw [mem_insertionSort]
      exact mem_filter.mpr ⟨hPair, decide_eq_true (.inr hLimit)⟩
  · refine ⟨⟨?_, ?_⟩, List.Pairwise.nil, ?_, ?_⟩
    · simp
    · simp
    · simp
    · simp

lemma walkActionIndex_eq_iff (hIdx : idx ≠ 0) :
    lang.walkActionIndex smallIdx sym = idx ↔ (sym, idx) ∈ lang.smallPairs smallIdx := by
  unfold Language.walkActionIndex
  rw [getD_eq_iff hIdx, find_eq_some_iff hRow.nodup]

lemma lookupSmallRow_eq_iff (hBound : smallIdx < lang.smallParseTableMap.length) (hIdx : idx ≠ 0) :
    lang.actionTableView.lookupSmallRow smallIdx sym = idx ↔
      (sym, idx) ∈ lang.smallPairs smallIdx := by
  have hFormed := rowFormed_actionTableView hRow hBound
  unfold lookupSmallRow
  generalize lang.actionTableView.smallTokenLookup.getD smallIdx [] = row at hFormed ⊢
  generalize lang.actionTableView.smallLookup.getD smallIdx [] = sorted at hFormed ⊢
  cases hAt : row[sym.toNat]? with
  | some value =>
    constructor
    · rintro rfl
      rcases hFormed.holds.listed sym.toNat value hAt hIdx with ⟨other, hSame, hMem⟩
      rw [UInt16.toNat_inj.mp hSame] at hMem
      exact hMem
    intro hMem
    have hLength := (List.getElem?_eq_some_iff.mp hAt).1
    rw [hFormed.holds.stored sym idx hMem hLength] at hAt
    exact (Option.some.inj hAt).symm
  | none =>
    dsimp only
    have hLength := getElem?_eq_none_iff.mp hAt
    split_ifs with hSorted
    · exact walkActionIndex_eq_iff hRow hIdx
    rw [lookupPairs_eq_iff hFormed.order hIdx]
    constructor
    · intro hMem
      exact (hFormed.listed _ hMem).1
    · intro hMem
      exact hFormed.complete (.inr hSorted) _ hMem hLength

end

-- Visits of a State

lemma visitPairs_append {σ : Type} (visit : σ → Symbol → UInt16 → σ × Bool)
    (first second : List (Symbol × UInt16)) (acc : σ) :
    visitPairs visit (first ++ second) acc =
      match visitPairs visit first acc with
      | (next, true) => visitPairs visit second next
      | (next, false) => (next, false) := by
  induction first generalizing acc with
  | nil => rfl
  | cons pair rest ih =>
    rw [cons_append, visitPairs, visitPairs]
    rcases visit acc pair.1 pair.2 with ⟨next, goOn⟩
    cases goOn with
    | true => exact ih next
    | false => rfl

/- A used place is visited as the symbol of its number. -/
lemma mem_rowPairs_of_getElem {place : Nat} (hAt : row[place]? = some idx) (hIdx : idx ≠ 0) :
    (UInt16.ofNat place, idx) ∈ rowPairs row := by
  refine mem_map.mpr ⟨(idx, place), ?_, rfl⟩
  exact mem_filter.mpr ⟨mem_zipIdx_iff_getElem?.mpr hAt, bne_iff_ne.mpr hIdx⟩

section

variable
  (hPlaces : ∀ (place : Nat) (idx : UInt16), row[place]? = some idx → idx ≠ 0 → place < 65536)

include hPlaces

lemma mem_rowPairs : (sym, idx) ∈ rowPairs row ↔ row[sym.toNat]? = some idx ∧ idx ≠ 0 := by
  constructor
  · intro hVisited
    rcases mem_map.mp hVisited with ⟨⟨value, place⟩, hCell, hEq⟩
    rcases mem_filter.mp hCell with ⟨hMem, hTest⟩
    have hAt := mem_zipIdx_iff_getElem?.mp hMem
    rw [Prod.mk.injEq] at hEq
    rcases hEq with ⟨hSym, rfl⟩
    have hIdx : value ≠ 0 := bne_iff_ne.mp hTest
    have hSmall := hPlaces place value hAt hIdx
    refine ⟨?_, hIdx⟩
    rw [← hSym, UInt16.toNat_ofNat_of_lt' hSmall]
    exact hAt
  · rintro ⟨hAt, hIdx⟩
    have hMem := mem_rowPairs_of_getElem hAt hIdx
    rw [UInt16.ofNat_toNat] at hMem
    exact hMem

lemma nodup_rowPairs : (rowPairs row).Nodup := by
  have hCells : row.zipIdx.Nodup := by
    refine List.Nodup.of_map Prod.snd ?_
    rw [zipIdx_map_snd]
    exact nodup_range'
  refine List.Nodup.map_on ?_ (hCells.filter _)
  have hSmall : ∀ cell ∈ row.zipIdx.filter fun cell => cell.1 != 0, cell.2 < 65536 := by
    intro cell hCell
    rcases mem_filter.mp hCell with ⟨hMem, hTest⟩
    exact hPlaces cell.2 cell.1 (mem_zipIdx_iff_getElem?.mp hMem) (bne_iff_ne.mp hTest)
  intro a ha b hb hEq
  rw [Prod.mk.injEq] at hEq
  have hPlace := congrArg UInt16.toNat hEq.1
  rw [UInt16.toNat_ofNat_of_lt' (hSmall a ha), UInt16.toNat_ofNat_of_lt' (hSmall b hb)] at hPlace
  exact Prod.ext hEq.2 hPlace

end

/- A state is gone through pair by pair. -/
def Visits (view : ActionTableView) (state : StateID) (visited : List (Symbol × UInt16)) : Prop :=
  ∀ (σ : Type) (visit : σ → Symbol → UInt16 → σ × Bool) (acc : σ),
    view.forEachActionIndexInState state visit acc = (visitPairs visit visited acc).1

lemma forEachInSmallRow_visits
    (hRow : lang.RowWellFormed smallIdx)
    (hBound : smallIdx < lang.smallParseTableMap.length) :
    ∃ visited : List (Symbol × UInt16),
      (∀ (σ : Type) (visit : σ → Symbol → UInt16 → σ × Bool) (acc : σ),
        lang.actionTableView.forEachInSmallRow smallIdx visit acc =
          (visitPairs visit visited acc).1) ∧
        visited.Nodup ∧
        ∀ pair : Symbol × UInt16, pair ∈ visited ↔ pair ∈ lang.smallPairs smallIdx := by
  have hFormed := rowFormed_actionTableView hRow.toRowDistinct hBound
  unfold forEachInSmallRow
  generalize lang.actionTableView.smallTokenLookup.getD smallIdx [] = row at hFormed ⊢
  generalize lang.actionTableView.smallLookup.getD smallIdx [] = sorted at hFormed ⊢
  by_cases hTables : row ≠ [] ∨ sorted ≠ []
  · have hPlaces :
        ∀ (place : Nat) (idx : UInt16), row[place]? = some idx → idx ≠ 0 → place < 65536 := by
      intro place idx hAt hIdx
      rcases hFormed.holds.listed place idx hAt hIdx with ⟨sym, rfl, _⟩
      exact sym.toNat_lt
    refine ⟨rowPairs row ++ sorted, ?_, ?_, ?_⟩
    · intro σ visit acc
      rw [if_pos hTables, visitPairs_append]
      rcases visitPairs visit (rowPairs row) acc with ⟨next, goOn⟩
      cases goOn with
      | true => rfl
      | false => rfl
    · refine nodup_append.mpr ⟨nodup_rowPairs hPlaces, ?_, ?_⟩
      · refine hFormed.order.imp (fun hLt hEq => ?_)
        rw [hEq] at hLt
        exact lt_irrefl _ hLt
      rintro ⟨sym, idx⟩ hLow _ hHigh rfl
      have hAt := ((mem_rowPairs hPlaces).mp hLow).1
      have hLength := (List.getElem?_eq_some_iff.mp hAt).1
      exact absurd (hFormed.listed _ hHigh).2 (Nat.not_le_of_lt hLength)
    · rintro ⟨sym, idx⟩
      rw [mem_append, mem_rowPairs hPlaces]
      constructor
      · rintro (⟨hAt, hIdx⟩ | hMem)
        · rcases hFormed.holds.listed _ _ hAt hIdx with ⟨other, hSame, hMem⟩
          rw [UInt16.toNat_inj.mp hSame] at hMem
          exact hMem
        · exact (hFormed.listed _ hMem).1
      · intro hMem
        by_cases hLength : sym.toNat < row.length
        · exact .inl ⟨hFormed.holds.stored sym idx hMem hLength, hRow.nonzero _ hMem⟩
        · exact .inr (hFormed.complete hTables _ hMem (Nat.le_of_not_lt hLength))
  · refine ⟨lang.smallPairs smallIdx, ?_, ?_, ?_⟩
    · intro σ visit acc
      rw [if_neg hTables]
      rfl
    · exact hRow.nodup.of_map Prod.fst
    · simp

end ActionTableView

namespace Language

open ActionTableView

variable {lang : Language}

/- Indices that agree where they are not 0 are equal. -/
lemma eq_of_eq_iff {a b : UInt16} (hSame : ∀ idx, idx ≠ 0 → (a = idx ↔ b = idx)) : a = b := by
  by_cases ha : a = 0
  · by_cases hb : b = 0
    · rw [ha, hb]
    · exact (hSame b hb).mpr rfl
  · exact ((hSame a ha).mp rfl).symm

lemma smallPairs_eq_nil {smallIdx : Nat} (hBound : lang.smallParseTableMap.length ≤ smallIdx) :
    lang.smallPairs smallIdx = [] := by
  unfold smallPairs
  rw [getElem?_eq_none_iff.mpr hBound]

lemma lookupActionIndex_eq (hRows : ∀ smallIdx, lang.RowWellFormed smallIdx) (state : StateID)
    (sym : Symbol) :
    lang.actionTableView.lookupActionIndex state sym = lang.linearActionIndex state sym := by
  unfold ActionTableView.lookupActionIndex linearActionIndex lookupActionIndexSmall
  show (if state.toNat < lang.denseLimit then _ else if state.toNat < lang.largeStateCount.toNat ∨
    lang.smallParseTableMap.length ≤ state.toNat - lang.largeStateCount.toNat then _ else _) = _
  split
  · rfl
  by_cases hBase : state.toNat < lang.largeStateCount.toNat
  · rw [if_pos (.inl hBase), if_pos hBase]
  rw [if_neg hBase]
  by_cases hEnd : lang.smallParseTableMap.length ≤ state.toNat - lang.largeStateCount.toNat
  · rw [if_pos (.inr hEnd)]
    unfold walkActionIndex
    rw [smallPairs_eq_nil hEnd]
    rfl
  rw [if_neg (not_or.mpr ⟨hBase, hEnd⟩)]
  refine eq_of_eq_iff fun idx hIdx => ?_
  have hRow := (hRows (state.toNat - lang.largeStateCount.toNat)).toRowDistinct
  exact (lookupSmallRow_eq_iff hRow (Nat.lt_of_not_le hEnd) hIdx).trans
    (walkActionIndex_eq_iff hRow hIdx).symm

/- The visits of a state are its entries, each once. -/
lemma forEachActionIndexInState_visits (hRows : ∀ smallIdx : Nat, lang.RowWellFormed smallIdx)
    (hWidth : ∀ row ∈ lang.parseTable, row.length ≤ 65536) (state : StateID) :
    ∃ visited : List (Symbol × UInt16),
      lang.actionTableView.Visits state visited ∧ visited.Nodup ∧
        ∀ (sym : Symbol) (idx : UInt16),
          (sym, idx) ∈ visited ↔ lang.linearActionIndex state sym = idx ∧ idx ≠ 0 := by
  unfold Visits forEachActionIndexInState linearActionIndex
  show ∃ visited : List (Symbol × UInt16), (∀ (σ : Type) (visit : σ → Symbol → UInt16 → σ × Bool)
    (acc : σ), (if state.toNat < lang.denseLimit then _ else if state.toNat <
    lang.largeStateCount.toNat ∨ lang.smallParseTableMap.length ≤ state.toNat -
    lang.largeStateCount.toNat then _ else _) = _) ∧ _
  by_cases hDense : state.toNat < lang.denseLimit
  · have hPlaces : ∀ (place : Nat) (idx : UInt16),
        (lang.parseTable.getD state.toNat [])[place]? = some idx → idx ≠ 0 → place < 65536 := by
      intro place idx hAt _
      have hLength := (List.getElem?_eq_some_iff.mp hAt).1
      rw [getD_eq_getElem?_getD] at hLength
      cases hRow : lang.parseTable[state.toNat]? with
      | none =>
        rw [hRow] at hLength
        exact absurd hLength (Nat.not_lt_zero _)
      | some row =>
        rw [hRow] at hLength
        exact hLength.trans_le (hWidth row (mem_of_getElem? hRow))
    refine ⟨rowPairs (lang.parseTable.getD state.toNat []), ?_, nodup_rowPairs hPlaces, ?_⟩
    · intro σ visit acc
      rw [if_pos hDense]
      rfl
    intro sym idx
    rw [if_pos hDense, mem_rowPairs hPlaces]
    refine and_congr_left fun hIdx => ?_
    exact (getD_eq_iff hIdx).symm
  simp only [if_neg hDense]
  by_cases hBase : state.toNat < lang.largeStateCount.toNat
  · simp only [if_pos (Or.inl hBase), if_pos hBase]
    refine ⟨[], fun _ _ _ => rfl, nodup_nil, ?_⟩
    intro sym idx
    exact ⟨nofun, fun h => absurd h.1.symm h.2⟩
  simp only [if_neg hBase]
  by_cases hEnd : lang.smallParseTableMap.length ≤ state.toNat - lang.largeStateCount.toNat
  · simp only [if_pos (Or.inr hEnd)]
    refine ⟨[], fun _ _ _ => rfl, nodup_nil, ?_⟩
    intro sym idx
    unfold walkActionIndex
    rw [smallPairs_eq_nil hEnd]
    exact ⟨nofun, fun h => absurd h.1.symm h.2⟩
  simp only [if_neg (not_or.mpr ⟨hBase, hEnd⟩)]
  rcases forEachInSmallRow_visits (hRows _) (Nat.lt_of_not_le hEnd) with
    ⟨visited, hVisits, hNodup, hMem⟩
  refine ⟨visited, hVisits, hNodup, ?_⟩
  intro sym idx
  rw [hMem]
  constructor
  · intro hPair
    have hIdx := (hRows _).nonzero _ hPair
    exact ⟨(walkActionIndex_eq_iff (hRows _).toRowDistinct hIdx).mpr hPair, hIdx⟩
  · rintro ⟨hWalk, hIdx⟩
    exact (walkActionIndex_eq_iff (hRows _).toRowDistinct hIdx).mp hWalk

/-
  The lookup through the derived tables is the walk, and the
  visits of a state are its entries, each once.
-/
theorem lookup_is_walk_and_visits_each_once
    (lang : Language)
    (hRows : ∀ smallIdx : Nat, lang.RowWellFormed smallIdx)
    (hWidth : ∀ row ∈ lang.parseTable, row.length ≤ 65536)
    (state : StateID) :
    (∀ sym : Symbol,
      lang.actionTableView.lookupActionIndex state sym = lang.linearActionIndex state sym) ∧
      ∃ visited : List (Symbol × UInt16),
        lang.actionTableView.Visits state visited ∧ visited.Nodup ∧
          ∀ (sym : Symbol) (idx : UInt16),
            (sym, idx) ∈ visited ↔
              lang.actionTableView.lookupActionIndex state sym = idx ∧ idx ≠ 0 := by
  refine ⟨lookupActionIndex_eq hRows state, ?_⟩
  rcases forEachActionIndexInState_visits hRows hWidth state with ⟨visited, hVisits, hNodup, hMem⟩
  refine ⟨visited, hVisits, hNodup, ?_⟩
  intro sym idx
  rw [lookupActionIndex_eq hRows state sym]
  exact hMem sym idx

/- A dense state, and a small one with a symbol past its dense row. -/
def twoStateLanguage : Language where
  largeStateCount := 1
  symbolCount := 2
  tokenCount := 2
  generatedByGrammargen := true
  parseTable := [[0, 1, 0, 2]]
  smallParseTable := [2, 7, 1, 1, 9, 2, 3, 0]
  smallParseTableMap := [0]

theorem lookup_is_walk_and_visits_each_once_twoState :
    (∀ sym : Symbol,
      twoStateLanguage.actionTableView.lookupActionIndex 1 sym =
        twoStateLanguage.linearActionIndex 1 sym) ∧
      ∃ visited : List (Symbol × UInt16),
        twoStateLanguage.actionTableView.Visits 1 visited ∧ visited.Nodup ∧
          ∀ (sym : Symbol) (idx : UInt16),
            (sym, idx) ∈ visited ↔
              twoStateLanguage.actionTableView.lookupActionIndex 1 sym = idx ∧ idx ≠ 0 := by
  refine lookup_is_walk_and_visits_each_once twoStateLanguage ?_ (by decide) 1
  intro smallIdx
  cases smallIdx with
  | zero =>
    refine ⟨⟨?_, by decide⟩, ?_⟩
    · intro offset groupCount hOffset hCount
      cases hOffset
      cases hCount
      exact ⟨1, rfl, by decide, 2, rfl, by decide, trivial⟩
    have hPairs : twoStateLanguage.smallPairs 0 = [(1, 7), (3, 9), (0, 9)] := by decide
    intro pair hPair
    rw [hPairs] at hPair
    simp only [mem_cons, not_mem_nil, or_false] at hPair
    rcases hPair with rfl | rfl | rfl <;> decide
  | succ smallIdx =>
    have hNil : twoStateLanguage.smallPairs (smallIdx + 1) = [] :=
      smallPairs_eq_nil (Nat.succ_le_succ (Nat.zero_le _))
    refine ⟨⟨?_, ?_⟩, ?_⟩
    · intro offset groupCount hOffset
      cases hOffset
    · rw [hNil]
      exact nodup_nil
    · rw [hNil]
      intro pair hPair
      cases hPair

/- A visitor that keeps what it sees. -/
def record (visited : List (Symbol × UInt16)) (sym : Symbol) (idx : UInt16) :
    List (Symbol × UInt16) × Bool := (visited ++ [(sym, idx)], true)

lemma visitPairs_record (pairs visited : List (Symbol × UInt16)) :
    visitPairs record pairs visited = (visited ++ pairs, true) := by
  induction pairs generalizing visited with
  | nil =>
    rw [append_nil]
    rfl
  | cons pair rest ih =>
    rw [visitPairs, record]
    dsimp only
    rw [ih, append_assoc, singleton_append]

-- Of a language with one row, whatever its width.

lemma forEachActionIndexInState_one_row (row : List UInt16) :
    (actionTableView { parseTable := [row] }).forEachActionIndexInState 0 record [] =
      rowPairs row := by
  show (visitPairs record (rowPairs row) []).1 = _
  rw [visitPairs_record, nil_append]

lemma lookupActionIndex_one_row (row : List UInt16) :
    (actionTableView { parseTable := [row] }).lookupActionIndex 0 0 = row[0]?.getD 0 := rfl

/- A language with a row wider than there are symbols. -/
def wideRowLanguage : Language where
  parseTable := [List.replicate 65536 0 ++ [1]]

/- The place past the last symbol is visited as symbol 0, which has no action. -/
theorem wide_row_visited_as_symbol_zero :
    (∀ smallIdx : Nat, wideRowLanguage.RowWellFormed smallIdx) ∧
      ((0 : Symbol), (1 : UInt16)) ∈
        wideRowLanguage.actionTableView.forEachActionIndexInState 0 record [] ∧
      wideRowLanguage.actionTableView.lookupActionIndex 0 0 = 0 := by
  refine ⟨?_, ?_, ?_⟩
  · intro smallIdx
    refine ⟨⟨?_, nodup_nil⟩, ?_⟩
    · intro offset groupCount hOffset
      cases hOffset
    · intro pair hPair
      cases hPair
  · rw [wideRowLanguage, forEachActionIndexInState_one_row]
    have hAt : (List.replicate 65536 (0 : UInt16) ++ [1])[65536]? = some 1 := by
      rw [getElem?_append_right (by rw [length_replicate]), length_replicate, Nat.sub_self]
      rfl
    have hMem := mem_rowPairs_of_getElem hAt (by decide)
    have hSym : UInt16.ofNat 65536 = 0 := by decide
    exact hMem
  · rw [wideRowLanguage, lookupActionIndex_one_row, getElem?_append_left
      (by rw [length_replicate]; decide), getElem?_replicate, if_pos (by decide)]
    rfl

end Language

end GoTreeSitter
