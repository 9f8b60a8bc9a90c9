import GoTreeSitter.Language.LookupCorrect

/-
  The symbols a lookahead iterator lists for a state.

  Main declarations:
    * `Language.computeMaxState`
    * `Language.collectValidSymbols`
    * `Language.lookahead_lists_actions_iff`

  The iterator splits dense from small states by itself. It takes the count of large states as it
  stands where a parser reads a count of zero as the length of the dense table.
-/

namespace GoTreeSitter.Language

open ActionTableView

def computeMaxState (lang : Language) : Nat :=
  let count :=
    if lang.stateCount = 0 then lang.parseTable.length
    else lang.stateCount.toNat
  max count (lang.largeStateCount.toNat + lang.smallParseTableMap.length)

def collectValidSymbols (lang : Language) (state : StateID) : List Symbol :=
  if state.toNat < lang.parseTable.length ∧ state.toNat < lang.largeStateCount.toNat then
    (rowPairs (lang.parseTable.getD state.toNat [])).map Prod.fst
  else if state.toNat < lang.largeStateCount.toNat then []
  else
    ((lang.smallPairs (state.toNat - lang.largeStateCount.toNat)).filter
        (fun pair => pair.2 != 0)).map Prod.fst

/- The symbols of an iterator, if the state is in range. -/
def lookaheadSymbols (lang : Language) (state : StateID) : Option (List Symbol) :=
  if state.toNat ≥ lang.computeMaxState then none
  else some (lang.collectValidSymbols state)

variable {lang : Language} {state : StateID}

/- The symbols with a value in a dense row. -/
lemma mem_rowPairs_fst {row : List UInt16} (hWidth : row.length ≤ 65536) (sym : Symbol) :
    sym ∈ (rowPairs row).map Prod.fst ↔ (row[sym.toNat]?).getD 0 ≠ 0 := by
  have hPlaces : ∀ (place : Nat) (idx : UInt16), row[place]? = some idx → idx ≠ 0 → place < 65536 :=
    fun place idx hAt _ => lt_of_lt_of_le (List.getElem?_eq_some_iff.mp hAt).1 hWidth
  simp only [List.mem_map, Prod.exists, exists_and_right, exists_eq_right, mem_rowPairs hPlaces]
  cases row[sym.toNat]? with
  | none => simp
  | some idx => simp

/- The symbols with a value in a small row. -/
def SmallHas (lang : Language) (smallIdx : Nat) (sym : Symbol) : Prop :=
  ∃ idx : UInt16, (sym, idx) ∈ lang.smallPairs smallIdx ∧ idx ≠ 0

lemma mem_smallPairs_fst (smallIdx : Nat) (sym : Symbol) :
    sym ∈ ((lang.smallPairs smallIdx).filter (fun pair => pair.2 != 0)).map Prod.fst ↔
      lang.SmallHas smallIdx sym := by
  simp only [SmallHas, List.mem_map, List.mem_filter, Prod.exists,
    bne_iff_ne, exists_and_right, exists_eq_right]

lemma lookupActionIndexSmall_ne_zero_iff
    (hState : lang.largeStateCount.toNat ≤ state.toNat)
    (hRow : lang.RowDistinct (state.toNat - lang.largeStateCount.toNat))
    (sym : Symbol) :
    lang.actionTableView.lookupActionIndexSmall state sym ≠ 0 ↔
      lang.SmallHas (state.toNat - lang.largeStateCount.toNat) sym := by
  change (if state.toNat < lang.largeStateCount.toNat ∨ lang.smallParseTableMap.length ≤ state.toNat
    - lang.largeStateCount.toNat then 0 else lang.actionTableView.lookupSmallRow (state.toNat -
    lang.largeStateCount.toNat) sym) ≠ 0 ↔ _
  rcases lt_or_ge (state.toNat - lang.largeStateCount.toNat)
      lang.smallParseTableMap.length with hBound | hBound
  · rw [if_neg (by omega)]
    constructor
    · intro hIdx
      exact ⟨_, (lookupSmallRow_eq_iff hRow hBound hIdx).mp rfl, hIdx⟩
    rintro ⟨idx, hMem, hIdx⟩
    rw [(lookupSmallRow_eq_iff hRow hBound hIdx).mpr hMem]
    exact hIdx
  · rw [if_pos (.inr hBound), SmallHas, smallPairs_eq_nil hBound]
    simp

/-
  An iterator lists the symbols that have an action, unless the language counts no large states and
  the state has a dense row: then it lists the symbols of the small row with the number of the
  state.
-/
theorem lookahead_lists_actions_iff
    (hState : state.toNat < lang.computeMaxState)
    (hWidth : (lang.parseTable.getD state.toNat []).length ≤ 65536)
    (hRow : lang.RowDistinct (state.toNat - lang.largeStateCount.toNat)) :
    (∃ symbols : List Symbol,
      lang.lookaheadSymbols state = some symbols ∧
        ∀ sym : Symbol,
          sym ∈ symbols ↔ lang.actionTableView.lookupActionIndex state sym ≠ 0) ↔
      (lang.largeStateCount = 0 → state.toNat < lang.parseTable.length →
        ∀ sym : Symbol,
          lang.SmallHas state.toNat sym ↔
            ((lang.parseTable.getD state.toNat [])[sym.toNat]?).getD 0 ≠ 0) := by
  rw [lookaheadSymbols, if_neg (Nat.not_le.mpr hState)]
  simp only [Option.some.injEq, exists_eq_left']
  have hLookup : ∀ sym : Symbol,
      lang.actionTableView.lookupActionIndex state sym =
        if state.toNat < lang.denseLimit then
          ((lang.parseTable.getD state.toNat [])[sym.toNat]?).getD 0
        else lang.actionTableView.lookupActionIndexSmall state sym := fun sym => rfl
  simp only [hLookup, collectValidSymbols]
  by_cases hCount : lang.largeStateCount = 0
  · have hLimit : lang.denseLimit = lang.parseTable.length := if_neg (by simp [hCount])
    have hZero : lang.largeStateCount.toNat = 0 := by
      rw [hCount]
      rfl
    rw [if_neg (by omega), if_neg (by omega), hLimit]
    simp only [mem_smallPairs_fst]
    by_cases hDense : state.toNat < lang.parseTable.length
    · simp only [hZero, Nat.sub_zero, hDense, if_true, true_implies]
      exact ⟨fun hSame _ => hSame, fun h => h hCount⟩
    · simp only [hDense, if_false, false_implies, implies_true, iff_true]
      exact fun sym => (lookupActionIndexSmall_ne_zero_iff (by omega) hRow sym).symm
  have hLimit : lang.denseLimit = lang.largeStateCount.toNat :=
    if_pos (UInt32.pos_iff_ne_zero.mpr hCount)
  rw [hLimit]
  simp only [hCount, false_implies, iff_true]
  intro sym
  by_cases hLarge : state.toNat < lang.largeStateCount.toNat
  · rw [if_pos hLarge, if_pos hLarge]
    by_cases hDense : state.toNat < lang.parseTable.length
    · rw [if_pos ⟨hDense, hLarge⟩]
      exact mem_rowPairs_fst hWidth sym
    rw [if_neg fun h => hDense h.1, List.getD_eq_getElem?_getD, List.getElem?_eq_none
        (Nat.not_lt.mp hDense)]
    simp
  · rw [if_neg fun h => hLarge h.2, if_neg hLarge, if_neg hLarge, mem_smallPairs_fst]
    exact (lookupActionIndexSmall_ne_zero_iff (Nat.not_lt.mp hLarge) hRow sym).symm

/- A dense state, and a small one with a section of value zero. -/
def zeroActionLanguage : Language where
  stateCount := 2
  largeStateCount := 1
  symbolCount := 5
  parseTable := [[0, 0, 0, 0, 0]]
  smallParseTable := [2, 0, 2, 1, 2, 5, 1, 3]
  smallParseTableMap := [0]

theorem lookahead_lists_actions_counted :
    ∃ symbols : List Symbol,
      zeroActionLanguage.lookaheadSymbols 1 = some symbols ∧
        ∀ sym : Symbol,
          sym ∈ symbols ↔ zeroActionLanguage.actionTableView.lookupActionIndex 1 sym ≠ 0 := by
  refine (lookahead_lists_actions_iff (by decide) (by decide) ⟨?_, by decide⟩).mpr
    (fun h => absurd h (by decide))
  intro offset groupCount hOffset hCount
  cases hOffset
  cases hCount
  exact ⟨2, rfl, by decide, 1, rfl, by decide, trivial⟩

/- A dense row that the count leaves out. -/
def uncountedLanguage : Language where
  stateCount := 1
  symbolCount := 4
  tokenCount := 4
  parseTable := [[0, 1, 0, 2]]

/- Without the count the iterator lists nothing. -/
theorem lookahead_misses_uncounted :
    0 < uncountedLanguage.computeMaxState ∧ uncountedLanguage.lookaheadSymbols 0 = some [] ∧
      uncountedLanguage.actionTableView.lookupActionIndex 0 1 ≠ 0 := by decide

end GoTreeSitter.Language
