import GoTreeSitter.Grammargen.ActionCells

/-
  Emitted tables decode to the tables they are made from.

  Main declarations:
    * `ActionStands`
    * `DecodesBack`
    * `lt_of_actionStands`
    * `buildParseTables_decodes_back_iff`

  The number of a list of actions leads to the entry of the first list with its key. This is the
  entry of the list itself exactly if no other list with the key has other targets.
-/

-- Entries

namespace GoTreeSitter.Grammargen

open List

variable {ng : NormalizedGrammar} {stateCount : Nat} {action other : LrAction} {state : Nat}

/- An entry's action is an action of a table. -/
def ActionStands (ng : NormalizedGrammar) (action : LrAction) (found : ParseAction) : Prop :=
  match action.kind with
  | .shift state =>
    found.type = parseActionShift ∧ found.repetition = action.repeats ∧
      (if action.isExtra = true ∧ state = 0 then
        found.extra = true ∧ found.extraChain = false ∧ found.state = 0
      else
        found.extra = false ∧ found.extraChain = action.isExtra ∧ found.state.toNat = state + 1)
  | .reduce =>
    let prod := ng.production action.prodIdx
    found.type = parseActionReduce ∧ (found.symbol.toNat : Int) = prod.lhs ∧ found.childCount.toNat
      = prod.rhs.length ∧ found.dynamicPrecedence.toInt = prod.dynPrec ∧ (found.productionID.toNat :
      Int) = prod.productionID ∧ found.extra = prod.isExtra
  | .accept => found.type = parseActionAccept

/- The values of a production fit their fields. -/
structure ProductionFits (prod : Production) : Prop where
  lhs : 0 ≤ prod.lhs ∧ prod.lhs < 65536
  rhs : prod.rhs.length ≤ 255
  dynPrec : -32768 ≤ prod.dynPrec ∧ prod.dynPrec < 32768
  productionID : 0 ≤ prod.productionID ∧ prod.productionID < 65536

/- The entry's action of a table's action. -/
def foundAction (ng : NormalizedGrammar) (stateCount : Nat) (action : LrAction) : ParseAction :=
  remapAction stateCount (entryAction ng action)

/- The entry found for a table's list of actions. -/
def foundEntry (ng : NormalizedGrammar) (stateCount : Nat) (actions : List LrAction) :
    ParseActionEntry where
  actions := actions.map (foundAction ng stateCount)

lemma foundAction_shift
    (hKind : action.kind = .shift state) :
    (foundAction ng stateCount action).type = parseActionShift ∧
      (foundAction ng stateCount action).repetition = action.repeats ∧
      (foundAction ng stateCount action).extra = (action.isExtra && state == 0) ∧
      (foundAction ng stateCount action).extraChain = (action.isExtra && state != 0) ∧
      (foundAction ng stateCount action).state =
        if ((action.isExtra && state == 0) = false ∨ UInt32.ofNat state ≠ 0) ∧
          (UInt32.ofNat state).toNat < stateCount then
          UInt32.ofNat ((UInt32.ofNat state).toNat + 1)
        else UInt32.ofNat state := by
  unfold foundAction remapAction entryAction
  rw [hKind]
  by_cases hMoves : ((action.isExtra && state == 0) = false ∨ UInt32.ofNat state ≠ 0) ∧
      (UInt32.ofNat state).toNat < stateCount
  · rw [if_pos ⟨rfl, hMoves⟩, if_pos hMoves]
    exact ⟨rfl, rfl, rfl, rfl, rfl⟩
  · rw [if_neg fun h => hMoves h.2, if_neg hMoves]
    exact ⟨rfl, rfl, rfl, rfl, rfl⟩

lemma foundAction_of_not_shift (hKind : (entryAction ng action).type ≠ parseActionShift) :
    foundAction ng stateCount action = entryAction ng action := by
  exact if_neg fun h => hKind h.1

lemma production_fits (hFits : ∀ prod ∈ ng.productions, ProductionFits prod) {prodIdx : Int}
    (hRange : 0 ≤ prodIdx ∧ prodIdx < ng.productions.length) :
    ProductionFits (ng.production prodIdx) := by
  have hIdx : prodIdx.toNat < ng.productions.length := by omega
  have hEq : ng.production prodIdx = ng.productions[prodIdx.toNat] := by
    unfold NormalizedGrammar.production
    rw [getD_eq_getElem?_getD, getElem?_eq_getElem hIdx, Option.getD_some]
  rw [hEq]
  exact hFits _ (getElem_mem hIdx)

lemma toNat_symbolOfInt {value : Int} (hFits : 0 ≤ value ∧ value < 65536) :
    ((UInt16.ofNat (value % 65536).toNat).toNat : Int) = value := by
  rw [UInt16.toNat_ofNat_of_lt' (by
    show _ < 65536
    omega)]
  omega

lemma actionStands_reduce (hKind : action.kind = .reduce)
    (hFits : ProductionFits (ng.production action.prodIdx)) :
    ActionStands ng action (foundAction ng stateCount action) := by
  have hEntry : (entryAction ng action).type = parseActionReduce := by
    unfold entryAction
    rw [hKind]
  rw [foundAction_of_not_shift (by rw [hEntry]; decide)]
  unfold ActionStands entryAction
  rw [hKind]
  refine ⟨rfl, toNat_symbolOfInt hFits.lhs, ?_, ?_, toNat_symbolOfInt hFits.productionID, rfl⟩
  · refine UInt8.toNat_ofNat_of_lt' ?_
    show _ < 256
    have hLe := hFits.rhs
    omega
  rw [Int16.toInt_ofInt]
  simp only [Int.bmod, Int16.size]
  have hRange := hFits.dynPrec
  omega

lemma actionStands_shift (hCount : stateCount + 1 < 2 ^ 32) (hKind : action.kind = .shift state)
    (hState : state < stateCount) :
    ActionStands ng action (foundAction ng stateCount action) := by
  rcases @foundAction_shift ng stateCount action state hKind
    with ⟨hType, hRep, hFlag, hChain, hFound⟩
  have hNat : (UInt32.ofNat state).toNat = state := UInt32.toNat_ofNat_of_lt' (by
      show _ < 2 ^ 32
      omega)
  unfold ActionStands
  rw [hKind]
  refine ⟨hType, hRep, ?_⟩
  rw [hFlag, hChain, hFound, hNat]
  split
  · rename_i hSelf
    rw [hSelf.1, hSelf.2]
    refine ⟨rfl, rfl, if_neg ?_⟩
    intro hMoves
    rcases hMoves.1 with hNot | hNot
    · cases hNot
    · exact hNot rfl
  rename_i hSelf
  have hFalse : (action.isExtra && state == 0) = false := by
    rw [Bool.and_eq_false_iff, beq_eq_false_iff_ne]
    by_cases hExtra : action.isExtra
    · exact .inr fun h => hSelf ⟨hExtra, h⟩
    · exact .inl (Bool.eq_false_iff.mpr hExtra)
  refine ⟨hFalse, ?_, ?_⟩
  · cases hExtra : action.isExtra with
    | false => rfl
    | true =>
      have hNe : state ≠ 0 := fun h => hSelf ⟨hExtra, h⟩
      rw [Bool.true_and]
      exact bne_iff_ne.mpr hNe
  · rw [if_pos ⟨.inl hFalse, hState⟩]
    refine UInt32.toNat_ofNat_of_lt' ?_
    show _ < 2 ^ 32
    omega

/- Only shifts to states are found. -/
lemma lt_of_actionStands (hCount : stateCount + 1 < 2 ^ 32) (hPos : 0 < stateCount)
    (hKind : action.kind = .shift state) (hAlike : KeyAlike ng other action)
    (hStands : ActionStands ng action (foundAction ng stateCount other)) :
    state < stateCount := by
  unfold ActionStands at hStands
  rw [hKind] at hStands
  rcases hStands with ⟨_, _, hStands⟩
  unfold KeyAlike at hAlike
  rw [hKind] at hAlike
  cases hOther : other.kind with
  | reduce => rw [hOther] at hAlike; exact hAlike.elim
  | accept => rw [hOther] at hAlike; exact hAlike.elim
  | shift target =>
    rw [hOther] at hAlike
    split at hStands
    · omega
    rcases @foundAction_shift ng stateCount other target hOther with ⟨_, _, hFlag, _, hFound⟩
    have hNat : (UInt32.ofNat target).toNat = target % 2 ^ 32 := UInt32.toNat_ofNat
    have hState := hStands.2.2
    rw [hFound, ← hFlag] at hState
    split at hState
    · rw [UInt32.toNat_ofNat_of_lt' (by
        show _ < 2 ^ 32
        omega)] at hState
      omega
    · -- the key keeps the target up to 65536, and the
      -- next number has another key
      omega

lemma kind_eq_of_actionStands {found : ParseAction} (hAlike : KeyAlike ng action other)
    (hAction : ActionStands ng action found) (hOther : ActionStands ng other found) :
    action.kind = other.kind := by
  unfold KeyAlike at hAlike
  unfold ActionStands at hAction hOther
  cases hA : action.kind with
  | shift s =>
    cases hB : other.kind with
    | shift t =>
      rw [hA] at hAction
      rw [hB] at hOther
      have hA' := hAction.2.2
      have hB' := hOther.2.2
      split at hA'
      · rename_i hSelf
        split at hB'
        · rename_i hSelf'
          rw [hSelf.2, hSelf'.2]
        · rw [hA'.1] at hB'
          cases hB'.1
      · split at hB'
        · rw [hA'.1] at hB'
          cases hB'.1
        · have hEq := hA'.2.2.symm.trans hB'.2.2
          rw [Nat.succ.inj hEq]
    | reduce => rw [hA, hB] at hAlike; exact hAlike.elim
    | accept => rw [hA, hB] at hAlike; exact hAlike.elim
  | reduce =>
    cases hB : other.kind with
    | shift t => rw [hA, hB] at hAlike; exact hAlike.elim
    | reduce => rfl
    | accept => rw [hA, hB] at hAlike; exact hAlike.elim
  | accept =>
    cases hB : other.kind with
    | shift t => rw [hA, hB] at hAlike; exact hAlike.elim
    | reduce => rw [hA, hB] at hAlike; exact hAlike.elim
    | accept => rfl

lemma entryAction_eq_of_kind (hAlike : KeyAlike ng action other)
    (hKind : action.kind = other.kind) :
    entryAction ng action = entryAction ng other := by
  unfold KeyAlike at hAlike
  rw [hKind] at hAlike
  cases hOther : other.kind with
  | shift t =>
    rw [hOther] at hAlike hKind
    unfold entryAction
    rw [hKind, hOther, hAlike.1, hAlike.2.1]
  | reduce =>
    rw [hOther] at hAlike
    exact hAlike.2.2
  | accept =>
    unfold entryAction
    rw [hKind, hOther]

lemma actionStands_accept (hKind : action.kind = .accept) :
    ActionStands ng action (foundAction ng stateCount action) := by
  have hEntry : (entryAction ng action).type = parseActionAccept := by
    unfold entryAction
    rw [hKind]
  rw [foundAction_of_not_shift (by rw [hEntry]; decide)]
  unfold ActionStands
  rw [hKind]
  exact hEntry

-- Finished Tables

variable {lang out : Language} {tables : LrTables} {tokenCount state place : Nat}

/- The numbers of a table fit the fields of the format. -/
structure TablesFit (tables : LrTables) (ng : NormalizedGrammar) (tokenCount : Nat) : Prop where
  tokens : tokenCount ≤ ng.symbolCount
  symbols : ng.symbolCount < 65536
  states : tables.stateCount + 1 < 2 ^ 32
  offsets : (smallRows ng tokenCount (rawTable tables ng tokenCount).1).flatten.length < 2 ^ 32
  productions : ∀ prod ∈ ng.productions, ProductionFits prod

lemma buildParseTables_ok (hBuild : buildParseTables lang tables ng tokenCount = .ok out) :
    IndicesInRange tables ng tokenCount ∧ (rawTable tables ng tokenCount).2.indexErr = none ∧
      out =
        emitTables lang ng tokenCount (rawTable tables ng tokenCount).1
          (rawTable tables ng tokenCount).2 := by
  unfold buildParseTables at hBuild
  split at hBuild
  · cases hBuild
  rename_i hRange
  refine ⟨not_not.mp hRange, ?_⟩
  dsimp only at hBuild
  split at hBuild
  · cases hBuild
  rename_i hNone
  split at hBuild
  · cases hBuild
  · cases hBuild
    exact ⟨hNone, rfl⟩

/- A cell with its goto renumbered. -/
def remapCell (tokenCount place : Nat) (value : UInt32) : UInt32 :=
  if value = 0 then
    0
  else if tokenCount ≤ place then
    UInt32.ofNat (stateRemap value.toNat)
  else
    value

variable {value : UInt32}

lemma getElem_remapRow {row : List UInt32} (hAt : row[place]? = some value) :
    (remapRow tokenCount row)[place]? = some (remapCell tokenCount place value) := by
  unfold remapRow
  rw [getElem?_map, getElem?_zipIdx, hAt]
  simp only [Option.map_some, zero_add]
  rfl

/- The renumbered table has a row for every state and one before them. -/
lemma length_newRawTable (hRange : IndicesInRange tables ng tokenCount) :
    (newRawTable ng tokenCount (rawTable tables ng tokenCount).1).length = tables.stateCount + 1 ∧
      ∀ row ∈ newRawTable ng tokenCount (rawTable tables ng tokenCount).1,
        row.length = ng.symbolCount := by
  rcases rawTable_spec hRange with ⟨_, hCount, hRows, _⟩
  constructor
  · unfold newRawTable
    rw [length_cons, length_map, hCount]
  · intro row hRow
    rcases mem_cons.mp hRow with hFirst | hRest
    · rw [hFirst]
      exact length_replicate
    rcases mem_map.mp hRest with ⟨old, hOld, hEq⟩
    rw [← hEq]
    unfold remapRow
    rw [length_map, length_zipIdx]
    exact hRows old hOld

lemma rowsFit_rawTable (hFit : TablesFit tables ng tokenCount)
    (hRange : IndicesInRange tables ng tokenCount) :
    RowsFit ng tokenCount (rawTable tables ng tokenCount).1 := by
  refine ⟨(length_newRawTable hRange).2, hFit.symbols, ?_, hFit.offsets⟩
  rw [(length_newRawTable hRange).1]
  exact hFit.states

lemma found_buildParseTables
    (hFit : TablesFit tables ng tokenCount)
    (hFresh : lang.largeStateGotos = [])
    (hBuild : buildParseTables lang tables ng tokenCount = .ok out)
    (hState : state < tables.stateCount)
    (hPlace : place < ng.symbolCount) :
    ∃ value,
      CellValue tables ng tokenCount (rawTable tables ng tokenCount).2 state place value ∧
        lookupActionIndexForLanguage out (UInt32.ofNat (stateRemap state))
          (UInt16.ofNat place) =
          downcastCell tokenCount place (remapCell tokenCount place value) ∧
        out.lookupLargeStateGoto (UInt32.ofNat (stateRemap state)) (UInt16.ofNat place) =
          if tokenCount ≤ place ∧
            (remapCell tokenCount place value).toNat > maxUint16Index then
            remapCell tokenCount place value
          else 0 := by
  rcases buildParseTables_ok hBuild with ⟨hRange, hNone, hOut⟩
  rcases rawTable_spec hRange with ⟨_, hCount, _, hCells⟩
  have hRows := rowsFit_rawTable hFit hRange
  have hIn : state < (rawTable tables ng tokenCount).1.length := by omega
  have hRow := getElem?_eq_getElem hIn
  rcases hCells hNone state place _ hRow hPlace with ⟨value, hAt, hValue⟩
  have hNew : (newRawTable ng tokenCount (rawTable tables ng tokenCount).1)[stateRemap state]? =
      some (remapRow tokenCount (rawTable tables ng tokenCount).1[state]) := by
    unfold newRawTable stateRemap
    rw [getElem?_cons_succ, getElem?_map, hRow]
    rfl
  have hCell : (remapRow tokenCount (rawTable tables ng tokenCount).1[state])[place]? =
      some (remapCell tokenCount place value) := getElem_remapRow hAt
  refine ⟨value, hValue, ?_, ?_⟩
  · rw [hOut]
    exact linearActionIndex_emitTables hRows hNew hCell
  · rw [hOut]
    exact lookupLargeStateGoto_emitTables hRows hFresh hNew hCell

-- Decoding

variable {actions others : List LrAction}

/- The goto found in a language, or 0. -/
def gotoFound (lang : Language) (state : StateID) (sym : Symbol) : Nat :=
  let large := lang.lookupLargeStateGoto state sym
  if large = 0 then
    (lookupActionIndexForLanguage lang state sym).toNat
  else
    large.toNat

/- The entry found in a language. -/
def entryFound (lang : Language) (state : StateID) (sym : Symbol) : Option ParseActionEntry :=
  lang.parseActions[(lookupActionIndexForLanguage lang state sym).toNat]?

/- A language holds the actions and gotos of a table. -/
structure DecodesBack (tables : LrTables) (ng : NormalizedGrammar) (tokenCount : Nat)
    (lang : Language) : Prop where
  actions : ∀ (state place : Nat) (actions : List LrAction), TerminalCell tables tokenCount state
      place actions → ∃ entry : ParseActionEntry, entryFound lang (UInt32.ofNat (state + 1))
      (UInt16.ofNat place) = some entry ∧ List.Forall₂ (ActionStands ng) actions entry.actions
  others : ∀ state place : Nat, state < tables.stateCount → place < tokenCount → (∀ actions : List
      LrAction, (tables.actionTable state).get place = some actions → actions = []) →
      lookupActionIndexForLanguage lang (UInt32.ofNat (state + 1)) (UInt16.ofNat place) = 0 ∨
      ((place : Int) ∈ ng.extraSymbols ∧ entryFound lang (UInt32.ofNat (state + 1)) (UInt16.ofNat
      place) = some extraEntry)
  gotos : ∀ state place target : Nat, state < tables.stateCount → tokenCount ≤ place → place <
      ng.symbolCount → (tables.gotoTable state).get place = some target → gotoFound lang
      (UInt32.ofNat (state + 1)) (UInt16.ofNat place) = target + 1

/-
  Shifts and gotos lead to states, no goto leads to the first one, and lists of actions with one key
  lead to the same states.
-/
structure Distinguished (tables : LrTables) (ng : NormalizedGrammar) (tokenCount : Nat) : Prop where
  shifts : ∀ (actions : List LrAction) (action : LrAction) (target : Nat), ListOfCell tables
      tokenCount actions → action ∈ actions → action.kind = .shift target → target <
      tables.stateCount
  gotos : ∀ state place target : Nat, state < tables.stateCount → tokenCount ≤ place → place <
      ng.symbolCount → (tables.gotoTable state).get place = some target → 0 < target ∧ target <
      tables.stateCount
  keys : ∀ actions others : List LrAction, ListOfCell tables tokenCount actions → ListOfCell tables
      tokenCount others → serializeActions ng actions = serializeActions ng others → actions.map
      LrAction.kind = others.map LrAction.kind

lemma lookup_terminal (hTerminal : place < tokenCount) (hFits : value.toNat ≤ maxUint16Index) :
    (downcastCell tokenCount place (remapCell tokenCount place value)).toNat = value.toNat := by
  have hSame : remapCell tokenCount place value = value := by
    unfold remapCell
    split
    · rename_i hZero
      exact hZero.symm
    · rw [if_neg (by omega)]
  unfold downcastCell
  rw [hSame, if_neg (by omega)]
  refine UInt16.toNat_ofNat_of_lt' ?_
  show _ < 65536
  unfold maxUint16Index at hFits
  omega

section

variable (hFit : TablesFit tables ng tokenCount) (hFresh : lang.largeStateGotos = [])
  (hBuild : buildParseTables lang tables ng tokenCount = .ok out)

include hFit hFresh hBuild

section

variable (hCell : TerminalCell tables tokenCount state place actions)

include hCell

/- A list is found under the number of its key. -/
lemma lookup_terminalCell :
    (rawTable tables ng tokenCount).2.actionGroupMap.lookup (serializeActions ng actions) =
      some
        (lookupActionIndexForLanguage out (UInt32.ofNat (state + 1))
          (UInt16.ofNat place)).toNat := by
  rcases hCell with ⟨hState, _, hLt, hGet, hCons⟩
  have hTerminal : place < tokenCount := by omega
  rcases found_buildParseTables hFit hFresh hBuild hState (hTerminal.trans_le hFit.tokens) with
    ⟨value, hValue, hLookup, _⟩
  have hOk := (rawTable_spec (buildParseTables_ok hBuild).1).1
  unfold CellValue at hValue
  rw [if_pos hTerminal] at hValue
  have hNumber := hValue.1 actions hGet hCons
  unfold stateRemap at hLookup
  rw [hLookup, lookup_terminal hTerminal (hOk.entry _ _ hNumber).2.1]
  exact hNumber

lemma entryFound_terminal :
    ∃ first,
      ListOfCell tables tokenCount first ∧
        serializeActions ng first = serializeActions ng actions ∧
        entryFound out (UInt32.ofNat (state + 1)) (UInt16.ofNat place) =
          some (foundEntry ng tables.stateCount first) := by
  have hNumber := lookup_terminalCell hFit hFresh hBuild hCell
  rcases buildParseTables_ok hBuild with ⟨hRange, _, hOut⟩
  rcases rawTable_spec hRange with ⟨hOk, hCount, _, _⟩
  rcases hOk.entry _ _ hNumber with ⟨_, _, first, hFirst, hKey, hAt⟩
  refine ⟨first, hFirst, hKey, ?_⟩
  unfold entryFound
  generalize (lookupActionIndexForLanguage out (UInt32.ofNat (state + 1))
    (UInt16.ofNat place)).toNat = number at hAt ⊢
  rw [hOut]
  unfold emitTables
  rw [getElem?_map, hAt, hCount]
  unfold remapEntry groupEntry foundEntry
  rw [Option.map_some, map_map]
  rfl

lemma entryFound_congr {state' place' : Nat}
    (hCell' : TerminalCell tables tokenCount state' place' others)
    (hKey : serializeActions ng actions = serializeActions ng others) :
    entryFound out (UInt32.ofNat (state + 1)) (UInt16.ofNat place) =
      entryFound out (UInt32.ofNat (state' + 1)) (UInt16.ofNat place') := by
  have hNumber := lookup_terminalCell hFit hFresh hBuild hCell
  rw [hKey, lookup_terminalCell hFit hFresh hBuild hCell', Option.some.injEq] at hNumber
  unfold entryFound
  rw [hNumber]

end

lemma others_buildParseTables
    (hState : state < tables.stateCount)
    (hTerminal : place < tokenCount)
    (hNone : ∀ actions, (tables.actionTable state).get place = some actions → actions = []) :
    lookupActionIndexForLanguage out (UInt32.ofNat (state + 1)) (UInt16.ofNat place) = 0 ∨
      ((place : Int) ∈ ng.extraSymbols ∧
        entryFound out (UInt32.ofNat (state + 1)) (UInt16.ofNat place) = some extraEntry) := by
  rcases found_buildParseTables hFit hFresh hBuild hState (hTerminal.trans_le hFit.tokens) with
    ⟨value, hValue, hLookup, _⟩
  rcases buildParseTables_ok hBuild with ⟨hRange, _, hOut⟩
  have hOk := (rawTable_spec hRange).1
  unfold CellValue at hValue
  rw [if_pos hTerminal] at hValue
  unfold stateRemap at hLookup
  rcases hValue.2 hNone with hZero | ⟨hIn, hExtra⟩
  · left
    rw [← UInt16.toNat_inj, hLookup, lookup_terminal hTerminal (by rw [hZero]; decide), hZero]
    rfl
  right
  have hCons : ng.extraSymbols ≠ [] := ne_nil_of_mem hIn
  have hOne : value = 1 := by
    rw [hExtra]
    exact if_neg hCons
  refine ⟨hIn, ?_⟩
  unfold entryFound
  rw [hLookup, lookup_terminal hTerminal (by rw [hOne]; decide), hOne, hOut]
  unfold emitTables
  rw [getElem?_map]
  show ((rawTable tables ng tokenCount).2.parseActions[1]?).map _ = _
  rw [hOk.extra hCons]
  rfl

lemma gotoFound_buildParseTables (hState : state < tables.stateCount) (hGoto : tokenCount ≤ place)
    (hPlace : place < ng.symbolCount) {target : Nat}
    (hGet : (tables.gotoTable state).get place = some target) :
    gotoFound out (UInt32.ofNat (state + 1)) (UInt16.ofNat place) =
      if UInt32.ofNat target = 0 then 0 else target % 2 ^ 32 + 1 := by
  rcases found_buildParseTables hFit hFresh hBuild hState
      hPlace with ⟨value, hValue, hLookup, hLarge⟩
  have hRange := (buildParseTables_ok hBuild).1
  have hBound : (UInt32.ofNat target).toNat < tables.stateCount := by
    have hIn := (hRange state (mem_range.mpr hState)).2.2 place
        (mem_gotoSyms.mpr ⟨by omega, by omega, target, hGet⟩)
    rw [hGet] at hIn
    exact hIn
  unfold CellValue at hValue
  rw [if_neg (by omega), hGet, Option.getD_some] at hValue
  unfold stateRemap at hLookup hLarge
  have hCellNat : (remapCell tokenCount place value).toNat =
      if UInt32.ofNat target = 0 then 0 else target % 2 ^ 32 + 1 := by
    unfold remapCell stateRemap
    rw [hValue]
    split
    · rfl
    rw [UInt32.toNat_ofNat_of_lt' (by
      show _ < 2 ^ 32
      have hStates := hFit.states
      omega)]
    exact congrArg (· + 1) UInt32.toNat_ofNat
  unfold gotoFound
  rw [← hCellNat, hLookup]
  by_cases hBig : (remapCell tokenCount place value).toNat > maxUint16Index
  · rw [if_pos ⟨hGoto, hBig⟩] at hLarge
    rw [hLarge]
    refine if_neg ?_
    intro hZero
    rw [hZero] at hBig
    exact absurd hBig (by decide)
  rw [if_neg fun h => hBig h.2] at hLarge
  rw [hLarge, if_pos rfl]
  unfold downcastCell
  rw [if_neg fun h => hBig h.2]
  refine UInt16.toNat_ofNat_of_lt' ?_
  show _ < 65536
  unfold maxUint16Index at hBig
  omega

end

/- Entries keep lists that lead to states. -/
lemma forall_actionStands (hFit : TablesFit tables ng tokenCount)
    (hRange : IndicesInRange tables ng tokenCount) (hCell : ListOfCell tables tokenCount actions)
    (hShifts : ∀ action target,
      action ∈ actions → action.kind = .shift target → target < tables.stateCount) :
    List.Forall₂ (ActionStands ng) actions (foundEntry ng tables.stateCount actions).actions := by
  rcases hCell with ⟨state, sym, hState, _, hLt, hGet, _⟩
  have hReduces := ((hRange state (mem_range.mpr hState)).1 sym
      (mem_terminalSyms.mpr ⟨hLt, actions, hGet⟩)).2.2
  rw [hGet, Option.getD_some] at hReduces
  unfold foundEntry
  rw [List.forall₂_map_right_iff, List.forall₂_same]
  intro action hAction
  cases hKind : action.kind with
  | shift target => exact actionStands_shift hFit.states hKind (hShifts action target hAction hKind)
  | reduce =>
    exact actionStands_reduce hKind (production_fits hFit.productions
        (hReduces action hAction hKind))
  | accept => exact actionStands_accept hKind

lemma foundEntry_congr {stateCount : Nat} (hAlike : List.Forall₂ (KeyAlike ng) actions others)
    (hKinds : actions.map LrAction.kind = others.map LrAction.kind) :
    foundEntry ng stateCount actions = foundEntry ng stateCount others := by
  unfold foundEntry foundAction
  congr 1
  induction hAlike with
  | nil => rfl
  | cons hHead _ ih =>
    rw [map_cons, map_cons, List.cons.injEq] at hKinds
    rw [map_cons, map_cons, ih hKinds.2, entryAction_eq_of_kind hHead hKinds.1]

lemma kinds_eq_of_forall {found : List ParseAction}
    (hAlike : List.Forall₂ (KeyAlike ng) actions others)
    (hActions : List.Forall₂ (ActionStands ng) actions found)
    (hOthers : List.Forall₂ (ActionStands ng) others found) :
    actions.map LrAction.kind = others.map LrAction.kind := by
  induction hAlike generalizing found with
  | nil => rfl
  | cons hHead _ ih =>
    cases hActions with
    | cons hFirst hRest =>
      cases hOthers with
      | cons hFirst' hRest' =>
        rw [map_cons, map_cons, kind_eq_of_actionStands hHead hFirst hFirst', ih hRest hRest']

/- Shifts in a list that is found lead to states. -/
lemma lt_of_forall {stateCount : Nat} (hCount : stateCount + 1 < 2 ^ 32) (hPos : 0 < stateCount)
    (hAlike : List.Forall₂ (KeyAlike ng) others actions)
    (hStands : List.Forall₂ (ActionStands ng) actions (foundEntry ng stateCount others).actions)
    {action : LrAction} {target : Nat} (hAction : action ∈ actions)
    (hKind : action.kind = .shift target) :
    target < stateCount := by
  unfold foundEntry at hStands
  induction hAlike with
  | nil => cases hAction
  | cons hHead _ ih =>
    rw [map_cons, List.forall₂_cons] at hStands
    rcases mem_cons.mp hAction with hEq | hRest
    · rw [← hEq] at hHead hStands
      exact lt_of_actionStands hCount hPos hKind hHead hStands.1
    · exact ih hStands.2 hRest

lemma place_of_listOfCell (hCell : ListOfCell tables tokenCount actions) :
    ∃ state place : Nat, TerminalCell tables tokenCount state place actions := by
  rcases hCell with ⟨state, sym, hCell⟩
  refine ⟨state, sym.toNat, ?_⟩
  rw [Int.toNat_of_nonneg hCell.2.1]
  exact hCell

section

variable (hFit : TablesFit tables ng tokenCount) (hFresh : lang.largeStateGotos = [])
  (hBuild : buildParseTables lang tables ng tokenCount = .ok out)

include hFit hFresh hBuild

lemma distinguished_of_decodesBack (hDecodes : DecodesBack tables ng tokenCount out) :
    Distinguished tables ng tokenCount := by
  have hShifts : ∀ (actions : List LrAction) (action : LrAction) (target : Nat),
      ListOfCell tables tokenCount actions → action ∈ actions → action.kind = .shift target →
        target < tables.stateCount := by
    intro actions action target hList hAction hKind
    rcases place_of_listOfCell hList with ⟨state, place, hCell⟩
    rcases entryFound_terminal hFit hFresh hBuild hCell with ⟨first, _, hKey, hFound⟩
    rcases hDecodes.actions state place actions hCell with ⟨entry, hEntry, hStands⟩
    rw [hFound, Option.some.injEq] at hEntry
    rw [← hEntry] at hStands
    exact lt_of_forall hFit.states (lt_of_le_of_lt (Nat.zero_le state) hCell.1)
      ((serializeActions_eq_iff first actions).mp hKey) hStands hAction hKind
  refine ⟨hShifts, ?_, ?_⟩
  · intro state place target hState hGoto hPlace hGet
    have hFound := hDecodes.gotos state place target hState hGoto hPlace hGet
    have hIn := ((buildParseTables_ok hBuild).1 state (mem_range.mpr hState)).2.2 place
        (mem_gotoSyms.mpr ⟨by omega, by omega, target, hGet⟩)
    rw [hGet, Option.getD_some, UInt32.toNat_ofNat'] at hIn
    rw [gotoFound_buildParseTables hFit hFresh hBuild hState hGoto hPlace hGet] at hFound
    split at hFound
    · omega
    rename_i hNonzero
    refine ⟨pos_of_ne_zero fun hZero => ?_, by omega⟩
    exact hNonzero (by rw [hZero]; rfl)
  · intro actions others hActions hOthers hKey
    rcases place_of_listOfCell hActions with ⟨state, place, hCell⟩
    rcases place_of_listOfCell hOthers with ⟨state', place', hCell'⟩
    rcases hDecodes.actions state place actions hCell with ⟨entry, hEntry, hStands⟩
    rcases hDecodes.actions state' place' others hCell' with ⟨entry', hEntry', hStands'⟩
    rw [entryFound_congr hFit hFresh hBuild hCell hCell' hKey, hEntry', Option.some.injEq] at hEntry
    rw [← hEntry] at hStands
    exact kinds_eq_of_forall ((serializeActions_eq_iff actions others).mp hKey) hStands hStands'

lemma decodesBack_of_distinguished (hDist : Distinguished tables ng tokenCount) :
    DecodesBack tables ng tokenCount out := by
  have hRange := (buildParseTables_ok hBuild).1
  refine ⟨?_, ?_, ?_⟩
  · intro state place actions hCell
    rcases entryFound_terminal hFit hFresh hBuild hCell with ⟨first, hFirst, hKey, hFound⟩
    have hList : ListOfCell tables tokenCount actions := ⟨state, place, hCell⟩
    refine ⟨_, hFound, ?_⟩
    rw [foundEntry_congr ((serializeActions_eq_iff first actions).mp hKey)
      (hDist.keys first actions hFirst hList hKey)]
    exact forall_actionStands hFit hRange hList (fun action target hAction hKind =>
        hDist.shifts actions action target hList hAction hKind)
  · intro state place hState hTerminal hNone
    exact others_buildParseTables hFit hFresh hBuild hState hTerminal hNone
  · intro state place target hState hGoto hPlace hGet
    rcases hDist.gotos state place target hState hGoto hPlace hGet with ⟨hPos, hLt⟩
    have hStates := hFit.states
    have hSame : target % 2 ^ 32 = target := Nat.mod_eq_of_lt (by omega)
    rw [gotoFound_buildParseTables hFit hFresh hBuild hState hGoto hPlace hGet, if_neg, hSame]
    intro hZero
    have hNat := congrArg UInt32.toNat hZero
    rw [UInt32.toNat_ofNat', hSame] at hNat
    exact absurd hNat (ne_of_gt hPos)

end

-- Few Lists of Actions

variable {lang : Language} {tokenCount state : Nat} {keys : List (List UInt8)}
  {groups : ActionGroups}

/- Only these keys have numbers, and all fitted. -/
structure FewGroups (keys : List (List UInt8)) (groups : ActionGroups) : Prop where
  error : groups.indexErr = none
  nodup : (groups.actionGroupMap.map Prod.fst).Nodup
  known : groups.actionGroupMap.map Prod.fst ⊆ keys
  entries : groups.parseActions.length ≤ 2 + groups.actionGroupMap.length

lemma FewGroups.length_le (hFew : FewGroups keys groups) :
    groups.parseActions.length ≤ 2 + keys.length := by
  have hMap := (subperm_of_subset hFew.nodup hFew.known).length_le
  rw [length_map] at hMap
  have hEntries := hFew.entries
  omega

variable {actions : List LrAction}

lemma fewGroups_getOrAddActionGroup (hKeys : keys.length + 2 ≤ maxUint16Index)
    (hFew : FewGroups keys groups) (hKnown : actions ≠ [] → serializeActions ng actions ∈ keys) :
    FewGroups keys (getOrAddActionGroup ng groups actions).2 := by
  unfold getOrAddActionGroup
  split_ifs with hCons
  · exact hFew
  dsimp only
  cases hFind : groups.actionGroupMap.lookup (serializeActions ng actions) with
  | some idx => exact hFew
  | none =>
    have hCheck : checkUint16Index ng.grammarName "parse action group" groups.parseActions.length =
        none := by
      have hLe := hFew.length_le
      exact if_neg (by omega)
    rw [hCheck]
    have hNew : serializeActions ng actions ∉ groups.actionGroupMap.map Prod.fst := by
      intro hMem
      rcases mem_map.mp hMem with ⟨entry, hIn, hEq⟩
      have hNone := lookup_eq_none_iff.mp hFind entry hIn
      rw [hEq] at hNone
      exact absurd hNone (by simp)
    refine ⟨hFew.error, ?_, ?_, ?_⟩
    · exact nodup_cons.mpr ⟨hNew, hFew.nodup⟩
    · exact cons_subset.mpr ⟨hKnown hCons, hFew.known⟩
    have hEntries := hFew.entries
    rw [length_append, length_singleton, length_cons]
    omega

/- The keys of a table's lists. -/
def KeysKnown (tables : LrTables) (ng : NormalizedGrammar) (tokenCount : Nat)
    (keys : List (List UInt8)) : Prop :=
  ∀ actions : List LrAction, ListOfCell tables tokenCount actions →
    serializeActions ng actions ∈ keys

section

variable (hRange : IndicesInRange tables ng tokenCount)
  (hKnown : KeysKnown tables ng tokenCount keys) (hKeys : keys.length + 2 ≤ maxUint16Index)

include hRange hKnown hKeys

lemma fewGroups_rawRow (hState : state < tables.stateCount) (hFew : FewGroups keys groups) :
    FewGroups keys (rawRow tables ng tokenCount groups state).2 := by
  have hTerminals := (hRange state (mem_range.mpr hState)).1
  refine List.foldlRecOn (motive := fun row : List UInt32 × ActionGroups =>
      FewGroups keys row.2) _ _ hFew ?_
  intro row hRow sym hSym
  refine fewGroups_getOrAddActionGroup hKeys hRow ?_
  intro hCons
  rcases mem_terminalSyms.mp hSym with ⟨hLt, actions, hGet⟩
  dsimp only at hCons ⊢
  rw [hGet] at hCons ⊢
  exact hKnown actions ⟨state, sym, hState, (hTerminals sym hSym).1, hLt, hGet, hCons⟩

lemma fewGroups_rawTable : FewGroups keys (rawTable tables ng tokenCount).2 := by
  have hInitial : FewGroups keys (initialGroups ng) := by
    refine ⟨rfl, nodup_nil, nil_subset _, ?_⟩
    unfold initialGroups
    split
    · exact Nat.le_succ 1
    · exact le_refl 2
  refine List.foldlRecOn (motive := fun built : List (List UInt32) × ActionGroups =>
      FewGroups keys built.2) _ _ hInitial ?_
  intro built hBuilt state hState
  exact fewGroups_rawRow hRange hKnown hKeys (mem_range.mp hState) hBuilt

end

lemma CellValue.fits {place : Nat} (hOk : GroupsOk ng (ListOfCell tables tokenCount) groups)
    (hTerminal : place < tokenCount)
    (hValue : CellValue tables ng tokenCount groups state place value) :
    value.toNat ≤ maxUint16Index := by
  unfold CellValue at hValue
  rw [if_pos hTerminal] at hValue
  by_cases hEmpty : ∀ actions, (tables.actionTable state).get place = some actions → actions = []
  · rcases hValue.2 hEmpty with hZero | ⟨_, hExtra⟩
    · rw [hZero]
      decide
    rw [hExtra]
    unfold extraShiftIdx
    split
    · decide
    · decide
  · simp only [not_forall] at hEmpty
    rcases hEmpty with ⟨actions, hGet, hCons⟩
    exact (hOk.entry _ _ (hValue.1 actions hGet hCons)).2.1

lemma cellError_rawTable (hRange : IndicesInRange tables ng tokenCount)
    (hNone : (rawTable tables ng tokenCount).2.indexErr = none) {row : List UInt32}
    (hRow : row ∈ newRawTable ng tokenCount (rawTable tables ng tokenCount).1)
    {cell : UInt32 × Nat} (hCell : cell ∈ row.zipIdx) :
    cellError ng tokenCount cell = none := by
  rcases cell with ⟨value, place⟩
  rw [mk_mem_zipIdx_iff_getElem?] at hCell
  unfold cellError
  dsimp only
  split
  · rfl
  suffices hFits : value.toNat ≤ maxUint16Index by
    exact if_neg (by omega)
  rcases mem_cons.mp hRow with hFirst | hRest
  · rw [hFirst] at hCell
    rw [eq_of_mem_replicate (mem_of_getElem? hCell)]
    decide
  rcases mem_map.mp hRest with ⟨old, hOld, hEq⟩
  rcases rawTable_spec hRange with ⟨hOk, _, hRows, hCells⟩
  rcases mem_iff_getElem?.mp hOld with ⟨state, hAt⟩
  have hPlace : place < ng.symbolCount := by
    have hLt := (List.getElem?_eq_some_iff.mp hCell).1
    rw [← hEq] at hLt
    unfold remapRow at hLt
    rw [length_map, length_zipIdx, hRows old hOld] at hLt
    exact hLt
  rcases hCells hNone state place old hAt hPlace with ⟨found, hFound, hValue⟩
  rw [← hEq, getElem_remapRow hFound, Option.some.injEq] at hCell
  have hFits := hValue.fits hOk (by omega)
  rw [← hCell]
  unfold remapCell
  split
  · decide
  · exact hFits

lemma buildParseTables_of_few (keys : List (List UInt8))
    (hRange : IndicesInRange tables ng tokenCount) (hKnown : KeysKnown tables ng tokenCount keys)
    (hKeys : keys.length + 2 ≤ maxUint16Index) :
    ∃ out, buildParseTables lang tables ng tokenCount = .ok out := by
  have hFew := fewGroups_rawTable hRange hKnown hKeys
  unfold buildParseTables
  rw [if_neg (not_not.mpr hRange)]
  dsimp only
  rw [hFew.error]
  have hCells : (newRawTable ng tokenCount (rawTable tables ng tokenCount).1).findSome?
      (fun row => row.zipIdx.findSome? (cellError ng tokenCount)) = none := by
    rw [findSome?_eq_none_iff]
    intro row hRow
    rw [findSome?_eq_none_iff]
    intro cell hCell
    exact cellError_rawTable hRange hFew.error hRow hCell
  rw [hCells]
  exact ⟨_, rfl⟩

-- Decoding of Built Tables

open Store

theorem buildParseTables_decodes_back_iff
    (lang out : Language)
    (tables : LrTables)
    (ng : NormalizedGrammar)
    (tokenCount : Nat)
    (hFit : TablesFit tables ng tokenCount)
    (hFresh : lang.largeStateGotos = [])
    (hBuild : buildParseTables lang tables ng tokenCount = .ok out) :
    DecodesBack tables ng tokenCount out ↔ Distinguished tables ng tokenCount :=
  ⟨distinguished_of_decodesBack hFit hFresh hBuild, decodesBack_of_distinguished hFit hFresh hBuild⟩

/- Tables whose first state shifts two terminals and has a goto. -/
def forkTables (count target : Nat) : LrTables where
  actionTable := fun state =>
    if state = 0 then
      .ofList [(1, [{ kind := .shift 1 }]), (2, [{ kind := .shift target }])]
    else
      .empty
  gotoTable := fun state =>
    if state = 0 then .ofList [(3, 1)] else .empty
  stateCount := count

def forkGrammar : NormalizedGrammar where
  grammarName := "fork"
  symbolCount := 4
  productions := []

variable {count target : Nat}

lemma mem_forkTables {state : Nat} {sym : Int}
    (hGet : ((forkTables count target).actionTable state).get sym = some actions) :
    state = 0 ∧
      ((sym = 1 ∧ actions = [{kind := .shift 1 }]) ∨
        (sym = 2 ∧ actions = [{kind := .shift target }])) := by
  unfold forkTables at hGet
  dsimp only at hGet
  split_ifs at hGet with hState
  · refine ⟨hState, ?_⟩
    have hMem := PartialMap.mem_of_get_ofList hGet
    rcases mem_cons.mp hMem with hFirst | hRest
    · cases hFirst
      exact .inl ⟨rfl, rfl⟩
    · cases mem_singleton.mp hRest
      exact .inr ⟨rfl, rfl⟩
  · cases hGet

lemma goto_forkTables {state : Nat} {sym : Int} {next : Nat}
    (hGet : ((forkTables count target).gotoTable state).get sym = some next) :
    next = 1 := by
  unfold forkTables at hGet
  dsimp only at hGet
  split at hGet
  · cases mem_singleton.mp (PartialMap.mem_of_get_ofList hGet)
    rfl
  · cases hGet

lemma list_forkTables (hList : ListOfCell (forkTables count target) 3 actions) :
    actions = [{ kind := .shift 1 }] ∨ actions = [{ kind := .shift target }] := by
  rcases hList with ⟨state, sym, _, _, _, hGet, _⟩
  rcases (mem_forkTables hGet).2 with ⟨_, hFirst⟩ | ⟨_, hSecond⟩
  · exact .inl hFirst
  · exact .inr hSecond

lemma indicesInRange_forkTables (hCount : 1 < count) :
    IndicesInRange (forkTables count target) forkGrammar 3 := by
  intro state _
  refine ⟨?_, ?_, ?_⟩
  · intro sym hSym
    rcases mem_terminalSyms.mp hSym with ⟨_, actions, hGet⟩
    rw [hGet, Option.getD_some]
    rcases (mem_forkTables hGet).2 with ⟨rfl, rfl⟩ | ⟨rfl, rfl⟩
    · refine ⟨by decide, by decide, ?_⟩
      intro action hAction hKind
      rw [mem_singleton.mp hAction] at hKind
      cases hKind
    refine ⟨by decide, by decide, ?_⟩
    intro action hAction hKind
    rw [mem_singleton.mp hAction] at hKind
    cases hKind
  · intro sym hSym
    cases hSym
  · intro sym hSym
    rcases mem_gotoSyms.mp hSym with ⟨_, _, next, hGet⟩
    rw [hGet, goto_forkTables hGet]
    exact hCount

lemma buildParseTables_forkTables (hCount : 1 < count) :
    ∃ out, buildParseTables {} (forkTables count target) forkGrammar 3 = .ok out := by
  refine buildParseTables_of_few [serializeActions forkGrammar [{ kind := .shift 1 }],
      serializeActions forkGrammar [{ kind := .shift target }]]
    (indicesInRange_forkTables hCount) ?_ ?_
  rotate_left
  · show 4 ≤ maxUint16Index
    decide
  intro actions hList
  rcases list_forkTables hList with hFirst | hSecond
  · rw [hFirst]
    exact mem_cons_self
  · rw [hSecond]
    exact mem_cons_of_mem _ mem_cons_self

lemma tablesFit_forkTables (hMore : 1 < count) (hCount : (count + 1) * 13 < 2 ^ 32) :
    TablesFit (forkTables count target) forkGrammar 3 where
  tokens := by decide
  symbols := by decide
  states := by
    show count + 1 < 2 ^ 32
    omega
  offsets := by
    -- no small row is longer than three entries for each symbol and its count
    rcases length_newRawTable (@indicesInRange_forkTables count target hMore) with
      ⟨hLength, hRows⟩
    refine lt_of_le_of_lt (length_flatten_smallRows (fun row hRow => hRows row (mem_of_mem_drop
      hRow)) (by decide) 3) (lt_of_le_of_lt (Nat.mul_le_mul_right _ ?_) hCount)
    rw [length_drop, hLength]
    exact Nat.sub_le _ _
  productions := by
    intro prod hProd
    cases hProd

/- With few states the shifts are told apart. -/
lemma distinguished_forkTables : Distinguished (forkTables 3 2) forkGrammar 3 where
  shifts := by
    intro actions action target hList hAction hKind
    rcases list_forkTables hList with rfl | rfl
    · rw [mem_singleton.mp hAction] at hKind
      cases hKind
      decide
    rw [mem_singleton.mp hAction] at hKind
    cases hKind
    decide
  gotos := by
    intro state place target _ _ _ hGet
    rw [goto_forkTables hGet]
    decide
  keys := by
    intro actions others hActions hOthers hKey
    rcases list_forkTables hActions with rfl | rfl
    · rcases list_forkTables hOthers with rfl | rfl
      · rfl
      · exact absurd hKey (by decide)
    rcases list_forkTables hOthers with rfl | rfl
    · exact absurd hKey (by decide)
    · rfl

theorem buildParseTables_decodes_back_fork :
    ∃ out : Language,
      buildParseTables {} (forkTables 3 2) forkGrammar 3 = .ok out ∧
        DecodesBack (forkTables 3 2) forkGrammar 3 out := by
  rcases @buildParseTables_forkTables 3 2 (by decide) with ⟨out, hBuild⟩
  refine ⟨out, hBuild, ?_⟩
  exact (buildParseTables_decodes_back_iff {} out (forkTables 3 2) forkGrammar 3
    (tablesFit_forkTables (by decide) (by decide)) rfl hBuild).mpr distinguished_forkTables

/- A shift to state 65537 is found as one to state 1. -/
theorem fork_shift_decodes_to_other_state :
    ∃ out : Language,
      buildParseTables {} (forkTables 65538 65537) forkGrammar 3 = .ok out ∧
        TablesFit (forkTables 65538 65537) forkGrammar 3 ∧
        ¬ DecodesBack (forkTables 65538 65537) forkGrammar 3 out := by
  rcases @buildParseTables_forkTables 65538 65537 (by decide) with ⟨out, hBuild⟩
  have hFit : TablesFit (forkTables 65538 65537) forkGrammar 3 :=
    tablesFit_forkTables (by decide) (by decide)
  refine ⟨out, hBuild, hFit, fun hDecodes => ?_⟩
  have hKinds := (distinguished_of_decodesBack hFit rfl hBuild hDecodes).keys
      [{ kind := .shift 1 }] [{ kind := .shift 65537 }]
      ⟨0, 1, by decide, by decide, by decide, rfl, by simp⟩
      ⟨0, 2, by decide, by decide, by decide, rfl, by simp⟩
      (by decide)
  exact absurd hKinds (by decide)

end GoTreeSitter.Grammargen
