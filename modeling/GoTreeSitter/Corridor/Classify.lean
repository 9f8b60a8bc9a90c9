import GoTreeSitter.Language.Table
import Mathlib.Algebra.Order.Ring.Nat

/-
  The table view of the corridor compiler, and its dispositions.

  Main declarations:
    * `CorridorTables`
    * `Opcode`
    * `ExitReason`
    * `CorridorTables.row_eq_rowAt`
    * `CorridorTables.Unfused.classifyCell_eq`

  Every populated cell of the table is mapped to one instruction body, before the stream offsets
  exist.
-/

-- Table View

namespace GoTreeSitter

/- The decoded tables of a language, with the gates of the two fused instructions. -/
structure CorridorTables where
  lang : Language
  denseLimit : Nat
  smallBase : Nat
  tokenCount : UInt32
  stateCount : Nat
  reduceChainEnabled : Bool
  reduceShiftEnabled : Bool

variable (t : CorridorTables) (state : StateID)

/- The gates that the environment sets. -/
structure CorridorGates where
  reduceChain : Bool := false
  reduceShift : Bool := false

/- The number of states of a language. -/
def Language.corridorStateCount (lang : Language) : Nat :=
  if lang.stateCount.toNat = 0 then
    max (max lang.parseTable.length (lang.largeStateCount.toNat + lang.smallParseTableMap.length))
      lang.lexModes.length
  else
    lang.stateCount.toNat

/- Open the tables of a language. -/
def newCorridorTables (lang : Language) (gates : CorridorGates) : Except String CorridorTables :=
  if lang.corridorStateCount = 0 then
    .error "parser-core corridor: language has no parser states"
  else if lang.tokenCount = 0 then
    .error "parser-core corridor: language has no terminal symbol ceiling"
  else
    .ok
      { lang := lang
        denseLimit := lang.denseLimit
        smallBase := lang.largeStateCount.toNat
        tokenCount := lang.tokenCount
        stateCount := lang.corridorStateCount
        reduceChainEnabled := gates.reduceChain
        reduceShiftEnabled := gates.reduceShift }

namespace CorridorTables

variable {t : CorridorTables}

/- The pairs of a state that has no dense row. -/
def smallPairs (t : CorridorTables) (state : StateID) : List (Symbol × UInt16) :=
  if state.toNat < t.smallBase then
    []
  else
    t.lang.smallPairs (state.toNat - t.smallBase)

/-
  The action index of a cell, or 0. The walk over a small state returns at the first pair with the
  symbol.
-/
def actionIndex (sym : Symbol) : UInt16 :=
  if state.toNat < t.denseLimit then
    ((t.lang.parseTable.getD state.toNat [])[sym.toNat]?).getD 0
  else
    match (t.smallPairs state).find? (fun pair => pair.1 == sym) with
    | some pair => pair.2
    | none => 0

/- The populated keys of a state with their action indices, in ascending symbol order. -/
def forEachKey : List (Symbol × UInt16) :=
  if state.toNat < t.denseLimit then
    ((t.lang.parseTable.getD state.toNat []).zipIdx.filter (fun cell => cell.1 != 0)).map
      (fun cell => (UInt16.ofNat cell.2, cell.1))
  else
    (t.smallPairs state).insertionSort (fun a b => a.1 ≤ b.1)

/- The decoded row at an action index. -/
def rowAt (idx : UInt16) : Except String ActionRow :=
  if idx = 0 then
    .ok {}
  else
    match t.lang.parseActions[idx.toNat]? with
    | none => .ok {}
    | some entry =>
      if entry.actions = [] then
        .ok {}
      else
        match entry.actions.mapM parserCoreAction with
        | .error err => .error err
        | .ok converted =>
          .ok
            { actions := converted
              reusable := entry.reusable }

/- The decoded row of a cell, with its action index. -/
def row (t : CorridorTables) (state : StateID) (sym : Symbol) :
    Except String (ActionRow × UInt16) :=
  let idx := t.actionIndex state sym
  match t.rowAt idx with
  | .error err => .error err
  | .ok row => .ok (row, idx)

/- The state has a row of external tokens. -/
def externalState : Bool :=
  if t.lang.externalSymbols = [] then
    false
  else if t.lang.externalLexStates ≠ [] then
    match t.lang.lexModes[state.toNat]? with
    | none => false
    | some mode =>
      if mode.externalLexState = 0 then
        false
      else
        (t.lang.externalLexStates.getD mode.externalLexState.toNat []).any id
  else
    t.lang.externalSymbols.any (fun sym => t.actionIndex state sym != 0)

/- The state carries a reserved-word set. -/
def reservedWordState : Bool :=
  if t.lang.reservedWords = [] ∨ t.lang.maxReservedWordSetSize = 0 then
    false
  else
    match t.lang.lexModes[state.toNat]? with
    | none => false
    | some mode => mode.reservedWordSetID != 0

-- Gotos and Predecessors

/- The goto of a state on a symbol, or 0. -/
def gotoTarget (sym : Symbol) : StateID :=
  let lang := t.lang
  let nonterminal := decide (lang.tokenCount > 0) && decide (sym.toUInt32 ≥ lang.tokenCount)
  let large := lang.lookupLargeStateGoto state sym
  if nonterminal ∧ large ≠ 0 then
    large
  else
    let raw := t.actionIndex state sym
    if raw = 0 then
      0
    else if nonterminal ∧ lang.stateCount > 0 ∧ lang.initialState > 0 then
      raw.toUInt32
    else
      match lang.parseActions[raw.toNat]? with
      | some { actions := action :: _, .. } =>
        if action.type = parseActionShift then
          action.state
        else
          0
      | _ => 0

/- The state that one key of a state leads to, or 0. -/
def edgeTarget (key : Symbol × UInt16) : StateID :=
  if key.1.toUInt32 ≥ t.tokenCount then
    t.gotoTarget state key.1
  else
    match t.lang.parseActions[key.2.toNat]? with
    | none => 0
    | some entry =>
      match entry.actions.find? (fun action =>
          action.type == parseActionShift) with
      | none => 0
      | some action => action.state

/-
  The states with a key that leads to `target`, ascending.
  State 0 and states outside the table have no edges.
-/
def predecessorEdges (target : StateID) : List StateID :=
  if target = 0 ∨ target.toNat ≥ t.stateCount then
    []
  else
    ((List.range t.stateCount).map UInt32.ofNat).filter (fun state =>
        (t.forEachKey state).any (fun key => t.edgeTarget state key == target))

-- Keys and Rows

/- Every populated cell is visited as a key. -/
lemma mem_forEachKey_of_actionIndex {state : StateID} {sym : Symbol}
    (hIndex : t.actionIndex state sym ≠ 0) :
    sym ∈ (t.forEachKey state).map Prod.fst := by
  unfold actionIndex at hIndex
  unfold forEachKey
  split_ifs at hIndex ⊢ with hDense
  · cases hCell : (t.lang.parseTable.getD state.toNat [])[sym.toNat]? with
    | none =>
      rw [hCell] at hIndex
      exact absurd rfl hIndex
    | some idx =>
      rw [hCell] at hIndex
      have hNonzero : (idx != 0) := by simpa using hIndex
      have hMem : (idx, sym.toNat) ∈ (t.lang.parseTable.getD state.toNat []).zipIdx :=
        List.mk_mem_zipIdx_iff_getElem?.mpr hCell
      rw [List.map_map, List.mem_map]
      exact ⟨(idx, sym.toNat), List.mem_filter.mpr ⟨hMem, hNonzero⟩, UInt16.ofNat_toNat⟩
  · cases hFind : (t.smallPairs state).find? (fun pair => pair.1 == sym) with
    | none =>
      rw [hFind] at hIndex
      exact absurd rfl hIndex
    | some pair =>
      have hSym : pair.1 = sym := by simpa using List.find?_some hFind
      have hMem : pair ∈ t.smallPairs state := List.mem_of_find?_eq_some hFind
      rw [List.mem_map]
      exact ⟨pair, (List.mem_insertionSort _).mpr hMem, hSym⟩

/- The row of a cell is the row at its action index. -/
lemma row_eq_rowAt {state : StateID} {sym : Symbol} {row : ActionRow} {idx : UInt16}
    (hRow : t.row state sym = .ok (row, idx)) :
    idx = t.actionIndex state sym ∧ t.rowAt idx = .ok row := by
  unfold CorridorTables.row at hRow
  dsimp only at hRow
  cases hAt : t.rowAt (t.actionIndex state sym) with
  | error err => simp [hAt] at hRow
  | ok decoded =>
    rw [hAt] at hRow
    cases hRow
    exact ⟨rfl, hAt⟩

lemma rowAt_index_ne_zero {idx : UInt16} {row : ActionRow} (hRow : t.rowAt idx = .ok row)
    (hActions : row.actions ≠ []) :
    idx ≠ 0 := by
  intro hZero
  rw [CorridorTables.rowAt, if_pos hZero] at hRow
  cases hRow
  exact hActions rfl

end CorridorTables

end GoTreeSitter

-- Instruction Set

namespace GoTreeSitter

variable (t : CorridorTables) (sym : Symbol) (row : ActionRow)

/- The opcodes of the corridor. -/
inductive Opcode where
| halt
| expect
| shift
| shiftExtra
| reduce
| accept
| fork
| exitGeneric
| exitUnsupported
| checkpoint
| reduceChain
| reduceShift
  deriving DecidableEq

namespace Opcode

/- The opcodes in the order of their codes. -/
def all : List Opcode := [.halt, .expect, .shift, .shiftExtra, .reduce, .accept, .fork,
    .exitGeneric, .exitUnsupported, .checkpoint, .reduceChain, .reduceShift]

/- The code in the low six bits of a word. -/
def code : Opcode → UInt32
| .halt => 0
| .expect => 1
| .shift => 2
| .shiftExtra => 3
| .reduce => 4
| .accept => 5
| .fork => 6
| .exitGeneric => 7
| .exitUnsupported => 8
| .checkpoint => 9
| .reduceChain => 10
| .reduceShift => 11

/- The opcode of a code, if there is one. -/
def ofCode (code : UInt32) : Option Opcode := all[code.toNat]?

/- The name of an opcode. -/
def name : Opcode → String
| .halt => "HALT"
| .expect => "EXPECT"
| .shift => "SHIFT"
| .shiftExtra => "SHIFT_EXTRA"
| .reduce => "REDUCE"
| .accept => "ACCEPT"
| .fork => "FORK"
| .exitGeneric => "EXIT_GENERIC"
| .exitUnsupported => "EXIT_UNSUPPORTED"
| .checkpoint => "CHECKPOINT"
| .reduceChain => "REDUCE_CHAIN"
| .reduceShift => "REDUCE_SHIFT"

/- The name of a code, known or not. -/
def nameOfCode (code : UInt32) : String :=
  match ofCode code with
  | some op => op.name
  | none => s!"OPCODE({code})"

/- The mask of the opcode field. -/
def mask : UInt32 := 0x3F

lemma ofCode_code (op : Opcode) : ofCode op.code = some op := by cases op <;> rfl

lemma code_lt (op : Opcode) : op.code.toNat < 2 ^ 6 := by cases op <;> decide

end Opcode

/- Why the corridor is left. -/
inductive ExitReason where
| noCell
| repetitionSelectable
| conflictRow
| unsupportedRow
| zeroWidthShift
| extraChain
| recoverAction
  deriving DecidableEq

namespace ExitReason

/- The reasons in the order of their codes. -/
def all : List ExitReason := [.noCell, .repetitionSelectable, .conflictRow, .unsupportedRow,
    .zeroWidthShift, .extraChain, .recoverAction]

/- The code of a reason. -/
def code : ExitReason → UInt32
| .noCell => 0
| .repetitionSelectable => 1
| .conflictRow => 2
| .unsupportedRow => 3
| .zeroWidthShift => 4
| .extraChain => 5
| .recoverAction => 6

/- The name of a reason. -/
def name : ExitReason → String
| .noCell => "no-cell"
| .repetitionSelectable => "repetition-selectable"
| .conflictRow => "conflict-row"
| .unsupportedRow => "unsupported-row"
| .zeroWidthShift => "zero-width-shift"
| .extraChain => "extra-chain"
| .recoverAction => "recover-action"

/- The name of a code, known or not. -/
def nameOfCode (code : UInt32) : String :=
  match all[code.toNat]? with
  | some reason => reason.name
  | none => s!"reason({code})"

lemma code_lt (reason : ExitReason) : reason.code.toNat < 2 ^ 6 := by cases reason <;> decide

end ExitReason

/- The symbolic form of one instruction body. -/
structure BodyKind where
  op : Opcode
  targetState : UInt32 := 0
  selfLoop : Bool := false
  prod : UInt16 := 0
  lhs : UInt16 := 0
  childCount : UInt8 := 0
  gotoMode : UInt32 := 0
  rowIndex : UInt32 := 0
  chainRowIndex : UInt32 := 0
  shiftRowIndex : UInt32 := 0
  reason : ExitReason := .noCell
  deriving DecidableEq

/- The goto modes of a reduction. -/
def gotoModeIndexed : UInt32 := 0
def gotoModeStatic : UInt32 := 1

/- The number of words of a body. -/
def BodyKind.words (body : BodyKind) : Nat :=
  match body.op with
  | .shift => 2
  | .shiftExtra => 2
  | .reduce => 3
  | .reduceChain => 3
  | .reduceShift => 3
  | .accept => 2
  | .fork => 1
  | .exitGeneric => 1
  | .exitUnsupported => 1
  | _ => 0

-- Static Selections

/- The languages that keep the repetition fork. -/
def cRepetitionSkipOptOut : List String :=
  ["dart", "c", "haskell", "c_sharp"]

/- The languages without the repetition fold. -/
def repetitionFoldOptOut : List String :=
  ["markdown_inline"]

/- The walk of the probe below: `reduceFound` and `shiftFound` say what the actions before held. -/
def singleReduceRepetitionShiftLoop : List Action → Bool → Bool → Bool
| [], reduceFound, shiftFound => reduceFound && shiftFound
| action :: rest, reduceFound, shiftFound =>
  match action.type with
  | .reduce => !reduceFound && singleReduceRepetitionShiftLoop rest true shiftFound
  | .shift =>
    (action.repetition && !shiftFound) && singleReduceRepetitionShiftLoop rest reduceFound true
  | _ => false

/-
  The row is one reduction and one repetition shift. The source also returns which of them is the
  reduction.
-/
def singleReduceRepetitionShift : Bool :=
  singleReduceRepetitionShiftLoop row.actions false false

namespace CorridorTables

variable {t : CorridorTables}

/- The generic lane selects an action of the row. -/
def repetitionSelectable : Bool :=
  let name := t.lang.name
  let fold := !(decide (row.actions.length < 2) || cRepetitionSkipOptOut.contains name ||
      repetitionFoldOptOut.contains name) && singleReduceRepetitionShift row
  fold || (singleReduceRepetitionShift row && cRepetitionSkipOptOut.contains name)

/- Why a row is unsupported: the first telling action. -/
def unsupportedReason : List Action → ExitReason
| [] => .unsupportedRow
| action :: rest =>
  if action.extraChain then
    .extraChain
  else if action.type = .recover then
    .recoverAction
  else if action.repetition then
    .repetitionSelectable
  else
    unsupportedReason rest

-- Fused Candidates

/- The value that `landing` gives on every edge, if it gives the same one on all of them. -/
def landingOnEdges {α : Type} [DecidableEq α] (landing : StateID → Option α) :
    List StateID → Option α
| [] => none
| edge :: edges =>
  match landing edge with
  | none => none
  | some value =>
    if edges.all (fun edge => landing edge == some value) then
      some value
    else
      none

/-
  The landing state and row index of a chain over one edge.
  The landing row must be a sole unary reduction.
-/
def chainLanding (lhs : Symbol) (predecessor : StateID) : Option (StateID × UInt16) :=
  let landing := t.gotoTarget predecessor lhs
  if landing = 0 ∨ landing.toNat ≥ t.stateCount then
    none
  else
    match t.row landing sym with
    | .error _ => none
    | .ok (next, nextIndex) =>
      match next.kind, next.actions with
      | .reduce, [second] =>
        if second.childCount = 1 then
          some (landing, nextIndex)
        else
          none
      | _, _ => none

/- A chain of two unary reductions, fixed on all edges. -/
def reduceChainCandidate (state : StateID) (sym : Symbol) (row : ActionRow) (rowIndex : UInt16) :
    Option BodyKind :=
  match t.reduceChainEnabled, row.kind, row.actions with
  | true, .reduce, [first] =>
    if first.childCount ≠ 1 then
      none
    else
      match landingOnEdges (t.chainLanding sym first.symbol) (t.predecessorEdges state) with
      | none => none
      | some (landingState, chainRowIndex) =>
        some
          { op := .reduceChain
            targetState := landingState
            rowIndex := rowIndex.toUInt32
            chainRowIndex := chainRowIndex.toUInt32 }
  | _, _, _ => none

/- The landing state, row index and shift target of a reduce-then-shift over one edge. -/
def shiftLanding (lhs : Symbol) (predecessor : StateID) : Option (StateID × UInt16 × StateID) :=
  let landingState := t.gotoTarget predecessor lhs
  if landingState = 0 ∨ landingState.toNat ≥ t.stateCount then
    none
  else
    match t.row landingState sym with
    | .error _ => none
    | .ok (landing, landingIndex) =>
      match landing.kind, landing.actions with
      | .shift, [action] => some (landingState, landingIndex, action.state)
      | _, _ => none

/-
  A reduction and then a shift, fixed on all edges. Unlike the chain, the number of children of the
  reduction is not looked at, and neither is the kind of the row.
-/
def reduceShiftCandidate (state : StateID) (sym : Symbol) (row : ActionRow) (rowIndex : UInt16) :
    Option BodyKind :=
  match t.reduceShiftEnabled, row.actions with
  | true, [action] =>
    match landingOnEdges (t.shiftLanding sym action.symbol) (t.predecessorEdges state) with
    | none => none
    | some (_, shiftRowIndex, shiftTarget) =>
      some
        { op := .reduceShift
          targetState := shiftTarget
          rowIndex := rowIndex.toUInt32
          shiftRowIndex := shiftRowIndex.toUInt32 }
  | _, _ => none

-- Classification

/- The disposition of one decoded cell. -/
def classifyCell (state : StateID) (sym : Symbol) (row : ActionRow) (rowIndex : UInt16) :
    BodyKind :=
  match row.kind, row.actions with
  | .empty, _ => { op := .exitGeneric, reason := .noCell }
  | .shift, action :: _ =>
    { op := .shift
      targetState := action.state
      rowIndex := rowIndex.toUInt32 }
  | .extraShift, action :: _ =>
    { op := .shiftExtra
      targetState := action.state
      selfLoop := decide (action.state = 0) ||
          decide (action.state = state)
      rowIndex := rowIndex.toUInt32 }
  | .reduce, action :: _ =>
    match t.reduceShiftCandidate state sym row rowIndex with
    | some candidate => candidate
    | none =>
      match t.reduceChainCandidate state sym row rowIndex with
      | some candidate => candidate
      | none =>
        { op := .reduce
          prod := action.productionID
          lhs := action.symbol
          childCount := action.childCount
          gotoMode := gotoModeIndexed
          rowIndex := rowIndex.toUInt32 }
  | .accept, _ => { op := .accept, rowIndex := rowIndex.toUInt32 }
  | .conflict, _ =>
    { op := .fork
      rowIndex := rowIndex.toUInt32
      reason := .conflictRow }
  | .unsupported, actions =>
    if t.repetitionSelectable row then
      { op := .exitGeneric
        reason := .repetitionSelectable }
    else
      { op := .exitUnsupported
        rowIndex := rowIndex.toUInt32
        reason := unsupportedReason actions }
  | _, [] =>
    { op := .exitUnsupported
      reason := .unsupportedRow }

/- The opcode that the kind of a row dictates when the fused instructions are off. -/
def dictatedOpcode : Opcode :=
  match row.kind with
  | .empty => .exitGeneric
  | .shift => .shift
  | .extraShift => .shiftExtra
  | .reduce => .reduce
  | .accept => .accept
  | .conflict => .fork
  | .unsupported =>
    if t.repetitionSelectable row then
      .exitGeneric
    else
      .exitUnsupported

/- The gates of both fused instructions are off. -/
structure Unfused (t : CorridorTables) : Prop where
  chain : t.reduceChainEnabled = false
  shift : t.reduceShiftEnabled = false

/- Without gates, nothing is fused. -/
lemma unfused_of_newCorridorTables {lang : Language} (hTables : newCorridorTables lang {} = .ok t) :
    t.Unfused := by
  unfold newCorridorTables at hTables
  repeat' split at hTables
  all_goals cases hTables
  exact ⟨rfl, rfl⟩

variable (h : t.Unfused) (state : StateID) (sym : Symbol) (row : ActionRow) (rowIndex : UInt16)

include h

/- Without its gate, the fused shift is not tried. -/
lemma Unfused.reduceShiftCandidate : t.reduceShiftCandidate state sym row rowIndex = none := by
  unfold CorridorTables.reduceShiftCandidate
  rw [h.shift]

/- Without its gate, the fused chain is not tried. -/
lemma Unfused.reduceChainCandidate : t.reduceChainCandidate state sym row rowIndex = none := by
  unfold CorridorTables.reduceChainCandidate
  rw [h.chain]

/- The state of a cell shows in its body only through the self-loop mark. -/
lemma Unfused.classifyCell_eq :
    ∃ selfLoop,
      t.classifyCell state sym row rowIndex =
        {t.classifyCell 0 0 row rowIndex with selfLoop := selfLoop } := by
  refine ⟨(t.classifyCell state sym row rowIndex).selfLoop, ?_⟩
  unfold classifyCell
  simp only [h.reduceShiftCandidate, h.reduceChainCandidate]
  cases row.kind <;> cases row.actions <;> try rfl

end CorridorTables

end GoTreeSitter
