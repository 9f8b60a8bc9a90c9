import GoTreeSitter.Grammargen.LrTables
import GoTreeSitter.Language.Lookup

/-
  The parse tables of a language from those of the compiler.

  Key definitions include:
    * `NormalizedGrammar`
    * `serializeActions`
    * `getOrAddActionGroup`

  Symbols are numbers, terminals before nonterminals, and a rule is a list of productions of its
  symbol. Lists of actions are numbered by a key of bytes, and the cells of the tables hold these
  numbers and the targets of gotos. States are renumbered from 1 on. The first states get dense rows
  and the others are grouped by value.
-/

namespace GoTreeSitter.Grammargen

/- A production of a grammar. -/
structure Production where
  lhs : Int
  rhs : List Int
  dynPrec : Int := 0
  productionID : Int := 0
  isExtra : Bool := false
  deriving DecidableEq, Inhabited

/- A grammar of productions over numbered symbols. -/
structure NormalizedGrammar where
  grammarName : String := ""
  symbolCount : Nat
  productions : List Production
  extraSymbols : List Int := []

namespace NormalizedGrammar

/- The production of a number. -/
def production (ng : NormalizedGrammar) (prodIdx : Int) : Production :=
  ng.productions.getD prodIdx.toNat default

end NormalizedGrammar

-- Keys of Actions

variable (tables : LrTables) (ng : NormalizedGrammar) (tokenCount state : Nat) (row : List UInt32)

/- The low byte of a number. -/
def lowByte (value : Int) : UInt8 := UInt8.ofNat (value % 256).toNat

/- The two low bytes of a number, the higher one first. -/
def lowBytes (value : Int) : List UInt8 := [lowByte (value / 256), lowByte value]

def flagByte (flag : Bool) : UInt8 :=
  if flag then 1 else 0

/- The key of an action, from what its entry will hold. -/
def serializeAction (action : LrAction) : List UInt8 :=
  match action.kind with
  | .shift state => [0, flagByte action.isExtra, flagByte action.repeats] ++ lowBytes state
  | .reduce =>
    let prod := ng.production action.prodIdx
    [1, flagByte action.isExtra, flagByte action.repeats] ++ (lowBytes prod.lhs ++ ([lowByte
      prod.rhs.length] ++ (lowBytes prod.dynPrec ++ (lowBytes prod.productionID ++ [flagByte
      prod.isExtra]))))
  | .accept => [2]

def serializeActions (actions : List LrAction) : List UInt8 :=
  actions.flatMap (serializeAction ng)

/- The entry of an action, before states are renumbered. -/
def entryAction (action : LrAction) : ParseAction :=
  match action.kind with
  | .shift state =>
    { type := parseActionShift
      state := UInt32.ofNat state
      repetition := action.repeats
      extra := action.isExtra && state == 0
      extraChain := action.isExtra && state != 0 }
  | .reduce =>
    let prod := ng.production action.prodIdx
    { type := parseActionReduce
      symbol := UInt16.ofNat (prod.lhs % 65536).toNat
      childCount := UInt8.ofNat prod.rhs.length
      dynamicPrecedence := Int16.ofInt prod.dynPrec
      productionID := UInt16.ofNat (prod.productionID % 65536).toNat
      extra := prod.isExtra }
  | .accept => { type := parseActionAccept }

-- Action Groups

def maxUint16Index : Nat := 65535

/- The error of an index that does not fit. -/
def checkUint16Index (grammarName field : String) (value : Nat) : Option String :=
  if value > maxUint16Index then
    let name := grammarName.quote
    some s!"grammar {name}: {field} index {value} exceeds the uint16 table limit of {maxUint16Index}; the grammar is too large to encode with this parser ABI — reduce its rule/alias/state count or split it into smaller grammars"
  else
    none

/- The entries so far, the number of each key and an error. -/
structure ActionGroups where
  parseActions : List ParseActionEntry
  actionGroupMap : List (List UInt8 × Nat) := []
  indexErr : Option String := none

/- The number of a list of actions. -/
def getOrAddActionGroup (groups : ActionGroups) (actions : List LrAction) : UInt16 × ActionGroups :=
  if actions = [] then
    (0, groups)
  else
    let key := serializeActions ng actions
    match groups.actionGroupMap.lookup key with
    | some idx => (UInt16.ofNat idx, groups)
    | none =>
      let idx := groups.parseActions.length
      match checkUint16Index ng.grammarName
          "parse action group" idx with
      | some err =>
        (0, { groups with
          indexErr := groups.indexErr.or (some err) })
      | none =>
        (UInt16.ofNat idx,
          { groups with
            parseActions := groups.parseActions
              ++ [{ actions := actions.map (entryAction ng) }]
            actionGroupMap := (key, idx) :: groups.actionGroupMap })

/- The shift of an extra symbol in any state. -/
def extraEntry : ParseActionEntry where
  actions := [{ type := parseActionShift, extra := true }]

/- The number of the shift of extras, or 0. -/
def extraShiftIdx : UInt32 :=
  if ng.extraSymbols = [] then 0 else 1

/- The first entry is that of an error. -/
def initialGroups : ActionGroups where
  parseActions :=
    if ng.extraSymbols = [] then [{}] else [{}, extraEntry]

-- Raw Table

/- The terminals of a state with actions, in order. -/
def terminalSyms : List Int :=
  ((tables.actionTable state).keys.filter (fun sym : Int => sym < tokenCount)).sort (· ≤ ·)

/- The nonterminals of a state with gotos, in order. -/
def gotoSyms (symbolCount state : Nat) : List Int :=
  ((tables.gotoTable state).keys.filter (fun sym : Int => (tokenCount : Int) ≤ sym
      ∧ sym < symbolCount)).sort (· ≤ ·)

/- The number of a list of actions goes into its cell. -/
def writeAction (actions : Int → List LrAction) (row : List UInt32 × ActionGroups) (sym : Int) :
    List UInt32 × ActionGroups :=
  let number := getOrAddActionGroup ng row.2 (actions sym)
  (row.1.set sym.toNat number.1.toUInt32, number.2)

/- An extra terminal without an action is shifted. -/
def writeExtra (sym : Int) : List UInt32 :=
  if (tokenCount : Int) ≤ sym then
    row
  else if row[sym.toNat]? = some 0 then
    row.set sym.toNat (extraShiftIdx ng)
  else
    row

/- The target of a goto goes into its cell. -/
def writeGoto (gotos : Int → Nat) (row : List UInt32) (sym : Int) : List UInt32 :=
  row.set sym.toNat (UInt32.ofNat (gotos sym))

/- The cells of a state. -/
def rawRow (groups : ActionGroups) (state : Nat) : List UInt32 × ActionGroups :=
  let actions := fun sym =>
    ((tables.actionTable state).get sym).getD []
  let gotos := fun sym =>
    ((tables.gotoTable state).get sym).getD 0
  let written := (terminalSyms tables tokenCount state).foldl (writeAction ng actions)
      (List.replicate ng.symbolCount 0, groups)
  let row := ng.extraSymbols.foldl (writeExtra ng tokenCount) written.1
  ((gotoSyms tables tokenCount ng.symbolCount state).foldl (writeGoto gotos) row, written.2)

/- The cells of all states. -/
def rawTable : List (List UInt32) × ActionGroups :=
  (List.range tables.stateCount).foldl (fun built state =>
      let row := rawRow tables ng tokenCount built.2 state
      (built.1 ++ [row.1], row.2))
    ([], initialGroups ng)

-- Renumbered States

/- States are renumbered from 1 on. -/
def stateRemap : Nat := state + 1

/- The cells of a state with renumbered gotos. -/
def remapRow : List UInt32 := row.zipIdx.map (fun cell =>
    if cell.1 = 0 then
      0
    else if tokenCount ≤ cell.2 then
      UInt32.ofNat (stateRemap cell.1.toNat)
    else
      cell.1)

/- The first state is for error recovery. -/
def newRawTable (rows : List (List UInt32)) : List (List UInt32) :=
  List.replicate ng.symbolCount 0 :: rows.map (remapRow tokenCount)

def remapAction (stateCount : Nat) (action : ParseAction) : ParseAction :=
  if action.type = parseActionShift ∧ (action.extra = false ∨ action.state ≠ 0)
      ∧ action.state.toNat < stateCount then
    { action with
      state := UInt32.ofNat (stateRemap action.state.toNat) }
  else
    action

def remapEntry (stateCount : Nat) (entry : ParseActionEntry) : ParseActionEntry :=
  { entry with
    actions := entry.actions.map (remapAction stateCount) }

def nonZero : Nat := (row.filter (fun value => value ≠ 0)).length

/- Rows with more cells than the median go dense. -/
def denseThreshold (rows : List (List UInt32)) : Nat :=
  if rows = [] then
    1
  else
    let counts := (rows.map nonZero).insertionSort (fun a b => b ≤ a)
    max (counts.getD (rows.length / 2) 0 + 1) 2

/- The dense states, which are the first ones. -/
def largeStates (threshold : Nat) (newRows : List (List UInt32)) : Nat :=
  min (max (newRows.takeWhile (fun row => threshold ≤ nonZero row)).length 2) newRows.length

-- Dense and Small Rows

/- A goto that does not fit is left out of the table. -/
def downcastCell (sym : Nat) (value : UInt32) : UInt16 :=
  if tokenCount ≤ sym ∧ value.toNat > maxUint16Index then
    0
  else
    UInt16.ofNat value.toNat

/- The error of a cell whose number does not fit. -/
def cellError (cell : UInt32 × Nat) : Option String :=
  if tokenCount ≤ cell.2 then
    none
  else
    checkUint16Index ng.grammarName "parse table action/goto" cell.1.toNat

/- The gotos of a row that do not fit. -/
def rowLargeGotos (row : List UInt32 × Nat) : List ((StateID × Symbol) × StateID) :=
  row.1.zipIdx.filterMap (fun cell =>
    if tokenCount ≤ cell.2 ∧ cell.1.toNat > maxUint16Index then
      some ((UInt32.ofNat row.2, UInt16.ofNat cell.2), cell.1)
    else
      none)

def denseRow : List UInt16 := row.zipIdx.map (fun cell =>
    downcastCell tokenCount cell.2 cell.1)

/- The used cells of a row with their symbols. -/
def smallCells : List (UInt16 × UInt16) :=
  (row.zipIdx.map (fun cell =>
    (downcastCell tokenCount cell.2 cell.1, UInt16.ofNat cell.2))).filter (fun cell => cell.1 ≠ 0)

/- The symbols of each value of a row, in order. -/
def smallSections : List (UInt16 × List UInt16) :=
  let cells := smallCells tokenCount row
  ((cells.map Prod.fst).dedup.insertionSort (· ≤ ·)).map (fun value =>
    (value, ((cells.filter (fun cell =>
      cell.1 = value)).map Prod.snd).insertionSort (· ≤ ·)))

/- Sections with their values and sizes. -/
def encodeSections (sections : List (UInt16 × List UInt16)) : List UInt16 :=
  sections.flatMap (fun part =>
    part.1 :: UInt16.ofNat part.2.length :: part.2)

def smallRow : List UInt16 :=
  let parts := smallSections tokenCount row
  UInt16.ofNat parts.length :: encodeSections parts

/- The small rows one after another, with their offsets. -/
def buildSmallTable (rows : List (List UInt16)) : List UInt16 × List UInt32 :=
  rows.foldl (fun built row =>
      (built.1 ++ row, built.2 ++ [UInt32.ofNat built.1.length]))
    ([], [])

/- The lexer modes of the renumbered states. -/
def remapLexModes (lexModes : List LexMode) (stateCount : Nat) : List LexMode :=
  match lexModes with
  | [] => List.replicate (stateCount + 1) {}
  | first :: _ => first :: (List.range stateCount).map (fun state => lexModes.getD state {})

-- The Whole Build

/- The indices that are used lie in their ranges. With any other index the build does not return. -/
def IndicesInRange : Prop :=
  ∀ state ∈ List.range tables.stateCount, (∀ sym ∈ terminalSyms tables tokenCount state, 0 ≤ sym ∧
      sym < ng.symbolCount ∧ ∀ action ∈ ((tables.actionTable state).get sym).getD [], action.kind =
      .reduce → 0 ≤ action.prodIdx ∧ action.prodIdx < ng.productions.length) ∧ (∀ sym ∈
      ng.extraSymbols, sym < tokenCount → 0 ≤ sym ∧ sym < ng.symbolCount) ∧ ∀ sym ∈ gotoSyms tables
      tokenCount ng.symbolCount state, (UInt32.ofNat (((tables.gotoTable state).get sym).getD
      0)).toNat < tables.stateCount

instance (tables : LrTables) (ng : NormalizedGrammar) (tokenCount : Nat) : Decidable (IndicesInRange
    tables ng tokenCount) := by
  unfold IndicesInRange
  infer_instance

/- The tables of a language from the rows of its states. -/
def emitTables (lang : Language) (ng : NormalizedGrammar) (tokenCount : Nat)
    (rows : List (List UInt32)) (groups : ActionGroups) : Language :=
  let newRows := newRawTable ng tokenCount rows
  let large := largeStates (denseThreshold rows) newRows
  let small := buildSmallTable ((newRows.drop large).map (smallRow tokenCount))
  { lang with
    parseActions := groups.parseActions.map (remapEntry rows.length)
    parseTable := (newRows.take large).map (denseRow tokenCount)
    smallParseTable :=
      if large < newRows.length then small.1
      else lang.smallParseTable
    smallParseTableMap :=
      if large < newRows.length then small.2
      else lang.smallParseTableMap
    stateCount := UInt32.ofNat newRows.length
    largeStateCount := UInt32.ofNat large
    lexModes := remapLexModes lang.lexModes rows.length
    largeStateGotos := (newRows.zipIdx.flatMap
        (rowLargeGotos tokenCount)).reverse
        ++ lang.largeStateGotos }

def buildParseTables (lang : Language) (tables : LrTables) (ng : NormalizedGrammar)
    (tokenCount : Nat) : Except String Language :=
  if ¬ IndicesInRange tables ng tokenCount then
    .error "index out of range"
  else
    let built := rawTable tables ng tokenCount
    match built.2.indexErr with
    | some err => .error err
    | none =>
      match (newRawTable ng tokenCount built.1).findSome? (fun row =>
          row.zipIdx.findSome? (cellError ng tokenCount)) with
      | some err => .error err
      | none => .ok (emitTables lang ng tokenCount built.1 built.2)

/- The walk over the tables of a language. -/
def lookupActionIndexForLanguage (lang : Language) (state : StateID) (sym : Symbol) : UInt16 :=
  lang.linearActionIndex state sym

end GoTreeSitter.Grammargen
