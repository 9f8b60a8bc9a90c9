import Mathlib.Data.List.Sort

/-
  The parse tables of a language.

  Key definitions include:
    * `ParseAction`
    * `Language`

  Large states keep their row of the table as a list indexed by symbols. Small states share a list
  of sections, where one value stands for a group of symbols.
-/

-- Language Data

namespace GoTreeSitter

/- A grammar symbol.  Terminals come before nonterminals. -/
abbrev Symbol : Type := UInt16

/- A state of the parser. -/
abbrev StateID : Type := UInt32

/- An action of the parse table, as it is stored. -/
structure ParseAction where
  type : UInt8
  state : StateID := 0
  symbol : Symbol := 0
  childCount : UInt8 := 0
  dynamicPrecedence : Int16 := 0
  productionID : UInt16 := 0
  extra : Bool := false
  extraChain : Bool := false
  repetition : Bool := false
  deriving DecidableEq

/- The codes of the action types. -/
def parseActionShift : UInt8 := 0
def parseActionReduce : UInt8 := 1
def parseActionAccept : UInt8 := 2
def parseActionRecover : UInt8 := 3

/- The actions of one table cell. -/
structure ParseActionEntry where
  reusable : Bool := false
  actions : List ParseAction := []
  deriving DecidableEq

/- The lexer configuration of a parser state. -/
structure LexMode where
  externalLexState : UInt16 := 0
  reservedWordSetID : UInt16 := 0

/- The part of a language that the parser tables are decoded from. -/
structure Language where
  name : String := ""
  stateCount : UInt32 := 0
  largeStateCount : UInt32 := 0
  symbolCount : UInt32 := 0
  tokenCount : UInt32 := 0
  generatedByGrammargen : Bool := false
  initialState : StateID := 0
  parseTable : List (List UInt16) := []
  smallParseTable : List UInt16 := []
  smallParseTableMap : List UInt32 := []
  parseActions : List ParseActionEntry := []
  lexModes : List LexMode := []
  externalSymbols : List Symbol := []
  externalLexStates : List (List Bool) := []
  reservedWords : List Symbol := []
  maxReservedWordSetSize : UInt16 := 0
  largeStateGotos : List ((StateID × Symbol) × StateID) := []

namespace Language

/- The states below this bound have a dense table row. -/
def denseLimit (lang : Language) : Nat :=
  if lang.largeStateCount > 0 then
    lang.largeStateCount.toNat
  else
    lang.parseTable.length

/- A goto of the side map, or 0. -/
def lookupLargeStateGoto (lang : Language) (state : StateID) (sym : Symbol) : StateID :=
  (lang.largeStateGotos.lookup (state, sym)).getD 0

/-
  The (symbol, value) pairs of a number of sections of the small table, in table order. A section
  holds its value, the number of its symbols, and the symbols; the walk stops where the table ends.
-/
def sectionPairs (table : List UInt16) : Nat → Nat → List (Symbol × UInt16)
| 0, _ => []
| groups + 1, pos =>
  match table[pos]?, table[pos + 1]? with
  | some sectionValue, some symbolCount =>
    let syms := (table.drop (pos + 2)).take symbolCount.toNat
    syms.map (fun sym => (sym, sectionValue)) ++ sectionPairs table groups (pos + 2 + syms.length)
  | _, _ => []

/- The pairs of a small state, in table order. -/
def smallPairs (lang : Language) (smallIdx : Nat) : List (Symbol × UInt16) :=
  match lang.smallParseTableMap[smallIdx]? with
  | none => []
  | some offset =>
    match lang.smallParseTable[offset.toNat]? with
    | none => []
    | some groupCount => sectionPairs lang.smallParseTable groupCount.toNat (offset.toNat + 1)

end Language

-- Decoded Action Rows

/- The types of a decoded action. -/
inductive ActionType where
| shift
| reduce
| accept
| recover
  deriving DecidableEq

/- A decoded action. -/
structure Action where
  type : ActionType
  state : StateID
  symbol : Symbol
  childCount : UInt8
  dynamicPrecedence : Int16
  productionID : UInt16
  extra : Bool
  extraChain : Bool
  repetition : Bool
  deriving DecidableEq

/- Decode the type of an action, if it is known. -/
def ActionType.ofCode (code : UInt8) : Option ActionType :=
  if code = parseActionShift then some .shift
  else if code = parseActionReduce then some .reduce
  else if code = parseActionAccept then some .accept
  else if code = parseActionRecover then some .recover
  else none

/- Decode one action of the table. -/
def parserCoreAction (action : ParseAction) : Except String Action :=
  match ActionType.ofCode action.type with
  | none =>
    let type := action.type
    .error s!"parser-core phase zero: unknown root action type {type}"
  | some type =>
    .ok
      { type := type
        state := action.state
        symbol := action.symbol
        childCount := action.childCount
        dynamicPrecedence := action.dynamicPrecedence
        productionID := action.productionID
        extra := action.extra
        extraChain := action.extraChain
        repetition := action.repetition }

/- What a row of actions asks the parser to do. -/
inductive ActionRowKind where
| empty
| shift
| extraShift
| reduce
| accept
| conflict
| unsupported
  deriving DecidableEq

/- The type of the only action of a row of this kind. -/
def ActionRowKind.soleType : ActionRowKind → Option ActionType
| .shift => some .shift
| .extraShift => some .shift
| .reduce => some .reduce
| .accept => some .accept
| _ => none

/- A decoded cell of the table. -/
structure ActionRow where
  actions : List Action := []
  reusable : Bool := false
  deriving DecidableEq

/- An action that makes a row with `len` actions unsupported. -/
def Action.unsupportedIn (action : Action) (len : Nat) : Bool :=
  action.repetition || action.extraChain || action.type == .recover || (action.extra && (len != 1 ||
    action.type != .shift)) || (action.type == .accept && len != 1)

/- The kind of a row. -/
def describeActionRow (actions : List Action) : ActionRowKind :=
  match actions with
  | [] => .empty
  | action :: rest =>
    if actions.any (fun a => a.unsupportedIn actions.length) then
      .unsupported
    else if rest ≠ [] then
      .conflict
    else
      match action.type with
      | .shift =>
        if action.extra then .extraShift else .shift
      | .reduce => .reduce
      | .accept => .accept
      | .recover => .unsupported

/- The kind of a row, as its descriptor records it. -/
def ActionRow.kind (row : ActionRow) : ActionRowKind := describeActionRow row.actions

-- Row Kinds

namespace ActionRow

lemma kind_eq_empty_iff (row : ActionRow) : row.kind = .empty ↔ row.actions = [] := by
  unfold ActionRow.kind
  constructor
  · intro hKind
    cases hActions : row.actions with
    | nil => rfl
    | cons action rest =>
      rw [hActions, describeActionRow] at hKind
      repeat' split at hKind
      all_goals cases hKind
  · intro hActions
    rw [hActions, describeActionRow]

/- A row of a sole kind has one action, of that type. -/
lemma actions_of_soleType {row : ActionRow} {type : ActionType}
    (hSole : row.kind.soleType = some type) :
    ∃ action, row.actions = [action] ∧ action.type = type := by
  unfold ActionRow.kind at hSole
  cases hActions : row.actions with
  | nil =>
    rw [hActions, describeActionRow] at hSole
    cases hSole
  | cons action rest =>
    rw [hActions, describeActionRow] at hSole
    split at hSole
    · cases hSole
    split at hSole
    · cases hSole
    rename_i hRest
    have hNil : rest = [] := not_not.mp hRest
    subst hNil
    refine ⟨action, rfl, ?_⟩
    cases hAction : action.type
    all_goals
      cases hExtra : action.extra <;> simp_all [ActionRowKind.soleType]

end ActionRow

end GoTreeSitter
