import GoTreeSitter.Codes.Json
import GoTreeSitter.Grammargen.Definition

/-
  Grammars written to and read from grammar.json.

  Key definitions include:
    * `exportRule`
    * `exportGrammarJSON`

  The text of a document is left to the library that writes and reads it: a grammar is exported to
  the value of the document, and imported from it.
-/

-- Types of Rule Nodes

namespace GoTreeSitter.Grammargen

open Codes (Json)

variable (g : Grammar) (json : Json) (namedPrecs : String → Option Int)

/- The types of rule nodes a document may have. -/
inductive JsonRuleType where
  | string
  | pattern
  | symbol
  | blank
  | seq
  | choice
  | repeats
  | repeat1
  | token
  | immediateToken
  | prec
  | precLeft
  | precRight
  | precDynamic
  | field
  | aliased
  | reserved
  deriving DecidableEq

namespace JsonRuleType

def text : JsonRuleType → String
  | string => "STRING"
  | pattern => "PATTERN"
  | symbol => "SYMBOL"
  | blank => "BLANK"
  | seq => "SEQ"
  | choice => "CHOICE"
  | repeats => "REPEAT"
  | repeat1 => "REPEAT1"
  | token => "TOKEN"
  | immediateToken => "IMMEDIATE_TOKEN"
  | prec => "PREC"
  | precLeft => "PREC_LEFT"
  | precRight => "PREC_RIGHT"
  | precDynamic => "PREC_DYNAMIC"
  | field => "FIELD"
  | aliased => "ALIAS"
  | reserved => "RESERVED"

def all : List JsonRuleType :=
  [string, pattern, symbol, blank, seq, choice, repeats, repeat1, token, immediateToken, prec,
    precLeft, precRight, precDynamic, field, aliased, reserved]

/- The type of a text. -/
def ofText (text : String) : Option JsonRuleType := all.find? fun type => decide (type.text = text)

lemma ofText_text (type : JsonRuleType) : ofText type.text = some type := by cases type <;> rfl

end JsonRuleType

/- A rule node of a type. -/
def ruleNode (type : JsonRuleType) (fields : List (String × Json)) : Json :=
  .object (("type", .string type.text) :: fields)

-- Export

mutual

/- The node of a rule; a missing rule is blank. -/
def exportRule : Rule → Json
  | .nil => ruleNode .blank []
  | .node kind value children prec named =>
    match kind with
    | .blank => ruleNode .blank []
    | .string => ruleNode .string [("value", .string value)]
    | .pattern => ruleNode .pattern [("value", .string value)]
    | .symbol => ruleNode .symbol [("name", .string value)]
    | .seq => ruleNode .seq [("members", .array (exportRules children))]
    | .choice => ruleNode .choice [("members", .array (exportRules children))]
    | .repeats => ruleNode .repeats [("content", exportChild children)]
    | .repeat1 => ruleNode .repeat1 [("content", exportChild children)]
    | .optional =>
      -- An optional rule is a choice with the blank one.
      ruleNode .choice [("members", .array [exportChild children, ruleNode .blank []])]
    | .token => ruleNode .token [("content", exportChild children)]
    | .immToken => ruleNode .immediateToken [("content", exportChild children)]
    | .field => ruleNode .field [("name", .string value), ("content", exportChild children)]
    | .prec => ruleNode .prec [("value", .number prec), ("content", exportChild children)]
    | .precLeft => ruleNode .precLeft [("value", .number prec), ("content", exportChild children)]
    | .precRight => ruleNode .precRight [("value", .number prec), ("content", exportChild children)]
    | .precDynamic =>
      ruleNode .precDynamic [("value", .number prec), ("content", exportChild children)]
    | .aliased =>
      ruleNode .aliased [("value", .string value), ("named", .bool named), ("content", exportChild
        children)]

def exportRules : List Rule → List Json
  | [] => []
  | rule :: rules => exportRule rule :: exportRules rules

/- The node of the first child or the blank one. -/
def exportChild : List Rule → Json
  | [] => ruleNode .blank []
  | child :: _ => exportRule child

end

/- The rules in order as one object. -/
def exportRuleTable (table : RuleTable) : Json := .object (table.entries.map fun entry =>
    (entry.1, exportRule entry.2))

def textsJson (texts : List String) : Json := .array (texts.map .string)

/- The fields of the document of a grammar. -/
def exportFields : List (String × Json) :=
  [("name", .string g.name)] ++
    (if g.word = "" then []
      else [("word", .string g.word)]) ++
    [("rules", exportRuleTable g.rules), ("extras", .array (g.extras.map exportRule)), ("conflicts",
      .array (g.conflicts.map textsJson)), ("externals", .array (g.externals.map exportRule)),
      ("inline", textsJson g.inlineRules), ("supertypes", textsJson g.supertypes)] ++
    (if g.wantsForest = true then
      [("gotreesitter", .object [("wantsForest", .bool true)])]
      else [])

/- Write a grammar down as a document. -/
def exportGrammarJSON : Json := .object (exportFields g)

-- Reading Values

/- Why a document is refused. -/
inductive ImportError where
  | decode
  | missing
  | valueNotString (type : JsonRuleType) (value : Json)
  | unsupportedRuleType (type : String)
  | within (context : String) (cause : ImportError)

/- A field that is absent or null keeps its zero value. -/
def readText : Option Json → Except ImportError String
  | none => .ok ""
  | some .null => .ok ""
  | some (.string value) => .ok value
  | some _ => .error .decode

def readBool : Option Json → Except ImportError Bool
  | none => .ok false
  | some .null => .ok false
  | some (.bool value) => .ok value
  | some _ => .error .decode

def readItems : Option Json → Except ImportError (List Json)
  | none => .ok []
  | some .null => .ok []
  | some (.array items) => .ok items
  | some _ => .error .decode

def readEntries : Option Json → Except ImportError (List (String × Json))
  | none => .ok []
  | some .null => .ok []
  | some (.object entries) => .ok entries
  | some _ => .error .decode

def readTexts (field : Option Json) : Except ImportError (List String) := do
  let items ← readItems field
  items.mapM fun item => readText (some item)

def readTextLists (field : Option Json) : Except ImportError (List (List String)) := do
  let items ← readItems field
  items.mapM fun item => readTexts (some item)

/- Add to an error where it came up. -/
def within {α : Type} (context : String) : Except ImportError α → Except ImportError α
  | .ok value => .ok value
  | .error cause => .error (.within context cause)

@[simp]
lemma within_ok {α : Type} (context : String) (value : α) :
    within context (.ok value) = .ok value := rfl

-- Precedence Levels

/- An entry of a precedence level in a document. -/
structure JsonPrecEntry where
  type : String
  value : String
  name : String
  deriving DecidableEq

/- Whether a value may be read as a record. -/
def isRecord : Json → Bool
  | .null => true
  | .object _ => true
  | _ => false

def readPrecEntry : Except ImportError JsonPrecEntry := do
  if isRecord json = false then throw .decode
  let type ← readText (json.field? "type")
  let value ← readText (json.field? "value")
  let name ← readText (json.field? "name")
  return ⟨type, value, name⟩

/- The entries of a level; one that is unreadable is skipped. -/
def readLevel (level : Json) : List JsonPrecEntry :=
  let entries : Except ImportError (List JsonPrecEntry) := do
    let items ← readItems (some level)
    items.mapM readPrecEntry
  match entries with
  | .ok entries => entries
  | .error _ => []

namespace JsonPrecEntry

/- The named precedence of an entry. -/
def precName? (entry : JsonPrecEntry) : Option String :=
  if entry.type = "STRING" ∧ entry.value ≠ "" then
    some entry.value
  else none

/- The entry of the grammar's own table. -/
def toPrecEntry? (entry : JsonPrecEntry) : Option PrecEntry :=
  match entry.precName? with
  | some name => some { name }
  | none =>
    if entry.type = "SYMBOL" ∧ entry.name ≠ "" then
      some { isSymbol := true, name := entry.name }
    else none

end JsonPrecEntry

/- Give a name a value unless it has a greater one. -/
def raisePrec (precs : String → Option Int) (entry : String × Int) : String → Option Int :=
  match precs entry.1 with
  | some existing =>
    if existing < entry.2 then
      Function.update precs entry.1 (some entry.2)
    else precs
  | none => Function.update precs entry.1 (some entry.2)

/- The values of the named precedences, the first highest. -/
def buildNamedPrecMap (rawLevels : List Json) : String → Option Int :=
  let names := rawLevels.flatMap fun level =>
      (readLevel level).filterMap JsonPrecEntry.precName?
  let entries : List (String × Int) := names.zipIdx.map fun entry =>
      (entry.1, (names.length : Int) - 1 - entry.2)
  entries.foldl raisePrec fun _ => none

/- The levels that have an entry. -/
def importPrecedenceLevels (rawLevels : List Json) : List (List PrecEntry) :=
  (rawLevels.map fun level =>
      (readLevel level).filterMap JsonPrecEntry.toPrecEntry?).filter fun level =>
    !level.isEmpty

-- Patterns in Any Case

def isASCIILetter (ch : Char) : Bool :=
  (decide ('A' ≤ ch) && decide (ch ≤ 'Z')) || (decide ('a' ≤ ch) && decide (ch ≤ 'z'))

/- The two cases of a letter. -/
def bothCases (ch : Char) : List Char :=
  [Char.ofNat (ch.toNat ||| 0x20), Char.ofNat (ch.toNat - (ch.toNat &&& 0x20))]

/- The characters of a pattern, letters in both cases. -/
def caseInsensitive (inClass escaped : Bool) : List Char → List Char
  | [] => []
  | ch :: rest =>
    if escaped = true then
      ch :: caseInsensitive inClass false rest
    else if ch = '\\' then
      ch :: caseInsensitive inClass true rest
    else if ch = '[' then
      ch :: caseInsensitive true false rest
    else if ch = ']' then
      ch :: caseInsensitive false false rest
    else if isASCIILetter ch = true then
      (if inClass = true then bothCases ch
        else ['['] ++ bothCases ch ++ [']']) ++
        caseInsensitive inClass false rest
    else ch :: caseInsensitive inClass false rest

def makeCaseInsensitivePattern (pattern : String) : String :=
  String.ofList (caseInsensitive false false pattern.toList)

example :
    makeCaseInsensitivePattern "Du[p]" = "[dD][uU][pP]" := by
  decide

-- Converting Rules

/- The fields of a rule node other than its subrules. -/
structure JsonRuleNode where
  type : String
  value : Json
  name : String
  named : Bool
  flags : String

/- The first subrule of a node. -/
def nodeContent : Option Json :=
  json.field? "content"

/- The list of subrules of a node. -/
def nodeMembers : List Json :=
  match json.field? "members" with
  | some (.array items) => items
  | _ => []

lemma sizeOf_nodeContent : sizeOf (nodeContent json) ≤ sizeOf json := by
  cases hContent : nodeContent json with
  | none => cases json <;> simp
  | some content =>
    have hLt : sizeOf content < sizeOf json := Codes.Json.sizeOf_field? hContent
    simp only [Option.some.sizeOf_spec]
    omega

lemma sizeOf_nodeMembers : sizeOf (nodeMembers json) ≤ sizeOf json := by
  rw [nodeMembers]
  split
  · rename_i items hItems
    have hLt := Codes.Json.sizeOf_field? hItems
    simp only [Codes.Json.array.sizeOf_spec] at hLt
    omega
  · cases json <;> simp

/- Read the fields of a node. -/
def readRuleNode : Except ImportError JsonRuleNode := do
  if isRecord json = false then throw .decode
  let type ← readText (json.field? "type")
  let name ← readText (json.field? "name")
  let _ ← readItems (json.field? "members")
  let named ← readBool (json.field? "named")
  let flags ← readText (json.field? "flags")
  return {
    type
    value := (json.field? "value").getD .null
    name
    named
    flags }

/-
  What converting rules does: it keeps whether a rule with reserved words was seen, and may fail.
-/
abbrev Converting := StateT Bool (Except ImportError)

/- Add to an error of a conversion where it came up. -/
def withinRule {α : Type} (context : String) (conversion : Converting α) : Converting α :=
  fun sawReservedNode =>
    within context (conversion sawReservedNode)

@[simp]
lemma withinRule_pure {α : Type} (context : String) (value : α) :
    withinRule context (pure value) = pure value := rfl

/- The text of a node's value. -/
def valueText (type : JsonRuleType) : Json → Converting String
  | .string value => pure value
  | value => throw (.valueNotString type value)

/- A number read back as a floating point one. -/
def readFloat64 (n : Int) : Int := Numbers.roundInt 53 n

/-
  A floating point number as an integer of 64 bits. One that does not fit gives the least integer.
-/
def intOfFloat64 (v : Int) : Int :=
  if -2 ^ 63 ≤ v ∧ v < 2 ^ 63 then v else -2 ^ 63

/- The precedence a node names. -/
def nodePrec : Json → Int
  | .number n => intOfFloat64 (readFloat64 n)
  | .string name => (namedPrecs name).getD 0
  | _ => 0

mutual

/- The rule of a node. -/
def convertRule (namedPrecs : String → Option Int) (json : Json) : Converting Rule := do
  let node ← liftM (within "unmarshal rule" (readRuleNode json))
  match JsonRuleType.ofText node.type with
  | some .string => return Rule.str (← valueText .string node.value)
  | some .pattern =>
    let value ← valueText .pattern node.value
    if 'i' ∈ node.flags.toList then
      return Rule.pat (makeCaseInsensitivePattern value)
    else return Rule.pat value
  | some .symbol => return Rule.sym node.name
  | some .blank => return Rule.blank
  | some .seq =>
    return Rule.seq (← withinRule "SEQ" (convertRuleList namedPrecs 0 (nodeMembers json)))
  | some .choice =>
    return Rule.choice (← withinRule "CHOICE" (convertRuleList namedPrecs 0 (nodeMembers json)))
  | some .repeats =>
    return Rule.repeats (← withinRule "REPEAT" (convertContent namedPrecs (nodeContent json)))
  | some .repeat1 =>
    return Rule.repeat1 (← withinRule "REPEAT1" (convertContent namedPrecs (nodeContent json)))
  | some .token =>
    return Rule.token (← withinRule "TOKEN" (convertContent namedPrecs (nodeContent json)))
  | some .immediateToken =>
    return Rule.immToken (← withinRule "IMMEDIATE_TOKEN" (convertContent namedPrecs (nodeContent
      json)))
  | some .prec =>
    return Rule.prec (nodePrec namedPrecs node.value)
      (← convertContent namedPrecs (nodeContent json))
  | some .precLeft =>
    return Rule.precLeft (nodePrec namedPrecs node.value) (← convertContent namedPrecs (nodeContent
      json))
  | some .precRight =>
    return Rule.precRight (nodePrec namedPrecs node.value) (← convertContent namedPrecs (nodeContent
      json))
  | some .precDynamic =>
    return Rule.precDynamic (nodePrec namedPrecs node.value) (← convertContent namedPrecs
      (nodeContent json))
  | some .field =>
    return Rule.field node.name (← withinRule "FIELD" (convertContent namedPrecs (nodeContent
      json)))
  | some .aliased =>
    let child ← withinRule "ALIAS" (convertContent namedPrecs (nodeContent json))
    let value ← valueText .aliased node.value
    return Rule.aliased child value node.named
  | some .reserved =>
    -- The wrapper itself is dropped, but remembered.
    set true
    withinRule "RESERVED" (convertContent namedPrecs (nodeContent json))
  | none => throw (.unsupportedRuleType node.type)
termination_by 2 * sizeOf json + 1
decreasing_by all_goals
    have hContent := sizeOf_nodeContent json
    have hMembers := sizeOf_nodeMembers json
    omega

/- The rule of a node's first subrule. -/
def convertContent (namedPrecs : String → Option Int) (content : Option Json) : Converting Rule :=
  match content with
  | none => throw (.within "unmarshal rule" .missing)
  | some json => convertRule namedPrecs json
termination_by 2 * sizeOf content
decreasing_by
  simp only [Option.some.sizeOf_spec]
  omega

/- The rules of the nodes of a list. -/
def convertRuleList (namedPrecs : String → Option Int) (index : Nat) (members : List Json) :
    Converting (List Rule) :=
  match members with
  | [] => pure []
  | json :: rest => do
      let rule ← withinRule ("[" ++ toString index ++ "]") (convertRule namedPrecs json)
      return rule :: (← convertRuleList namedPrecs (index + 1) rest)
termination_by 2 * sizeOf members
decreasing_by all_goals
    simp only [List.cons.sizeOf_spec]
    omega

end

-- Hints by Name

/- The names of the grammars that are imported with hints. -/
def importHintNames : List String :=
  ["elixir", "bash", "fortran", "python", "gomod", "javascript", "typescript", "tsx", "sql", "d",
    "objc", "perl", "powershell", "promql"]

/- What the name of a grammar says about its tables. -/
def applyImportGrammarShapeHints : Grammar :=
  if g.name = "elixir" then
    { g with
      preferExpressionOperatorIdentifierReduces := true
      preferParenthesizedCallDoBlockReduces := true
      preferRemoteCallOperatorReduces := true
      preferStabClauseLeftArrowReduces := true
      preferPreciseExternalLexStates := true
      preserveHiddenChoicePassthrough :=
        ["_capture_expression"] }
  else if g.name = "bash" then
    { g with
      suppressEquivalentExternalReduceLookaheads := true
      externalReduceFollowLookaheads :=
        ["file_descriptor", "test_operator", "$", "\x7b", "(", "<<", "<<-"]
      priorityInlinePatterns :=
        ["-?(0x)?[0-9]+(#[0-9A-Za-z@_]+)?", "-?(0x)?[0-9]+#"] }
  else if g.name = "fortran" then
    { g with
      binaryRepeatMode := true
      preserveKeywordIdentifierConflicts := true }
  else if g.name = "python" then
    { g with
      binaryRepeatMode := true
      exactPrefixStates := 999999 }
  else if g.name = "gomod" then
    { g with exactPrefixStates := 999999 }
  else if g.name ∈
      ["javascript", "typescript", "tsx", "sql", "d", "objc", "perl"] then
    if g.name = "javascript" then
      { g with
        binaryRepeatMode := true
        flattenGeneratedRepeatAux := true
        reuseRepeatAuxForParents :=
          ["jsx_opening_element", "jsx_self_closing_element"] }
    else { g with binaryRepeatMode := true }
  else if g.name = "powershell" then
    { g with binaryRepeatMode := true }
  else if g.name = "promql" then
    { g with
      preserveHiddenChoicePassthrough :=
        ["_query", "_series_matcher"] }
  else g

/- The body that replaces a rule of one grammar. -/
def heredocContent : Rule :=
  Rule.seq [Rule.sym "_heredoc_start", Rule.repeats (Rule.choice [Rule.sym "_heredoc_middle",
    Rule.sym "escape_sequence"]), Rule.sym "heredoc_end"]

def applyImportGrammarPostShapeHints : Grammar :=
  if g.name = "perl" ∧
      (g.rules.find "heredoc_content").isSome = true then
    g.define "heredoc_content" heredocContent
  else g

-- Import

/- A document as it is read. -/
structure JsonGrammar where
  name : String
  rules : List (String × Json)
  extras : List Json
  conflicts : List (List String)
  externals : List Json
  inlineRules : List String
  supertypes : List String
  word : String
  reserved : List (String × List Json)
  precedences : List Json
  wantsForest : Bool

/- The switches under the document's own key. -/
def readWantsForest : Option Json → Except ImportError Bool
  | none => .ok false
  | some json =>
    if isRecord json = true then
      readBool (json.field? "wantsForest")
    else .error .decode

def readReserved (field : Option Json) : Except ImportError (List (String × List Json)) := do
  let entries ← readEntries field
  entries.mapM fun entry => do
    return (entry.1, ← readItems (some entry.2))

/- Read the fields of a document. -/
def readJsonGrammar : Except ImportError JsonGrammar := do
  if isRecord json = false then throw .decode
  let name ← readText (json.field? "name")
  let rules ← readEntries (json.field? "rules")
  let extras ← readItems (json.field? "extras")
  let conflicts ← readTextLists (json.field? "conflicts")
  let externals ← readItems (json.field? "externals")
  let inlineRules ← readTexts (json.field? "inline")
  let supertypes ← readTexts (json.field? "supertypes")
  let word ← readText (json.field? "word")
  let reserved ← readReserved (json.field? "reserved")
  let precedences ← readItems (json.field? "precedences")
  let wantsForest ← readWantsForest (json.field? "gotreesitter")
  return {
    name
    rules
    extras
    conflicts
    externals
    inlineRules
    supertypes
    word
    reserved
    precedences
    wantsForest }

/- Import the rules of a document in order. -/
def importRules (rules : List (String × Json)) : RuleTable → List String → Converting RuleTable
  | table, [] => pure table
  | table, name :: names => do
      let rule ← withinRule ("rule " ++ name.quote) (convertContent namedPrecs (Codes.Json.lookup
        name rules))
      importRules rules (table.define name rule) names

/- Import the rules of a list, all under one context. -/
def importList (context : String) : List Json → Converting (List Rule)
  | [] => pure []
  | json :: rest => do
      let rule ← withinRule context (convertRule namedPrecs json)
      return rule :: (← importList context rest)

/- The last set of reserved words with a name. -/
def reservedMembers (reserved : List (String × List Json)) (name : String) : List Json :=
  (reserved.reverse.lookup name).getD []

def importReserved (reserved : List (String × List Json)) :
    List String → Converting (List ReservedWordSet)
  | [] => pure []
  | name :: names => do
      let rules ← importList namedPrecs
          ("reserved " ++ name.quote)
          (reservedMembers reserved name)
      return { name, rules } :: (← importReserved reserved names)

/-
  Import the parts of a document that hold rules. Sets of reserved words count only if a rule refers
  to them.
-/
def importConverted (raw : JsonGrammar) (g : Grammar) : Except ImportError Grammar := do
  let namedPrecs := buildNamedPrecMap raw.precedences
  let (rules, saw) ← importRules namedPrecs raw.rules g.rules (raw.rules.map Prod.fst) false
  let (extras, saw) ←
    importList namedPrecs "extras" raw.extras saw
  let (externals, saw) ←
    importList namedPrecs "externals" raw.externals saw
  let (reservedWordSets, saw) ← importReserved namedPrecs raw.reserved
      (raw.reserved.map Prod.fst) saw
  return {
    g with
    rules
    extras
    externals
    reservedWordSets :=
      if saw = true then reservedWordSets else [] }

/- Read a grammar from a document. -/
def importGrammarJSON : Except ImportError Grammar := do
  let raw ← within "parse grammar.json" (readJsonGrammar json)
  let g := applyImportGrammarShapeHints (newGrammar raw.name)
  let g ← importConverted raw {
    g with
    wantsForest := raw.wantsForest
    precedences := importPrecedenceLevels raw.precedences
    conflicts := raw.conflicts.filter fun group => !group.isEmpty
    inlineRules := raw.inlineRules
    word := raw.word
    supertypes := raw.supertypes }
  return applyImportGrammarPostShapeHints g

end GoTreeSitter.Grammargen
