import GoTreeSitter.Grammargen.GrammarJson

/-
  What a grammar keeps on its way through grammar.json.

  Main declarations:
    * `Rule.readBack`
    * `Rule.desugared`
    * `importGrammarJSON_exportGrammarJSON`
    * `exported_grammar_reads_back_iff`
-/

-- What Is Read Back

namespace GoTreeSitter.Grammargen

open List

/- How many subrules a kind of rule has. -/
inductive Arity where
  | leaf
  | one
  | many
  deriving DecidableEq

namespace RuleKind

def arity : RuleKind → Arity
  | string => .leaf
  | pattern => .leaf
  | symbol => .leaf
  | blank => .leaf
  | seq => .many
  | choice => .many
  | _ => .one

/- The kinds whose text counts. -/
def usesValue : RuleKind → Bool
  | string => true
  | pattern => true
  | symbol => true
  | field => true
  | aliased => true
  | _ => false

/- The kinds whose precedence counts. -/
def usesPrec : RuleKind → Bool
  | prec => true
  | precLeft => true
  | precRight => true
  | precDynamic => true
  | _ => false

/- The kinds whose mark as a named node counts. -/
def usesNamed : RuleKind → Bool
  | aliased => true
  | _ => false

end RuleKind

/- A precedence after it went through a document. -/
def precReadBack (prec : Int) : Int := intOfFloat64 (readFloat64 prec)

namespace Rule

mutual

/- The rule that is read back for a rule. -/
def readBack : Rule → Rule
  | nil => blank
  | node kind value children prec named =>
    if kind = .optional then
      choice [readBackFirst children, blank]
    else
      node kind
        (if kind.usesValue = true then value else "")
        (match kind.arity with
          | .leaf => []
          | .one => [readBackFirst children]
          | .many => readBackAll children)
        (if kind.usesPrec = true then precReadBack prec
          else 0)
        (kind.usesNamed && named)

def readBackAll : List Rule → List Rule
  | [] => []
  | rule :: rules => readBack rule :: readBackAll rules

def readBackFirst : List Rule → Rule
  | [] => blank
  | rule :: _ => readBack rule

end

mutual

/- A rule with its optional parts as choices. -/
def desugared : Rule → Rule
  | nil => nil
  | node kind value children prec named =>
    match kind, children with
    | .optional, [child] => node .choice value [desugared child, blank] prec named
    | kind, children => node kind value (desugaredAll children) prec named

def desugaredAll : List Rule → List Rule
  | [] => []
  | rule :: rules => desugared rule :: desugaredAll rules

end

end Rule

/-
  A precedence that a floating point number holds: an
  integer of 64 bits with 53 digits before its zeros.
-/
def ExactPrec (prec : Int) : Prop := Numbers.ExactNat 53 prec.natAbs ∧
    -2 ^ 63 ≤ prec ∧ prec < 2 ^ 63

/- A node has the fields and as many subrules as its kind uses, as the builders make it. -/
structure NodeShape (kind : RuleKind) (value : String) (count : Nat) (prec : Int) (named : Bool) :
    Prop where
  value : kind.usesValue = false → value = ""
  count :
    match kind.arity with
    | .leaf => count = 0
    | .one => count = 1
    | .many => True
  prec :
    if kind.usesPrec = true then ExactPrec prec
    else prec = 0
  named : kind.usesNamed = false → named = false

namespace Rule

mutual

/- A rule whose nodes all have the shape of their kind. -/
def Writable : Rule → Prop
  | nil => False
  | node kind value children prec named =>
    NodeShape kind value children.length prec named ∧ AllWritable children

def AllWritable : List Rule → Prop
  | [] => True
  | rule :: rules => Writable rule ∧ AllWritable rules

end

end Rule

-- Reading Back a Rule

open Codes (Json)

lemma liftM_ok {α : Type} (value : α) :
    (liftM (Except.ok value : Except ImportError α) : Converting α) = pure value := rfl

namespace RuleKind

/- The type of the node a kind is written as. -/
def jsonType : RuleKind → JsonRuleType
  | string => .string
  | pattern => .pattern
  | symbol => .symbol
  | seq => .seq
  | choice => .choice
  | repeats => .repeats
  | repeat1 => .repeat1
  | optional => .choice
  | token => .token
  | immToken => .immediateToken
  | field => .field
  | prec => .prec
  | precLeft => .precLeft
  | precRight => .precRight
  | precDynamic => .precDynamic
  | blank => .blank
  | aliased => .aliased

/- The value of the node a kind is written as. -/
def jsonValue (kind : RuleKind) (value : String) (prec : Int) : Json :=
  match kind with
  | string => .string value
  | pattern => .string value
  | aliased => .string value
  | _ => if kind.usesPrec = true then .number prec
      else .null

/- The name of the node a kind is written as. -/
def jsonName (kind : RuleKind) (value : String) : String :=
  match kind with
  | symbol => value
  | field => value
  | _ => ""

end RuleKind

lemma readRuleNode_exportRule (kind : RuleKind) (value : String)
    (children : List Rule) (prec : Int) (named : Bool) :
    readRuleNode (exportRule (.node kind value children prec named)) =
      .ok {
        type := kind.jsonType.text
        value := kind.jsonValue value prec
        name := kind.jsonName value
        named := kind.usesNamed && named
        flags := "" } := by
  cases kind <;> (rw [exportRule]; rfl)

section

variable (value : String) (children : List Rule) (prec : Int) (named : Bool)

lemma nodeContent_exportRule {kind : RuleKind} (hArity : kind.arity = .one)
    (hOptional : kind ≠ .optional) :
    nodeContent (exportRule (.node kind value children prec named)) =
      some (exportChild children) := by
  cases kind <;> first
    | (rw [exportRule]; rfl)
    | exact absurd rfl hOptional
    | cases hArity

lemma nodeMembers_exportRule {kind : RuleKind} (hArity : kind.arity = .many) :
    nodeMembers (exportRule (.node kind value children prec named)) = exportRules children := by
  cases kind <;> first
    | (rw [exportRule]; rfl)
    | cases hArity

lemma nodeMembers_exportRule_optional :
    nodeMembers (exportRule (.node .optional value children prec named)) =
      [exportChild children, exportRule .nil] := by
  rw [exportRule, exportRule]
  rfl

end

mutual

lemma convertRule_exportRule (namedPrecs : String → Option Int) (rule : Rule) :
    convertRule namedPrecs (exportRule rule) = pure rule.readBack := by
  match rule with
  | .nil =>
    rw [convertRule]
    rfl
  | .node kind value children prec named =>
    have hFirst := convertContent_exportChild namedPrecs children
    have hAll := convertRuleList_exportRules namedPrecs children
    rw [convertRule, readRuleNode_exportRule, within_ok, liftM_ok, pure_bind,
      JsonRuleType.ofText_text]
    cases kind with
    | optional =>
      rw [convertContent] at hFirst
      have hBlank : convertRule namedPrecs (exportRule .nil) = pure Rule.blank := by
        rw [convertRule]
        rfl
      rw [nodeMembers_exportRule_optional, convertRuleList, hFirst, convertRuleList,
        hBlank, convertRuleList]
      rfl
    | _ =>
      simp (disch := first | rfl | decide) only [RuleKind.jsonType, nodeContent_exportRule,
          nodeMembers_exportRule, hFirst, hAll]
      rfl

lemma convertContent_exportChild (namedPrecs : String → Option Int) (rules : List Rule) :
    convertContent namedPrecs (some (exportChild rules)) = pure (Rule.readBackFirst rules) := by
  rw [convertContent]
  match rules with
  | [] =>
    rw [exportChild, convertRule]
    rfl
  | rule :: rest => exact convertRule_exportRule namedPrecs rule

lemma convertRuleList_exportRules (namedPrecs : String → Option Int) (rules : List Rule)
    (index : Nat) :
    convertRuleList namedPrecs index (exportRules rules) = pure (Rule.readBackAll rules) := by
  match rules with
  | [] =>
    rw [exportRules, convertRuleList]
    rfl
  | rule :: rest =>
    rw [exportRules, convertRuleList, convertRule_exportRule namedPrecs rule,
      convertRuleList_exportRules namedPrecs rest]
    rfl

end

-- Rules That Come Back the Same

/- A precedence comes back when a floating point number holds it. -/
lemma precReadBack_eq_self_iff (prec : Int) : precReadBack prec = prec ↔ ExactPrec prec := by
  have hRound : readFloat64 prec = prec ↔ Numbers.ExactNat 53 prec.natAbs :=
    Numbers.roundInt_eq_self_iff 53 prec
  -- The least integer is a power of two, so it is exact.
  have hLeast : readFloat64 (-2 ^ 63) = -2 ^ 63 := by decide
  rw [ExactPrec, ← hRound, precReadBack, intOfFloat64]
  split_ifs with hWide
  · omega
  by_cases hPrec : prec = -2 ^ 63
  · rw [hPrec, hLeast] at hWide
    omega
  · omega

lemma nodeShape_iff (kind : RuleKind) (value : String) (count : Nat) (prec : Int) (named : Bool) :
    NodeShape kind value count prec named ↔
      (if kind.usesValue = true then value else "") = value ∧
        (match kind.arity with
          | .leaf => count = 0
          | .one => count = 1
          | .many => True) ∧
        (if kind.usesPrec = true then precReadBack prec else 0) = prec ∧
        (kind.usesNamed && named) = named := by
  constructor
  · intro hShape
    refine ⟨?_, hShape.count, ?_, ?_⟩
    · split_ifs with hUses
      · rfl
      · exact (hShape.value (by simpa using hUses)).symm
    · have hPrec := hShape.prec
      split_ifs with hUses
      · rw [if_pos hUses] at hPrec
        exact (precReadBack_eq_self_iff prec).mpr hPrec
      rw [if_neg hUses] at hPrec
      exact hPrec.symm
    · cases hUses : kind.usesNamed with
      | true => rfl
      | false => exact (hShape.named hUses).symm
  · rintro ⟨hValue, hCount, hPrec, hNamed⟩
    refine ⟨?_, hCount, ?_, ?_⟩
    · intro hUses
      rw [hUses] at hValue
      exact hValue.symm
    · split_ifs with hUses
      · rw [if_pos hUses] at hPrec
        exact (precReadBack_eq_self_iff prec).mp hPrec
      rw [if_neg hUses] at hPrec
      exact hPrec.symm
    · intro hUses
      rw [hUses] at hNamed
      exact hNamed.symm

namespace Rule

lemma desugared_of_ne_optional {kind : RuleKind} (value : String) (children : List Rule)
    (prec : Int) (named : Bool) (hKind : kind ≠ .optional) :
    desugared (node kind value children prec named) =
      node kind value (desugaredAll children) prec named := by
  rw [desugared]
  intro child hOptional
  exact absurd hOptional hKind

/- No rules come back when there are none. -/
lemma nil_eq_desugaredAll_iff (rules : List Rule) :
    [] = desugaredAll rules ↔ rules.length = 0 ∧ AllWritable rules := by
  cases rules with
  | nil => simp [desugaredAll, AllWritable]
  | cons rule rest => simp [desugaredAll]

mutual

lemma readBack_eq_desugared_iff (rule : Rule) : rule.readBack = rule.desugared ↔ rule.Writable := by
  match rule with
  | nil => simp [readBack, desugared, Writable, blank]
  | node kind value children prec named =>
    have hAll := readBackAll_eq_desugaredAll_iff children
    have hFirst := readBackFirst_eq_desugared_iff children
    rw [Writable, nodeShape_iff]
    by_cases hOptional : kind = .optional
    · subst hOptional
      rw [readBack, if_pos rfl]
      match children with
      | [child] =>
        have hChild := readBack_eq_desugared_iff child
        simp only [desugared, choice, readBackFirst, node.injEq, List.cons.injEq, and_true,
          true_and, hChild, AllWritable, RuleKind.arity, RuleKind.usesValue, RuleKind.usesPrec,
          RuleKind.usesNamed, length_singleton, Bool.false_and, Bool.false_eq_true, if_false]
        tauto
      | [] => simp [desugared, choice, RuleKind.arity]
      | _ :: _ :: _ => simp [desugared, choice, RuleKind.arity]
    · rw [readBack, if_neg hOptional, desugared_of_ne_optional value children prec named hOptional]
      simp only [node.injEq, true_and]
      cases hArity : kind.arity with
      | leaf =>
        simp only [nil_eq_desugaredAll_iff]
        tauto
      | one => tauto
      | many => tauto

lemma readBackAll_eq_desugaredAll_iff (rules : List Rule) :
    readBackAll rules = desugaredAll rules ↔ AllWritable rules := by
  match rules with
  | [] => simp [readBackAll, desugaredAll, AllWritable]
  | rule :: rest =>
    rw [readBackAll, desugaredAll, AllWritable, List.cons.injEq, readBack_eq_desugared_iff rule,
      readBackAll_eq_desugaredAll_iff rest]

lemma readBackFirst_eq_desugared_iff (rules : List Rule) :
    [readBackFirst rules] = desugaredAll rules ↔ rules.length = 1 ∧ AllWritable rules := by
  match rules with
  | [] => simp [desugaredAll]
  | [rule] =>
    simp only [readBackFirst, desugaredAll, AllWritable, List.cons.injEq, and_true,
      length_singleton, true_and]
    exact readBack_eq_desugared_iff rule
  | rule :: second :: rest => simp [desugaredAll]

end

end Rule

-- Reading Back a Document

open Codes (Json)

lemma mapM_readText (texts : List String) :
    (texts.map Json.string).mapM (fun item => readText (some item)) = .ok texts := by
  induction texts with
  | nil => rfl
  | cons text rest ih =>
    rw [map_cons, mapM_cons, ih]
    rfl

@[simp]
lemma readTexts_textsJson (texts : List String) :
    readTexts (some (textsJson texts)) = .ok texts := mapM_readText texts

variable (groups : List (List String))

lemma mapM_readTexts :
    (groups.map textsJson).mapM (fun item => readTexts (some item)) = .ok groups := by
  induction groups with
  | nil => rfl
  | cons group rest ih =>
    rw [map_cons, mapM_cons, ih, readTexts_textsJson]
    rfl

@[simp]
lemma readTextLists_textsJson :
    readTextLists (some (.array (groups.map textsJson))) = .ok groups := mapM_readTexts groups

/- What is read of the document of a grammar. -/
def exported (g : Grammar) : JsonGrammar where
  name := g.name
  rules := g.rules.entries.map fun entry =>
      (entry.1, exportRule entry.2)
  extras := g.extras.map exportRule
  conflicts := g.conflicts
  externals := g.externals.map exportRule
  inlineRules := g.inlineRules
  supertypes := g.supertypes
  word := g.word
  reserved := []
  precedences := []
  wantsForest := g.wantsForest

lemma readJsonGrammar_exportGrammarJSON (g : Grammar) :
    readJsonGrammar (exportGrammarJSON g) = .ok (exported g) := by
  -- Two fields are left out when they say nothing.
  by_cases hWord : g.word = "" <;> cases hForest : g.wantsForest <;>
      · simp only [readJsonGrammar, exportGrammarJSON, exportFields, exportRuleTable, exported,
          hWord, hForest, if_true, if_false, append_nil, cons_append, nil_append,
          Bool.false_eq_true, Codes.Json.field?, Codes.Json.lookup, isRecord, String.reduceEq]
        rw [readTextLists_textsJson, readTexts_textsJson, readTexts_textsJson]
        rfl

open Codes (Json)

namespace RuleTable

lemma ext_entries {left right : RuleTable} (hEntries : left.entries = right.entries) :
    left = right := by
  cases left
  cases right
  cases hEntries
  rfl

lemma map_fst_map (f : Rule → Rule) (entries : List (String × Rule)) :
    (entries.map fun entry => (entry.1, f entry.2)).map Prod.fst = entries.map Prod.fst := by
  rw [map_map]
  rfl

/- The same names with other rules. -/
def mapRules (f : Rule → Rule) (table : RuleTable) : RuleTable where
  entries := table.entries.map fun entry => (entry.1, f entry.2)
  distinct := by
    rw [map_fst_map]
    exact table.distinct

end RuleTable

variable (namedPrecs : String → Option Int)

lemma importList_exportRule (context : String) (rules : List Rule) :
    importList namedPrecs context (rules.map exportRule) = pure (rules.map Rule.readBack) := by
  induction rules with
  | nil => rfl
  | cons rule rest ih =>
    rw [map_cons, importList, convertRule_exportRule, ih]
    rfl

lemma importRules_exported {nodes : List (String × Json)} (rest : List (String × Rule))
    {table result : RuleTable}
    (hNodes : ∀ entry ∈ rest, Codes.Json.lookup entry.1 nodes = some (exportRule entry.2))
    (hResult : result.entries =
      table.entries ++ rest.map fun entry => (entry.1, entry.2.readBack)) :
    importRules namedPrecs nodes table (rest.map Prod.fst) = pure result := by
  induction rest generalizing table with
  | nil =>
    have hSame : result = table := RuleTable.ext_entries (hResult.trans (append_nil _))
    rw [hSame]
    rfl
  | cons entry rest ih =>
    have hNode := hNodes entry mem_cons_self
    have hNew : entry.1 ∉ table.names := by
      have hDistinct := result.distinct
      rw [hResult, map_append, nodup_append] at hDistinct
      intro hMem
      exact hDistinct.2.2 entry.1 hMem entry.1 mem_cons_self rfl
    rw [map_cons, importRules, hNode, convertContent, convertRule_exportRule,
      withinRule_pure, pure_bind]
    refine ih ?_ ?_
    · intro other hOther
      exact hNodes other (mem_cons_of_mem entry hOther)
    · rw [RuleTable.entries_define_of_new hNew, append_assoc]
      exact hResult

lemma importConverted_exported (g start : Grammar) (hStart : start.rules = RuleTable.empty) :
    importConverted (exported g) start =
      .ok { start with
        rules := g.rules.mapRules Rule.readBack
        extras := g.extras.map Rule.readBack
        externals := g.externals.map Rule.readBack
        reservedWordSets := [] } := by
  have hNodes : ∀ entry ∈ g.rules.entries,
      Codes.Json.lookup entry.1 (exported g).rules = some (exportRule entry.2) := by
    intro entry hEntry
    refine Codes.Json.lookup_of_mem ?_ (mem_map_of_mem hEntry)
    rw [exported, map_map]
    exact g.rules.distinct
  have hNames : (exported g).rules.map Prod.fst = g.rules.entries.map Prod.fst := by
    rw [exported, map_map]
    rfl
  have hRules : ∀ namedPrecs : String → Option Int,
      importRules namedPrecs (exported g).rules RuleTable.empty
        (g.rules.entries.map Prod.fst) =
        pure (g.rules.mapRules Rule.readBack) := by
    intro namedPrecs
    exact importRules_exported namedPrecs g.rules.entries hNodes rfl
  have hExtras : (exported g).extras = g.extras.map exportRule := rfl
  have hExternals : (exported g).externals = g.externals.map exportRule := rfl
  rw [importConverted, hNames, hStart, hRules, hExtras, hExternals, importList_exportRule,
    importList_exportRule]
  rfl

lemma applyImportGrammarShapeHints_of_notMem (hName : g.name ∉ importHintNames) :
    applyImportGrammarShapeHints g = g := by
  simp only [importHintNames, mem_cons, not_or, not_mem_nil, not_false_eq_true, and_true] at hName
  simp [applyImportGrammarShapeHints, hName]

lemma applyImportGrammarPostShapeHints_of_notMem (hName : g.name ∉ importHintNames) :
    applyImportGrammarPostShapeHints g = g := by
  simp only [importHintNames, mem_cons, not_or, not_mem_nil, not_false_eq_true, and_true] at hName
  simp [applyImportGrammarPostShapeHints, hName]

/- The grammar that is read back for a grammar. -/
def imported (g : Grammar) : Grammar where
  name := g.name
  rules := g.rules.mapRules Rule.readBack
  extras := g.extras.map Rule.readBack
  conflicts := g.conflicts.filter fun group => !group.isEmpty
  externals := g.externals.map Rule.readBack
  inlineRules := g.inlineRules
  word := g.word
  supertypes := g.supertypes
  wantsForest := g.wantsForest

lemma importGrammarJSON_exportGrammarJSON (hName : g.name ∉ importHintNames) :
    importGrammarJSON (exportGrammarJSON g) = .ok (imported g) := by
  have hHints : applyImportGrammarShapeHints (newGrammar g.name) = newGrammar g.name :=
    applyImportGrammarShapeHints_of_notMem hName
  have hPost : applyImportGrammarPostShapeHints (imported g) = imported g :=
      applyImportGrammarPostShapeHints_of_notMem hName
  rw [← hPost, importGrammarJSON, readJsonGrammar_exportGrammarJSON]
  show (do
    let g' ← importConverted (exported g) _
    return applyImportGrammarPostShapeHints g') = _
  rw [show (exported g).name = g.name from rfl, hHints]
  rw [importConverted_exported _ _ rfl]
  rfl

-- Grammars That Come Back the Same

/-
  A grammar read back has the rules of the first one, with
  its optional parts as choices, and its tables.
-/
structure ReadsBack (g result : Grammar) : Prop where
  rules : result.rules.entries = g.rules.entries.map fun entry =>
      (entry.1, entry.2.desugared)
  extras : result.extras = g.extras.map Rule.desugared
  externals : result.externals = g.externals.map Rule.desugared
  conflicts : result.conflicts = g.conflicts
  inlineRules : result.inlineRules = g.inlineRules
  supertypes : result.supertypes = g.supertypes
  word : result.word = g.word
  precedences : result.precedences = g.precedences
  reservedWordSets : result.reservedWordSets = g.reservedWordSets

/- A grammar with well-made rules, no empty conflict, no precedence levels and no reserved words. -/
structure Survives (g : Grammar) : Prop where
  rules : ∀ entry ∈ g.rules.entries, entry.2.Writable
  extras : ∀ rule ∈ g.extras, rule.Writable
  externals : ∀ rule ∈ g.externals, rule.Writable
  conflicts : [] ∉ g.conflicts
  precedences : g.precedences = []
  reservedWordSets : g.reservedWordSets = []

lemma map_readBack_eq_iff (rules : List Rule) :
    rules.map Rule.readBack = rules.map Rule.desugared ↔ ∀ rule ∈ rules, rule.Writable := by
  rw [map_inj_left]
  refine forall₂_congr ?_
  intro rule _
  exact Rule.readBack_eq_desugared_iff rule

lemma map_entries_readBack_eq_iff (entries : List (String × Rule)) :
    (entries.map fun entry => (entry.1, entry.2.readBack)) =
      (entries.map fun entry => (entry.1, entry.2.desugared)) ↔
      ∀ entry ∈ entries, entry.2.Writable := by
  rw [map_inj_left]
  refine forall₂_congr ?_
  intro entry _
  rw [Prod.mk.injEq, Rule.readBack_eq_desugared_iff]
  exact and_iff_right rfl

lemma filter_nonempty_eq_iff :
    (groups.filter fun group => !group.isEmpty) = groups ↔ [] ∉ groups := by
  rw [filter_eq_self]
  constructor
  · intro hAll hMem
    cases hAll [] hMem
  intro hNil group hGroup
  cases group with
  | nil => exact absurd hGroup hNil
  | cons name rest => rfl

lemma readsBack_imported_iff (g : Grammar) : ReadsBack g (imported g) ↔ Survives g := by
  constructor
  · intro hSame
    exact {
      rules := (map_entries_readBack_eq_iff _).mp hSame.rules
      extras := (map_readBack_eq_iff _).mp hSame.extras
      externals := (map_readBack_eq_iff _).mp hSame.externals
      conflicts := (filter_nonempty_eq_iff _).mp hSame.conflicts
      precedences := hSame.precedences.symm
      reservedWordSets := hSame.reservedWordSets.symm }
  intro hSurvives
  exact {
    rules := (map_entries_readBack_eq_iff _).mpr hSurvives.rules
    extras := (map_readBack_eq_iff _).mpr hSurvives.extras
    externals := (map_readBack_eq_iff _).mpr hSurvives.externals
    conflicts := (filter_nonempty_eq_iff _).mpr hSurvives.conflicts
    inlineRules := rfl
    supertypes := rfl
    word := rfl
    precedences := hSurvives.precedences.symm
    reservedWordSets := hSurvives.reservedWordSets.symm }

/-
  A grammar comes back from its document exactly when it has well-made rules, no empty conflict, no
  precedence levels and no reserved words.
-/
theorem exported_grammar_reads_back_iff
    (g : Grammar)
    (hName : g.name ∉ importHintNames) :
    (∃ result : Grammar,
      importGrammarJSON (exportGrammarJSON g) = .ok result ∧ ReadsBack g result) ↔
      Survives g := by
  rw [← readsBack_imported_iff, importGrammarJSON_exportGrammarJSON hName]
  constructor
  · rintro ⟨result, hResult, hSame⟩
    cases hResult
    exact hSame
  · intro hSame
    exact ⟨imported g, rfl, hSame⟩

/- A grammar of one rule with a precedence level. -/
def leveledGrammar : Grammar where
  name := "leveled"
  rules :=
    RuleTable.empty.define "sum" (Rule.optional (Rule.prec 1 (Rule.str "+")))
  precedences := [[{ name := "sum" }, { name := "call" }]]

/- The same grammar without the level comes back. -/
theorem exported_grammar_reads_back_iff_plain :
    "leveled" ∉ importHintNames ∧
      ∃ result : Grammar,
        importGrammarJSON (exportGrammarJSON { leveledGrammar with precedences := [] }) =
          .ok result ∧
          ReadsBack { leveledGrammar with precedences := [] } result := by
  have hName : "leveled" ∉ importHintNames := by
    decide
  refine ⟨hName, ?_⟩
  refine (exported_grammar_reads_back_iff _ hName).mpr ?_
  have hExact : ExactPrec 1 := by refine ⟨?_, ?_, ?_⟩ <;> decide
  refine ⟨?_, ?_, ?_, ?_, rfl, rfl⟩
  · intro entry hEntry
    rcases mem_singleton.mp hEntry with rfl
    simp only [Rule.optional, Rule.prec, Rule.str, Rule.Writable, Rule.AllWritable, and_true]
    refine ⟨?_, ?_, ?_⟩
    · exact ⟨fun _ => rfl, rfl, rfl, fun _ => rfl⟩
    · exact ⟨fun _ => rfl, rfl, hExact, fun _ => rfl⟩
    · exact ⟨nofun, rfl, rfl, fun _ => rfl⟩
  · exact nofun
  · exact nofun
  · exact nofun

/- A grammar with a precedence level comes back without it. -/
theorem exported_precedences_lost :
    "leveled" ∉ importHintNames ∧
      ¬ ∃ result : Grammar, importGrammarJSON (exportGrammarJSON leveledGrammar) = .ok result
        ∧ ReadsBack leveledGrammar result := by
  have hName : leveledGrammar.name ∉ importHintNames := by decide
  refine ⟨hName, ?_⟩
  rw [importGrammarJSON_exportGrammarJSON hName]
  rintro ⟨result, hResult, hSame⟩
  cases hResult
  cases hSame.precedences

end GoTreeSitter.Grammargen
