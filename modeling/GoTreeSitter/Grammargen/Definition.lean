import Mathlib.Data.List.Nodup

/-
  Rule trees, regular expressions and grammars as they are written down.

  Main declarations:
    * `Rule`
    * `RegexNode`
    * `RuleTable`
    * `RuleTable.entries_define_of_new`

  A rule is a node with a kind and its children, or nothing. A node of a regular expression has the
  fields its kind uses. The rules of a grammar are listed in the order they were defined in, each
  name once.
-/

namespace GoTreeSitter.Grammargen

inductive RuleKind where
  | string
  | pattern
  | symbol
  | seq
  | choice
  | repeats
  | repeat1
  | optional
  | token
  | immToken
  | field
  | prec
  | precLeft
  | precRight
  | precDynamic
  | blank
  | aliased
  deriving DecidableEq

namespace RuleKind

/- The number of a kind. -/
def code : RuleKind → Nat
  | string => 0
  | pattern => 1
  | symbol => 2
  | seq => 3
  | choice => 4
  | repeats => 5
  | repeat1 => 6
  | optional => 7
  | token => 8
  | immToken => 9
  | field => 10
  | prec => 11
  | precLeft => 12
  | precRight => 13
  | precDynamic => 14
  | blank => 15
  | aliased => 16

end RuleKind

/- A node of a rule tree, or the missing rule. -/
inductive Rule where
  | nil
  | node (kind : RuleKind) (value : String) (children : List Rule) (prec : Int) (named : Bool)

namespace Rule

/- The text of a literal. -/
def literal? : Rule → Option String
  | node .string value _ _ _ => some value
  | _ => none

end Rule

/- Characters from one code to another, inclusive. -/
structure RuneRange where
  lo : Int
  hi : Int
  deriving DecidableEq

/- A node of a regular expression, or the missing one. -/
inductive RegexNode where
  | nil
  | literal (value : Int)
  | charClass (runes : List RuneRange) (negate : Bool)
  | dot
  | seq (children : List RegexNode)
  | alt (children : List RegexNode)
  | star (children : List RegexNode)
  | plus (children : List RegexNode)
  | question (children : List RegexNode)
  | count (children : List RegexNode) (count : Nat) (countMax : Int)

/- A terminal with the rule of its text. -/
structure TerminalPattern where
  symbolID : Int
  rule : Rule
  priority : Int := 0

-- Builders

namespace Rule

/- A string literal. -/
def str (value : String) : Rule := node .string value [] 0 false

/- A regular expression. -/
def pat (pattern : String) : Rule := node .pattern pattern [] 0 false

/- A reference to a symbol. -/
def sym (name : String) : Rule := node .symbol name [] 0 false

/- The empty rule. -/
def blank : Rule :=
  node .blank "" [] 0 false

/- Rules one after the other. -/
def seq (rules : List Rule) : Rule :=
  node .seq "" rules 0 false

/- One of several rules. -/
def choice (rules : List Rule) : Rule :=
  node .choice "" rules 0 false

/- Zero or more times a rule. -/
def repeats (rule : Rule) : Rule :=
  node .repeats "" [rule] 0 false

/- One or more times a rule. -/
def repeat1 (rule : Rule) : Rule :=
  node .repeat1 "" [rule] 0 false

/- A rule or nothing. -/
def optional (rule : Rule) : Rule :=
  node .optional "" [rule] 0 false

/- A rule read as one token. -/
def token (rule : Rule) : Rule :=
  node .token "" [rule] 0 false

/- A token with no space before it. -/
def immToken (rule : Rule) : Rule :=
  node .immToken "" [rule] 0 false

/- A rule in a field. -/
def field (name : String) (rule : Rule) : Rule := node .field name [rule] 0 false

/- A rule with a precedence. -/
def prec (n : Int) (rule : Rule) : Rule :=
  node .prec "" [rule] n false

/- A left-associative rule. -/
def precLeft (n : Int) (rule : Rule) : Rule :=
  node .precLeft "" [rule] n false

/- A right-associative rule. -/
def precRight (n : Int) (rule : Rule) : Rule :=
  node .precRight "" [rule] n false

/- A rule with a dynamic precedence. -/
def precDynamic (n : Int) (rule : Rule) : Rule :=
  node .precDynamic "" [rule] n false

/- A rule under another name. -/
def aliased (rule : Rule) (name : String) (named : Bool) : Rule := node .aliased name [rule] 0 named

end Rule

-- Rules by Name

/- The rules of a grammar in order, each name once. -/
structure RuleTable where
  entries : List (String × Rule)
  distinct : (entries.map Prod.fst).Nodup

namespace RuleTable

variable (table : RuleTable) (name : String) (rule : Rule)

/- The names in the order they were defined in. -/
def names : List String := table.entries.map Prod.fst

/- The rule of a name. -/
def find : Option Rule := table.entries.lookup name

def empty : RuleTable := ⟨[], List.nodup_nil⟩

/- Give a name a rule where it stands. -/
def replaced (entry : String × Rule) : String × Rule :=
  if entry.1 = name then (name, rule) else entry

lemma map_fst_replaced (entries : List (String × Rule)) :
    (entries.map (replaced name rule)).map Prod.fst = entries.map Prod.fst := by
  rw [List.map_map]
  refine List.map_congr_left ?_
  intro entry _
  simp only [Function.comp_apply, replaced]
  split_ifs with hName
  · exact hName.symm
  · rfl

lemma nodup_append_new {entries : List (String × Rule)} {name : String} {rule : Rule}
    (hDistinct : (entries.map Prod.fst).Nodup) (hNew : name ∉ entries.map Prod.fst) :
    ((entries ++ [(name, rule)]).map Prod.fst).Nodup := by
  rw [List.map_append, List.map_singleton]
  exact hDistinct.append (List.nodup_singleton name) (List.disjoint_singleton.mpr hNew)

/- Add a rule; a name keeps its first place. -/
def define : RuleTable :=
  if hName : name ∈ table.entries.map Prod.fst then
    ⟨table.entries.map (replaced name rule), by
      rw [map_fst_replaced]
      exact table.distinct⟩
  else
    ⟨table.entries ++ [(name, rule)], nodup_append_new table.distinct hName⟩

/- A new name comes last. -/
lemma entries_define_of_new {table : RuleTable} {name : String} {rule : Rule}
    (hNew : name ∉ table.names) :
    (table.define name rule).entries = table.entries ++ [(name, rule)] := by
  have hMem : name ∉ table.entries.map Prod.fst := hNew
  rw [define, dif_neg hMem]

end RuleTable

-- Grammars

/- A named precedence, or the rule of a name. -/
structure PrecEntry where
  isSymbol : Bool := false
  name : String
  deriving DecidableEq

/- A named set of reserved words. -/
structure ReservedWordSet where
  name : String
  rules : List Rule

/- A grammar as its author writes it. -/
structure Grammar where
  name : String
  rules : RuleTable := RuleTable.empty
  extras : List Rule := []
  conflicts : List (List String) := []
  externals : List Rule := []
  inlineRules : List String := []
  word : String := ""
  reservedWordSets : List ReservedWordSet := []
  supertypes : List String := []
  binaryRepeatMode : Bool := false
  flattenGeneratedRepeatAux : Bool := false
  reuseRepeatAuxForParents : List String := []
  preserveKeywordIdentifierConflicts : Bool := false
  preferExpressionOperatorIdentifierReduces : Bool := false
  preferParenthesizedCallDoBlockReduces : Bool := false
  preferRemoteCallOperatorReduces : Bool := false
  preferStabClauseLeftArrowReduces : Bool := false
  preferPreciseExternalLexStates : Bool := false
  exactPrefixStates : Nat := 0
  precedences : List (List PrecEntry) := []
  suppressEquivalentExternalReduceLookaheads : Bool := false
  externalReduceFollowLookaheads : List String := []
  priorityInlinePatterns : List String := []
  preserveHiddenChoicePassthrough : List String := []
  wantsForest : Bool := false

/- A grammar with no rules. -/
def newGrammar (name : String) : Grammar where
  name := name

namespace Grammar

/- Add a rule to a grammar. -/
def define (g : Grammar) (name : String) (rule : Rule) : Grammar :=
  { g with rules := g.rules.define name rule }

end Grammar

end GoTreeSitter.Grammargen
