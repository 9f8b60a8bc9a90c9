import GoTreeSitter.Grammargen.Nfa
import Mathlib

/-
  The texts of terminals.

  Key definitions include:
    * `regexLang`
    * `ruleLang`

  Rules and regular expressions denote languages. The literal of the zero character denotes the
  empty text, and a count from two on without a maximum is exact.
-/

-- Characters

namespace GoTreeSitter.Grammargen

/- The code of a character is in a range. -/
def RuneRange.Has (r : RuneRange) (c : Char) : Prop := r.lo ≤ c.toNat ∧ (c.toNat : Int) ≤ r.hi

/- The texts of one character. -/
def charLang (p : Char → Prop) : Language Char := {w | ∃ c : Char, p c ∧ w = [c]}

/- A character class has a character. -/
def ClassHas (runes : List RuneRange) (negate : Bool) (c : Char) : Prop :=
  if negate then
    ∀ r ∈ runes, ¬ r.Has c
  else
    ∃ r ∈ runes, r.Has c

-- Regular Expressions

open Computability

/- So many copies, from a least to a greatest number. -/
def copiesLang (lang : Language Char) (least greatest : Nat) : Language Char :=
  {w | ∃ n : Nat, least ≤ n ∧ n ≤ greatest ∧ w ∈ lang ^ n}

/- Repetition from a minimum to a maximum. -/
def countLang (lang : Language Char) (minCount : Nat) (countMax : Int) : Language Char :=
  if countMax < 0 then
    if 2 ≤ minCount then lang ^ minCount
    else lang ^ minCount * lang∗
  else
    copiesLang lang minCount (max minCount countMax.toNat)

variable (cls : List RuneRange → Bool → Char → Prop)

mutual

/- The texts of a regular expression, by what its classes have. -/
def regexLang : RegexNode → Language Char
  | .nil => 1
  | .literal value => charLang (fun c => (c.toNat : Int) = value)
  | .charClass runes negate => charLang (cls runes negate)
  | .dot => charLang (fun c => c ≠ '\n')
  | .seq children => regexProduct children
  | .alt [] => 1
  | .alt (first :: rest) => regexLang first + regexSum rest
  | .star [] => 1
  | .star (child :: _) => (regexLang child)∗
  | .plus [] => 1
  | .plus (child :: _) => regexLang child * (regexLang child)∗
  | .question [] => 1
  | .question (child :: _) => 1 + regexLang child
  | .count [] _ _ => 1
  | .count (child :: _) minCount countMax => countLang (regexLang child) minCount countMax

def regexProduct : List RegexNode → Language Char
  | [] => 1
  | child :: rest => regexLang child * regexProduct rest

def regexSum : List RegexNode → Language Char
  | [] => 0
  | child :: rest => regexLang child + regexSum rest

end

mutual

/- Every single character of an expression has a property. -/
def EveryLeaf (p : RegexNode → Prop) : RegexNode → Prop
  | .literal value => p (.literal value)
  | .charClass runes negate => p (.charClass runes negate)
  | .seq children => EveryLeafOf p children
  | .alt children => EveryLeafOf p children
  | .star (child :: _) => EveryLeaf p child
  | .plus (child :: _) => EveryLeaf p child
  | .question (child :: _) => EveryLeaf p child
  | .count (child :: _) _ _ => EveryLeaf p child
  | _ => True

def EveryLeafOf (p : RegexNode → Prop) : List RegexNode → Prop
  | [] => True
  | child :: rest => EveryLeaf p child ∧ EveryLeafOf p rest

end

/-
  The ranges of a class are not reversed, and the code after
  the last one of a range is still a 32-bit number.
-/
def LeafOrdered : RegexNode → Prop
  | .charClass runes _ => ∀ r ∈ runes, r.lo ≤ r.hi ∧ r.hi + 1 < 2 ^ 31
  | _ => True

/- Some character is matched. -/
def LeafAlive : RegexNode → Prop
  | .literal value => ∃ c : Char, (c.toNat : Int) = value
  | .charClass runes negate => ∃ c : Char, cls runes negate c
  | _ => True

-- Rules

/- The literal that stands for the empty text. -/
def nulText : String := "\x00"

/- The text of a literal. -/
def stringLang (text : String) : Language Char :=
  if text = nulText then 1 else {text.toList}

variable (parseRegex : RegexParser)

/- The texts of a pattern. -/
def patternLang (pattern : String) : Language Char :=
  match parseRegex pattern with
  | .ok node => regexLang cls node
  | .error _ => 0

variable (texts : String → Language Char)

mutual

/- The texts of a rule, by those of its patterns. -/
def ruleTexts : Rule → Language Char
  | .nil => 1
  | .node .string value _ _ _ => stringLang value
  | .node .pattern value _ _ _ => texts value
  | .node .seq _ children _ _ => ruleProduct children
  | .node .choice _ [] _ _ => 1
  | .node .choice _ (first :: rest) _ _ => ruleTexts first + ruleSum rest
  | .node .repeats _ [] _ _ => 1
  | .node .repeats _ (child :: _) _ _ => (ruleTexts child)∗
  | .node .repeat1 _ [] _ _ => 1
  | .node .repeat1 _ (child :: _) _ _ => ruleTexts child * (ruleTexts child)∗
  | .node .optional _ [] _ _ => 1
  | .node .optional _ (child :: _) _ _ => 1 + ruleTexts child
  | .node .blank _ _ _ _ => 1
  | .node _ _ _ _ _ => 0

def ruleProduct : List Rule → Language Char
  | [] => 1
  | child :: rest => ruleTexts child * ruleProduct rest

def ruleSum : List Rule → Language Char
  | [] => 0
  | child :: rest => ruleTexts child + ruleSum rest

end

/- The texts of a rule. -/
def ruleLang : Rule → Language Char := ruleTexts (patternLang ClassHas parseRegex)

/- The pattern is an expression with ordered ranges. -/
def PatternFits (pattern : String) : Prop := ∃ node : RegexNode, parseRegex pattern = .ok node ∧
    EveryLeaf LeafOrdered node

def PatternAlive (pattern : String) : Prop := ∀ node : RegexNode,
    parseRegex pattern = .ok node → EveryLeaf (LeafAlive ClassHas) node

/- The empty literal does not stand beside a literal. -/
def NulApart : List Rule → Prop
  | [] => True
  | [_] => True
  | first :: second :: rest =>
    (first.literal?.isSome = true → second.literal?.isSome = true →
      first.literal? ≠ some nulText ∧ second.literal? ≠ some nulText) ∧
    NulApart (second :: rest)

/- The empty literal is not among literals only. -/
def NulMixed (children : List Rule) : Prop := ∀ texts : List String,
    literals? children = some texts → nulText ∉ texts

variable (fits : String → Prop)

mutual

/- The rule has supported kinds and patterns only, and the empty literal is apart from others. -/
def RuleMeets : Rule → Prop
  | .nil => True
  | .node .string _ _ _ _ => True
  | .node .pattern value _ _ _ => fits value
  | .node .seq _ children _ _ => NulApart children ∧ RulesMeet children
  | .node .choice _ children _ _ => NulMixed children ∧ RulesMeet children
  | .node .repeats _ [] _ _ => True
  | .node .repeats _ (child :: _) _ _ => RuleMeets child
  | .node .repeat1 _ [] _ _ => True
  | .node .repeat1 _ (child :: _) _ _ => RuleMeets child
  | .node .optional _ [] _ _ => True
  | .node .optional _ (child :: _) _ _ => RuleMeets child
  | .node .blank _ _ _ _ => True
  | .node _ _ _ _ _ => False

def RulesMeet : List Rule → Prop
  | [] => True
  | child :: rest => RuleMeets child ∧ RulesMeet rest

end

/- The patterns of the rule are expressions with ordered ranges. -/
def RuleFits : Rule → Prop := RuleMeets (PatternFits parseRegex)

variable (lives : String → Prop)

mutual

/- Every pattern of a rule lives. -/
def RuleLives : Rule → Prop
  | .node .pattern value _ _ _ => lives value
  | .node .seq _ children _ _ => RulesLive children
  | .node .choice _ children _ _ => RulesLive children
  | .node .repeats _ (child :: _) _ _ => RuleLives child
  | .node .repeat1 _ (child :: _) _ _ => RuleLives child
  | .node .optional _ (child :: _) _ _ => RuleLives child
  | _ => True

def RulesLive : List Rule → Prop
  | [] => True
  | child :: rest => RuleLives child ∧ RulesLive rest

end

/- Every character class and escape matches a character. -/
def RuleAlive : Rule → Prop := RuleLives (PatternAlive parseRegex)

end GoTreeSitter.Grammargen
