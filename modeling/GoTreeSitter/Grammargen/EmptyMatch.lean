import GoTreeSitter.Grammargen.RuleCorrect

/-
  Terminals that match the empty text.

  Main declarations:
    * `regexCanMatchEmpty`
    * `terminalRuleCanMatchEmpty`
    * `nil_mem_ruleTexts_iff`
    * `canMatchEmpty_iff_accepts`

  The test looks at one child after another, while the builder reads literals beside each other as
  one text. They agree if the empty literal is apart from other literals and every choice has a
  branch.
-/

-- The Test

namespace GoTreeSitter.Grammargen

open Automata

mutual

def regexCanMatchEmpty : RegexNode → Bool
  | .nil => true
  | .literal _ => false
  | .charClass _ _ => false
  | .dot => false
  | .seq children => regexesCanMatchEmpty children
  | .alt children => someRegexCanMatchEmpty children
  | .star _ => true
  | .question _ => true
  | .plus [] => true
  | .plus (child :: _) => regexCanMatchEmpty child
  | .count [] _ _ => true
  | .count (child :: _) count _ => count == 0 || regexCanMatchEmpty child

def regexesCanMatchEmpty : List RegexNode → Bool
  | [] => true
  | child :: rest => regexCanMatchEmpty child && regexesCanMatchEmpty rest

def someRegexCanMatchEmpty : List RegexNode → Bool
  | [] => false
  | child :: rest => regexCanMatchEmpty child || someRegexCanMatchEmpty rest

end

variable (parseRegex : RegexParser)

mutual

def terminalRuleCanMatchEmpty : Rule → Bool
  | .nil => true
  | .node .blank _ _ _ _ => true
  | .node .string value _ _ _ => value == "" || value == "\x00"
  | .node .pattern value _ _ _ =>
    match parseRegex value with
    | .ok node => regexCanMatchEmpty node
    | .error _ => false
  | .node .seq _ children _ _ => terminalRulesCanMatchEmpty children
  | .node .choice _ children _ _ => someTerminalRuleCanMatchEmpty children
  | .node .repeats _ _ _ _ => true
  | .node .optional _ _ _ _ => true
  | .node .repeat1 _ [] _ _ => true
  | .node _ _ [] _ _ => false
  | .node _ _ (child :: _) _ _ => terminalRuleCanMatchEmpty child

def terminalRulesCanMatchEmpty : List Rule → Bool
  | [] => true
  | child :: rest => terminalRuleCanMatchEmpty child && terminalRulesCanMatchEmpty rest

def someTerminalRuleCanMatchEmpty : List Rule → Bool
  | [] => false
  | child :: rest => terminalRuleCanMatchEmpty child || someTerminalRuleCanMatchEmpty rest

end

-- Choices with Branches

mutual

/- An alternation that is not left out has a branch. -/
def RegexBranches : RegexNode → Prop
  | .seq children => RegexesBranch children
  | .alt children => children ≠ [] ∧ RegexesBranch children
  | .plus (child :: _) => RegexBranches child
  | .count (child :: _) _ _ => RegexBranches child
  | _ => True

def RegexesBranch : List RegexNode → Prop
  | [] => True
  | child :: rest => RegexBranches child ∧ RegexesBranch rest

end

mutual

def RuleBranches : Rule → Prop
  | .node .seq _ children _ _ => RulesBranch children
  | .node .choice _ children _ _ => children ≠ [] ∧ RulesBranch children
  | .node .repeat1 _ (child :: _) _ _ => RuleBranches child
  | _ => True

def RulesBranch : List Rule → Prop
  | [] => True
  | child :: rest => RuleBranches child ∧ RulesBranch rest

end

section

open Computability

variable {lang lang' : Language Char}

lemma nil_mem_mul_iff : [] ∈ lang * lang' ↔ [] ∈ lang ∧ [] ∈ lang' := by
  rw [Language.mem_mul]
  constructor
  · simp
  · simp

lemma nil_mem_pow_iff (n : Nat) : [] ∈ lang ^ n ↔ n = 0 ∨ [] ∈ lang := by
  induction n with
  | zero => simp
  | succ n ih =>
    rw [pow_succ, nil_mem_mul_iff, ih]
    simp +contextual

lemma nil_notMem_charLang (p : Char → Prop) : [] ∉ charLang p := by
  rintro ⟨c, _, hNil⟩
  cases hNil

lemma nil_mem_countLang_iff (minCount : Nat) (countMax : Int) :
    [] ∈ countLang lang minCount countMax ↔ minCount = 0 ∨ [] ∈ lang := by
  unfold countLang
  split
  · split
    · exact nil_mem_pow_iff minCount
    · rw [nil_mem_mul_iff, nil_mem_pow_iff]
      exact and_iff_left (Language.nil_mem_kstar lang)
  constructor
  · rintro ⟨n, hLeast, _, hNil⟩
    rcases (nil_mem_pow_iff n).mp hNil with rfl | hLang
    · exact .inl (Nat.le_zero.mp hLeast)
    · exact .inr hLang
  · intro h
    exact ⟨minCount, le_rfl, le_max_left _ _, (nil_mem_pow_iff minCount).mpr h⟩

lemma nil_mem_stringLang_iff (text : String) :
    [] ∈ stringLang text ↔ text = "" ∨ text = nulText := by
  unfold stringLang
  split_ifs with hNul
  · exact ⟨fun _ => .inr hNul, fun _ => Language.nil_mem_one⟩
  rw [or_iff_left hNul, ← String.toList_inj]
  exact eq_comm

end

variable {cls : List RuneRange → Bool → Char → Prop}

mutual

lemma nil_mem_regexLang_iff (node : RegexNode) (hBranches : RegexBranches node) :
    [] ∈ regexLang cls node ↔ regexCanMatchEmpty node := by
  match node with
  | .nil => simp [regexLang, regexCanMatchEmpty]
  | .literal _ => simp [regexLang, regexCanMatchEmpty, nil_notMem_charLang]
  | .charClass _ _ => simp [regexLang, regexCanMatchEmpty, nil_notMem_charLang]
  | .dot => simp [regexLang, regexCanMatchEmpty, nil_notMem_charLang]
  | .seq children =>
    rw [regexLang, regexCanMatchEmpty]
    exact nil_mem_regexProduct_iff children hBranches
  | .alt [] => exact absurd rfl hBranches.1
  | .alt (first :: rest) =>
    rw [regexLang, regexCanMatchEmpty]
    exact nil_mem_regexSum_iff (first :: rest) hBranches.2
  | .star [] => simp [regexLang, regexCanMatchEmpty]
  | .star (child :: _) => simp [regexLang, regexCanMatchEmpty, Language.nil_mem_kstar]
  | .plus [] => simp [regexLang, regexCanMatchEmpty]
  | .plus (child :: _) =>
    rw [regexLang, regexCanMatchEmpty, nil_mem_mul_iff, and_iff_left (Language.nil_mem_kstar _)]
    exact nil_mem_regexLang_iff child hBranches
  | .question [] => simp [regexLang, regexCanMatchEmpty]
  | .question (child :: _) => simp [regexLang, regexCanMatchEmpty, Language.mem_add]
  | .count [] _ _ => simp [regexLang, regexCanMatchEmpty]
  | .count (child :: _) minCount _ =>
    rw [regexLang, regexCanMatchEmpty, nil_mem_countLang_iff, Bool.or_eq_true, beq_iff_eq,
      nil_mem_regexLang_iff child hBranches]

lemma nil_mem_regexProduct_iff (children : List RegexNode) (hBranches : RegexesBranch children) :
    [] ∈ regexProduct cls children ↔ regexesCanMatchEmpty children := by
  match children with
  | [] => simp [regexProduct, regexesCanMatchEmpty]
  | child :: rest =>
    rw [regexProduct, regexesCanMatchEmpty, nil_mem_mul_iff, Bool.and_eq_true,
      nil_mem_regexLang_iff child hBranches.1, nil_mem_regexProduct_iff rest hBranches.2]

lemma nil_mem_regexSum_iff (children : List RegexNode) (hBranches : RegexesBranch children) :
    [] ∈ regexSum cls children ↔ someRegexCanMatchEmpty children := by
  match children with
  | [] => simp [regexSum, someRegexCanMatchEmpty]
  | child :: rest =>
    rw [regexSum, someRegexCanMatchEmpty, Language.mem_add, Bool.or_eq_true,
      nil_mem_regexLang_iff child hBranches.1, nil_mem_regexSum_iff rest hBranches.2]

end

/- The test is right about patterns that are read. -/
def PatternsTested (parseRegex : RegexParser) (fits : String → Prop)
    (read : String → Language Char) : Prop :=
  ∀ pattern : String, fits pattern →
    ([] ∈ read pattern ↔ terminalRuleCanMatchEmpty parseRegex (.node .pattern pattern [] 0 false))

variable {parseRegex : RegexParser} {fits : String → Prop} {read : String → Language Char}

mutual

/- The test is right about a rule, if it is about its patterns. -/
lemma nil_mem_ruleTexts_iff
    (hTest : PatternsTested parseRegex fits read)
    (rule : Rule)
    (hFits : RuleMeets fits rule)
    (hBranches : RuleBranches rule) :
    [] ∈ ruleTexts read rule ↔ terminalRuleCanMatchEmpty parseRegex rule := by
  match rule with
  | .nil => simp [ruleTexts, terminalRuleCanMatchEmpty]
  | .node .string value _ _ _ =>
    rw [ruleTexts, terminalRuleCanMatchEmpty, nil_mem_stringLang_iff, Bool.or_eq_true, beq_iff_eq,
      beq_iff_eq, nulText]
  | .node .pattern value _ _ _ =>
    refine (hTest value hFits).trans ?_
    rw [terminalRuleCanMatchEmpty, terminalRuleCanMatchEmpty]
  | .node .seq _ children _ _ =>
    rw [ruleTexts, terminalRuleCanMatchEmpty]
    exact nil_mem_ruleProduct_iff hTest children hFits.2 hBranches
  | .node .choice _ [] _ _ => exact absurd rfl hBranches.1
  | .node .choice _ (first :: rest) _ _ =>
    rw [ruleTexts, terminalRuleCanMatchEmpty]
    exact nil_mem_ruleSum_iff hTest (first :: rest) hFits.2 hBranches.2
  | .node .repeats _ [] _ _ => simp [ruleTexts, terminalRuleCanMatchEmpty]
  | .node .repeats _ (child :: _) _ _ =>
    simp [ruleTexts, terminalRuleCanMatchEmpty, Language.nil_mem_kstar]
  | .node .repeat1 _ [] _ _ => simp [ruleTexts, terminalRuleCanMatchEmpty]
  | .node .repeat1 _ (child :: _) _ _ =>
    rw [ruleTexts, nil_mem_mul_iff, and_iff_left (Language.nil_mem_kstar _),
      nil_mem_ruleTexts_iff hTest child hFits hBranches]
    simp [terminalRuleCanMatchEmpty]
  | .node .optional _ [] _ _ => simp [ruleTexts, terminalRuleCanMatchEmpty]
  | .node .optional _ (child :: _) _ _ =>
    simp [ruleTexts, terminalRuleCanMatchEmpty, Language.mem_add]
  | .node .blank _ _ _ _ => simp [ruleTexts, terminalRuleCanMatchEmpty]
  | .node .symbol _ _ _ _ | .node .token _ _ _ _ | .node .immToken _ _ _ _ | .node .field _ _ _ _
  | .node .prec _ _ _ _ | .node .precLeft _ _ _ _ | .node .precRight _ _ _ _
  | .node .precDynamic _ _ _ _
  | .node .aliased _ _ _ _ => exact hFits.elim

lemma nil_mem_ruleProduct_iff
    (hTest : PatternsTested parseRegex fits read)
    (children : List Rule)
    (hFits : RulesMeet fits children)
    (hBranches : RulesBranch children) :
    [] ∈ ruleProduct read children ↔ terminalRulesCanMatchEmpty parseRegex children := by
  match children with
  | [] => simp [ruleProduct, terminalRulesCanMatchEmpty]
  | child :: rest =>
    rw [ruleProduct, terminalRulesCanMatchEmpty, nil_mem_mul_iff, Bool.and_eq_true,
      nil_mem_ruleTexts_iff hTest child hFits.1 hBranches.1,
      nil_mem_ruleProduct_iff hTest rest hFits.2 hBranches.2]

lemma nil_mem_ruleSum_iff
    (hTest : PatternsTested parseRegex fits read)
    (children : List Rule)
    (hFits : RulesMeet fits children)
    (hBranches : RulesBranch children) :
    [] ∈ ruleSum read children ↔ someTerminalRuleCanMatchEmpty parseRegex children := by
  match children with
  | [] => simp [ruleSum, someTerminalRuleCanMatchEmpty]
  | child :: rest =>
    rw [ruleSum, someTerminalRuleCanMatchEmpty, Language.mem_add, Bool.or_eq_true,
      nil_mem_ruleTexts_iff hTest child hFits.1 hBranches.1,
      nil_mem_ruleSum_iff hTest rest hFits.2 hBranches.2]

end

end GoTreeSitter.Grammargen
