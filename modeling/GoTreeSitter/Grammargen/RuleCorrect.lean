import GoTreeSitter.Grammargen.RegexCorrect
import GoTreeSitter.Grammargen.TrieCorrect

/-
  Fragments of rules.

  Main declarations:
    * `BuildsSome`
    * `RunFits`
    * `stringLang_append`
    * `builds_rule`

  Literals beside each other are read as one text, and a choice of literals is read in a trie. Both
  have the texts of the rule if the empty literal is apart.
-/

-- Literals

namespace GoTreeSitter.Grammargen

variable (read : String → Language Char)

lemma append_ne_nulText {first second : String} (hFirst : first ≠ nulText)
    (hSecond : second ≠ nulText) :
    first ++ second ≠ nulText := by
  intro hAppend
  have hChars : first.toList ++ second.toList = nulText.toList := by
    rw [← String.toList_append, hAppend]
  have hSingle : nulText.toList = [Char.ofNat 0] := by decide
  rw [hSingle, List.append_eq_singleton_iff] at hChars
  rcases hChars with ⟨_, hNul⟩ | ⟨hNul, _⟩
  · exact hSecond (String.toList_inj.mp (hNul.trans hSingle.symm))
  · exact hFirst (String.toList_inj.mp (hNul.trans hSingle.symm))

lemma stringLang_append {first second : String} (hFirst : first ≠ nulText)
    (hSecond : second ≠ nulText) :
    stringLang (first ++ second) = stringLang first * stringLang second := by
  unfold stringLang
  rw [if_neg hFirst, if_neg hSecond, if_neg (append_ne_nulText hFirst hSecond),
    String.toList_append, singleton_mul_singleton]

variable {text : String}

lemma ruleTexts_of_literal {rule : Rule} (hLiteral : rule.literal? = some text) :
    ruleTexts read rule = stringLang text := by
  cases rule with
  | nil => cases hLiteral
  | node kind value children prec named =>
    cases kind with
    | string =>
      cases hLiteral
      rw [ruleTexts]
    | _ => cases hLiteral

variable {texts : List String}

lemma ruleSum_of_literals {children : List Rule} (hLiterals : literals? children = some texts)
    (hNul : nulText ∉ texts) :
    ruleSum read children = textsLang texts := by
  induction children generalizing texts with
  | nil =>
    cases hLiterals
    ext w
    rw [ruleSum]
    refine ⟨fun h => h.elim, ?_⟩
    rintro ⟨text, hText, _⟩
    cases hText
  | cons child children ih =>
    rw [literals?] at hLiterals
    split at hLiterals
    · rename_i text rest hChild hRest
      cases hLiterals
      rw [List.mem_cons, not_or] at hNul
      rw [ruleSum, ih hRest hNul.2, ruleTexts_of_literal read hChild, stringLang,
        if_neg (Ne.symm hNul.1)]
      ext w
      rw [Language.mem_add]
      constructor
      · rintro (rfl | ⟨other, hOther, rfl⟩)
        · exact ⟨text, List.mem_cons_self, rfl⟩
        · exact ⟨other, List.mem_cons_of_mem _ hOther, rfl⟩
      rintro ⟨other, hOther, rfl⟩
      rcases List.mem_cons.mp hOther with rfl | hRest
      · exact .inl rfl
      · exact .inr ⟨other, hRest, rfl⟩
    · cases hLiterals

lemma literals?_ne_nil {child : Rule} {children : List Rule}
    (hLiterals : literals? (child :: children) = some texts) :
    texts ≠ [] := by
  rw [literals?] at hLiterals
  split at hLiterals
  · cases hLiterals
    exact List.cons_ne_nil _ _
  · cases hLiterals

-- Runs of Literals

variable {run : Option String} {child : Rule} {rest : List Rule}

/- What is built of a sequence so far, if anything. -/
def BuildsSome (fine : Prop) (b b' : NfaBuilder) (cur : Option NfaFragment) (lang : Language Char)
    (alive : Prop) : Prop :=
  match cur with
  | none => b' = b ∧ lang = 1
  | some frag => Builds fine b b' frag lang alive

/- The text of a run. -/
def runLang (run : Option String) : Language Char :=
  match run with
  | none => 1
  | some text => stringLang text

/- A run goes on only with texts that are not empty. -/
def RunFits (run : Option String) (children : List Rule) : Prop :=
  ∀ (before : String) (child : Rule) (rest : List Rule), run = some before → children = child ::
    rest → child.literal?.isSome = true → before ≠ nulText ∧ child.literal? ≠ some nulText

variable {b b' b'' : NfaBuilder} {cur : Option NfaFragment} {next : NfaFragment}
  {lang lang' : Language Char} {alive alive' fine : Prop}

lemma BuildsSome.join (hCur : BuildsSome fine b b' cur lang alive)
    (hNext : Builds fine b' b'' next lang' alive') :
    Builds fine b (joinFragment cur next b'').2 (joinFragment cur next b'').1 (lang * lang')
      (alive ∧ alive') := by
  cases cur with
  | none =>
    rcases hCur with ⟨rfl, rfl⟩
    exact hNext.congr (one_mul lang').symm fun h => h.2
  | some frag => exact Builds.join hCur hNext

lemma BuildsSome.flush (hCur : BuildsSome fine b b' cur lang alive) (run : Option String) :
    BuildsSome fine b (flushRun run cur b').2 (flushRun run cur b').1 (lang * runLang run)
      alive := by
  cases run with
  | none =>
    rw [runLang, mul_one]
    exact hCur
  | some text => exact (hCur.join (builds_string text b')).congr rfl (fun h => ⟨h, trivial⟩)

lemma flushRun_isSome (b : NfaBuilder) (hSome : run.isSome ∨ cur.isSome) :
    ∃ frag, (flushRun run cur b).1 = some frag := by
  cases run with
  | none => exact Option.isSome_iff_exists.mp (hSome.resolve_left nofun)
  | some text => exact ⟨_, rfl⟩

/- One more literal in a run. -/
lemma runLang_append (hRun : RunFits run (child :: rest)) (hLiteral : child.literal? = some text) :
    runLang (some (run.getD "" ++ text)) = runLang run * stringLang text := by
  cases run with
  | none => rw [runLang, runLang, Option.getD_none, String.empty_append, one_mul]
  | some before =>
    have hFits := hRun before child rest rfl rfl (by
      rw [hLiteral]
      rfl)
    rw [hLiteral] at hFits
    exact stringLang_append hFits.1 fun h => hFits.2 (congrArg some h)

lemma RunFits.append (hRun : RunFits run (child :: rest)) (hApart : NulApart (child :: rest))
    (hLiteral : child.literal? = some text) :
    RunFits (some (run.getD "" ++ text)) rest := by
  rintro before second rest' hBefore rfl hSecond
  cases hBefore
  have hNot := hApart.1 (by
    rw [hLiteral]
    rfl) hSecond
  rw [hLiteral] at hNot
  have hText : text ≠ nulText := fun h => hNot.1 (congrArg some h)
  refine ⟨?_, hNot.2⟩
  cases run with
  | none =>
    rw [Option.getD_none, String.empty_append]
    exact hText
  | some earlier =>
    have hFits := hRun earlier child _ rfl rfl (by
      rw [hLiteral]
      rfl)
    exact append_ne_nulText hFits.1 hText

lemma runFits_none (children : List Rule) : RunFits none children :=
  fun _ _ _ hSome => by cases hSome

lemma NulApart.tail (hApart : NulApart (child :: rest)) : NulApart rest := by
  cases rest with
  | nil => trivial
  | cons second rest => exact hApart.2

-- Rules

/- A fragment is built, without an error. -/
def BuildsOk (fine : Prop) (b : NfaBuilder) (result : Except String (NfaFragment × NfaBuilder))
    (lang : Language Char) (alive : Prop) : Prop :=
  ∃ (frag : NfaFragment) (b' : NfaBuilder),
    result = .ok (frag, b') ∧ Builds fine b b' frag lang alive

/- Each pattern that fits is built for its texts. -/
def PatternsBuilt (fine : Prop) (parseRegex : RegexParser) (fits : String → Prop)
    (read : String → Language Char) (lives : String → Prop) : Prop :=
  ∀ pattern : String, fits pattern → ∀ b : NfaBuilder,
    BuildsOk fine b (buildPattern parseRegex pattern b) (read pattern) (lives pattern)

/- Patterns with ordered ranges are built for the texts of their expressions. -/
lemma patternsBuilt_fits (parseRegex : RegexParser) :
    PatternsBuilt True parseRegex (PatternFits parseRegex) (patternLang ClassHas parseRegex)
      (PatternAlive parseRegex) := by
  rintro pattern ⟨node, hParse, hOrdered⟩ b
  have hClass : ClassesBuilt True ClassHas := fun runes negate hLeaf =>
    has_classRanges (fun r hr => (hLeaf trivial r hr).1) negate
  unfold buildPattern patternLang
  rw [hParse]
  exact ⟨_, _, rfl, (builds_regex hClass node (fun _ => hOrdered) b).congr rfl
    fun h => h node hParse⟩

lemma buildsOk_nothing (b : NfaBuilder) (alive : Prop) :
    BuildsOk fine b (.ok (buildEpsilon b)) 1 alive :=
  ⟨_, _, rfl, (builds_epsilon b).congr rfl fun _ => trivial⟩

lemma buildsOk_stringChoice
    {first : Rule}
    {rest : List Rule}
    (hLiterals : literals? (first :: rest) = some texts)
    (hMixed : NulMixed (first :: rest))
    (b : NfaBuilder)
    (alive : Prop) :
    BuildsOk fine b (.ok (buildStringChoice texts b))
      (ruleTexts read first + ruleSum read rest) alive := by
  have hSum := ruleSum_of_literals read hLiterals (hMixed texts hLiterals)
  refine ⟨_, _, rfl, (builds_stringChoice b (literals?_ne_nil hLiterals)).congr ?_ fun _ => trivial⟩
  exact hSum.symm

variable {parseRegex : RegexParser} {read : String → Language Char} {fits lives : String → Prop}

mutual

/- A rule is built for its texts, by what is built for its patterns. -/
lemma builds_rule
    (hPattern : PatternsBuilt fine parseRegex fits read lives)
    (rule : Rule)
    (hFits : RuleMeets fits rule)
    (b : NfaBuilder) :
    BuildsOk fine b (buildFromRule parseRegex rule b) (ruleTexts read rule)
      (RuleLives lives rule) := by
  match rule with
  | .nil => exact buildsOk_nothing b _
  | .node .string value _ _ _ =>
    exact ⟨_, _, rfl, (builds_string value b).congr rfl fun _ => trivial⟩
  | .node .pattern value _ _ _ => exact hPattern value hFits b
  | .node .seq _ [] _ _ => exact buildsOk_nothing b _
  | .node .seq _ (first :: rest) _ _ =>
    have hNone : BuildsSome fine b b none 1 True := ⟨rfl, rfl⟩
    rcases builds_seq hPattern (first :: rest) hFits.2 hFits.1 (runFits_none _) hNone
        (.inl (List.cons_ne_nil _ _)) with
      ⟨frag, b', hResult, hBuilds⟩
    refine ⟨frag, b', hResult, hBuilds.congr ?_ fun h => ⟨trivial, h⟩⟩
    rw [runLang, one_mul, one_mul, ruleTexts]
  | .node .choice _ [] _ _ => exact buildsOk_nothing b _
  | .node .choice _ (first :: rest) _ _ =>
    rw [buildFromRule, ruleTexts]
    split
    · rename_i texts hLiterals
      exact buildsOk_stringChoice read hLiterals hFits.1 b _
    rcases builds_choice hPattern (first :: rest) hFits.2 (buildsFan_start b)
        (.inl (List.cons_ne_nil _ _)) with
      ⟨b', hResult, hBuilds⟩
    rw [outerFragment_eq] at hResult hBuilds
    refine ⟨_, b', hResult, hBuilds.congr ?_ fun h => ⟨trivial, h⟩⟩
    rw [zero_add, ruleSum]
  | .node .repeats _ [] _ _ => exact buildsOk_nothing b _
  | .node .repeats _ (child :: _) _ _ =>
    rcases builds_rule hPattern child hFits b with ⟨inner, b', hResult, hBuilds⟩
    rw [buildFromRule, ruleTexts, hResult]
    exact ⟨_, _, rfl, hBuilds.star⟩
  | .node .repeat1 _ [] _ _ => exact buildsOk_nothing b _
  | .node .repeat1 _ (child :: _) _ _ =>
    rcases builds_rule hPattern child hFits b with ⟨inner, b', hResult, hBuilds⟩
    rw [buildFromRule, ruleTexts, hResult]
    exact ⟨_, _, rfl, hBuilds.plus⟩
  | .node .optional _ [] _ _ => exact buildsOk_nothing b _
  | .node .optional _ (child :: _) _ _ =>
    rcases builds_rule hPattern child hFits b with ⟨inner, b', hResult, hBuilds⟩
    rw [buildFromRule, ruleTexts, hResult]
    exact ⟨_, _, rfl, hBuilds.optional⟩
  | .node .blank _ _ _ _ => exact buildsOk_nothing b _
  | .node .symbol _ _ _ _ | .node .token _ _ _ _ | .node .immToken _ _ _ _ | .node .field _ _ _ _
  | .node .prec _ _ _ _ | .node .precLeft _ _ _ _ | .node .precRight _ _ _ _
  | .node .precDynamic _ _ _ _
  | .node .aliased _ _ _ _ => exact hFits.elim

lemma builds_seq
    (hPattern : PatternsBuilt fine parseRegex fits read lives)
    (children : List Rule)
    (hFits : RulesMeet fits children)
    (hApart : NulApart children)
    {run : Option String}
    (hRun : RunFits run children)
    {b b' : NfaBuilder}
    {cur : Option NfaFragment}
    {lang : Language Char}
    {alive : Prop}
    (hCur : BuildsSome fine b b' cur lang alive)
    (hSome : children ≠ [] ∨ run.isSome ∨ cur.isSome) :
    BuildsOk fine b (buildSeq parseRegex children run cur b')
      (lang * runLang run * ruleProduct read children) (alive ∧ RulesLive lives children) := by
  match children with
  | [] =>
    have hFlush := hCur.flush run
    rcases flushRun_isSome b' (hSome.resolve_left fun h => h rfl) with ⟨frag, hFrag⟩
    rw [buildSeq]
    generalize flushRun run cur b' = flushed at hFlush hFrag ⊢
    rcases flushed with ⟨cur', b1⟩
    dsimp only at hFlush hFrag ⊢
    rw [hFrag] at hFlush ⊢
    refine ⟨frag, b1, rfl, Builds.congr hFlush ?_ fun h => h.1⟩
    rw [ruleProduct, mul_one]
  | child :: rest =>
    rw [buildSeq]
    split
    · rename_i text hLiteral
      rcases builds_seq hPattern rest hFits.2 hApart.tail (hRun.append hApart hLiteral) hCur
          (.inr (.inl rfl)) with
        ⟨frag, last, hResult, hBuilds⟩
      refine ⟨frag, last, hResult, hBuilds.congr ?_ fun h => ⟨h.1, h.2.2⟩⟩
      rw [runLang_append hRun hLiteral, ruleProduct, ruleTexts_of_literal read hLiteral]
      simp only [mul_assoc]
    have hFlush := hCur.flush run
    generalize flushRun run cur b' = flushed at hFlush ⊢
    rcases flushed with ⟨cur', b1⟩
    dsimp only at hFlush ⊢
    rcases builds_rule hPattern child hFits.1 b1 with ⟨next, b2, hResult, hBuilds⟩
    have hJoin :
        BuildsSome fine b (joinFragment cur' next b2).2 (some (joinFragment cur' next b2).1) _ _ :=
      hFlush.join hBuilds
    rcases builds_seq hPattern rest hFits.2 hApart.tail (runFits_none rest) hJoin
      (.inr (.inr rfl)) with ⟨frag, last, hRest, hAll⟩
    rw [hResult]
    refine ⟨frag, last, hRest, hAll.congr ?_ fun h => ⟨⟨h.1, h.2.1⟩, h.2.2⟩⟩
    rw [runLang, mul_one, ruleProduct, ← mul_assoc]

lemma builds_choice
    (hPattern : PatternsBuilt fine parseRegex fits read lives)
    (children : List Rule)
    (hFits : RulesMeet fits children)
    {b b' : NfaBuilder}
    {sum : Language Char}
    {alive started : Prop}
    (hFan : BuildsFan fine b b' sum alive started)
    (hSome : children ≠ [] ∨ started) :
    ∃ b'',
      buildChoice parseRegex children (outerFragment b) b' = .ok (outerFragment b, b'') ∧
        Builds fine b b'' (outerFragment b) (sum + ruleSum read children)
          (alive ∧ RulesLive lives children) := by
  match children with
  | [] =>
    rw [buildChoice]
    refine ⟨b', rfl, ?_⟩
    have hStarted : started := hSome.resolve_left fun h => h rfl
    refine (hFan.congr ?_ (fun h => h.1) fun _ => hStarted).finish
    rw [ruleSum, add_zero]
  | child :: rest =>
    rcases builds_rule hPattern child hFits.1 b' with ⟨next, b1, hResult, hBuilds⟩
    rcases builds_choice hPattern rest hFits.2 (hFan.add hBuilds) (.inr trivial) with
      ⟨b2, hRest, hAll⟩
    rw [buildChoice, hResult]
    refine ⟨b2, hRest, hAll.congr ?_ fun h => ⟨⟨h.1, h.2.1⟩, h.2.2⟩⟩
    rw [ruleSum, add_assoc]

end

end GoTreeSitter.Grammargen
