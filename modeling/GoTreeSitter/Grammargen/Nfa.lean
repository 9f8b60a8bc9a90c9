import GoTreeSitter.Grammargen.Definition
import Mathlib.Data.List.Sort

/-
  The automaton of the terminals of a grammar.

  Key definitions include:
    * `NfaState` and `NfaFragment`
    * `buildFromRegexNode`

  States are appended to a list and edges to their states. Literals go into a trie, every other rule
  becomes a fragment of its own.
-/

-- States

namespace GoTreeSitter.Grammargen

structure NfaTransition where
  lo : Int := 0
  hi : Int := 0
  epsilon : Bool := false
  nextState : Nat
  deriving DecidableEq

structure NfaState where
  transitions : List NfaTransition := []
  accept : Int := 0
  priority : Int := 0
  tieOrder : Nat := 0
  deriving DecidableEq

structure NfaFragment where
  start : Nat
  stop : Nat
  deriving DecidableEq

/- The states built so far. -/
abbrev NfaBuilder : Type := List NfaState

variable (patterns : List TerminalPattern) (inner : NfaFragment) (b : NfaBuilder)
  (build : NfaBuilder → NfaFragment × NfaBuilder) (source : Nat) (ranges : List RuneRange)

def addState : Nat × NfaBuilder := (b.length, b ++ [({} : NfaState)])

/- A transition goes to the end of its state's list. -/
def addTransition (transition : NfaTransition) : NfaBuilder :=
  b.modify source (fun state =>
    { state with
      transitions := state.transitions ++ [transition] })

def addEpsilon (target : Nat) : NfaBuilder :=
  addTransition b source { epsilon := true, nextState := target }

def addCharRange (lo hi : Int) (target : Nat) : NfaBuilder :=
  addTransition b source { lo := lo, hi := hi, nextState := target }

-- Character Ranges

def maxSupportedRune : Int := 0x10FFFF

/- Sorted ranges, with those that touch merged. -/
def mergeRanges : List RuneRange :=
  match ranges.insertionSort (fun a b => a.lo ≤ b.lo) with
  | [] => []
  | first :: rest =>
    let merged := rest.foldl (fun (acc : List RuneRange × RuneRange) r =>
        if r.lo ≤ acc.2.hi + 1 then
          (acc.1, if acc.2.hi < r.hi then
            { acc.2 with hi := r.hi } else acc.2)
        else
          (acc.1 ++ [acc.2], r))
      ([], first)
    merged.1 ++ [merged.2]

/- The gaps between the ranges. -/
def complementRanges : List RuneRange :=
  let gaps := (mergeRanges ranges).foldl (fun (acc : List RuneRange × Int) r =>
      (if acc.2 < r.lo then
          acc.1 ++ [⟨acc.2, r.lo - 1⟩]
        else
          acc.1,
        r.hi + 1))
    ([], 0)
  if gaps.2 ≤ maxSupportedRune then
    gaps.1 ++ [⟨gaps.2, maxSupportedRune⟩]
  else
    gaps.1

-- Fragments

def buildEpsilon : NfaFragment × NfaBuilder :=
  let (s, b) := addState b
  let (e, b) := addState b
  (⟨s, e⟩, addEpsilon b s e)

/- A chain of states that reads the characters. -/
def buildChars (chars : List Char) (frag : NfaFragment) (b : NfaBuilder) :
    NfaFragment × NfaBuilder :=
  chars.foldl (fun (built : NfaFragment × NfaBuilder) c =>
      let (next, b) := addState built.2
      (⟨built.1.start, next⟩, addCharRange b built.1.stop c.toNat c.toNat next))
    (frag, b)

/- The literal of the zero character matches nothing. -/
def buildString (s : String) (b : NfaBuilder) : NfaFragment × NfaBuilder :=
  if s = "" ∨ s = "\x00" then
    buildEpsilon b
  else
    let (start, b) := addState b
    buildChars s.toList ⟨start, start⟩ b

/- One of some ranges of characters. -/
def buildRanges (b : NfaBuilder) : NfaFragment × NfaBuilder :=
  let (start, b) := addState b
  let (stop, b) := addState b
  (⟨start, stop⟩, ranges.foldl (fun b r => addCharRange b start r.lo r.hi stop) b)

/- A fragment after another one. -/
def joinFragment (cur : Option NfaFragment) (next : NfaFragment) (b : NfaBuilder) :
    NfaFragment × NfaBuilder :=
  match cur with
  | none => (next, b)
  | some cur => (⟨cur.start, next.stop⟩, addEpsilon b cur.stop next.start)

/- A new start and a new end around a fragment, which may be skipped and may be repeated. -/
def wrapFragment (skip loop : Bool) (inner : NfaFragment) (b : NfaBuilder) :
    NfaFragment × NfaBuilder :=
  let (start, b) := addState b
  let (stop, b) := addState b
  let b := addEpsilon b start inner.start
  let b := if skip then addEpsilon b start stop else b
  let b :=
    if loop then addEpsilon b inner.stop inner.start else b
  (⟨start, stop⟩, addEpsilon b inner.stop stop)

/- Zero or more. -/
def starFragment : NfaFragment × NfaBuilder :=
  wrapFragment true true inner b

/- One or more. -/
def plusFragment : NfaFragment × NfaBuilder :=
  wrapFragment false true inner b

/- Zero or one. -/
def optionalFragment : NfaFragment × NfaBuilder :=
  wrapFragment true false inner b

/- A branch from the start to the end of a choice. -/
def addBranch (outer inner : NfaFragment) (b : NfaBuilder) : NfaBuilder :=
  addEpsilon (addEpsilon b outer.start inner.start) inner.stop outer.stop

-- Regular Expressions

/- Copies of a fragment one after another. -/
def buildCopies : Nat → Option NfaFragment → NfaBuilder → Option NfaFragment × NfaBuilder
  | 0, cur, b => (cur, b)
  | n + 1, cur, b =>
    let (copy, b) := build b
    let (cur, b) := joinFragment cur copy b
    buildCopies n (some cur) b

/- Copies that may be left out. -/
def buildOptionalCopies : Nat → NfaFragment → NfaBuilder → NfaFragment × NfaBuilder
  | 0, cur, b => (cur, b)
  | n + 1, cur, b =>
    let (opt, b) := build b
    let (stop, b) := addState b
    let b := addEpsilon b cur.stop opt.start
    let b := addEpsilon b cur.stop stop
    let b := addEpsilon b opt.stop stop
    buildOptionalCopies n ⟨cur.start, stop⟩ b

/- The required copies, or nothing. -/
def buildRequired (minCount : Nat) (b : NfaBuilder) : NfaFragment × NfaBuilder :=
  match buildCopies build minCount none b with
  | (some cur, b) => (cur, b)
  | (none, b) => buildEpsilon b

/- Counted repetition.  From two on, no maximum is the minimum. -/
def buildCount (minCount : Nat) (countMax : Int) (b : NfaBuilder) : NfaFragment × NfaBuilder :=
  let maxCount : Int :=
    if countMax = 0 then (minCount : Int) else countMax
  let (cur, b) := buildRequired build minCount b
  if maxCount < 0 then
    if 2 ≤ minCount then
      (cur, b)
    else
      let (star, b) := build b
      let (loop, b) := addState b
      let b := addEpsilon b cur.stop loop
      let b := addEpsilon b loop star.start
      (⟨cur.start, loop⟩, addEpsilon b star.stop loop)
  else
    buildOptionalCopies build (maxCount.toNat - minCount) cur b

mutual

/- The fragment of a regular expression. -/
def buildFromRegexNode : RegexNode → NfaBuilder → NfaFragment × NfaBuilder
  | .nil, b => buildEpsilon b
  | .literal value, b => buildRanges [⟨value, value⟩] b
  | .charClass runes negate, b =>
    buildRanges (if negate then complementRanges runes
      else mergeRanges runes) b
  | .dot, b => buildRanges [⟨0, 9⟩, ⟨11, maxSupportedRune⟩] b
  | .seq [], b => buildEpsilon b
  | .seq (first :: rest), b =>
    let (cur, b) := buildFromRegexNode first b
    buildRegexSeq rest cur b
  | .alt [], b => buildEpsilon b
  | .alt (first :: rest), b =>
    let (start, b) := addState b
    let (stop, b) := addState b
    let (frag, b) := buildFromRegexNode first b
    let b := addBranch ⟨start, stop⟩ frag b
    (⟨start, stop⟩, buildRegexAlt rest ⟨start, stop⟩ b)
  | .star [], b => buildEpsilon b
  | .star (child :: _), b =>
    let (inner, b) := buildFromRegexNode child b
    starFragment inner b
  | .plus [], b => buildEpsilon b
  | .plus (child :: _), b =>
    let (inner, b) := buildFromRegexNode child b
    plusFragment inner b
  | .question [], b => buildEpsilon b
  | .question (child :: _), b =>
    let (inner, b) := buildFromRegexNode child b
    optionalFragment inner b
  | .count [] _ _, b => buildEpsilon b
  | .count (child :: _) minCount countMax, b =>
    buildCount (fun b => buildFromRegexNode child b) minCount countMax b

/- The rest of a sequence. -/
def buildRegexSeq : List RegexNode → NfaFragment → NfaBuilder → NfaFragment × NfaBuilder
  | [], cur, b => (cur, b)
  | child :: rest, cur, b =>
    let (next, b) := buildFromRegexNode child b
    let (cur, b) := joinFragment (some cur) next b
    buildRegexSeq rest cur b

/- The other alternatives. -/
def buildRegexAlt : List RegexNode → NfaFragment → NfaBuilder → NfaBuilder
  | [], _, b => b
  | child :: rest, outer, b =>
    let (frag, b) := buildFromRegexNode child b
    buildRegexAlt rest outer (addBranch outer frag b)

end

-- Tries

/- The edges of a trie under construction. -/
abbrev TrieEdges : Type := List ((Nat × Char) × Nat)

/- The next node for a character, new if there is none. -/
def trieNext (c : Char) (cur : Nat) (edges : TrieEdges) (b : NfaBuilder) :
    Nat × TrieEdges × NfaBuilder :=
  match edges.lookup (cur, c) with
  | some next => (next, edges, b)
  | none =>
    let (next, b) := addState b
    (next, ((cur, c), next) :: edges, addCharRange b cur c.toNat c.toNat next)

/- The node of a text, with the nodes on the way. -/
def trieInsert : List Char → Nat → TrieEdges → NfaBuilder → Nat × TrieEdges × NfaBuilder
  | [], cur, edges, b => (cur, edges, b)
  | c :: chars, cur, edges, b =>
    let (next, edges, b) := trieNext c cur edges b
    trieInsert chars next edges b

/- The literals of a choice, each with an edge to its end. -/
def insertLiterals (outer : NfaFragment) : List String → TrieEdges → NfaBuilder → NfaBuilder
  | [], _, b => b
  | text :: texts, edges, b =>
    let (cur, edges, b) := trieInsert text.toList outer.start edges b
    insertLiterals outer texts edges (addEpsilon b cur outer.stop)

def buildStringChoice (texts : List String) (b : NfaBuilder) : NfaFragment × NfaBuilder :=
  let (start, b) := addState b
  let (stop, b) := addState b
  (⟨start, stop⟩, insertLiterals ⟨start, stop⟩ texts [] b)

-- Rules

/- The parser of regular expressions. -/
abbrev RegexParser : Type := String → Except String RegexNode

def buildPattern (parseRegex : RegexParser) (pattern : String) (b : NfaBuilder) :
    Except String (NfaFragment × NfaBuilder) :=
  match parseRegex pattern with
  | .ok node => .ok (buildFromRegexNode node b)
  | .error err =>
    let text := pattern.quote
    .error s!"parse regex {text}: {err}"

/- The literals read since the last other rule of a sequence. -/
def flushRun (run : Option String) (cur : Option NfaFragment) (b : NfaBuilder) :
    Option NfaFragment × NfaBuilder :=
  match run with
  | none => (cur, b)
  | some text =>
    let (next, b) := buildString text b
    let (cur, b) := joinFragment cur next b
    (some cur, b)

/- The texts of rules that are all literals. -/
def literals? : List Rule → Option (List String)
  | [] => some []
  | child :: rest =>
    match child.literal?, literals? rest with
    | some text, some texts => some (text :: texts)
    | _, _ => none

mutual

/- The fragment of a rule. -/
def buildFromRule (parseRegex : RegexParser) :
    Rule → NfaBuilder → Except String (NfaFragment × NfaBuilder)
  | .nil, b => .ok (buildEpsilon b)
  | .node .string value _ _ _, b => .ok (buildString value b)
  | .node .pattern value _ _ _, b => buildPattern parseRegex value b
  | .node .seq _ [] _ _, b => .ok (buildEpsilon b)
  | .node .seq _ (first :: rest) _ _, b => buildSeq parseRegex (first :: rest) none none b
  | .node .choice _ [] _ _, b => .ok (buildEpsilon b)
  | .node .choice _ (first :: rest) _ _, b =>
    match literals? (first :: rest) with
    | some texts => .ok (buildStringChoice texts b)
    | none =>
      let (start, b) := addState b
      let (stop, b) := addState b
      buildChoice parseRegex (first :: rest) ⟨start, stop⟩ b
  | .node .repeats _ [] _ _, b => .ok (buildEpsilon b)
  | .node .repeats _ (child :: _) _ _, b =>
    match buildFromRule parseRegex child b with
    | .error err => .error err
    | .ok (inner, b) => .ok (starFragment inner b)
  | .node .repeat1 _ [] _ _, b => .ok (buildEpsilon b)
  | .node .repeat1 _ (child :: _) _ _, b =>
    match buildFromRule parseRegex child b with
    | .error err => .error err
    | .ok (inner, b) => .ok (plusFragment inner b)
  | .node .optional _ [] _ _, b => .ok (buildEpsilon b)
  | .node .optional _ (child :: _) _ _, b =>
    match buildFromRule parseRegex child b with
    | .error err => .error err
    | .ok (inner, b) => .ok (optionalFragment inner b)
  | .node .blank _ _ _ _, b => .ok (buildEpsilon b)
  | .node kind _ _ _ _, _ =>
    let code := kind.code
    .error s!"unsupported rule kind {code} in NFA construction"

/- The rest of a sequence, after a run of literals. -/
def buildSeq (parseRegex : RegexParser) :
    List Rule → Option String → Option NfaFragment → NfaBuilder →
      Except String (NfaFragment × NfaBuilder)
  | [], run, cur, b =>
    let (cur, b) := flushRun run cur b
    .ok (cur.getD ⟨0, 0⟩, b)
  | child :: rest, run, cur, b =>
    match child.literal? with
    | some text => buildSeq parseRegex rest (some (run.getD "" ++ text)) cur b
    | none =>
      let (cur, b) := flushRun run cur b
      match buildFromRule parseRegex child b with
      | .error err => .error err
      | .ok (next, b) =>
        let (cur, b) := joinFragment cur next b
        buildSeq parseRegex rest none (some cur) b

/- The rest of the alternatives. -/
def buildChoice (parseRegex : RegexParser) :
    List Rule → NfaFragment → NfaBuilder → Except String (NfaFragment × NfaBuilder)
  | [], outer, b => .ok (outer, b)
  | child :: rest, outer, b =>
    match buildFromRule parseRegex child b with
    | .error err => .error err
    | .ok (frag, b) => buildChoice parseRegex rest outer (addBranch outer frag b)

end

-- All Terminals

/- The automaton of all terminals. -/
structure Nfa where
  states : NfaBuilder
  start : Nat
  deriving DecidableEq

/- A state accepts a terminal. -/
def tagState (state : Nat) (pat : TerminalPattern) (tieOrder : Nat) : NfaBuilder :=
  b.modify state (fun s =>
    { s with
      accept := pat.symbolID
      priority := pat.priority
      tieOrder := tieOrder })

/- How many terminals are this literal. -/
def stringCount (text : String) : Nat :=
  (patterns.filter (fun pat =>
    pat.rule.literal? = some text)).length

/- The text of a terminal that goes into the trie. -/
def trieText (pat : TerminalPattern) : Option String :=
  match pat.rule.literal? with
  | none => none
  | some text =>
    if text ≠ "\x00" ∧ stringCount patterns text = 1 then
      some text
    else
      none

/- The terminals from some position on. -/
def addPatterns (parseRegex : RegexParser) (patterns : List TerminalPattern) (start : Nat) :
    List (TerminalPattern × Nat) → TrieEdges → NfaBuilder → Except String NfaBuilder
  | [], _, b => .ok b
  | (pat, i) :: rest, edges, b =>
    match trieText patterns pat with
    | some text =>
      let (cur, edges, b) := trieInsert text.toList start edges b
      addPatterns parseRegex patterns start rest edges (tagState b cur pat i)
    | none =>
      match buildFromRule parseRegex pat.rule b with
      | .error err =>
        let sym := pat.symbolID
        .error s!"terminal {sym}: {err}"
      | .ok (frag, b) =>
        let b := addEpsilon b start frag.start
        addPatterns parseRegex patterns start rest edges (tagState b frag.stop pat i)

end GoTreeSitter.Grammargen
