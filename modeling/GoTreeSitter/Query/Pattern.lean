import GoTreeSitter.Source.Point

/-
  Compiled queries, how they are made of query elements, and the trees they are run on.

  Main declarations:
    * `QueryLanguage`
    * `QueryPredicate`
    * `resolveSymbol`
    * `PlainPattern`
    * `canonical_of_resolve`

  A pattern is a list of steps in preorder, each with its depth. A step is an alternation if it has
  alternatives, and an alternative may itself be a list of steps: a branch of an alternation is
  folded into one.
-/

-- Languages

namespace GoTreeSitter.Queries

/- The tables of a language that a query reads, and the upper-case letters. -/
structure QueryLanguage where
  symbolNames : List String
  symbolNamed : List Bool
  fieldNames : List String
  supertypeSymbols : List Nat
  supertypeChildren : Nat → List Nat
  isUpper : Char → Bool

namespace QueryLanguage

variable (lang : QueryLanguage)

/- Whether a symbol is a named one. -/
def named (symbol : Nat) : Bool := lang.symbolNamed.getD symbol false

/- The first symbol of a name. -/
def symbolByName (name : String) : Option Nat :=
  lang.symbolNames.findIdx? fun other =>
    decide (other = name)

/- The first symbol of a name and namedness. -/
def symbolByNameAndNamed (name : String) (named : Bool) : Option Nat :=
  (List.range lang.symbolNames.length).find? fun symbol =>
    decide (lang.symbolNames.getD symbol "" = name) && decide (lang.named symbol = named)

/- The first symbol with the name of a symbol. -/
def publicSymbol (symbol : Nat) : Nat :=
  match lang.symbolNames[symbol]? with
  | none => symbol
  | some name =>
    if name = "" then symbol
    else (lang.symbolByName name).getD symbol

/-
  The first symbol with the name of a symbol and the given
  namedness, or else the first one with its name.
-/
def publicSymbolForNamedness (symbol : Nat) (named : Bool) : Nat :=
  match lang.symbolNames[symbol]? with
  | none => symbol
  | some name =>
    if name = "" then symbol
    else
      match lang.symbolByNameAndNamed name named with
      | some found => found
      | none => (lang.symbolByName name).getD symbol

/- The name of a field, if it has one. -/
def fieldName? (field : Nat) : Option String :=
  match lang.fieldNames[field]? with
  | none => none
  | some name =>
    if field = 0 ∨ name = "" then none else some name

end QueryLanguage

-- Predicates

inductive PredicateKind where
  | eq
  | notEq
  | «match»
  | notMatch
  | anyOf
  | notAnyOf
  | luaMatch
  | hasAncestor
  | notHasAncestor
  | hasParent
  | notHasParent
  | is
  | isNot
  | set
  | offset
  | anyEq
  | anyNotEq
  | anyMatch
  | anyNotMatch
  | selectAdjacent
  | strip
  | count
  | isExported
  deriving DecidableEq

/- What a count is compared by. -/
inductive CountOp where
  | gt
  | lt
  | ge
  | le
  | eq
  | ne
  deriving DecidableEq

namespace CountOp

def holds (op : CountOp) (count value : Int) : Bool :=
  match op with
  | gt => decide (count > value)
  | lt => decide (count < value)
  | ge => decide (count ≥ value)
  | le => decide (count ≤ value)
  | eq => decide (count = value)
  | ne => decide (count ≠ value)

end CountOp

/- A regular expression as it is used on a text. -/
structure Regex where
  matchString : String → Bool
  removeAll : String → String

/- A constraint or directive of a pattern. -/
structure QueryPredicate where
  kind : PredicateKind
  leftCapture : String := ""
  rightCapture : String := ""
  literal : String := ""
  values : List String := []
  regex : Option Regex := none
  countOp : CountOp := .eq
  countValue : Int := 0
  allowMissing : Bool := false

-- Steps

inductive Quantifier where
  | one
  | zeroOrOne
  | zeroOrMore
  | oneOrMore
  deriving DecidableEq

/- A step of a pattern, with alternatives of some type. -/
structure Step (α : Type) where
  symbol : Nat := 0
  field : Nat := 0
  absentFields : List Nat := []
  captureIDs : List Nat := []
  isNamed : Bool := false
  depth : Nat := 0
  quantifier : Quantifier := .one
  anchorBefore : Bool := false
  anchorAfter : Bool := false
  alternatives : List α := []
  textMatch : String := ""
  isMissing : Bool := false

/- What an alternative asks of a node itself. -/
structure AlternativeHead where
  symbol : Nat := 0
  isNamed : Bool := false
  isMissing : Bool := false
  field : Nat := 0
  textMatch : String := ""
  captureIDs : List Nat := []

/- One branch of an alternation. -/
inductive Alternative where
  | mk (head : AlternativeHead) (steps : List (Step Alternative)) (predicates : List QueryPredicate)

abbrev QueryStep := Step Alternative

namespace Alternative

def head : Alternative → AlternativeHead
  | mk head _ _ => head

def steps : Alternative → List QueryStep
  | mk _ steps _ => steps

def predicates : Alternative → List QueryPredicate
  | mk _ _ predicates => predicates

end Alternative

mutual

/- How deep the alternations of steps are nested. -/
def Alternative.nesting : Alternative → Nat
  | .mk _ steps _ => stepsNesting steps + 1

def stepsNesting : List QueryStep → Nat
  | [] => 0
  | step :: steps => max (stepNesting step) (stepsNesting steps)

def stepNesting : QueryStep → Nat
  | ⟨_, _, _, _, _, _, _, _, _, alternatives, _, _⟩ => alternativesNesting alternatives

def alternativesNesting : List Alternative → Nat
  | [] => 0
  | alt :: alts => max alt.nesting (alternativesNesting alts)

end

/- A pattern of a query. -/
structure Pattern where
  steps : List QueryStep
  predicates : List QueryPredicate := []

/- A compiled query with what is switched off in it. -/
structure Query where
  patterns : List Pattern
  captures : List String
  disabledPatterns : List Nat := []
  disabledCaptures : List String := []

-- Trees

/-
  A tree with nodes of some type as a query reads it. Nodes are ranked and have a depth, so that no
  node lies below or above itself.
-/
structure SyntaxTree (N : Type) where
  symbol : N → Nat
  isNamed : N → Bool
  isMissing : N → Bool
  type : N → String
  startByte : N → UInt32
  endByte : N → UInt32
  startPoint : N → Point
  endPoint : N → Point
  text : Option (N → String)
  parent : N → Option N
  children : N → List N
  fieldNameForChild : N → Nat → String
  rank : N → Nat
  rank_lt : ∀ {node child : N}, child ∈ children node → rank child < rank node
  depth : N → Nat
  depth_lt : ∀ {node above : N}, parent node = some above → depth above < depth node
  mem_children : ∀ {node above : N}, parent node = some above → node ∈ children above

/- A captured node. -/
structure Capture (N : Type) where
  name : String
  node : N
  textOverride : String := ""
  deriving DecidableEq

/- A match of a pattern. -/
structure QueryMatch (N : Type) where
  patternIndex : Nat
  captures : List (Capture N)
  deriving DecidableEq

-- A Small Tree

/- A language with a list and its items. -/
def listLanguage : QueryLanguage where
  symbolNames := ["end", "list", "item"]
  symbolNamed := [true, true, true]
  fieldNames := [""]
  supertypeSymbols := []
  supertypeChildren := fun _ => []
  isUpper := Char.isUpper

/- A list of two items. -/
def listTree : SyntaxTree (Fin 3) where
  symbol := fun node => if node = 0 then 1 else 2
  isNamed := fun _ => true
  isMissing := fun _ => false
  type := fun _ => ""
  startByte := fun node => if node = 2 then 1 else 0
  endByte := fun node => if node = 1 then 1 else 2
  startPoint := fun node => ⟨0, if node = 2 then 1 else 0⟩
  endPoint := fun node => ⟨0, if node = 1 then 1 else 2⟩
  text := none
  parent := fun node => if node = 0 then none else some 0
  children := fun node => if node = 0 then [1, 2] else []
  fieldNameForChild := fun _ _ => ""
  rank := fun node => if node = 0 then 1 else 0
  rank_lt := by decide
  depth := fun node => if node = 0 then 0 else 1
  depth_lt := by decide
  mem_children := by decide

-- Node Types

open QueryLanguage

variable (lang : QueryLanguage) (name : String)

/- The symbol of error nodes. -/
def errorSymbol : Nat := 65535

/- The first named symbol of a name, or else the first one. -/
def symbolByNamePreferNamed : Option Nat :=
  (lang.symbolByNameAndNamed name true).or (lang.symbolByName name)

/- What follows the last slash of a name. -/
def lastSegment : Option String :=
  match name.splitOn "/" with
  | [] => none
  | [_] => none
  | _ :: rest => (rest.getLast?).filter fun last => decide (last ≠ "")

/- The symbol of a node type, and whether it is named. -/
def resolveSymbol : Option (Nat × Bool) :=
  if name = "_" then some (0, false)
  else if name = "ERROR" then some (errorSymbol, true)
  else
    ((symbolByNamePreferNamed lang name).or ((lastSegment name).bind
        (symbolByNamePreferNamed lang))).map fun symbol =>
          (symbol, lang.named symbol)

/- What a step asks of the node itself. -/
structure NodeHead where
  symbol : Nat := 0
  isNamed : Bool := false
  textMatch : String := ""

/- A node as a query names it. -/
inductive NodeTest where
  | type (name : String)
  | text (value : String)
  | any
  | anyNamed

namespace NodeTest

def resolve : NodeTest → Option NodeHead
  | type name =>
    (resolveSymbol lang name).map fun found =>
      { symbol := found.1, isNamed := found.2 }
  | text value => some { textMatch := value }
  | any => some {}
  | anyNamed => some { isNamed := true }

end NodeTest

variable {lang : QueryLanguage} {name : String} {named : Bool} {symbol : Nat}

lemma symbolNames_of_symbolByNameAndNamed
    (hFound : lang.symbolByNameAndNamed name named = some symbol) :
    lang.symbolNames[symbol]? = some name ∧ lang.named symbol = named := by
  have hRange := List.mem_of_find?_eq_some hFound
  have hTest := List.find?_some hFound
  rw [List.mem_range] at hRange
  simp only [List.getElem?_eq_getElem hRange, List.getD_eq_getElem?_getD, Option.getD_some,
    Bool.and_eq_true, decide_eq_true_eq] at hTest ⊢
  exact ⟨congrArg some hTest.1, hTest.2⟩

/- The first symbol of a name, if none of them is named. -/
lemma symbolByNameAndNamed_of_symbolByName (hNone : lang.symbolByNameAndNamed name true = none)
    (hFound : lang.symbolByName name = some symbol) :
    lang.symbolByNameAndNamed name false = some symbol := by
  rw [symbolByName, List.findIdx?_eq_some_iff_getElem] at hFound
  obtain ⟨hLength, hHere, hBefore⟩ := hFound
  rw [symbolByNameAndNamed, List.find?_range_eq_none] at hNone
  rw [symbolByNameAndNamed, List.find?_range_eq_some]
  have hNotNamed := hNone symbol hLength
  refine ⟨?_, List.mem_range.mpr hLength, ?_⟩
  · simpa [List.getD_eq_getElem?_getD, hLength, hHere] using hNotNamed
  intro other hOther
  have hName := hBefore other hOther
  have hBound := lt_trans hOther hLength
  simp [List.getD_eq_getElem?_getD, hBound, hName]

lemma symbolByNamePreferNamed_public (hSymbol : symbolByNamePreferNamed lang name = some symbol) :
    lang.publicSymbolForNamedness symbol (lang.named symbol) = symbol := by
  have hFound : lang.symbolByNameAndNamed name (lang.named symbol) = some symbol := by
    rw [symbolByNamePreferNamed] at hSymbol
    cases hNamed : lang.symbolByNameAndNamed name true with
    | some found =>
      rw [hNamed, Option.some_or, Option.some.injEq] at hSymbol
      subst hSymbol
      rw [(symbolNames_of_symbolByNameAndNamed hNamed).2, hNamed]
    | none =>
      rw [hNamed, Option.none_or] at hSymbol
      have hFirst := symbolByNameAndNamed_of_symbolByName hNamed hSymbol
      rw [(symbolNames_of_symbolByNameAndNamed hFirst).2, hFirst]
  have hNameOf := (symbolNames_of_symbolByNameAndNamed hFound).1
  simp [publicSymbolForNamedness, hNameOf, hFound]

/- Nodes of a symbol are looked up by the symbol itself. -/
def QueryLanguage.IsCanonical (lang : QueryLanguage) (symbol : Nat) (named : Bool) : Prop :=
  symbol = 0 ∨ lang.publicSymbolForNamedness symbol named = symbol

/-
  A resolved symbol is the one its nodes are looked up by, as
  long as the symbol of errors is none of the language.
-/
lemma resolveSymbol_canonical (hError : lang.symbolNames.length ≤ errorSymbol)
    (hResolve : resolveSymbol lang name = some (symbol, named)) :
    lang.IsCanonical symbol named := by
  rw [resolveSymbol] at hResolve
  split at hResolve
  · cases hResolve
    exact .inl rfl
  split at hResolve
  · cases hResolve
    refine .inr ?_
    simp [publicSymbolForNamedness, List.getElem?_eq_none hError]
  refine .inr ?_
  rw [Option.map_eq_some_iff] at hResolve
  obtain ⟨found, hFound, hEq⟩ := hResolve
  cases hEq
  rcases Option.or_eq_some_iff.mp hFound with hFirst | ⟨-, hSecond⟩
  · exact symbolByNamePreferNamed_public hFirst
  · rcases Option.bind_eq_some_iff.mp hSecond with ⟨last, -, hSymbol⟩
    exact symbolByNamePreferNamed_public hSymbol

lemma canonical_of_resolve (hError : lang.symbolNames.length ≤ errorSymbol) {test : NodeTest}
    {head : NodeHead} (hResolve : test.resolve lang = some head) :
    lang.IsCanonical head.symbol head.isNamed := by
  cases test with
  | type name =>
    rcases Option.map_eq_some_iff.mp hResolve with ⟨found, hFound, rfl⟩
    exact resolveSymbol_canonical hError hFound
  | text value =>
    cases hResolve
    exact .inl rfl
  | any =>
    cases hResolve
    exact .inl rfl
  | anyNamed =>
    cases hResolve
    exact .inl rfl

-- Plain Patterns

/-
  A pattern of node types, strings, wildcards, fields and
  captures, with the patterns for the children.
-/
inductive PlainPattern where
  | mk (head : NodeHead) (field : Nat) (captureIDs : List Nat) (children : List PlainPattern)

namespace PlainPattern

def head : PlainPattern → NodeHead
  | mk head _ _ _ => head

def field : PlainPattern → Nat
  | mk _ field _ _ => field

def captureIDs : PlainPattern → List Nat
  | mk _ _ captureIDs _ => captureIDs

def children : PlainPattern → List PlainPattern
  | mk _ _ _ children => children

/- The step of the node itself. -/
def step (depth : Nat) (p : PlainPattern) : QueryStep where
  symbol := p.head.symbol
  isNamed := p.head.isNamed
  textMatch := p.head.textMatch
  field := p.field
  captureIDs := p.captureIDs
  depth := depth

end PlainPattern

mutual

/- The steps of a pattern, each child after its parent. -/
def plainSteps : Nat → PlainPattern → List QueryStep
  | depth, .mk head field captureIDs children =>
    (PlainPattern.mk head field captureIDs children).step depth ::
      plainStepsAll (depth + 1) children

def plainStepsAll : Nat → List PlainPattern → List QueryStep
  | _, [] => []
  | depth, p :: rest => plainSteps depth p ++ plainStepsAll depth rest

end

/- A query of plain patterns. -/
def plainQuery (patterns : List PlainPattern) (captures : List String) : Query where
  patterns := patterns.map fun p =>
    { steps := plainSteps 0 p }
  captures := captures

-- Alternations

/-
  Fold a branch of an alternation, as it was compiled for itself. Of a lone node only the head and
  the captures are kept.
-/
def alternativeOf (branch : Pattern) : Option Alternative :=
  match branch.steps with
  | [] => none
  | root :: below =>
    let head : AlternativeHead :=
      { symbol := root.symbol
        isNamed := root.isNamed
        isMissing := root.isMissing
        field := root.field
        textMatch := root.textMatch }
    if branch.predicates.isEmpty = false ∨ below.isEmpty = false ∨ root.field ≠ 0 then
      some (.mk head ({ root with field := 0 } :: below) branch.predicates)
    else
      some (.mk { head with captureIDs := root.captureIDs } [] [])

/- The pattern of an alternation of branches. -/
def alternationPattern (branches : List Pattern) : Pattern where
  steps := [{ alternatives := branches.filterMap alternativeOf }]

end GoTreeSitter.Queries
