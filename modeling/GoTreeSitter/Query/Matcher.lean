import GoTreeSitter.Query.Pattern

/-
  Predicates over the captures of a match, and the match of the steps of a pattern.

  Key definitions include:
    * `matchesPredicate`
    * `nodeMatchesStep`
    * `combinations`

  A predicate looks captures up by name. Directives take captures away or give them another text.
  Matching returns the captures of every way it finds, in the order the source emits them. The
  recursion goes down the tree and into the branches of alternations, so that rank and nesting bound
  it. The work budget of the source is left out: what is found is what an unbounded run finds.
-/

-- Texts of Captures

namespace GoTreeSitter.Queries

variable {N : Type} (lang : QueryLanguage) (tree : SyntaxTree N) (node : N) (name : String)
  (predicates : List QueryPredicate) (pred : QueryPredicate) (captures : List (Capture N))
  (negated : Bool)

/- The text of the first capture with a name. -/
def captureText : Option String :=
  match tree.text with
  | none => none
  | some text =>
    (captures.find? fun capture =>
      decide (capture.name = name)).map fun capture =>
        if capture.textOverride ≠ "" then
          capture.textOverride
        else text capture.node

/- The captures with a name. -/
def namedCaptures : List (Capture N) :=
  captures.filter fun capture =>
    decide (capture.name = name)

/- The text of a node; there is none without a source. -/
def nodeText : String :=
  match tree.text with
  | none => ""
  | some text => text node

/- The text a predicate compares with. -/
def predicateRightText : Option String :=
  if pred.rightCapture = "" then some pred.literal
  else captureText tree pred.rightCapture captures

-- Predicates

def textEqualityPredicateMatches (wantEqual : Bool) : Bool :=
  match captureText tree pred.leftCapture captures with
  | none => pred.allowMissing
  | some left =>
    match predicateRightText tree pred captures with
    | none => false
    | some right => decide (left = right) == wantEqual

/- Whether the expression of a predicate fits a text. -/
def regexMatches (text : String) : Bool :=
  match pred.regex with
  | none => false
  | some regex => regex.matchString text

def regexPredicateMatches : Bool :=
  match captureText tree pred.leftCapture captures with
  | none => pred.allowMissing
  | some left => regexMatches pred left != negated

def anyCaptureTextEquals (wantEqual : Bool) : Bool :=
  let named := namedCaptures pred.leftCapture captures
  (named.any fun capture =>
    match predicateRightText tree pred captures with
    | none => false
    | some right => decide (nodeText tree capture.node = right) == wantEqual) ||
    (named.isEmpty && pred.allowMissing)

def anyCaptureRegexMatches : Bool :=
  let named := namedCaptures pred.leftCapture captures
  (named.any fun capture =>
    match pred.regex with
    | none => false
    | some regex => regex.matchString (nodeText tree capture.node) != negated) ||
    (named.isEmpty && pred.allowMissing)

/- Whether the text of a capture is one of the values. -/
def anyOfMatches : Bool :=
  match captureText tree pred.leftCapture captures with
  | none => pred.allowMissing
  | some left => decide (left ∈ pred.values) != negated

/- Whether a symbol is of a type by name. -/
def nodeSymbolMatchesTypeName (internal exposed : Nat) (typeName : String) : Bool :=
  let found :=
    if typeName = "_" then some 0
    else lang.symbolByName typeName
  match found with
  | none => false
  | some symbol =>
    decide (internal = symbol) || decide (exposed = symbol) ||
      (decide (symbol ∈ lang.supertypeSymbols) && (lang.supertypeChildren symbol).any fun child =>
          decide (child = internal) || decide (lang.publicSymbol child = exposed))

def nodeTypeMatchesAny (names : List String) : Bool :=
  decide (tree.type node ∈ names) || names.any (nodeSymbolMatchesTypeName lang (tree.symbol node)
      (lang.publicSymbol (tree.symbol node)))

/- Whether a node above a node is of a type, so many up. -/
def hasAncestor (names : List String) : Nat → N → Bool
  | 0, _ => false
  | levels + 1, node =>
    match tree.parent node with
    | none => false
    | some parent => nodeTypeMatchesAny lang tree parent names || hasAncestor names levels parent

def hasParent (names : List String) (node : N) : Bool :=
  match tree.parent node with
  | none => false
  | some parent => nodeTypeMatchesAny lang tree parent names

def captureNodePredicateMatches (holds : N → Bool) : Bool :=
  let named := namedCaptures name captures
  !named.isEmpty && ((named.any fun capture => holds capture.node) != negated)

def countPredicateMatches : Bool :=
  pred.countOp.holds (namedCaptures pred.leftCapture captures).length pred.countValue

-- Verdicts

/- Whether a text starts with an upper-case letter. -/
def textIsExported (text : String) : Bool :=
  match text.toList with
  | [] => false
  | letter :: _ => decide (letter ≠ Char.ofNat 0xFFFD) && lang.isUpper letter

def isExportedMatches : Bool :=
  match captureText tree pred.leftCapture captures with
  | none => false
  | some text => textIsExported lang text

/- Whether captures meet a predicate. -/
def matchesPredicate : Bool :=
  match pred.kind with
  | .eq => textEqualityPredicateMatches tree pred captures true
  | .notEq => textEqualityPredicateMatches tree pred captures false
  | .match => regexPredicateMatches tree pred captures false
  | .luaMatch => regexPredicateMatches tree pred captures false
  | .notMatch => regexPredicateMatches tree pred captures true
  | .anyEq => anyCaptureTextEquals tree pred captures true
  | .anyNotEq => anyCaptureTextEquals tree pred captures false
  | .anyMatch => anyCaptureRegexMatches tree pred captures false
  | .anyNotMatch => anyCaptureRegexMatches tree pred captures true
  | .anyOf => anyOfMatches tree pred captures false
  | .notAnyOf => anyOfMatches tree pred captures true
  | .hasAncestor =>
    captureNodePredicateMatches pred.leftCapture captures false fun node =>
        hasAncestor lang tree pred.values (tree.depth node) node
  | .notHasAncestor =>
    captureNodePredicateMatches pred.leftCapture captures true fun node =>
        hasAncestor lang tree pred.values (tree.depth node) node
  | .hasParent =>
    captureNodePredicateMatches pred.leftCapture captures false (hasParent lang tree pred.values)
  | .notHasParent =>
    captureNodePredicateMatches pred.leftCapture captures true (hasParent lang tree pred.values)
  | .count => countPredicateMatches pred captures
  | .isExported => isExportedMatches lang tree pred captures
  | .is => true
  | .isNot => true
  | .set => true
  | .offset => true
  | .selectAdjacent => true
  | .strip => true

def matchesPredicates : Bool :=
  predicates.all fun pred =>
    matchesPredicate lang tree pred captures

/-
  Whether a predicate may still be met when captures are
  added: the first text of a name does not change.
-/
def predicateStillViable : Bool :=
  let left := captureText tree pred.leftCapture captures
  match pred.kind with
  | .eq =>
    match left, predicateRightText tree pred captures with
    | some left, some right => decide (left = right)
    | _, _ => true
  | .notEq =>
    match left, predicateRightText tree pred captures with
    | some left, some right => !decide (left = right)
    | _, _ => true
  | .match => (left.map (regexMatches pred)).getD true
  | .luaMatch => (left.map (regexMatches pred)).getD true
  | .notMatch =>
    (left.map fun text =>
      !regexMatches pred text).getD true
  | .anyOf =>
    (left.map fun text =>
      decide (text ∈ pred.values)).getD true
  | .notAnyOf =>
    (left.map fun text =>
      !decide (text ∈ pred.values)).getD true
  | .isExported => (left.map (textIsExported lang)).getD true
  | _ => true

def predicatesStillViable : Bool :=
  predicates.all fun pred =>
    predicateStillViable lang tree pred captures

/- Whether some predicate may reject a match. -/
def predicatesCanRejectMatch : Bool := predicates.any fun pred =>
    decide (pred.kind ∉ [PredicateKind.set, .offset, .selectAdjacent, .strip, .is, .isNot])

-- Directives

/- Whether a node touches one of the captured anchors. -/
def isAdjacent (anchors : List (Capture N)) (node : N) : Bool :=
  anchors.any fun anchor =>
    decide (tree.endByte node = tree.startByte anchor.node) ||
      decide (tree.startByte node = tree.endByte anchor.node)

/- Keep of the captures of one name those next to another. -/
def applySelectAdjacent : List (Capture N) :=
  let anchors := namedCaptures pred.rightCapture captures
  captures.filter fun capture =>
    decide (capture.name ≠ pred.leftCapture) || isAdjacent tree anchors capture.node

/- Give the captures of a name a text without some parts. -/
def stripped (regex : Regex) (name : String) (capture : Capture N) : Capture N :=
  let text := nodeText tree capture.node
  if capture.name = name ∧ regex.removeAll text ≠ text then
    { capture with textOverride := regex.removeAll text }
  else capture

def applyStrip : List (Capture N) :=
  match pred.regex with
  | none => captures
  | some regex => captures.map (stripped tree regex pred.leftCapture)

def applyDirective (pred : QueryPredicate) : List (Capture N) :=
  match pred.kind with
  | .selectAdjacent => applySelectAdjacent tree pred captures
  | .strip => applyStrip tree pred captures
  | _ => captures

def applyDirectives : List (Capture N) :=
  predicates.foldl (applyDirective tree) captures

end GoTreeSitter.Queries

-- One Node

namespace GoTreeSitter.Queries

section

variable {N : Type} (lang : QueryLanguage) (tree : SyntaxTree N) (parent : N) (step : QueryStep)
  (node : N)

/- Captures of a node under the names that are not disabled. -/
def newCaptures (q : Query) (ids : List Nat) (node : N) : List (Capture N) :=
  ((ids.map fun id => q.captures.getD id "").filter
    fun name => decide (name ∉ q.disabledCaptures)).map fun name => { name, node }

def appendCaptureIDs (q : Query) (ids : List Nat) (node : N) (captures : List (Capture N)) :
    List (Capture N) := captures ++ newCaptures q ids node

/- What a step or an alternative asks of a node itself. -/
def headMatches (symbol : Nat) (isNamed isMissing : Bool) (textMatch : String) (node : N) : Bool :=
  let named := tree.isNamed node
  let missing := !isMissing || tree.isMissing node
  if textMatch ≠ "" then
    !named && decide (tree.type node = textMatch) && missing
  else if symbol = 0 then
    if isMissing = true then tree.isMissing node
    else !isNamed || named
  else
    decide (named = isNamed) && decide (lang.publicSymbolForNamedness (tree.symbol node) named =
        lang.publicSymbolForNamedness symbol isNamed) && missing

def alternativeMatchesNode (alt : Alternative) (node : N) : Bool :=
  headMatches lang tree alt.head.symbol alt.head.isNamed alt.head.isMissing alt.head.textMatch node

/-
  The index of an alternation by symbol and text. There is none if an alternative asks for a missing
  node.
-/
def hasAlternationIndex : Bool :=
  step.alternatives.all fun alt => !alt.head.isMissing

/- Whether an alternative is found in the index for a node. -/
def isIndexed (alt : Alternative) (node : N) : Bool :=
  let named := tree.isNamed node
  if alt.head.symbol = 0 ∧ alt.head.textMatch = "" then true
  else if alt.head.textMatch ≠ "" then
    !named && decide (tree.type node = alt.head.textMatch)
  else
    decide (alt.head.symbol = lang.publicSymbolForNamedness (tree.symbol node) named) &&
      decide (alt.head.isNamed = named)

/- Whether a node may match a step, before its fields. -/
def nodeCanMatchStepShallow : Bool :=
  if step.alternatives.isEmpty = false then
    if hasAlternationIndex step = true then
      step.alternatives.any fun alt =>
        isIndexed lang tree alt node
    else
      step.alternatives.any fun alt =>
        alternativeMatchesNode lang tree alt node
  else
    headMatches lang tree step.symbol step.isNamed step.isMissing step.textMatch node

/- Whether a child is in a field. -/
def childHasField (index field : Nat) : Bool :=
  if field = 0 then true
  else
    match lang.fieldName? field with
    | none => false
    | some name => decide (tree.fieldNameForChild parent index = name)

def hasChildWithField (field : Nat) : Bool :=
  (List.range (tree.children parent).length).any
    fun index => childHasField lang tree parent index field

def absentFieldsSatisfied : Bool :=
  step.absentFields.all fun field =>
    (lang.fieldName? field).isSome && !hasChildWithField lang tree node field

/- Absent fields count only for a step with a symbol. -/
def nodeMatchesStep : Bool :=
  nodeCanMatchStepShallow lang tree step node && (!step.alternatives.isEmpty || decide
      (step.textMatch ≠ "") || decide (step.symbol = 0) || absentFieldsSatisfied lang tree step
      node)

/- The place of a node among the children of its parent. -/
def siblingContext [DecidableEq N] (tree : SyntaxTree N) (node : N) (place : Option (N × Nat)) :
    Option (N × Nat) :=
  match place with
  | some place => some place
  | none =>
    match tree.parent node with
    | none => none
    | some parent =>
      ((tree.children parent).findIdx? fun child =>
        decide (child = node)).map fun index =>
          (parent, index)

/- Whether a node is in the field its alternative asks for. -/
def alternativeFieldMatches [DecidableEq N] (lang : QueryLanguage) (tree : SyntaxTree N)
    (alt : Alternative) (node : N) (place : Option (N × Nat)) : Bool :=
  if alt.head.field = 0 then true
  else
    match siblingContext tree node place with
    | none => false
    | some (parent, index) => childHasField lang tree parent index alt.head.field

-- Children

/- The steps for the children of a step, with their indices. -/
def childStepsOf (steps : List QueryStep) (stepIdx : Nat) (depth : Nat) : List (QueryStep × Nat) :=
  ((steps.zipIdx.drop (stepIdx + 1)).takeWhile fun entry => decide (depth < entry.1.depth)).filter
      fun entry => decide (entry.1.depth = depth + 1)

def stepUsesContiguousRun : Bool := decide (step.quantifier = .zeroOrMore) ||
    decide (step.quantifier = .oneOrMore)

/- How often a step must match, and may at most. -/
def quantifierBounds (quantifier : Quantifier) (candidates : Nat) : Nat × Nat :=
  match quantifier with
  | .one => (1, min 1 candidates)
  | .zeroOrOne => (0, min 1 candidates)
  | .zeroOrMore => (0, candidates)
  | .oneOrMore => (1, candidates)

/- The indices that match. A run stops at the first one that does not, once it has started. -/
def collectMatching (matched : Nat → Bool) (contiguous : Bool) : Bool → List Nat → List Nat
  | _, [] => []
  | started, index :: rest =>
    if matched index = true then
      index :: collectMatching matched contiguous true rest
    else if contiguous && started then []
    else collectMatching matched contiguous started rest

/- The children from an index on that a step may match. -/
def collectChildCandidates (nextChildIdx : Nat) : Option (List Nat) :=
  if step.field ≠ 0 ∧ lang.fieldName? step.field = none then none
  else
    let children := tree.children parent
    let matched := fun index =>
      (match children[index]? with
        | none => false
        | some child => nodeCanMatchStepShallow lang tree step child) &&
        childHasField lang tree parent index step.field
    some (collectMatching matched (stepUsesContiguousRun step) false
      (List.range' nextChildIdx (children.length - nextChildIdx)))

/- The position of a child among the named ones. -/
def namedPosition (index : Nat) : Option Nat :=
  match (tree.children parent)[index]? with
  | none => none
  | some child =>
    if tree.isNamed child = true then
      some (((tree.children parent).take index).countP fun other => tree.isNamed other)
    else none

/- The position of the last named child. -/
def lastNamedPosition : Option Nat :=
  match (tree.children parent).countP fun child => tree.isNamed child with
  | 0 => none
  | count + 1 => some count

/- The first and last named position of chosen children. -/
abbrev NamedSpan := Option (Nat × Nat)

namespace NamedSpan

def withNamedPosition (span : NamedSpan) (position : Option Nat) : NamedSpan :=
  match position with
  | none => span
  | some position =>
    match span with
    | none => some (position, position)
    | some (first, _) => some (first, position)

/- The last named position after a choice. -/
def lastAfter (span : NamedSpan) (previous : Option Nat) : Option Nat :=
  match span with
  | none => previous
  | some (_, last) => some last

end NamedSpan

/- Whether the children chosen for a step stand where its anchors say. -/
def stepAnchorsSatisfied (childPos : Nat) (span : NamedSpan) (previous parentLast : Option Nat) :
    Bool :=
  (!step.anchorBefore || (match span with
      | none => false
      | some (first, _) =>
        if childPos = 0 then decide (first = 0)
        else
          match previous with
          | none => decide (first = 0)
          | some last => decide (first = last + 1))) &&
  (!step.anchorAfter || (match span with
      | none => false
      | some (_, last) => decide (parentLast = some last)))

/-
  Choose so many of the candidates in order, and go on after each choice. The source also stops when
  too few are left, where nothing more is found.
-/
def combinations (tryChild : Nat → List (Capture N) → List (List (Capture N)))
    (position : Nat → Option Nat)
    (finish : Nat → NamedSpan → List (Capture N) → List (List (Capture N))) :
    Nat → List Nat → Nat → NamedSpan → List (Capture N) → List (List (Capture N))
  | 0, _, nextIdx, span, current => finish nextIdx span current
  | _ + 1, [], _, _, _ => []
  | remaining + 1, index :: rest, nextIdx, span, current =>
    ((tryChild index current).flatMap fun next =>
      combinations tryChild position finish remaining rest (max nextIdx (index + 1))
        (span.withNamedPosition (position index)) next) ++
      combinations tryChild position finish (remaining + 1) rest nextIdx span current

/- The results of the first count that has any. -/
def firstCount {α : Type} (run : Nat → List α) : List Nat → List α
  | [] => []
  | count :: counts =>
    if (run count).isEmpty = true then
      firstCount run counts
    else run count

/- The counts from the most down to the least. -/
def countsDown (least most : Nat) : List Nat := (List.range' least (most + 1 - least)).reverse

/-
  Match the child steps of a node in order. A step that may match several times takes the greatest
  number that leads to a match.
-/
def matchChildSteps (tryChild : Nat → Nat → List (Capture N) → List (List (Capture N))) :
    List (QueryStep × Nat) → Nat → Nat → Option Nat → List (Capture N) →
      List (List (Capture N))
  | [], _, _, _, captures => [captures]
  | (step, stepIdx) :: rest, childPos, nextChildIdx, previous, captures =>
    match collectChildCandidates lang tree parent step nextChildIdx with
    | none => []
    | some candidates =>
      let bounds := quantifierBounds step.quantifier candidates.length
      firstCount (fun count =>
          combinations (tryChild stepIdx) (namedPosition tree parent) (fun nextIdx span current =>
              if 0 < count ∧ stepAnchorsSatisfied step childPos span previous
                  (lastNamedPosition tree parent) =
                  false then []
              else
                matchChildSteps tryChild rest (childPos + 1) nextIdx
                  (span.lastAfter previous) current)
            count candidates nextChildIdx none captures)
        (countsDown bounds.1 bounds.2)

end

-- Steps

variable {N : Type} [DecidableEq N]

/- What matching a step of a list from some captures on finds at a node with a known place. -/
abbrev Matcher (N : Type) :=
  List QueryPredicate → List QueryStep → Nat → N →
    Option (N × Nat) → List (Capture N) → List (List (Capture N))

variable (q : Query) (lang : QueryLanguage) (tree : SyntaxTree N) (predicates : List QueryPredicate)
  (matcher : Nat → Matcher N) (pat : Pattern) (node : N) (place : Option (N × Nat))

/- What trying a branch of an alternation finds at a node. -/
abbrev BranchMatcher (N : Type) :=
  List QueryPredicate → QueryStep → Alternative → N → List (Capture N) → Option (List (Capture N))

/- Add captures that the predicates do not rule out. -/
def captureViable (ids : List Nat) (node : N) (captures : List (Capture N)) :
    Option (List (Capture N)) :=
  let next := appendCaptureIDs q ids node captures
  if predicatesStillViable lang tree predicates next = true
  then some next
  else none

/-
  The captures of a node that a step matches itself: one list
  for a plain step, one for each branch of an alternation.
-/
def matchStepHead (branch : BranchMatcher N) (predicates : List QueryPredicate) (step : QueryStep)
    (node : N) (place : Option (N × Nat)) (captures : List (Capture N)) :
    List (List (Capture N)) :=
  if step.alternatives.isEmpty = true then
    if nodeMatchesStep lang tree step node = true then
      (captureViable q lang tree predicates step.captureIDs node captures).toList
    else []
  else
    step.alternatives.flatMap fun alt =>
      if alternativeMatchesNode lang tree alt node = true ∧
          alternativeFieldMatches lang tree alt node place = true then
        (branch predicates step alt node captures).toList
      else []

/- Match a step at a node, and the steps below it. -/
def matchStepBody (branch : BranchMatcher N) (recur : Matcher N) : Matcher N :=
  fun predicates steps stepIdx node place captures =>
    match steps[stepIdx]? with
    | none => []
    | some step =>
      (matchStepHead q lang tree branch predicates step node place captures).flatMap fun next =>
          matchChildSteps lang tree node (fun childStep index current =>
              match (tree.children node)[index]? with
              | none => []
              | some child => recur predicates steps childStep child (some (node, index)) current)
            (childStepsOf steps stepIdx step.depth)
            0 0 none next

/- The captures of the alternation itself. -/
def captureAlternation (step : QueryStep) (node : N) (captures : List (Capture N)) :
    Option (List (Capture N)) :=
  if step.captureIDs.isEmpty = true then some captures
  else
    captureViable q lang tree predicates step.captureIDs node captures

/- A branch that is a lone node. -/
def matchSimpleBranch : BranchMatcher N :=
  fun predicates step alt node captures =>
    if step.captureIDs.isEmpty = true ∧ alt.head.captureIDs.isEmpty = true then
      some captures
    else
      (captureAlternation q lang tree predicates step node
        captures).bind (captureViable q lang tree predicates alt.head.captureIDs node)

/- A branch takes the first way that meets its predicates. -/
def matchAlternationBranchWithReader (recur : Matcher N) : BranchMatcher N :=
  fun predicates step alt node captures =>
    if alt.steps.isEmpty = true then
      matchSimpleBranch q lang tree predicates step alt node captures
    else
      (captureAlternation q lang tree predicates step node captures).bind fun next =>
          (recur predicates alt.steps 0 node none next).find?
            (matchesPredicates lang tree alt.predicates)

def matchStepsAllWithReader : Nat → Matcher N
  | 0 => fun _ _ _ _ _ _ => []
  | fuel + 1 =>
    matchStepBody q lang tree (matchAlternationBranchWithReader q lang tree (matchStepsAllWithReader
      fuel)) (matchStepsAllWithReader fuel)

/- How deep matching steps at a node can go. -/
def matchDepth (steps : List QueryStep) (node : N) : Nat :=
  tree.rank node + stepsNesting steps + 1

-- Patterns

/- The lists that meet the predicates, after the directives. -/
def finishMatches (found : List (List (Capture N))) : List (List (Capture N)) :=
  (found.filter (matchesPredicates lang tree predicates)).map (applyDirectives tree predicates)

/- The matches of a pattern at a node, given a matcher. -/
def matchPatternBy : List (List (Capture N)) :=
  match pat.steps.head?.map Step.quantifier with
  | none => []
  | some .zeroOrMore => finishMatches lang tree pat.predicates [[]]
  | some .oneOrMore => []
  | some _ =>
    finishMatches lang tree pat.predicates (matcher (matchDepth tree pat.steps node)
        pat.predicates pat.steps 0 node none [])

/- The ways a pattern matches one node of a run. -/
def matchPatternOnceBy (captures : List (Capture N)) : List (List (Capture N)) :=
  matcher (matchDepth tree pat.steps node) pat.predicates pat.steps 0 node place captures

/- Whether a pattern as a whole may match several times. -/
def isRootRepetition : Bool :=
  match pat.steps.head?.map Step.quantifier with
  | some .zeroOrMore => true
  | some .oneOrMore => true
  | _ => false

/- Whether a pattern matches the child at an index. -/
def matchesChildBy (parent : N) (index : Nat) : Bool :=
  match (tree.children parent)[index]? with
  | none => false
  | some child => !(matchPatternOnceBy tree matcher pat child (some (parent, index)) []).isEmpty

/- The children from one index up to another. -/
def childrenBetween (parent : N) (first last : Nat) : List (N × Nat) :=
  ((tree.children parent).zipIdx.take last).drop first

/- The first index of the run of matches up to an index. -/
def runStart (matched : Nat → Bool) : Nat → Nat
  | 0 => 0
  | index + 1 =>
    if matched index = true then runStart matched index
    else index + 1

/-
  Match the nodes of a run one after the other. The lists of the last node with a match are kept.
-/
def matchRun {ι : Type} (once : ι → List (Capture N) → List (List (Capture N))) :
    List ι → List (List (Capture N)) → List (List (Capture N))
  | [], partials => partials
  | node :: rest, partials =>
    let next := partials.flatMap (once node)
    if next.isEmpty = true then partials
    else matchRun once rest next

/- The ways a pattern matches the run that ends at a node. -/
def matchRunBy (parent : N) (index : Nat) : List (List (Capture N)) :=
  let start := runStart (matchesChildBy tree matcher pat parent) index
  matchRun (fun entry =>
      matchPatternOnceBy tree matcher pat entry.1 (some (parent, entry.2)))
    (childrenBetween tree parent start index ++ [(node, index)])
    [[]]

/- Match a repeated pattern at the last node of its run. -/
def matchPatternPostorderBy : List (List (Capture N)) :=
  if isRootRepetition pat = false then []
  else
    match siblingContext tree node place with
    | none =>
      finishMatches lang tree pat.predicates (matchPatternOnceBy tree matcher pat node none [])
    | some (parent, index) =>
      if (matchPatternOnceBy tree matcher pat node (some (parent, index)) []).isEmpty = true ∨
          matchesChildBy tree matcher pat parent (index + 1) = true then []
      else
        finishMatches lang tree pat.predicates (matchRunBy tree matcher pat node parent index)

def matchPatternAllWithReader : List (List (Capture N)) :=
  matchPatternBy lang tree (matchStepsAllWithReader q lang tree) pat node

def matchPatternPostorderAllWithReader : List (List (Capture N)) :=
  matchPatternPostorderBy lang tree (matchStepsAllWithReader q lang tree) pat node place

end GoTreeSitter.Queries
