import GoTreeSitter.Codes.Prefix
import GoTreeSitter.Grammargen.LrTables
import GoTreeSitter.Pool.Intern

/-
  The minimization of parse states.

  Key definitions include:
    * `parserStateSignature`
    * `strictGroups`

  States are grouped by a text that lists their actions and gotos, with the groups of the targets in
  place of the targets, until the number of groups stays the same. Then groups with the same core
  are joined if their rows agree where both have actions.
-/

-- Signatures

namespace GoTreeSitter.Grammargen

open Codes
open Pool
open Store

variable (groups : Option (List Nat)) (tables : LrTables)

def Assoc.code : Assoc → Int
  | .none => 0
  | .left => 1
  | .right => 2

def appendBool (value : Bool) : List Char := decimal (if value then 1 else 0)

/- Numbers in order, after their count. -/
def appendInts (values : Multiset Int) : List Char := decimal (values.sort (· ≤ ·)).length
    ++ (values.sort (· ≤ ·)).flatMap decimal

def formatBool (value : Bool) : String :=
  if value then "true" else "false"

def contributorPart (value : LrShiftContributor) : List Char := (value.lhsSym.repr.toList ++ [':'])
    ++ ((value.prec.repr.toList ++ [':']) ++ (((formatBool value.hasPrec).toList ++ [':']) ++
    value.assoc.code.repr.toList))

/- A text after its length. -/
def appendSized (text : List Char) : List Char := decimal text.length ++ text

/- The parts of the contributors in order. -/
def appendContributors (values : Multiset LrShiftContributor) : List Char :=
  let parts := (values.map contributorPart).sort (· ≤ ·)
  decimal parts.length ++ parts.flatMap appendSized

def LrActionKind.code : LrActionKind → Int
  | .shift _ => 0
  | .reduce => 1
  | .accept => 2

/- The group of a state, zero as long as there are none. -/
def groupOf (state : Nat) : Nat :=
  match groups with
  | none => 0
  | some groups => groups.getD state 0

/- The group of the target of a shift. -/
def LrActionKind.targetGroup : LrActionKind → Nat
  | .shift state => groupOf groups state
  | _ => 0

def parserActionSignature (action : LrAction) (groups : Option (List Nat)) : List Char :=
  decimal action.kind.code ++ (decimal (action.kind.targetGroup groups) ++ (decimal action.prodIdx
    ++ (decimal action.prec ++ (appendBool action.hasPrec ++ (decimal action.assoc.code ++ (decimal
    action.lhsSym ++ (appendInts action.lhsSyms ++ (appendContributors action.shiftContributors ++
    (appendContributors action.conflictContributors ++ (appendBool action.isExtra ++ (appendBool
    action.repeats ++ (decimal action.repeatLHS ++ appendInts action.repeatLHSSyms))))))))))))

/- The signatures of a list of actions, in order. -/
def actionSignatures (actions : List LrAction) (groups : Option (List Nat)) : List (List Char) :=
  (Multiset.map (fun action =>
      parserActionSignature action groups)
    (actions : Multiset LrAction)).sort (· ≤ ·)

/- The actions of a row, symbol by symbol. -/
def actionRowSignature (row : PartialMap Int (List LrAction)) (groups : Option (List Nat)) :
    List Char :=
  (row.keys.sort (· ≤ ·)).flatMap (fun sym =>
    decimal sym ++ (actionSignatures ((row.get sym).getD []) groups).flatMap appendSized)

/- The gotos of a row, symbol by symbol. -/
def gotoRowSignature (row : PartialMap Int Nat) (groups : Option (List Nat)) : List Char :=
  (row.keys.sort (· ≤ ·)).flatMap (fun sym =>
    decimal sym ++ decimal (groupOf groups ((row.get sym).getD 0)))

def parserStateSignature (state : Nat) (groups : Option (List Nat)) : List Char :=
  actionRowSignature (tables.actionTable state) groups
    ++ '|' :: gotoRowSignature (tables.gotoTable state) groups

-- Strict Groups

/- States with one signature are one group. -/
def parserStateGroups (previous : Option (List Nat)) : List Nat :=
  (internAll [] ((List.range tables.stateCount).map (fun state =>
      parserStateSignature tables state previous))).1

/- The largest group, plus one. -/
def lenGroupSet (groups : List Nat) : Nat :=
  groups.foldl (fun count group => max count (group + 1)) 0

/- Refinement until the number of groups stays the same. -/
def refineGroups : Nat → List Nat → Option (List Nat)
  | 0, _ => none
  | fuel + 1, groups =>
    let next := parserStateGroups tables (some groups)
    if lenGroupSet next = lenGroupSet groups then
      some next
    else
      refineGroups fuel next

def strictGroups : Option (List Nat) :=
  refineGroups tables (tables.stateCount + 1) (parserStateGroups tables none)

-- Groups with Rows

/- A group of states with the rows it is going to have. -/
structure ParserStateGroup where
  states : List Nat
  actions : PartialMap Int (List LrAction)
  gotos : PartialMap Int Nat
  compactCoreKey : String

variable (tables : LrTables) (groups : List ParserStateGroup) (strict : List Nat)

/- The core all states of a group share, if they do. -/
def sharedCoreKey (keys : List String) (states : List Nat) : String :=
  match states with
  | [] => ""
  | first :: rest =>
    let key := keys.getD first ""
    if rest.all (fun state => keys[state]? == some key) then
      key
    else
      ""

/- A strict group takes its rows from its first state. -/
def initialGroup (group : Nat) : ParserStateGroup :=
  let states := (List.range tables.stateCount).filter (fun state =>
      strict.getD state 0 == group)
  match states with
  | [] =>
    { states := [], actions := .empty, gotos := .empty
      compactCoreKey := "" }
  | first :: rest =>
    { states := first :: rest
      actions := tables.actionTable first
      gotos := tables.gotoTable first
      compactCoreKey := sharedCoreKey tables.compactCoreKeys (first :: rest) }

def initialStateGroups : List ParserStateGroup :=
  (List.range (lenGroupSet strict)).map (initialGroup tables strict)

/-
  What the comparison of groups needs of the grammar. The overlap of two terminals is unknown
  without matchers for both.
-/
structure TerminalInfo where
  tokenCount : Int
  externalSymbols : List Int
  wordSymbolID : Int
  keywordSymbols : List Int
  startMatchersOverlap : Int → Int → Option Bool

/- No text can start both terminals. -/
def disjointTerminals (left right : Int) (ng : TerminalInfo) : Bool :=
  if left ≤ 0 || right ≤ 0 || ng.tokenCount ≤ left
      || ng.tokenCount ≤ right then
    false
  else if ng.externalSymbols.any (fun external =>
      left == external || right == external) then
    false
  else if left == ng.wordSymbolID
      || right == ng.wordSymbolID then
    false
  else if ng.keywordSymbols.any (fun keyword =>
      left == keyword || right == keyword) then
    false
  else
    ng.startMatchersOverlap left right == some false

/- Lists with the same signatures, in any order. -/
def sameActionLists (left right : List LrAction) (strict : List Nat) : Bool :=
  left.length == right.length && actionSignatures left (some strict)
      == actionSignatures right (some strict)

/- The rows agree where both have entries. -/
def stateGroupsCompatible (left right : ParserStateGroup) (strict : List Nat) (ng : TerminalInfo) :
    Bool :=
  left.gotos.keys.card == right.gotos.keys.card && decide (∀ sym ∈ left.gotos.keys, ((left.gotos.get
      sym).map (groupOf (some strict))) = (right.gotos.get sym).map (groupOf (some strict))) &&
      decide (∀ sym ∈ left.actions.keys, sym ∈ right.actions.keys → sameActionLists
      ((left.actions.get sym).getD []) ((right.actions.get sym).getD []) strict = true) && decide (∀
      leftSym ∈ left.actions.keys, leftSym ∉ right.actions.keys → ∀ rightSym ∈ right.actions.keys,
      rightSym ∉ left.actions.keys → disjointTerminals leftSym rightSym ng = true)

/- The first group gets the states and missing actions. -/
def mergeStateGroups (target source : ParserStateGroup) : ParserStateGroup :=
  { target with
    states := target.states ++ source.states
    actions := target.actions.fill source.actions }

/- A candidate goes to the first group that takes it. -/
def placeGroup (ng : TerminalInfo) (candidate : ParserStateGroup) :
    List ParserStateGroup → List ParserStateGroup
  | [] => [candidate]
  | target :: rest =>
    if target.compactCoreKey = candidate.compactCoreKey
        ∧ stateGroupsCompatible target candidate strict ng = true then
      mergeStateGroups target candidate :: rest
    else
      target :: placeGroup ng candidate rest

/- The merged groups and the groups they are made of. -/
structure MergeProgress where
  merged : List ParserStateGroup := []
  consumed : List Nat := []

/- A candidate is placed unless it was before. -/
def placeCandidate (ng : TerminalInfo) (progress : MergeProgress)
    (candidate : ParserStateGroup × Nat) : MergeProgress :=
  if candidate.2 ∈ progress.consumed then
    progress
  else
    { merged := placeGroup strict ng candidate.1 progress.merged
      consumed := candidate.2 :: progress.consumed }

/- A group is placed with all others of its core. -/
def mergeCore (ng : TerminalInfo) (progress : MergeProgress) (group : ParserStateGroup × Nat) :
    MergeProgress :=
  if group.2 ∈ progress.consumed then
    progress
  else if group.1.compactCoreKey = "" then
    { merged := progress.merged ++ [group.1]
      consumed := group.2 :: progress.consumed }
  else
    (groups.zipIdx.filter (fun candidate =>
        candidate.1.compactCoreKey == group.1.compactCoreKey)).foldl
      (placeCandidate strict ng) progress

def mergeCompatibleStateGroups (ng : Option TerminalInfo) : List ParserStateGroup :=
  match ng with
  | none => groups
  | some ng =>
    if groups.length < 2 then
      groups
    else
      (groups.zipIdx.foldl (mergeCore groups strict ng) {}).merged

-- New Tables

/- The group of the start state is the first. -/
def startGroupFirst : List ParserStateGroup :=
  match groups.findIdx? (fun group => group.states.contains 0), groups with
  | some (k + 1), first :: rest =>
    match rest[k]? with
    | some start => start :: rest.set k first
    | none => groups
  | _, _ => groups

/- The last group that has the state. -/
def stateGroup (state : Nat) : Nat :=
  groups.zipIdx.foldl (fun found group =>
      if state ∈ group.1.states then group.2 else found) 0

def remapStateActions (actions : PartialMap Int (List LrAction)) (groups : Nat → Nat) :
    PartialMap Int (List LrAction) :=
  actions.mapValues (List.map (LrAction.retarget groups))

def remapStateGotos (gotos : PartialMap Int Nat) (groups : Nat → Nat) : PartialMap Int Nat :=
  gotos.mapValues groups

/- The tables of the groups. -/
def groupTables : LrTables where
  actionTable := fun index =>
    match groups[index]? with
    | some group => remapStateActions group.actions (stateGroup groups)
    | none => .empty
  gotoTable := fun index =>
    match groups[index]? with
    | some group => remapStateGotos group.gotos (stateGroup groups)
    | none => .empty
  stateCount := groups.length

/- The groups that are left in the end. -/
def minimizedGroups (ng : Option TerminalInfo) : Option (List ParserStateGroup) :=
  (strictGroups tables).map (fun strict =>
    mergeCompatibleStateGroups (initialStateGroups tables strict) strict ng)

/-
  The minimized tables and the number of states merged away.
  None stands for a refinement without end.
-/
def minimizeParseStates (ng : Option TerminalInfo) : Option (LrTables × Nat) :=
  if tables.stateCount < 2 then
    some (tables, 0)
  else
    (minimizedGroups tables ng).map (fun groups =>
      if groups.length = tables.stateCount then
        (tables, 0)
      else
        (groupTables (startGroupFirst groups), tables.stateCount - groups.length))

end GoTreeSitter.Grammargen
