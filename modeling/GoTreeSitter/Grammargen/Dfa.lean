import GoTreeSitter.Graph.Walk
import GoTreeSitter.Grammargen.Nfa
import GoTreeSitter.Ranges.Coalesce

/-
  The deterministic automaton of the terminals.

  Key definitions include:
    * `epsilonClosure`
    * `collectTransitionMoves`

  The states are closed sets of states of the first automaton, numbered in the order they are found.
  A sweep over the ends of ranges tells which states are next.
-/

-- Closures

namespace GoTreeSitter

namespace Grammargen

variable (n : Nfa) (states : List Nat)

namespace Nfa

def transitions (n : Nfa) (q : Nat) : List NfaTransition := ((n.states[q]?).getD {}).transitions

/- The states that are next without a character. -/
def epsilonTargets (q : Nat) : List Nat :=
  ((n.transitions q).filter (fun t => t.epsilon)).map NfaTransition.nextState

/- The targets of all transitions. -/
def targets : List Nat := n.states.flatMap (fun state =>
    state.transitions.map NfaTransition.nextState)

end Nfa

/-
  The states that can be reached without a character. Each is put on the stack once, and is a seed
  or a target.
-/
def epsilonClosure (seeds : List Nat) : List Nat :=
  (Graph.flood n.epsilonTargets (seeds.length + n.targets.length)
    (Graph.markAll seeds ([], []))).insertionSort (· ≤ ·)

-- Moves

/- A range of characters and the states that are next. -/
abbrev NfaRangeMove : Type := Ranges.Labeled (List Nat)

/- A range starts or is over. -/
structure NfaSweepEvent where
  point : Int
  nextState : Nat
  delta : Int
  deriving DecidableEq

/- Events are ordered by point, state and change. -/
def NfaSweepEvent.le (a b : NfaSweepEvent) : Prop :=
  if a.point ≠ b.point then
    a.point < b.point
  else if a.nextState ≠ b.nextState then
    a.nextState < b.nextState
  else
    a.delta ≤ b.delta

instance (a b : NfaSweepEvent) : Decidable (NfaSweepEvent.le a b) := by
  unfold NfaSweepEvent.le
  infer_instance

/- Both ends of a transition. -/
def transitionEvents (t : NfaTransition) : List NfaSweepEvent :=
  if t.epsilon then
    []
  else
    [⟨t.lo, t.nextState, 1⟩, ⟨t.hi + 1, t.nextState, -1⟩]

/- How many ranges lead to a state, if any. -/
abbrev ActiveTargets : Type := List (Nat × Int)

def updateActive (active : ActiveTargets) (ev : NfaSweepEvent) : ActiveTargets :=
  let count := (active.lookup ev.nextState).getD 0 + ev.delta
  let others := active.filter (fun entry => entry.1 ≠ ev.nextState)
  if count = 0 then
    others
  else
    (ev.nextState, count) :: others

/- A range up to the next event, if it leads anywhere. -/
def addMove (active : ActiveTargets) (lo hi : Int) (moves : List NfaRangeMove) :
    List NfaRangeMove :=
  if active = [] ∨ hi < lo then
    moves
  else
    Ranges.addRange moves ⟨lo, hi, (active.map Prod.fst).insertionSort (· ≤ ·)⟩

/- There is a move after the last event of a point. -/
def sweepEvents : List NfaSweepEvent → ActiveTargets → List NfaRangeMove → List NfaRangeMove
  | [], _, moves => moves
  | [_], _, moves => moves
  | ev :: next :: rest, active, moves =>
    let active := updateActive active ev
    let moves :=
      if ev.point = next.point then
        moves
      else
        addMove active ev.point (next.point - 1) moves
    sweepEvents (next :: rest) active moves

def collectTransitionMoves : List NfaRangeMove :=
  let events := states.flatMap (fun q =>
    (n.transitions q).flatMap transitionEvents)
  sweepEvents (events.insertionSort NfaSweepEvent.le) [] []

-- Subsets

/- A range of characters and the number of the next state. -/
abbrev DfaTransition : Type := Ranges.Labeled Nat

structure DfaState where
  transitions : List DfaTransition := []
  accept : Int := 0
  acceptPriority : Int := 0
  deriving DecidableEq

/- The largest `int`. -/
def maxInt : Int := 2 ^ 63 - 1

/- A state accepts before another. -/
def AcceptsBefore (s best : NfaState) : Prop :=
  s.priority < best.priority ∨ (s.priority = best.priority ∧ s.tieOrder < best.tieOrder) ∨
    (s.priority = best.priority ∧ s.tieOrder = best.tieOrder ∧ s.accept < best.accept)

instance (s best : NfaState) : Decidable (AcceptsBefore s best) := by
  unfold AcceptsBefore
  infer_instance

/-
  The better of two states. The first that accepts is taken, as none is worse than the largest
  numbers.
-/
def pickAccept (best : Option NfaState) (s : NfaState) : Option NfaState :=
  if 0 < s.accept then
    match best with
    | none => some s
    | some best =>
      if AcceptsBefore s best then some s else some best
  else
    best

def bestAccept : Option NfaState :=
  (states.map (fun q => (n.states[q]?).getD {})).foldl pickAccept none

/- What is accepted in a set of states. -/
def newDfaState : DfaState :=
  match bestAccept n states with
  | none => { accept := 0, acceptPriority := maxInt }
  | some best =>
    { accept := best.accept,
      acceptPriority := best.priority }

/- The sets found so far and those still to be expanded. -/
structure Subsets where
  stateSets : List (List Nat)
  dfaStates : List DfaState
  worklist : List (Nat × List Nat)
  deriving DecidableEq

/- The number of a set, new if it is not known. -/
def addDfaState (s : Subsets) : Nat × Subsets :=
  match s.stateSets.idxOf? states with
  | some id => (id, s)
  | none =>
    let id := s.dfaStates.length
    (id,
      { stateSets := s.stateSets ++ [states]
        dfaStates := s.dfaStates ++ [newDfaState n states]
        worklist := s.worklist ++ [(id, states)] })

/- A transition of the state that is expanded. -/
def addDfaTransition (id : Nat) (t : DfaTransition) (s : Subsets) : Subsets :=
  { s with
    dfaStates := s.dfaStates.modify id (fun state =>
      { state with
        transitions := Ranges.addRange state.transitions t }) }

def expandMove (id : Nat) (s : Subsets) (move : NfaRangeMove) : Subsets :=
  let targetStates := epsilonClosure n move.label
  if targetStates = [] then
    s
  else
    let (targetID, s) := addDfaState n targetStates s
    addDfaTransition id ⟨move.lo, move.hi, targetID⟩ s

/- Sets are expanded until no set is left. -/
def expandAll : Nat → Subsets → Option (List DfaState)
  | fuel, s =>
    match s.worklist with
    | [] => some s.dfaStates
    | (id, states) :: worklist =>
      match fuel with
      | 0 => none
      | fuel + 1 =>
        expandAll fuel ((collectTransitionMoves n states).foldl (expandMove n id)
            { s with worklist := worklist })

def subsetConstruction (fuel : Nat) : Option (List DfaState) :=
  expandAll n fuel (addDfaState n (epsilonClosure n [n.start]) ⟨[], [], []⟩).2

-- Texts

end Grammargen

end GoTreeSitter
