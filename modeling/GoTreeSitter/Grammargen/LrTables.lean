import GoTreeSitter.Store.PartialMap
import Mathlib

/-
  Parse tables of the grammar compiler.

  Key definitions include:
    * `LrAction` and `LrAction.retarget`
    * `LrTables`

  A state has a row of actions for its symbols and a row of gotos. Only a shift has a target. The
  contributors of an action are collections without an order.
-/

namespace GoTreeSitter.Grammargen

open Store

-- The symbols of a row are sorted by their numbers.

instance symbolLeTrans : IsTrans Int (· ≤ ·) := inferInstance

instance symbolLeAntisymm : Std.Antisymm (fun a b : Int => a ≤ b) := inferInstance

inductive Assoc where
  | none
  | left
  | right
  deriving DecidableEq

/- A production that contributed to an action. -/
structure LrShiftContributor where
  lhsSym : Int
  prec : Int
  hasPrec : Bool
  assoc : Assoc
  deriving DecidableEq

inductive LrActionKind where
  | shift (state : Nat)
  | reduce
  | accept
  deriving DecidableEq

/- An action of a parse table. -/
structure LrAction where
  kind : LrActionKind
  prodIdx : Int := 0
  prec : Int := 0
  hasPrec : Bool := false
  assoc : Assoc := .none
  lhsSym : Int := 0
  lhsSyms : Multiset Int := 0
  shiftContributors : Multiset LrShiftContributor := 0
  conflictContributors : Multiset LrShiftContributor := 0
  isExtra : Bool := false
  repeats : Bool := false
  repeatLHS : Int := 0
  repeatLHSSyms : Multiset Int := 0
  deriving DecidableEq

namespace LrActionKind

/- The target of a shift is mapped. -/
def retarget (f : Nat → Nat) : LrActionKind → LrActionKind
  | .shift state => .shift (f state)
  | .reduce => .reduce
  | .accept => .accept

end LrActionKind

namespace LrAction

/- The target of a shift is mapped. -/
def retarget (f : Nat → Nat) (action : LrAction) : LrAction :=
  { action with kind := action.kind.retarget f }

/- Maps of targets compose. -/
lemma retarget_retarget (f g : Nat → Nat) (action : LrAction) :
    (action.retarget f).retarget g = action.retarget (g ∘ f) := by
  rcases action with ⟨kind⟩
  cases kind with
  | shift state => rfl
  | reduce => rfl
  | accept => rfl

/- A map matters on the target of the action only. -/
lemma retarget_congr {f g : Nat → Nat} {action : LrAction}
    (hSame : ∀ state, action.kind = .shift state → f state = g state) :
    action.retarget f = action.retarget g := by
  have hKind : action.kind.retarget f = action.kind.retarget g := by
    cases hCase : action.kind with
    | shift state => exact congrArg LrActionKind.shift (hSame state hCase)
    | reduce => rfl
    | accept => rfl
  unfold retarget
  rw [hKind]

/- Without a map nothing changes. -/
lemma retarget_id (action : LrAction) : action.retarget id = action := by
  rcases action with ⟨kind⟩
  cases kind with
  | shift state => rfl
  | reduce => rfl
  | accept => rfl

end LrAction

/- The tables of a parser. -/
structure LrTables where
  actionTable : Nat → PartialMap Int (List LrAction)
  gotoTable : Nat → PartialMap Int Nat
  stateCount : Nat
  compactCoreKeys : List String := []

/- All targets are states. -/
structure LrTables.InRange (tables : LrTables) : Prop where
  shift : ∀ (s : Nat) (sym : Int) (actions : List LrAction), s < tables.stateCount →
      (tables.actionTable s).get sym = some actions →
      ∀ action ∈ actions, ∀ target : Nat, action.kind = .shift target → target < tables.stateCount
  goto : ∀ (s : Nat) (sym : Int) (target : Nat), s < tables.stateCount → (tables.gotoTable s).get
      sym = some target → target < tables.stateCount

/- The entries of a state, with actions and gotos. -/
abbrev LrRow : Type := List (Int × List LrAction) × List (Int × Nat)

/- Tables from the entries of each state. -/
def LrTables.ofRows (rows : List LrRow) : LrTables where
  actionTable := fun s => .ofList (rows.getD s ([], [])).1
  gotoTable := fun s => .ofList (rows.getD s ([], [])).2
  stateCount := rows.length

/- Whether an action stays below a number of states. -/
def LrActionKind.below (count : Nat) : LrActionKind → Bool
  | .shift state => state < count
  | _ => true

lemma LrTables.inRange_ofRows {rows : List LrRow}
    (hRows : ∀ row ∈ rows,
      (∀ entry ∈ row.1, ∀ action ∈ entry.2, action.kind.below rows.length) ∧
        ∀ entry ∈ row.2, entry.2 < rows.length) :
    (LrTables.ofRows rows).InRange := by
  have hRow : ∀ s, s < rows.length → rows.getD s ([], []) ∈ rows := by
    intro s hs
    rw [List.getD_eq_getElem?_getD, List.getElem?_eq_getElem hs]
    exact List.getElem_mem hs
  constructor
  · intro s sym actions hs hGet action hMem target hKind
    have hBelow := (hRows _ (hRow s hs)).1 _ (PartialMap.mem_of_get_ofList hGet) action hMem
    rw [hKind] at hBelow
    exact of_decide_eq_true hBelow
  · intro s sym target hs hGet
    exact (hRows _ (hRow s hs)).2 _ (PartialMap.mem_of_get_ofList hGet)

end GoTreeSitter.Grammargen
