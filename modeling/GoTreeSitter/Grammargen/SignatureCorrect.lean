import GoTreeSitter.Grammargen.Minimize

/-
  Signatures determine rows.

  Main declarations:
    * `retargeted`
    * `RowsAlike`
    * `actionSignatures_eq_iff`
    * `parserStateSignature_eq_iff`

  A signature lists the actions of a symbol without their number. It can be read back all the same:
  a symbol that is followed by another one is followed by a larger number, and a length is followed
  by the small code of a kind.
-/

-- Actions

namespace GoTreeSitter.Grammargen

open Codes List
open Store

variable {α : Type} {bound : Int} (f : Nat → Nat) (action : LrAction)
  (row : PartialMap Int (List LrAction)) (groups : Option (List Nat))

lemma unambiguous_appendBool : Unambiguous appendBool := by
  refine unambiguous_decimal.comp ?_
  intro a b hEq
  cases a with
  | false =>
    cases b with
    | false => rfl
    | true => exact absurd hEq (by decide)
  | true =>
    cases b with
    | false => exact absurd hEq (by decide)
    | true => rfl

lemma assocCode_injective : Function.Injective Assoc.code := by
  intro a b hEq
  cases a <;> cases b <;> first | rfl | exact absurd hEq (by decide)

lemma sort_injective (r : α → α → Prop) [DecidableRel r] [IsTrans α r] [Std.Antisymm r]
    [Std.Total r] :
    Function.Injective (fun values : Multiset α => values.sort r) :=
  Function.LeftInverse.injective fun values => values.sort_eq r

lemma unambiguous_appendInts : Unambiguous appendInts :=
  (unambiguous_counted unambiguous_decimal unambiguous_decimal).comp (sort_injective (· ≤ ·))

lemma unambiguous_appendSized : Unambiguous appendSized := unambiguous_sized unambiguous_decimal

lemma contributorPart_injective : Function.Injective contributorPart := by
  intro a b hEq
  have hNumber : Unambiguous (fun value : Int => value.repr.toList ++ [':']) := unambiguous_repr (by
      decide) (by decide)
  have hFlag : Unambiguous (fun value : Bool => (formatBool value).toList ++ [':']) := by
    refine unambiguous_terminated ?_ ?_
    · intro x y hText
      cases x <;> cases y <;> first | rfl | exact absurd hText (by decide)
    · intro x
      cases x <;> decide
  rcases hNumber _ _ _ _ hEq with ⟨hLhs, hEq₁⟩
  rcases hNumber _ _ _ _ hEq₁ with ⟨hPrec, hEq₂⟩
  rcases hFlag _ _ _ _ hEq₂ with ⟨hHas, hEq₃⟩
  have hAssoc := assocCode_injective (intRepr_injective (String.toList_inj.mp hEq₃))
  rcases a with ⟨aLhs, aPrec, aHas, aAssoc⟩
  rcases b with ⟨bLhs, bPrec, bHas, bAssoc⟩
  simp only at hLhs hPrec hHas hAssoc
  rw [hLhs, hPrec, hHas, hAssoc]

lemma unambiguous_appendContributors : Unambiguous appendContributors := by
  refine (unambiguous_counted unambiguous_appendSized unambiguous_decimal).comp ?_
  exact (sort_injective (· ≤ ·)).comp (Multiset.map_injective contributorPart_injective)

/- The target of a shift, zero for the others. -/
def LrActionKind.target : LrActionKind → Nat
  | .shift state => state
  | _ => 0

lemma kind_eq_of_code {a b : LrActionKind} (hCode : a.code = b.code)
    (hTarget : a.target = b.target) :
    a = b := by
  cases a <;> cases b <;> first
    | rfl
    | exact congrArg LrActionKind.shift hTarget
    | cases hCode

/- The signature of an action with its own target. -/
def plainSignature : List Char :=
  decimal action.kind.code ++ (decimal action.kind.target ++ (decimal action.prodIdx ++ (decimal
    action.prec ++ (appendBool action.hasPrec ++ (decimal action.assoc.code ++ (decimal
    action.lhsSym ++ (appendInts action.lhsSyms ++ (appendContributors action.shiftContributors ++
    (appendContributors action.conflictContributors ++ (appendBool action.isExtra ++ (appendBool
    action.repeats ++ (decimal action.repeatLHS ++ appendInts action.repeatLHSSyms))))))))))))

/- Groups stand in for the targets. -/
lemma parserActionSignature_eq :
    parserActionSignature action groups = plainSignature (action.retarget (groupOf groups)) := by
  rcases action with ⟨kind⟩
  cases kind with
  | shift state => rfl
  | reduce => rfl
  | accept => rfl

lemma plainSignature_injective : Function.Injective plainSignature := by
  intro a b hEq
  rcases unambiguous_decimal _ _ _ _ hEq with ⟨h1, hEq⟩
  rcases unambiguous_decimal _ _ _ _ hEq with ⟨h2, hEq⟩
  rcases unambiguous_decimal _ _ _ _ hEq with ⟨h3, hEq⟩
  rcases unambiguous_decimal _ _ _ _ hEq with ⟨h4, hEq⟩
  rcases unambiguous_appendBool _ _ _ _ hEq with ⟨h5, hEq⟩
  rcases unambiguous_decimal _ _ _ _ hEq with ⟨h6, hEq⟩
  rcases unambiguous_decimal _ _ _ _ hEq with ⟨h7, hEq⟩
  rcases unambiguous_appendInts _ _ _ _ hEq with ⟨h8, hEq⟩
  rcases unambiguous_appendContributors _ _ _ _ hEq with ⟨h9, hEq⟩
  rcases unambiguous_appendContributors _ _ _ _ hEq with ⟨h10, hEq⟩
  rcases unambiguous_appendBool _ _ _ _ hEq with ⟨h11, hEq⟩
  rcases unambiguous_appendBool _ _ _ _ hEq with ⟨h12, hEq⟩
  rcases unambiguous_decimal _ _ _ _ hEq with ⟨h13, hEq⟩
  have h14 := unambiguous_appendInts.injective hEq
  have hKind := kind_eq_of_code h1 (Int.ofNat.inj h2)
  have hAssoc := assocCode_injective h6
  rcases a with ⟨_, _, _, _, _, _, _, _, _, _, _, _, _⟩
  rcases b with ⟨_, _, _, _, _, _, _, _, _, _, _, _, _⟩
  subst hKind hAssoc h3 h4 h5 h7 h8 h9 h10 h11 h12 h13 h14
  rfl

-- Reading Rows of Actions

/- What stands in the text of a row. -/
inductive RowItem where
  | symbol (sym : Int)
  | action (signature : List Char)

def RowItem.text : RowItem → List Char
  | .symbol sym => decimal sym
  | .action signature => appendSized signature

/- The items of a row of signatures. -/
def rowItems (row : List (Int × List (List Char))) : List RowItem := row.flatMap (fun entry =>
    .symbol entry.1 :: entry.2.map .action)

/- A long text that starts with the code of a kind. -/
def ActionText (signature : List Char) : Prop :=
  28 ≤ signature.length ∧ ∃ (code : Int) (rest : List Char),
      code ≤ 2 ∧ signature = decimal code ++ rest

/- Symbols grow, above a bound, and all actions have the text of one. -/
inductive ItemsOk : Int → List RowItem → Prop
  | nil {bound : Int} : ItemsOk bound []
  | symbol {bound sym : Int} {items : List RowItem} (hBound : bound < sym)
      (hItems : ItemsOk sym items) :
      ItemsOk bound (.symbol sym :: items)
  | action {bound : Int} {signature : List Char} {items : List RowItem}
      (hText : ActionText signature)
      (hItems : ItemsOk bound items) :
      ItemsOk bound (.action signature :: items)

lemma items_ne_code {code : Int} {items : List RowItem} (hItems : ItemsOk bound items)
    (hBound : 28 ≤ bound) (hCode : code ≤ 2) (x y : List Char) :
    items.flatMap RowItem.text ++ '|' :: x ≠ decimal code ++ y := by
  intro hEq
  cases hItems with
  | nil => exact decimal_append_ne code (by decide) (by decide) y x hEq.symm
  | symbol hLess _ =>
    rw [flatMap_cons, append_assoc] at hEq
    have hSame := (unambiguous_decimal _ _ _ _ hEq).1
    omega
  | action hText _ =>
    rw [flatMap_cons, append_assoc] at hEq
    unfold RowItem.text appendSized at hEq
    rw [append_assoc] at hEq
    have hSame := (unambiguous_decimal _ _ _ _ hEq).1
    have hLength := hText.1
    omega

lemma symbol_ne_action {sym : Int} {items : List RowItem} (hItems : ItemsOk sym items)
    {signature : List Char} (hText : ActionText signature) (x y : List Char) :
    decimal sym ++ (items.flatMap RowItem.text ++ '|' :: x) ≠ appendSized signature ++ y := by
  intro hEq
  unfold appendSized at hEq
  rw [append_assoc] at hEq
  rcases unambiguous_decimal _ _ _ _ hEq with ⟨hSame, hRest⟩
  rcases hText with ⟨hLength, code, rest, hCode, hStart⟩
  rw [hStart, append_assoc] at hRest
  exact items_ne_code hItems (by omega) hCode _ _ hRest

lemma items_inj {left right : List RowItem} {bound' : Int} (hLeft : ItemsOk bound left)
    (hRight : ItemsOk bound' right) {x y : List Char}
    (hEq : left.flatMap RowItem.text ++ '|' :: x = right.flatMap RowItem.text ++ '|' :: y) :
    left = right ∧ x = y := by
  induction hLeft generalizing right bound' with
  | nil =>
    cases hRight with
    | nil => exact ⟨rfl, (List.cons.inj hEq).2⟩
    | symbol _ _ =>
      rw [flatMap_cons, append_assoc] at hEq
      exact absurd hEq.symm (decimal_append_ne _ (by decide) (by decide) _ _)
    | action _ _ =>
      rw [flatMap_cons, append_assoc] at hEq
      unfold RowItem.text appendSized at hEq
      rw [append_assoc] at hEq
      exact absurd hEq.symm (decimal_append_ne _ (by decide) (by decide) _ _)
  | symbol _ hItems ih =>
    rw [flatMap_cons, append_assoc] at hEq
    cases hRight with
    | nil => exact absurd hEq (decimal_append_ne _ (by decide) (by decide) _ _)
    | symbol _ hItems' =>
      rw [flatMap_cons, append_assoc] at hEq
      rcases unambiguous_decimal _ _ _ _ hEq with ⟨hSym, hRest⟩
      rcases ih hItems' hRest with ⟨hSame, hTail⟩
      exact ⟨by rw [hSym, hSame], hTail⟩
    | action hText _ =>
      rw [flatMap_cons, append_assoc] at hEq
      exact absurd hEq (symbol_ne_action hItems hText _ _)
  | action hText hItems ih =>
    rw [flatMap_cons, append_assoc] at hEq
    cases hRight with
    | nil =>
      unfold RowItem.text appendSized at hEq
      rw [append_assoc] at hEq
      exact absurd hEq (decimal_append_ne _ (by decide) (by decide) _ _)
    | symbol _ hItems' =>
      rw [flatMap_cons, append_assoc] at hEq
      exact absurd hEq.symm (symbol_ne_action hItems' hText _ _)
    | action _ hItems' =>
      rw [flatMap_cons, append_assoc] at hEq
      rcases unambiguous_appendSized _ _ _ _ hEq with ⟨hSame, hRest⟩
      rcases ih hItems' hRest with ⟨hItemsSame, hTail⟩
      exact ⟨by rw [hSame, hItemsSame], hTail⟩

lemma actions_append_inj {as bs : List (List Char)} {row row' : List (Int × List (List Char))}
    (hEq : as.map RowItem.action ++ rowItems row = bs.map RowItem.action ++ rowItems row') :
    as = bs ∧ rowItems row = rowItems row' := by
  induction as generalizing bs with
  | nil =>
    cases bs with
    | nil => exact ⟨rfl, hEq⟩
    | cons b bs =>
      cases row with
      | nil => cases hEq
      | cons entry row => cases hEq
  | cons a as ih =>
    cases bs with
    | nil =>
      cases row' with
      | nil => cases hEq
      | cons entry row => cases hEq
    | cons b bs =>
      rcases List.cons.inj hEq with ⟨hHead, hRest⟩
      rcases ih hRest with ⟨hTail, hRows⟩
      injection hHead with hSame
      exact ⟨by rw [hSame, hTail], hRows⟩

lemma rowItems_injective : Function.Injective rowItems := by
  intro row row' hEq
  induction row generalizing row' with
  | nil =>
    cases row' with
    | nil => rfl
    | cons entry row' => cases hEq
  | cons entry row ih =>
    cases row' with
    | nil => cases hEq
    | cons entry' row' =>
      rcases List.cons.inj hEq with ⟨hHead, hRest⟩
      rcases actions_append_inj hRest with ⟨hActions, hRows⟩
      injection hHead with hSym
      have hEntry : entry = entry' := Prod.ext hSym hActions
      rw [hEntry, ih hRows]

-- Signatures of States

lemma actionText_signature : ActionText (parserActionSignature action groups) := by
  refine ⟨?_, action.kind.code, _, ?_, rfl⟩
  · have hNumber := two_le_length_decimal
    have hInts : ∀ values, 2 ≤ (appendInts values).length := by
      intro values
      unfold appendInts
      rw [length_append]
      exact le_trans (hNumber _) (Nat.le_add_right _ _)
    have hContributors : ∀ values, 2 ≤ (appendContributors values).length := by
      intro values
      unfold appendContributors
      rw [length_append]
      exact le_trans (hNumber _) (Nat.le_add_right _ _)
    have hFlag : ∀ value, 2 ≤ (appendBool value).length := fun value => hNumber _
    have h1 := hNumber action.kind.code
    have h2 := hNumber (action.kind.targetGroup groups)
    have h3 := hNumber action.prodIdx
    have h4 := hNumber action.prec
    have h5 := hFlag action.hasPrec
    have h6 := hNumber action.assoc.code
    have h7 := hNumber action.lhsSym
    have h8 := hInts action.lhsSyms
    have h9 := hContributors action.shiftContributors
    have h10 := hContributors action.conflictContributors
    have h11 := hFlag action.isExtra
    have h12 := hFlag action.repeats
    have h13 := hNumber action.repeatLHS
    have h14 := hInts action.repeatLHSSyms
    unfold parserActionSignature
    simp only [length_append]
    omega
  · cases action.kind with
    | shift state => exact (show (0 : Int) ≤ 2 by decide)
    | reduce => exact (show (1 : Int) ≤ 2 by decide)
    | accept => exact (show (2 : Int) ≤ 2 by decide)

lemma keys_eq_of_alike {β : Type} {f : α → β} {left right : PartialMap Int α}
    (hAlike : ∀ sym, (left.get sym).map f = (right.get sym).map f) :
    left.keys = right.keys := by
  ext sym
  have hSome := congrArg Option.isSome (hAlike sym)
  rw [Option.isSome_map, Option.isSome_map] at hSome
  rw [left.mem_keys, right.mem_keys, hSome]

/- The entries of a row in the order of its symbols. -/
def sortedEntries {α β : Type} (f : α → β) (default : α) (row : PartialMap Int α) :
    List (Int × β) :=
  (row.keys.sort (· ≤ ·)).map (fun sym =>
    (sym, f ((row.get sym).getD default)))

lemma map_fst_sortedEntries {β : Type} (f : α → β) (default : α) (row : PartialMap Int α) :
    (sortedEntries f default row).map Prod.fst = row.keys.sort (· ≤ ·) := by
  unfold sortedEntries
  rw [map_map]
  exact map_id _

lemma sortedEntries_eq_iff {β : Type} (f : α → β) (default : α) (left right : PartialMap Int α) :
    sortedEntries f default left = sortedEntries f default right ↔
      ∀ sym, (left.get sym).map f = (right.get sym).map f := by
  constructor
  · intro hEq sym
    have hSorts := congrArg (List.map Prod.fst) hEq
    rw [map_fst_sortedEntries, map_fst_sortedEntries] at hSorts
    have hKeys : left.keys = right.keys := by
      rw [← Finset.sort_toFinset left.keys (· ≤ ·), hSorts, Finset.sort_toFinset]
    unfold sortedEntries at hEq
    rw [hKeys] at hEq
    have hEntry := map_inj_left.mp hEq
    by_cases hMem : sym ∈ right.keys
    · have hValues := congrArg Prod.snd (hEntry sym ((Finset.mem_sort _).mpr hMem))
      have hLeft := (left.mem_keys sym).mp (hKeys ▸ hMem)
      have hRight := (right.mem_keys sym).mp hMem
      rcases Option.isSome_iff_exists.mp hLeft with ⟨l, hl⟩
      rcases Option.isSome_iff_exists.mp hRight with ⟨r, hr⟩
      rw [hl, hr] at hValues ⊢
      exact congrArg some hValues
    · have hLeft : sym ∉ left.keys := hKeys ▸ hMem
      rw [left.mem_keys, Bool.not_eq_true, Option.isSome_eq_false_iff, Option.isNone_iff_eq_none]
        at hLeft
      rw [right.mem_keys, Bool.not_eq_true, Option.isSome_eq_false_iff, Option.isNone_iff_eq_none]
        at hMem
      rw [hLeft, hMem]
  · intro hAlike
    unfold sortedEntries
    rw [keys_eq_of_alike hAlike]
    refine map_inj_left.mpr fun sym hMem => ?_
    have hSome := (right.mem_keys sym).mp ((Finset.mem_sort _).mp hMem)
    rcases Option.isSome_iff_exists.mp hSome with ⟨r, hr⟩
    have hEntry := hAlike sym
    rw [hr] at hEntry ⊢
    rcases Option.map_eq_some_iff.mp hEntry with ⟨l, hl, hSame⟩
    rw [hl]
    exact congrArg (Prod.mk sym) hSame

/- The signatures of a row, symbol by symbol. -/
def signatureEntries : List (Int × List (List Char)) :=
  sortedEntries (fun actions =>
    actionSignatures actions groups) [] row

lemma actionRowSignature_eq :
    actionRowSignature row groups =
      (rowItems (signatureEntries row groups)).flatMap RowItem.text := by
  unfold actionRowSignature signatureEntries sortedEntries rowItems
  simp only [flatMap_map, flatMap_assoc, flatMap_cons]
  rfl

lemma itemsOk_rowItems {row : List (Int × List (List Char))}
    (hSorted : (row.map Prod.fst).Pairwise (· < ·)) (hBound : ∀ entry ∈ row, bound < entry.1)
    (hTexts : ∀ entry ∈ row, ∀ signature ∈ entry.2, ActionText signature) :
    ItemsOk bound (rowItems row) := by
  induction row generalizing bound with
  | nil => exact .nil
  | cons entry row ih =>
    rcases forall_mem_cons.mp hBound with ⟨hFirst, _⟩
    rcases forall_mem_cons.mp hTexts with ⟨hText, hRest⟩
    rw [map_cons, pairwise_cons] at hSorted
    have hItems : ItemsOk entry.1 (rowItems row) := by
      refine ih hSorted.2 (fun other hMem => ?_) hRest
      exact hSorted.1 other.1 (mem_map_of_mem hMem)
    refine .symbol hFirst ?_
    clear hTexts
    revert hText
    generalize entry.2 = signatures
    intro hText
    induction signatures with
    | nil => exact hItems
    | cons signature signatures ihText =>
      rcases forall_mem_cons.mp hText with ⟨hHead, hTail⟩
      exact .action hHead (ihText hTail)

lemma itemsOk_entries : ∃ bound, ItemsOk bound (rowItems (signatureEntries row groups)) := by
  have hSorted : ((signatureEntries row groups).map Prod.fst).Pairwise (· < ·) := by
    rw [signatureEntries, map_fst_sortedEntries]
    exact (Finset.sortedLT_sort row.keys).pairwise
  have hTexts :
      ∀ entry ∈ signatureEntries row groups, ∀ signature ∈ entry.2, ActionText signature := by
    intro entry hEntry signature hMem
    rcases mem_map.mp hEntry with ⟨sym, _, rfl⟩
    unfold actionSignatures at hMem
    rw [Multiset.mem_sort, Multiset.mem_map] at hMem
    rcases hMem with ⟨action, _, rfl⟩
    exact actionText_signature action groups
  cases hEntries : signatureEntries row groups with
  | nil => exact ⟨0, .nil⟩
  | cons entry rest =>
    rw [hEntries] at hSorted hTexts
    refine ⟨entry.1 - 1, itemsOk_rowItems hSorted ?_ hTexts⟩
    rw [map_cons, pairwise_cons] at hSorted
    refine forall_mem_cons.mpr ⟨by omega, ?_⟩
    intro other hMem
    have hLess := hSorted.1 other.1 (mem_map_of_mem hMem)
    omega

/- A list of actions with mapped targets, in any order. -/
def retargeted (actions : List LrAction) : Multiset LrAction :=
  (actions : Multiset LrAction).map (LrAction.retarget f)

lemma actionSignatures_eq_iff (left right : List LrAction) (groups : Option (List Nat)) :
    actionSignatures left groups = actionSignatures right groups ↔
      retargeted (groupOf groups) left = retargeted (groupOf groups) right := by
  have hMap : ∀ actions : List LrAction,
      (actions : Multiset LrAction).map (fun action => parserActionSignature action groups) =
        (retargeted (groupOf groups) actions).map plainSignature := by
    intro actions
    unfold retargeted
    rw [Multiset.map_map]
    refine Multiset.map_congr rfl fun action _ => ?_
    exact parserActionSignature_eq action groups
  unfold actionSignatures
  rw [(sort_injective (· ≤ ·)).eq_iff, hMap, hMap,
    (Multiset.map_injective plainSignature_injective).eq_iff]

/- Rows of actions that agree up to groups of targets. -/
def ActionsAlike (left right : PartialMap Int (List LrAction)) : Prop :=
  ∀ sym : Int, (left.get sym).map (retargeted f) = (right.get sym).map (retargeted f)

/- Rows of gotos that agree up to groups of targets. -/
def GotosAlike (left right : PartialMap Int Nat) : Prop :=
  ∀ sym : Int, (left.get sym).map f = (right.get sym).map f

lemma signatureEntries_eq_iff (left right : PartialMap Int (List LrAction))
    (groups : Option (List Nat)) :
    signatureEntries left groups = signatureEntries right groups ↔
      ActionsAlike (groupOf groups) left right := by
  rw [signatureEntries, signatureEntries, sortedEntries_eq_iff]
  refine forall_congr' fun sym => ?_
  cases left.get sym with
  | none =>
    cases right.get sym with
    | none => exact ⟨fun _ => rfl, fun _ => rfl⟩
    | some r => exact ⟨nofun, nofun⟩
  | some l =>
    cases right.get sym with
    | none => exact ⟨nofun, nofun⟩
    | some r =>
      simp only [Option.map_some, Option.some.injEq]
      exact actionSignatures_eq_iff l r groups

/- A goto in the text of a row. -/
def gotoText (entry : Int × Nat) : List Char := decimal entry.1 ++ decimal entry.2

lemma unambiguous_gotoText : Unambiguous gotoText := by
  intro a b x y hEq
  unfold gotoText at hEq
  rw [append_assoc, append_assoc] at hEq
  rcases unambiguous_decimal _ _ _ _ hEq with ⟨hSym, hEq₁⟩
  rcases unambiguous_decimal _ _ _ _ hEq₁ with ⟨hTarget, hRest⟩
  exact ⟨Prod.ext hSym (Int.ofNat.inj hTarget), hRest⟩

lemma gotoText_ne_nil (entry : Int × Nat) : gotoText entry ≠ [] := by
  intro hNil
  have hLength := two_le_length_decimal entry.1
  have hZero := congrArg List.length hNil
  unfold gotoText at hZero
  rw [length_append, length_nil] at hZero
  omega

lemma gotoRowSignature_eq (row : PartialMap Int Nat) (groups : Option (List Nat)) :
    gotoRowSignature row groups = (sortedEntries (groupOf groups) 0 row).flatMap gotoText := by
  unfold gotoRowSignature sortedEntries
  rw [flatMap_map]
  rfl

/- Rows of two states that agree up to groups of targets. -/
structure RowsAlike (f : Nat → Nat) (tables : LrTables) (s t : Nat) : Prop where
  actions : ActionsAlike f (tables.actionTable s) (tables.actionTable t)
  gotos : GotosAlike f (tables.gotoTable s) (tables.gotoTable t)

lemma parserStateSignature_eq_iff (tables : LrTables) (s t : Nat) (groups : Option (List Nat)) :
    parserStateSignature tables s groups = parserStateSignature tables t groups ↔
      RowsAlike (groupOf groups) tables s t := by
  unfold parserStateSignature
  rw [actionRowSignature_eq, actionRowSignature_eq, gotoRowSignature_eq, gotoRowSignature_eq]
  constructor
  · intro hEq
    rcases itemsOk_entries (tables.actionTable s) groups with ⟨_, hLeft⟩
    rcases itemsOk_entries (tables.actionTable t) groups with ⟨_, hRight⟩
    rcases items_inj hLeft hRight hEq with ⟨hItems, hGotos⟩
    have hRows := rowItems_injective hItems
    have hEntries := flatMap_injective unambiguous_gotoText gotoText_ne_nil hGotos
    exact ⟨(signatureEntries_eq_iff _ _ _).mp hRows, (sortedEntries_eq_iff _ _ _ _).mp hEntries⟩
  · rintro ⟨hActions, hGotos⟩
    rw [(signatureEntries_eq_iff _ _ _).mpr hActions, (sortedEntries_eq_iff _ _ _ _).mpr hGotos]

end GoTreeSitter.Grammargen
