import GoTreeSitter.Grammargen.TableRows

/-
  Keys of lists of actions, and cells of the rows of a table under construction.

  Main declarations:
    * `KeyAlike`
    * `GroupsOk`
    * `Grows`
    * `serializeActions_eq_iff`
    * `rawRow_spec`
    * `rawTable_spec`

  The key of a reduction tells its entry. That of a shift tells the target only up to multiples of
  65536. A number once given to a key stays, so the cells of a state hold their numbers in the final
  table, too.
-/

-- Bytes of Numbers

namespace GoTreeSitter.Grammargen

open List

variable (a b : Int)

lemma lowByte_eq_iff : lowByte a = lowByte b ↔ a % 256 = b % 256 := by
  unfold lowByte
  rw [← UInt8.toNat_inj]
  rw [UInt8.toNat_ofNat_of_lt' (by
      show _ < 256
      omega),
    UInt8.toNat_ofNat_of_lt' (by
      show _ < 256
      omega)]
  omega

lemma lowBytes_eq_iff : lowBytes a = lowBytes b ↔ a % 65536 = b % 65536 := by
  unfold lowBytes
  rw [List.cons.injEq, List.cons.injEq, lowByte_eq_iff, lowByte_eq_iff]
  constructor
  · omega
  · intro hSame
    exact ⟨by omega, by omega, rfl⟩

lemma flagByte_eq_iff (a b : Bool) : flagByte a = flagByte b ↔ a = b := by
  cases a with
  | false =>
    cases b with
    | false => exact ⟨fun _ => rfl, fun _ => rfl⟩
    | true => exact ⟨fun h => absurd h (by decide), nofun⟩
  | true =>
    cases b with
    | false => exact ⟨fun h => absurd h (by decide), nofun⟩
    | true => exact ⟨fun _ => rfl, fun _ => rfl⟩

lemma symbolOfInt_eq_iff :
    UInt16.ofNat (a % 65536).toNat = UInt16.ofNat (b % 65536).toNat ↔ a % 65536 = b % 65536 := by
  rw [← UInt16.toNat_inj]
  rw [UInt16.toNat_ofNat_of_lt' (by
      show _ < 65536
      omega),
    UInt16.toNat_ofNat_of_lt' (by
      show _ < 65536
      omega)]
  omega

lemma childCount_eq_iff (a b : Nat) :
    UInt8.ofNat a = UInt8.ofNat b ↔ (a : Int) % 256 = (b : Int) % 256 := by
  rw [← UInt8.toNat_inj, UInt8.toNat_ofNat', UInt8.toNat_ofNat']
  omega

lemma precedence_eq_iff : Int16.ofInt a = Int16.ofInt b ↔ a % 65536 = b % 65536 := by
  rw [← Int16.toInt_inj, Int16.toInt_ofInt, Int16.toInt_ofInt]
  simp only [Int.bmod, Int16.size]
  omega

-- Keys

variable {ng : NormalizedGrammar}

/-
  Actions that a key does not tell apart: shifts whose targets differ by a multiple of 65536,
  reductions with one entry, and two accepts.
-/
def KeyAlike (ng : NormalizedGrammar) (a b : LrAction) : Prop :=
  match a.kind, b.kind with
  | .shift s, .shift t => a.isExtra = b.isExtra ∧ a.repeats = b.repeats ∧ s % 65536 = t % 65536
  | .reduce, .reduce =>
    a.isExtra = b.isExtra ∧ a.repeats = b.repeats ∧ entryAction ng a = entryAction ng b
  | .accept, .accept => True
  | _, _ => False

lemma entryAction_reduce_eq_iff
    {a b : LrAction}
    (ha : a.kind = .reduce)
    (hb : b.kind = .reduce) :
    entryAction ng a = entryAction ng b ↔
      (ng.production a.prodIdx).lhs % 65536 = (ng.production b.prodIdx).lhs % 65536 ∧
        ((ng.production a.prodIdx).rhs.length : Int) % 256 =
          ((ng.production b.prodIdx).rhs.length : Int) % 256 ∧
        (ng.production a.prodIdx).dynPrec % 65536 =
          (ng.production b.prodIdx).dynPrec % 65536 ∧
        (ng.production a.prodIdx).productionID % 65536 =
          (ng.production b.prodIdx).productionID % 65536 ∧
        (ng.production a.prodIdx).isExtra = (ng.production b.prodIdx).isExtra := by
  unfold entryAction
  rw [ha, hb]
  rw [ParseAction.mk.injEq, symbolOfInt_eq_iff,
    childCount_eq_iff, precedence_eq_iff, symbolOfInt_eq_iff]
  constructor
  · simp
  · simp

lemma serializeAction_append_iff (a b : LrAction) (x y : List UInt8) :
    serializeAction ng a ++ x = serializeAction ng b ++ y ↔ KeyAlike ng a b ∧ x = y := by
  unfold serializeAction KeyAlike
  cases ha : a.kind with
  | shift s =>
    cases hb : b.kind with
    | shift t =>
      have hBytes := lowBytes_eq_iff s t
      simp only [lowBytes, List.cons.injEq, and_true] at hBytes
      simp only [lowBytes, cons_append, nil_append, List.cons.injEq, true_and,
        flagByte_eq_iff, and_assoc]
      constructor
      · rintro ⟨hExtra, hRepeat, hHigh, hLow, hRest⟩
        refine ⟨hExtra, hRepeat, ?_, hRest⟩
        have hMod := hBytes.mp ⟨hHigh, hLow⟩
        omega
      · rintro ⟨hExtra, hRepeat, hMod, hRest⟩
        have hBoth := hBytes.mpr (by omega)
        exact ⟨hExtra, hRepeat, hBoth.1, hBoth.2, hRest⟩
    | reduce => simp
    | accept => simp
  | reduce =>
    cases hb : b.kind with
    | shift t => simp
    | reduce =>
      rw [entryAction_reduce_eq_iff ha hb, ← lowBytes_eq_iff (ng.production a.prodIdx).lhs, ←
        lowBytes_eq_iff (ng.production a.prodIdx).dynPrec, ← lowBytes_eq_iff (ng.production
        a.prodIdx).productionID, ← lowByte_eq_iff, ← flagByte_eq_iff a.isExtra, ← flagByte_eq_iff
        a.repeats, ← flagByte_eq_iff (ng.production a.prodIdx).isExtra]
      simp only [lowBytes, cons_append, nil_append, List.cons.injEq, true_and, and_true, and_assoc]
    | accept => simp
  | accept =>
    cases hb : b.kind with
    | shift t => simp
    | reduce => simp
    | accept => simp

lemma serializeAction_ne_nil (a : LrAction) : serializeAction ng a ≠ [] := by
  unfold serializeAction
  cases a.kind with
  | shift s => exact cons_ne_nil _ _
  | reduce => exact cons_ne_nil _ _
  | accept => exact cons_ne_nil _ _

/- Keys are equal for lists that agree place by place. -/
lemma serializeActions_eq_iff (as bs : List LrAction) :
    serializeActions ng as = serializeActions ng bs ↔ List.Forall₂ (KeyAlike ng) as bs := by
  unfold serializeActions
  induction as generalizing bs with
  | nil =>
    cases bs with
    | nil => exact ⟨fun _ => .nil, fun _ => rfl⟩
    | cons b bs =>
      rw [flatMap_cons, flatMap_nil]
      constructor
      · intro hEq
        exact absurd (append_eq_nil_iff.mp hEq.symm).1 (serializeAction_ne_nil b)
      · simp
  | cons a as ih =>
    cases bs with
    | nil =>
      rw [flatMap_cons, flatMap_nil]
      constructor
      · intro hEq
        exact absurd (append_eq_nil_iff.mp hEq).1 (serializeAction_ne_nil a)
      · simp
    | cons b bs =>
      rw [flatMap_cons, flatMap_cons, serializeAction_append_iff, ih, List.forall₂_cons]

end GoTreeSitter.Grammargen

-- Action Groups

namespace GoTreeSitter.Grammargen

open List

variable {ng : NormalizedGrammar} {cells : List LrAction → Prop} {groups next : ActionGroups}

/- The entry of a list of actions. -/
def groupEntry (ng : NormalizedGrammar) (actions : List LrAction) : ParseActionEntry where
  actions := actions.map (entryAction ng)

/- Numbers lead to entries of lists with their keys. -/
structure GroupsOk (ng : NormalizedGrammar) (cells : List LrAction → Prop) (groups : ActionGroups) :
    Prop where
  entry : ∀ (key : List UInt8) (idx : Nat), groups.actionGroupMap.lookup key = some idx → 0 < idx ∧
      idx ≤ maxUint16Index ∧ ∃ actions : List LrAction, cells actions ∧ serializeActions ng actions
      = key ∧ groups.parseActions[idx]? = some (groupEntry ng actions)
  nonempty : groups.parseActions ≠ []
  extra : ng.extraSymbols ≠ [] → groups.parseActions[1]? = some extraEntry

/- Numbers and entries stay, and so does an error. -/
structure Grows (groups next : ActionGroups) : Prop where
  lookup : ∀ (key : List UInt8) (idx : Nat), groups.actionGroupMap.lookup key = some idx →
      next.actionGroupMap.lookup key = some idx
  error : next.indexErr = none → groups.indexErr = none

lemma Grows.refl (groups : ActionGroups) : Grows groups groups := ⟨fun _ _ h => h, id⟩

lemma Grows.trans {last : ActionGroups} (hFirst : Grows groups next) (hSecond : Grows next last) :
    Grows groups last :=
  ⟨fun key idx h =>
      hSecond.lookup key idx (hFirst.lookup key idx h),
    fun h => hFirst.error (hSecond.error h)⟩

/- A cell holds the number of its list of actions. -/
def Written (ng : NormalizedGrammar) (groups : ActionGroups) (actions : List LrAction)
    (value : UInt32) : Prop :=
  if actions = [] then
    value = 0
  else
    groups.actionGroupMap.lookup (serializeActions ng actions) = some value.toNat

variable {value : UInt32} {actions : List LrAction}

lemma Written.grows (hWritten : Written ng groups actions value) (hGrows : Grows groups next) :
    Written ng next actions value := by
  unfold Written at hWritten ⊢
  split_ifs with hNil
  · rw [if_pos hNil] at hWritten
    exact hWritten
  rw [if_neg hNil] at hWritten
  exact hGrows.lookup _ _ hWritten

lemma toNat_toUInt32_ofNat {idx : Nat} (hFits : idx ≤ maxUint16Index) :
    (UInt16.ofNat idx).toUInt32.toNat = idx := by
  rw [UInt16.toNat_toUInt32]
  refine UInt16.toNat_ofNat_of_lt' ?_
  show _ < 65536
  unfold maxUint16Index at hFits
  omega

lemma getOrAddActionGroup_spec
    (hOk : GroupsOk ng cells groups)
    (hCell : actions ≠ [] → cells actions) :
    GroupsOk ng cells (getOrAddActionGroup ng groups actions).2 ∧
      Grows groups (getOrAddActionGroup ng groups actions).2 ∧
      ((getOrAddActionGroup ng groups actions).2.indexErr = none →
        Written ng (getOrAddActionGroup ng groups actions).2 actions
          (getOrAddActionGroup ng groups actions).1.toUInt32) := by
  unfold getOrAddActionGroup Written
  split_ifs with hNil
  · exact ⟨hOk, Grows.refl groups, fun _ => rfl⟩
  dsimp only
  cases hFind : groups.actionGroupMap.lookup (serializeActions ng actions) with
  | some idx =>
    refine ⟨hOk, Grows.refl groups, fun _ => ?_⟩
    rw [hFind, toNat_toUInt32_ofNat (hOk.entry _ idx hFind).2.1]
  | none =>
    cases hCheck : checkUint16Index ng.grammarName
        "parse action group" groups.parseActions.length with
    | some err =>
      refine ⟨⟨hOk.entry, hOk.nonempty, hOk.extra⟩, ⟨fun _ _ h => h, fun h => ?_⟩, fun h => ?_⟩
      · exact (Option.or_eq_none_iff.mp h).1
      · cases (Option.or_eq_none_iff.mp h).2
    | none =>
      have hFits : groups.parseActions.length ≤ maxUint16Index := by
        unfold checkUint16Index at hCheck
        split at hCheck
        · cases hCheck
        · omega
      have hPos : 0 < groups.parseActions.length := length_pos_of_ne_nil hOk.nonempty
      have hOld : ∀ (i : Nat) (entry : ParseActionEntry),
          groups.parseActions[i]? = some entry →
            (groups.parseActions ++ [groupEntry ng actions])[i]? = some entry := by
        intro i entry hAt
        rw [List.getElem?_append_left (List.getElem?_eq_some_iff.mp hAt).1]
        exact hAt
      refine ⟨⟨?_, ?_, ?_⟩, ⟨?_, fun h => h⟩, ?_⟩
      · intro key idx hKey
        rw [lookup_cons] at hKey
        split at hKey
        · rename_i hSame
          cases hKey
          refine ⟨hPos, hFits, actions, hCell hNil, (beq_iff_eq.mp hSame).symm, ?_⟩
          rw [getElem?_append_right (le_refl _), Nat.sub_self]
          rfl
        · rcases hOk.entry key idx hKey with ⟨hIdx, hLe, other, hOther, hSer, hAt⟩
          exact ⟨hIdx, hLe, other, hOther, hSer, hOld idx _ hAt⟩
      · exact append_ne_nil_of_left_ne_nil hOk.nonempty _
      · intro hExtra
        exact hOld 1 _ (hOk.extra hExtra)
      · intro key idx hKey
        rw [lookup_cons]
        split
        · rename_i hSame
          rw [beq_iff_eq.mp hSame, hFind] at hKey
          cases hKey
        · exact hKey
      · intro _
        rw [lookup_cons, beq_self_eq_true, toNat_toUInt32_ofNat hFits]

lemma groupsOk_initial (ng : NormalizedGrammar) (cells : List LrAction → Prop) :
    GroupsOk ng cells (initialGroups ng) where
  entry := by
    intro key idx hKey
    cases hKey
  nonempty := by
    unfold initialGroups
    split
    · exact cons_ne_nil _ _
    · exact cons_ne_nil _ _
  extra := by
    intro hExtra
    unfold initialGroups
    rw [if_neg hExtra]
    rfl

-- Cells of a State

variable {groups : ActionGroups} {syms : List Int}

/- The numbers of a state's lists are in their cells. -/
structure WritesActions (ng : NormalizedGrammar) (cells : List LrAction → Prop)
    (actions : Int → List LrAction) (syms : List Int) (before after : List UInt32 × ActionGroups) :
    Prop where
  ok : GroupsOk ng cells after.2
  grows : Grows before.2 after.2
  length : after.1.length = before.1.length
  others : ∀ place : Nat, (place : Int) ∉ syms → after.1[place]? = before.1[place]?
  written : ∀ place : Nat, place < before.1.length → (place : Int) ∈ syms → ∃ value : UInt32,
      after.1[place]? = some value ∧ (after.2.indexErr = none → Written ng after.2 (actions place)
      value)

variable {actions : Int → List LrAction} {row : List UInt32 × ActionGroups} {place : Nat}

lemma writeAction_writes {sym : Int} (hOk : GroupsOk ng cells row.2)
    (hCell : actions sym ≠ [] → cells (actions sym)) (hSym : 0 ≤ sym) :
    WritesActions ng cells actions [sym] row (writeAction ng actions row sym) := by
  rcases getOrAddActionGroup_spec hOk hCell with ⟨hNext, hGrows, hWritten⟩
  unfold writeAction
  refine ⟨hNext, hGrows, length_set, ?_, ?_⟩
  · intro place hPlace
    rw [getElem?_set_ne]
    intro hSame
    refine hPlace (mem_singleton.mpr ?_)
    omega
  intro place hLt hPlace
  have hSame : sym.toNat = place := by
    have hEq := mem_singleton.mp hPlace
    omega
  have hBack : (place : Int) = sym := mem_singleton.mp hPlace
  refine ⟨(getOrAddActionGroup ng row.2 (actions sym)).1.toUInt32, ?_, ?_⟩
  · rw [hSame, getElem?_set_self hLt]
  · rw [hBack]
    exact hWritten

lemma foldl_writeAction_writes (hNodup : syms.Nodup)
    (hCell : ∀ sym ∈ syms, actions sym ≠ [] → cells (actions sym)) (hSyms : ∀ sym ∈ syms, 0 ≤ sym)
    (hOk : GroupsOk ng cells row.2) :
    WritesActions ng cells actions syms row (syms.foldl (writeAction ng actions) row) := by
  induction syms generalizing row with
  | nil =>
    refine ⟨hOk, Grows.refl row.2, rfl, fun _ _ => rfl, ?_⟩
    intro place _ hPlace
    cases hPlace
  | cons sym syms ih =>
    have hHead := writeAction_writes hOk (hCell sym (mem_cons_self)) (hSyms sym (mem_cons_self))
    have hTail := ih (nodup_cons.mp hNodup).2 (fun other h => hCell other (mem_cons_of_mem sym h))
        (fun other h => hSyms other (mem_cons_of_mem sym h)) hHead.ok
    rw [foldl_cons]
    refine ⟨hTail.ok, hHead.grows.trans hTail.grows, hTail.length.trans hHead.length, ?_, ?_⟩
    · intro place hPlace
      rw [mem_cons, not_or] at hPlace
      rw [hTail.others place hPlace.2]
      refine hHead.others place ?_
      rw [mem_singleton]
      exact hPlace.1
    intro place hLt hPlace
    rcases mem_cons.mp hPlace with hEq | hLater
    · -- the later symbols leave the cell alone
      have hNot : (place : Int) ∉ syms := by
        rw [hEq]
        exact (nodup_cons.mp hNodup).1
      rcases hHead.written place hLt (mem_singleton.mpr hEq) with ⟨value, hValue, hWritten⟩
      refine ⟨value, ?_, fun hNone => ?_⟩
      · rw [hTail.others place hNot]
        exact hValue
      · exact (hWritten (hTail.grows.error hNone)).grows hTail.grows
    · exact hTail.written place (hHead.length ▸ hLt) hLater

lemma foldl_writeExtra {tokenCount : Nat} (hSyms : ∀ sym ∈ syms, 0 ≤ sym) {row : List UInt32}
    (hAt : row[place]? = some value) :
    ∃ next,
      (syms.foldl (writeExtra ng tokenCount) row)[place]? = some next ∧
        (next = value ∨
          (value = 0 ∧ place < tokenCount ∧ (place : Int) ∈ syms ∧ next = extraShiftIdx ng)) := by
  induction syms using List.reverseRecOn with
  | nil => exact ⟨value, hAt, .inl rfl⟩
  | append_singleton syms sym ih =>
    rcases ih (fun other h => hSyms other (mem_append_left _ h)) with
      ⟨next, hNext, hCases⟩
    have hCases' : next = value ∨
        (value = 0 ∧ place < tokenCount ∧ (place : Int) ∈ syms ++ [sym] ∧
          next = extraShiftIdx ng) := by
      rcases hCases with hSame | ⟨hZero, hLt, hMem, hEq⟩
      · exact .inl hSame
      · exact .inr ⟨hZero, hLt, mem_append_left _ hMem, hEq⟩
    rw [foldl_append, foldl_cons, foldl_nil]
    generalize syms.foldl (writeExtra ng tokenCount) row = before at hNext
    unfold writeExtra
    split
    · exact ⟨next, hNext, hCases'⟩
    split_ifs with hEmpty
    · have hSym := hSyms sym (by simp)
      by_cases hHere : sym.toNat = place
      · rw [hHere, hNext, Option.some.injEq] at hEmpty
        have hLt := (List.getElem?_eq_some_iff.mp hNext).1
        refine ⟨extraShiftIdx ng, ?_, ?_⟩
        · rw [hHere, getElem?_set_self hLt]
        have hZero : value = 0 := by
          rcases hCases' with hSame | hLast
          · exact hSame ▸ hEmpty
          · exact hLast.1
        refine .inr ⟨hZero, by omega, mem_append_right _ (mem_singleton.mpr ?_), rfl⟩
        omega
      · refine ⟨next, ?_, hCases'⟩
        rw [getElem?_set_ne hHere]
        exact hNext
    · exact ⟨next, hNext, hCases'⟩

lemma length_foldl_writeExtra (tokenCount : Nat) (syms : List Int) (row : List UInt32) :
    (syms.foldl (writeExtra ng tokenCount) row).length = row.length := by
  induction syms generalizing row with
  | nil => rfl
  | cons sym syms ih =>
    rw [foldl_cons, ih]
    unfold writeExtra
    split
    · rfl
    split
    · exact length_set
    · rfl

lemma length_foldl_writeGoto (gotos : Int → Nat) (syms : List Int) (row : List UInt32) :
    (syms.foldl (writeGoto gotos) row).length = row.length := by
  induction syms generalizing row with
  | nil => rfl
  | cons sym syms ih =>
    rw [foldl_cons, ih]
    exact length_set

lemma foldl_writeGoto {gotos : Int → Nat} (hSyms : ∀ sym ∈ syms, 0 ≤ sym) {row : List UInt32}
    (hPlace : place < row.length) :
    (syms.foldl (writeGoto gotos) row)[place]? =
      if (place : Int) ∈ syms then some (UInt32.ofNat (gotos place)) else row[place]? := by
  induction syms using List.reverseRecOn with
  | nil => rw [if_neg (not_mem_nil)]; rfl
  | append_singleton syms sym ih =>
    have hPast := ih (fun other h => hSyms other (mem_append_left _ h))
    have hSym := hSyms sym (by simp)
    rw [foldl_append, foldl_cons, foldl_nil]
    show ((syms.foldl (writeGoto gotos) row).set sym.toNat (UInt32.ofNat (gotos sym)))[place]? = _
    by_cases hHere : sym.toNat = place
    · have hEq : (place : Int) = sym := by omega
      have hLt : place < (syms.foldl (writeGoto gotos) row).length := by
        rw [length_foldl_writeGoto]
        exact hPlace
      rw [hHere, getElem?_set_self hLt, if_pos (mem_append_right _ (mem_singleton.mpr hEq)), hEq]
    rw [getElem?_set_ne hHere]
    have hIff : (place : Int) ∈ syms ++ [sym] ↔ (place : Int) ∈ syms := by
      rw [mem_append, mem_singleton]
      constructor
      · rintro (hMem | hEq)
        · exact hMem
        · omega
      · exact .inl
    rw [if_congr hIff rfl rfl]
    exact hPast

-- Raw Cells

/- The lists of actions of the terminals of a table. -/
def TerminalCell (tables : LrTables) (tokenCount state : Nat) (sym : Int)
    (actions : List LrAction) : Prop :=
  state < tables.stateCount ∧ 0 ≤ sym ∧ sym < tokenCount ∧ (tables.actionTable state).get sym = some
    actions ∧ actions ≠ []

/- The value of a cell of a table before renumbering. -/
def CellValue (tables : LrTables) (ng : NormalizedGrammar) (tokenCount : Nat)
    (groups : ActionGroups) (state place : Nat) (value : UInt32) : Prop :=
  if place < tokenCount then
    (∀ actions : List LrAction, (tables.actionTable state).get place = some actions → actions ≠ [] →
      groups.actionGroupMap.lookup (serializeActions ng actions) = some value.toNat) ∧
    ((∀ actions : List LrAction, (tables.actionTable state).get place = some actions → actions = [])
      → value = 0 ∨ ((place : Int) ∈ ng.extraSymbols ∧ value = extraShiftIdx ng))
  else
    value = UInt32.ofNat (((tables.gotoTable state).get place).getD 0)

variable {tables : LrTables} {tokenCount state : Nat} {groups next : ActionGroups}

lemma CellValue.grows {place : Nat}
    (hValue : CellValue tables ng tokenCount groups state place value)
    (hGrows : Grows groups next) :
    CellValue tables ng tokenCount next state place value := by
  unfold CellValue at hValue ⊢
  split_ifs with hTerminal
  · rw [if_pos hTerminal] at hValue
    exact ⟨fun actions hGet hCons => hGrows.lookup _ _ (hValue.1 actions hGet hCons), hValue.2⟩
  rw [if_neg hTerminal] at hValue
  exact hValue

lemma mem_terminalSyms {sym : Int} :
    sym ∈ terminalSyms tables tokenCount state ↔
      sym < tokenCount ∧ ∃ actions, (tables.actionTable state).get sym = some actions := by
  unfold terminalSyms
  rw [Finset.mem_sort, Finset.mem_filter,
    Store.PartialMap.mem_keys, Option.isSome_iff_exists, and_comm]

lemma mem_gotoSyms {symbolCount : Nat} {sym : Int} :
    sym ∈ gotoSyms tables tokenCount symbolCount state ↔
      (tokenCount : Int) ≤ sym ∧ sym < symbolCount ∧
        ∃ target, (tables.gotoTable state).get sym = some target := by
  unfold gotoSyms
  rw [Finset.mem_sort, Finset.mem_filter, Store.PartialMap.mem_keys, Option.isSome_iff_exists,
    and_comm, and_assoc]

/- Some terminal of the table has this list of actions. -/
def ListOfCell (tables : LrTables) (tokenCount : Nat) (actions : List LrAction) : Prop :=
  ∃ (state : Nat) (sym : Int), TerminalCell tables tokenCount state sym actions

lemma cell_before_gotos
    {written : List UInt32 × ActionGroups}
    (hWrites : WritesActions ng (ListOfCell tables tokenCount)
      (fun sym => ((tables.actionTable state).get sym).getD [])
      (terminalSyms tables tokenCount state) (List.replicate ng.symbolCount 0, groups) written)
    (hExtras : ∀ sym ∈ ng.extraSymbols, 0 ≤ sym)
    (hNone : written.2.indexErr = none)
    {place : Nat}
    (hPlace : place < ng.symbolCount) :
    ∃ value,
      (ng.extraSymbols.foldl (writeExtra ng tokenCount) written.1)[place]? = some value ∧
        (place < tokenCount → CellValue tables ng tokenCount written.2 state place value) ∧
        (tokenCount ≤ place → value = 0) := by
  have hWidth : place < (List.replicate ng.symbolCount (0 : UInt32)).length := by
    rw [length_replicate]
    exact hPlace
  by_cases hMem : (place : Int) ∈ terminalSyms tables tokenCount state
  · rcases mem_terminalSyms.mp hMem with ⟨hLt, actions, hGet⟩
    rcases hWrites.written place hWidth hMem with ⟨first, hFirst, hWritten⟩
    have hWritten := hWritten hNone
    rw [hGet, Option.getD_some] at hWritten
    rcases foldl_writeExtra hExtras hFirst with ⟨value, hValue, hCases⟩
    refine ⟨value, hValue, fun hTerminal => ?_, fun hGoto => by omega⟩
    unfold CellValue
    rw [if_pos hTerminal, hGet]
    unfold Written at hWritten
    constructor
    · intro other hOther hCons
      cases hOther
      rw [if_neg hCons] at hWritten
      have hPos := (hWrites.ok.entry _ _ hWritten).1
      rcases hCases with hSame | ⟨hZero, _⟩
      · rw [hSame]
        exact hWritten
      · rw [hZero] at hPos
        exact absurd hPos (lt_irrefl 0)
    · intro hEmpty
      rw [if_pos (hEmpty actions rfl)] at hWritten
      rcases hCases with hSame | ⟨_, _, hIn, hIdx⟩
      · exact .inl (hSame.trans hWritten)
      · exact .inr ⟨hIn, hIdx⟩
  · have hFirst : written.1[place]? = some 0 := by
      rw [hWrites.others place hMem]
      exact getElem?_replicate_of_lt hPlace
    rcases foldl_writeExtra hExtras hFirst with ⟨value, hValue, hCases⟩
    refine ⟨value, hValue, fun hTerminal => ?_, fun hGoto => ?_⟩
    · unfold CellValue
      rw [if_pos hTerminal]
      refine ⟨?_, fun _ => ?_⟩
      · intro actions hGet _
        refine absurd (mem_terminalSyms.mpr ⟨?_, actions, hGet⟩) hMem
        exact Int.ofNat_lt.mpr hTerminal
      rcases hCases with hSame | ⟨_, _, hIn, hIdx⟩
      · exact .inl hSame
      · exact .inr ⟨hIn, hIdx⟩
    · rcases hCases with hSame | ⟨_, hLt, _⟩
      · exact hSame
      · omega

section

variable (hRange : IndicesInRange tables ng tokenCount)

include hRange

section

variable (hState : state < tables.stateCount)

include hState

lemma extras_nonneg : ∀ sym ∈ ng.extraSymbols, 0 ≤ sym := by
  intro sym hSym
  by_cases hLt : sym < tokenCount
  · exact ((hRange state (mem_range.mpr hState)).2.1 sym hSym hLt).1
  · omega

lemma rawRow_writes
    (hOk : GroupsOk ng (ListOfCell tables tokenCount) groups) :
    WritesActions ng (ListOfCell tables tokenCount)
      (fun sym => ((tables.actionTable state).get sym).getD [])
      (terminalSyms tables tokenCount state) (List.replicate ng.symbolCount 0, groups)
      ((terminalSyms tables tokenCount state).foldl
        (writeAction ng (fun sym => ((tables.actionTable state).get sym).getD []))
        (List.replicate ng.symbolCount 0, groups)) := by
  have hTerminals := (hRange state (mem_range.mpr hState)).1
  refine foldl_writeAction_writes (Finset.sort_nodup _ _)
    ?_ (fun sym hSym => (hTerminals sym hSym).1) hOk
  intro sym hSym hCons
  rcases mem_terminalSyms.mp hSym with ⟨hLt, actions, hGet⟩
  rw [hGet] at hCons ⊢
  exact ⟨state, sym, hState, (hTerminals sym hSym).1, hLt, hGet, hCons⟩

lemma rawRow_spec
    (hOk : GroupsOk ng (ListOfCell tables tokenCount) groups) :
    GroupsOk ng (ListOfCell tables tokenCount) (rawRow tables ng tokenCount groups state).2 ∧
      Grows groups (rawRow tables ng tokenCount groups state).2 ∧
      (rawRow tables ng tokenCount groups state).1.length = ng.symbolCount ∧
      ((rawRow tables ng tokenCount groups state).2.indexErr = none →
        ∀ place,
          place < ng.symbolCount →
            ∃ value,
              (rawRow tables ng tokenCount groups state).1[place]? = some value ∧
                CellValue tables ng tokenCount (rawRow tables ng tokenCount groups state).2
                  state place value) := by
  have hWrites := rawRow_writes hRange hState hOk
  have hExtras := extras_nonneg hRange hState
  unfold rawRow
  dsimp only
  generalize (terminalSyms tables tokenCount state).foldl (writeAction ng (fun sym =>
    ((tables.actionTable state).get sym).getD [])) (List.replicate ng.symbolCount 0, groups) =
    written at hWrites ⊢
  have hLength : (ng.extraSymbols.foldl (writeExtra ng tokenCount) written.1).length =
      ng.symbolCount := by
    rw [length_foldl_writeExtra, hWrites.length]
    exact length_replicate
  refine ⟨hWrites.ok, hWrites.grows, ?_, ?_⟩
  · rw [length_foldl_writeGoto]
    exact hLength
  intro hNone place hPlace
  rcases cell_before_gotos hWrites hExtras hNone hPlace with ⟨value, hValue, hTerminal, hGoto⟩
  have hGotoSyms : ∀ sym ∈ gotoSyms tables tokenCount ng.symbolCount state, 0 ≤ sym := by
    intro sym hSym
    have hFrom := (mem_gotoSyms.mp hSym).1
    omega
  rw [foldl_writeGoto hGotoSyms (hLength ▸ hPlace)]
  split_ifs with hMem
  · have hFrom := (mem_gotoSyms.mp hMem).1
    refine ⟨_, rfl, ?_⟩
    unfold CellValue
    rw [if_neg (by omega)]
  refine ⟨value, hValue, ?_⟩
  by_cases hLt : place < tokenCount
  · exact hTerminal hLt
  unfold CellValue
  rw [if_neg hLt, hGoto (by omega)]
  cases hGet : (tables.gotoTable state).get place with
  | none => rfl
  | some target =>
    refine absurd (mem_gotoSyms.mpr ⟨?_, ?_, target, hGet⟩) hMem
    · omega
    · omega

end

/- The cells of all states with the final numbers. -/
lemma rawTable_spec :
    GroupsOk ng (ListOfCell tables tokenCount) (rawTable tables ng tokenCount).2 ∧
      (rawTable tables ng tokenCount).1.length = tables.stateCount ∧
      (∀ row ∈ (rawTable tables ng tokenCount).1, row.length = ng.symbolCount) ∧
      ((rawTable tables ng tokenCount).2.indexErr = none →
        ∀ state place row,
          (rawTable tables ng tokenCount).1[state]? = some row → place < ng.symbolCount →
            ∃ value,
              row[place]? = some value ∧
                CellValue tables ng tokenCount (rawTable tables ng tokenCount).2 state place
                  value) := by
  unfold rawTable
  generalize hCount : tables.stateCount = count
  have hLe : count ≤ tables.stateCount := hCount.symm.le
  clear hCount
  induction count with
  | zero =>
    refine ⟨groupsOk_initial ng _, rfl, ?_, ?_⟩
    · simp
    · simp
  | succ count ih =>
    rcases ih (by omega) with ⟨hOk, hCount, hRows, hCells⟩
    rw [range_succ, foldl_append, foldl_cons, foldl_nil]
    generalize (List.range count).foldl (fun built state => (built.1 ++ [(rawRow tables ng
      tokenCount built.2 state).1], (rawRow tables ng tokenCount built.2 state).2)) ([],
      initialGroups ng) = built at hOk hCount hRows hCells ⊢
    rcases rawRow_spec hRange (by omega : count < _) hOk with ⟨hNext, hGrows, hLength, hNew⟩
    refine ⟨hNext, ?_, ?_, ?_⟩
    · rw [length_append, hCount, length_singleton]
    · intro row hRow
      rcases mem_append.mp hRow with hOld | hLast
      · exact hRows row hOld
      · rw [mem_singleton.mp hLast]
        exact hLength
    intro hNone state place row hRow hPlace
    rw [getElem?_append] at hRow
    split at hRow
    · rcases hCells (hGrows.error hNone) state place row hRow hPlace with ⟨value, hValue, hCell⟩
      exact ⟨value, hValue, hCell.grows hGrows⟩
    have hHere : state - built.1.length = 0 := by
      have hIn := (List.getElem?_eq_some_iff.mp hRow).1
      rw [length_singleton] at hIn
      omega
    rw [hHere, getElem?_cons_zero, Option.some.injEq] at hRow
    have hState : state = count := by omega
    rw [← hRow, hState]
    exact hNew hNone place hPlace

end

end GoTreeSitter.Grammargen
