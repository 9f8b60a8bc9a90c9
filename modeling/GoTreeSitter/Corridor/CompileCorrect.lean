import GoTreeSitter.Corridor.Program
import Mathlib.Data.Fintype.Prod

/-
  What the first pass of the corridor compiler collects.

  Main declarations:
    * `CorridorTables.Cell`
    * `CorridorTables.BlockOf`
    * `compileStates_classified`
    * `CorridorTables.Classified.pool_length_le`

  The blocks hold exactly the populated terminals of their states, and every body index leads to the
  disposition of its cell.
-/

-- Cells

namespace GoTreeSitter

open List

namespace CorridorTables

variable {t : CorridorTables} {state : StateID} {sym : Symbol} {keys : List (Symbol × UInt16)}
  {cells : List (Symbol × BodyKind)}

/- The terminal has actions in the state, and this is their disposition. -/
def Cell (t : CorridorTables) (state : StateID) (sym : Symbol) (kind : BodyKind) : Prop :=
  sym.toUInt32 < t.tokenCount ∧ ∃ (row : ActionRow) (idx : UInt16),
      t.row state sym = .ok (row, idx) ∧ row.actions ≠ [] ∧ kind = t.classifyCell state sym row idx

/- A terminal has one disposition. -/
lemma Cell.unique {kind other : BodyKind} (hKind : t.Cell state sym kind)
    (hOther : t.Cell state sym other) :
    kind = other := by
  rcases hKind with ⟨_, row, idx, hRow, _, rfl⟩
  rcases hOther with ⟨_, row', idx', hRow', _, rfl⟩
  rw [hRow] at hRow'
  cases hRow'
  rfl

/- One key of the visit: it is skipped, or it adds its cell. -/
lemma visitKeys_cons {key : Symbol × UInt16}
    (hVisit : t.visitKeys state (key :: keys) = .ok cells) :
    (t.visitKeys state keys = .ok cells ∧ ∀ kind, ¬ t.Cell state key.1 kind) ∨
      ∃ kind rest,
        t.visitKeys state keys = .ok rest ∧ t.Cell state key.1 kind ∧
          cells = (key.1, kind) :: rest := by
  rw [visitKeys] at hVisit
  split_ifs at hVisit with hToken
  · refine .inl ⟨hVisit, ?_⟩
    intro kind hCell
    exact absurd hCell.1 (UInt32.not_lt.mpr hToken)
  cases hRow : t.row state key.1 with
  | error err => simp [hRow] at hVisit
  | ok found =>
    rcases found with ⟨row, idx⟩
    rw [hRow] at hVisit
    dsimp only at hVisit
    split_ifs at hVisit with hActions
    · refine .inl ⟨hVisit, ?_⟩
      rintro kind ⟨_, row', idx', hRow', hSome, _⟩
      rw [hRow] at hRow'
      cases hRow'
      exact hSome hActions
    cases hRest : t.visitKeys state keys with
    | error err => simp [hRest] at hVisit
    | ok rest =>
      rw [hRest] at hVisit
      cases hVisit
      exact .inr ⟨_, rest, rfl, ⟨UInt32.not_le.mp hToken, row, idx, hRow, hActions, rfl⟩, rfl⟩

lemma cell_of_mem_visitKeys (hVisit : t.visitKeys state keys = .ok cells)
    {cell : Symbol × BodyKind} (hMem : cell ∈ cells) :
    t.Cell state cell.1 cell.2 := by
  induction keys generalizing cells with
  | nil =>
    cases hVisit
    cases hMem
  | cons key keys ih =>
    rcases visitKeys_cons hVisit with ⟨hRest, _⟩ | ⟨kind, rest, hRest, hCell, rfl⟩
    · exact ih hRest hMem
    rcases mem_cons.mp hMem with rfl | hTail
    · exact hCell
    · exact ih hRest hTail

lemma mem_visitKeys_of_cell (hVisit : t.visitKeys state keys = .ok cells) {kind : BodyKind}
    (hKey : sym ∈ keys.map Prod.fst) (hCell : t.Cell state sym kind) :
    (sym, kind) ∈ cells := by
  induction keys generalizing cells with
  | nil => cases hKey
  | cons key keys ih =>
    rcases visitKeys_cons hVisit with ⟨hRest, hSkipped⟩ | ⟨found, rest, hRest, hFound, rfl⟩
    · rcases mem_cons.mp hKey with rfl | hTail
      · exact absurd hCell (hSkipped kind)
      · exact ih hRest hTail
    rcases mem_cons.mp hKey with rfl | hTail
    · rw [hCell.unique hFound]
      exact mem_cons_self ..
    · exact mem_cons_of_mem _ (ih hRest hTail)

lemma mem_visitKeys_iff (hVisit : t.visitKeys state (t.forEachKey state) = .ok cells)
    (sym : Symbol) (kind : BodyKind) :
    (sym, kind) ∈ cells ↔ t.Cell state sym kind := by
  constructor
  · intro hMem
    exact cell_of_mem_visitKeys hVisit hMem
  intro hCell
  have hCopy := hCell
  rcases hCopy with ⟨_, row, idx, hRow, hActions, _⟩
  rcases row_eq_rowAt hRow with ⟨hIndex, hRowAt⟩
  have hNonzero : t.actionIndex state sym ≠ 0 := by
    rw [← hIndex]
    exact rowAt_index_ne_zero hRowAt hActions
  exact mem_visitKeys_of_cell hVisit (mem_forEachKey_of_actionIndex hNonzero) hCell

/- Terminals are read without an error in a visited state. -/
lemma row_ok_of_visitKeys (hVisit : t.visitKeys state keys = .ok cells)
    (hToken : sym.toUInt32 < t.tokenCount) (hKey : sym ∈ keys.map Prod.fst) :
    ∃ found, t.row state sym = .ok found := by
  induction keys generalizing cells with
  | nil => cases hKey
  | cons key keys ih =>
    rcases mem_cons.mp hKey with rfl | hTail
    · rw [visitKeys, if_neg (UInt32.not_le.mpr hToken)] at hVisit
      cases hRow : t.row state key.1 with
      | error err => simp [hRow] at hVisit
      | ok found => exact ⟨found, rfl⟩
    · rcases visitKeys_cons hVisit with ⟨hRest, _⟩ | ⟨_, _, hRest, _, _⟩
      · exact ih hRest hTail
      · exact ih hRest hTail

lemma row_ok_of_visited (hVisit : t.visitKeys state (t.forEachKey state) = .ok cells)
    (hToken : sym.toUInt32 < t.tokenCount) :
    ∃ found, t.row state sym = .ok found := by
  by_cases hIndex : t.actionIndex state sym = 0
  · refine ⟨({}, t.actionIndex state sym), ?_⟩
    rw [CorridorTables.row, hIndex, rowAt, if_pos rfl]
  · exact row_ok_of_visitKeys hVisit hToken (mem_forEachKey_of_actionIndex hIndex)

end CorridorTables

-- Interning

open Pool

/-
  Interning the bodies of a state keeps the pool as the front of the new one, without duplicates,
  and every index leads to its body.
-/
structure Interned (pool : List BodyKind) (kinds : List BodyKind) (indices : List Nat)
    (grown : List BodyKind) : Prop where
  front : pool <+: grown
  nodup : pool.Nodup → grown.Nodup
  members : ∀ kind ∈ grown, kind ∈ pool ∨ kind ∈ kinds
  indexed : List.Forall₂ (fun (idx : Nat) (kind : BodyKind) =>
      grown[idx]? = some kind)
      indices kinds

lemma internBodies_interned (pool kinds : List BodyKind) :
    Interned pool kinds (internBodies pool kinds).1 (internBodies pool kinds).2 := by
  induction kinds generalizing pool with
  | nil => exact ⟨prefix_refl pool, id, fun _ h => .inl h, List.Forall₂.nil⟩
  | cons kind kinds ih =>
    have hRest := ih (internValue pool kind).2
    refine ⟨?_, ?_, ?_, ?_⟩
    · exact (internValue_front pool kind).trans hRest.front
    · intro hNodup
      exact hRest.nodup (internValue_nodup hNodup kind)
    · intro other hOther
      rcases hRest.members other hOther with hPool | hKinds
      · rcases mem_of_mem_internValue hPool with hOld | rfl
        · exact .inl hOld
        · exact .inr (mem_cons_self ..)
      · exact .inr (mem_cons_of_mem _ hKinds)
    · exact List.Forall₂.cons (getElem_of_front hRest.front (internValue_getElem? pool kind))
        hRest.indexed

/-
  A key set that is not empty is found under its number, if
  there are fewer sets than 16-bit numbers.
-/
lemma internKeySet_getElem? {sets : List (List Symbol)} {keys : List Symbol} (hKeys : keys ≠ [])
    (hCount : (internKeySet sets keys).2.length ≤ 65536) :
    (internKeySet sets keys).2[(internKeySet sets keys).1.toNat]? = some keys := by
  unfold internKeySet at hCount ⊢
  rw [if_neg hKeys] at hCount ⊢
  have hFound := internValue_getElem? sets keys
  have hLt := (List.getElem?_eq_some_iff.mp hFound).1
  have hSmall : (internValue sets keys).1 < 65536 := hLt.trans_le hCount
  rw [UInt16.toNat_ofNat_of_lt' hSmall]
  exact hFound

variable (sets : List (List Symbol))

lemma internKeySet_prefix (keys : List Symbol) : sets <+: (internKeySet sets keys).2 := by
  unfold internKeySet
  split
  · exact prefix_refl sets
  · exact internValue_front sets keys

lemma internKeySet_length_le (keys : List Symbol) :
    (internKeySet sets keys).2.length ≤ sets.length + 1 := by
  unfold internKeySet
  split
  · exact Nat.le_succ _
  rcases internValue_eq sets keys with hSame | ⟨hNew, _⟩
  · rw [hSame]
    exact Nat.le_succ _
  · rw [hNew, length_append]
    exact le_rfl

-- Classified States

namespace CorridorTables

/-
  The block of a state: its keys are the terminals of the
  visit, and its indices lead to their bodies.
-/
structure BlockOf (t : CorridorTables) (pool : List BodyKind) (keySets : List (List Symbol))
    (state : StateID) (block : StateBlock) : Prop where
  visited : ∃ cells : List (Symbol × BodyKind), t.visitKeys state (t.forEachKey state) = .ok cells ∧
      block.keys = cells.map Prod.fst ∧ List.Forall₂ (fun (idx : Nat) (kind : BodyKind) =>
          pool[idx]? = some kind)
        block.bodies (cells.map Prod.snd)
  shaped : chooseShape block.keys = (block.shape, block.tableWords)
  numbered : block.keys ≠ [] → keySets.length ≤ 65536 →
      keySets[block.setID.toNat]? = some block.keys

lemma BlockOf.grow {t : CorridorTables} {pool grown : List BodyKind}
    {keySets grownSets : List (List Symbol)} {state : StateID} {block : StateBlock}
    (hBlock : t.BlockOf pool keySets state block) (hPool : pool <+: grown)
    (hSets : keySets <+: grownSets) :
    t.BlockOf grown grownSets state block := by
  rcases hBlock.visited with ⟨cells, hVisit, hKeys, hBodies⟩
  refine ⟨⟨cells, hVisit, hKeys, ?_⟩, hBlock.shaped, ?_⟩
  · exact hBodies.imp fun _ _ h => Pool.getElem_of_front hPool h
  · intro hNonempty hCount
    exact Pool.getElem_of_front hSets (hBlock.numbered hNonempty (le_trans hSets.length_le hCount))

/- What holds after a list of states is classified. -/
structure Classified (t : CorridorTables) (states : List StateID) (acc : CompileState) : Prop where
  nodup : acc.pool.Nodup
  cells : ∀ kind ∈ acc.pool, ∃ (state : StateID) (sym : Symbol), t.Cell state sym kind
  blocks : List.Forall₂ (t.BlockOf acc.pool acc.keySets) states acc.blocks
  sets : acc.keySets.length ≤ states.length + 1

end CorridorTables

variable {t : CorridorTables}

lemma compileState_classified {states : List StateID} {acc next : CompileState} {state : StateID}
    (hAcc : t.Classified states acc) (hStep : compileState t acc state = .ok next) :
    t.Classified (states ++ [state]) next := by
  unfold compileState at hStep
  cases hVisit : t.visitKeys state (t.forEachKey state) with
  | error err => simp [hVisit] at hStep
  | ok cells =>
    rw [hVisit] at hStep
    cases hStep
    have hBodies := internBodies_interned acc.pool (cells.map Prod.snd)
    have hSets := internKeySet_prefix acc.keySets (cells.map Prod.fst)
    refine ⟨?_, ?_, ?_, ?_⟩
    · exact hBodies.nodup hAcc.nodup
    · intro kind hKind
      rcases hBodies.members kind hKind with hOld | hNew
      · exact hAcc.cells kind hOld
      · rcases mem_map.mp hNew with ⟨cell, hCell, rfl⟩
        exact ⟨state, cell.1, CorridorTables.cell_of_mem_visitKeys hVisit hCell⟩
    · refine rel_append (hAcc.blocks.imp fun _ _ h => h.grow hBodies.front hSets) ?_
      refine List.Forall₂.cons ?_ List.Forall₂.nil
      exact
        { visited := ⟨cells, hVisit, rfl, hBodies.indexed⟩
          shaped := rfl
          numbered := internKeySet_getElem? }
    · rw [length_append]
      exact le_trans (internKeySet_length_le acc.keySets _) (Nat.succ_le_succ hAcc.sets)

/- Classifying a list of states, by the step lemma. -/
lemma compileStates_classified {done states : List StateID} {acc final : CompileState}
    (hAcc : t.Classified done acc) (hRun : compileStates t acc states = .ok final) :
    t.Classified (done ++ states) final := by
  induction states generalizing done acc with
  | nil =>
    cases hRun
    rw [append_nil]
    exact hAcc
  | cons state states ih =>
    rw [compileStates] at hRun
    cases hStep : compileState t acc state with
    | error err => simp [hStep] at hRun
    | ok next =>
      rw [hStep] at hRun
      have hNext := compileState_classified hAcc hStep
      have hFinal := ih hNext hRun
      rw [append_assoc] at hFinal
      exact hFinal

lemma classified_nil (t : CorridorTables) : t.Classified [] {} :=
  { nodup := nodup_nil
    cells := fun _ hKind => absurd hKind not_mem_nil
    blocks := List.Forall₂.nil
    sets := le_refl 1 }

-- The Size of the Pool

namespace CorridorTables

/- Distinct values of a function are at most its inputs. -/
lemma length_le_card_of_range {ι α : Type} [Fintype ι] [DecidableEq α] (f : ι → α)
    {values : List α} (hNodup : values.Nodup) (hRange : ∀ a ∈ values, ∃ i, f i = a) :
    values.length ≤ Fintype.card ι := by
  have hSubset : values.toFinset ⊆ Finset.univ.image f := by
    intro a ha
    rcases hRange a (mem_toFinset.mp ha) with ⟨i, hi⟩
    exact Finset.mem_image.mpr ⟨i, Finset.mem_univ i, hi⟩
  calc
    values.length = values.toFinset.card := (toFinset_card_of_nodup hNodup).symm
    _ ≤ (Finset.univ.image f).card := Finset.card_le_card hSubset
    _ ≤ (Finset.univ : Finset ι).card := Finset.card_image_le
    _ = Fintype.card ι := Finset.card_univ

/- The body of an action index with a self-loop mark. -/
def bodyAt (t : CorridorTables) (index : Fin 65536 × Bool) : BodyKind :=
  let idx := UInt16.ofNat index.1.val
  match t.rowAt idx with
  | .error _ => { op := .halt }
  | .ok row =>
    { t.classifyCell 0 0 row idx with
      selfLoop := index.2 }

lemma Cell.exists_bodyAt (hUnfused : t.Unfused) {state : StateID} {sym : Symbol} {kind : BodyKind}
    (hCell : t.Cell state sym kind) :
    ∃ index, t.bodyAt index = kind := by
  rcases hCell with ⟨_, row, idx, hRow, _, rfl⟩
  rcases hUnfused.classifyCell_eq state sym row idx with ⟨selfLoop, hBody⟩
  refine ⟨(⟨idx.toNat, UInt16.toNat_lt idx⟩, selfLoop), ?_⟩
  unfold bodyAt
  dsimp only
  rw [UInt16.ofNat_toNat, (row_eq_rowAt hRow).2, hBody]

/- The pool has at most two bodies for each action index. -/
lemma Classified.pool_length_le (hUnfused : t.Unfused) {states : List StateID}
    {acc : CompileState} (hAcc : t.Classified states acc) :
    acc.pool.length ≤ 131072 := by
  have hCard : acc.pool.length ≤ Fintype.card (Fin 65536 × Bool) := by
    apply length_le_card_of_range t.bodyAt hAcc.nodup
    intro kind hKind
    rcases hAcc.cells kind hKind with ⟨state, sym, hCell⟩
    exact hCell.exists_bodyAt hUnfused
  rw [Fintype.card_prod, Fintype.card_fin, Fintype.card_bool] at hCard
  exact hCard

end CorridorTables

end GoTreeSitter
