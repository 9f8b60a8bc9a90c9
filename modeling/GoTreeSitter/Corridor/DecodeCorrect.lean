import GoTreeSitter.Corridor.DispatchCorrect

/-
  The corridor program decodes back to the parse table.

  Main declarations:
    * `DispatchesAs`
    * `DecodesAs`
    * `decodeBody_decodesAs`
    * `compile_decodes_back`

  The tables are compared cell by cell: a populated terminal of a state decodes to the disposition
  of its action row, with the operands of the row.
-/

-- Entries and Cells

namespace GoTreeSitter

open List UInt16 Opcode CorridorTables CorridorProgram Word

variable {lang : Language} {t : CorridorTables} {p : CorridorProgram} {pool : List BodyKind}
  {offsetOf : Nat → UInt32} {cells : List (Symbol × BodyKind)} {bodies : List Nat}
  {compiled : CompileState} {bodyOffsets : List UInt32}

section

variable (hBodies : List.Forall₂ (fun (idx : Nat) (kind : BodyKind) => pool[idx]? = some kind)
  bodies (cells.map Prod.snd))

include hBodies

/- Entries of a block come from cells and bodies of one index. -/
lemma exists_cell_of_entry {entry : Symbol × UInt32}
    (hEntry : entry ∈ (cells.map Prod.fst).zip (bodies.map offsetOf)) :
    ∃ kind idx, (entry.1, kind) ∈ cells ∧ pool[idx]? = some kind ∧ entry.2 = offsetOf idx := by
  induction cells generalizing bodies with
  | nil => cases hEntry
  | cons cell cells ih =>
    cases hBodies with
    | cons hFirst hRest =>
      rcases mem_cons.mp hEntry with rfl | hTail
      · exact ⟨_, _, mem_cons_self .., hFirst, rfl⟩
      · rcases ih hRest hTail with ⟨kind, idx, hMem, hKind, hOffset⟩
        exact ⟨kind, idx, mem_cons_of_mem _ hMem, hKind, hOffset⟩

lemma exists_entry_of_cell {cell : Symbol × BodyKind} (hCell : cell ∈ cells) :
    ∃ idx,
      pool[idx]? = some cell.2 ∧
        (cell.1, offsetOf idx) ∈ (cells.map Prod.fst).zip (bodies.map offsetOf) := by
  induction cells generalizing bodies with
  | nil => cases hCell
  | cons first cells ih =>
    cases hBodies with
    | cons hFirst hRest =>
      rcases mem_cons.mp hCell with rfl | hTail
      · exact ⟨_, hFirst, mem_cons_self ..⟩
      · rcases ih hRest hTail with ⟨idx, hKind, hMem⟩
        exact ⟨idx, hKind, mem_cons_of_mem _ hMem⟩

end

lemma index_unique {α : Type} {pool : List α} (hNodup : pool.Nodup) {i j : Nat} {a : α}
    (hi : pool[i]? = some a) (hj : pool[j]? = some a) :
    i = j := by
  rcases List.getElem?_eq_some_iff.mp hi with ⟨hiLt, hiEq⟩
  rcases List.getElem?_eq_some_iff.mp hj with ⟨hjLt, hjEq⟩
  exact (hNodup.getElem_inj_iff).mp (hiEq.trans hjEq.symm)

-- Dispatch of a Cell

/-
  Sizes for which the number of a key set and the size of a
  table cannot both leave their 16-bit fields.
-/
def Language.CorridorFits (lang : Language) : Prop :=
  lang.tokenCount.toNat < 65536 ∨ lang.corridorStateCount < 65536

lemma newCorridorTables_eq {gates : CorridorGates}
    (hTables : newCorridorTables lang gates = .ok t) :
    t.tokenCount = lang.tokenCount ∧ t.stateCount = lang.corridorStateCount := by
  unfold newCorridorTables at hTables
  repeat' split at hTables
  all_goals cases hTables
  exact ⟨rfl, rfl⟩

section

variable (hCompiled : Compilation t p compiled bodyOffsets)
  (hTables : newCorridorTables lang {} = .ok t) (hFits : lang.CorridorFits) {state : StateID}
  (hState : state.toNat < t.stateCount)

include hCompiled hTables hFits hState

/- The block of a state, as the stream holds it. -/
lemma Compilation.exists_block :
    ∃ base block,
      p.stateBlockOffset[state.toNat]? = some base ∧
        t.BlockOf compiled.pool compiled.keySets state block ∧
        BlockAt p.prog base.toNat block bodyOffsets ∧ block.Ascending bodyOffsets := by
  have hBlocks := hCompiled.classified.blocks
  have hCount := hBlocks.length_eq
  rw [length_map, length_range] at hCount
  have hIndex : state.toNat < compiled.blocks.length := by
    omega
  have hOf : t.BlockOf compiled.pool compiled.keySets state (compiled.blocks[state.toNat]) := by
    have hGet := hBlocks.get (i := state.toNat) (by
        rw [length_map, length_range]
        exact hState)
        hIndex
    simpa using hGet
  rcases hCompiled.stream.block state.toNat _ (getElem?_eq_getElem hIndex) with
    ⟨base, hBase, hChunk, hRange⟩
  have hValid : p.validateState state.toNat = .ok () :=
    validateState_of_validate hCompiled.validated (by
      rw [hCompiled.states]
      exact hState)
  rcases newCorridorTables_eq hTables with ⟨hTokens, hStates⟩
  have hSmall : (compiled.blocks[state.toNat]).tableWords < 65536 := by
    rcases hFits with hFewTokens | hFewStates
    · -- Keys are terminals, so the last one bounds the table.
      rcases hOf.visited with ⟨cells, hVisit, hKeys, _⟩
      apply lt_of_le_of_lt _ hFewTokens
      apply chooseShape_words_le_last hOf.shaped
      intro key hKey
      rw [hKeys] at hKey
      rcases mem_map.mp hKey with ⟨cell, hCell, rfl⟩
      have hToken := (cell_of_mem_visitKeys hVisit hCell).1
      rw [hTokens, UInt32.lt_iff_toNat_lt, toNat_toUInt32] at hToken
      exact hToken
    · -- Key sets have numbers of their own.
      apply lt_of_le_of_ne (chooseShape_words_le hOf.shaped)
      apply tableWords_ne_of_validated hChunk hBase hValid hOf.shaped
      intro hKeys
      rw [hCompiled.keySets]
      apply hOf.numbered hKeys
      have hSets := hCompiled.classified.sets
      rw [length_map, length_range] at hSets
      omega
  have hAt : BlockAt p.prog base.toNat (compiled.blocks[state.toNat]) bodyOffsets :=
    { chunk := hChunk
      inRange := hRange
      planned := hOf.planned
      small := hSmall }
  exact ⟨base, _, hBase, hOf, hAt, hAt.ascending hBase hValid⟩

/-
  A terminal with a disposition dispatches to a body of the stream, and a terminal without one to 0.
-/
lemma Compilation.dispatches :
    ∃ base,
      p.stateBlockOffset[state.toNat]? = some base ∧
        (∃ cells : List (Symbol × BodyKind),
          t.visitKeys state (t.forEachKey state) = .ok cells) ∧
        ∀ sym,
          (∀ kind,
            t.Cell state sym kind →
              ∃ words,
                0 < (corridorDispatch p.prog base.toNat sym).toNat ∧
                  bodyWords p.stateBlockOffset kind = .ok words ∧
                  Stream.ChunkAt p.prog (corridorDispatch p.prog base.toNat sym).toNat words)
            ∧
            ((∀ kind, ¬ t.Cell state sym kind) → corridorDispatch p.prog base.toNat sym = 0) := by
  rcases hCompiled.exists_block hTables hFits hState with ⟨base, block, hBase, hOf, hAt, hAscending⟩
  rcases hOf.visited with ⟨cells, hVisit, hKeys, hBodies⟩
  have hEntries : block.entries bodyOffsets =
      (cells.map Prod.fst).zip (block.bodies.map fun idx => bodyOffsets.getD idx 0) := by
    unfold StateBlock.entries
    rw [hKeys]
  refine ⟨base, hBase, ⟨cells, hVisit⟩, ?_⟩
  intro sym
  constructor
  · intro kind hCell
    have hMem := (mem_visitKeys_iff hVisit sym kind).mpr hCell
    rcases exists_entry_of_cell hBodies hMem with ⟨idx, hKind, hEntry⟩
    rcases hCompiled.stream.body idx kind hKind with ⟨offset, words, hOffset, hPos, hWords, hChunk⟩
    rw [← hEntries, getD_eq_getElem?_getD, hOffset] at hEntry
    have hDispatch : corridorDispatch p.prog base.toNat sym = offset := by
      apply hAt.dispatch_of_mem hAscending hEntry
      intro other hOther hSym
      rw [hEntries] at hOther
      rcases exists_cell_of_entry hBodies hOther with ⟨kind', idx', hMem', hKind', hOffset'⟩
      rw [hSym] at hMem'
      have hSame : kind' = kind := (cell_of_mem_visitKeys hVisit hMem').unique hCell
      rw [hSame] at hKind'
      rw [hOffset', index_unique hCompiled.classified.nodup hKind' hKind,
        getD_eq_getElem?_getD, hOffset]
    rw [hDispatch]
    exact ⟨words, hPos, hWords, hChunk⟩
  · intro hNone
    apply hAt.dispatch_of_not_mem
    intro other hOther hSym
    rw [hEntries] at hOther
    rcases exists_cell_of_entry hBodies hOther with ⟨kind, _, hMem, _, _⟩
    rw [hSym] at hMem
    exact hNone kind (cell_of_mem_visitKeys hVisit hMem)

end

-- Operand Fields

variable (op : Opcode)

lemma packOperand_toNat (operand : UInt32) (hOperand : operand.toNat < 2 ^ 26) :
    (op.code ||| operand <<< 6).toNat = op.code.toNat + operand.toNat * 2 ^ 6 := by
  have hSix : (6 : UInt32).toNat = 6 := rfl
  rw [toNat_pack _ _ _ (by decide) op.code_lt (by rw [hSix]; omega), hSix]

lemma packOperands_toNat (first second shift : UInt32)
    (hShift : 6 ≤ shift.toNat ∧ shift.toNat < 32)
    (hFirst : first.toNat * 2 ^ 6 + 2 ^ 6 ≤ 2 ^ shift.toNat)
    (hSecond : second.toNat * 2 ^ shift.toNat < 2 ^ 32) :
    (op.code ||| first <<< 6 ||| second <<< shift).toNat =
      op.code.toNat + first.toNat * 2 ^ 6 + second.toNat * 2 ^ shift.toNat := by
  have hCode := op.code_lt
  have hTop : 2 ^ shift.toNat ≤ 2 ^ 32 := Nat.pow_le_pow_right (by decide) hShift.2.le
  have hLow : (op.code ||| first <<< 6).toNat = op.code.toNat + first.toNat * 2 ^ 6 :=
    packOperand_toNat op first (by omega)
  rw [toNat_pack _ _ _ hShift.2 (by rw [hLow]; omega) hSecond, hLow]

lemma opcode_of_mod {op : Opcode} {word : UInt32} (hWord : word.toNat % 2 ^ 6 = op.code.toNat) :
    word &&& Opcode.mask = op.code := by
  apply UInt32.toNat_inj.mp
  rw [toNat_mask _ _ 6 (by decide), hWord]

lemma blockState_of_offset (hAscending : (p.stateBlockOffset.map UInt32.toNat).Pairwise (· < ·))
    {state base : UInt32} (hBase : p.stateBlockOffset[state.toNat]? = some base) :
    p.blockState base = state := by
  have hTarget : (p.stateBlockOffset.map UInt32.toNat)[state.toNat]? = some base.toNat := by
    rw [getElem?_map, hBase]
    rfl
  have hSearch : p.blockSearch base = state.toNat := by
    have hFound : Search.lowerBound 1
        (fun mid => decide (wordAt p.stateBlockOffset mid < base)) p.stateBlockOffset.length
        0 (1 * (p.stateBlockOffset.map UInt32.toNat).length) = 1 * state.toNat := by
      apply Search.lowerBound_of_sorted (by decide) hAscending hTarget
      · intro j key hKey
        rw [getElem?_map] at hKey
        cases hGet : p.stateBlockOffset[j]? with
        | none => simp [hGet] at hKey
        | some offset =>
          rw [hGet] at hKey
          cases hKey
          unfold wordAt
          rw [Nat.one_mul, getD_eq_getElem?_getD, hGet]
          exact decide_eq_decide.mpr UInt32.lt_iff_toNat_lt
      · rw [length_map]
    rw [length_map, Nat.one_mul, Nat.one_mul] at hFound
    exact hFound
  unfold blockState isBlockOffset
  rw [hSearch, hBase, if_pos (by simp), UInt32.ofNat_toNat]

lemma blockState_of_blockOffsetFor
    (hAscending : (p.stateBlockOffset.map UInt32.toNat).Pairwise (· < ·))
    (hBelow : ∀ base ∈ p.stateBlockOffset, base.toNat < 2 ^ 25) {state target : UInt32}
    (hTarget : blockOffsetFor p.stateBlockOffset state = .ok target) :
    p.blockState target = state ∧ target.toNat < 2 ^ 25 := by
  unfold blockOffsetFor at hTarget
  cases hBase : p.stateBlockOffset[state.toNat]? with
  | none => simp [hBase] at hTarget
  | some base =>
    rw [hBase] at hTarget
    cases hTarget
    exact ⟨blockState_of_offset hAscending hBase, hBelow _ (mem_of_getElem? hBase)⟩

-- Decoded Cells

/-
  A decoded cell agrees with the row of its table cell. The exits have no operand for the row index,
  and the decoder reads six bits of the child count.
-/
structure DecodesAs (t : CorridorTables) (row : ActionRow) (idx : UInt16) (cell : DecodedCell) :
    Prop where
  opcode : cell.opcode = (t.dictatedOpcode row).name
  rowIndex : row.kind ≠ .unsupported → cell.rowIndex = idx.toUInt32
  shift : row.kind = .shift → ∃ action : Action,
      row.actions = [action] ∧ cell.targetState = action.state
  reduce : row.kind = .reduce → ∃ action : Action, row.actions = [action] ∧ cell.productionID =
      action.productionID ∧ cell.lhs = action.symbol ∧ (action.childCount.toNat < 64 →
      cell.childCount = action.childCount)

section Decode

variable {t : CorridorTables} {p : CorridorProgram} {row : ActionRow} {idx : UInt16}
  {state : StateID} {sym : Symbol} {body : Nat} {words : List UInt32} {prog rest : List UInt32}
  {w : UInt32} {operand : UInt32}

lemma wordAt_first (hChunk : Stream.ChunkAt prog body (w :: rest)) : wordAt prog body = w :=
  wordAt_chunk (k := 0) hChunk (Nat.succ_pos _)

/- The words behind the first. -/
lemma chunkAt_tail (hChunk : Stream.ChunkAt prog body (w :: rest)) :
    Stream.ChunkAt prog (body + 1) rest := by
  have hSplit : Stream.ChunkAt prog body ([w] ++ rest) := hChunk
  exact hSplit.drop

lemma packOperand_opcode (hSmall : operand.toNat < 2 ^ 26) :
    (op.code ||| operand <<< 6) &&& Opcode.mask = op.code := by
  apply opcode_of_mod
  rw [packOperand_toNat op operand hSmall, Nat.add_mul_mod_self_right]
  exact Nat.mod_eq_of_lt op.code_lt

lemma packOperand_operand (hSmall : operand.toNat < 2 ^ 26) :
    (op.code ||| operand <<< 6) >>> 6 = operand := by
  have hCode := op.code_lt
  apply UInt32.toNat_inj.mp
  rw [toNat_shiftRight _ _ (by decide), packOperand_toNat op operand hSmall]
  show (op.code.toNat + operand.toNat * 2 ^ 6) / 2 ^ 6 = _
  omega

/- The first word of a body names its opcode. -/
lemma decodeBody_opcode (hOp : wordAt p.prog body &&& mask = (t.dictatedOpcode row).code) :
    (p.decodeBody state sym body).opcode = (t.dictatedOpcode row).name := by
  unfold decodeBody
  dsimp only
  rw [hOp, nameOfCode, ofCode_code]
  cases t.dictatedOpcode row <;> rfl

lemma DecodesAs.of_rowIndex (hOther : row.kind ≠ .shift ∧ row.kind ≠ .reduce)
    (hOp : wordAt p.prog body &&& mask = (t.dictatedOpcode row).code)
    (hIndex : row.kind ≠ .unsupported → (p.decodeBody state sym body).rowIndex = idx.toUInt32) :
    DecodesAs t row idx (p.decodeBody state sym body) where
  opcode := decodeBody_opcode hOp
  rowIndex := hIndex
  shift := fun h => absurd h hOther.1
  reduce := fun h => absurd h hOther.2

variable (hWords : bodyWords p.stateBlockOffset (t.classifyCell state sym row idx) = .ok words)
  (hChunk : Stream.ChunkAt p.prog body words)

include hWords hChunk

section

variable (hAscending : (p.stateBlockOffset.map UInt32.toNat).Pairwise (· < ·))
  (hBelow : ∀ base ∈ p.stateBlockOffset, base.toNat < 2 ^ 25)

include hAscending hBelow

lemma decodesAs_shift (hKind : row.kind = .shift) :
    DecodesAs t row idx (p.decodeBody state sym body) := by
  rcases ActionRow.actions_of_soleType (congrArg ActionRowKind.soleType hKind) with
    ⟨action, hActions, _⟩
  unfold classifyCell at hWords
  rw [hKind, hActions] at hWords
  dsimp only [bodyWords] at hWords
  cases hTarget : blockOffsetFor p.stateBlockOffset action.state with
  | error err => simp [hTarget] at hWords
  | ok target =>
    rw [hTarget] at hWords
    cases hWords
    rcases blockState_of_blockOffsetFor hAscending hBelow hTarget with ⟨hBlock, hSmall⟩
    have hOp : wordAt p.prog body &&& mask = shift.code := by
      rw [wordAt_first hChunk]
      exact packOperand_opcode .shift (by omega)
    have hOperand : wordAt p.prog body >>> 6 = target := by
      rw [wordAt_first hChunk]
      exact packOperand_operand .shift (by omega)
    refine ⟨decodeBody_opcode (by simpa [dictatedOpcode, hKind] using hOp), ?_, ?_, by simp [hKind]⟩
    · simp [decodeBody, hOp, ofCode_code, wordAt_first (chunkAt_tail hChunk)]
    · exact fun _ => ⟨action, hActions, by simp [decodeBody, hOp, hOperand, ofCode_code, hBlock]⟩

lemma decodesAs_extraShift (hKind : row.kind = .extraShift) :
    DecodesAs t row idx (p.decodeBody state sym body) := by
  rcases ActionRow.actions_of_soleType (congrArg ActionRowKind.soleType hKind) with
    ⟨action, hActions, _⟩
  unfold classifyCell at hWords
  rw [hKind, hActions] at hWords
  dsimp only [bodyWords] at hWords
  -- Self loops have no target operand.
  have hTarget : ∃ selfLoop target : UInt32,
      selfLoop.toNat < 2 ∧ target.toNat < 2 ^ 25 ∧
        words = [shiftExtra.code ||| selfLoop <<< 6 ||| target <<< 7, idx.toUInt32] := by
    by_cases hLoop : (decide (action.state = 0) || decide (action.state = state))
    · rw [hLoop] at hWords
      cases hWords
      exact ⟨1, 0, by decide, by decide, rfl⟩
    rw [Bool.not_eq_true] at hLoop
    rw [hLoop] at hWords
    cases hFor : blockOffsetFor p.stateBlockOffset action.state with
    | error err => simp [hFor] at hWords
    | ok target =>
      rw [hFor] at hWords
      cases hWords
      exact ⟨0, target, by decide, (blockState_of_blockOffsetFor hAscending hBelow hFor).2, rfl⟩
  rcases hTarget with ⟨selfLoop, target, hLoop, hSmall, rfl⟩
  have hSeven : (7 : UInt32).toNat = 7 := rfl
  have hWord := packOperands_toNat .shiftExtra selfLoop target 7 (by decide)
      (by rw [hSeven]; omega) (by rw [hSeven]; omega)
  have hOp : wordAt p.prog body &&& mask = shiftExtra.code := by
    rw [wordAt_first hChunk]
    apply opcode_of_mod
    rw [hWord]
    show (3 + selfLoop.toNat * 2 ^ 6 + target.toNat * 2 ^ 7) % 2 ^ 6 = 3
    omega
  refine .of_rowIndex (by simp [hKind]) (by simpa [dictatedOpcode, hKind] using hOp) ?_
  simp [decodeBody, hOp, ofCode_code, wordAt_first (chunkAt_tail hChunk)]

end

lemma decodesAs_reduce (hUnfused : t.Unfused) (hKind : row.kind = .reduce) :
    DecodesAs t row idx (p.decodeBody state sym body) := by
  rcases ActionRow.actions_of_soleType (congrArg ActionRowKind.soleType hKind) with
    ⟨action, hActions, _⟩
  unfold classifyCell at hWords
  rw [hUnfused.reduceShiftCandidate, hUnfused.reduceChainCandidate, hKind, hActions] at hWords
  cases hWords
  have hCount := UInt8.toNat_lt action.childCount
  have hEight : (8 : UInt32).toNat = 8 := rfl
  have hWord := packOperands_toNat .reduce gotoModeIndexed
      action.childCount.toUInt32 8 (by decide) (by decide)
      (by
        rw [UInt8.toNat_toUInt32, hEight]
        omega)
  change _ = 4 + 0 * 2 ^ 6 + action.childCount.toNat * 2 ^ 8 at hWord
  have hOp : wordAt p.prog body &&& mask = reduce.code := by
    rw [wordAt_first hChunk]
    apply opcode_of_mod
    rw [hWord]
    show (4 + 0 * 2 ^ 6 + _ * 2 ^ 8) % 2 ^ 6 = 4
    omega
  have hProd := toNat_lt action.productionID
  have hLhs := toNat_lt action.symbol
  have hSixteen : (16 : UInt32).toNat = 16 := rfl
  have hOperands := toNat_pack action.productionID.toUInt32 action.symbol.toUInt32 16
      (by decide) (by rw [toNat_toUInt32, hSixteen]; omega)
      (by rw [toNat_toUInt32, hSixteen]; omega)
  rw [toNat_toUInt32, toNat_toUInt32, hSixteen] at hOperands
  have hSecond := wordAt_first (chunkAt_tail hChunk)
  have hThird := wordAt_first (chunkAt_tail (chunkAt_tail hChunk))
  refine ⟨decodeBody_opcode (by simpa [dictatedOpcode, hKind] using hOp), ?_, by simp [hKind], ?_⟩
  · simp [decodeBody, hOp, ofCode_code, hThird]
  intro _
  simp only [decodeBody, hOp, ofCode_code]
  refine ⟨action, hActions, ?_, ?_, ?_⟩
  · apply UInt16.toNat_inj.mp
    rw [hSecond, UInt32.toNat_toUInt16, toNat_mask _ _ 16 (by decide), hOperands]
    omega
  · apply UInt16.toNat_inj.mp
    rw [hSecond, UInt32.toNat_toUInt16, toNat_shiftRight _ _ (by decide), hOperands,
      hSixteen]
    omega
  · intro hNarrow
    apply UInt8.toNat_inj.mp
    rw [wordAt_first hChunk, UInt32.toNat_toUInt8, toNat_mask _ _ 6 (by decide),
      toNat_shiftRight _ _ (by decide), hWord, hEight]
    omega

lemma decodesAs_accept (hKind : row.kind = .accept) :
    DecodesAs t row idx (p.decodeBody state sym body) := by
  unfold classifyCell at hWords
  rw [hKind] at hWords
  cases hWords
  have hOp : wordAt p.prog body &&& mask = accept.code := by
    rw [wordAt_first hChunk]
    rfl
  refine .of_rowIndex (by simp [hKind]) (by simpa [dictatedOpcode, hKind] using hOp) ?_
  simp [decodeBody, hOp, ofCode_code, wordAt_first (chunkAt_tail hChunk)]

lemma decodesAs_conflict (hKind : row.kind = .conflict) :
    DecodesAs t row idx (p.decodeBody state sym body) := by
  unfold classifyCell at hWords
  rw [hKind] at hWords
  cases hWords
  have hIdx : idx.toUInt32.toNat < 2 ^ 26 := by
    rw [toNat_toUInt32]
    exact lt_trans (toNat_lt idx) (by decide)
  have hOp : wordAt p.prog body &&& mask = fork.code := by
    rw [wordAt_first hChunk]
    exact packOperand_opcode .fork hIdx
  have hOperand : wordAt p.prog body >>> 6 = idx.toUInt32 := by
    rw [wordAt_first hChunk]
    exact packOperand_operand .fork hIdx
  refine .of_rowIndex (by simp [hKind]) (by simpa [dictatedOpcode, hKind] using hOp) ?_
  simp [decodeBody, hOp, hOperand, ofCode_code]

lemma decodesAs_unsupported (hKind : row.kind = .unsupported) :
    DecodesAs t row idx (p.decodeBody state sym body) := by
  have hOp : wordAt p.prog body &&& mask = (t.dictatedOpcode row).code := by
    have hReason : ∀ reason : ExitReason, reason.code.toNat < 2 ^ 26 :=
      fun reason => lt_trans reason.code_lt (by decide)
    unfold classifyCell at hWords
    unfold dictatedOpcode
    rw [hKind] at hWords ⊢
    dsimp only at hWords ⊢
    split_ifs at hWords ⊢ with hSelectable
    · cases hWords
      rw [wordAt_first hChunk]
      exact packOperand_opcode _ (hReason _)
    cases hWords
    rw [wordAt_first hChunk]
    exact packOperand_opcode _ (hReason _)
  exact .of_rowIndex (by simp [hKind]) hOp (absurd hKind)

lemma decodeBody_decodesAs (hUnfused : t.Unfused)
    (hStream : StreamOf compiled bodyOffsets p.stateBlockOffset p.prog)
    (hActions : row.actions ≠ []) :
    DecodesAs t row idx (p.decodeBody state sym body) := by
  cases hKind : row.kind with
  | empty => exact absurd (row.kind_eq_empty_iff.mp hKind) hActions
  | shift => exact decodesAs_shift hWords hChunk hStream.ascending hStream.below hKind
  | extraShift => exact decodesAs_extraShift hWords hChunk hStream.ascending hStream.below hKind
  | reduce => exact decodesAs_reduce hWords hChunk hUnfused hKind
  | accept => exact decodesAs_accept hWords hChunk hKind
  | conflict => exact decodesAs_conflict hWords hChunk hKind
  | unsupported => exact decodesAs_unsupported hWords hChunk hKind

end Decode

-- Decoding Back

/-
  Every cell of a compiled program decodes back to the row of the parse table: it is absent exactly
  for an empty row, and otherwise agrees with the row.
-/
theorem compile_decodes_back
    {lang : Language}
    {t : CorridorTables}
    {p : CorridorProgram}
    (hTables : newCorridorTables lang {} = .ok t)
    (hCompile : compileParserCoreCorridorProgram {} lang = .ok p)
    (hFits : lang.CorridorFits)
    (state : StateID)
    (hState : state.toNat < p.states)
    (sym : Symbol)
    (hSym : sym.toUInt32 < lang.tokenCount) :
    ∃ row : ActionRow,
      t.row state sym = .ok (row, t.actionIndex state sym) ∧
        (p.decodeCell state sym = none ↔ row.actions = []) ∧
        ∀ cell : DecodedCell,
          p.decodeCell state sym = some cell → DecodesAs t row (t.actionIndex state sym) cell := by
  have hUnfused := unfused_of_newCorridorTables hTables
  rcases compile_streamOf hTables hCompile with ⟨compiled, bodyOffsets, hCompiled⟩
  rw [hCompiled.states] at hState
  rw [← (newCorridorTables_eq hTables).1] at hSym
  rcases hCompiled.dispatches hTables hFits hState with ⟨base, hBase, ⟨cells, hVisit⟩, hDispatch⟩
  rcases row_ok_of_visited hVisit hSym with ⟨⟨row, idx⟩, hRow⟩
  have hIndex := (row_eq_rowAt hRow).1
  subst hIndex
  refine ⟨row, hRow, ?_⟩
  have hDecode : p.decodeCell state sym =
      if corridorDispatch p.prog base.toNat sym = 0 then none
      else some (p.decodeBody state sym (corridorDispatch p.prog base.toNat sym).toNat) := by
    unfold decodeCell
    rw [hBase]
  by_cases hActions : row.actions = []
  · -- An empty row has no disposition.
    have hZero := (hDispatch sym).2 (by
      rintro kind ⟨_, row', idx', hRow', hSome, _⟩
      rw [hRow] at hRow'
      cases hRow'
      exact hSome hActions)
    rw [hDecode, if_pos hZero]
    refine ⟨⟨fun _ => hActions, fun _ => rfl⟩, ?_⟩
    intro cell hCell
    cases hCell
  rcases (hDispatch sym).1 _ ⟨hSym, row, _, hRow, hActions, rfl⟩ with
    ⟨words, hPos, hWords, hChunk⟩
  have hNonzero : corridorDispatch p.prog base.toNat sym ≠ 0 := by
    intro hZero
    rw [hZero] at hPos
    exact lt_irrefl 0 hPos
  rw [hDecode, if_neg hNonzero]
  refine ⟨⟨fun hNone => absurd hNone (by simp), fun hEmpty => absurd hEmpty hActions⟩, ?_⟩
  intro cell hCell
  cases hCell
  exact decodeBody_decodesAs hWords hChunk hUnfused hCompiled.stream hActions

/- A language with one state that shifts, reduces a full child count field, and accepts. -/
def narrowLanguage : Language :=
  { name := "narrow"
    stateCount := 2
    tokenCount := 4
    parseTable := [[], [0, 1, 2, 3]]
    parseActions :=
      [{},
        { actions :=
            [{ type := parseActionShift, state := 1 }] },
        { actions :=
            [{ type := parseActionReduce
               symbol := 4
               childCount := 63
               productionID := 7 }] },
        { actions := [{ type := parseActionAccept }] }] }

theorem compile_decodes_back_narrow :
    ∃ (t : CorridorTables) (p : CorridorProgram),
      newCorridorTables narrowLanguage {} = .ok t ∧
        compileParserCoreCorridorProgram {} narrowLanguage = .ok p ∧
        ∃ row : ActionRow,
          t.row 1 2 = .ok (row, t.actionIndex 1 2) ∧
            (p.decodeCell 1 2 = none ↔ row.actions = []) ∧
            ∀ cell : DecodedCell,
              p.decodeCell 1 2 = some cell → DecodesAs t row (t.actionIndex 1 2) cell := by
  have hSome : (compileParserCoreCorridorProgram {} narrowLanguage).toOption.isSome = true := by
    decide +kernel
  cases hCompile : compileParserCoreCorridorProgram {} narrowLanguage with
  | error err =>
    rw [hCompile] at hSome
    cases hSome
  | ok p =>
    cases hTables : newCorridorTables narrowLanguage {} with
    | error err => cases hTables
    | ok t =>
      rcases compile_streamOf hTables hCompile with ⟨_, _, hCompiled⟩
      have hStates : p.states = 2 := by
        rw [hCompiled.states, (newCorridorTables_eq hTables).2]
        rfl
      refine ⟨t, p, rfl, rfl, ?_⟩
      exact compile_decodes_back hTables hCompile (Or.inl (by decide)) 1
        (by rw [hStates]; decide) 2 (by decide)

/- A language with a recover action and with a reduction of 64 children. -/
def wideLanguage : Language :=
  { name := "wide"
    stateCount := 2
    tokenCount := 3
    parseTable := [[], [0, 1, 2]]
    parseActions :=
      [{},
        { actions := [{ type := parseActionRecover }] },
        { actions :=
            [{ type := parseActionReduce
               symbol := 3
               childCount := 64
               productionID := 5 }] }] }

/-
  An exit decodes without the row index of its cell, and the
  child count of a wide reduction loses its high bits.
-/
theorem exit_and_wide_reduce_decode_differently :
    ∃ (t : CorridorTables) (p : CorridorProgram) (exit reduce : DecodedCell) (row : ActionRow)
      (action : Action),
      newCorridorTables wideLanguage {} = .ok t ∧
        compileParserCoreCorridorProgram {} wideLanguage = .ok p ∧
        p.decodeCell 1 1 = some exit ∧ exit.rowIndex ≠ (t.actionIndex 1 1).toUInt32 ∧
        t.row 1 2 = .ok (row, t.actionIndex 1 2) ∧ row.kind = .reduce ∧
        row.actions = [action] ∧ p.decodeCell 1 2 = some reduce ∧
        reduce.childCount ≠ action.childCount := by
  have hCells : (compileParserCoreCorridorProgram {} wideLanguage).toOption.map
      (fun p =>
        ((p.decodeCell 1 1).map DecodedCell.rowIndex, (p.decodeCell 1 2).map
          DecodedCell.childCount)) =
      some (some 0, some 0) := by decide +kernel
  cases hCompile : compileParserCoreCorridorProgram {} wideLanguage with
  | error err =>
    rw [hCompile] at hCells
    cases hCells
  | ok p =>
    rw [hCompile] at hCells
    have hBoth := Option.some.inj hCells
    dsimp only at hBoth
    cases hExit : p.decodeCell 1 1 with
    | none =>
      rw [hExit] at hBoth
      cases congrArg Prod.fst hBoth
    | some exit =>
      cases hReduce : p.decodeCell 1 2 with
      | none =>
        rw [hReduce] at hBoth
        cases congrArg Prod.snd hBoth
      | some reduce =>
        rw [hExit, hReduce] at hBoth
        have hIndex := Option.some.inj (congrArg Prod.fst hBoth)
        have hCount := Option.some.inj (congrArg Prod.snd hBoth)
        refine ⟨_, p, exit, reduce, _, _, rfl, rfl, hExit, ?_, rfl, rfl, rfl, hReduce, ?_⟩
        · rw [hIndex]
          decide
        · rw [hCount]
          decide

end GoTreeSitter
