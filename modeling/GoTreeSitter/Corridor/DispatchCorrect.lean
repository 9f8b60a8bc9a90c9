import GoTreeSitter.Corridor.LayoutCorrect

/-
  Dispatch in a compiled corridor program.

  Main declarations:
    * `BlockAt`
    * `BlockAt.dispatch_of_mem`
    * `BlockAt.dispatch_of_not_mem`

  A dense table is read by index and a sparse table by binary search. Both give the body offset of a
  terminal that has an entry, and 0 for the others.
-/

-- A Successful Compilation

namespace GoTreeSitter

open List UInt16 Stream CorridorProgram

variable {t : CorridorTables} {block : StateBlock} {p : CorridorProgram} {state base : Nat}
  {prog rest bodyOffsets : List UInt32} {entries : List (Symbol × UInt32)} {sym : Symbol}
  {offset : UInt32}

/- What a successful compilation has done. -/
structure Compilation (t : CorridorTables) (p : CorridorProgram) (compiled : CompileState)
    (bodyOffsets : List UInt32) : Prop where
  classified : t.Classified ((List.range t.stateCount).map UInt32.ofNat) compiled
  stream : StreamOf compiled bodyOffsets p.stateBlockOffset p.prog
  keySets : p.keySets = compiled.keySets
  states : p.states = t.stateCount
  validated : p.validate = .ok ()

lemma CorridorTables.BlockOf.planned {pool : List BodyKind} {keySets : List (List Symbol)}
    {state : StateID} (hBlock : t.BlockOf pool keySets state block) :
    block.Planned := by
  rcases hBlock.visited with ⟨cells, _, hKeys, hBodies⟩
  refine ⟨hBlock.shaped, ?_⟩
  rw [hBodies.length_eq, hKeys, length_map, length_map]

/- Every block of the first pass belongs to a state. -/
lemma CorridorTables.Classified.planned {states : List StateID} {acc : CompileState}
    (hAcc : t.Classified states acc) :
    ∀ block ∈ acc.blocks, block.Planned := by
  intro block hBlock
  rcases getElem_of_mem hBlock with ⟨i, hi, rfl⟩
  have hLength := hAcc.blocks.length_eq
  have hState : i < states.length := by
    omega
  exact (hAcc.blocks.get hState hi).planned

lemma compile_streamOf {lang : Language} (hTables : newCorridorTables lang {} = .ok t)
    (hCompile : compileParserCoreCorridorProgram {} lang = .ok p) :
    ∃ compiled bodyOffsets, Compilation t p compiled bodyOffsets := by
  have hUnfused := CorridorTables.unfused_of_newCorridorTables hTables
  unfold compileParserCoreCorridorProgram at hCompile
  rw [hTables] at hCompile
  rcases exists_of_bind_ok hCompile with ⟨_, hOk, hCompile⟩
  cases hOk
  rcases exists_of_bind_ok hCompile with ⟨compiled, hStates, hCompile⟩
  rcases exists_of_bind_ok hCompile with ⟨⟨blockOffsets, last⟩, hBlocks, hCompile⟩
  rcases exists_of_bind_ok hCompile with ⟨prog, hProg, hCompile⟩
  rcases exists_of_bind_ok hCompile with ⟨_, hValid, hReturn⟩
  cases hReturn
  have hClassified := compileStates_classified (classified_nil t) hStates
  refine ⟨compiled, (layoutBodies 1 compiled.pool).1, ?_⟩
  exact
    { classified := hClassified
      stream := emitProgram_streamOf
          (hClassified.pool_length_le hUnfused)
          hClassified.planned hBlocks hProg
      keySets := rfl
      states := rfl
      validated := hValid }

lemma validateState_of_validate (hValid : p.validate = .ok ()) (hState : state < p.states) :
    p.validateState state = .ok () := by
  rcases exists_of_bind_ok hValid with ⟨_, _, hValid⟩
  rcases exists_of_bind_ok hValid with ⟨_, _, hAll⟩
  exact ok_of_forM_ok hAll (mem_range.mpr hState)

-- Block Headers

lemma wordAt_chunk {chunk : List UInt32} {start k : Nat}
    (hChunk : Stream.ChunkAt prog start chunk) (hk : k < chunk.length) :
    wordAt prog (start + k) = wordAt chunk k := by
  unfold wordAt
  rw [getD_eq_getElem?_getD, getD_eq_getElem?_getD, hChunk.getElem?_add hk]

lemma header_toNat (block : StateBlock) :
    (Opcode.expect.code ||| block.flags.toUInt32 <<< 6 ||| block.shape.code <<< 14).toNat =
      1 + block.flags.toNat * 2 ^ 6 + block.shape.code.toNat * 2 ^ 14 := by
  have hFlags : block.flags.toUInt32.toNat < 2 ^ 8 := by
    rw [UInt8.toNat_toUInt32]
    exact UInt8.toNat_lt block.flags
  have hShape : block.shape.code.toNat < 2 := by cases block.shape <;> decide
  have hSix : (6 : UInt32).toNat = 6 := rfl
  have hFourteen : (14 : UInt32).toNat = 14 := rfl
  have hLow : (Opcode.expect.code ||| block.flags.toUInt32 <<< 6).toNat =
      1 + block.flags.toUInt32.toNat * 2 ^ 6 := by
    rw [Word.toNat_pack _ _ _ (by decide) (by decide) (by rw [hSix]; omega), hSix]
    rfl
  rw [Word.toNat_pack _ _ _ (by decide) (by rw [hLow, hFourteen]; omega) (by rw [hFourteen]; omega),
    hLow, hFourteen, UInt8.toNat_toUInt32]

lemma setWord_toNat (block : StateBlock) (hSmall : block.tableWords < 65536) :
    (block.setID.toUInt32 ||| UInt32.ofNat block.tableWords <<< 16).toNat =
      block.setID.toNat + block.tableWords * 2 ^ 16 := by
  have hSet := toNat_lt block.setID
  have hTable : (UInt32.ofNat block.tableWords).toNat = block.tableWords :=
    UInt32.toNat_ofNat_of_lt' (by
      show _ < 2 ^ 32
      omega)
  have hSixteen : (16 : UInt32).toNat = 16 := rfl
  rw [Word.toNat_pack _ _ _ (by decide) (by rw [toNat_toUInt32, hSixteen]; omega)
    (by rw [hTable, hSixteen]; omega), hTable, hSixteen, toNat_toUInt32]

/- A block of the stream whose table size fits its field. -/
structure BlockAt (prog : List UInt32) (base : Nat) (block : StateBlock)
    (bodyOffsets : List UInt32) : Prop where
  chunk : Stream.ChunkAt prog base (block.header ++ block.table bodyOffsets)
  inRange : block.InRange bodyOffsets
  planned : block.Planned
  small : block.tableWords < 65536

section

variable (hChunk : Stream.ChunkAt prog base (block.header ++ rest))

include hChunk

lemma header_wordAt :
    wordAt prog base =
      Opcode.expect.code ||| block.flags.toUInt32 <<< 6 ||| block.shape.code <<< 14 := by
  exact wordAt_chunk (k := 0) hChunk (by
    rw [length_append]
    exact lt_of_lt_of_le (by decide) (Nat.le_add_right 2 _))

lemma setWord_wordAt :
    wordAt prog (base + 1) = block.setID.toUInt32 ||| UInt32.ofNat block.tableWords <<< 16 := by
  exact wordAt_chunk (k := 1) hChunk (by
    rw [length_append]
    exact lt_of_lt_of_le (by decide) (Nat.le_add_right 2 _))

lemma shape_wordAt : (wordAt prog base >>> 14) &&& 0x3 = block.shape.code := by
  have hShape : block.shape.code.toNat < 2 := by cases block.shape <;> decide
  have hFlags := UInt8.toNat_lt block.flags
  apply UInt32.toNat_inj.mp
  rw [header_wordAt hChunk, Word.toNat_mask _ _ 2 (by decide),
    Word.toNat_shiftRight _ _ (by decide), header_toNat]
  show (1 + block.flags.toNat * 2 ^ 6 + block.shape.code.toNat * 2 ^ 14) / 2 ^ 14 % 2 ^ 2 = _
  omega

end

lemma BlockAt.dispatchTable_eq (hBlock : BlockAt prog base block bodyOffsets) :
    dispatchTable prog base = block.table bodyOffsets := by
  have hSet := toNat_lt block.setID
  have hWords : (wordAt prog (base + 1) >>> 16).toNat = block.tableWords := by
    rw [setWord_wordAt hBlock.chunk, Word.toNat_shiftRight _ _ (by decide),
      setWord_toNat block hBlock.small]
    show (block.setID.toNat + block.tableWords * 2 ^ 16) / 2 ^ 16 = _
    omega
  unfold dispatchTable
  rw [hWords, ← hBlock.planned.table_length bodyOffsets]
  exact hBlock.chunk.drop.slice

-- Dense Tables

/- Places without an entry keep their word. -/
lemma denseTable_of_not_mem {table : List UInt32} (hNone : ∀ entry ∈ entries, entry.1 ≠ sym) :
    wordAt (denseTable entries table) sym.toNat = wordAt table sym.toNat := by
  induction entries generalizing table with
  | nil => rfl
  | cons first entries ih =>
    have hFirst := hNone first (mem_cons_self ..)
    have hRest : wordAt (denseTable entries (table.set first.1.toNat first.2)) sym.toNat =
        wordAt (table.set first.1.toNat first.2) sym.toNat := ih (fun entry hEntry => hNone entry
      (mem_cons_of_mem _ hEntry))
    have hPlace : first.1.toNat ≠ sym.toNat := by
      intro hSame
      exact hFirst (UInt16.toNat_inj.mp hSame)
    refine hRest.trans ?_
    unfold wordAt
    rw [getD_eq_getElem?_getD, getD_eq_getElem?_getD, getElem?_set_ne hPlace]

/- The place of an entry holds its offset. -/
lemma denseTable_of_mem {table : List UInt32} (hMem : (sym, offset) ∈ entries)
    (hSame : ∀ entry ∈ entries, entry.1 = sym → entry.2 = offset)
    (hRange : sym.toNat < table.length) :
    wordAt (denseTable entries table) sym.toNat = offset := by
  induction entries generalizing table with
  | nil => cases hMem
  | cons first entries ih =>
    have hTail : ∀ entry ∈ entries, entry.1 = sym → entry.2 = offset := fun entry hEntry =>
        hSame entry (mem_cons_of_mem _ hEntry)
    have hLength : sym.toNat < (table.set first.1.toNat first.2).length := by
      rw [length_set]
      exact hRange
    by_cases hLater : (sym, offset) ∈ entries
    · exact ih hLater hTail hLength
    -- The last entry of the symbol is the first one.
    have hFirst : first = (sym, offset) := by
      rcases mem_cons.mp hMem with hHead | hRest
      · exact hHead.symm
      · exact absurd hRest hLater
    have hNone : ∀ entry ∈ entries, entry.1 ≠ sym := by
      intro entry hEntry hSym
      apply hLater
      have hOffset := hTail entry hEntry hSym
      rw [← hSym, ← hOffset]
      exact hEntry
    refine (denseTable_of_not_mem hNone).trans ?_
    rw [hFirst]
    unfold wordAt
    rw [getD_eq_getElem?_getD, getElem?_set_self hRange]
    rfl

-- Sparse Tables

lemma sparseWords_wordAt {j : Nat} {entry : Symbol × UInt32} (hEntry : entries[j]? = some entry) :
    wordAt (sparseWords entries) (2 * j) = entry.1.toUInt32 ∧
      wordAt (sparseWords entries) (2 * j + 1) = entry.2 := by
  induction entries generalizing j with
  | nil => cases hEntry
  | cons first entries ih =>
    cases j with
    | zero =>
      cases hEntry
      exact ⟨rfl, rfl⟩
    | succ j => exact ih hEntry

/-
  A validated sparse table ascends. The bound carries the symbol before the table through the
  induction.
-/
lemma validateSparse_ascending {previous : Int} {populated count : Nat}
    (hValid : p.validateSparse state (sparseWords entries) previous populated = .ok count) :
    (entries.map (fun entry => entry.1.toNat)).Pairwise (· < ·) ∧
      ∀ entry ∈ entries, previous < (entry.1.toNat : Int) := by
  induction entries generalizing previous populated with
  | nil =>
    refine ⟨List.Pairwise.nil, ?_⟩
    intro entry hEntry
    cases hEntry
  | cons first entries ih =>
    change p.validateSparse state (first.1.toUInt32 :: first.2 :: sparseWords entries) previous
        populated = .ok count at hValid
    rw [validateSparse, toNat_toUInt32] at hValid
    split at hValid
    · cases hValid
    split at hValid
    · cases hValid
    cases hChecked : p.validateBody first.2 state first.1.toUInt32.toUInt16 with
    | error err =>
      rw [hChecked] at hValid
      cases hValid
    | ok done =>
      rw [hChecked] at hValid
      rcases ih hValid with ⟨hSorted, hAbove⟩
      constructor
      · rw [map_cons, pairwise_cons]
        refine ⟨?_, hSorted⟩
        intro key hKey
        rcases mem_map.mp hKey with ⟨entry, hEntry, rfl⟩
        have hLt := hAbove entry hEntry
        omega
      · intro entry hEntry
        rcases mem_cons.mp hEntry with rfl | hTail
        · omega
        · have hLt := hAbove entry hTail
          omega

lemma sparseSearch_of_mem (hSorted : (entries.map (fun entry => entry.1.toNat)).Pairwise (· < ·))
    {j : Nat} (hEntry : entries[j]? = some (sym, offset)) :
    Search.lowerBound 2
      (fun mid => decide (wordAt (sparseWords entries) mid < sym.toUInt32))
      (sparseWords entries).length 0 (sparseWords entries).length = 2 * j := by
  have hLength : (sparseWords entries).length =
      2 * (entries.map (fun entry => entry.1.toNat)).length := by
    rw [sparseWords_length, length_map, mul_comm]
  have hTarget : (entries.map fun entry => entry.1.toNat)[j]? = some sym.toNat := by
    rw [getElem?_map, hEntry]
    rfl
  rw [hLength]
  apply Search.lowerBound_of_sorted (by decide) hSorted hTarget
  · intro i key hKey
    rw [getElem?_map] at hKey
    cases hGet : entries[i]? with
    | none => simp [hGet] at hKey
    | some entry =>
      rw [hGet] at hKey
      cases hKey
      rw [(sparseWords_wordAt hGet).1]
      apply decide_eq_decide.mpr
      rw [UInt32.lt_iff_toNat_lt, toNat_toUInt32, toNat_toUInt32]
  · omega

-- Dispatch

/- Sparse tables ascend. -/
def StateBlock.Ascending (block : StateBlock) (bodyOffsets : List UInt32) : Prop :=
  block.shape = .sparse → ((block.entries bodyOffsets).map
      (fun entry => entry.1.toNat)).Pairwise (· < ·)

lemma BlockAt.dispatch_of_mem (hBlock : BlockAt prog base block bodyOffsets)
    (hAscending : block.Ascending bodyOffsets) (hMem : (sym, offset) ∈ block.entries bodyOffsets)
    (hSame : ∀ entry ∈ block.entries bodyOffsets, entry.1 = sym → entry.2 = offset) :
    corridorDispatch prog base sym = offset := by
  unfold corridorDispatch
  dsimp only
  rw [shape_wordAt hBlock.chunk, hBlock.dispatchTable_eq]
  unfold StateBlock.table
  cases hShape : block.shape with
  | dense =>
    have hRange := hBlock.inRange hShape _ hMem
    rw [if_pos rfl]
    apply denseTable_of_mem hMem hSame
    rw [length_replicate]
    exact hRange
  | sparse =>
    rw [if_neg (by decide)]
    rcases getElem?_of_mem hMem with ⟨j, hj⟩
    have hWord := sparseWords_wordAt hj
    have hLt : j < (block.entries bodyOffsets).length := (List.getElem?_eq_some_iff.mp hj).1
    have hLength : 2 * j < (sparseWords (block.entries bodyOffsets)).length := by
      rw [sparseWords_length]
      omega
    rw [sparseSearch_of_mem (hAscending hShape) hj, if_pos ⟨hLength, hWord.1⟩]
    exact hWord.2

lemma BlockAt.dispatch_of_not_mem (hBlock : BlockAt prog base block bodyOffsets)
    (hNone : ∀ entry ∈ block.entries bodyOffsets, entry.1 ≠ sym) :
    corridorDispatch prog base sym = 0 := by
  unfold corridorDispatch
  dsimp only
  rw [shape_wordAt hBlock.chunk, hBlock.dispatchTable_eq]
  unfold StateBlock.table
  cases hShape : block.shape with
  | dense =>
    rw [if_pos rfl]
    refine (denseTable_of_not_mem hNone).trans ?_
    unfold wordAt
    rw [getD_eq_getElem?_getD, getElem?_replicate]
    split <;> rfl
  | sparse =>
    rw [if_neg (by decide)]
    have hLength := sparseWords_length (block.entries bodyOffsets)
    rw [mul_comm] at hLength
    rcases Search.lowerBound_aligned (by decide : 0 < 2) (fun mid => decide (wordAt (sparseWords
        (block.entries bodyOffsets)) mid < sym.toUInt32)) (2 * (block.entries bodyOffsets).length) 0
        (block.entries bodyOffsets).length with
      ⟨m, hStop⟩
    rw [hLength, hStop]
    apply if_neg
    rintro ⟨hLt, hWord⟩
    have hm : m < (block.entries bodyOffsets).length := by omega
    have hEntry := getElem?_eq_getElem hm
    rw [(sparseWords_wordAt hEntry).1] at hWord
    apply hNone _ (getElem_mem hm)
    apply UInt16.toNat_inj.mp
    have hNat := UInt32.toNat_inj.mpr hWord
    exact hNat

-- Validated Blocks

variable {base : UInt32}

/- The table of a validated state has as many entries as the key set that its header names. -/
lemma validateState_table (hBase : p.stateBlockOffset[state]? = some base)
    (hValid : p.validateState state = .ok ()) :
    ∃ populated,
      p.validateTable state ((wordAt p.prog base.toNat >>> 14) &&& 0x3)
        (dispatchTable p.prog base.toNat) = .ok populated ∧
        populated =
          (p.keySets.getD (wordAt p.prog (base.toNat + 1) &&& 0xFFFF).toNat []).length := by
  have hOffset : wordAt p.stateBlockOffset state = base := by
    unfold wordAt
    rw [getD_eq_getElem?_getD, hBase]
    rfl
  unfold validateState at hValid
  rw [hOffset] at hValid
  rcases exists_of_bind_ok hValid with ⟨_, _, hValid⟩
  rcases exists_of_bind_ok hValid with ⟨_, _, hValid⟩
  rcases exists_of_bind_ok hValid with ⟨_, _, hValid⟩
  rcases exists_of_bind_ok hValid with ⟨_, _, hValid⟩
  rcases exists_of_bind_ok hValid with ⟨_, _, hValid⟩
  rcases exists_of_bind_ok hValid with ⟨populated, hTable, hCount⟩
  refine ⟨populated, hTable, ?_⟩
  by_contra hDiffer
  unfold rejectIf at hCount
  rw [if_pos hDiffer] at hCount
  cases hCount

lemma BlockAt.ascending (hBlock : BlockAt p.prog base.toNat block bodyOffsets)
    (hBase : p.stateBlockOffset[state]? = some base) (hValid : p.validateState state = .ok ()) :
    block.Ascending bodyOffsets := by
  intro hShape
  rcases validateState_table hBase hValid with ⟨populated, hTable, _⟩
  rw [shape_wordAt hBlock.chunk, hBlock.dispatchTable_eq, StateBlock.table, hShape] at hTable
  unfold validateTable at hTable
  rw [if_neg (by decide)] at hTable
  dsimp only at hTable
  split at hTable
  · cases hTable
  · exact (validateSparse_ascending hTable).1

lemma chooseShape_words_le_last {keys : List Symbol} {shape : DispatchShape}
    {tableWords bound : Nat} (hShape : chooseShape keys = (shape, tableWords))
    (hKeys : ∀ key ∈ keys, key.toNat < bound) :
    tableWords ≤ bound := by
  unfold chooseShape at hShape
  cases hLast : keys.getLast? with
  | none =>
    rw [hLast] at hShape
    cases hShape
    exact Nat.zero_le _
  | some last =>
    have hBound := hKeys last (mem_of_getLast? hLast)
    rw [hLast] at hShape
    dsimp only at hShape
    split at hShape
    · cases hShape
      omega
    · cases hShape
      omega

/-
  A dense table for all 16-bit symbols has a size that does not fit its field. The validation then
  sees no entry, and rejects the block if its key set has a number of its own.
-/
lemma tableWords_ne_of_validated
    (hChunk : Stream.ChunkAt p.prog base.toNat (block.header ++ rest))
    (hBase : p.stateBlockOffset[state]? = some base) (hValid : p.validateState state = .ok ())
    (hShaped : chooseShape block.keys = (block.shape, block.tableWords))
    (hNumbered : block.keys ≠ [] → p.keySets[block.setID.toNat]? = some block.keys) :
    block.tableWords ≠ 65536 := by
  intro hFull
  have hKeys : block.keys ≠ [] := by
    intro hNil
    rw [hNil] at hShaped
    have hWords := congrArg Prod.snd hShaped
    rw [hFull] at hWords
    cases hWords
  have hDense : block.shape = .dense := by
    cases hShape : block.shape with
    | dense => rfl
    | sparse =>
      rw [hShape, hFull] at hShaped
      unfold chooseShape at hShaped
      cases hLast : block.keys.getLast? with
      | none => simp [hLast] at hShaped
      | some last =>
        have hBound := toNat_lt last
        rw [hLast] at hShaped
        dsimp only at hShaped
        split at hShaped
        · cases hShaped
        · have hWords := congrArg Prod.snd hShaped
          omega
  have hWord : wordAt p.prog (base.toNat + 1) = block.setID.toUInt32 := by
    rw [setWord_wordAt hChunk, hFull]
    exact UInt32.or_zero
  have hNoTable : dispatchTable p.prog base.toNat = [] := by
    have hSet := toNat_lt block.setID
    have hZero : (block.setID.toUInt32 >>> 16).toNat = 0 := by
      rw [Word.toNat_shiftRight _ _ (by decide), toNat_toUInt32]
      exact Nat.div_eq_of_lt hSet
    unfold dispatchTable
    rw [hWord, hZero, take_zero]
  have hSetID : (block.setID.toUInt32 &&& 0xFFFF).toNat = block.setID.toNat := by
    rw [Word.toNat_mask _ _ 16 (by decide), toNat_toUInt32]
    exact Nat.mod_eq_of_lt (toNat_lt block.setID)
  rcases validateState_table hBase hValid with ⟨populated, hTable, hCount⟩
  rw [shape_wordAt hChunk, hDense, hNoTable] at hTable
  cases hTable
  rw [hWord, hSetID, getD_eq_getElem?_getD, hNumbered hKeys] at hCount
  exact hKeys (eq_nil_of_length_eq_zero hCount.symm)

end GoTreeSitter
