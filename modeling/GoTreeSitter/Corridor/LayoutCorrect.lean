import GoTreeSitter.Corridor.CompileCorrect

/-
  Where the corridor compiler puts bodies and blocks.

  Main declarations:
    * `denseTable`
    * `StateBlock.table`
    * `emitBlock_inPlace`
    * `emitProgram_streamOf`

  Neither the 32-bit offsets nor the tables overflow, so the emitted stream holds every body and
  every block at the offset that the layout gave it.
-/

-- Layout

namespace GoTreeSitter

open List Stream StateBlock

variable {offsets : List UInt32} {tableWords : Nat}

/- Offsets paired with items, as natural numbers. -/
def placedBy {ι : Type} (offsets : List UInt32) (items : List ι) : List (Nat × ι) :=
  (offsets.zip items).map (fun p => (p.1.toNat, p.2))

lemma layoutBodies_placed
    (offset : UInt32)
    (bodies : List BodyKind)
    (hFit : offset.toNat + Stream.total BodyKind.words bodies < 2 ^ 32) :
    placedBy (layoutBodies offset bodies).1 bodies =
      Stream.placed BodyKind.words offset.toNat bodies ∧
      (layoutBodies offset bodies).1.length = bodies.length ∧
      (layoutBodies offset bodies).2.toNat = offset.toNat + Stream.total BodyKind.words bodies := by
  induction bodies generalizing offset with
  | nil => exact ⟨rfl, rfl, rfl⟩
  | cons body bodies ih =>
    rw [total_cons] at hFit
    have hNext : (offset + UInt32.ofNat body.words).toNat = offset.toNat + body.words :=
      Word.toNat_add_ofNat offset body.words (by omega)
    have hRest := ih (offset + UInt32.ofNat body.words) (by
        rw [hNext]
        omega)
    rw [hNext] at hRest
    rcases hRest with ⟨hPlaced, hLength, hLast⟩
    refine ⟨?_, ?_, ?_⟩
    · exact congrArg (List.cons (offset.toNat, body)) hPlaced
    · exact congrArg Nat.succ hLength
    · rw [total_cons, ← add_assoc]
      exact hLast

variable {blocks : List StateBlock} {keys : List Symbol} {blockOffsets : List UInt32}
  {entries : List (Symbol × UInt32)} {ι : Type} {items : List ι}

/- Blocks are placed one after the other, below the ceiling. -/
lemma layoutBlocks_placed
    {offset last : UInt32}
    (hOffset : offset.toNat < 2 ^ 25)
    (hWords : ∀ block ∈ blocks, block.words ≤ 2 ^ 17)
    (hLayout : layoutBlocks offset blocks = .ok (offsets, last)) :
    placedBy offsets blocks = Stream.placed StateBlock.words offset.toNat blocks ∧
      offsets.length = blocks.length ∧
      last.toNat = offset.toNat + Stream.total StateBlock.words blocks ∧ last.toNat < 2 ^ 25 := by
  induction blocks generalizing offset offsets with
  | nil =>
    cases hLayout
    exact ⟨rfl, rfl, rfl, hOffset⟩
  | cons block blocks ih =>
    have hBlock := hWords block (mem_cons_self ..)
    have hNext : (offset + UInt32.ofNat block.words).toNat = offset.toNat + block.words :=
      Word.toNat_add_ofNat offset block.words (by omega)
    rw [layoutBlocks] at hLayout
    split at hLayout
    · cases hLayout
    rename_i hCeiling
    cases hRest : layoutBlocks (offset + UInt32.ofNat block.words) blocks with
    | error err => simp [hRest] at hLayout
    | ok rest =>
      rw [hRest] at hLayout
      cases hLayout
      have hBelow : (offset + UInt32.ofNat block.words).toNat < 2 ^ 25 :=
        UInt32.lt_iff_toNat_lt.mp (UInt32.not_le.mp hCeiling)
      have hTail : ∀ other ∈ blocks, other.words ≤ 2 ^ 17 := fun other hOther =>
          hWords other (mem_cons_of_mem _ hOther)
      rcases ih hBelow hTail hRest with ⟨hPlaced, hLength, hLast, hTop⟩
      rw [hNext] at hPlaced hLast
      refine ⟨?_, ?_, ?_, hTop⟩
      · exact congrArg (List.cons (offset.toNat, block)) hPlaced
      · exact congrArg Nat.succ hLength
      · rw [total_cons, ← add_assoc]
        exact hLast

lemma total_words_le (bodies : List BodyKind) :
    Stream.total BodyKind.words bodies ≤ 3 * bodies.length := by
  induction bodies with
  | nil => exact le_refl 0
  | cons body bodies ih =>
    have hBody : body.words ≤ 3 := by
      unfold BodyKind.words
      cases body.op <;> decide
    rw [total_cons, length_cons]
    omega

lemma chooseShape_words_le {shape : DispatchShape}
    (hShape : chooseShape keys = (shape, tableWords)) :
    tableWords ≤ 65536 := by
  unfold chooseShape at hShape
  cases hLast : keys.getLast? with
  | none =>
    rw [hLast] at hShape
    cases hShape
    exact Nat.zero_le _
  | some last =>
    rw [hLast] at hShape
    dsimp only at hShape
    have hBound := UInt16.toNat_lt last
    split_ifs at hShape with hSpan
    · cases hShape
      omega
    cases hShape
    omega

lemma chooseShape_sparse (hShape : chooseShape keys = (.sparse, tableWords)) :
    tableWords = keys.length * 2 := by
  unfold chooseShape at hShape
  cases hLast : keys.getLast? with
  | none =>
    rw [hLast] at hShape
    cases hShape
    rw [getLast?_eq_none_iff.mp hLast]
    rfl
  | some last =>
    rw [hLast] at hShape
    dsimp only at hShape
    split at hShape
    · cases hShape
    · cases hShape
      rfl

-- Emission

lemma bodyWords_length {body : BodyKind} {words : List UInt32}
    (hWords : bodyWords blockOffsets body = .ok words) :
    words.length = body.words := by
  unfold bodyWords at hWords
  unfold BodyKind.words
  cases hOp : body.op <;> rw [hOp] at hWords
  all_goals
    dsimp only at hWords ⊢
    repeat' split at hWords
    all_goals cases hWords
    all_goals rfl

lemma emitBody_inPlace (blockOffsets : List UInt32) (bodies : List BodyKind) :
    Stream.EmitsInPlace 0 BodyKind.words (emitBody blockOffsets)
      (fun body words => bodyWords blockOffsets body = .ok words) bodies := by
  intro body _ before after stream hEmit
  unfold emitBody at hEmit
  cases hWords : bodyWords blockOffsets body with
  | error err => simp [hWords] at hEmit
  | ok words =>
    rw [hWords] at hEmit
    cases hEmit
    have hLength := bodyWords_length hWords
    refine ⟨words, hWords, hLength, ?_⟩
    apply writeWords_over
    rw [length_replicate, hLength]

/- The table after storing entries by symbol. -/
def denseTable (entries : List (Symbol × UInt32)) (table : List UInt32) : List UInt32 :=
  entries.foldl (fun table entry => table.set entry.1.toNat entry.2) table

lemma denseTable_length (entries : List (Symbol × UInt32)) (table : List UInt32) :
    (denseTable entries table).length = table.length := by
  induction entries generalizing table with
  | nil => rfl
  | cons entry entries ih => exact (ih _).trans length_set

/- Entries that are stored lie inside the table. -/
lemma emitDense_range {start : Nat} {prog stream : List UInt32}
    (hEmit : emitDense start tableWords entries prog = .ok stream) :
    ∀ entry ∈ entries, entry.1.toNat < tableWords := by
  induction entries generalizing prog with
  | nil =>
    intro entry hEntry
    cases hEntry
  | cons first entries ih =>
    rw [emitDense] at hEmit
    split at hEmit
    · rename_i hRange
      intro entry hEntry
      rcases mem_cons.mp hEntry with rfl | hTail
      · exact hRange
      · exact ih hEmit entry hTail
    · cases hEmit

lemma emitDense_over {before table after stream : List UInt32}
    (hTable : table.length = tableWords)
    (hEmit : emitDense before.length tableWords entries (before ++ (table ++ after)) = .ok stream) :
    stream = before ++ (denseTable entries table ++ after) := by
  induction entries generalizing table with
  | nil =>
    cases hEmit
    rfl
  | cons entry entries ih =>
    rw [emitDense] at hEmit
    split at hEmit
    · rename_i hRange
      rw [← hTable] at hRange
      have hSet : (before ++ (table ++ after)).set (before.length + entry.1.toNat) entry.2 =
          before ++ (table.set entry.1.toNat entry.2 ++ after) := by
        rw [set_append_right _ _ (by omega), Nat.add_sub_cancel_left, set_append_left _ _ hRange]
      rw [hSet] at hEmit
      exact ih (length_set.trans hTable) hEmit
    · cases hEmit

/- The dispatch table of a block. -/
def StateBlock.table (block : StateBlock) (bodyOffsets : List UInt32) : List UInt32 :=
  match block.shape with
  | .dense => denseTable (block.entries bodyOffsets) (List.replicate block.tableWords 0)
  | .sparse => sparseWords (block.entries bodyOffsets)

lemma sparseWords_length (entries : List (Symbol × UInt32)) :
    (sparseWords entries).length = entries.length * 2 := by
  induction entries with
  | nil => rfl
  | cons entry entries ih =>
    change (sparseWords entries).length + 2 = _
    rw [ih, length_cons]
    omega

/- A planned block: shaped by its keys, a body per key. -/
structure StateBlock.Planned (block : StateBlock) : Prop where
  shaped : chooseShape block.keys = (block.shape, block.tableWords)
  paired : block.bodies.length = block.keys.length

lemma StateBlock.Planned.table_length {block : StateBlock} (hPlanned : block.Planned)
    (bodyOffsets : List UInt32) :
    (block.table bodyOffsets).length = block.tableWords := by
  unfold table
  cases hShape : block.shape with
  | dense => rw [denseTable_length, length_replicate]
  | sparse =>
    have hShaped := hPlanned.shaped
    rw [hShape] at hShaped
    rw [sparseWords_length, chooseShape_sparse hShaped, entries, length_zip,
      length_map, hPlanned.paired, Nat.min_self]

/- The keys of a dense table lie inside it. -/
def StateBlock.InRange (block : StateBlock) (bodyOffsets : List UInt32) : Prop :=
  block.shape = .dense → ∀ entry ∈ block.entries bodyOffsets, entry.1.toNat < block.tableWords

lemma emitBlock_inPlace (bodyOffsets : List UInt32) (hPlanned : ∀ block ∈ blocks, block.Planned) :
    Stream.EmitsInPlace 0 StateBlock.words (emitBlock bodyOffsets)
      (fun block words =>
        words = block.header ++ block.table bodyOffsets ∧ block.InRange bodyOffsets) blocks := by
  intro block hBlock before after stream hEmit
  have hTable := (hPlanned block hBlock).table_length bodyOffsets
  refine ⟨_, ⟨rfl, ?_⟩, ?_, ?_⟩
  · intro hShape
    unfold emitBlock at hEmit
    rw [hShape] at hEmit
    exact emitDense_range hEmit
  · rw [length_append, hTable]
    rfl
  have hHeader : writeWords (before ++ (List.replicate block.words 0 ++ after))
      before.length block.header =
      (before ++ block.header) ++ (List.replicate block.tableWords 0 ++ after) := by
    rw [words, ← replicate_append_replicate, append_assoc,
      writeWords_over before (List.replicate 2 0) block.header _ rfl, append_assoc]
  have hPlace : before.length + 2 = (before ++ block.header).length := by
    rw [length_append]
    rfl
  unfold emitBlock at hEmit
  rw [hHeader, hPlace] at hEmit
  unfold table at hTable ⊢
  cases hShape : block.shape with
  | dense =>
    rw [hShape] at hEmit
    have hStream := emitDense_over length_replicate hEmit
    rw [hStream]
    simp
  | sparse =>
    rw [hShape] at hEmit hTable
    cases hEmit
    rw [writeWords_over (before ++ block.header) (List.replicate block.tableWords 0) _
      after (by rw [length_replicate, hTable])]
    simp

-- The Stream

/-
  The stream holds every body and every block at its offset,
  and the offsets of the blocks ascend below the ceiling.
-/
structure StreamOf (compiled : CompileState) (bodyOffsets blockOffsets : List UInt32)
    (prog : List UInt32) : Prop where
  body : ∀ (i : Nat) (kind : BodyKind), compiled.pool[i]? = some kind → ∃ (offset : UInt32) (words :
      List UInt32), bodyOffsets[i]? = some offset ∧ 0 < offset.toNat ∧ bodyWords blockOffsets kind
      = .ok words ∧ Stream.ChunkAt prog offset.toNat words
  block : ∀ (i : Nat) (block : StateBlock), compiled.blocks[i]? = some block → ∃ base : UInt32,
      blockOffsets[i]? = some base ∧ Stream.ChunkAt prog base.toNat (block.header ++ block.table
      bodyOffsets) ∧ block.InRange bodyOffsets
  ascending : (blockOffsets.map UInt32.toNat).Pairwise (· < ·)
  below : ∀ base ∈ blockOffsets, base.toNat < 2 ^ 25

lemma mem_placedBy (hLength : offsets.length = items.length) {i : Nat} {item : ι}
    (hItem : items[i]? = some item) :
    ∃ offset, offsets[i]? = some offset ∧ (offset.toNat, item) ∈ placedBy offsets items := by
  rcases List.getElem?_eq_some_iff.mp hItem with ⟨hi, hGet⟩
  have hOffset : i < offsets.length := by
    omega
  refine ⟨offsets[i], getElem?_eq_getElem hOffset, ?_⟩
  apply mem_map.mpr
  refine ⟨(offsets[i], item), ?_, rfl⟩
  apply mem_of_getElem? (i := i)
  rw [getElem?_zip_eq_some]
  exact ⟨getElem?_eq_getElem hOffset, hItem⟩

lemma map_fst_placedBy (hLength : offsets.length = items.length) :
    (placedBy offsets items).map Prod.fst = offsets.map UInt32.toNat := by
  unfold placedBy
  rw [map_map]
  have hFst : (offsets.zip items).map Prod.fst = offsets := map_fst_zip hLength.le
  conv_rhs => rw [← hFst]
  rw [map_map]
  rfl

/- Layout and emission together: the stream is the guard, the bodies and the blocks. -/
lemma emitProgram_streamOf
    {compiled : CompileState}
    {last : UInt32}
    {prog : List UInt32}
    (hPool : compiled.pool.length ≤ 131072)
    (hPlanned : ∀ block ∈ compiled.blocks, block.Planned)
    (hLayout : layoutBlocks (layoutBodies 1 compiled.pool).2 compiled.blocks =
      .ok (blockOffsets, last))
    (hEmit : emitProgram compiled (layoutBodies 1 compiled.pool).1 blockOffsets last = .ok prog) :
    StreamOf compiled (layoutBodies 1 compiled.pool).1 blockOffsets prog := by
  -- The bodies stay far below the ceiling.
  have hTotal := total_words_le compiled.pool
  have hOne : (1 : UInt32).toNat = 1 := rfl
  rcases layoutBodies_placed 1 compiled.pool (by
      rw [hOne]
      omega) with
    ⟨hBodies, hBodyCount, hBodyEnd⟩
  rw [hOne] at hBodies hBodyEnd
  have hWords : ∀ block ∈ compiled.blocks, block.words ≤ 2 ^ 17 := by
    intro block hBlock
    have hTable := chooseShape_words_le (hPlanned block hBlock).shaped
    unfold words
    omega
  rcases layoutBlocks_placed (by omega) hWords hLayout with ⟨hBlocks, hBlockCount, hLast, hCeiling⟩
  rw [hBodyEnd] at hBlocks hLast
  -- The allocated stream is the guard and the two regions.
  have hAlloc : (List.replicate last.toNat (0 : UInt32)).set 0 Opcode.halt.code =
      [0] ++
        (List.replicate (total BodyKind.words compiled.pool) 0 ++
          (List.replicate (total words compiled.blocks) 0 ++ [])) := by
    rw [hLast, append_nil, replicate_append_replicate, add_assoc, ← replicate_append_replicate]
    rfl
  unfold emitProgram at hEmit
  dsimp only at hEmit
  rw [hAlloc] at hEmit
  rcases exists_of_bind_ok hEmit with ⟨middle, hFirst, hSecond⟩
  have hFirstRun : (placed BodyKind.words ([0] : List UInt32).length compiled.pool).foldlM
      (fun prog p => emitBody blockOffsets prog p.1 p.2)
      ([0] ++
        (List.replicate (total BodyKind.words compiled.pool) 0 ++
          (List.replicate (total words compiled.blocks) 0 ++ []))) = .ok middle := by
    rw [length_singleton, ← hBodies, placedBy, foldlM_map]
    exact hFirst
  rcases chunkAt_foldlM_placed (emitBody_inPlace blockOffsets compiled.pool) hFirstRun with
    ⟨written, hMiddle, hWritten, hBodyChunks⟩
  have hFront : ([0] ++ written).length = 1 + total BodyKind.words compiled.pool := by
    rw [length_append, hWritten]
    rfl
  have hSecondRun : (placed words ([0] ++ written).length compiled.blocks).foldlM
      (fun prog p => emitBlock (layoutBodies 1 compiled.pool).1 prog p.1 p.2)
      (([0] ++ written) ++ (List.replicate (total words compiled.blocks) 0 ++ [])) = .ok prog := by
    rw [hFront, ← hBlocks, placedBy, foldlM_map, ← hMiddle]
    exact hSecond
  rcases chunkAt_foldlM_placed (emitBlock_inPlace _ hPlanned) hSecondRun with
    ⟨blockWords, hProg, _, hBlockChunks⟩
  rw [append_nil] at hProg
  refine ⟨?_, ?_, ?_, ?_⟩
  · intro i kind hKind
    rcases mem_placedBy hBodyCount hKind with ⟨offset, hOffset, hMem⟩
    rw [hBodies] at hMem
    rcases hBodyChunks _ hMem with ⟨words, hWords, hChunk⟩
    refine ⟨offset, words, hOffset, ?_, hWords, ?_⟩
    · exact (placed_bound hMem).1
    · rw [hProg]
      exact hChunk.append blockWords
  · intro i block hBlock
    rcases mem_placedBy hBlockCount hBlock with ⟨base, hBase, hMem⟩
    rw [hBlocks, ← hFront] at hMem
    rcases hBlockChunks _ hMem with ⟨words, ⟨rfl, hRange⟩, hChunk⟩
    rw [← hProg] at hChunk
    exact ⟨base, hBase, hChunk, hRange⟩
  · rw [← map_fst_placedBy hBlockCount, hBlocks]
    apply placed_sorted
    intro block _
    unfold words
    omega
  · intro base hBase
    have hMem : base.toNat ∈ blockOffsets.map UInt32.toNat := mem_map_of_mem hBase
    rw [← map_fst_placedBy hBlockCount, hBlocks] at hMem
    rcases mem_map.mp hMem with ⟨p, hp, hFst⟩
    have hBound := (placed_bound hp).2
    omega

end GoTreeSitter
