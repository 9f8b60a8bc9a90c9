import GoTreeSitter.Corridor.Classify
import GoTreeSitter.Stream.Chunks
import GoTreeSitter.Search.Sorted
import GoTreeSitter.Pool.Intern

/-
  The corridor compiler and its decoder.

  Key definitions include:
    * `CorridorTables.visitKeys`
    * `compileState`

  The stream starts with a guard word. The interned bodies follow, and then one block per state: two
  header words and a dispatch table from terminals to body offsets.
-/

-- Pass A: Classify and Intern

namespace GoTreeSitter

open Pool

variable (t : CorridorTables) (blockOffsets : List UInt32)

/- The shapes of a dispatch table. -/
inductive DispatchShape where
| dense
| sparse
  deriving DecidableEq

namespace DispatchShape

/- The code of a shape in the block header. -/
def code : DispatchShape → UInt32
| .dense => 0
| .sparse => 1

end DispatchShape

/- The plan of the block of one state. -/
structure StateBlock where
  keys : List Symbol
  bodies : List Nat
  shape : DispatchShape
  tableWords : Nat
  setID : UInt16
  flags : UInt8

variable (prog : List UInt32) (block : StateBlock)

/- The number of words of a block. -/
def StateBlock.words : Nat := 2 + block.tableWords

/- The populated terminals of a state with their bodies. -/
def CorridorTables.visitKeys (t : CorridorTables) (state : StateID) :
    List (Symbol × UInt16) → Except String (List (Symbol × BodyKind))
| [] => .ok []
| (sym, _) :: keys =>
  if sym.toUInt32 ≥ t.tokenCount then
    t.visitKeys state keys
  else
    match t.row state sym with
    | .error err => .error err
    | .ok (row, rowIndex) =>
      if row.actions = [] then
        t.visitKeys state keys
      else
        match t.visitKeys state keys with
        | .error err => .error err
        | .ok cells => .ok ((sym, t.classifyCell state sym row rowIndex) :: cells)

/- Intern the bodies of a state, one after the other. -/
def internBodies (pool : List BodyKind) : List BodyKind → List Nat × List BodyKind
| [] => ([], pool)
| kind :: kinds =>
  let interned := internValue pool kind
  let rest := internBodies interned.2 kinds
  (interned.1 :: rest.1, rest.2)

/- Intern a key set. The number of a set is stored in 16 bits. -/
def internKeySet (sets : List (List Symbol)) (keys : List Symbol) : UInt16 × List (List Symbol) :=
  if keys = [] then
    (0, sets)
  else
    let interned := internValue sets keys
    (UInt16.ofNat interned.1, interned.2)

/- Choose the shape of a table and its number of words. -/
def chooseShape (keys : List Symbol) : DispatchShape × Nat :=
  match keys.getLast? with
  | none => (.sparse, 0)
  | some last =>
    let span := last.toNat + 1
    let sparseWords := keys.length * 2
    if span ≤ sparseWords then
      (.dense, span)
    else
      (.sparse, sparseWords)

/- The flags of the header of a state. -/
def CorridorTables.expectFlags (state : StateID) : UInt8 :=
  (if t.externalState state then 1 else 0) ||| (if t.reservedWordState state then 2 else 0) ||| 4

/- What the first pass accumulates. -/
structure CompileState where
  pool : List BodyKind := []
  keySets : List (List Symbol) := [[]]
  blocks : List StateBlock := []

/- Classify one state. -/
def compileState (acc : CompileState) (state : StateID) : Except String CompileState :=
  match t.visitKeys state (t.forEachKey state) with
  | .error err => .error err
  | .ok cells =>
    let keys := cells.map Prod.fst
    let bodies := internBodies acc.pool (cells.map Prod.snd)
    let set := internKeySet acc.keySets keys
    let shape := chooseShape keys
    let block : StateBlock :=
      { keys := keys
        bodies := bodies.1
        shape := shape.1
        tableWords := shape.2
        setID := set.1
        flags := t.expectFlags state }
    .ok
      { pool := bodies.2
        keySets := set.2
        blocks := acc.blocks ++ [block] }

/- Classify a list of states. -/
def compileStates : CompileState → List StateID → Except String CompileState
| acc, [] => .ok acc
| acc, state :: states =>
  match compileState t acc state with
  | .error err => .error err
  | .ok acc => compileStates acc states

-- Pass B: Layout

/- Block offsets must stay below this word. -/
def maxBlockOffset : UInt32 := 0x2000000

/- The offsets of the bodies, and the word after them. -/
def layoutBodies : UInt32 → List BodyKind → List UInt32 × UInt32
| offset, [] => ([], offset)
| offset, body :: bodies =>
  let rest := layoutBodies (offset + UInt32.ofNat body.words) bodies
  (offset :: rest.1, rest.2)

/- The offsets of the blocks, and the word after them. -/
def layoutBlocks : UInt32 → List StateBlock → Except String (List UInt32 × UInt32)
| offset, [] => .ok ([], offset)
| offset, block :: blocks =>
  let next := offset + UInt32.ofNat block.words
  if next ≥ maxBlockOffset then
    .error "parser-core corridor: program exceeds the 33554432-word block-offset ceiling"
  else
    match layoutBlocks next blocks with
    | .error err => .error err
    | .ok rest => .ok (offset :: rest.1, rest.2)

-- Pass C: Emission

/- The block offset of a shift target. -/
def blockOffsetFor (state : UInt32) : Except String UInt32 :=
  match blockOffsets[state.toNat]? with
  | none =>
    .error s!"parser-core corridor: shift target state {state} is outside the compiled state range"
  | some offset => .ok offset

/- The words of a body. -/
def bodyWords (body : BodyKind) : Except String (List UInt32) :=
  match body.op with
  | .shift =>
    match blockOffsetFor blockOffsets body.targetState with
    | .error err => .error err
    | .ok target => .ok [Opcode.shift.code ||| target <<< 6, body.rowIndex]
  | .shiftExtra =>
    let resolved :=
      if body.selfLoop then
        .ok 0
      else
        blockOffsetFor blockOffsets body.targetState
    let selfLoop : UInt32 :=
      if body.selfLoop then 1 else 0
    match resolved with
    | .error err => .error err
    | .ok target => .ok [Opcode.shiftExtra.code ||| selfLoop <<< 6 ||| target <<< 7, body.rowIndex]
  | .reduce =>
    .ok [Opcode.reduce.code ||| body.gotoMode <<< 6 ||| body.childCount.toUInt32 <<< 8,
        body.prod.toUInt32 ||| body.lhs.toUInt32 <<< 16, body.rowIndex]
  | .reduceChain =>
    match blockOffsetFor blockOffsets body.targetState with
    | .error err => .error err
    | .ok target =>
      .ok [Opcode.reduceChain.code ||| target <<< 6, body.rowIndex, body.chainRowIndex]
  | .reduceShift =>
    match blockOffsetFor blockOffsets body.targetState with
    | .error err => .error err
    | .ok target =>
      .ok [Opcode.reduceShift.code ||| target <<< 6, body.rowIndex, body.shiftRowIndex]
  | .accept => .ok [Opcode.accept.code, body.rowIndex]
  | .fork => .ok [Opcode.fork.code ||| body.rowIndex <<< 6]
  | .exitGeneric => .ok [Opcode.exitGeneric.code ||| body.reason.code <<< 6]
  | .exitUnsupported => .ok [Opcode.exitUnsupported.code ||| body.reason.code <<< 6]
  | op =>
    let name := op.name
    .error s!"parser-core corridor: cannot emit body opcode {name}"

/- Write a body at its offset. -/
def emitBody (prog : List UInt32) (start : Nat) (body : BodyKind) : Except String (List UInt32) :=
  match bodyWords blockOffsets body with
  | .error err => .error err
  | .ok words => .ok (Stream.writeWords prog start words)

/- The keys of a block with the offsets of their bodies. -/
def StateBlock.entries (bodyOffsets : List UInt32) : List (Symbol × UInt32) :=
  block.keys.zip (block.bodies.map (fun idx => bodyOffsets.getD idx 0))

/- Store the entries of a dense table. An index past the table stops the compiler. -/
def emitDense (start tableWords : Nat) :
    List (Symbol × UInt32) → List UInt32 → Except String (List UInt32)
| [], prog => .ok prog
| (sym, offset) :: entries, prog =>
  if sym.toNat < tableWords then
    emitDense start tableWords entries (prog.set (start + sym.toNat) offset)
  else
    .error s!"runtime error: index out of range [{sym}] with length {tableWords}"

/- The words of a sparse table. -/
def sparseWords (entries : List (Symbol × UInt32)) : List UInt32 :=
  entries.flatMap (fun entry => [entry.1.toUInt32, entry.2])

/- The two header words of a block. -/
def StateBlock.header : List UInt32 :=
  [Opcode.expect.code ||| block.flags.toUInt32 <<< 6 ||| block.shape.code <<< 14,
    block.setID.toUInt32 ||| UInt32.ofNat block.tableWords <<< 16]

/- Write the block of a state at its offset. -/
def emitBlock (bodyOffsets : List UInt32) (prog : List UInt32) (start : Nat) (block : StateBlock) :
    Except String (List UInt32) :=
  let prog := Stream.writeWords prog start block.header
  let entries := block.entries bodyOffsets
  match block.shape with
  | .dense => emitDense (start + 2) block.tableWords entries prog
  | .sparse => .ok (Stream.writeWords prog (start + 2) (sparseWords entries))

-- Dispatch

/- A compiled program. -/
structure CorridorProgram where
  prog : List UInt32
  stateBlockOffset : List UInt32
  keySets : List (List Symbol)
  stateSetID : List UInt16
  stateFlags : List UInt8
  states : Nat
  tokenCount : UInt32
  rowCount : Nat
  grammar : String

/- A word of the stream. -/
def wordAt (place : Nat) : UInt32 := prog.getD place 0

/- The dispatch table of the block at a word. -/
def dispatchTable (base : Nat) : List UInt32 :=
  (prog.drop (base + 2)).take (wordAt prog (base + 1) >>> 16).toNat

/- The body offset of a terminal in a block, or 0. -/
def corridorDispatch (base : Nat) (sym : Symbol) : UInt32 :=
  let header := wordAt prog base
  let table := dispatchTable prog base
  if (header >>> 14) &&& 0x3 = DispatchShape.dense.code then
    wordAt table sym.toNat
  else
    let target := sym.toUInt32
    let lo := Search.lowerBound 2 (fun mid => decide (wordAt table mid < target))
        table.length 0 table.length
    if lo < table.length ∧ wordAt table lo = target then
      wordAt table (lo + 1)
    else
      0

namespace CorridorProgram

variable (p : CorridorProgram) (offset : UInt32) (state : Nat)

/- The first block that does not start before an offset. -/
def blockSearch : Nat := Search.lowerBound 1 (fun mid =>
    decide (wordAt p.stateBlockOffset mid < offset))
    p.stateBlockOffset.length 0 p.stateBlockOffset.length

/- An offset is the start of the block of some state. -/
def isBlockOffset : Bool :=
  p.stateBlockOffset[p.blockSearch offset]? == some offset

/- The state whose block starts at an offset, or 0. -/
def blockState : UInt32 :=
  if p.isBlockOffset offset then
    UInt32.ofNat (p.blockSearch offset)
  else
    0

-- Validation

/- Fail with an error if a defect is there. -/
def rejectIf (defect : Prop) [Decidable defect] (err : String) : Except String Unit :=
  if defect then .error err else .ok ()

/- A threading operand names a block. -/
def validateBlockTarget (target : UInt32) (state : Nat) (sym : Symbol) (op : Opcode) :
    Except String Unit := do
  let name := op.name
  rejectIf (p.isBlockOffset target = false)
    s!"parser-core corridor: state {state} symbol {sym} {name} target {target} is not a compiled block start"
  rejectIf (target.toNat + 2 > p.prog.length ∨
      wordAt p.prog target.toNat &&& Opcode.mask ≠ Opcode.expect.code)
    s!"parser-core corridor: state {state} symbol {sym} {name} target {target} is not a block header"

/- A row index addresses a row of the language table. -/
def validateRowIndex (index : UInt32) (state : Nat) (sym : Symbol) : Except String Unit :=
  rejectIf (index = 0 ∨ index.toNat ≥ p.rowCount)
    s!"parser-core corridor: state {state} symbol {sym} body carries out-of-range action-row index {index}"

/- A body of this opcode and size ends in the stream. -/
def validateExtent (place words : Nat) (state : Nat) (sym : Symbol) (op : Opcode) :
    Except String Unit :=
  let name := op.name
  rejectIf (place + words > p.prog.length)
    s!"parser-core corridor: state {state} symbol {sym} {name} overruns the stream"

/- A body of the stream is well formed. -/
def validateBody (sym : Symbol) : Except String Unit := do
  let place := offset.toNat
  rejectIf (place ≥ p.prog.length)
    s!"parser-core corridor: state {state} symbol {sym} body offset {offset} is out of range"
  let word := wordAt p.prog place
  let op := word &&& Opcode.mask
  match Opcode.ofCode op with
  | some .shift =>
    p.validateExtent place 2 state sym .shift
    p.validateBlockTarget (word >>> 6) state sym .shift
    p.validateRowIndex (wordAt p.prog (place + 1)) state sym
  | some .shiftExtra =>
    p.validateExtent place 2 state sym .shiftExtra
    p.validateRowIndex (wordAt p.prog (place + 1)) state sym
    if (word >>> 6) &&& 1 = 0 then
      p.validateBlockTarget (word >>> 7) state sym .shiftExtra
  | some .reduce =>
    p.validateExtent place 3 state sym .reduce
    let mode := (word >>> 6) &&& 0x3
    rejectIf (mode ≠ gotoModeIndexed ∧ mode ≠ gotoModeStatic)
      s!"parser-core corridor: state {state} symbol {sym} REDUCE has unknown goto mode {mode}"
    p.validateRowIndex (wordAt p.prog (place + 2)) state sym
  | some .reduceChain =>
    p.validateExtent place 3 state sym .reduceChain
    p.validateRowIndex (wordAt p.prog (place + 1)) state sym
    p.validateRowIndex (wordAt p.prog (place + 2)) state sym
    p.validateBlockTarget (word >>> 6) state sym .reduceChain
  | some .reduceShift =>
    p.validateExtent place 3 state sym .reduceShift
    p.validateRowIndex (wordAt p.prog (place + 1)) state sym
    p.validateRowIndex (wordAt p.prog (place + 2)) state sym
    p.validateBlockTarget (word >>> 6) state sym .reduceShift
  | some .accept =>
    p.validateExtent place 2 state sym .accept
    p.validateRowIndex (wordAt p.prog (place + 1)) state sym
  | some .fork => p.validateRowIndex (word >>> 6) state sym
  | some .exitGeneric => pure ()
  | some .exitUnsupported => pure ()
  | _ =>
    let name := Opcode.nameOfCode op
    throw
      s!"parser-core corridor: state {state} symbol {sym} body decodes to non-body opcode {name}"

/- The number of populated entries of a dense table. -/
def validateDense (p : CorridorProgram) (state : Nat) : List UInt32 → Nat → Nat → Except String Nat
| [], _, populated => .ok populated
| body :: table, sym, populated =>
  if body = 0 then
    p.validateDense state table (sym + 1) populated
  else
    match p.validateBody body state (UInt16.ofNat sym) with
    | .error err => .error err
    | .ok () => p.validateDense state table (sym + 1) (populated + 1)

/- The number of entries of a sparse table. `previous` is the symbol before, -1 at first. -/
def validateSparse (p : CorridorProgram) (state : Nat) : List UInt32 → Int → Nat → Except String Nat
| sym :: body :: table, previous, populated =>
  if (sym.toNat : Int) ≤ previous then
    .error s!"parser-core corridor: state {state} sparse table is not strictly ascending"
  else if body = 0 then
    .error s!"parser-core corridor: state {state} sparse table has an empty body offset"
  else
    match p.validateBody body state sym.toUInt16 with
    | .error err => .error err
    | .ok () => p.validateSparse state table (sym.toNat : Int) (populated + 1)
| _, _, populated => .ok populated

/- The dispatch table of a state, and its entry count. -/
def validateTable (shape : UInt32) (table : List UInt32) : Except String Nat :=
  if shape = DispatchShape.dense.code then
    p.validateDense state table 0 0
  else if table.length % 2 ≠ 0 then
    .error s!"parser-core corridor: state {state} sparse table is not pair aligned"
  else
    p.validateSparse state table (-1) 0

/- The block of a state is well formed. -/
def validateState : Except String Unit := do
  let base := (wordAt p.stateBlockOffset state).toNat
  rejectIf (base + 2 > p.prog.length)
    s!"parser-core corridor: state {state} block header is out of range"
  let header := wordAt p.prog base
  rejectIf (header &&& Opcode.mask ≠ Opcode.expect.code)
    s!"parser-core corridor: state {state} block does not start with EXPECT"
  let shape := (header >>> 14) &&& 0x3
  rejectIf (shape ≠ DispatchShape.dense.code ∧ shape ≠ DispatchShape.sparse.code)
    s!"parser-core corridor: state {state} has unknown dispatch shape {shape}"
  let setID := wordAt p.prog (base + 1) &&& 0xFFFF
  rejectIf (setID.toNat ≥ p.keySets.length)
    s!"parser-core corridor: state {state} references unknown key set {setID}"
  let tableWords := (wordAt p.prog (base + 1) >>> 16).toNat
  rejectIf (base + 2 + tableWords > p.prog.length)
    s!"parser-core corridor: state {state} dispatch table overruns the stream"
  let populated ← p.validateTable state shape (dispatchTable p.prog base)
  let held := (p.keySets.getD setID.toNat []).length
  rejectIf (populated ≠ held)
    s!"parser-core corridor: state {state} has {populated} table entries but key set {setID} holds {held} keys"

/- The stream is well formed. -/
def validate : Except String Unit := do
  rejectIf (p.prog.length = 0 ∨ wordAt p.prog 0 ≠ Opcode.halt.code)
    "parser-core corridor: stream is missing its halt guard"
  rejectIf (p.stateBlockOffset.length ≠ p.states)
    "parser-core corridor: state block index width mismatch"
  (List.range p.states).forM p.validateState

end CorridorProgram

-- Compilation

/- Emit the stream of the classified states. -/
def emitProgram (compiled : CompileState) (bodyOffsets blockOffsets : List UInt32)
    (words : UInt32) : Except String (List UInt32) := do
  let prog := List.replicate words.toNat 0
  let prog := prog.set 0 Opcode.halt.code
  let prog ← (bodyOffsets.zip compiled.pool).foldlM (fun prog p =>
      emitBody blockOffsets prog p.1.toNat p.2)
      prog
  (blockOffsets.zip compiled.blocks).foldlM (fun prog p =>
      emitBlock bodyOffsets prog p.1.toNat p.2)
    prog

/- Compile the tables of a language. -/
def compileParserCoreCorridorProgram (gates : CorridorGates) (lang : Language) :
    Except String CorridorProgram := do
  let t ← newCorridorTables lang gates
  let compiled ← compileStates t {} ((List.range t.stateCount).map UInt32.ofNat)
  let bodies := layoutBodies 1 compiled.pool
  let blocks ← layoutBlocks bodies.2 compiled.blocks
  let prog ← emitProgram compiled bodies.1 blocks.1 blocks.2
  let program : CorridorProgram :=
    { prog := prog
      stateBlockOffset := blocks.1
      keySets := compiled.keySets
      stateSetID := compiled.blocks.map StateBlock.setID
      stateFlags := compiled.blocks.map StateBlock.flags
      states := t.stateCount
      tokenCount := t.tokenCount
      rowCount := lang.parseActions.length
      grammar := lang.name }
  program.validate
  return program

-- Decoding

/- The decoded form of one compiled cell. -/
structure DecodedCell where
  state : StateID
  symbol : Symbol
  opcode : String
  targetState : StateID := 0
  selfLoop : Bool := false
  productionID : UInt16 := 0
  lhs : Symbol := 0
  childCount : UInt8 := 0
  gotoMode : String := ""
  rowIndex : UInt32 := 0
  chainRowIndex : UInt32 := 0
  shiftRowIndex : UInt32 := 0
  reason : String := ""
  deriving DecidableEq

namespace CorridorProgram

/- Decode the body at an offset, for a cell. -/
def decodeBody (p : CorridorProgram) (state : StateID) (sym : Symbol) (body : Nat) : DecodedCell :=
  let word := wordAt p.prog body
  let op := word &&& Opcode.mask
  let cell : DecodedCell :=
    { state := state
      symbol := sym
      opcode := Opcode.nameOfCode op }
  match Opcode.ofCode op with
  | some .shift =>
    { cell with
      targetState := p.blockState (word >>> 6)
      rowIndex := wordAt p.prog (body + 1) }
  | some .shiftExtra =>
    let selfLoop := decide ((word >>> 6) &&& 1 = 1)
    { cell with
      selfLoop := selfLoop
      targetState :=
        if selfLoop then
          state
        else
          p.blockState (word >>> 7)
      rowIndex := wordAt p.prog (body + 1) }
  | some .accept => { cell with rowIndex := wordAt p.prog (body + 1) }
  | some .reduce =>
    let operands := wordAt p.prog (body + 1)
    { cell with
      productionID := (operands &&& 0xFFFF).toUInt16
      lhs := (operands >>> 16).toUInt16
      childCount := ((word >>> 8) &&& 0x3F).toUInt8
      rowIndex := wordAt p.prog (body + 2)
      gotoMode :=
        if (word >>> 6) &&& 0x3 = gotoModeStatic then
          "static"
        else
          "indexed" }
  | some .reduceChain =>
    { cell with
      targetState := p.blockState (word >>> 6)
      rowIndex := wordAt p.prog (body + 1)
      chainRowIndex := wordAt p.prog (body + 2) }
  | some .reduceShift =>
    { cell with
      targetState := p.blockState (word >>> 6)
      rowIndex := wordAt p.prog (body + 1)
      shiftRowIndex := wordAt p.prog (body + 2) }
  | some .fork =>
    { cell with
      rowIndex := word >>> 6
      reason := ExitReason.conflictRow.name }
  | some .exitGeneric =>
    { cell with
      reason := ExitReason.nameOfCode (word >>> 6) }
  | some .exitUnsupported =>
    { cell with
      reason := ExitReason.nameOfCode (word >>> 6) }
  | _ => cell

/- Decode the compiled disposition of a cell, if any. -/
def decodeCell (p : CorridorProgram) (state : StateID) (sym : Symbol) : Option DecodedCell :=
  match p.stateBlockOffset[state.toNat]? with
  | none => none
  | some base =>
    let body := corridorDispatch p.prog base.toNat sym
    if body = 0 then
      none
    else
      some (p.decodeBody state sym body.toNat)

end CorridorProgram

end GoTreeSitter
