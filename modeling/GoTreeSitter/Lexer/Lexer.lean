import GoTreeSitter.Source.Point
import GoTreeSitter.Text.Utf8

/-
  The table-driven lexer over a contiguous source and over included ranges.

  Key definitions include:
    * `LexTables`
    * `Lexer`
    * `Lexer.scanContiguous`
    * `LexerView`

  The lexer has two scanners with the same loop. They differ in how they read, advance and mark
  positions, which is what `CursorOps` collects. The loop around the scans is the same for both,
  too. A view has what it asks of the two: where a cursor is, how to scan from it and how to move
  it.
-/

-- Lexer Tables

namespace GoTreeSitter

/- A transition on an inclusive range of runes. -/
structure LexTransition where
  lo : Int
  hi : Int
  nextState : Int
  skip : Bool

/-
  A state of the lexer: the token it accepts, if nonzero,
  and where it goes on by default, at the end, and on runes.
-/
structure LexState where
  acceptToken : UInt16
  acceptPriority : Int
  skip : Bool
  defaultState : Int
  eofState : Int
  transitions : List LexTransition

/- The tables a scan reads. -/
structure LexTables where
  states : List LexState
  asciiTable : List (List Int32)
  immediateTokens : List Bool
  zeroWidthTokens : List Bool

/- The entry of the byte table without a transition. -/
def lexAsciiNoMatch : Int32 := 0x7FFFFFFF

/- The sign bit marks skipping entries of the byte table. -/
def lexAsciiSkipBit : Int32 := Int32.minValue

namespace LexTables

variable (t : LexTables) (curState : Int32)

/- The state record of a state number, if there is one. -/
def state? : Option LexState :=
  if curState < 0 then
    none
  else
    t.states[curState.toInt.toNat]?

/- The token must directly follow the previous one. -/
def isImmediate (token : UInt16) : Bool :=
  decide (token > 0) && (t.immediateTokens[token.toNat]?).getD false

/- The token may be empty. -/
def allowsZeroWidthToken (token : UInt16) : Bool :=
  if t.zeroWidthTokens = [] then
    true
  else
    (t.zeroWidthTokens[token.toNat]?).getD false

/- The table entry or transition that matches a rune. -/
def matchedState (st : LexState) (b : UInt8) (r : Nat) : Int32 × Bool :=
  if b < 0x80 ∧ curState.toInt < t.asciiTable.length then
    let row := t.asciiTable.getD curState.toInt.toNat []
    let v := row.getD b.toNat lexAsciiNoMatch
    if v ≠ lexAsciiNoMatch then
      (v &&& ~~~ lexAsciiSkipBit, v &&& lexAsciiSkipBit ≠ 0)
    else
      (-1, false)
  else
    match st.transitions.find? (fun tr => decide (tr.lo ≤ (r : Int)) &&
        decide ((r : Int) ≤ tr.hi)) with
    | some tr => (Int32.ofInt tr.nextState, tr.skip)
    | none => (-1, false)

/- The next state and whether the rune is skipped. Default transitions do not skip. -/
def nextState (st : LexState) (b : UInt8) (r : Nat) : Option (Int32 × Bool) :=
  let matched := t.matchedState curState st b r
  let next :=
    if matched.1 < 0 ∧ st.defaultState ≥ 0 then
      (Int32.ofInt st.defaultState, false)
    else
      matched
  if next.1 < 0 then
    none
  else
    some next

end LexTables

-- The Scan Loop

/-
  How a scanner reads its input: where a cursor is, whether it is at the end, the byte and the rune
  under it, the cursor behind that rune, and where a token that stops at the cursor ends.
-/
structure CursorOps (κ : Type) where
  pos : κ → Nat
  atEnd : κ → Bool
  peek : κ → UInt8 × Nat
  advance : κ → Option κ
  markEnd : κ → Nat × Point

/- The last accepted match. -/
structure Accept (κ : Type) where
  progressPos : Nat
  pos : Nat
  point : Point
  cursor : κ
  start : κ
  symbol : UInt16
  skip : Bool

/- The variables of the scan loop. -/
structure ScanState (κ : Type) where
  curState : Int32
  cursor : κ
  tokenStart : κ
  skippedPrefix : Bool
  accept : Option (Accept κ)
  acceptPriorityBest : Int
  eofHops : Nat

variable (ops : CursorOps κ) (t : LexTables) (startPos : Nat) (s : ScanState κ)

namespace ScanState

variable {κ : Type}

/- The match that ends at the current cursor. -/
def acceptHere (ops : CursorOps κ) (s : ScanState κ) (symbol : UInt16) (skip : Bool) :
    Accept κ where
  progressPos := ops.pos s.cursor
  pos := (ops.markEnd s.cursor).1
  point := (ops.markEnd s.cursor).2
  cursor := s.cursor
  start := s.tokenStart
  symbol := symbol
  skip := skip

/- The accepting state may be used at the cursor. -/
def acceptable (st : LexState) : Bool :=
  let skippedWhitespace := decide (ops.pos s.tokenStart > startPos)
  let zeroWidthVisible := decide (st.acceptToken > 0) && decide (ops.pos s.cursor = ops.pos
      s.tokenStart) && ! t.allowsZeroWidthToken st.acceptToken
  ! (t.isImmediate st.acceptToken && skippedWhitespace) && ! zeroWidthVisible

/- The match at the cursor is better than the last one. -/
def betterAccept (st : LexState) : Bool :=
  match s.accept with
  | none => true
  | some a =>
    decide (st.acceptPriority < s.acceptPriorityBest) || (decide (st.acceptPriority =
      s.acceptPriorityBest) && decide (ops.pos s.cursor > a.progressPos))

/- Record the match at the cursor if there is one. -/
def considerAccept (ops : CursorOps κ) (t : LexTables) (startPos : Nat) (s : ScanState κ)
    (st : LexState) : ScanState κ :=
  if (decide (st.acceptToken > 0) || st.skip) && s.acceptable ops t startPos st &&
      s.betterAccept ops st then
    { s with
      accept := some (s.acceptHere ops st.acceptToken st.skip)
      acceptPriorityBest := st.acceptPriority }
  else
    s

/- Consume a rune; a skipped one restarts the token. -/
def consume (s : ScanState κ) (cursor : κ) (nextState : Int32) (skip : Bool) : ScanState κ :=
  if skip then
    { s with
      curState := nextState
      cursor := cursor
      skippedPrefix := true
      tokenStart := cursor
      accept := none
      eofHops := 0 }
  else
    { s with
      curState := nextState
      cursor := cursor
      eofHops := 0 }

/- One turn of the loop: either the state in which the loop stops, or the state of the next turn. -/
def step (ops : CursorOps κ) (t : LexTables) (startPos : Nat) (s : ScanState κ) :
    ScanState κ ⊕ ScanState κ :=
  match t.state? s.curState with
  | none => .inl s
  | some st =>
    let s := s.considerAccept ops t startPos st
    if ops.atEnd s.cursor then
      if st.eofState ≥ 0 ∧ s.eofHops ≤ t.states.length then
        .inr { s with
          curState := Int32.ofInt st.eofState
          eofHops := s.eofHops + 1 }
      else
        .inl s
    else
      let read := ops.peek s.cursor
      match t.nextState s.curState st read.1 read.2 with
      | none => .inl { s with eofHops := 0 }
      | some (next, skip) =>
        match ops.advance s.cursor with
        | none => .inl { s with eofHops := 0 }
        | some cursor => .inr (s.consume cursor next skip)

/-
  The end of the scan: a walk that reached the end of the
  input without a match is accepted as a skip.
-/
def finish (ops : CursorOps κ) (s : ScanState κ) : ScanState κ :=
  if s.accept.isNone ∧ s.eofHops > 0 then
    { s with accept := some (s.acceptHere ops 0 true) }
  else
    s

end ScanState

variable {κ : Type}

/- The scan loop for at most `fuel` turns. -/
def scanLoop (ops : CursorOps κ) (t : LexTables) (startPos : Nat) :
    Nat → ScanState κ → Option (ScanState κ)
| 0, _ => none
| fuel + 1, s =>
  match s.step ops t startPos with
  | .inl final => some final
  | .inr next => scanLoop ops t startPos fuel next

/-
  What a scan leaves behind: a match with the mark that a
  prefix was skipped, or the start of the failed token.
-/
inductive ScanOutcome (κ : Type) where
  | accepted (accept : Accept κ) (skippedPrefix : Bool)
  | failed (tokenStart : Option κ)

/- The loop variables at the start of a scan. -/
def ScanState.initial (startState : UInt32) (start : κ) : ScanState κ where
  curState := startState.toInt32
  cursor := start
  tokenStart := start
  skippedPrefix := false
  accept := none
  acceptPriorityBest := 32767
  eofHops := 0

/- The outcome of the state in which the loop stopped. -/
def ScanState.outcome (ops : CursorOps κ) (s : ScanState κ) : ScanOutcome κ :=
  match (s.finish ops).accept with
  | some a => .accepted a s.skippedPrefix
  | none => .failed (some s.tokenStart)

/- Scan one token from a cursor. -/
def scan (ops : CursorOps κ) (t : LexTables) (fuel : Nat) (startState : UInt32) (start : κ) :
    Option (ScanOutcome κ) :=
  if (t.state? startState.toInt32).isNone then
    some (.failed none)
  else
    (scanLoop ops t (ops.pos start) fuel (ScanState.initial startState start)).map
      (ScanState.outcome ops)

-- Lexers and Tokens

/- A byte range of the source with its end points. -/
structure SourceRange where
  startByte : UInt32
  endByte : UInt32
  startPoint : Point
  endPoint : Point
deriving DecidableEq

/- The tables, the source and the ranges to be lexed. -/
structure Lexer where
  tables : LexTables
  source : Source
  includedRanges : List SourceRange
  includedRangeIdx : Nat

/- A lexed token. -/
structure Token where
  symbol : UInt16
  text : Source
  startByte : UInt32
  endByte : UInt32
  startPoint : Point
  endPoint : Point
  lexerSkippedPrefix : Bool
  lexerSkippedPrefixStart : UInt32
  lexerInternalDFALexed : Bool
deriving DecidableEq

/- The point after reading bytes from a point. -/
def advancePointByBytes (start : Point) (b : Source) : Point :=
  if b.length < 256 then
    b.foldl (fun p c =>
        if c = newline then
          ⟨p.row + 1, 0⟩
        else
          ⟨p.row, p.column + 1⟩)
      start
  else if newline ∉ b then
    { start with
      column := start.column + UInt32.ofNat b.length }
  else
    { row := start.row + UInt32.ofNat (b.count newline)
      column := UInt32.ofNat
        (b.reverse.takeWhile (· ≠ newline)).length }

/- Move a row and a column over a rune. -/
def advanceRune (row col : UInt32) (r size : Nat) : UInt32 × UInt32 :=
  if r = newline.toNat then
    (row + 1, 0)
  else
    (row, col + UInt32.ofNat size)

-- Contiguous Scanning

/- A position in a contiguous source. -/
structure LexerCursor where
  pos : Nat
  row : UInt32
  col : UInt32
deriving DecidableEq

namespace Lexer

/- Reading a contiguous source. -/
def contiguousOps (source : Source) : CursorOps LexerCursor where
  pos := LexerCursor.pos
  atEnd := fun c => decide (c.pos ≥ source.length)
  peek := fun c =>
    (source.getD c.pos 0, (Text.decodeRune (source.drop c.pos)).1)
  advance := fun c =>
    let read := Text.decodeRune (source.drop c.pos)
    let point := advanceRune c.row c.col read.1 read.2
    some ⟨c.pos + read.2, point.1, point.2⟩
  markEnd := fun c => (c.pos, ⟨c.row, c.col⟩)

/-
  Enough turns of the loop: each turn reads a rune or is one
  of the bounded turns at the end of the source.
-/
def scanFuel (l : Lexer) : Nat := l.source.length + l.tables.states.length + 3

/- The token of a match. -/
def tokenOf {κ : Type} (startPos : Nat) (pos : κ → Nat) (point : κ → Point)
    (text : Nat → Nat → Source) (a : Accept κ) (skippedPrefix : Bool) : Token where
  symbol := if a.skip then 0 else a.symbol
  text := if a.skip then [] else text (pos a.start) a.pos
  startByte := UInt32.ofNat (pos a.start)
  endByte := UInt32.ofNat a.pos
  startPoint := point a.start
  endPoint := a.point
  lexerSkippedPrefix := skippedPrefix
  lexerSkippedPrefixStart := UInt32.ofNat startPos
  lexerInternalDFALexed := ! a.skip

/-
  The result of a scan with the cursor the lexer moves to, or the start of the token that failed.
-/
inductive ScanResult (κ : Type) where
  | token (token : Token) (cursor : κ)
  | failed (tokenStart : Option κ)

/- Scan one token of a contiguous source. -/
def scanContiguous (l : Lexer) (startState : UInt32) (start : LexerCursor) :
    Option (ScanResult LexerCursor) :=
  (scan (contiguousOps l.source) l.tables l.scanFuel startState start).map (fun outcome =>
    match outcome with
    | .accepted a skippedPrefix =>
      .token (tokenOf start.pos LexerCursor.pos (fun c => ⟨c.row, c.col⟩) (Text.slice l.source) a
          skippedPrefix) ⟨a.pos, a.point.row, a.point.column⟩
    | .failed tokenStart => .failed tokenStart)

end Lexer

-- Included Ranges

/- A position together with the index of its range. -/
structure IncludedLexerCursor where
  pos : Nat
  row : UInt32
  col : UInt32
  rangeIdx : Nat
deriving DecidableEq

namespace Lexer

variable (l : Lexer) (cursor : IncludedLexerCursor)

/- The bounds of a range, cut at the end of the source. -/
def rangeBounds (r : SourceRange) : Nat × Nat := (min r.startByte.toNat l.source.length,
    min r.endByte.toNat l.source.length)

/- The bounds of the range with an index. -/
def includedRangeBounds (index : Nat) : Nat × Nat :=
  match l.includedRanges[index]? with
  | none => (0, 0)
  | some r => l.rangeBounds r

/- The end of the last range that is not empty. -/
def includedEOFPosition : Nat × Point :=
  match l.includedRanges.reverse.find? (fun r =>
      decide ((l.rangeBounds r).1 < (l.rangeBounds r).2)) with
  | some last =>
    if last.endByte.toNat ≤ l.source.length then
      ((l.rangeBounds last).2, last.endPoint)
    else
      (l.source.length, advancePointByBytes ⟨0, 0⟩ l.source)
  | none => (l.source.length, advancePointByBytes ⟨0, 0⟩ l.source)

/- Move into the first of the remaining ranges that fits. -/
def seekIncluded : List SourceRange → Nat → IncludedLexerCursor
| [], index =>
  let eof := l.includedEOFPosition
  ⟨eof.1, eof.2.row, eof.2.column, index⟩
| r :: rest, index =>
  let bounds := l.rangeBounds r
  if bounds.2 ≤ bounds.1 then
    seekIncluded rest (index + 1)
  else if cursor.pos < bounds.1 then
    ⟨bounds.1, r.startPoint.row, r.startPoint.column, index⟩
  else if cursor.pos < bounds.2 then
    { cursor with rangeIdx := index }
  else
    seekIncluded rest (index + 1)

/- The index the search for a range starts from. -/
def seekIndex : Nat :=
  if cursor.rangeIdx > l.includedRanges.length then
    0
  else if cursor.rangeIdx > 0 ∧ cursor.pos < (l.includedRangeBounds (cursor.rangeIdx - 1)).2 then
    0
  else
    cursor.rangeIdx

/- Move a cursor into an included range. -/
def normalizeIncludedCursor : IncludedLexerCursor :=
  if l.includedRanges = [] then
    cursor
  else
    let index := l.seekIndex cursor
    l.seekIncluded cursor (l.includedRanges.drop index) index

/- The included bytes from a cursor to its range's end. -/
def includedRest : Source :=
  Text.slice l.source cursor.pos (l.includedRangeBounds cursor.rangeIdx).2

/- Read a rune; the cursor leaves a range at its end. -/
def advanceIncludedCursor : Option IncludedLexerCursor :=
  let cursor := l.normalizeIncludedCursor cursor
  let stop := (l.includedRangeBounds cursor.rangeIdx).2
  if cursor.rangeIdx ≥ l.includedRanges.length then
    none
  else if cursor.pos ≥ stop then
    none
  else
    let read := Text.decodeRune (l.includedRest cursor)
    let point := advanceRune cursor.row cursor.col read.1 read.2
    let moved : IncludedLexerCursor := ⟨cursor.pos + read.2, point.1, point.2, cursor.rangeIdx⟩
    if moved.pos ≥ stop then
      some (l.normalizeIncludedCursor { moved with rangeIdx := moved.rangeIdx + 1 })
    else
      some moved

/- A token that stops at a gap ends in front of it. -/
def includedMarkEnd : Nat × Point :=
  let here : Nat × Point := (cursor.pos, ⟨cursor.row, cursor.col⟩)
  if cursor.rangeIdx > 0 ∧ cursor.rangeIdx < l.includedRanges.length ∧
      cursor.pos = (l.includedRangeBounds cursor.rangeIdx).1 then
    match l.includedRanges[cursor.rangeIdx - 1]? with
    | none => here
    | some previous =>
      let previousEnd := (l.rangeBounds previous).2
      if previous.endByte.toNat ≤ l.source.length then
        (previousEnd, previous.endPoint)
      else
        (previousEnd, advancePointByBytes ⟨0, 0⟩ (l.source.take previousEnd))
  else
    here

/- The text between two positions, without the gaps. -/
def tokenText (start stop : Nat) : Source :=
  if start ≥ stop then
    []
  else if l.includedRanges = [] then
    Text.slice l.source start stop
  else
    l.includedRanges.flatMap (fun r =>
      Text.slice l.source (max start (l.rangeBounds r).1) (min stop (l.rangeBounds r).2))

/- Reading the included ranges of a source. -/
def includedOps : CursorOps IncludedLexerCursor where
  pos := IncludedLexerCursor.pos
  atEnd := fun c =>
    decide (c.rangeIdx ≥ l.includedRanges.length)
  peek := fun c =>
    (l.source.getD c.pos 0, (Text.decodeRune (l.includedRest c)).1)
  advance := l.advanceIncludedCursor
  markEnd := l.includedMarkEnd

/- Scan one token of the included ranges. -/
def scanIncluded (startState : UInt32) (start : LexerCursor) :
    Option (ScanResult IncludedLexerCursor) :=
  let start := l.normalizeIncludedCursor ⟨start.pos, start.row, start.col, l.includedRangeIdx⟩
  (scan l.includedOps l.tables l.scanFuel startState start).map (fun outcome =>
    match outcome with
    | .accepted a skippedPrefix =>
      .token (tokenOf start.pos IncludedLexerCursor.pos (fun c => ⟨c.row, c.col⟩) l.tokenText a
          skippedPrefix) ⟨a.pos, a.point.row, a.point.column, a.cursor.rangeIdx⟩
    | .failed tokenStart => .failed tokenStart)

end Lexer

-- The Loop

structure LexerView (κ : Type) where
  pos : κ → Nat
  point : κ → Point
  atLogicalEOF : κ → Bool
  normalizeIncludedPosition : κ → κ
  skipLeadingBOM : κ → κ
  skipOneRune : κ → κ
  scan : UInt32 → κ → Option (Lexer.ScanResult κ)
  tokenText : Nat → Nat → Source
  sourceLength : Nat

/- The lexer state that is tried before bytes are dropped. -/
structure ErrorRuns where
  lexState : UInt32
  errorModeRetry : Bool

namespace LexerView

/- The symbol of a run of bytes that cannot be lexed. -/
def errorSymbol : UInt16 := 65535

variable {κ : Type} (v : LexerView κ) (lexState : UInt32) (c : κ) (startState : UInt32)
  (errors : Option ErrorRuns)

/- A token between two cursors that no scan has found. -/
def plainToken (symbol : UInt16) (text : Source) (start stop : κ) : Token where
  symbol := symbol
  text := text
  startByte := UInt32.ofNat (v.pos start)
  endByte := UInt32.ofNat (v.pos stop)
  startPoint := v.point start
  endPoint := v.point stop
  lexerSkippedPrefix := false
  lexerSkippedPrefixStart := 0
  lexerInternalDFALexed := false

def eofToken : Token := v.plainToken 0 [] c c

/- Whether a scan finds a token. The cursor stays, and the start of a failed token is remembered. -/
def canLexAt (fail : κ) : Option (Bool × κ) :=
  (v.scan lexState c).map fun result =>
    match result with
    | .token _ _ => (true, fail)
    | .failed tokenStart => (false, tokenStart.getD fail)

/- Runes are dropped up to one that can be lexed. -/
def errorRunLoop : Nat → κ → κ → Option (κ × κ)
  | 0, _, _ => none
  | fuel + 1, c, fail =>
    if v.atLogicalEOF c then some (c, fail)
    else
      match v.canLexAt lexState c fail with
      | none => none
      | some (true, fail) => some (c, fail)
      | some (false, fail) => errorRunLoop fuel (v.skipOneRune c) fail

/- The start of the run is that of the last failed token. -/
def errorRunToken (fuel : Nat) (c fail : κ) : Option (Token × κ × κ) :=
  let start := v.normalizeIncludedPosition (if v.pos fail > v.pos c ∧ v.pos fail ≤ v.sourceLength
      then fail else c)
  if v.atLogicalEOF start then
    some (v.eofToken start, start, fail)
  else
    (v.errorRunLoop lexState fuel (v.skipOneRune start) fail).map fun (stop, fail) =>
        (v.plainToken errorSymbol (v.tokenText (v.pos start) (v.pos stop)) start stop, stop, fail)

/-
  The loop of a call, with what is done instead when a scan
  fails and the state for errors is to be tried.
-/
def nextLoop (retry : κ → Option (Token × κ × κ)) (callStart : κ) (size : Nat) :
    Nat → Bool → κ → κ → Option (Token × κ × κ)
  | 0, _, _, _ => none
  | fuel + 1, skippedPrefix, c, fail =>
    let goOn := nextLoop retry callStart size fuel
    if v.atLogicalEOF c then some (v.eofToken c, c, fail)
    else
      match v.scan startState c with
      | none => none
      | some (.token tok moved) =>
        if tok.symbol = 0 then
          -- A skip that has not moved must not be repeated.
          if v.pos moved ≤ v.pos c then
            goOn false (v.skipOneRune moved) fail
          else goOn true moved fail
        else if skippedPrefix then
          some ({ tok with
            lexerSkippedPrefix := true
            lexerSkippedPrefixStart := UInt32.ofNat (v.pos callStart) }, moved, fail)
        else some (tok, moved, fail)
      | some (.failed tokenStart) =>
        let fail := tokenStart.getD fail
        match errors with
        | none => goOn false (v.skipOneRune c) fail
        | some e =>
          if e.errorModeRetry ∧ startState ≠ e.lexState then
            retry fail
          else
            match v.canLexAt e.lexState c fail with
            | none => none
            | some (false, fail) => v.errorRunToken e.lexState size c fail
            | some (true, fail) => goOn false (v.skipOneRune c) fail

/- The loop from a cursor that is moved into a range. -/
def nextFrom (retry : κ → κ → Option (Token × κ × κ)) (size : Nat) (c fail : κ) :
    Option (Token × κ × κ) :=
  let start := v.skipLeadingBOM (v.normalizeIncludedPosition c)
  v.nextLoop startState errors (retry start) start size size false start fail

/-
  A call of the lexer, with error runs or without: the token and the cursors after it. A retry is
  made in the state for errors, which does not retry again.
-/
def next (size : Nat) (c fail : κ) : Option (Token × κ × κ) :=
  v.nextFrom startState errors (fun start fail =>
      match errors with
      | none => none
      | some e => v.nextFrom e.lexState errors (fun _ _ => none) size start fail)
    size c fail

end LexerView

-- The Two Views

namespace Lexer

end Lexer

end GoTreeSitter
