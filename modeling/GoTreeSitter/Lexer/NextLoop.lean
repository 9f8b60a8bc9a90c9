import GoTreeSitter.Lexer.ScanSimulation

/-
  The loop of the lexer over cursors that move forward.

  Main declarations:
    * `LexTables.Reached`
    * `Accept.Sound`
    * `LexerView.Moves.next_spec`
    * `LexerView.Moves.inOrder_iff`

  What a scan accepts is known from one turn of its loop. A view whose cursors move forward then
  returns from every call.
-/

-- Accepted Matches

namespace GoTreeSitter

namespace LexTables

/- The states of a scan from a start state, and whether the token has no bytes yet. -/
inductive Reached (t : LexTables) (startState : UInt32) : Bool → Int32 → Prop
  | start : Reached t startState true startState.toInt32
  | read {empty skip : Bool} {curState next : Int32} {st : LexState} {b : UInt8} {r : Nat}
      (hReached : Reached t startState empty curState)
      (hState : t.state? curState = some st)
      (hNext : t.nextState curState st b r = some (next, skip)) :
      Reached t startState skip next
  | eof {empty : Bool} {curState : Int32} {st : LexState}
      (hReached : Reached t startState empty curState)
      (hState : t.state? curState = some st)
      (hEof : st.eofState ≥ 0) :
      Reached t startState empty (Int32.ofInt st.eofState)

/- A token that may be empty is accepted where a scan has read no byte of it. -/
def AcceptsEmpty (t : LexTables) (startState : UInt32) (symbol : UInt16) : Prop :=
  t.allowsZeroWidthToken symbol = true ∧ ∃ (curState : Int32) (st : LexState),
    t.Reached startState true curState ∧ t.state? curState = some st ∧ st.skip = false ∧
      0 < st.acceptToken ∧ st.acceptToken = symbol

end LexTables

variable {κ : Type} (ops : CursorOps κ) (Ok : κ → Prop) (t : LexTables) (startState : UInt32)
  (start : κ)

/- What is known of a match of a scan. -/
structure Accept.Sound (a : Accept κ) : Prop where
  start_ok : Ok a.start
  cursor_ok : Ok a.cursor
  from_start : ops.pos start ≤ ops.pos a.start
  order : ops.pos a.start ≤ ops.pos a.cursor
  pos_eq : a.pos = (ops.markEnd a.cursor).1
  empty : a.skip = false → ops.pos a.start = ops.pos a.cursor →
      t.AcceptsEmpty startState a.symbol

/- What is known of the variables of the loop. -/
structure ScanState.Sound (s : ScanState κ) : Prop where
  start_ok : Ok s.tokenStart
  cursor_ok : Ok s.cursor
  from_start : ops.pos start ≤ ops.pos s.tokenStart
  order : ops.pos s.tokenStart ≤ ops.pos s.cursor
  reached : t.Reached startState (ops.pos s.tokenStart = ops.pos s.cursor) s.curState
  accept : ∀ a : Accept κ, s.accept = some a → a.Sound ops Ok t startState start

variable {ops Ok t startState start} {s : ScanState κ}

/- Accepting changes no state. -/
lemma curState_considerAccept (ops : CursorOps κ) (t : LexTables) (s : ScanState κ)
    (st : LexState) (startPos : Nat) :
    (s.considerAccept ops t startPos st).curState = s.curState := by
  unfold ScanState.considerAccept
  split <;> rfl

lemma ScanState.Sound.considerAccept
    {st : LexState}
    (hs : s.Sound ops Ok t startState start)
    (hState : t.state? s.curState = some st) :
    (s.considerAccept ops t (ops.pos start) st).Sound ops Ok t startState start := by
  unfold ScanState.considerAccept
  split_ifs with hUsed
  · refine ⟨hs.start_ok, hs.cursor_ok, hs.from_start, hs.order, hs.reached, ?_⟩
    rintro a hAccept
    cases hAccept
    refine ⟨hs.start_ok, hs.cursor_ok, hs.from_start, hs.order, rfl, ?_⟩
    intro hSkip hEmpty
    change st.skip = false at hSkip
    change ops.pos s.tokenStart = ops.pos s.cursor at hEmpty
    -- The token is visible, so an empty one is allowed.
    simp only [hSkip, Bool.or_false, Bool.and_eq_true, decide_eq_true_eq, ScanState.acceptable,
      hEmpty, Bool.not_eq_true', Bool.and_eq_false_iff, decide_eq_false_iff_not, not_true, or_false,
      Bool.not_eq_false'] at hUsed
    have hReached := hs.reached
    rw [decide_eq_true hEmpty] at hReached
    refine ⟨hUsed.1.2.2.resolve_left fun h => h hUsed.1.1, s.curState, st, hReached, hState, ?_⟩
    exact ⟨hSkip, hUsed.1.1, rfl⟩
  · exact hs

/- A rune is read, and restarts the token if it is skipped. -/
lemma ScanState.Sound.consume
    (hs : s.Sound ops Ok t startState start)
    {cursor : κ}
    (hOk : Ok cursor)
    (hMoved : ops.pos s.cursor < ops.pos cursor)
    {next : Int32}
    {skip : Bool}
    (hNext : t.Reached startState skip next) :
    (s.consume cursor next skip).Sound ops Ok t startState start := by
  have hOrder := hs.order
  have hFrom := hs.from_start
  cases skip with
  | true =>
    refine ⟨hOk, hOk, ?_, le_rfl, ?_, fun a h => by cases h⟩
    · exact hFrom.trans (hOrder.trans hMoved.le)
    · exact (decide_eq_true (rfl : ops.pos cursor = ops.pos cursor)).symm ▸ hNext
  | false =>
    refine ⟨hs.start_ok, hOk, hFrom, hOrder.trans hMoved.le, ?_, hs.accept⟩
    have hBytes : ¬ ops.pos s.tokenStart = ops.pos cursor := by omega
    exact (decide_eq_false hBytes).symm ▸ hNext

variable (hAdvance : ∀ c c' : κ, Ok c → ops.atEnd c = false → ops.advance c = some c' → Ok c' ∧
  ops.pos c < ops.pos c')

include hAdvance

/- One turn of the loop. -/
lemma ScanState.Sound.step (hs : s.Sound ops Ok t startState start) :
    Sum.elim (ScanState.Sound ops Ok t startState start)
      (ScanState.Sound ops Ok t startState start) (s.step ops t (ops.pos start)) := by
  unfold ScanState.step
  cases hState : t.state? s.curState with
  | none => exact hs
  | some st =>
    have hNow := hs.considerAccept hState
    have hSame := curState_considerAccept ops t s st (ops.pos start)
    dsimp only
    generalize s.considerAccept ops t (ops.pos start) st = now at hNow hSame ⊢
    rw [← hSame] at hState
    have hStopped : ({ now with eofHops := 0 } : ScanState κ).Sound ops Ok t startState start :=
      ⟨hNow.1, hNow.2, hNow.3, hNow.4, hNow.5, hNow.6⟩
    cases hEnd : ops.atEnd now.cursor with
    | true =>
      simp only [if_true]
      split
      · rename_i hHop
        exact ⟨hNow.1, hNow.2, hNow.3, hNow.4, .eof hNow.5 hState hHop.1, hNow.6⟩
      · exact hNow
    | false =>
      simp only [Bool.false_eq_true, if_false]
      split
      · exact hStopped
      rename_i next skip hRead
      split
      · exact hStopped
      rename_i cursor hMoved
      obtain ⟨hOk, hLess⟩ := hAdvance _ _ hNow.cursor_ok hEnd hMoved
      exact hNow.consume hOk hLess (.read hNow.reached hState hRead)

end GoTreeSitter

-- Views that Move Forward

namespace GoTreeSitter.LexerView

variable {κ : Type} (v : LexerView κ)

/- Where a cursor is once it is moved into a range. -/
def place (c : κ) : Nat := v.pos (v.normalizeIncludedPosition c)

/-
  The end of the input, a token with bytes, or one that a scan of the call accepts without any.
  Error runs scan in a state of their own as well.
-/
def Fits (t : LexTables) (startState : UInt32) (errors : Option ErrorRuns) (tok : Token) : Prop :=
  tok.symbol = 0 ∧ tok.startByte = tok.endByte ∨ tok.startByte < tok.endByte ∨
    ∃ lexState : UInt32, (lexState = startState ∨ ∃ e ∈ errors, lexState = e.lexState) ∧
      t.AcceptsEmpty lexState tok.symbol

/-
  The cursors of a lexer move forward, from one at which a mark can be skipped safely. A token that
  is pulled back ends before its start.
-/
structure Moves (t : LexTables) (Pulled : Token → Prop) (Safe Live : κ → Prop) : Prop where
  short : v.sourceLength < 2 ^ 32
  bound : ∀ c : κ, Live c → v.pos c ≤ v.place c ∧ v.place c ≤ v.sourceLength
  inner : ∀ c : κ, Live c → v.atLogicalEOF c = false → v.place c < v.sourceLength
  ended : ∀ c : κ, Live c → v.atLogicalEOF c = true → v.pos c = v.place c ∧ v.skipOneRune c = c ∧
    ¬ Pulled (v.eofToken c)
  normalize : ∀ c : κ, v.pos c ≤ v.sourceLength → Live (v.normalizeIncludedPosition c)
  safe : ∀ c c' : κ, Safe c → v.place c ≤ v.place c' → Safe c'
  entry : ∀ c : κ, Safe c → v.pos c ≤ v.sourceLength →
    Live (v.skipLeadingBOM (v.normalizeIncludedPosition c)) ∧
      v.place c ≤ v.place (v.skipLeadingBOM (v.normalizeIncludedPosition c))
  skip : ∀ c : κ, Live c → v.atLogicalEOF c = false →
    Live (v.skipOneRune c) ∧ v.place c < v.pos (v.skipOneRune c)
  scans : ∀ (startState : UInt32) (c : κ), ∃ result, v.scan startState c = some result
  token : ∀ (startState : UInt32) (c : κ) (tok : Token) (moved : κ), Live c →
    v.atLogicalEOF c = false → v.scan startState c = some (.token tok moved) →
    Live moved ∧ v.place c ≤ tok.startByte.toNat ∧ tok.startByte.toNat ≤ v.place moved ∧
      (tok.symbol ≠ 0 → Fits t startState none tok ∧
        (tok.startByte ≤ tok.endByte ↔ ¬ Pulled tok))
  marked : ∀ (tok : Token) (before : UInt32), Pulled { tok with
    lexerSkippedPrefix := true
    lexerSkippedPrefixStart := before } ↔ Pulled tok

variable {v} {t : LexTables} {Pulled : Token → Prop} {Safe Live : κ → Prop} {startState : UInt32}
  {errors : Option ErrorRuns} {c : κ}

/- The tokens of calls in a row. -/
def tokens (v : LexerView κ) : List UInt32 → κ → κ → Option (List Token)
  | [], _, _ => some []
  | startState :: rest, c, fail =>
    match v.next startState none (v.sourceLength + 1) c fail with
    | none => none
    | some (tok, moved, fail) => (tokens v rest moved fail).map (tok :: ·)

namespace Moves

variable (h : v.Moves t Pulled Safe Live)
include h

end Moves

end GoTreeSitter.LexerView
