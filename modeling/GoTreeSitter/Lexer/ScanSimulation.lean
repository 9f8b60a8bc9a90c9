import GoTreeSitter.Lexer.Lexer

/-
  Scans over two inputs that read the same runes.

  Main declarations:
    * `CursorSimulation`
    * `Accept.Rel`
    * `scan_rel`
    * `scanLoop_isSome`

  A simulation relates cursors that read alike and keeps their order. Related scans then stay in
  lock step.
-/

-- Related Scan States

namespace GoTreeSitter

variable {κ κ' : Type}

/- Two ways of reading that agree on related cursors, up to the order of the positions. -/
structure CursorSimulation (ops : CursorOps κ) (ops' : CursorOps κ') (R : κ → κ' → Prop) : Prop
    where
  lt_iff : ∀ {c d : κ} {c' d' : κ'}, R c c' → R d d' →
      (ops.pos c < ops.pos d ↔ ops'.pos c' < ops'.pos d')
  atEnd_eq : ∀ {c : κ} {c' : κ'}, R c c' → ops.atEnd c = ops'.atEnd c'
  peek_eq : ∀ {c : κ} {c' : κ'}, R c c' → ops.atEnd c = false → ops.peek c = ops'.peek c'
  advance_rel : ∀ {c : κ} {c' : κ'}, R c c' → ops.atEnd c = false →
      Option.Rel R (ops.advance c) (ops'.advance c')

/- Matches of the same token at related cursors. -/
structure Accept.Rel (ops : CursorOps κ) (ops' : CursorOps κ') (R : κ → κ' → Prop) (a : Accept κ)
    (a' : Accept κ') : Prop where
  cursor : R a.cursor a'.cursor
  start : R a.start a'.start
  progressPos : a.progressPos = ops.pos a.cursor
  progressPos' : a'.progressPos = ops'.pos a'.cursor
  pos : a.pos = (ops.markEnd a.cursor).1
  pos' : a'.pos = (ops'.markEnd a'.cursor).1
  symbol : a.symbol = a'.symbol
  skip : a.skip = a'.skip

/- Loop states that differ in their cursors only. -/
structure ScanState.Rel (ops : CursorOps κ) (ops' : CursorOps κ') (R : κ → κ' → Prop)
    (s : ScanState κ) (s' : ScanState κ') : Prop where
  curState : s.curState = s'.curState
  cursor : R s.cursor s'.cursor
  tokenStart : R s.tokenStart s'.tokenStart
  skippedPrefix : s.skippedPrefix = s'.skippedPrefix
  accept : Option.Rel (Accept.Rel ops ops' R) s.accept s'.accept
  acceptPriorityBest : s.acceptPriorityBest = s'.acceptPriorityBest
  eofHops : s.eofHops = s'.eofHops

/- Outcomes of the same kind with related contents. -/
inductive ScanOutcome.Rel (ops : CursorOps κ) (ops' : CursorOps κ') (R : κ → κ' → Prop) :
    ScanOutcome κ → ScanOutcome κ' → Prop where
  | accepted {a : Accept κ} {a' : Accept κ'} {skippedPrefix : Bool}
      (hAccept : a.Rel ops ops' R a') :
      Rel ops ops' R (.accepted a skippedPrefix) (.accepted a' skippedPrefix)
  | failed {c : Option κ} {c' : Option κ'} (hStart : Option.Rel R c c') :
      Rel ops ops' R (.failed c) (.failed c')

namespace CursorSimulation

variable {ops : CursorOps κ} {ops' : CursorOps κ'} {R : κ → κ' → Prop}

/- Related cursors are equal together. -/
lemma eq_iff (h : CursorSimulation ops ops' R) {c d : κ} {c' d' : κ'} (hc : R c c') (hd : R d d') :
    ops.pos c = ops.pos d ↔ ops'.pos c' = ops'.pos d' := by
  have hLt := h.lt_iff hc hd
  have hGt := h.lt_iff hd hc
  omega

end CursorSimulation

-- Lock Step

variable {ops : CursorOps κ} {ops' : CursorOps κ'} {R : κ → κ' → Prop} {t : LexTables}

namespace ScanState

variable {s : ScanState κ} {s' : ScanState κ'} {start' : κ'} (hs : s.Rel ops ops' R s')

include hs

/- Matches at related cursors are related. -/
lemma acceptHere_rel (symbol : UInt16) (skip : Bool) :
    (s.acceptHere ops symbol skip).Rel ops ops' R (s'.acceptHere ops' symbol skip) where
  cursor := hs.cursor
  start := hs.tokenStart
  progressPos := rfl
  progressPos' := rfl
  pos := rfl
  pos' := rfl
  symbol := rfl
  skip := rfl

lemma consume_rel {c : κ} {c' : κ'} (hc : R c c') (next : Int32) (skip : Bool) :
    (s.consume c next skip).Rel ops ops' R (s'.consume c' next skip) := by
  cases skip with
  | true =>
    exact
      { curState := rfl
        cursor := hc
        tokenStart := hc
        skippedPrefix := rfl
        accept := Option.Rel.none
        acceptPriorityBest := hs.acceptPriorityBest
        eofHops := rfl }
  | false =>
    exact { hs with
        curState := rfl
        cursor := hc
        eofHops := rfl }

section

variable (h : CursorSimulation ops ops' R)

include h

variable {start : κ}

lemma acceptable_eq (hStart : R start start') (st : LexState) :
    s.acceptable ops t (ops.pos start) st = s'.acceptable ops' t (ops'.pos start') st := by
  have hSkipped := h.lt_iff hStart hs.tokenStart
  have hWidth := h.eq_iff hs.cursor hs.tokenStart
  unfold acceptable
  simp only [gt_iff_lt, decide_eq_decide.mpr hSkipped, decide_eq_decide.mpr hWidth]

lemma betterAccept_eq (st : LexState) : s.betterAccept ops st = s'.betterAccept ops' st := by
  unfold betterAccept
  have hAccept := hs.accept
  cases ha : s.accept with
  | none =>
    cases ha' : s'.accept with
    | none => rfl
    | some a' =>
      rw [ha, ha'] at hAccept
      cases hAccept
  | some a =>
    cases ha' : s'.accept with
    | none =>
      rw [ha, ha'] at hAccept
      cases hAccept
    | some a' =>
      rw [ha, ha'] at hAccept
      cases hAccept with
      | some hRel =>
        have hProgress := h.lt_iff hRel.cursor hs.cursor
        rw [← hRel.progressPos, ← hRel.progressPos'] at hProgress
        simp only [gt_iff_lt, hs.acceptPriorityBest, decide_eq_decide.mpr hProgress]

/- Recording a match keeps states related. -/
lemma considerAccept_rel (hStart : R start start') (st : LexState) :
    (s.considerAccept ops t (ops.pos start) st).Rel ops ops' R
      (s'.considerAccept ops' t (ops'.pos start') st) := by
  unfold considerAccept
  rw [acceptable_eq hs h hStart, betterAccept_eq hs h]
  split
  · exact { hs with
        accept := Option.Rel.some (acceptHere_rel hs _ _)
        acceptPriorityBest := rfl }
  · exact hs

/- One turn of two related loops. -/
lemma step_rel (hStart : R start start') :
    Sum.LiftRel (Rel ops ops' R) (Rel ops ops' R) (s.step ops t (ops.pos start))
      (s'.step ops' t (ops'.pos start')) := by
  unfold step
  rw [← hs.curState]
  cases hState : t.state? s.curState with
  | none => exact Sum.LiftRel.inl hs
  | some st =>
    have hAccept := considerAccept_rel (t := t) hs h hStart st
    dsimp only
    generalize s.considerAccept ops t (ops.pos start) st = r at hAccept ⊢
    generalize s'.considerAccept ops' t (ops'.pos start') st = r' at hAccept ⊢
    rw [← h.atEnd_eq hAccept.cursor, ← hAccept.eofHops, ← hAccept.curState]
    cases hEnd : ops.atEnd r.cursor with
    | true =>
      simp only [if_true]
      split
      · exact Sum.LiftRel.inr { hAccept with
            curState := rfl
            eofHops := rfl }
      · exact Sum.LiftRel.inl hAccept
    | false =>
      have hAdvance := h.advance_rel hAccept.cursor hEnd
      have hReset : ({ r with eofHops := 0 } : ScanState κ).Rel ops ops' R { r' with
          curState := r.curState
          eofHops := 0 } := { hAccept with curState := rfl, eofHops := rfl }
      simp only [Bool.false_eq_true, if_false, ← h.peek_eq hAccept.cursor hEnd]
      cases hNext : t.nextState r.curState st (ops.peek r.cursor).1 (ops.peek r.cursor).2 with
      | none => exact Sum.LiftRel.inl hReset
      | some next =>
        cases hc : ops.advance r.cursor with
        | none =>
          rw [hc] at hAdvance
          cases hc' : ops'.advance r'.cursor with
          | none => exact Sum.LiftRel.inl hReset
          | some c' => simp [hc'] at hAdvance
        | some c =>
          rw [hc] at hAdvance
          cases hc' : ops'.advance r'.cursor with
          | none => simp [hc'] at hAdvance
          | some c' =>
            rw [hc'] at hAdvance
            cases hAdvance with
            | some hRel => exact Sum.LiftRel.inr (consume_rel hAccept hRel _ _)

end

/- The end of two related scans. -/
lemma finish_rel : (s.finish ops).Rel ops ops' R (s'.finish ops') := by
  have hNone : s.accept.isNone = s'.accept.isNone := by
    have hAccept := hs.accept
    cases ha : s.accept <;> cases ha' : s'.accept <;>
      rw [ha, ha'] at hAccept <;> cases hAccept <;> rfl
  unfold finish
  rw [hNone, hs.eofHops]
  split
  · exact { hs with
        accept := Option.Rel.some (acceptHere_rel hs _ _)
        eofHops := rfl }
  · exact hs

end ScanState

lemma scanLoop_rel (h : CursorSimulation ops ops' R) {start : κ} (hStart : R start start')
    (fuel : Nat) {s : ScanState κ} {s' : ScanState κ'} (hs : s.Rel ops ops' R s') :
    Option.Rel (ScanState.Rel ops ops' R) (scanLoop ops t (ops.pos start) fuel s)
      (scanLoop ops' t (ops'.pos start') fuel s') := by
  induction fuel generalizing s s' with
  | zero => exact Option.Rel.none
  | succ fuel ih =>
    have hStep := ScanState.step_rel (t := t) hs h hStart
    unfold scanLoop
    generalize s.step ops t (ops.pos start) = next at hStep ⊢
    generalize s'.step ops' t (ops'.pos start') = next' at hStep ⊢
    cases hStep with
    | inl hFinal => exact Option.Rel.some hFinal
    | inr hNext => exact ih hNext

lemma ScanState.initial_rel (startState : UInt32) {start : κ} (hStart : R start start') :
    (ScanState.initial startState start).Rel ops ops' R (ScanState.initial startState start') where
  curState := rfl
  cursor := hStart
  tokenStart := hStart
  skippedPrefix := rfl
  accept := Option.Rel.none
  acceptPriorityBest := rfl
  eofHops := rfl

lemma ScanState.outcome_rel {s : ScanState κ} {s' : ScanState κ'} (hs : s.Rel ops ops' R s') :
    ScanOutcome.Rel ops ops' R (s.outcome ops) (s'.outcome ops') := by
  have hAccept := (finish_rel hs).accept
  unfold outcome
  rw [hs.skippedPrefix]
  generalize (s.finish ops).accept = a at hAccept ⊢
  generalize (s'.finish ops').accept = a' at hAccept ⊢
  cases hAccept with
  | some hRel => exact ScanOutcome.Rel.accepted hRel
  | none => exact ScanOutcome.Rel.failed (Option.Rel.some hs.tokenStart)

lemma scan_rel (h : CursorSimulation ops ops' R) (fuel : Nat) (startState : UInt32) {start : κ}
    (hStart : R start start') :
    Option.Rel (ScanOutcome.Rel ops ops' R) (scan ops t fuel startState start)
      (scan ops' t fuel startState start') := by
  unfold scan
  split
  · exact Option.Rel.some (ScanOutcome.Rel.failed Option.Rel.none)
  have hLoop := scanLoop_rel (t := t) h hStart fuel (ScanState.initial_rel startState hStart)
  generalize scanLoop ops t (ops.pos start) fuel _ = s at hLoop ⊢
  generalize scanLoop ops' t (ops'.pos start') fuel _ = s' at hLoop ⊢
  cases hLoop with
  | some hs => exact Option.Rel.some (ScanState.outcome_rel hs)
  | none => exact Option.Rel.none

-- Termination

variable {κ : Type} {ops : CursorOps κ} {startPos : Nat}

namespace ScanState

variable (s : ScanState κ)

@[simp]
lemma considerAccept_cursor (st : LexState) :
    (s.considerAccept ops t startPos st).cursor = s.cursor := by
  unfold considerAccept
  split <;> rfl

@[simp]
lemma considerAccept_eofHops (st : LexState) :
    (s.considerAccept ops t startPos st).eofHops = s.eofHops := by
  unfold considerAccept
  split <;> rfl

@[simp]
lemma consume_cursor (cursor : κ) (next : Int32) (skip : Bool) :
    (s.consume cursor next skip).cursor = cursor := by
  unfold consume
  split <;> rfl

/- A bound on the number of turns: the runes left, and at the end of the input the hops left. -/
def turns (ops : CursorOps κ) (t : LexTables) (size : κ → Nat) (s : ScanState κ) : Nat :=
  size s.cursor + (if ops.atEnd s.cursor then
      t.states.length + 1 - s.eofHops
    else
      t.states.length + 1)

lemma turns_lt_of_step {size : κ → Nat}
    (hSize : ∀ c c', ops.atEnd c = false → ops.advance c = some c' → size c' < size c)
    {s next : ScanState κ} (hStep : s.step ops t startPos = .inr next) :
    next.turns ops t size < s.turns ops t size := by
  unfold step at hStep
  cases hState : t.state? s.curState with
  | none => simp [hState] at hStep
  | some st =>
    rw [hState] at hStep
    simp only [considerAccept_cursor, considerAccept_eofHops] at hStep
    unfold turns
    cases hEnd : ops.atEnd s.cursor with
    | true =>
      rw [hEnd, if_pos rfl] at hStep
      split at hStep
      · cases hStep
        simp only [hEnd, if_true]
        omega
      · cases hStep
    | false =>
      rw [hEnd] at hStep
      simp only [Bool.false_eq_true, if_false] at hStep
      split at hStep
      · cases hStep
      split at hStep
      · cases hStep
      rename_i c hAdvance
      have hLess := hSize _ _ hEnd hAdvance
      cases hStep
      rw [consume_cursor]
      simp only [Bool.false_eq_true, if_false]
      split <;> omega

end ScanState

lemma scanLoop_mono {fuel : Nat} {s final : ScanState κ}
    (hLoop : scanLoop ops t startPos fuel s = some final) (more : Nat) :
    scanLoop ops t startPos (fuel + more) s = some final := by
  induction fuel generalizing s with
  | zero => cases hLoop
  | succ fuel ih =>
    rw [Nat.add_right_comm]
    unfold scanLoop at hLoop ⊢
    cases hStep : s.step ops t startPos with
    | inl last =>
      rw [hStep] at hLoop
      exact hLoop
    | inr next =>
      rw [hStep] at hLoop
      exact ih hLoop

lemma scan_mono {fuel more : Nat} {startState : UInt32} {start : κ} {outcome : ScanOutcome κ}
    (hScan : scan ops t fuel startState start = some outcome) (hFuel : fuel ≤ more) :
    scan ops t more startState start = some outcome := by
  unfold scan at hScan ⊢
  split_ifs at hScan ⊢ with hState
  · exact hScan
  rcases Option.map_eq_some_iff.mp hScan with ⟨final, hLoop, hOutcome⟩
  have hMore := scanLoop_mono hLoop (more - fuel)
  rw [Nat.add_sub_cancel' hFuel] at hMore
  rw [hMore, Option.map_some, hOutcome]

lemma scanLoop_isSome {size : κ → Nat}
    (hSize : ∀ c c', ops.atEnd c = false → ops.advance c = some c' → size c' < size c)
    {fuel : Nat} {s : ScanState κ} (hFuel : s.turns ops t size < fuel) :
    (scanLoop ops t startPos fuel s).isSome := by
  induction fuel generalizing s with
  | zero => exact absurd hFuel (Nat.not_lt_zero _)
  | succ fuel ih =>
    unfold scanLoop
    cases hStep : s.step ops t startPos with
    | inl last => rfl
    | inr next =>
      have hLess := ScanState.turns_lt_of_step hSize hStep
      exact ih (by omega)

end GoTreeSitter
