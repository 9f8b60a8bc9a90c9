import GoTreeSitter.Lexer.Lexer

/-
  The byte table of the lexer: for every state, the entry of each ASCII byte, so that the scan need
  not search the transitions.

  Main declarations:
    * `buildLexAsciiTable`
    * `asciiEntryFor`
    * `matchedState_withAscii`
    * `scanContiguous_withAscii`
-/

-- Building the Table

namespace GoTreeSitter

open List LexTables ScanState Lexer

section

/- The entry of a transition: its target and the skip bit. -/
def asciiEntry (tr : LexTransition) : Int32 :=
  if tr.skip then
    Int32.ofInt tr.nextState ||| lexAsciiSkipBit
  else
    Int32.ofInt tr.nextState

/- Write an entry that is still free; `filled.2` counts the free entries. -/
def fillEntry (v : Int32) (filled : List Int32 × Int) (c : Nat) : List Int32 × Int :=
  if filled.1.getD c 0 = lexAsciiNoMatch then
    (filled.1.set c v, filled.2 - 1)
  else
    filled

/- The ASCII bytes in the range of a transition. -/
def asciiBytes (tr : LexTransition) : List Nat :=
  if tr.hi < 0 ∨ tr.lo ≥ 128 then
    []
  else
    let lo := if tr.lo < 0 then 0 else tr.lo
    let hi := if tr.hi > 127 then 127 else tr.hi
    List.range' lo.toNat (hi + 1 - lo).toNat

/- Fill a row; the loop stops when no entry is free. -/
def fillAsciiRow : List LexTransition → List Int32 × Int → List Int32
| [], filled => filled.1
| tr :: rest, filled =>
  if filled.2 = 0 then
    filled.1
  else
    fillAsciiRow rest ((asciiBytes tr).foldl (fillEntry (asciiEntry tr)) filled)

/- The byte table of a list of states. -/
def buildLexAsciiTable (states : List LexState) : List (List Int32) :=
  states.map (fun st => fillAsciiRow st.transitions (List.replicate 128 lexAsciiNoMatch, 128))

/- A rune is in the range of a transition. -/
def LexTransition.covers (r : Nat) (tr : LexTransition) : Bool :=
  decide (tr.lo ≤ (r : Int)) && decide ((r : Int) ≤ tr.hi)

/- What the table should hold for a byte: the first transition wins. -/
def asciiEntryFor (trs : List LexTransition) (c : Nat) : Int32 :=
  match trs.find? (LexTransition.covers c) with
  | some tr => asciiEntry tr
  | none => lexAsciiNoMatch

/- The tables with the byte table of their states. -/
def LexTables.withAscii (t : LexTables) : LexTables :=
  { t with asciiTable := buildLexAsciiTable t.states }

/- The tables without a byte table. -/
def LexTables.withoutAscii (t : LexTables) : LexTables := { t with asciiTable := [] }

-- The Rows

variable {c : Nat} {v : Int32} {want want' : Nat → Int32} {filled : List Int32 × Int}
  {trs done : List LexTransition}

/- A row with the entries wanted, and its number of free entries. -/
structure RowFilled (want : Nat → Int32) (filled : List Int32 × Int) : Prop where
  length : filled.1.length = 128
  entry : ∀ c < 128, filled.1.getD c 0 = want c
  free : filled.2 = filled.1.count lexAsciiNoMatch

lemma mem_asciiBytes {tr : LexTransition} (hc : c < 128) : c ∈ asciiBytes tr ↔ tr.covers c := by
  rw [LexTransition.covers, Bool.and_eq_true, decide_eq_true_eq, decide_eq_true_eq]
  unfold asciiBytes
  split
  · exact ⟨nofun, by omega⟩
  · rw [mem_range'_1]
    split_ifs <;> omega

lemma lt_of_mem_asciiBytes {tr : LexTransition} (h : c ∈ asciiBytes tr) : c < 128 := by
  unfold asciiBytes at h
  split_ifs at h <;> simp only [mem_range'_1, not_mem_nil] at h <;> omega

namespace RowFilled

lemma congr (h : RowFilled want filled) (hsame : ∀ c < 128, want c = want' c) :
    RowFilled want' filled := ⟨h.length, fun c hc => (h.entry c hc).trans (hsame c hc), h.free⟩

lemma getD_eq (h : RowFilled want filled) (hc : c < 128) (d : Int32) :
    filled.1.getD c d = want c ∧ filled.1.getD c d ∈ filled.1 := by
  have hlt : c < filled.1.length := by
    rw [h.length]
    exact hc
  rw [← h.entry c hc]
  simp [List.getD, hlt]

lemma fillEntry (h : RowFilled want filled) (hv : v ≠ lexAsciiNoMatch) (hc : c < 128) :
    RowFilled (fun k => if k = c ∧ want k = lexAsciiNoMatch then v else want k)
      (fillEntry v filled c) := by
  have hlt : c < filled.1.length := by
    rw [h.length]
    exact hc
  unfold GoTreeSitter.fillEntry
  split_ifs with hfree
  · have hget : filled.1[c] = lexAsciiNoMatch := by simpa [List.getD, hlt] using hfree
    have hpos : 0 < filled.1.count lexAsciiNoMatch := count_pos_iff.mpr (hget ▸ getElem_mem hlt)
    refine ⟨by simpa using h.length, fun k hk => ?_, ?_⟩
    · rw [← h.entry k hk]
      by_cases hkc : k = c
      · simp_all [List.getD]
      · have hck : c ≠ k := fun heq => hkc heq.symm
        simp [List.getD, hkc, hck]
    · simp [count_set hlt, hget, hv, h.free]
      omega
  · refine ⟨h.length, fun k hk => ?_, h.free⟩
    rw [← h.entry k hk, if_neg]
    rintro ⟨rfl, hk⟩
    exact hfree hk

lemma fillBytes (hv : v ≠ lexAsciiNoMatch) (bytes : List Nat) (hbytes : ∀ c ∈ bytes, c < 128)
    (h : RowFilled want filled) :
    RowFilled (fun k => if k ∈ bytes ∧ want k = lexAsciiNoMatch then v else want k)
      (bytes.foldl (GoTreeSitter.fillEntry v) filled) := by
  induction bytes generalizing want filled with
  | nil => simpa using h
  | cons c bytes ih =>
    rw [forall_mem_cons] at hbytes
    refine (ih hbytes.2 (h.fillEntry hv hbytes.1)).congr fun k _ => ?_
    by_cases hk : k = c
    · subst hk
      by_cases hn : want k = lexAsciiNoMatch <;> simp [hn, hv]
    · simp [hk]

end RowFilled

lemma rowFilled_initial :
    RowFilled (asciiEntryFor []) (List.replicate 128 lexAsciiNoMatch, 128) where
  length := length_replicate
  entry := fun c hc => by
    rw [getD_eq_getElem?_getD, getElem?_replicate_of_lt hc]
    rfl
  free := by simp

/- An earlier match is kept, a free byte takes the next transition. -/
lemma asciiEntryFor_append (hdone : ∀ tr ∈ done, asciiEntry tr ≠ lexAsciiNoMatch) :
    asciiEntryFor (done ++ trs) c =
      if asciiEntryFor done c = lexAsciiNoMatch then asciiEntryFor trs c
      else asciiEntryFor done c := by
  unfold asciiEntryFor
  rw [find?_append]
  cases hfind : done.find? (LexTransition.covers c) with
  | some found => simp [hdone found (mem_of_find?_eq_some hfind)]
  | none => simp

/- The row of a state holds the entry of every byte. -/
lemma RowFilled.fillRow (h : RowFilled (asciiEntryFor done) filled)
    (hvalid : ∀ tr ∈ done ++ trs, asciiEntry tr ≠ lexAsciiNoMatch) (hc : c < 128) :
    (fillAsciiRow trs filled).getD c lexAsciiNoMatch = asciiEntryFor (done ++ trs) c := by
  induction trs generalizing done filled with
  | nil =>
    rw [append_nil]
    exact (h.getD_eq hc _).1
  | cons tr rest ih =>
    obtain ⟨hdone, hrest⟩ := forall_mem_append.mp hvalid
    rw [fillAsciiRow]
    split_ifs with hfull
    · -- no entry is free, so later transitions cannot matter
      have hcount : filled.1.count lexAsciiNoMatch = 0 := by
        have := h.free
        omega
      obtain ⟨hentry, hmem⟩ := h.getD_eq hc lexAsciiNoMatch
      have hne : asciiEntryFor done c ≠ lexAsciiNoMatch := fun heq =>
        count_eq_zero.mp hcount (heq ▸ hentry ▸ hmem)
      rw [asciiEntryFor_append hdone, if_neg hne, hentry]
    have hsplit : done ++ tr :: rest = (done ++ [tr]) ++ rest := by simp
    rw [hsplit] at hvalid ⊢
    refine ih ((h.fillBytes (hrest tr mem_cons_self) (asciiBytes tr) (fun _ =>
      lt_of_mem_asciiBytes)).congr fun k hk => ?_) hvalid
    rw [asciiEntryFor_append hdone]
    simp only [mem_asciiBytes hk]
    by_cases hn : asciiEntryFor done k = lexAsciiNoMatch <;> cases hcov : tr.covers k <;>
      simp [hcov, asciiEntryFor]

-- Reading an Entry

variable {tr : LexTransition} {t : LexTables}

/- Setting and clearing the sign bit of a number without it. -/
lemma skipBit_cancel {x : Int32} (h : x.toBitVec.msb = false) :
    (x ||| lexAsciiSkipBit) &&& ~~~ lexAsciiSkipBit = x ∧ x &&& ~~~ lexAsciiSkipBit = x ∧
      (x ||| lexAsciiSkipBit) &&& lexAsciiSkipBit = lexAsciiSkipBit ∧
      x &&& lexAsciiSkipBit = 0 := by
  have hbit : ∀ i < 32, lexAsciiSkipBit.toBitVec.getLsbD i = decide (i = 31) := by decide
  have htop : x.toBitVec.getLsbD 31 = false := by
    exact h
  refine ⟨?_, ?_, ?_, ?_⟩ <;> apply Int32.toBitVec_inj.mp <;> ext i hi <;> simp only
    [Int32.toBitVec_and, Int32.toBitVec_or, Int32.toBitVec_not, ← BitVec.getLsbD_eq_getElem,
    BitVec.getLsbD_and, BitVec.getLsbD_or, BitVec.getLsbD_not, hbit i hi, Int32.toBitVec_zero,
    BitVec.getLsbD_zero] <;> by_cases h31 : i = 31 <;> simp_all

/- The target is a state whose number is below the sentinel. -/
def LexTransition.Targets (n : Nat) (tr : LexTransition) : Prop :=
  0 ≤ tr.nextState ∧ tr.nextState < n

variable (hn : t.states.length < 2 ^ 31) (htr : tr.Targets t.states.length)

include hn htr

lemma toInt_target : (Int32.ofInt tr.nextState).toInt = tr.nextState :=
  Int32.toInt_ofInt_of_le (by have := htr.1; omega) (by have := htr.2; omega)

lemma target_msb : (Int32.ofInt tr.nextState).toBitVec.msb = false := by
  rw [BitVec.msb_eq_toInt, ← Int32.toInt, toInt_target hn htr]
  simpa using htr.1

lemma asciiEntry_ne : asciiEntry tr ≠ lexAsciiNoMatch := by
  intro heq
  unfold asciiEntry at heq
  split_ifs at heq
  · have hskip := (skipBit_cancel (target_msb hn htr)).2.2.1
    rw [heq] at hskip
    exact absurd hskip (by decide)
  have hint := toInt_target hn htr
  have htop : lexAsciiNoMatch.toInt = 2147483647 := by decide
  rw [heq, htop] at hint
  have := htr.2
  omega

lemma asciiEntry_read :
    (asciiEntry tr &&& ~~~ lexAsciiSkipBit, decide (asciiEntry tr &&& lexAsciiSkipBit ≠ 0)) =
      (Int32.ofInt tr.nextState, tr.skip) := by
  obtain ⟨hset, hclear, hmark, hfree⟩ := skipBit_cancel (target_msb hn htr)
  unfold asciiEntry
  cases tr.skip
  · simp [hclear, hfree]
  · simp only [if_true, hset, hmark, Prod.mk.injEq, true_and]
    decide

end

-- Scanning with the Table

section

variable {κ : Type} {t : LexTables} {ops : CursorOps κ}

/- Every transition leads to a state. -/
def LexTables.ValidTargets (t : LexTables) : Prop :=
  ∀ st ∈ t.states, ∀ tr ∈ st.transitions, tr.Targets t.states.length

/- An ASCII byte under the cursor is read as the rune of its value. -/
def CursorOps.AsciiPeek (ops : CursorOps κ) : Prop :=
  ∀ c, ops.atEnd c = false → (ops.peek c).1 < 0x80 → (ops.peek c).2 = (ops.peek c).1.toNat

variable {st : LexState}

lemma state?_some {s : Int32} (h : t.state? s = some st) :
    0 ≤ s.toInt ∧ t.states[s.toInt.toNat]? = some st := by
  unfold state? at h
  split_ifs at h with hneg
  rw [Int32.lt_iff_toInt_lt, Int32.toInt_zero] at hneg
  exact ⟨by omega, h⟩

variable (hn : t.states.length < 2 ^ 31) (hvalid : t.ValidTargets)

include hn hvalid

lemma buildLexAsciiTable_getD {i c : Nat} (hget : t.states[i]? = some st) (hc : c < 128) :
    ((buildLexAsciiTable t.states).getD i []).getD c lexAsciiNoMatch =
      asciiEntryFor st.transitions c := by
  have hmem : st ∈ t.states := mem_of_getElem? hget
  rw [buildLexAsciiTable, getD_eq_getElem?_getD (l := t.states.map _), getElem?_map,
    hget, Option.map_some, Option.getD_some]
  exact rowFilled_initial.fillRow (fun tr htr => asciiEntry_ne hn (hvalid st hmem tr htr)) hc

/- Looking up the byte finds what the search of the transitions finds. -/
lemma matchedState_withAscii {s : Int32} (hst : t.state? s = some st) (b : UInt8) (r : Nat)
    (hr : b < 0x80 → r = b.toNat) :
    t.withAscii.matchedState s st b r = t.withoutAscii.matchedState s st b r := by
  obtain ⟨hpos, hget⟩ := state?_some hst
  obtain ⟨hlt, -⟩ := List.getElem?_eq_some_iff.mp hget
  unfold matchedState withAscii withoutAscii
  have hnone : ¬ (b < 0x80 ∧ s.toInt < (([] : List (List Int32)).length : Nat)) := by
    simp only [length_nil]
    omega
  rw [if_neg hnone]
  by_cases hb : b < 0x80
  · have hin : b < 0x80 ∧ s.toInt < ((buildLexAsciiTable t.states).length : Nat) := by
      refine ⟨hb, ?_⟩
      rw [buildLexAsciiTable, length_map]
      omega
    have hb' : b.toNat < 128 := by simpa [UInt8.lt_iff_toNat_lt] using hb
    rw [if_pos hin, hr hb]
    simp only [buildLexAsciiTable_getD hn hvalid hget hb']
    unfold asciiEntryFor
    change _ = (match st.transitions.find? (LexTransition.covers b.toNat) with
      | some tr => (Int32.ofInt tr.nextState, tr.skip)
      | none => (-1, false))
    cases hfind : st.transitions.find? (LexTransition.covers b.toNat) with
    | none => simp
    | some tr =>
      have htr := hvalid st (mem_of_getElem? hget) tr (mem_of_find?_eq_some hfind)
      simp only [ne_eq, asciiEntry_ne hn htr, not_false_eq_true, if_true]
      exact asciiEntry_read hn htr
  · rw [if_neg fun h => hb h.1]

/- One turn of the loop. -/
lemma step_withAscii (hops : ops.AsciiPeek) (startPos : Nat) (s : ScanState κ) :
    s.step ops t.withAscii startPos = s.step ops t.withoutAscii startPos := by
  unfold step
  have hstate : t.withAscii.state? s.curState = t.withoutAscii.state? s.curState := rfl
  rw [hstate]
  cases hst : t.withoutAscii.state? s.curState with
  | none => rfl
  | some st =>
    have hnext : ∀ c,
        ops.atEnd c = false →
          t.withAscii.nextState s.curState st (ops.peek c).1 (ops.peek c).2 =
            t.withoutAscii.nextState s.curState st (ops.peek c).1 (ops.peek c).2 := by
      intro c hc
      unfold nextState
      rw [matchedState_withAscii hn hvalid hst _ _ (hops c hc)]
    have hcur : (s.considerAccept ops t.withoutAscii startPos st).curState = s.curState := by
      unfold considerAccept
      split_ifs <;> rfl
    have hacc : s.considerAccept ops t.withAscii startPos st =
        s.considerAccept ops t.withoutAscii startPos st := rfl
    have hstates : t.withAscii.states = t.withoutAscii.states := rfl
    simp only [hacc, hstates]
    generalize s.considerAccept ops t.withoutAscii startPos st = marked at hcur ⊢
    cases hend : ops.atEnd marked.cursor with
    | true => simp
    | false => simp only [Bool.false_eq_true, if_false, hcur, hnext marked.cursor hend]

lemma scan_withAscii (hops : ops.AsciiPeek) (fuel : Nat) (startState : UInt32) (start : κ) :
    scan ops t.withAscii fuel startState start = scan ops t.withoutAscii fuel startState start := by
  have hloop : ∀ fuel s,
      scanLoop ops t.withAscii (ops.pos start) fuel s =
        scanLoop ops t.withoutAscii (ops.pos start) fuel s := by
    intro fuel
    induction fuel with
    | zero => exact fun _ => rfl
    | succ fuel ih =>
      intro s
      simp only [scanLoop, step_withAscii hn hvalid hops, ih]
  unfold scan
  rw [hloop]
  rfl

omit hn hvalid in
lemma contiguousOps_asciiPeek (source : Source) : (Lexer.contiguousOps source).AsciiPeek := by
  intro c hc hb
  have hlt : c.pos < source.length := by simpa [contiguousOps] using hc
  simp only [contiguousOps, getD_eq_getElem?_getD, getElem?_eq_getElem hlt,
    Option.getD_some] at hb ⊢
  rw [drop_eq_getElem_cons hlt, Text.decodeRune, if_pos hb]

end

/- A scan with the byte table gives what the scan without it gives. -/
def Lexer.SameScan (l : Lexer) (startState : UInt32) (start : LexerCursor) : Prop :=
  { l with tables := l.tables.withAscii }.scanContiguous startState start =
    { l with tables := l.tables.withoutAscii }.scanContiguous startState start

/-
  The byte table changes nothing: with fewer than `2 ^ 31` states and transitions that lead to
  states, a scan with the table gives the token, the position and the failed start of the scan
  without it.
-/
theorem scanContiguous_withAscii
    (l : Lexer)
    (hn : l.tables.states.length < 2 ^ 31)
    (hvalid : l.tables.ValidTargets)
    (startState : UInt32)
    (start : LexerCursor) :
    l.SameScan startState start := by
  unfold Lexer.SameScan scanContiguous
  rw [scan_withAscii hn hvalid (contiguousOps_asciiPeek l.source)]
  rfl

/- Words of lowercase letters after spaces. -/
def wordLexer : Lexer where
  tables := {
    states := [⟨0, 0, false, -1, -1, [⟨32, 32, 0, true⟩, ⟨97, 122, 1, false⟩]⟩,
      ⟨1, 0, false, -1, -1, [⟨97, 122, 1, false⟩]⟩]
    asciiTable := []
    immediateTokens := []
    zeroWidthTokens := [] }
  source := [32, 97, 98]
  includedRanges := []
  includedRangeIdx := 0

theorem scanContiguous_withAscii_word :
    wordLexer.tables.states.length < 2 ^ 31 ∧ wordLexer.tables.ValidTargets ∧
      wordLexer.SameScan 0 ⟨0, 0, 0⟩ := by
  have hvalid : wordLexer.tables.ValidTargets := by
    simp [LexTables.ValidTargets, LexTransition.Targets, wordLexer]
  have hn : wordLexer.tables.states.length < 2 ^ 31 := by decide
  exact ⟨hn, hvalid, scanContiguous_withAscii wordLexer hn hvalid 0 ⟨0, 0, 0⟩⟩

-- Wide State Numbers

/- A state whose letter leads to a state with the number `2 ^ 31`. -/
def wideState : LexState := ⟨0, 0, false, -1, -1, [⟨97, 97, 2147483648, false⟩]⟩

/- Copies of the state, and a source of one letter. -/
def wideLexer (n : Nat) : Lexer where
  tables := ⟨List.replicate (n + 1) wideState, [], [], []⟩
  source := [97]
  includedRanges := []
  includedRangeIdx := 0

/- The table takes the number for the mark of a skip to the first state. -/
lemma wide_nextState (n : Nat) :
    (wideLexer n).tables.withAscii.nextState 0 wideState 97 97 = some (0, true) := by
  have hin : (97 : UInt8) < 0x80 ∧
      (0 : Int32).toInt < (wideLexer n).tables.withAscii.asciiTable.length := by
    refine ⟨by decide, ?_⟩
    simp [withAscii, buildLexAsciiTable, wideLexer]
  have hentry : (((wideLexer n).tables.withAscii.asciiTable.getD (0 : Int32).toInt.toNat []).getD
      (97 : UInt8).toNat lexAsciiNoMatch) =
      lexAsciiSkipBit := (by decide : (fillAsciiRow
    wideState.transitions (List.replicate 128 lexAsciiNoMatch, 128)).getD 97 lexAsciiNoMatch =
    lexAsciiSkipBit)
  unfold nextState matchedState
  simp only [if_pos hin, hentry]
  decide

/- The first turn: nothing is accepted, and the letter is read. -/
lemma wide_step {t : LexTables} (hst : t.state? 0 = some wideState) :
    (ScanState.initial 0 (⟨0, 0, 0⟩ : LexerCursor)).step (Lexer.contiguousOps [97]) t 0 =
      match t.nextState 0 wideState 97 97 with
      | none => .inl (ScanState.initial 0 ⟨0, 0, 0⟩)
      | some (next, skip) =>
        .inr ((ScanState.initial 0 ⟨0, 0, 0⟩).consume ⟨1, 0, 1⟩ next skip) := by
  unfold step
  rw [show (initial 0 (⟨0, 0, 0⟩ : LexerCursor)).curState = 0 from rfl, hst]
  rfl

/- The failed token starts behind the letter if the letter is skipped. -/
lemma wide_scan {t : LexTables} (hst : t.state? 0 = some wideState) (skips : Bool)
    (hnext : t.nextState 0 wideState 97 97 = if skips then some (0, true) else none) (fuel : Nat) :
    scan (Lexer.contiguousOps [97]) t (fuel + 2) 0 ⟨0, 0, 0⟩ =
      some (.failed (some (if skips then ⟨1, 0, 1⟩ else (⟨0, 0, 0⟩ : LexerCursor)))) := by
  unfold scan
  rw [show (0 : UInt32).toInt32 = 0 from rfl, hst]
  change (scanLoop _ t 0 (fuel + 1 + 1) (initial 0 (⟨0, 0, 0⟩ : LexerCursor))).map _ = _
  rw [scanLoop, wide_step hst, hnext]
  cases skips with
  | false => rfl
  | true =>
    have hstop : ((initial 0 (⟨0, 0, 0⟩ : LexerCursor)).consume ⟨1, 0, 1⟩ 0 true).step
        (contiguousOps [97]) t 0 =
        .inl ((initial 0 ⟨0, 0, 0⟩).consume ⟨1, 0, 1⟩ 0 true) := by
      unfold step
      rw [show ((initial 0 (⟨0, 0, 0⟩ : LexerCursor)).consume ⟨1, 0, 1⟩ 0
        true).curState = 0 from rfl, hst]
      rfl
    simp only [if_true, scanLoop, hstop]
    rfl

/-
  With more than `2 ^ 31` states the table skips the letter, and the failed token starts behind it.
-/
theorem wide_ascii_differs :
    (wideLexer (2 ^ 31)).tables.ValidTargets ∧ ¬ (wideLexer (2 ^ 31)).SameScan 0 ⟨0, 0, 0⟩ := by
  suffices h : ∀ n, n = 2 ^ 31 → (wideLexer n).tables.ValidTargets ∧
      ¬ (wideLexer n).SameScan 0 ⟨0, 0, 0⟩ from h _ rfl
  intro n hn
  refine ⟨fun st hst tr htr => ?_, ?_⟩
  · obtain rfl := eq_of_mem_replicate hst
    obtain rfl := mem_singleton.mp htr
    simp only [LexTransition.Targets, wideLexer, length_replicate]
    omega
  have hst : ∀ t : LexTables,
      t.states = (wideLexer n).tables.states → t.state? 0 = some wideState := by
    intro t ht
    rw [state?, ht]
    rfl
  have hwith := wide_scan (hst (wideLexer n).tables.withAscii rfl) true (wide_nextState n) (n + 3)
  have hwithout := wide_scan (hst (wideLexer n).tables.withoutAscii rfl) false rfl (n + 3)
  have hfuel : ∀ t : LexTables,
      t.states = (wideLexer n).tables.states →
        { wideLexer n with tables := t }.scanFuel = n + 3 + 2 := by
    intro t ht
    rw [scanFuel, ht]
    simp only [wideLexer, length_singleton, length_replicate]
    omega
  unfold Lexer.SameScan scanContiguous
  rw [hfuel (wideLexer n).tables.withAscii rfl, hfuel (wideLexer n).tables.withoutAscii rfl]
  change Option.map _ (scan (contiguousOps [97]) (wideLexer n).tables.withAscii (n + 3 + 2)
    0 ⟨0, 0, 0⟩) ≠ Option.map _ (scan (contiguousOps [97]) (wideLexer n).tables.withoutAscii
    (n + 3 + 2) 0 ⟨0, 0, 0⟩)
  rw [hwith, hwithout]
  nofun

end GoTreeSitter
