import GoTreeSitter.Corridor.Classify
import Mathlib.Data.List.Chain
import Mathlib.Data.List.TakeWhile

/-
  The fused instructions on stacks of the parser.

  Main declarations:
    * `StackEntry`
    * `popChildren`
    * `CorridorTables.seenRun_linked`
    * `CorridorTables.fused_row_is_landing_row`

  A fused instruction applies a second row without looking at the state where the first reduction
  lands. Its row was computed from the predecessor edges of the state.
-/

-- Stacks

namespace GoTreeSitter

variable (state : StateID) (t : CorridorTables)

/- An entry of a parse stack: the state, and whether the payload below it is an extra. -/
structure StackEntry where
  state : StateID
  extra : Bool
  deriving DecidableEq

/- A stack, with its top first. -/
abbrev LRStack : Type := List StackEntry

/-
  Pop a number of children. Extras between them are popped along, and the bottom entry has no
  payload to pop.
-/
def popChildren : Nat → LRStack → Option LRStack
| 0, stack => some stack
| _ + 1, [] => none
| _ + 1, [_] => none
| n + 1, entry :: next :: rest =>
  if entry.extra then
    popChildren (n + 1) (next :: rest)
  else
    popChildren n (next :: rest)

/- The extras on top, which a reduction keeps on top. -/
def trailingExtras (childCount : UInt8) (stack : LRStack) : List StackEntry :=
  if childCount = 0 then
    []
  else
    stack.takeWhile StackEntry.extra

namespace CorridorTables

/-
  The stack after a reduction, if there are enough children and a goto. The new entry can be an
  extra itself only if it stays in the state below.
-/
def reduceStack (action : Action) (extra : Bool) (stack : LRStack) : Option LRStack :=
  match popChildren action.childCount.toNat stack with
  | none => none
  | some [] => none
  | some (base :: rest) =>
    let target := t.gotoTarget base.state action.symbol
    if target = 0 then
      none
    else
      let parent : StackEntry :=
        { state := target
          extra := extra && target == base.state }
      some ((trailingExtras action.childCount stack).map (fun entry =>
          { entry with state := target }) ++
          parent :: base :: rest)

/- The state that a shift leads to. -/
def shiftTarget (action : Action) (state : StateID) : StateID :=
  if action.extra ∧ action.state = 0 then
    state
  else
    action.state

/- The entry that a shift pushes. -/
def shiftEntry (action : Action) (state : StateID) : StackEntry :=
  { state := shiftTarget action state
    extra := action.extra }

/-
  One step of the parser: it shifts a terminal, or reduces on one, by an action of the row of its
  top state. The step names the entry that it pushes and the one below.
-/
inductive StackStep (t : CorridorTables) : LRStack → StackEntry → StackEntry → LRStack → Prop
| shift {top : StackEntry} {rest : LRStack} {sym : Symbol} {row : ActionRow} {idx : UInt16}
    {action : Action}
    (hTerminal : sym.toUInt32 < t.tokenCount)
    (hRow : t.row top.state sym = .ok (row, idx))
    (hAction : action ∈ row.actions)
    (hType : action.type = .shift) :
    StackStep t (top :: rest) top (shiftEntry action top.state)
      (shiftEntry action top.state :: top :: rest)
| reduce {top base parent : StackEntry} {rest below : LRStack} {sym : Symbol} {row : ActionRow}
    {idx : UInt16}
    {action : Action}
    {extra : Bool}
    {stack : LRStack}
    (hTerminal : sym.toUInt32 < t.tokenCount)
    (hRow : t.row top.state sym = .ok (row, idx))
    (hAction : action ∈ row.actions)
    (hType : action.type = .reduce)
    (hPop : popChildren action.childCount.toNat (top :: rest) = some (base :: below))
    (hParent : parent =
        { state := t.gotoTarget base.state action.symbol
          extra := extra && t.gotoTarget base.state action.symbol == base.state })
    (hReduce : t.reduceStack action extra (top :: rest) = some stack) :
    StackStep t (top :: rest) base parent stack

/- The entry was pushed along an edge that the analysis sees; an extra must stay where it was. -/
def SeenPush (below entry : StackEntry) : Prop :=
  if entry.extra then
    entry.state = below.state
  else
    below.state ∈ t.predecessorEdges entry.state

instance (t : CorridorTables) (below entry : StackEntry) : Decidable (t.SeenPush below entry) := by
  unfold SeenPush
  infer_instance

/- A run of the parser from the initial state, in which every push is allowed. -/
inductive Run (t : CorridorTables) (Allowed : StackEntry → StackEntry → Prop) : LRStack → Prop
| start : Run t Allowed [{ state := t.lang.initialState, extra := false }]
| step {stack next : LRStack} {below entry : StackEntry} (hRun : Run t Allowed stack)
    (hStep : StackStep t stack below entry next)
    (hAllowed : Allowed below entry) :
    Run t Allowed next

/- The stacks that the parser can reach. -/
def Reachable (stack : LRStack) : Prop := t.Run (fun _ _ => True) stack

/- The stacks reached by pushes along seen edges only. -/
def SeenRun (stack : LRStack) : Prop := t.Run t.SeenPush stack

end CorridorTables

-- Linked Stacks

/- Popping leaves a lower part of the stack. -/
lemma popChildren_suffix {n : Nat} {stack rest : LRStack} (hPop : popChildren n stack = some rest) :
    rest <:+ stack := by
  induction stack generalizing n with
  | nil =>
    cases n with
    | zero =>
      cases hPop
      exact List.suffix_refl []
    | succ n => cases hPop
  | cons entry stack ih =>
    cases n with
    | zero =>
      cases hPop
      exact List.suffix_refl _
    | succ n =>
      cases stack with
      | nil => cases hPop
      | cons next stack =>
        rw [popChildren] at hPop
        have hTail : rest <:+ next :: stack := by
          split at hPop
          · exact ih hPop
          · exact ih hPop
        exact hTail.trans (List.suffix_cons _ _)

namespace CorridorTables

variable {t : CorridorTables}

/- Every entry was pushed along an edge that is seen. -/
def Linked (stack : LRStack) : Prop :=
  stack.IsChain (fun entry below => t.SeenPush below entry)

lemma linked_trailing {parent : StackEntry} {rest : LRStack} (hLinked : t.Linked (parent :: rest))
    {trailing : List StackEntry} (hExtra : ∀ entry ∈ trailing, entry.extra) :
    t.Linked
      (trailing.map (fun entry => { entry with state := parent.state }) ++ parent :: rest) := by
  induction trailing with
  | nil => exact hLinked
  | cons entry trailing ih =>
    have hRest := ih (fun other hOther => hExtra other (List.mem_cons_of_mem _ hOther))
    have hEntry := hExtra entry (List.mem_cons_self ..)
    cases trailing with
    | nil =>
      refine List.IsChain.cons_cons ?_ hRest
      unfold SeenPush
      rw [if_pos hEntry]
    | cons other trailing =>
      refine List.IsChain.cons_cons ?_ hRest
      unfold SeenPush
      rw [if_pos hEntry]

lemma stackStep_linked {stack next : LRStack} {below entry : StackEntry}
    (hLinked : t.Linked stack) (hStep : t.StackStep stack below entry next)
    (hSeen : t.SeenPush below entry) :
    t.Linked next := by
  cases hStep with
  | shift hTerminal hRow hAction hType => exact List.IsChain.cons_cons hSeen hLinked
  | @reduce top _ _ rest lower sym row idx action extra _
      hTerminal hRow hAction hType hPop hParent hReduce =>
    unfold reduceStack at hReduce
    rw [hPop] at hReduce
    dsimp only at hReduce
    split at hReduce
    · cases hReduce
    rw [← hParent] at hReduce
    cases hReduce
    have hBase : t.Linked (below :: lower) := hLinked.suffix (popChildren_suffix hPop)
    have hState : entry.state = t.gotoTarget below.state action.symbol := by rw [hParent]
    rw [← hState]
    apply linked_trailing (List.IsChain.cons_cons hSeen hBase)
    intro other hOther
    unfold trailingExtras at hOther
    split at hOther
    · cases hOther
    · exact List.mem_takeWhile_imp hOther

lemma seenRun_linked {stack : LRStack} (hRun : t.SeenRun stack) : t.Linked stack := by
  induction hRun with
  | start => exact List.IsChain.singleton _
  | step hRun hStep hSeen ih => exact stackStep_linked ih hStep hSeen

/-
  Popping one child of a linked stack exposes a predecessor of the top state. Extras above the child
  are in the state of the child.
-/
lemma linked_popChildren_one {top base : StackEntry} {rest below : LRStack}
    (hLinked : t.Linked (top :: rest)) (hPop : popChildren 1 (top :: rest) = some (base :: below)) :
    base.state ∈ t.predecessorEdges top.state := by
  induction rest generalizing top with
  | nil => cases hPop
  | cons next rest ih =>
    rcases List.isChain_cons_cons.mp hLinked with ⟨hSeen, hRest⟩
    unfold SeenPush at hSeen
    rw [popChildren] at hPop
    split_ifs at hPop hSeen with hExtra
    · rw [hSeen]
      exact ih hRest hPop
    cases hPop
    exact hSeen

end CorridorTables

-- Landing Rows

/- The row that a fused body applies second. -/
def BodyKind.secondRowIndex (body : BodyKind) : UInt32 :=
  match body.op with
  | .reduceChain => body.chainRowIndex
  | _ => body.shiftRowIndex

namespace CorridorTables

variable {t : CorridorTables} {sym : Symbol} {predecessor : StateID} {action : Action}

lemma landing_of_mem {α : Type} [DecidableEq α] {landing : StateID → Option α}
    {edges : List StateID} {value : α} (hLanding : landingOnEdges landing edges = some value)
    {edge : StateID} (hEdge : edge ∈ edges) :
    landing edge = some value := by
  cases edges with
  | nil => cases hEdge
  | cons first edges =>
    rw [landingOnEdges] at hLanding
    cases hFirst : landing first with
    | none => simp [hFirst] at hLanding
    | some found =>
      rw [hFirst] at hLanding
      dsimp only at hLanding
      split at hLanding
      · rename_i hAll
        cases hLanding
        rcases List.mem_cons.mp hEdge with rfl | hTail
        · exact hFirst
        · have hSame := List.all_eq_true.mp hAll edge hTail
          exact eq_of_beq hSame
      · cases hLanding

variable {lhs : Symbol} {index : UInt16} {state : StateID} {row : ActionRow} {idx : UInt16}
  {body : BodyKind}

/- Where a chain lands over one edge, and on which row. -/
lemma chainLanding_row {landing : StateID}
    (hLanding : t.chainLanding sym lhs predecessor = some (landing, index)) :
    t.gotoTarget predecessor lhs = landing ∧ landing ≠ 0 ∧
      ∃ next, t.row landing sym = .ok (next, index) ∧ next.kind = .reduce := by
  unfold chainLanding at hLanding
  dsimp only at hLanding
  split_ifs at hLanding with hRange
  rw [not_or] at hRange
  rcases hRow : t.row (t.gotoTarget predecessor lhs) sym with err | ⟨next, nextIndex⟩
  · simp [hRow] at hLanding
  · rw [hRow] at hLanding
    dsimp only at hLanding
    split at hLanding
    · rename_i second hKind hActions
      split at hLanding
      · cases hLanding
        exact ⟨rfl, hRange.1, next, hRow, hKind⟩
      · cases hLanding
    · cases hLanding

/- Where a reduce-then-shift lands, and on which row. -/
lemma shiftLanding_row {landing target : StateID}
    (hLanding : t.shiftLanding sym lhs predecessor = some (landing, index, target)) :
    t.gotoTarget predecessor lhs = landing ∧ landing ≠ 0 ∧
      ∃ next, t.row landing sym = .ok (next, index) ∧ next.kind = .shift := by
  unfold shiftLanding at hLanding
  dsimp only at hLanding
  split_ifs at hLanding with hRange
  rw [not_or] at hRange
  rcases hRow : t.row (t.gotoTarget predecessor lhs) sym with err | ⟨next, nextIndex⟩
  · simp [hRow] at hLanding
  · rw [hRow] at hLanding
    dsimp only at hLanding
    split at hLanding
    · rename_i action hKind hActions
      cases hLanding
      exact ⟨rfl, hRange.1, next, hRow, hKind⟩
    · cases hLanding

lemma fused_landing
    (hAction : row.actions = [action])
    (hFused : t.reduceChainCandidate state sym row idx = some body ∨
      t.reduceShiftCandidate state sym row idx = some body)
    (hEdge : predecessor ∈ t.predecessorEdges state) :
    ∃ second index,
      t.gotoTarget predecessor action.symbol ≠ 0 ∧
        t.row (t.gotoTarget predecessor action.symbol) sym = .ok (second, index) ∧
        body.secondRowIndex = index.toUInt32 := by
  rcases hFused with hChain | hShift
  · unfold reduceChainCandidate at hChain
    split at hChain
    · rename_i first hEnabled hKind hActions
      rw [hAction] at hActions
      cases hActions
      split at hChain
      · cases hChain
      split at hChain
      · cases hChain
      rename_i landingState chainRowIndex hLanding
      cases hChain
      rcases chainLanding_row (landing_of_mem hLanding hEdge) with ⟨rfl, hGoto, next, hRow, _⟩
      exact ⟨next, chainRowIndex, hGoto, hRow, rfl⟩
    · cases hChain
  · unfold reduceShiftCandidate at hShift
    split at hShift
    · rename_i first hEnabled hActions
      rw [hAction] at hActions
      cases hActions
      split at hShift
      · cases hShift
      rename_i landing shiftRowIndex target hLanding
      cases hShift
      rcases shiftLanding_row (landing_of_mem hLanding hEdge) with ⟨rfl, hGoto, next, hRow, _⟩
      exact ⟨next, shiftRowIndex, hGoto, hRow, rfl⟩
    · cases hShift

lemma childCount_of_reduceChainCandidate (hAction : row.actions = [action])
    (hChain : t.reduceChainCandidate state sym row idx = some body) :
    action.childCount = 1 := by
  unfold reduceChainCandidate at hChain
  split at hChain
  · rename_i first hEnabled hKind hActions
    rw [hAction] at hActions
    cases hActions
    split at hChain
    · cases hChain
    · rename_i hCount
      exact not_not.mp hCount
  · cases hChain

lemma reduceStack_top {stack : LRStack} {base : StackEntry} {below : LRStack}
    (hPop : popChildren action.childCount.toNat stack = some (base :: below))
    (hGoto : t.gotoTarget base.state action.symbol ≠ 0) (extra : Bool) :
    ∃ landing rest,
      t.reduceStack action extra stack = some (landing :: rest) ∧
        landing.state = t.gotoTarget base.state action.symbol := by
  unfold reduceStack
  rw [hPop]
  dsimp only
  rw [if_neg hGoto]
  cases trailingExtras action.childCount stack with
  | nil => exact ⟨_, _, rfl, rfl⟩
  | cons entry trailing => exact ⟨_, _, rfl, rfl⟩

/-
  In every run that pushes along seen edges, the reduction of a fused cell lands on the row that its
  body carries, if the reduction is unary or exposes a seen predecessor of the top state. The chain
  is always unary.
-/
theorem fused_row_is_landing_row
    {t : CorridorTables}
    {top : StackEntry}
    {rest : LRStack}
    (hRun : t.SeenRun (top :: rest))
    {sym : Symbol}
    {row : ActionRow}
    {idx : UInt16}
    {action : Action}
    {body : BodyKind}
    (hAction : row.actions = [action])
    (hFused : t.reduceChainCandidate top.state sym row idx = some body ∨
      t.reduceShiftCandidate top.state sym row idx = some body)
    {base : StackEntry}
    {below : LRStack}
    (hPop : popChildren action.childCount.toNat (top :: rest) = some (base :: below))
    (hSeen : t.reduceShiftCandidate top.state sym row idx = some body →
      action.childCount = 1 ∨ base.state ∈ t.predecessorEdges top.state)
    (extra : Bool) :
    ∃ (landing : StackEntry) (lower : LRStack) (second : ActionRow) (index : UInt16),
      t.reduceStack action extra (top :: rest) = some (landing :: lower) ∧
        t.row landing.state sym = .ok (second, index) ∧ body.secondRowIndex = index.toUInt32 := by
  have hEdge : base.state ∈ t.predecessorEdges top.state := by
    have hUnary : action.childCount = 1 ∨ base.state ∈ t.predecessorEdges top.state := by
      rcases hFused with hChain | hShift
      · exact .inl (childCount_of_reduceChainCandidate hAction hChain)
      · exact hSeen hShift
    rcases hUnary with hOne | hMem
    · rw [hOne] at hPop
      exact linked_popChildren_one (seenRun_linked hRun) hPop
    · exact hMem
  rcases fused_landing hAction hFused hEdge with ⟨second, index, hGoto, hRow, hIndex⟩
  rcases reduceStack_top hPop hGoto extra with ⟨landing, lower, hStack, hState⟩
  rw [← hState] at hRow
  exact ⟨landing, lower, second, index, hStack, hRow, hIndex⟩

end CorridorTables

-- Fused Cells of Small Languages

/- The gates of both fused instructions are on. -/
def fusedGates : CorridorGates := { reduceChain := true, reduceShift := true }

/- The tables of a language with both gates on. -/
def Language.fusedTables (lang : Language) : CorridorTables :=
  { lang := lang
    denseLimit := lang.denseLimit
    smallBase := lang.largeStateCount.toNat
    tokenCount := lang.tokenCount
    stateCount := lang.corridorStateCount
    reduceChainEnabled := true
    reduceShiftEnabled := true }

/- An entry without an extra. -/
def plainEntry : StackEntry := { state := state, extra := false }

/- A shift to a state and a reduction to a symbol. -/
def shiftTo : ParseActionEntry :=
  { actions := [{ type := parseActionShift, state := state }] }

def reduceTo (symbol : Symbol) (childCount : UInt8) : ParseActionEntry :=
  { actions :=
      [{ type := parseActionReduce
         symbol := symbol
         childCount := childCount }] }

/- The rule for symbol 4 has one child. State 3 is entered from state 1 only. -/
def unaryLanguage : Language :=
  { stateCount := 8
    tokenCount := 4
    initialState := 1
    parseTable := [[], [0, 1, 0, 0, 5], [], [0, 0, 0, 2], [], [0, 0, 0, 3], [], []]
    parseActions := [{}, shiftTo 3, reduceTo 4 1, shiftTo 7] }

/-
  The rule for symbol 4 has two children. State 3 is entered from state 2, but its reduction exposes
  state 1.
-/
def binaryLanguage : Language :=
  { stateCount := 9
    tokenCount := 4
    initialState := 1
    parseTable :=
      [[], [0, 1, 0, 0, 5], [0, 0, 2, 0, 6], [0, 0, 0, 3], [], [0, 0, 0, 5], [0, 0, 0, 4], [], []]
    parseActions := [{}, shiftTo 2, shiftTo 3, reduceTo 4 2, shiftTo 7, shiftTo 8] }

/-
  State 4 is entered from state 3, and from state 1 by a
  goto of the side map, which the analysis does not see.
-/
def sideMapLanguage : Language :=
  { stateCount := 8
    tokenCount := 4
    initialState := 1
    parseTable :=
      [[], [0, 1, 2, 0, 5], [0, 0, 0, 3], [0, 4, 0, 0, 6], [0, 0, 0, 5], [0, 0, 0, 6], [0, 0, 0, 7],
        []]
    parseActions :=
      [{}, shiftTo 2, shiftTo 3, reduceTo 5 1, shiftTo 4, reduceTo 4 1, shiftTo 7, reduceTo 6 1]
    largeStateGotos := [((1, 5), 4)] }

/- The decoded form of a reduction. -/
def decodedReduce (symbol : Symbol) (childCount : UInt8) : Action :=
  { type := .reduce
    state := 0
    symbol := symbol
    childCount := childCount
    dynamicPrecedence := 0
    productionID := 0
    extra := false
    extraChain := false
    repetition := false }

namespace CorridorTables

/- A shift of a sole shift row, on plain entries. -/
lemma stackStep_shift
    {t : CorridorTables}
    {state target : StateID}
    (sym : Symbol)
    {row : ActionRow}
    {idx : UInt16}
    {action : Action}
    (hTerminal : sym.toUInt32 < t.tokenCount)
    (hRow : t.row state sym = .ok (row, idx))
    (hAction : row.actions = [action])
    (hType : action.type = .shift)
    (hEntry : shiftEntry action state = plainEntry target)
    (rest : LRStack) :
    t.StackStep (plainEntry state :: rest) (plainEntry state) (plainEntry target)
      (plainEntry target :: plainEntry state :: rest) := by
  rw [← hEntry]
  apply StackStep.shift hTerminal hRow _ hType
  rw [hAction]
  exact List.mem_singleton_self action

lemma unaryLanguage_seenRun : unaryLanguage.fusedTables.SeenRun [plainEntry 3, plainEntry 1] := by
  apply Run.step Run.start
  · exact stackStep_shift 1 (by decide) rfl rfl rfl rfl []
  · decide

theorem fused_row_is_landing_row_unary :
    ∃ body : BodyKind,
      unaryLanguage.fusedTables.reduceShiftCandidate 3 3 { actions := [decodedReduce 4 1] }
        2 = some body ∧
        ∃ (landing : StackEntry) (lower : LRStack) (second : ActionRow) (index : UInt16),
          unaryLanguage.fusedTables.reduceStack (decodedReduce 4 1) false
            [plainEntry 3, plainEntry 1] =
            some (landing :: lower) ∧
            unaryLanguage.fusedTables.row landing.state 3 = .ok (second, index) ∧
            body.secondRowIndex = index.toUInt32 := by
  have hFused : unaryLanguage.fusedTables.reduceShiftCandidate 3 3
      { actions := [decodedReduce 4 1] } 2 =
        some
          { op := .reduceShift
            targetState := 7
            rowIndex := 2
            shiftRowIndex := 3 } := by decide +kernel
  have hPop : popChildren (decodedReduce 4 1).childCount.toNat [plainEntry 3, plainEntry 1] =
      some [plainEntry 1] := rfl
  exact ⟨_, hFused, fused_row_is_landing_row unaryLanguage_seenRun rfl
      (.inr hFused) hPop (fun _ => .inl rfl) false⟩

lemma binaryLanguage_reachable :
    binaryLanguage.fusedTables.Reachable [plainEntry 3, plainEntry 2, plainEntry 1] := by
  apply Run.step _ _ trivial
  · exact [plainEntry 2, plainEntry 1]
  · exact plainEntry 2
  · exact plainEntry 3
  · apply Run.step Run.start _ trivial
    · exact plainEntry 1
    · exact plainEntry 2
    · exact stackStep_shift 1 (by decide) rfl rfl rfl rfl []
  · exact stackStep_shift 2 (by decide) rfl rfl rfl rfl _

lemma sideMapLanguage_reachable :
    sideMapLanguage.fusedTables.Reachable [plainEntry 4, plainEntry 1] := by
  have hShifted : sideMapLanguage.fusedTables.Reachable [plainEntry 2, plainEntry 1] :=
    Run.step Run.start (stackStep_shift 1 (by decide) rfl rfl rfl rfl []) trivial
  have hReduced : sideMapLanguage.fusedTables.StackStep [plainEntry 2, plainEntry 1]
      (plainEntry 1) (plainEntry 4) [plainEntry 4, plainEntry 1] := by
    have hRow : sideMapLanguage.fusedTables.row (plainEntry 2).state 3 =
        .ok ({ actions := [decodedReduce 5 1] }, 3) := rfl
    have hPop : popChildren (decodedReduce 5 1).childCount.toNat
        [plainEntry 2, plainEntry 1] =
        some [plainEntry 1] := rfl
    have hReduce : sideMapLanguage.fusedTables.reduceStack (decodedReduce 5 1) false
        [plainEntry 2, plainEntry 1] =
        some [plainEntry 4, plainEntry 1] := by decide +kernel
    exact StackStep.reduce (by decide) hRow (List.mem_singleton_self _) rfl hPop rfl hReduce
  exact Run.step hShifted hReduced trivial

/-
  Both fused instructions carry the row of one landing state while a reachable stack lands in
  another: the first when it pops two children, the second over a goto of the side map.
-/
theorem fused_rows_miss_landing :
    (newCorridorTables binaryLanguage fusedGates = .ok binaryLanguage.fusedTables ∧
      binaryLanguage.fusedTables.Reachable [plainEntry 3, plainEntry 2, plainEntry 1] ∧
      ∃ (row : ActionRow) (idx : UInt16) (action : Action) (body : BodyKind)
        (second : ActionRow) (index : UInt16),
        binaryLanguage.fusedTables.row 3 3 = .ok (row, idx) ∧ row.actions = [action] ∧
          binaryLanguage.fusedTables.reduceShiftCandidate 3 3 row idx = some body ∧
          binaryLanguage.fusedTables.reduceStack action false
            [plainEntry 3, plainEntry 2, plainEntry 1] =
            some [plainEntry 5, plainEntry 1] ∧
          binaryLanguage.fusedTables.row 5 3 = .ok (second, index) ∧
          body.secondRowIndex ≠ index.toUInt32) ∧
      newCorridorTables sideMapLanguage fusedGates = .ok sideMapLanguage.fusedTables ∧
      sideMapLanguage.fusedTables.Reachable [plainEntry 4, plainEntry 1] ∧
      ∃ (row : ActionRow) (idx : UInt16) (action : Action) (body : BodyKind)
        (second : ActionRow) (index : UInt16),
        sideMapLanguage.fusedTables.row 4 3 = .ok (row, idx) ∧ row.actions = [action] ∧
          sideMapLanguage.fusedTables.reduceChainCandidate 4 3 row idx = some body ∧
          sideMapLanguage.fusedTables.reduceStack action false [plainEntry 4, plainEntry 1] =
            some [plainEntry 5, plainEntry 1] ∧
          sideMapLanguage.fusedTables.row 5 3 = .ok (second, index) ∧
          body.secondRowIndex ≠ index.toUInt32 := by
  have hShift : binaryLanguage.fusedTables.reduceShiftCandidate 3 3
      { actions := [decodedReduce 4 2] } 3 =
        some
          { op := .reduceShift
            targetState := 7
            rowIndex := 3
            shiftRowIndex := 4 } := by decide +kernel
  have hChain : sideMapLanguage.fusedTables.reduceChainCandidate 4 3
      { actions := [decodedReduce 4 1] } 5 =
        some
          { op := .reduceChain
            targetState := 6
            rowIndex := 5
            chainRowIndex := 7 } := by decide +kernel
  refine ⟨⟨rfl, binaryLanguage_reachable, ?_⟩, rfl, sideMapLanguage_reachable, ?_⟩
  · exact ⟨_, _, decodedReduce 4 2, _, _, 5, rfl, rfl, hShift, by decide +kernel, rfl, by decide⟩
  · exact ⟨_, _, decodedReduce 4 1, _, _, 6, rfl, rfl, hChain, by decide +kernel, rfl, by decide⟩

end CorridorTables

end GoTreeSitter
