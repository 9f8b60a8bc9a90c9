import GoTreeSitter.ParserCore.Scheduler

/-
  Failed owned operations are never committed.

  Main declarations:
    * `Core.Exhausted`
    * `Keeps`
    * `Body.run_does`
    * `failed_operation_never_committed`
    * `run_leaves_nothing_open`

  While a frame is open, no call closes it or opens another, and every failure poisons it. Calls
  leave the open transactions as they were, unless a rollback panics because a counter is used up.
-/

-- Open Frames

namespace GoTreeSitter.ParserCore

open List

variable (c : Core) (transaction : Nat) (token : SchedulerTransactionToken) (cause : GoError)

lemma Result.fails_panicked (value : String) : (Result.panicked value).Fails := trivial

lemma Result.fails_error (err : GoError) : (Result.returned (some err)).Fails :=
  Option.some_ne_none err

/- The open frame stays, and stays poisoned. -/
structure StaysOpen (c c' : Core) : Prop where
  active : c'.schedulerFrame.active = true
  token : c'.token = c.token
  fresh : c'.schedulerFrame.fresh = c.schedulerFrame.fresh
  poisoned : c.schedulerFrame.poisoned ≠ none → c'.schedulerFrame.poisoned ≠ none

namespace StaysOpen

lemma refl {c : Core} (hActive : c.schedulerFrame.active) : StaysOpen c c := ⟨hActive, rfl, rfl, id⟩

lemma trans {c c' c'' : Core} (hFirst : StaysOpen c c') (hThen : StaysOpen c' c'') :
    StaysOpen c c'' :=
  ⟨hThen.active, hThen.token.trans hFirst.token, hThen.fresh.trans hFirst.fresh,
    fun h => hThen.poisoned (hFirst.poisoned h)⟩

lemma of_frame {c c' : Core} (hActive : c.schedulerFrame.active)
    (hFrame : c'.schedulerFrame = c.schedulerFrame) (hIdentity : c'.identity = c.identity) :
    StaysOpen c c' := by
  refine ⟨?_, ?_, ?_, ?_⟩
  · rw [hFrame]
    exact hActive
  · unfold Core.token
    rw [hFrame, hIdentity]
  · rw [hFrame]
  · rw [hFrame]
    exact id

end StaysOpen

namespace Core

variable {c : Core}

lemma poison_ne_none (frame : SchedulerTransactionFrame) (cause : GoError) :
    (frame.poison cause).poisoned ≠ none := by
  unfold SchedulerTransactionFrame.poison
  cases frame.poisoned <;> simp

lemma staysOpen_poison (hActive : c.schedulerFrame.active) (cause : GoError) :
    StaysOpen c (c.withFrame (c.schedulerFrame.poison cause)) :=
  ⟨hActive, rfl, rfl, fun _ => poison_ne_none _ _⟩

lemma staysOpen_poisonActive (hActive : c.schedulerFrame.active) (cause : GoError) :
    StaysOpen c (c.poisonActive cause) ∧ (c.poisonActive cause).schedulerFrame.poisoned ≠ none := by
  unfold poisonActive
  rw [if_pos hActive]
  exact ⟨staysOpen_poison hActive cause, poison_ne_none _ _⟩

/- Whatever the token, an open frame is poisoned. -/
lemma poisonActive_of_idle (hIdle : c.schedulerFrame.active = false) (cause : GoError) :
    c.poisonActive cause = c := by
  unfold poisonActive
  rw [hIdle]
  rfl

lemma staysOpen_poisonSchedulerTransaction (hActive : c.schedulerFrame.active)
    (token : SchedulerTransactionToken) (cause : GoError) :
    StaysOpen c (c.poisonSchedulerTransaction token cause).1 ∧
      (c.poisonSchedulerTransaction token cause).1.schedulerFrame.poisoned ≠ none := by
  unfold poisonSchedulerTransaction
  cases c.validateSchedulerTransaction token with
  | some err => exact staysOpen_poisonActive hActive err
  | none => exact ⟨staysOpen_poison hActive cause, poison_ne_none _ _⟩

lemma eq_token_of_validate {token : SchedulerTransactionToken}
    (hValid : c.validateSchedulerTransaction token = none) :
    token = c.token ∧ c.schedulerFrame.active := by
  unfold validateSchedulerTransaction at hValid
  split at hValid
  · cases hValid
  rename_i hOwner
  split at hValid
  · cases hValid
  rename_i hStale
  push Not at hOwner hStale
  rcases hStale with ⟨hActive, _, hEpoch, hTransaction⟩
  refine ⟨?_, by simpa using hActive⟩
  rcases token with ⟨owner, epoch, transaction⟩
  simp only at hOwner hEpoch hTransaction
  rw [hOwner, hEpoch, hTransaction]
  rfl

lemma beginSchedulerOwned_cases (c : Core) (token : SchedulerTransactionToken) :
    (c.beginSchedulerOwned token = (c, none) ∧ token = c.token ∧ c.schedulerFrame.active) ∨
      ∃ cause err,
        c.beginSchedulerOwned token =
          ((c.poisonSchedulerTransaction token cause).1, some err) ∧
          c.validateSchedulerTransaction token = some cause := by
  unfold beginSchedulerOwned
  cases hValid : c.validateSchedulerTransaction token with
  | none => exact .inl ⟨rfl, eq_token_of_validate hValid⟩
  | some err => exact .inr ⟨err, _, rfl, rfl⟩

end Core

-- Transactions and Counters

/- Outside the scheduler frame a step of a transaction only lets the counters grow. -/
structure Core.Advances (c c' : Core) : Prop where
  identity : c'.identity = c.identity
  phase : c.classificationPhase ≤ c'.classificationPhase
  generation : c.resetGeneration ≤ c'.resetGeneration
  cohorts : c.dropCohortEpoch ≤ c'.dropCohortEpoch

/- A step that leaves the frame as it is. -/
structure Core.SameFrame (c c' : Core) : Prop extends Core.Advances c c' where
  frame : c'.schedulerFrame = c.schedulerFrame

/- A counter that rollback or reset needs is used up. -/
def Core.Exhausted : Prop :=
  maxUint64 ≤ c.classificationPhase ∨ maxUint64 ≤ c.resetGeneration ∨ maxUint64 ≤ c.dropCohortEpoch

namespace Core

lemma Advances.refl : Advances c c := ⟨rfl, le_rfl, le_rfl, le_rfl⟩

lemma Advances.trans {c c' c'' : Core} (hFirst : Advances c c') (hThen : Advances c' c'') :
    Advances c c'' :=
  ⟨hThen.identity.trans hFirst.identity, hFirst.phase.trans hThen.phase, le_trans
    hFirst.generation hThen.generation, hFirst.cohorts.trans hThen.cohorts⟩

lemma Advances.exhausted {c c' : Core} (hAdvances : Advances c c') (hExhausted : c.Exhausted) :
    c'.Exhausted := by
  rcases hExhausted with h | h | h
  · exact .inl (h.trans hAdvances.phase)
  · exact .inr (.inl (h.trans hAdvances.generation))
  · exact .inr (.inr (h.trans hAdvances.cohorts))

lemma mark_cases :
    (∃ value, c.mark = .error value) ∨
      ∃ c' transaction,
        c.mark = .ok (c', transaction) ∧ SameFrame c c' ∧
          c'.transactions = transaction :: c.transactions := by
  unfold mark
  split_ifs with hMax
  · exact .inl ⟨_, rfl⟩
  refine .inr ⟨_, _, rfl, ?_, rfl⟩
  exact ⟨⟨rfl, le_rfl, le_rfl, le_rfl⟩, rfl⟩

lemma restoreCheckpoint_cases :
    (∃ value,
      c.restoreCheckpoint transaction = .error value ∧
        (c.transactions.head? = some transaction → c.Exhausted)) ∨
      ∃ c',
        c.restoreCheckpoint transaction = .ok c' ∧ SameFrame c c' ∧
          c'.transactions = c.transactions.tail := by
  unfold restoreCheckpoint assertTopTransaction
  split
  · by_cases hMax : c.classificationPhase = maxUint64
    · refine .inl ⟨_, if_pos hMax, ?_⟩
      exact fun _ => .inl hMax.symm.le
    · refine .inr ⟨_, if_neg hMax, ?_, rfl⟩
      exact ⟨⟨rfl, Nat.le_succ _, le_rfl, le_rfl⟩, rfl⟩
  · rename_i hTop
    exact .inl ⟨_, rfl, fun h => absurd h hTop⟩

lemma commit_cases :
    (∃ value, c.commit transaction = .error value ∧ c.transactions.head? ≠ some transaction) ∨
      ∃ c',
        c.commit transaction = .ok c' ∧ SameFrame c c' ∧ c'.transactions = c.transactions.tail := by
  unfold commit assertTopTransaction
  split_ifs with hTop
  · refine .inr ⟨_, rfl, ?_, rfl⟩
    exact ⟨⟨rfl, le_rfl, le_rfl, le_rfl⟩, rfl⟩
  · exact .inl ⟨_, rfl, hTop⟩

/- An ordinary transaction ends, or its end panics. -/
lemma completeTransaction_cases (o : Outcome) :
    (∃ c',
      completeTransaction transaction o = { o with core := c' } ∧ SameFrame o.core c' ∧
        c'.transactions = o.core.transactions.tail) ∨
      ∃ value,
        completeTransaction transaction o = { o with result := .panicked value } ∧
          (o.core.transactions.head? = some transaction → o.core.Exhausted) := by
  have hCases : (∃ value,
      endTransaction transaction o = .error value ∧
        (o.core.transactions.head? = some transaction → o.core.Exhausted)) ∨
      ∃ c',
        endTransaction transaction o = .ok c' ∧ SameFrame o.core c' ∧
          c'.transactions = o.core.transactions.tail := by
    unfold endTransaction
    split
    · rcases commit_cases o.core transaction with ⟨value, hError, hTop⟩ | hOk
      · exact .inl ⟨value, hError, fun h => absurd h hTop⟩
      · exact .inr hOk
    · exact restoreCheckpoint_cases o.core transaction
  unfold completeTransaction
  rcases hCases with ⟨value, hEnd, hTop⟩ | ⟨c', hEnd, hSame⟩
  · rw [hEnd]
    exact .inr ⟨value, rfl, hTop⟩
  · rw [hEnd]
    exact .inl ⟨c', rfl, hSame⟩

lemma beginFrontier_cases :
    (∃ err, c.beginFrontier = .error err) ∨
      ∃ c', c.beginFrontier = .ok c' ∧ SameFrame c c' ∧ c'.transactions = c.transactions := by
  unfold beginFrontier
  split
  · exact .inl ⟨_, rfl⟩
  split
  · exact .inl ⟨_, rfl⟩
  · refine .inr ⟨_, rfl, ?_, rfl⟩
    exact ⟨⟨rfl, Nat.le_succ _, le_rfl, le_rfl⟩, rfl⟩

lemma reset_cases :
    (∃ err,
      c.reset = .error err ∧
        (c.transactions = [] → c.schedulerFrame.active = false → c.Exhausted)) ∨
      ∃ c',
        c.reset = .ok c' ∧ Advances c c' ∧ c.schedulerFrame.active = false ∧
          c'.schedulerFrame = c.schedulerFrame.clearInactive ∧ c.transactions = [] ∧
          c'.transactions = [] := by
  unfold reset Exhausted
  split
  · rename_i hBusy
    refine .inl ⟨_, rfl, ?_⟩
    intro hNil hIdle
    rcases hBusy with h | h
    · exact absurd hNil h
    · simp [hIdle] at h
  rename_i hBusy
  push Not at hBusy
  split
  · exact .inl ⟨_, rfl, fun _ _ => by omega⟩
  split
  · exact .inl ⟨_, rfl, fun _ _ => by omega⟩
  split
  · exact .inl ⟨_, rfl, fun _ _ => by omega⟩
  refine .inr ⟨_, rfl, ?_, by simpa using hBusy.2, rfl, hBusy.1, rfl⟩
  exact ⟨rfl, Nat.le_succ _, Nat.le_succ _, Nat.le_succ _⟩

end Core

-- Calls Under an Open Frame

/- What can be seen while a frame is open. -/
def Event.Within (poisoned : Prop) : Event → Prop
  | .opened _ _ => False
  | .accepted t => t = token
  | .failed _ _ => poisoned
  | .declined t _ => t = token
  | .closed _ _ _ => False
  | .jammed _ => False

/- A call keeps the open frame and its failures poison it. -/
structure Keeps (c : Core) (o : Outcome) : Prop where
  staysOpen : StaysOpen c o.core
  within : ∀ e ∈ o.events, e.Within c.token (o.core.schedulerFrame.poisoned ≠ none)

variable {e : Event}

lemma Event.Within.mono {token : SchedulerTransactionToken} {p q : Prop} (hImp : p → q)
    (hWithin : e.Within token p) :
    e.Within token q := by
  cases e with
  | failed t result => exact hImp hWithin
  | _ => exact hWithin

namespace Keeps

variable {c : Core} {o : Outcome}

/- Calls without events. -/
lemma of_staysOpen {c' : Core} (hOpen : StaysOpen c c') (result : Result) :
    Keeps c ⟨c', [], result⟩ := ⟨hOpen, by simp⟩

/- The core changes once more. -/
lemma moved {c' : Core} (hKeeps : Keeps c o) (hOpen : StaysOpen o.core c') (result : Result) :
    Keeps c ⟨c', o.events, result⟩ :=
  ⟨hKeeps.staysOpen.trans hOpen, fun e he => (hKeeps.within e he).mono hOpen.poisoned⟩

/- And with new events. -/
lemma extend {c' : Core} (hKeeps : Keeps c o) (hOpen : StaysOpen o.core c') {events : List Event}
    (hWithin : ∀ e ∈ events, e.Within c.token (c'.schedulerFrame.poisoned ≠ none))
    (result : Result) :
    Keeps c ⟨c', o.events ++ events, result⟩ := by
  refine ⟨hKeeps.staysOpen.trans hOpen, ?_⟩
  intro e he
  rcases mem_append.mp he with hOld | hNew
  · exact (hKeeps.moved hOpen result).within e hOld
  · exact hWithin e hNew

lemma after {o' : Outcome} (hFirst : Keeps c o) (hThen : Keeps o.core o') :
    Keeps c (o'.after o.events) := by
  refine hFirst.extend hThen.staysOpen ?_ o'.result
  intro e he
  rw [← hFirst.staysOpen.token]
  exact hThen.within e he

section

variable (hKeeps : Keeps c o)

include hKeeps

lemma failed (seen result : Result) :
    Keeps c
      ⟨(o.core.poisonSchedulerTransaction token cause).1, o.events ++
        [.failed token seen], result⟩ := by
  have hPoison := Core.staysOpen_poisonSchedulerTransaction hKeeps.staysOpen.active token cause
  refine hKeeps.extend hPoison.1 ?_ result
  intro e he
  rw [mem_singleton.mp he]
  exact hPoison.2

lemma finishOwned : Keeps c (Core.finishOwned token o) := by
  unfold Core.finishOwned
  split
  · exact hKeeps.failed token _ _ _
  · exact hKeeps
  · exact hKeeps.failed token _ _ _

lemma finishConsume : Keeps c (Core.finishConsume c.token o) := by
  unfold Core.finishConsume
  split
  · split
    · refine hKeeps.extend (StaysOpen.refl hKeeps.staysOpen.active) ?_ o.result
      intro e he
      rw [mem_singleton.mp he]
      rfl
    · exact hKeeps.finishOwned _
  · exact hKeeps.finishOwned _

lemma applyInFresh : Keeps c (Core.applyInFresh token o) := by
  unfold Core.applyInFresh
  split
  · have hPoison := Core.staysOpen_poisonSchedulerTransaction hKeeps.staysOpen.active token
    exact hKeeps.moved (hPoison _).1 _
  · exact hKeeps

lemma completeTransaction : Keeps c (Core.completeTransaction transaction o) := by
  rcases Core.completeTransaction_cases transaction o with ⟨c', hCore, hSame, _⟩ | ⟨value, hCore, _⟩
  · rw [hCore]
    exact hKeeps.moved (.of_frame hKeeps.staysOpen.active hSame.frame hSame.identity) _
  · rw [hCore]
    exact ⟨hKeeps.staysOpen, hKeeps.within⟩

lemma accepted : Keeps c (o.after [.accepted c.token]) := by
  refine ⟨hKeeps.staysOpen, ?_⟩
  intro e he
  rcases mem_cons.mp he with rfl | hOld
  · rfl
  · exact hKeeps.within e hOld

end

lemma whenAccepted (hActive : c.schedulerFrame.active) {token : SchedulerTransactionToken}
    {operation : Core → Outcome} (hOperation : token = c.token → Keeps c (operation c)) :
    Keeps c (c.whenAccepted token operation) := by
  unfold Core.whenAccepted
  rcases c.beginSchedulerOwned_cases token with ⟨hBegin, hToken, _⟩ | ⟨cause, err, hBegin, _⟩
  · rw [hBegin]
    exact hOperation hToken
  · rw [hBegin]
    exact (Keeps.of_staysOpen (.refl hActive) (.returned none)).failed token _ _ _

end Keeps

lemma Body.run_step (call : Call) (recovers : Bool) (rest : Body) (c : Core) :
    (Body.step call recovers rest).run c = call.exec c ∨
      (Body.step call recovers rest).run c =
        (rest.run (call.exec c).core).after (call.exec c).events := by
  rw [Body.run.eq_def]
  dsimp only
  split
  · exact .inl rfl
  · exact .inr rfl

-- Open Transactions

/- A call leaves the open transactions as they were, unless a counter is used up. -/
structure Steady (c : Core) (o : Outcome) : Prop where
  advances : Core.Advances c o.core
  transactions : o.core.Exhausted ∨ o.core.transactions = c.transactions

namespace Core

lemma poisonActive_eq : ∃ frame, c.poisonActive cause = c.withFrame frame := by
  unfold poisonActive
  split
  · exact ⟨_, rfl⟩
  · exact ⟨c.schedulerFrame, rfl⟩

lemma poisonSchedulerTransaction_eq :
    ∃ frame, (c.poisonSchedulerTransaction token cause).1 = c.withFrame frame := by
  unfold poisonSchedulerTransaction
  cases c.validateSchedulerTransaction token with
  | some err => exact c.poisonActive_eq err
  | none => exact ⟨_, rfl⟩

end Core

namespace Steady

variable {c : Core} {o : Outcome}

lemma withFrame (hSteady : Steady c o) (frame : SchedulerTransactionFrame) (events : List Event)
    (result : Result) :
    Steady c ⟨o.core.withFrame frame, events, result⟩ :=
  ⟨⟨hSteady.advances.identity, hSteady.advances.phase, hSteady.advances.generation,
      hSteady.advances.cohorts⟩, hSteady.transactions⟩

lemma refl (c : Core) (events : List Event) (result : Result) : Steady c ⟨c, events, result⟩ :=
  ⟨Core.Advances.refl c, .inr rfl⟩

lemma poisonActive (c : Core) (cause : GoError) (events : List Event) (result : Result) :
    Steady c ⟨c.poisonActive cause, events, result⟩ := by
  rcases c.poisonActive_eq cause with ⟨frame, hFrame⟩
  rw [hFrame]
  exact (Steady.refl c [] result).withFrame _ _ _

lemma poisoned (hSteady : Steady c o) (token : SchedulerTransactionToken) (cause : GoError)
    (events : List Event) (result : Result) :
    Steady c ⟨(o.core.poisonSchedulerTransaction token cause).1, events, result⟩ := by
  rcases o.core.poisonSchedulerTransaction_eq token cause with ⟨frame, hFrame⟩
  rw [hFrame]
  exact hSteady.withFrame _ _ _

lemma trans {o' : Outcome} (hFirst : Steady c o) (hThen : Steady o.core o') : Steady c o' := by
  refine ⟨hFirst.advances.trans hThen.advances, ?_⟩
  rcases hFirst.transactions with hOut | hSame
  · exact .inl (hThen.advances.exhausted hOut)
  · rw [← hSame]
    exact hThen.transactions

lemma after (hSteady : Steady c o) (events : List Event) : Steady c (o.after events) :=
  ⟨hSteady.advances, hSteady.transactions⟩

section

variable (hSteady : Steady c o) (token : SchedulerTransactionToken)

include hSteady

lemma finishOwned : Steady c (Core.finishOwned token o) := by
  unfold Core.finishOwned
  split
  · exact hSteady.poisoned token _ _ _
  · exact hSteady
  · exact hSteady.poisoned token _ _ _

lemma finishConsume : Steady c (Core.finishConsume token o) := by
  unfold Core.finishConsume
  split
  · split
    · exact ⟨hSteady.advances, hSteady.transactions⟩
    · exact hSteady.finishOwned token
  · exact hSteady.finishOwned token

lemma applyInFresh : Steady c (Core.applyInFresh token o) := by
  unfold Core.applyInFresh
  split
  · exact hSteady.poisoned token _ _ _
  · exact hSteady

end

lemma whenAccepted {token : SchedulerTransactionToken} {operation : Core → Outcome}
    (hOperation : Steady c (operation c)) :
    Steady c (c.whenAccepted token operation) := by
  unfold Core.whenAccepted
  rcases c.beginSchedulerOwned_cases token with ⟨hBegin, _⟩ | ⟨cause, err, hBegin, _⟩
  · rw [hBegin]
    exact hOperation
  · rw [hBegin]
    exact (Steady.refl c [] (.returned none)).poisoned _ _ _ _

variable {c' : Core} {transaction : Nat} (hMark : Core.Advances c c')
  (hPushed : c'.transactions = transaction :: c.transactions) (hBody : Steady c' o)

include hMark hPushed hBody

/- A transaction on top is taken off at its end. -/
lemma pop {c'' : Core} (hEnd : Core.Advances o.core c'')
    (hTail : c''.transactions = o.core.transactions.tail) (events : List Event) (result : Result) :
    Steady c ⟨c'', events, result⟩ := by
  refine ⟨(hMark.trans hBody.advances).trans hEnd, ?_⟩
  rcases hBody.transactions with hOut | hSame
  · exact .inl (hEnd.exhausted hOut)
  refine .inr ?_
  rw [hTail, hSame, hPushed]
  rfl

/- A transaction whose end panics has used up a counter. -/
lemma stuck (hTop : o.core.transactions.head? = some transaction → o.core.Exhausted) :
    o.core.Exhausted ∧ ∀ events result, Steady c ⟨o.core, events, result⟩ := by
  have hOut : o.core.Exhausted := by
    rcases hBody.transactions with hOut | hSame
    · exact hOut
    refine hTop ?_
    rw [hSame, hPushed]
    rfl
  exact ⟨hOut, fun _ _ => ⟨hMark.trans hBody.advances, .inl hOut⟩⟩

end Steady

-- Ends of Frames

namespace Core

/-
  The end of a transaction frame. It is closed, committed only without poison, or stays open when
  its rollback panics.
-/
structure EndsApply (token : SchedulerTransactionToken) (o o' : Outcome) : Prop where
  cases : (∃ c' ending, o' = ⟨c'.withFrame c'.schedulerFrame.clearInactive, o.events ++ [.closed
      token ending o'.result], o'.result⟩ ∧ SameFrame o.core c' ∧ c'.transactions =
      o.core.transactions.tail ∧ ((ending = .rolledBack ∧ o'.result.Fails) ∨ (ending =
      .committed ∧ o.core.schedulerFrame.poisoned = none))) ∨ ∃ value, o' = ⟨o.core, o.events ++
      [.jammed token], .panicked value⟩ ∧ (o.core.transactions.head? = some token.transaction →
      o.core.Exhausted)

lemma endsApply_rollBackFrame {result : Result} (hFails : result.Fails) (o : Outcome) :
    EndsApply token o (rollBackFrame token result o) := by
  refine ⟨?_⟩
  unfold rollBackFrame
  rcases restoreCheckpoint_cases o.core token.transaction with
    ⟨value, hRestore, hTop⟩ | ⟨c', hRestore, hSame, hTail⟩
  · rw [hRestore]
    exact .inr ⟨value, rfl, hTop⟩
  · rw [hRestore]
    exact .inl ⟨c', .rolledBack, rfl, hSame, hTail, .inl ⟨rfl, hFails⟩⟩

variable (o : Outcome)

lemma endsApply_commitFrame (hClean : o.core.schedulerFrame.poisoned = none) :
    EndsApply token o (commitFrame token o) := by
  refine ⟨?_⟩
  unfold commitFrame
  rcases commit_cases o.core token.transaction with
    ⟨value, hCommit, hTop⟩ | ⟨c', hCommit, hSame, hTail⟩
  · rw [hCommit]
    exact .inr ⟨value, rfl, fun h => absurd h hTop⟩
  · rw [hCommit]
    exact .inl ⟨c', .committed, rfl, hSame, hTail, .inr ⟨rfl, hClean⟩⟩

/- Without an error of its own or a poison, none is returned. -/
lemma poisoned_eq_none_of_endError {c : Core} {message : String} {err : Option GoError}
    (hNone : c.endError message err = none) :
    c.schedulerFrame.poisoned = none := by
  cases err with
  | some err => cases hNone
  | none => exact Option.map_eq_none_iff.mp hNone

lemma endsApply_finishApply : EndsApply token o (finishApply token o) := by
  unfold finishApply
  split
  · exact endsApply_rollBackFrame token (Result.fails_panicked _) o
  split
  · exact endsApply_rollBackFrame token (Result.fails_error _) o
  · rename_i hNone
    exact endsApply_commitFrame token o (poisoned_eq_none_of_endError hNone)

/- The end of a fresh session. It is closed, committed only without poison, and otherwise reset. -/
structure EndsFresh (token : SchedulerTransactionToken) (o o' : Outcome) : Prop where
  advances : Advances o.core o'.core
  frame : o'.core.schedulerFrame = o.core.schedulerFrame.clearInactive
  transactions : o'.core.transactions = o.core.transactions
  ending : ∃ ending, o'.events = o.events ++ [.closed token ending o'.result] ∧ ((ending = .reset ∧
      o'.result.Fails) ∨ (ending = .resetFailed ∧ o'.result.Fails ∧ (o.core.transactions = [] →
      o.core.Exhausted)) ∨ (ending = .committed ∧ o.core.schedulerFrame.poisoned = none))

lemma endsFresh_finishFresh : EndsFresh token o (finishFresh token o) := by
  have hCleared : Advances o.core (o.core.withFrame o.core.schedulerFrame.clearInactive) :=
    ⟨rfl, le_rfl, le_rfl, le_rfl⟩
  unfold finishFresh
  dsimp only
  split
  · rcases reset_cases (o.core.withFrame o.core.schedulerFrame.clearInactive) with
      ⟨err, hReset, hOut⟩ | ⟨c', hReset, hAdvances, _, hFrame, hNil, hNil'⟩
    · rw [hReset]
      exact ⟨hCleared, rfl, rfl, .resetFailed, rfl, .inr (.inl ⟨rfl, Result.fails_panicked _,
          fun hNil => hOut hNil rfl⟩)⟩
    · rw [hReset]
      exact ⟨hCleared.trans hAdvances, hFrame, hNil'.trans hNil.symm, .reset, rfl,
        .inl ⟨rfl, Result.fails_panicked _⟩⟩
  split
  · rcases reset_cases (o.core.withFrame o.core.schedulerFrame.clearInactive) with
      ⟨err, hReset, hOut⟩ | ⟨c', hReset, hAdvances, _, hFrame, hNil, hNil'⟩
    · rw [hReset]
      exact ⟨hCleared, rfl, rfl, .resetFailed, rfl, .inr (.inl ⟨rfl, Result.fails_error _,
          fun hNil => hOut hNil rfl⟩)⟩
    · rw [hReset]
      exact ⟨hCleared.trans hAdvances, hFrame, hNil'.trans hNil.symm, .reset, rfl,
        .inl ⟨rfl, Result.fails_error _⟩⟩
  · rename_i hNone
    exact ⟨hCleared, rfl, rfl, .committed, rfl, .inr (.inr ⟨rfl,
        poisoned_eq_none_of_endError hNone⟩)⟩

lemma beginFresh_cases
    (c : Core) :
    (∃ c' err,
      c.beginFresh = .error (c', err) ∧ (c' = c ∨ (∃ cause, c' = c.poisonActive cause))) ∨
      ∃ c',
        c.beginFresh = .ok c' ∧ Advances c c' ∧ c.schedulerFrame.active = false ∧
          c.transactions = [] ∧ c'.transactions = [] ∧ c'.schedulerFrame.active ∧
          c'.schedulerFrame.poisoned = none ∧
          c'.schedulerFrame.epoch = c.schedulerFrame.epoch + 1 := by
  unfold beginFresh
  split
  · exact .inl ⟨_, _, rfl, .inr ⟨_, rfl⟩⟩
  rename_i hActive
  split
  · exact .inl ⟨_, _, rfl, .inl rfl⟩
  rename_i hBusy
  push Not at hBusy
  split
  · exact .inl ⟨_, _, rfl, .inl rfl⟩
  unfold advanceDropCohortEpoch
  split
  · exact .inl ⟨_, _, rfl, .inl rfl⟩
  rename_i c' hAdvance
  split at hAdvance
  · cases hAdvance
  cases hAdvance
  refine .inr ⟨_, rfl, ?_, by simpa using hActive, hBusy, hBusy, rfl, rfl, rfl⟩
  exact ⟨rfl, le_rfl, le_rfl, Nat.le_succ _⟩

end Core

-- Calls and Open Transactions

namespace Steady

variable {token : SchedulerTransactionToken}

/- A frame that ended took its transaction with it. -/
lemma endsApply {c c' : Core} {o o' : Outcome} (hMark : Core.Advances c c')
    (hPushed : c'.transactions = token.transaction :: c.transactions) (hBody : Steady c' o)
    (hEnds : Core.EndsApply token o o') :
    Steady c o' := by
  rcases hEnds.cases with ⟨c'', ending, hEq, hSame, hTail, _⟩ | ⟨value, hEq, hTop⟩
  · rw [hEq]
    exact (Steady.pop hMark hPushed hBody hSame.toAdvances
      hTail [] (.returned none)).withFrame _ _ _
  · rw [hEq]
    exact (Steady.stuck hMark hPushed hBody hTop).2 _ _

lemma completeTransaction {c c' : Core} {o : Outcome} {transaction : Nat}
    (hMark : Core.Advances c c') (hPushed : c'.transactions = transaction :: c.transactions)
    (hBody : Steady c' o) :
    Steady c (Core.completeTransaction transaction o) := by
  rcases Core.completeTransaction_cases transaction o with
    ⟨c'', hEq, hSame, hTail⟩ | ⟨value, hEq, hTop⟩
  · rw [hEq]
    exact Steady.pop hMark hPushed hBody hSame.toAdvances hTail _ _
  · rw [hEq]
    exact (Steady.stuck hMark hPushed hBody hTop).2 _ _

lemma endsFresh {c : Core} {o o' : Outcome} (hBody : Steady c o)
    (hEnds : Core.EndsFresh token o o') :
    Steady c o' := by
  refine hBody.trans ⟨hEnds.advances, .inr ?_⟩
  exact hEnds.transactions

end Steady

-- Histories

/- The event says that a token's frame is there. -/
def Event.Names (token : SchedulerTransactionToken) : Event → Prop
  | .opened t _ => t = token
  | .accepted t => t = token
  | .closed t _ _ => t = token
  | _ => False

/- What can be seen while a frame stays open for good. -/
def Event.Open (token : SchedulerTransactionToken) : Event → Prop
  | .opened _ _ => False
  | .accepted t => t = token
  | .closed _ _ _ => False
  | _ => True

variable {token : SchedulerTransactionToken}

lemma Event.Within.isOpen {poisoned : Prop} (hWithin : e.Within token poisoned) : e.Open token := by
  cases e with
  | opened | accepted | closed => exact hWithin
  | _ => trivial

lemma Event.Open.eq_of_names {token t : SchedulerTransactionToken} (hOpen : e.Open token)
    (hNames : e.Names t) :
    t = token := by
  cases e with
  | accepted t' => exact (show t' = t from hNames) ▸ hOpen
  | opened | closed => exact False.elim hOpen
  | _ => exact False.elim hNames

lemma sublist_of_last_notMem (front : List Event) {t u : List Event} {last : Event}
    (hNotMem : last ∉ u) (hSub : (front ++ [last]).Sublist (t ++ u)) :
    (front ++ [last]).Sublist t := by
  rcases sublist_append_iff.mp hSub with ⟨l, l', hEq, hl, hl'⟩
  rcases eq_nil_or_concat l' with rfl | ⟨front', y, rfl⟩
  · rw [hEq, append_nil]
    exact hl
  have hLast : last = y := by
    have h := congrArg List.getLast? hEq
    simpa using h
  exact absurd (hl'.subset (by simp [hLast])) hNotMem

/-
  The events of calls that begin and end with no open frame, with frames of epochs after the first
  bound, up to the last.
-/
structure Sound (out : Prop) (lo hi : Nat) (events : List Event) : Prop where
  le : lo ≤ hi
  range : ∀ e ∈ events, ∀ token, e.Names token → lo < token.epoch ∧ token.epoch ≤ hi
  closes : ∀ token fresh, .opened token fresh ∈ events → out ∨
      ∃ ending result, .closed token ending result ∈ events
  failing : ∀ token fresh seen ending result, [.opened token fresh, .failed token seen,
      .closed token ending result].Sublist events →
    result.Fails ∧ (out ∨ ending = if fresh then .reset else .rolledBack) ∧ ending ≠ .committed
  stale : ∀ token ending result, ¬ [.closed token ending result, .accepted token].Sublist events

namespace Sound

variable {out : Prop} {lo hi : Nat}

lemma nil (hLe : lo ≤ hi) : Sound out lo hi [] where
  le := hLe
  range := by simp
  closes := by simp
  failing := by simp
  stale := by simp

/- One event is too few for a frame that fails or is used late. -/
lemma single (hLe : lo ≤ hi)
    (hRange : ∀ token, e.Names token → lo < token.epoch ∧ token.epoch ≤ hi)
    (hCloses : ∀ token fresh, e = .opened token fresh → out) :
    Sound out lo hi [e] where
  le := hLe
  range := by simpa using hRange
  closes := fun token fresh hOpened => .inl (hCloses token fresh (mem_singleton.mp hOpened).symm)
  failing := fun _ _ _ _ _ hSub => absurd hSub.length_le (by simp)
  stale := fun _ _ _ hSub => absurd hSub.length_le (by simp)

/- Failures and declines with no frame open. -/
lemma unnamed (hNone : ∀ token, ¬ e.Names token) : Sound out lo lo [e] := by
  refine .single (le_refl lo) (fun token hNames => absurd hNames (hNone token)) ?_
  intro token fresh hOpened
  rw [hOpened] at hNone
  exact absurd rfl (hNone token)

variable {mid : Nat} {t u : List Event} {token : SchedulerTransactionToken} {events : List Event}

/- Events of one frame are all early or all late. -/
lemma whole (hFirst : Sound out lo mid t) (hThen : Sound out mid hi u) (a b : Event)
    (between : List Event) (ha : a.Names token) (hb : b.Names token)
    (hSub : (a :: (between ++ [b])).Sublist (t ++ u)) :
    (a :: (between ++ [b])).Sublist t ∨ (a :: (between ++ [b])).Sublist u := by
  rcases sublist_append_iff.mp hSub with ⟨l, l', hEq, hl, hl'⟩
  cases l with
  | nil =>
    rw [hEq]
    exact .inr hl'
  | cons x l =>
    rcases eq_nil_or_concat l' with rfl | ⟨front, y, rfl⟩
    · rw [hEq, append_nil]
      exact .inl hl
    have hParts : a = x ∧ between ++ [b] = (l ++ front) ++ [y] := by
      rw [concat_eq_append, cons_append, ← append_assoc] at hEq
      exact List.cons.inj hEq
    have hLast := append_inj_right' hParts.2 rfl
    have hEarly := hFirst.range x (hl.subset mem_cons_self) token (hParts.1 ▸ ha)
    have hLate := hThen.range y (hl'.subset (by simp)) token ((List.cons.inj hLast).1 ▸ hb)
    omega

lemma append (hFirst : Sound out lo mid t) (hThen : Sound out mid hi u) :
    Sound out lo hi (t ++ u) where
  le := hFirst.le.trans hThen.le
  range := by
    intro e he token hNames
    have hMid := hFirst.le
    have hMid' := hThen.le
    rcases mem_append.mp he with h | h
    · have := hFirst.range e h token hNames
      omega
    · have := hThen.range e h token hNames
      omega
  closes := by
    intro token fresh hOpened
    rcases mem_append.mp hOpened with h | h
    · rcases hFirst.closes token fresh h with hOut | ⟨ending, result, hClosed⟩
      · exact .inl hOut
      · exact .inr ⟨ending, result, mem_append_left _ hClosed⟩
    rcases hThen.closes token fresh h with hOut | ⟨ending, result, hClosed⟩
    · exact .inl hOut
    · exact .inr ⟨ending, result, mem_append_right _ hClosed⟩
  failing := by
    intro token fresh seen ending result hSub
    have hWhole := hFirst.whole hThen (.opened token fresh) (.closed token ending result) [.failed
        token seen] rfl rfl hSub
    rcases hWhole with h | h
    · exact hFirst.failing token fresh seen ending result h
    · exact hThen.failing token fresh seen ending result h
  stale := by
    intro token ending result hSub
    have hWhole := hFirst.whole hThen (.closed token ending result)
        (.accepted token) [] rfl rfl hSub
    rcases hWhole with h | h
    · exact hFirst.stale token ending result h
    · exact hThen.stale token ending result h

lemma mono {out' : Prop} (hImp : out → out') (hSound : Sound out lo hi events) :
    Sound out' lo hi events where
  le := hSound.le
  range := hSound.range
  closes := by
    intro token fresh hOpened
    exact (hSound.closes token fresh hOpened).imp_left hImp
  failing := by
    intro token fresh seen ending result hSub
    have hFails := hSound.failing token fresh seen ending result hSub
    exact ⟨hFails.1, hFails.2.1.imp_left hImp, hFails.2.2⟩
  stale := hSound.stale

/- A frame from its beginning to its end. -/
lemma session {poisoned : Prop} {fresh : Bool} {ending : Ending} {result : Result}
    (hEpoch : token.epoch = lo + 1) (hWithin : ∀ e ∈ events, e.Within token poisoned)
    (hEnding : poisoned →
      result.Fails ∧ (out ∨ ending = if fresh then .reset else .rolledBack) ∧ ending ≠ .committed) :
    Sound out lo token.epoch
      (.opened token fresh :: (events ++ [.closed token ending result])) where
  le := by omega
  range := by
    have hRange : lo < token.epoch ∧ token.epoch ≤ token.epoch := ⟨by omega, le_rfl⟩
    intro e he t hNames
    rcases mem_cons.mp he with rfl | he
    · rw [← (show token = t from hNames)]
      exact hRange
    rcases mem_append.mp he with he | he
    · rw [(hWithin e he).isOpen.eq_of_names hNames]
      exact hRange
    rw [mem_singleton.mp he] at hNames
    rw [← (show token = t from hNames)]
    exact hRange
  closes := by
    intro t fresh' hOpened
    have hOut : .opened t fresh' ∉ events := fun h => hWithin _ h
    have hSame : t = token ∧ fresh' = fresh := by simpa [hOut] using hOpened
    rw [hSame.1]
    exact .inr ⟨ending, result, by simp⟩
  failing := by
    intro t fresh' seen ending' result' hSub
    have hFailed : .failed t seen ∈ events := by
      have hMem := hSub.subset (mem_cons_of_mem _ mem_cons_self)
      simpa using hMem
    have hOpened : t = token ∧ fresh' = fresh := by
      have hOut : .opened t fresh' ∉ events := fun h => hWithin _ h
      simpa [hOut] using hSub.subset mem_cons_self
    have hClosed : t = token ∧ ending' = ending ∧ result' = result := by
      have hOut : .closed t ending' result' ∉ events := fun h => hWithin _ h
      simpa [hOut] using hSub.subset (mem_cons_of_mem _ (mem_cons_of_mem _ mem_cons_self))
    rw [hClosed.2.1, hClosed.2.2, hOpened.2]
    exact hEnding (hWithin _ hFailed)
  stale := by
    intro t ending' result' hSub
    have hFront : .closed t ending' result' ∉ (.opened token fresh :: events) := by
      have hOut : .closed t ending' result' ∉ events := fun h => hWithin _ h
      simpa using hOut
    rw [← cons_append] at hSub
    rcases sublist_append_iff.mp hSub with ⟨l, l', hEq, hl, hl'⟩
    cases l with
    | nil =>
      rw [nil_append] at hEq
      rw [← hEq] at hl'
      exact absurd hl'.length_le (by simp)
    | cons x l =>
      rw [← (List.cons.inj hEq).1] at hl
      exact hFront (hl.subset mem_cons_self)

lemma opened {lo : Nat} (hEpoch : token.epoch = lo + 1) (fresh : Bool) :
    Sound True lo token.epoch [.opened token fresh] := by
  refine .single (by omega) ?_ fun _ _ _ => trivial
  intro t hNames
  rw [← (show token = t from hNames)]
  omega

/- A frame that is open for good sees no end. -/
lemma extend {lo : Nat} (token : SchedulerTransactionToken) {t u : List Event}
    (hSound : Sound True lo token.epoch t) (hLo : lo < token.epoch)
    (hNever : ∀ ending result, .closed token ending result ∉ t) (hOpen : ∀ e ∈ u, e.Open token) :
    Sound True lo token.epoch (t ++ u) where
  le := hSound.le
  range := by
    intro e he t' hNames
    rcases mem_append.mp he with h | h
    · exact hSound.range e h t' hNames
    · rw [(hOpen e h).eq_of_names hNames]
      exact ⟨hLo, le_rfl⟩
  closes := fun _ _ _ => .inl trivial
  failing := by
    intro t' fresh seen ending result hSub
    refine hSound.failing t' fresh seen ending result ?_
    exact sublist_of_last_notMem [.opened t' fresh, .failed t' seen] (fun h => hOpen _ h) hSub
  stale := by
    intro t' ending result hSub
    by_cases hLast : .accepted t' ∈ u
    · have hClosed := hSub.subset mem_cons_self
      rw [show t' = token from hOpen _ hLast] at hClosed
      rcases mem_append.mp hClosed with h | h
      · exact hNever ending result h
      · exact hOpen _ h
    · exact hSound.stale t' ending result
        (sublist_of_last_notMem [.closed t' ending result] hLast hSub)

end Sound

-- Whole Runs

/-
  The events of a run are sound. A frame that is still open at its end is open because a counter is
  used up.
-/
structure Ran (c : Core) (o : Outcome) : Prop where
  sound : Sound o.core.Exhausted c.schedulerFrame.epoch o.core.schedulerFrame.epoch o.events
  jammed : o.core.schedulerFrame.active = true → o.core.Exhausted ∧ c.schedulerFrame.epoch <
      o.core.schedulerFrame.epoch ∧ ∀ ending result, .closed o.core.token ending result ∉ o.events

namespace Ran

variable {c c' : Core} {o o' : Outcome}

/- Nothing is seen and no frame is open. -/
lemma quiet (hLe : c.schedulerFrame.epoch ≤ c'.schedulerFrame.epoch)
    (hIdle : c'.schedulerFrame.active = false) (result : Result) :
    Ran c ⟨c', [], result⟩ where
  sound := .nil hLe
  jammed := by
    intro hActive
    simp [hIdle] at hActive

section

variable (hIdle : c.schedulerFrame.active = false) (token : SchedulerTransactionToken)

include hIdle

lemma refl (result : Result) : Ran c ⟨c, [], result⟩ := .quiet le_rfl hIdle result

lemma failed (seen result : Result) : Ran c ⟨c, [.failed token seen], result⟩ where
  sound := .unnamed fun _ h => h
  jammed := by
    intro hActive
    simp [hIdle] at hActive

lemma poisoned (cause : GoError) (seen result : Result) :
    Ran c ⟨(c.poisonSchedulerTransaction token cause).1, [.failed token seen], result⟩ := by
  unfold Core.poisonSchedulerTransaction
  cases hValid : c.validateSchedulerTransaction token with
  | none =>
    have hActive := (Core.eq_token_of_validate hValid).2
    simp [hIdle] at hActive
  | some err =>
    dsimp only
    rw [Core.poisonActive_of_idle hIdle]
    exact .failed hIdle token seen result

lemma whenAccepted (operation : Core → Outcome) : Ran c (c.whenAccepted token operation) := by
  unfold Core.whenAccepted
  rcases c.beginSchedulerOwned_cases token with ⟨_, _, hActive⟩ | ⟨cause, err, hBegin, _⟩
  · simp [hIdle] at hActive
  · rw [hBegin]
    exact .poisoned hIdle token _ _ _

end

/- Only the frame matters before and after. -/
lemma congr {c'' : Core} (hRan : Ran c' o) (hBefore : c'.schedulerFrame = c.schedulerFrame)
    (hAfter : Core.SameFrame o.core c'') (result : Result) :
    Ran c ⟨c'', o.events, result⟩ where
  sound := by
    have hSound := hRan.sound.mono hAfter.exhausted
    rw [hBefore] at hSound
    rw [hAfter.frame]
    exact hSound
  jammed := by
    intro hActive
    rw [hAfter.frame] at hActive
    have hJam := hRan.jammed hActive
    have hToken : c''.token = o.core.token := by
      unfold Core.token
      rw [hAfter.frame, hAfter.identity]
    refine ⟨hAfter.exhausted hJam.1, ?_, ?_⟩
    · rw [hAfter.frame, ← hBefore]
      exact hJam.2.1
    · rw [hToken]
      exact hJam.2.2

/- After a run without an open frame comes another run. -/
lemma after (hFirst : Ran c o) (hThen : Ran o.core o') (hAdvances : Core.Advances o.core o'.core) :
    Ran c (o'.after o.events) where
  sound := (hFirst.sound.mono hAdvances.exhausted).append hThen.sound
  jammed := by
    intro hActive
    have hJam := hThen.jammed hActive
    have hLe := hFirst.sound.le
    refine ⟨hJam.1, hLe.trans_lt hJam.2.1, ?_⟩
    intro ending result hMem
    rcases mem_append.mp hMem with h | h
    · have hRange := hFirst.sound.range _ h o'.core.token rfl
      exact absurd hRange.2 (Nat.not_le.mpr hJam.2.1)
    · exact hJam.2.2 ending result h

/- After a frame stays open its calls follow. -/
lemma extend (hFirst : Ran c o) (hActive : o.core.schedulerFrame.active)
    (hKeeps : Keeps o.core o') (hAdvances : Core.Advances o.core o'.core) :
    Ran c (o'.after o.events) := by
  have hJam := hFirst.jammed hActive
  have hOut := hAdvances.exhausted hJam.1
  have hToken := hKeeps.staysOpen.token
  have hEpoch : o'.core.schedulerFrame.epoch = o.core.schedulerFrame.epoch :=
    congrArg SchedulerTransactionToken.epoch hToken
  have hOpen : ∀ e ∈ o'.events, e.Open o.core.token := fun e he => (hKeeps.within e he).isOpen
  refine ⟨?_, fun _ => ⟨hOut, ?_, ?_⟩⟩
  · have hSound := Sound.extend o.core.token (hFirst.sound.mono fun _ => trivial) hJam.2.1 hJam.2.2
        hOpen
    show Sound o'.core.Exhausted c.schedulerFrame.epoch
      o'.core.schedulerFrame.epoch (o.events ++ o'.events)
    rw [hEpoch]
    exact hSound.mono fun _ => hOut
  · show c.schedulerFrame.epoch < o'.core.schedulerFrame.epoch
    rw [hEpoch]
    exact hJam.2.1
  · intro ending result hMem
    change .closed o'.core.token ending result ∈ o.events ++ o'.events at hMem
    rw [hToken] at hMem
    rcases mem_append.mp hMem with h | h
    · exact hJam.2.2 ending result h
    · exact hOpen _ h

/- A transaction frame from its beginning to its end. -/
lemma endsApply (hEpoch : c'.schedulerFrame.epoch = c.schedulerFrame.epoch + 1)
    (hMark : Core.Advances c c')
    (hPushed : c'.transactions = c'.token.transaction :: c.transactions) (hKeeps : Keeps c' o)
    (hSteady : Steady c' o)
    (hEnds : Core.EndsApply c'.token (o.after [.opened c'.token false]) o') :
    Ran c o' := by
  have hToken := hKeeps.staysOpen.token
  have hLast : o.core.schedulerFrame.epoch = c'.token.epoch :=
    congrArg SchedulerTransactionToken.epoch hToken
  rcases hEnds.cases with ⟨c'', ending, hEq, hSame, _, hEnding⟩ | ⟨value, hEq, hTop⟩
  · rw [hEq]
    refine ⟨?_, nofun⟩
    rw [hSame.frame]
    show Sound _ c.schedulerFrame.epoch o.core.schedulerFrame.epoch _
    rw [hLast]
    refine .session hEpoch hKeeps.within ?_
    intro hPoisoned
    rcases hEnding with ⟨rfl, hFails⟩ | ⟨_, hClean⟩
    · exact ⟨hFails, .inr rfl, by decide⟩
    · exact absurd hClean hPoisoned
  have hOut := (Steady.stuck hMark hPushed (hSteady.after _) hTop).1
  have hOpen : ∀ e ∈ o.events ++ [.jammed c'.token], e.Open c'.token := by
    intro e he
    rcases mem_append.mp he with h | h
    · exact (hKeeps.within e h).isOpen
    · rw [mem_singleton.mp h]
      trivial
  have hLo : c.schedulerFrame.epoch < c'.token.epoch := by
    show c.schedulerFrame.epoch < c'.schedulerFrame.epoch
    omega
  rw [hEq]
  refine ⟨?_, fun _ => ⟨hOut, ?_, ?_⟩⟩
  · show Sound _ c.schedulerFrame.epoch o.core.schedulerFrame.epoch
      ([.opened c'.token false] ++ (o.events ++ [.jammed c'.token]))
    rw [hLast]
    refine (Sound.extend c'.token (Sound.opened hEpoch false) hLo (by simp) hOpen).mono
      fun _ => hOut
  · show c.schedulerFrame.epoch < o.core.schedulerFrame.epoch
    rw [hLast]
    exact hLo
  · intro ending result hMem
    rcases mem_cons.mp hMem with h | h
    · cases h
    · exact hOpen _ h

lemma endsFresh (hEpoch : c'.schedulerFrame.epoch = c.schedulerFrame.epoch + 1)
    (hNil : c'.transactions = []) (hKeeps : Keeps c' o) (hSteady : Steady c' o)
    (hEnds : Core.EndsFresh c'.token (o.after [.opened c'.token true]) o') :
    Ran c o' := by
  have hToken := hKeeps.staysOpen.token
  have hLast : o.core.schedulerFrame.epoch = c'.token.epoch :=
    congrArg SchedulerTransactionToken.epoch hToken
  rcases hEnds.ending with ⟨ending, hEvents, hEnding⟩
  constructor
  · rw [hEvents, hEnds.frame]
    show Sound _ c.schedulerFrame.epoch o.core.schedulerFrame.epoch (.opened c'.token true ::
        (o.events ++ [.closed c'.token ending o'.result]))
    rw [hLast]
    refine .session hEpoch hKeeps.within ?_
    intro hPoisoned
    rcases hEnding with ⟨rfl, hFails⟩ | ⟨rfl, hFails, hOut⟩ | ⟨_, hClean⟩
    · exact ⟨hFails, .inr rfl, by decide⟩
    · refine ⟨hFails, .inl (hEnds.advances.exhausted ?_), by decide⟩
      rcases hSteady.transactions with hOut' | hStack
      · exact hOut'
      · exact hOut (hStack.trans hNil)
    · exact absurd hClean hPoisoned
  · intro hActive
    rw [hEnds.frame] at hActive
    cases hActive

end Ran

/- What a call does: it keeps an open frame, and from a core without one its events are sound. -/
structure Does (c : Core) (o : Outcome) : Prop where
  steady : Steady c o
  keeps : c.schedulerFrame.active = true → Keeps c o
  ran : c.schedulerFrame.active = false → Ran c o

namespace Does

variable (c : Core) (token : SchedulerTransactionToken) (cause : GoError) (seen result : Result)

lemma refl : Does c ⟨c, [], result⟩ :=
  ⟨.refl c _ _, fun hActive => .of_staysOpen (.refl hActive) _, fun hIdle => .refl hIdle _⟩

lemma poisonActive : Does c ⟨c.poisonActive cause, [], result⟩ where
  steady := .poisonActive c _ _ _
  keeps := fun hActive => .of_staysOpen (Core.staysOpen_poisonActive hActive cause).1 _
  ran := by
    intro hIdle
    rw [Core.poisonActive_of_idle hIdle]
    exact .refl hIdle _

lemma failed : Does c ⟨(c.poisonSchedulerTransaction token cause).1, [.failed token seen], result⟩
    where
  steady := (Steady.refl c [] (.returned none)).poisoned _ _ _ _
  keeps := fun hActive => (Keeps.of_staysOpen (.refl hActive) (.returned none)).failed token _ _ _
  ran := fun hIdle => .poisoned hIdle token _ _ _

variable {c token}

lemma whenAccepted {operation : Core → Outcome} (hSteady : Steady c (operation c))
    (hKeeps : c.schedulerFrame.active → token = c.token → Keeps c (operation c)) :
    Does c (c.whenAccepted token operation) :=
  ⟨.whenAccepted hSteady, fun hActive => .whenAccepted hActive (hKeeps hActive), fun hIdle =>
    .whenAccepted hIdle token operation⟩

/- A step without events that leaves the frame as it is. -/
lemma sameFrame {c' : Core} (hSame : Core.SameFrame c c')
    (hStack : c'.transactions = c.transactions) :
    Does c ⟨c', [], result⟩ where
  steady := ⟨hSame.toAdvances, .inr hStack⟩
  keeps := fun hActive => .of_staysOpen (.of_frame hActive hSame.frame hSame.identity) _
  ran := fun hIdle => .quiet (le_of_eq (by rw [hSame.frame])) (hSame.frame ▸ hIdle) _

lemma inTransaction {c' : Core} {transaction : Nat} {o : Outcome} (hSame : Core.SameFrame c c')
    (hPushed : c'.transactions = transaction :: c.transactions) (hBody : Does c' o) :
    Does c (Core.completeTransaction transaction o) where
  steady := .completeTransaction hSame.toAdvances hPushed hBody.steady
  keeps := by
    intro hActive
    have hOpen := StaysOpen.of_frame hActive hSame.frame hSame.identity
    have hNone : Keeps c ⟨c', [], .returned none⟩ := .of_staysOpen hOpen _
    exact (hNone.after (hBody.keeps hOpen.active)).completeTransaction transaction
  ran := by
    intro hIdle
    have hRan := hBody.ran (hSame.frame ▸ hIdle)
    rcases Core.completeTransaction_cases transaction o with ⟨c'', hEq, hEnd, _⟩ | ⟨value, hEq, _⟩
    · rw [hEq]
      exact hRan.congr hSame.frame hEnd _
    · rw [hEq]
      exact hRan.congr hSame.frame ⟨Core.Advances.refl _, rfl⟩ _

/- A transaction frame from its beginning to its end. -/
lemma apply {c' : Core} {transaction : Nat} {o : Outcome} (hIdle : ¬ c.schedulerFrame.active)
    (hSame : Core.SameFrame c c') (hPushed : c'.transactions = transaction :: c.transactions)
    (hBody : Does (c'.openFrame transaction false) o) :
    let opened := c'.openFrame transaction false
    Does c (Core.finishApply opened.token (o.after [.opened opened.token false])) := by
  intro opened
  have hOpened : Core.Advances c opened :=
    ⟨hSame.identity, hSame.phase, hSame.generation, hSame.cohorts⟩
  have hEpoch : opened.schedulerFrame.epoch = c.schedulerFrame.epoch + 1 := by
    rw [← hSame.frame]
    rfl
  have hToken : opened.transactions = opened.token.transaction :: c.transactions := hPushed
  have hEnds := Core.endsApply_finishApply opened.token (o.after [.opened opened.token false])
  exact ⟨.endsApply hOpened hToken (hBody.steady.after _) hEnds, fun hActive => absurd hActive
    hIdle, fun _ => .endsApply hEpoch hOpened hToken (hBody.keeps rfl) hBody.steady hEnds⟩

lemma trans {o o' : Outcome} (hFirst : Does c o) (hThen : Does o.core o') :
    Does c (o'.after o.events) where
  steady := hFirst.steady.trans (hThen.steady.after _)
  keeps := by
    intro hActive
    have hKeeps := hFirst.keeps hActive
    exact hKeeps.after (hThen.keeps hKeeps.staysOpen.active)
  ran := by
    intro hIdle
    have hRan := hFirst.ran hIdle
    cases hActive : o.core.schedulerFrame.active with
    | false => exact hRan.after (hThen.ran hActive) hThen.steady.advances
    | true => exact hRan.extend hActive (hThen.keeps hActive) hThen.steady.advances

end Does

mutual

lemma Call.exec_does (call : Call) (c : Core) : Does c (call.exec c) := by
  match call with
  | .applySchedulerAtomic fn =>
    by_cases hAbsent : fn = .absent
    · rw [hAbsent, Call.exec]
      exact .poisonActive c _ _
    rw [Call.exec]
    · split_ifs with hFresh hIdle
      · have hBody := fn.run_does c
        refine ⟨hBody.steady.applyInFresh _, fun hActive => (hBody.keeps hActive).applyInFresh _,
          ?_⟩
        intro hIdle
        simp [hIdle] at hFresh
      · exact .poisonActive c _ _
      · exact .refl c _
      rcases c.mark_cases with ⟨value, hMark⟩ | ⟨c', transaction, hMark, hSame, hPushed⟩
      · rw [hMark]
        exact ⟨(Steady.refl c [] (.returned none)).withFrame _ _ _, fun hActive => absurd hActive
          hIdle, fun _ => .quiet (Nat.le_succ _) rfl _⟩
      · rw [hMark]
        exact .apply hIdle hSame hPushed (fn.run_does _)
    · exact hAbsent
  | .runFreshSchedulerSession fn =>
    by_cases hAbsent : fn = .absent
    · rw [hAbsent, Call.exec]
      exact .poisonActive c _ _
    rw [Call.exec]
    · rcases c.beginFresh_cases with ⟨c', err, hBegin, rfl | ⟨cause, rfl⟩⟩ |
        ⟨c', hBegin, hAdvances, hIdle, hNil, hNil', hActive, _, hEpoch⟩
      · rw [hBegin]
        exact .refl _ _
      · rw [hBegin]
        exact .poisonActive c _ _
      rw [hBegin]
      have hBody := fn.run_does c'
      have hOpened : Steady c ⟨c', [], .returned none⟩ := ⟨hAdvances, .inr (hNil'.trans hNil.symm)⟩
      have hEnds := Core.endsFresh_finishFresh c'.token ((fn.run c').after [.opened c'.token true])
      refine ⟨.endsFresh (hOpened.trans (hBody.steady.after _)) hEnds, ?_, fun _ =>
        .endsFresh hEpoch hNil' (hBody.keeps hActive) hBody.steady hEnds⟩
      intro hOpen
      simp [hIdle] at hOpen
    · exact hAbsent
  | .runSchedulerOwned token fn =>
    by_cases hAbsent : fn = .absent
    · rw [hAbsent, Call.exec]
      exact .failed c token _ _ _
    rw [Call.exec]
    · have hBody := fn.run_does c
      refine .whenAccepted (.finishOwned (hBody.steady.after _) token) ?_
      rintro hActive rfl
      exact (hBody.keeps hActive).accepted.finishOwned _
    · exact hAbsent
  | .beginSchedulerOwned token =>
    rw [Call.exec]
    refine .whenAccepted (.refl c _ _) ?_
    rintro hActive rfl
    exact (Keeps.of_staysOpen (.refl hActive) (.returned none)).accepted
  | .finishSchedulerOwned token err =>
    rw [Call.exec]
    cases err with
    | none => exact .refl c _
    | some err => exact .failed c token _ _ _
  | .consumeDropCohortFrontierSequenceOwned token fn =>
    rw [Call.exec]
    have hBody := fn.run_does c
    refine .whenAccepted (.finishConsume (hBody.steady.after _) token) ?_
    rintro hActive rfl
    exact (hBody.keeps hActive).accepted.finishConsume
  | .transaction fn =>
    rw [Call.exec]
    rcases c.mark_cases with ⟨value, hMark⟩ | ⟨c', transaction, hMark, hSame, hPushed⟩
    · rw [hMark]
      exact .refl c _
    · rw [hMark]
      exact .inTransaction hSame hPushed (fn.run_does c')
  | .beginFrontier =>
    rw [Call.exec]
    rcases c.beginFrontier_cases with ⟨err, hBegin⟩ | ⟨c', hBegin, hSame, hStack⟩
    · rw [hBegin]
      exact .refl c _
    · rw [hBegin]
      exact .sameFrame _ hSame hStack
  | .reset =>
    rw [Call.exec]
    rcases c.reset_cases with ⟨err, hReset, _⟩ | ⟨c', hReset, hAdvances, hIdle, hFrame, hNil, hNil'⟩
    · rw [hReset]
      exact .refl c _
    rw [hReset]
    refine ⟨⟨hAdvances, .inr (hNil'.trans hNil.symm)⟩, ?_, fun _ =>
      .quiet (le_of_eq (by rw [hFrame]; rfl)) (by rw [hFrame]; rfl) _⟩
    intro hActive
    simp [hIdle] at hActive

lemma Body.run_does (body : Body) (c : Core) : Does c (body.run c) := by
  match body with
  | .absent => exact .refl c _
  | .ends result => exact .refl c _
  | .step call recovers rest =>
    have hFirst := call.exec_does c
    rcases Body.run_step call recovers rest c with hRun | hRun
    · rw [hRun]
      exact hFirst
    · rw [hRun]
      exact hFirst.trans (rest.run_does _)

end

-- Failed Operations

/-
  In every run of a new core: when an owned operation fails while the frame of its token is open,
  the frame is rolled back or reset and its call fails, unless a counter is used up; it is never
  committed. Once a frame is closed its token is not accepted.
-/
theorem failed_operation_never_committed (identity : Nat) (calls : Body) :
    let o := calls.run { identity := identity }
    (∀ (pre post : List Event) (token : SchedulerTransactionToken) (fresh : Bool) (seen : Result),
        o.events = pre ++ .failed token seen :: post → .opened token fresh ∈ pre → (∀ ending result,
        .closed token ending result ∉ pre) → (o.core.Exhausted ∨ ∃ result, .closed token (if fresh
        then .reset else .rolledBack) result ∈ post ∧ result.Fails) ∧ ∀ ending result, .closed token
        ending result ∈ post → ending ≠ .committed ∧ result.Fails) ∧ ∀ (pre post : List Event)
        (token : SchedulerTransactionToken) (ending : Ending) (result : Result), o.events = pre ++
        .closed token ending result :: post → .accepted token ∉ post := by
  intro o
  have hSound : Sound o.core.Exhausted 0 _ o.events :=
    ((calls.run_does { identity := identity }).ran rfl).sound
  constructor
  · intro pre post token fresh seen hEvents hOpened hBefore
    have hTriple : ∀ ending result,
        .closed token ending result ∈ post →
          result.Fails ∧ (o.core.Exhausted ∨ ending = if fresh then .reset else .rolledBack) ∧
            ending ≠ .committed := by
      intro ending result hClosed
      refine hSound.failing token fresh seen ending result ?_
      rw [hEvents]
      exact (singleton_sublist.mpr hOpened).append ((singleton_sublist.mpr hClosed).cons_cons _)
    constructor
    · rcases hSound.closes token fresh (hEvents ▸ mem_append_left _ hOpened) with
        hOut | ⟨ending, result, hClosed⟩
      · exact .inl hOut
      rw [hEvents] at hClosed
      rcases mem_append.mp hClosed with h | h
      · exact absurd h (hBefore ending result)
      rcases mem_cons.mp h with h | h
      · cases h
      rcases hTriple ending result h with ⟨hFails, hOut | rfl, _⟩
      · exact .inl hOut
      · exact .inr ⟨result, h, hFails⟩
    · intro ending result hClosed
      have hEnd := hTriple ending result hClosed
      exact ⟨hEnd.2.2, hEnd.1⟩
  · intro pre post token ending result hEvents hAccepted
    refine hSound.stale token ending result ?_
    rw [hEvents]
    exact ((singleton_sublist.mpr hAccepted).cons_cons _).trans (sublist_append_right pre _)

/- The token of the first frame of the core. -/
def firstToken : SchedulerTransactionToken where
  owner := 7
  epoch := 1
  transaction := 1

/- A frame whose callback ignores what its operation returns. -/
def ignoring (call : Call) : Body := .step (.applySchedulerAtomic (.step call true (.ends (.returned
    none)))) false (.ends (.returned none))

theorem failed_operation_never_committed_ignored :
    ∃ result,
      .closed firstToken .rolledBack result ∈
        ((ignoring (.runSchedulerOwned firstToken (.ends (.panicked "index")))).run
          { identity := 7 }).events ∧
        result.Fails := by
  have hRun := (failed_operation_never_committed 7 (ignoring (.runSchedulerOwned firstToken (.ends
      (.panicked "index"))))).1 [.opened firstToken false, .accepted firstToken] _ firstToken false
      (.panicked "index") rfl (by simp) (by simp)
  rcases hRun.1 with hOut | ⟨result, hClosed, hFails⟩
  · rcases hOut with h | h | h <;> exact absurd h (by decide)
  · refine ⟨result, ?_, hFails⟩
    exact mem_cons_of_mem _ (mem_cons_of_mem _ (mem_cons_of_mem _ hClosed))

/-
  A decline for want of a common proof is an error returned
  under the token, and the frame is committed.
-/
theorem declined_operation_committed :
    ∃ (pre post : List Event) (seen : Result),
      ((ignoring
        (.consumeDropCohortFrontierSequenceOwned firstToken
          (.ends (.returned (some errDropCohortFrontierNoCommonProof))))).run
        { identity := 7 }).events =
        pre ++ .declined firstToken seen :: post ∧
        seen.Fails ∧ .opened firstToken false ∈ pre ∧
        .closed firstToken .committed (.returned none) ∈ post :=
  ⟨[.opened firstToken false, .accepted firstToken],
    [.closed firstToken .committed (.returned none)], _, rfl,
    Result.fails_error _, by simp, by simp⟩

/-
  Whatever the calls of a run return, panic with or leave unread, at its end every frame is closed
  and no transaction is open, unless a counter is used up.
-/
theorem run_leaves_nothing_open (identity : Nat) (calls : Body) :
    let o := calls.run { identity := identity }
    o.core.Exhausted ∨ o.core.schedulerFrame.active = false ∧ o.core.transactions = [] ∧
      ∀ token fresh, .opened token fresh ∈ o.events →
        ∃ ending result, .closed token ending result ∈ o.events := by
  intro o
  have hDoes := calls.run_does { identity := identity }
  have hRan := hDoes.ran rfl
  by_cases hOut : o.core.Exhausted
  · exact .inl hOut
  refine .inr ⟨?_, hDoes.steady.transactions.resolve_left hOut, ?_⟩
  · by_contra hActive
    exact hOut (hRan.jammed (Bool.of_not_eq_false hActive)).1
  · intro token fresh hOpened
    exact (hRan.sound.closes token fresh hOpened).resolve_left hOut

end GoTreeSitter.ParserCore
