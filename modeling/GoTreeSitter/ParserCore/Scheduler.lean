import Mathlib.Algebra.Order.Ring.Nat

/-
  Scheduler-owned transactions of the compact core.

  Key definitions include:
    * `Core.validateSchedulerTransaction`
    * `Core.poisonSchedulerTransaction`

  A caller's behaviour is the tree of the calls it makes: what each callback does, which panics it
  recovers, and what it returns. Errors are ignored unless the callback returns one itself. A run
  yields the core, the events seen on the way, and how it ended.
-/

-- Errors and Results

namespace GoTreeSitter.ParserCore

/- An error with the errors it wraps. -/
inductive GoError where
  | text (message : String)
  | wrap (message : String) (cause : GoError)
  | join (first second : GoError)
  deriving DecidableEq

namespace GoError

/- The error is the target or wraps it. -/
def is (err target : GoError) : Bool :=
  match err with
  | text message => decide (text message = target)
  | wrap message cause => decide (wrap message cause = target) || cause.is target
  | join first second => decide (join first second = target) || first.is target || second.is target

end GoError

/- How a call ends: with or without an error, or a panic. -/
inductive Result where
  | returned (err : Option GoError)
  | panicked (value : String)
  deriving DecidableEq

namespace Result

/- The call returned an error or panicked. -/
def Fails : Result → Prop
  | returned err => err ≠ none
  | panicked _ => True

end Result

def errDropCohortFrontierNoCommonProof : GoError :=
  .text ("parser-core phase zero: frontier dropped members " ++
    "lack a common action and derivation")

-- The Core

def maxUint64 : Nat := 2 ^ 64 - 1

/- The capability for one scheduler-owned transaction. -/
structure SchedulerTransactionToken where
  owner : Nat
  epoch : Nat
  transaction : Nat
  deriving DecidableEq

structure SchedulerTransactionFrame where
  transaction : Nat := 0
  epoch : Nat := 0
  poisoned : Option GoError := none
  active : Bool := false
  fresh : Bool := false

/- The part of a core its transactions are about. The newest open transaction is the first. -/
structure Core where
  identity : Nat
  transactions : List Nat := []
  nextTransaction : Nat := 0
  classificationPhase : Nat := 1
  resetGeneration : Nat := 1
  dropCohortEpoch : Nat := 1
  schedulerFrame : SchedulerTransactionFrame := {}

namespace SchedulerTransactionFrame

/- Only the epoch stays. -/
def clearInactive (frame : SchedulerTransactionFrame) : SchedulerTransactionFrame :=
  { epoch := frame.epoch }

/- The first cause stays. -/
def poison (frame : SchedulerTransactionFrame) (cause : GoError) : SchedulerTransactionFrame :=
  { frame with poisoned := frame.poisoned.or (some cause) }

end SchedulerTransactionFrame

namespace Core

/- The token of the frame. -/
def token (c : Core) : SchedulerTransactionToken where
  owner := c.identity
  epoch := c.schedulerFrame.epoch
  transaction := c.schedulerFrame.transaction

def withFrame (c : Core) (frame : SchedulerTransactionFrame) : Core :=
  { c with schedulerFrame := frame }

/- An open frame is poisoned. -/
def poisonActive (c : Core) (cause : GoError) : Core :=
  if c.schedulerFrame.active then
    c.withFrame (c.schedulerFrame.poison cause)
  else c

/- Transactions begin; none when the identities are used up. -/
def mark (c : Core) : Except String (Core × Nat) :=
  if c.nextTransaction = maxUint64 then
    .error "parser-core phase zero: transaction identity overflow"
  else
    .ok ({ c with
        nextTransaction := c.nextTransaction + 1
        transactions := (c.nextTransaction + 1) :: c.transactions },
        c.nextTransaction + 1)

def assertTopTransaction (c : Core) (transaction : Nat) : Except String Unit :=
  if c.transactions.head? = some transaction then .ok ()
  else
    .error ("parser-core phase zero: transaction checkpoint " ++ "used out of LIFO order")

def finishTransaction (c : Core) : Core := { c with transactions := c.transactions.tail }

/- Rollback: earlier classifications become invalid. -/
def restoreCheckpoint (c : Core) (transaction : Nat) : Except String Core := do
  c.assertTopTransaction transaction
  if c.classificationPhase = maxUint64 then
    .error ("parser-core phase zero: classification phase " ++ "overflow during rollback")
  else
    .ok
      { c with
          classificationPhase := c.classificationPhase + 1
        }.finishTransaction

def commit (c : Core) (transaction : Nat) : Except String Core := do
  c.assertTopTransaction transaction
  .ok c.finishTransaction

def advanceDropCohortEpoch (c : Core) : Except GoError Core :=
  if c.dropCohortEpoch = maxUint64 then
    .error (.text "parser-core phase zero: drop-cohort epoch overflow")
  else
    .ok { c with dropCohortEpoch := c.dropCohortEpoch + 1 }

def reset (c : Core) : Except GoError Core :=
  if c.transactions ≠ [] ∨ c.schedulerFrame.active then
    .error (.text "parser-core phase zero: reset during active transaction")
  else if c.classificationPhase = maxUint64 then
    .error (.text "parser-core phase zero: classification phase overflow")
  else if c.resetGeneration = maxUint64 then
    .error (.text "parser-core phase zero: reset generation overflow")
  else if c.dropCohortEpoch = maxUint64 then
    .error (.text "parser-core phase zero: drop-cohort epoch overflow")
  else
    .ok
      { c with
          classificationPhase := c.classificationPhase + 1
          resetGeneration := c.resetGeneration + 1
          dropCohortEpoch := c.dropCohortEpoch + 1
          transactions := []
          nextTransaction := 0
          schedulerFrame := c.schedulerFrame.clearInactive }

def beginFrontier (c : Core) : Except GoError Core :=
  if c.transactions ≠ [] then
    .error (.text ("parser-core phase zero: begin frontier " ++ "during active transaction"))
  else if c.classificationPhase = maxUint64 then
    .error (.text "parser-core phase zero: classification phase overflow")
  else
    .ok
      { c with
          classificationPhase := c.classificationPhase + 1 }

-- Tokens

def validateSchedulerTransaction (c : Core) (token : SchedulerTransactionToken) : Option GoError :=
  if token.owner ≠ c.identity then
    some (.text ("parser-core phase zero: scheduler " ++
      "transaction token belongs to a different core"))
  else if c.schedulerFrame.active = false ∨ token.epoch = 0 ∨ token.epoch ≠ c.schedulerFrame.epoch ∨
      token.transaction ≠ c.schedulerFrame.transaction then
    some (.text "parser-core phase zero: stale scheduler transaction token")
  else if c.schedulerFrame.fresh then none
  else if c.transactions.head? ≠ some token.transaction then
    some (.text ("parser-core phase zero: scheduler " ++
      "transaction token is not top-of-stack owner"))
  else none

/- The frame is poisoned with the cause, or with the reason the token is not accepted. -/
def poisonSchedulerTransaction (c : Core) (token : SchedulerTransactionToken) (cause : GoError) :
    Core × GoError :=
  match c.validateSchedulerTransaction token with
  | some err => (c.poisonActive err, err)
  | none => (c.withFrame (c.schedulerFrame.poison cause), cause)

def beginSchedulerOwned (c : Core) (token : SchedulerTransactionToken) : Core × Option GoError :=
  match c.validateSchedulerTransaction token with
  | some err =>
    let (c, err) := c.poisonSchedulerTransaction token err
    (c, some err)
  | none => (c, none)

def finishSchedulerOwned (c : Core) (token : SchedulerTransactionToken) :
    Option GoError → Core × Option GoError
  | some err =>
    let (c, err) := c.poisonSchedulerTransaction token err
    (c, some err)
  | none => (c, none)

/- The deferred half that sees a panic. -/
def recoverSchedulerOwnedPanic (c : Core) (token : SchedulerTransactionToken) (value : String) :
    Core :=
  (c.poisonSchedulerTransaction token (.text ("parser-core phase zero: scheduler-owned " ++
    "operation panicked: " ++ value))).1

end Core

-- Calls

/- How a frame ended. -/
inductive Ending where
  | committed
  | rolledBack
  | reset
  | resetFailed
  deriving DecidableEq

/-
  What is seen of the frames. An owned operation is accepted under a token, and may fail under it or
  decline for want of a common proof; a frame whose rollback panics stays open.
-/
inductive Event where
  | opened (token : SchedulerTransactionToken) (fresh : Bool)
  | accepted (token : SchedulerTransactionToken)
  | failed (token : SchedulerTransactionToken) (result : Result)
  | declined (token : SchedulerTransactionToken) (result : Result)
  | closed (token : SchedulerTransactionToken) (ending : Ending) (result : Result)
  | jammed (token : SchedulerTransactionToken)

structure Outcome where
  core : Core
  events : List Event
  result : Result

namespace Outcome

/- Events that came before. -/
def after (events : List Event) (o : Outcome) : Outcome := { o with events := events ++ o.events }

end Outcome

mutual

/- A call on a core. The callback is the calls it makes, and may be missing. -/
inductive Call where
  | applySchedulerAtomic (fn : Body)
  | runFreshSchedulerSession (fn : Body)
  | runSchedulerOwned (token : SchedulerTransactionToken) (fn : Body)
  | beginSchedulerOwned (token : SchedulerTransactionToken)
  | finishSchedulerOwned (token : SchedulerTransactionToken) (err : Option GoError)
  | consumeDropCohortFrontierSequenceOwned (token : SchedulerTransactionToken) (fn : Body)
  | transaction (fn : Body)
  | beginFrontier
  | reset

/- What a caller does, or no callback at all. -/
inductive Body where
  | absent
  | ends (result : Result)
  | step (call : Call) (recovers : Bool) (rest : Body)

end

namespace Core

variable (c : Core) (token : SchedulerTransactionToken) (o : Outcome)

/- A nil callback poisons an open frame. -/
def applyNil : Outcome :=
  let err : GoError := .text "parser-core phase zero: nil scheduler atomic operation"
  ⟨c.poisonActive err, [], .returned (some err)⟩

def applyNested : Outcome :=
  let err : GoError := .text "parser-core phase zero: nested scheduler-owned transaction"
  ⟨c.poisonActive err, [], .returned (some err)⟩

/- In a fresh session the callback joins its frame. -/
def applyInFresh : Outcome :=
  match o.result with
  | .returned (some err) =>
    let (c, err) := o.core.poisonSchedulerTransaction token err
    { o with core := c, result := .returned (some err) }
  | _ => o

/- The error a frame ends with: its own or the poison. -/
def endError (message : String) (err : Option GoError) : Option GoError :=
  err.or (c.schedulerFrame.poisoned.map (.wrap message))

/- The core after a rollback, or a frame that stays open. -/
def rollBackFrame (result : Result) (o : Outcome) : Outcome :=
  match o.core.restoreCheckpoint token.transaction with
  | .ok c =>
    ⟨c.withFrame c.schedulerFrame.clearInactive, o.events ++ [.closed token .rolledBack result],
      result⟩
  | .error value => ⟨o.core, o.events ++ [.jammed token], .panicked value⟩

def commitFrame : Outcome :=
  match o.core.commit token.transaction with
  | .ok c =>
    ⟨c.withFrame c.schedulerFrame.clearInactive, o.events ++ [.closed token .committed (.returned
      none)], .returned none⟩
  | .error value => ⟨o.core, o.events ++ [.jammed token], .panicked value⟩

/- The deferred end of a scheduler-owned transaction. -/
def finishApply : Outcome :=
  match o.result with
  | .panicked value => rollBackFrame token (.panicked value) o
  | .returned err =>
    match o.core.endError
        "parser-core phase zero: poisoned scheduler transaction"
        err with
    | some err => rollBackFrame token (.returned (some err)) o
    | none => commitFrame token o

/- The deferred end of a fresh session. -/
def finishFresh : Outcome :=
  let cleared := o.core.withFrame o.core.schedulerFrame.clearInactive
  match o.result with
  | .panicked value =>
    let (c, ending) :=
      match cleared.reset with
      | .ok c => (c, Ending.reset)
      | .error _ => (cleared, Ending.resetFailed)
    ⟨c, o.events ++ [.closed token ending (.panicked value)], .panicked value⟩
  | .returned err =>
    match o.core.endError
        ("parser-core phase zero: poisoned fresh " ++ "scheduler session") err with
    | some err =>
      let (c, ending, result) :=
        match cleared.reset with
        | .ok c => (c, Ending.reset, Result.returned (some err))
        | .error resetErr =>
          (cleared, Ending.resetFailed, Result.returned (some (.join err (.wrap
              ("parser-core phase zero: reset " ++ "failed after fresh scheduler error")
              resetErr))))
      ⟨c, o.events ++ [.closed token ending result], result⟩
    | none => ⟨cleared, o.events ++ [.closed token .committed (.returned none)], .returned none⟩

/- A new frame with its token. -/
def openFrame (transaction : Nat) (fresh : Bool) : Core := c.withFrame
    { epoch := c.schedulerFrame.epoch + 1
      transaction := transaction
      active := true
      fresh := fresh }

/- The frame of a fresh session, or why there is none. -/
def beginFresh : Except (Core × GoError) Core :=
  if c.schedulerFrame.active then
    let err : GoError := .text "parser-core phase zero: nested fresh scheduler session"
    .error (c.poisonActive err, err)
  else if c.transactions ≠ [] then
    .error (c, .text ("parser-core phase zero: fresh scheduler " ++
      "session inside active transaction"))
  else if c.schedulerFrame.epoch = maxUint64 ∨ c.nextTransaction = maxUint64 then
    .error (c, .text ("parser-core phase zero: fresh scheduler " ++ "session identity overflow"))
  else
    match c.advanceDropCohortEpoch with
    | .error err => .error (c, err)
    | .ok c =>
      .ok ({ c with
          nextTransaction := c.nextTransaction + 1
        }.openFrame (c.nextTransaction + 1) true)

/- What follows the first half, unless it fails. -/
def whenAccepted (operation : Core → Outcome) : Outcome :=
  match c.beginSchedulerOwned token with
  | (c, some err) => ⟨c, [.failed token (.returned (some err))], .returned (some err)⟩
  | (c, none) => operation c

/- The owned operation with its deferred halves. -/
def finishOwned : Outcome :=
  match o.result with
  | .panicked value =>
    ⟨o.core.recoverSchedulerOwnedPanic token value, o.events ++ [.failed token (.panicked value)],
      .panicked value⟩
  | .returned none => o
  | .returned (some err) =>
    let (c, err) := o.core.poisonSchedulerTransaction token err
    ⟨c, o.events ++ [.failed token (.returned (some err))], .returned (some err)⟩

/- The decline without a common proof leaves the frame as it is, and is returned. -/
def finishConsume : Outcome :=
  match o.result with
  | .returned (some err) =>
    if err.is errDropCohortFrontierNoCommonProof then
      { o with
          events := o.events ++ [.declined token o.result] }
    else finishOwned token o
  | _ => finishOwned token o

/- An ordinary transaction commits or rolls back. -/
def endTransaction (transaction : Nat) (o : Outcome) : Except String Core :=
  match o.result with
  | .returned none => o.core.commit transaction
  | _ => o.core.restoreCheckpoint transaction

/- The deferred end of an ordinary transaction. -/
def completeTransaction (transaction : Nat) (o : Outcome) : Outcome :=
  match endTransaction transaction o with
  | .ok c => { o with core := c }
  | .error value => { o with result := .panicked value }

end Core

-- Runs

mutual

/- What a call does. -/
def Call.exec : Call → Core → Outcome
  | .applySchedulerAtomic .absent, c => c.applyNil
  | .applySchedulerAtomic fn, c =>
    if c.schedulerFrame.active && c.schedulerFrame.fresh then
      Core.applyInFresh c.token (fn.run c)
    else if c.schedulerFrame.active then c.applyNested
    else if c.schedulerFrame.epoch = maxUint64 then
      ⟨c, [], .returned (some (.text ("parser-core phase zero: scheduler transaction " ++
        "epoch overflow")))⟩
    else
      match c.mark with
      | .error value => ⟨c.withFrame { epoch := c.schedulerFrame.epoch + 1 }, [], .panicked value⟩
      | .ok (c, transaction) =>
        let c := c.openFrame transaction false
        Core.finishApply c.token ((fn.run c).after [.opened c.token false])
  | .runFreshSchedulerSession .absent, c =>
    let err : GoError := .text "parser-core phase zero: nil fresh scheduler session"
    ⟨c.poisonActive err, [], .returned (some err)⟩
  | .runFreshSchedulerSession fn, c =>
    match c.beginFresh with
    | .error (c, err) => ⟨c, [], .returned (some err)⟩
    | .ok c => Core.finishFresh c.token ((fn.run c).after [.opened c.token true])
  | .runSchedulerOwned token .absent, c =>
    let (c, err) := c.poisonSchedulerTransaction token (.text
      "parser-core phase zero: nil scheduler-owned operation")
    ⟨c, [.failed token (.returned (some err))], .returned (some err)⟩
  | .runSchedulerOwned token fn, c =>
    c.whenAccepted token fun c =>
      Core.finishOwned token ((fn.run c).after [.accepted token])
  | .beginSchedulerOwned token, c =>
    c.whenAccepted token fun c =>
      ⟨c, [.accepted token], .returned none⟩
  | .finishSchedulerOwned token err, c => Core.finishOwned token ⟨c, [], .returned err⟩
  | .consumeDropCohortFrontierSequenceOwned token fn, c =>
    c.whenAccepted token fun c =>
      Core.finishConsume token ((fn.run c).after [.accepted token])
  | .transaction fn, c =>
    match c.mark with
    | .error value => ⟨c, [], .panicked value⟩
    | .ok (c, transaction) => Core.completeTransaction transaction (fn.run c)
  | .beginFrontier, c =>
    match c.beginFrontier with
    | .error err => ⟨c, [], .returned (some err)⟩
    | .ok c => ⟨c, [], .returned none⟩
  | .reset, c =>
    match c.reset with
    | .error err => ⟨c, [], .returned (some err)⟩
    | .ok c => ⟨c, [], .returned none⟩

/- What a callback does; a panic it does not recover ends it. -/
def Body.run : Body → Core → Outcome
  | .absent, c => ⟨c, [], .returned none⟩
  | .ends result, c => ⟨c, [], result⟩
  | .step call recovers rest, c =>
    let first := call.exec c
    match first.result, recovers with
    | .panicked _, false => first
    | _, _ => (rest.run first.core).after first.events

end

end GoTreeSitter.ParserCore
