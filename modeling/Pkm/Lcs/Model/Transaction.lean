import Pkm.Lcs.Model.Sequence
/-!
# Transactions

The states of a transaction, and the planners that say what each event does to
one: which state it goes to, what happens to its mutation log, and what happens
to the count of transactions bound to its source.
-/

namespace Pkm.Lcs

/-- The hive a transaction is bound to by its first mutation. -/
structure TransactionBinding where
  sourceId : SourceId
  hiveName : Name
  hiveRootGuid : Guid
  deriving DecidableEq

inductive TransactionState where
  | activeUnbound
  | activeBound (binding : TransactionBinding)
  | committed
  | aborted
  | timedOut
  | sourceDown
  deriving DecidableEq

inductive TransactionUseFailure where
  | invalid
  | timedOut
  | sourceDown
  | crossHive
  | busy
  | notSupported
  deriving DecidableEq

def isTerminalTransactionState : TransactionState → Bool
  | .committed | .aborted | .timedOut | .sourceDown => true
  | .activeUnbound | .activeBound _ => false

def transactionTerminalFailure : TransactionState → Option TransactionUseFailure
  | .activeUnbound | .activeBound _ => none
  | .committed | .aborted => some .invalid
  | .timedOut => some .timedOut
  | .sourceDown => some .sourceDown

variable (limits : LcsLimits) (state : TransactionState)

def validateTransactionBinding (binding : TransactionBinding) : LcsResult Unit := do
  let _ ← validateHiveNameBytes binding.hiveName limits
  if binding.hiveRootGuid = nilGuid then .error .nilHiveRootGuid else .ok ()

def sameTransactionBinding (left right : TransactionBinding) : LcsResult Bool := do
  validateTransactionBinding limits left
  validateTransactionBinding limits right
  .ok (left.sourceId == right.sourceId && left.hiveRootGuid == right.hiveRootGuid &&
    casefoldEq left.hiveName right.hiveName)

/-! ## Mutations -/

inductive TransactionMutationBindingPlan where
  | bindNew (binding : TransactionBinding)
  | useExisting (binding : TransactionBinding)

/-- A malformed binding is an invalid use. -/
def orInvalid {α : Type} (x : LcsResult α) : Except TransactionUseFailure α :=
  x.mapError fun _ => .invalid

variable (target : TransactionBinding) (sourceSupportsTransactions : Bool)
  (currentBoundTransactionsForSource : ℕ)

def planTransactionMutationBinding :
    Except TransactionUseFailure TransactionMutationBindingPlan := do
  orInvalid (validateTransactionBinding limits target)
  match state with
  | .activeUnbound =>
    if ¬ sourceSupportsTransactions then .error .notSupported
    else if currentBoundTransactionsForSource ≥ limits.maxBoundTransactionsPerSource then
      .error .busy
    else .ok (.bindNew target)
  | .activeBound existing => do
    if ← orInvalid (sameTransactionBinding limits existing target) then .ok (.useExisting existing)
    else .error .crossHive
  | .committed | .aborted => .error .invalid
  | .timedOut => .error .timedOut
  | .sourceDown => .error .sourceDown

structure TransactionMutationAcceptancePlan where
  binding : TransactionMutationBindingPlan
  sequence : ℕ
  sequenceAssignedAtAcceptance : Bool
  commitReusesAssignedSequence : Bool
  abortLeavesSequenceGap : Bool

inductive TransactionMutationAcceptanceFailure where
  | transactionUse (failure : TransactionUseFailure)
  | sequence (error : LcsError)

def planTransactionMutationAcceptance :
    Counting TransactionMutationAcceptanceFailure TransactionMutationAcceptancePlan := do
  let binding ← Counting.check ((planTransactionMutationBinding limits state target
    sourceSupportsTransactions currentBoundTransactionsForSource).mapError .transactionUse)
  let sequence ← ExceptT.adapt .sequence Counting.allocate
  pure {
    binding
    sequence
    sequenceAssignedAtAcceptance := true
    commitReusesAssignedSequence := true
    abortLeavesSequenceGap := true }

/-! ## Effects on the mutation log -/

/-- What ends a transaction, or leaves its commit open. -/
inductive TransactionCompletionEvent where
  | commitSucceeded
  | explicitAbort
  | timeoutBeforeCommitDispatch
  | sourceDownCancellation
  | commitRequestTimedOutAfterDispatch
  | lateCommitSucceeded
  | lateCommitFailed
  | sourceConnectionTornDownAfterCommitTimeout
  deriving DecidableEq

inductive TransactionKernelEffectsPlan where
  | applyMutationLogAndEmitCommitEffects
  | discardMutationLogWithoutEvents
  | retainMutationLogForOpenTransaction
  | retainMutationLogForLateResponse

def planTransactionCompletionEffects : TransactionCompletionEvent → TransactionKernelEffectsPlan
  | .commitSucceeded | .lateCommitSucceeded => .applyMutationLogAndEmitCommitEffects
  | .commitRequestTimedOutAfterDispatch => .retainMutationLogForLateResponse
  | .explicitAbort | .timeoutBeforeCommitDispatch | .sourceDownCancellation | .lateCommitFailed
  | .sourceConnectionTornDownAfterCommitTimeout => .discardMutationLogWithoutEvents

/-! ## Commits -/

structure TransactionCommitPlan where
  binding : TransactionBinding

def planTransactionCommit : TransactionState → Except TransactionUseFailure TransactionCommitPlan
  | .activeBound binding => .ok { binding }
  | .timedOut => .error .timedOut
  | .sourceDown => .error .sourceDown
  | .activeUnbound | .committed | .aborted => .error .invalid

inductive TransactionCommitSourceResponse where
  | committed
  | sourceBusy
  | sourceFailed
  deriving DecidableEq

inductive TransactionCommitReturnStatus where
  | success
  | busy
  | io
  deriving DecidableEq

structure TransactionCommitResponsePlan where
  finalState : TransactionState
  stateChanged : Bool
  wakePollWaiters : Bool
  returnStatus : TransactionCommitReturnStatus
  kernelEffects : TransactionKernelEffectsPlan

def planTransactionCommitResponse (response : TransactionCommitSourceResponse) :
    LcsResult TransactionCommitResponsePlan :=
  match state with
  | .activeBound binding => do
    validateTransactionBinding limits binding
    match response with
    | .committed =>
      .ok {
        finalState := .committed
        stateChanged := true
        wakePollWaiters := true
        returnStatus := .success
        kernelEffects := .applyMutationLogAndEmitCommitEffects }
    | .sourceBusy =>
      .ok {
        finalState := .activeBound binding
        stateChanged := false
        wakePollWaiters := false
        returnStatus := .busy
        kernelEffects := .retainMutationLogForOpenTransaction }
    | .sourceFailed =>
      .ok {
        finalState := .activeBound binding
        stateChanged := false
        wakePollWaiters := false
        returnStatus := .io
        kernelEffects := .retainMutationLogForOpenTransaction }
  | _ => .error .invalidTransactionRuntimeState

/-! ## Timeouts, lost sources and closes -/

structure TransactionRuntimeTransitionPlan where
  finalState : TransactionState
  binding : Option TransactionBinding
  stateChanged : Bool
  wakePollWaiters : Bool
  fdRemainsPresent : Bool
  futureOperationFailure : Option TransactionUseFailure
  dispatchSourceAbort : Bool
  kernelEffects : Option TransactionKernelEffectsPlan

/-- The plan for an event that an ended transaction takes no notice of. -/
def TransactionRuntimeTransitionPlan.unchanged : TransactionRuntimeTransitionPlan where
  finalState := state
  binding := none
  stateChanged := false
  wakePollWaiters := false
  fdRemainsPresent := true
  futureOperationFailure := transactionTerminalFailure state
  dispatchSourceAbort := false
  kernelEffects := none

def planTransactionTimeout (commitInFlight : Bool) : LcsResult TransactionRuntimeTransitionPlan :=
  match state with
  | .activeUnbound =>
    if commitInFlight then .error .invalidTransactionRuntimeState
    else
      .ok {
        finalState := .timedOut
        binding := none
        stateChanged := true
        wakePollWaiters := true
        fdRemainsPresent := true
        futureOperationFailure := some .timedOut
        dispatchSourceAbort := false
        kernelEffects := some (planTransactionCompletionEffects .timeoutBeforeCommitDispatch) }
  | .activeBound binding => do
    validateTransactionBinding limits binding
    .ok {
      finalState := .timedOut
      binding := some binding
      stateChanged := true
      wakePollWaiters := true
      fdRemainsPresent := true
      futureOperationFailure := some .timedOut
      dispatchSourceAbort := !commitInFlight
      kernelEffects := some (planTransactionCompletionEffects
        (if commitInFlight then .commitRequestTimedOutAfterDispatch
          else .timeoutBeforeCommitDispatch)) }
  | terminal => .ok (.unchanged terminal)

def planTransactionBoundSourceDown : LcsResult TransactionRuntimeTransitionPlan :=
  match state with
  | .activeBound binding => do
    validateTransactionBinding limits binding
    .ok {
      finalState := .sourceDown
      binding := some binding
      stateChanged := true
      wakePollWaiters := true
      fdRemainsPresent := true
      futureOperationFailure := some .sourceDown
      dispatchSourceAbort := false
      kernelEffects := some (planTransactionCompletionEffects .sourceDownCancellation) }
  | other => .ok (.unchanged other)

structure TransactionFdClosePlan where
  finalState : TransactionState
  binding : Option TransactionBinding
  dispatchSourceAbort : Bool
  discardMutationLog : Bool
  wakePollWaiters : Bool
  releaseFdObject : Bool

def planTransactionFdClose : LcsResult TransactionFdClosePlan :=
  match state with
  | .activeUnbound =>
    .ok {
      finalState := .aborted
      binding := none
      dispatchSourceAbort := false
      discardMutationLog := true
      wakePollWaiters := true
      releaseFdObject := true }
  | .activeBound binding => do
    validateTransactionBinding limits binding
    .ok {
      finalState := .aborted
      binding := some binding
      dispatchSourceAbort := true
      discardMutationLog := true
      wakePollWaiters := true
      releaseFdObject := true }
  | terminal =>
    .ok {
      finalState := terminal
      binding := none
      dispatchSourceAbort := false
      discardMutationLog := false
      wakePollWaiters := false
      releaseFdObject := true }

/-! ## The count of bound transactions -/

inductive TransactionBoundCounterUpdate where
  | noChange
  | increment
  | decrement

structure TransactionBoundCounterPlan where
  update : TransactionBoundCounterUpdate
  previousCount : ℕ
  nextCount : ℕ

def planTransactionBoundCounterUpdate (update : TransactionBoundCounterUpdate) :
    LcsResult TransactionBoundCounterPlan :=
  match update with
  | .noChange =>
    .ok {
      update
      previousCount := currentBoundTransactionsForSource
      nextCount := currentBoundTransactionsForSource }
  | .increment =>
    if currentBoundTransactionsForSource ≥ limits.maxBoundTransactionsPerSource then
      .error .invalidTransactionRuntimeState
    else
      .ok {
        update
        previousCount := currentBoundTransactionsForSource
        nextCount := currentBoundTransactionsForSource + 1 }
  | .decrement =>
    if currentBoundTransactionsForSource = 0 then .error .invalidTransactionRuntimeState
    else
      .ok {
        update
        previousCount := currentBoundTransactionsForSource
        nextCount := currentBoundTransactionsForSource - 1 }

structure TransactionBoundCounterTransitionPlan where
  affectedBinding : Option TransactionBinding
  counter : TransactionBoundCounterPlan

/-- Whose count a change of state affects, and how. -/
def boundCounterEffect (previousState nextState : TransactionState) :
    LcsResult (Option TransactionBinding × TransactionBoundCounterUpdate) :=
  match previousState, nextState with
  | .activeUnbound, .activeUnbound => .ok (none, .noChange)
  | .activeUnbound, .activeBound next => do
    validateTransactionBinding limits next
    .ok (some next, .increment)
  | .activeBound previous, .activeBound next => do
    if ← sameTransactionBinding limits previous next then .ok (some previous, .noChange)
    else .error .invalidTransactionRuntimeState
  | .activeUnbound, next =>
    if isTerminalTransactionState next then .ok (none, .noChange)
    else .error .invalidTransactionRuntimeState
  | .activeBound previous, next =>
    if isTerminalTransactionState next then do
      validateTransactionBinding limits previous
      .ok (some previous, .decrement)
    else .error .invalidTransactionRuntimeState
  | previous, next =>
    if isTerminalTransactionState previous ∧ isTerminalTransactionState next ∧ previous = next then
      .ok (none, .noChange)
    else .error .invalidTransactionRuntimeState

def planTransactionBoundCounterTransition (previousState nextState : TransactionState)
    (currentBoundTransactionsForSource : ℕ) : LcsResult TransactionBoundCounterTransitionPlan := do
  let (affectedBinding, update) ← boundCounterEffect limits previousState nextState
  let counter ← planTransactionBoundCounterUpdate limits currentBoundTransactionsForSource update
  .ok { affectedBinding, counter }

end Pkm.Lcs
