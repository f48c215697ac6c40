import Pkm.Lcs.Model.Transaction
/-!
# The transactions of a registry

All open transactions and the counts of bound transactions per source, and what
each event does: the planner of the event says what becomes of the transaction,
and the count follows from its change of state. A commit that was sent and not
answered is in flight; if the transaction times out then, its log waits for the
late answer.
-/

namespace Pkm.Lcs

/-- What was done with a mutation log. -/
inductive LogEffect where
  | applied
  | discarded
  deriving DecidableEq

structure Transaction where
  state : TransactionState
  commitInFlight : Bool
  /-- The log waits for the answer to a commit that timed out. -/
  logRetained : Bool
  /-- What was done with the log so far, in order. -/
  logEffects : List LogEffect

/-- A transaction that was just begun. -/
def Transaction.begun : Transaction := ⟨.activeUnbound, false, false, []⟩

/-- The transaction after an effect on its log. -/
def Transaction.withKernelEffects (t : Transaction) :
    TransactionKernelEffectsPlan → Transaction
  | .applyMutationLogAndEmitCommitEffects =>
    { t with logRetained := false, logEffects := t.logEffects ++ [.applied] }
  | .discardMutationLogWithoutEvents =>
    { t with logRetained := false, logEffects := t.logEffects ++ [.discarded] }
  | .retainMutationLogForOpenTransaction => t
  | .retainMutationLogForLateResponse => { t with logRetained := true }

/-- What happens to one transaction. -/
inductive TransactionEvent where
  | mutate (target : TransactionBinding) (sourceSupportsTransactions : Bool)
  | dispatchCommit
  | commitResponse (response : TransactionCommitSourceResponse)
  | timeout
  | sourceDown
  | close

/-- How a late answer to a commit completes the transaction. -/
def TransactionCommitSourceResponse.late :
    TransactionCommitSourceResponse → TransactionCompletionEvent
  | .committed => .lateCommitSucceeded
  | .sourceBusy | .sourceFailed => .lateCommitFailed

inductive TransactionStepFailure where
  /-- The event is not for this transaction, or its planner refuses it. -/
  | refused
  /-- The planner of the count fails. -/
  | counter (error : LcsError)
  deriving DecidableEq

def orRefused {ε α : Type} (x : Except ε α) : Except TransactionStepFailure α :=
  x.mapError fun _ => .refused

/-- What the planner of the event makes of the transaction. -/
def Transaction.next (limits : LcsLimits) (bound : SourceId → ℕ) (t : Transaction) :
    TransactionEvent → Except TransactionStepFailure Transaction
  | .mutate target supports => do
    let plan ← orRefused (planTransactionMutationBinding limits t.state target supports
      (bound target.sourceId))
    match plan with
    | .bindNew binding => .ok { t with state := .activeBound binding }
    | .useExisting binding => .ok { t with state := .activeBound binding }
  | .dispatchCommit => do
    let _ ← orRefused (planTransactionCommit t.state)
    .ok { t with commitInFlight := true }
  | .commitResponse response =>
    if ¬ t.commitInFlight then .error .refused
    else if t.logRetained then
      .ok { t.withKernelEffects (planTransactionCompletionEffects response.late) with
        commitInFlight := false }
    else do
      let plan ← orRefused (planTransactionCommitResponse limits t.state response)
      .ok { t.withKernelEffects plan.kernelEffects with
        state := plan.finalState
        commitInFlight := false }
  | .timeout => do
    let plan ← orRefused (planTransactionTimeout limits t.state t.commitInFlight)
    .ok { plan.kernelEffects.elim t t.withKernelEffects with state := plan.finalState }
  | .sourceDown =>
    if t.logRetained then
      .ok { t.withKernelEffects
          (planTransactionCompletionEffects .sourceConnectionTornDownAfterCommitTimeout) with
        commitInFlight := false }
    else do
      let plan ← orRefused (planTransactionBoundSourceDown limits t.state)
      .ok { plan.kernelEffects.elim t t.withKernelEffects with
        state := plan.finalState
        commitInFlight := false }
  | .close => do
    let plan ← orRefused (planTransactionFdClose limits t.state)
    .ok {
      (if plan.discardMutationLog then
        t.withKernelEffects (planTransactionCompletionEffects .explicitAbort) else t) with
      state := plan.finalState }

/-- All transactions, and how many are bound to each source. -/
structure TransactionTable where
  transactions : List Transaction
  bound : SourceId → ℕ

def TransactionTable.empty : TransactionTable := ⟨[], fun _ => 0⟩

/-- The source whose count a change of state is checked against. -/
def countedSource : TransactionState → TransactionState → SourceId
  | .activeBound previous, _ => previous.sourceId
  | _, .activeBound next => next.sourceId
  | _, _ => 0

/-- The counts after a plan. -/
def TransactionBoundCounterTransitionPlan.apply (plan : TransactionBoundCounterTransitionPlan)
    (bound : SourceId → ℕ) : SourceId → ℕ :=
  match plan.affectedBinding with
  | some binding => Function.update bound binding.sourceId plan.counter.nextCount
  | none => bound

/-- The table after one event: a transaction begins, or something happens to the one at an
index. -/
inductive TableEvent where
  | begin
  | on (index : ℕ) (event : TransactionEvent)

def TransactionTable.step (limits : LcsLimits) (table : TransactionTable) :
    TableEvent → Except TransactionStepFailure TransactionTable
  | .begin => .ok { table with transactions := table.transactions ++ [.begun] }
  | .on index event =>
    match table.transactions[index]? with
    | none => .error .refused
    | some t => do
      let t' ← t.next limits table.bound event
      match planTransactionBoundCounterTransition limits t.state t'.state
          (table.bound (countedSource t.state t'.state)) with
      | .error e => .error (.counter e)
      | .ok plan =>
        .ok {
          transactions := table.transactions.set index t'
          bound := plan.apply table.bound }

end Pkm.Lcs
