import Pkm.Lib.Scan
import Pkm.Lcs.Model.TransactionTable
/-!
# Accounting of transactions

Each planner names the next state of one transaction on its own; the count of
bound transactions follows the states. `Moves` says once what an event can do to
a transaction. From it follow, along every interleaving: the count of a source is
the number of transactions bound to it, the planner of the count never fails, a
transaction is bound once, what has ended stays as it ended, and a log is applied
at most once and never after it was discarded.
-/

namespace Pkm.Lcs

open List Outcome TransactionState TransactionTable
open TransactionBoundCounterTransitionPlan (apply)

variable {limits : LcsLimits}

/-! ## What an event does to a transaction -/

/-- What an event can do to a transaction. -/
inductive Moves (limits : LcsLimits) (bound : SourceId → ℕ) (t t' : Transaction) : Prop
  | stays (hstate : t'.state = t.state) (hretained : t'.logRetained = t.logRetained)
    (heffects : t'.logEffects = t.logEffects)
  | binds (binding : TransactionBinding) (hstate : t.state = .activeUnbound)
    (hstate' : t'.state = .activeBound binding)
    (hvalid : validateTransactionBinding limits binding = .ok ())
    (hroom : bound binding.sourceId < limits.maxBoundTransactionsPerSource)
    (hretained : t'.logRetained = t.logRetained) (heffects : t'.logEffects = t.logEffects)
  | ends (effect : LogEffect) (hstate : isTerminalTransactionState t.state = false)
    (hstate' : isTerminalTransactionState t'.state = true) (hretained : t'.logRetained = false)
    (heffects : t'.logEffects = t.logEffects ++ [effect])
  | timesOutInFlight (hstate : isTerminalTransactionState t.state = false)
    (hstate' : isTerminalTransactionState t'.state = true) (hretained : t'.logRetained = true)
    (heffects : t'.logEffects = t.logEffects)
  | settles (effect : LogEffect) (hstate : t'.state = t.state) (hbefore : t.logRetained = true)
    (hretained : t'.logRetained = false) (heffects : t'.logEffects = t.logEffects ++ [effect])

section

variable {bound : SourceId → ℕ} {t t' : Transaction}

theorem mutate_moves {target : TransactionBinding} {supports : Bool}
    (h : t.next limits bound (.mutate target supports) = .ok t') : Moves limits bound t t' := by
  obtain ⟨plan, hplan, h⟩ := of_bind h
  rw [orRefused, mapError_eq_ok] at hplan
  obtain ⟨_, hvalid, hplan⟩ := of_bind hplan
  rw [orInvalid, mapError_eq_ok] at hvalid
  rcases hs : t.state with _ | existing | _ | _ | _ | _ <;> rw [hs] at hplan
  · obtain ⟨-, hplan⟩ := of_guard hplan
    obtain ⟨hroom, hplan⟩ := of_guard hplan
    cases hplan
    cases h
    exact .binds target hs rfl hvalid (by omega) rfl rfl
  · obtain ⟨same, -, hplan⟩ := of_bind hplan
    split at hplan
    · cases hplan
      cases h
      exact .stays hs.symm rfl rfl
    · cases hplan
  all_goals cases hplan

theorem commitResponse_moves {response : TransactionCommitSourceResponse}
    (h : t.next limits bound (.commitResponse response) = .ok t') : Moves limits bound t t' := by
  obtain ⟨-, h⟩ := of_guard h
  split at h
  · -- a late answer settles the log that waited for it
    rename_i hretained
    cases h
    cases response with
    | committed => exact .settles .applied rfl hretained rfl rfl
    | sourceBusy | sourceFailed => exact .settles .discarded rfl hretained rfl rfl
  · rename_i hretained
    obtain ⟨plan, hplan, h⟩ := of_bind h
    rw [orRefused, mapError_eq_ok] at hplan
    cases h
    rcases hs : t.state with _ | binding | _ | _ | _ | _ <;> rw [hs] at hplan
    case activeBound =>
      obtain ⟨_, -, hplan⟩ := of_bind hplan
      cases response with
      | committed =>
        cases hplan
        exact .ends .applied (by rw [hs]; rfl) rfl rfl rfl
      | sourceBusy | sourceFailed =>
        cases hplan
        exact .stays hs.symm rfl rfl
    all_goals cases hplan

theorem timeout_moves (h : t.next limits bound .timeout = .ok t') : Moves limits bound t t' := by
  obtain ⟨plan, hplan, h⟩ := of_bind h
  rw [orRefused, mapError_eq_ok] at hplan
  cases h
  rcases hs : t.state with _ | binding | _ | _ | _ | _ <;> rw [hs] at hplan
  case activeUnbound =>
    obtain ⟨-, hplan⟩ := of_guard hplan
    cases hplan
    exact .ends .discarded (by rw [hs]; rfl) rfl rfl rfl
  case activeBound =>
    obtain ⟨_, -, hplan⟩ := of_bind hplan
    cases hplan
    cases hflight : t.commitInFlight with
    | true => exact .timesOutInFlight (by rw [hs]; rfl) rfl rfl rfl
    | false => exact .ends .discarded (by rw [hs]; rfl) rfl rfl rfl
  all_goals
    cases hplan
    exact .stays hs.symm rfl rfl

theorem sourceDown_moves (h : t.next limits bound .sourceDown = .ok t') :
    Moves limits bound t t' := by
  unfold Transaction.next at h
  simp only at h
  split at h
  · rename_i hretained
    cases h
    exact .settles .discarded rfl hretained rfl rfl
  · obtain ⟨plan, hplan, h⟩ := of_bind h
    rw [orRefused, mapError_eq_ok] at hplan
    cases h
    rcases hs : t.state with _ | binding | _ | _ | _ | _ <;> rw [hs] at hplan
    case activeBound =>
      obtain ⟨_, -, hplan⟩ := of_bind hplan
      cases hplan
      exact .ends .discarded (by rw [hs]; rfl) rfl rfl rfl
    all_goals
      cases hplan
      exact .stays hs.symm rfl rfl

theorem close_moves (h : t.next limits bound .close = .ok t') : Moves limits bound t t' := by
  obtain ⟨plan, hplan, h⟩ := of_bind h
  rw [orRefused, mapError_eq_ok] at hplan
  cases h
  rcases hs : t.state with _ | binding | _ | _ | _ | _ <;> rw [hs] at hplan
  case activeUnbound =>
    cases hplan
    exact .ends .discarded (by rw [hs]; rfl) rfl rfl rfl
  case activeBound =>
    obtain ⟨_, -, hplan⟩ := of_bind hplan
    cases hplan
    exact .ends .discarded (by rw [hs]; rfl) rfl rfl rfl
  all_goals
    cases hplan
    exact .stays hs.symm rfl rfl

/-- **Every event** does to a transaction one of the things of `Moves`. -/
theorem next_moves {event : TransactionEvent} (h : t.next limits bound event = .ok t') :
    Moves limits bound t t' := by
  cases event with
  | mutate target supports => exact mutate_moves h
  | dispatchCommit =>
    obtain ⟨_, -, h⟩ := of_bind h
    cases h
    exact .stays rfl rfl rfl
  | commitResponse response => exact commitResponse_moves h
  | timeout => exact timeout_moves h
  | sourceDown => exact sourceDown_moves h
  | close => exact close_moves h

/-! ## The life of one transaction -/

/-- What has ended stays as it ended. -/
theorem Moves.terminal (h : Moves limits bound t t')
    (ht : isTerminalTransactionState t.state = true) : t'.state = t.state := by
  cases h with
  | stays hstate | settles _ hstate => exact hstate
  | binds _ hstate => simp [hstate, isTerminalTransactionState] at ht
  | ends _ hstate | timesOutInFlight hstate => simp [hstate] at ht

/-- What is bound stays bound to that hive until it ends. -/
theorem Moves.binding (h : Moves limits bound t t') {binding : TransactionBinding}
    (ht : t.state = .activeBound binding) :
    t'.state = .activeBound binding ∨ isTerminalTransactionState t'.state = true := by
  cases h with
  | stays hstate | settles _ hstate => exact .inl (hstate.trans ht)
  | binds _ hstate => simp [hstate] at ht
  | ends _ _ hstate' | timesOutInFlight _ hstate' => exact .inr hstate'

/-- An active transaction has done nothing with its log. One that ended has done one thing with
it, unless the log still waits. -/
def Transaction.LogKept (t : Transaction) : Prop :=
  (isTerminalTransactionState t.state = false → t.logRetained = false ∧ t.logEffects = []) ∧
    (t.logRetained = true → t.logEffects = []) ∧ t.logEffects.length ≤ 1

theorem Moves.logKept (h : Moves limits bound t t') (ht : t.LogKept) : t'.LogKept := by
  obtain ⟨hactive, hwaits, hone⟩ := ht
  cases h with
  | stays hstate hretained heffects =>
    rw [Transaction.LogKept, hstate, hretained, heffects]
    exact ⟨hactive, hwaits, hone⟩
  | binds _ hstate _ _ _ hretained heffects =>
    have hnone := hactive (by rw [hstate]; rfl)
    rw [Transaction.LogKept, hretained, heffects]
    exact ⟨fun _ => hnone, hwaits, hone⟩
  | ends effect hstate hstate' hretained heffects =>
    rw [Transaction.LogKept, hstate', hretained, heffects, (hactive hstate).2]
    simp
  | timesOutInFlight hstate hstate' hretained heffects =>
    rw [Transaction.LogKept, hstate', heffects, (hactive hstate).2]
    simp
  | settles effect hstate hbefore hretained heffects =>
    have hterminal : isTerminalTransactionState t.state = true := by
      by_contra hne
      have := (hactive (eq_false_of_ne_true hne)).1
      simp [hbefore] at this
    rw [Transaction.LogKept, hstate, hterminal, hretained, heffects, hwaits hbefore]
    simp

end

/-! ## The count -/

/-- Whether a state is bound to that source. -/
def TransactionState.boundTo (source : SourceId) : TransactionState → Bool
  | .activeBound binding => binding.sourceId == source
  | _ => false

/-- What holds of the table at any time. -/
structure Accounted (limits : LcsLimits) (table : TransactionTable) : Prop where
  valid : ∀ t ∈ table.transactions, ∀ binding, t.state = .activeBound binding →
    validateTransactionBinding limits binding = .ok ()
  count : ∀ source, table.bound source = table.transactions.countP (·.state.boundTo source)
  bounded : ∀ source, table.bound source ≤ limits.maxBoundTransactionsPerSource
  logs : ∀ t ∈ table.transactions, t.LogKept

variable {table table' : TransactionTable} {index : ℕ} {t t' : Transaction} {bound : SourceId → ℕ}
  {event : TableEvent} {binding : TransactionBinding} {state : TransactionState}

/-- The change of one transaction as the counts see it: by how much the count of each source
goes up and down. -/
theorem countP_set (ht : table.transactions[index]? = some t) (t' : Transaction)
    (source : SourceId) :
    (table.transactions.set index t').countP (·.state.boundTo source) +
        (if t.state.boundTo source then 1 else 0) =
      table.transactions.countP (·.state.boundTo source) +
        if t'.state.boundTo source then 1 else 0 := by
  obtain ⟨hlt, hget⟩ := List.getElem?_eq_some_iff.mp ht
  rw [List.countP_set hlt, hget]
  have hpos : t.state.boundTo source = true →
      0 < table.transactions.countP (·.state.boundTo source) := fun hb =>
    countP_pos_iff.mpr ⟨t, hget ▸ getElem_mem hlt, hb⟩
  split
  · rename_i hb
    have := hpos hb
    omega
  · omega

theorem sameTransactionBinding_self (h : validateTransactionBinding limits binding = .ok ()) :
    sameTransactionBinding limits binding binding = .ok true := by
  simp [sameTransactionBinding, h, casefoldEq_refl]

theorem boundTo_of_terminal (h : isTerminalTransactionState state = true) (source : SourceId) :
    state.boundTo source = false := by
  cases state with
  | activeBound b => cases h
  | activeUnbound | committed | aborted | timedOut | sourceDown => rfl

/-- The planner of the count succeeds at a change of state, and moves the count of each source as
the state moves. -/
def Counted (limits : LcsLimits) (bound : SourceId → ℕ) (state state' : TransactionState) : Prop :=
  ∃ plan, planTransactionBoundCounterTransition limits state state'
      (bound (countedSource state state')) = .ok plan ∧
    ∀ source, plan.apply bound source + (if state.boundTo source then 1 else 0) =
      bound source + if state'.boundTo source then 1 else 0

/-- A transaction that keeps its state leaves the counts. -/
theorem counted_stays (hvalid : ∀ binding, state = .activeBound binding →
    validateTransactionBinding limits binding = .ok ()) : Counted limits bound state state := by
  cases hs : state with
  | activeBound binding =>
    refine ⟨⟨some binding, .noChange, bound binding.sourceId, bound binding.sourceId⟩, ?_, ?_⟩
    · simp [planTransactionBoundCounterTransition, boundCounterEffect, countedSource,
        sameTransactionBinding_self (hvalid binding hs), planTransactionBoundCounterUpdate]
    · simp [apply]
  | activeUnbound | committed | aborted | timedOut | sourceDown => exact ⟨_, rfl, fun _ => rfl⟩

/-- A transaction that ends is no longer counted. -/
theorem counted_ends {state' : TransactionState}
    (hvalid : ∀ binding, state = .activeBound binding →
      validateTransactionBinding limits binding = .ok ())
    (hpos : ∀ binding, state = .activeBound binding → 0 < bound binding.sourceId)
    (hstate : isTerminalTransactionState state = false)
    (hstate' : isTerminalTransactionState state' = true) : Counted limits bound state state' := by
  rcases state with _ | binding | _ | _ | _ | _
  case activeUnbound =>
    cases state' with
    | activeUnbound | activeBound b => cases hstate'
    | committed | aborted | timedOut | sourceDown => exact ⟨_, rfl, fun _ => rfl⟩
  case activeBound =>
    have hone : 0 < bound binding.sourceId := hpos binding rfl
    refine ⟨⟨some binding, .decrement, bound binding.sourceId, bound binding.sourceId - 1⟩, ?_,
      fun source => ?_⟩
    · cases state' with
      | activeUnbound | activeBound b => cases hstate'
      | committed | aborted | timedOut | sourceDown =>
        simp [planTransactionBoundCounterTransition, boundCounterEffect, countedSource,
          hvalid binding rfl, planTransactionBoundCounterUpdate, Nat.ne_of_gt hone,
          isTerminalTransactionState]
    · rw [boundTo_of_terminal hstate']
      by_cases hsource : source = binding.sourceId
      · subst hsource
        simp only [apply, Function.update_self,
          boundTo, beq_self_eq_true, if_true, Bool.false_eq_true, if_false]
        omega
      · simp [apply, boundTo, hsource, Ne.symm hsource]
  all_goals cases hstate

/-- **The planner of the count succeeds** however a transaction moves. -/
theorem counted_of_moves (h : Accounted limits table) (ht : table.transactions[index]? = some t)
    (hm : Moves limits table.bound t t') : Counted limits table.bound t.state t'.state := by
  have hmem : t ∈ table.transactions := mem_of_getElem? ht
  have hvalid := h.valid t hmem
  have hpos : ∀ binding, t.state = .activeBound binding → 0 < table.bound binding.sourceId := by
    intro binding hs
    rw [h.count]
    exact countP_pos_iff.mpr ⟨t, hmem, by simp [boundTo, hs]⟩
  cases hm with
  | stays hstate | settles _ hstate =>
    rw [hstate]
    exact counted_stays hvalid
  | ends _ hstate hstate' | timesOutInFlight hstate hstate' =>
    exact counted_ends hvalid hpos hstate hstate'
  | binds binding hstate hstate' hvalid' hroom =>
    rw [hstate, hstate']
    refine ⟨⟨some binding, .increment, table.bound binding.sourceId,
      table.bound binding.sourceId + 1⟩, ?_, fun source => ?_⟩
    · simp [planTransactionBoundCounterTransition, boundCounterEffect, countedSource, hvalid',
        planTransactionBoundCounterUpdate, Nat.not_le.mpr hroom]
    · by_cases hsource : source = binding.sourceId
      · subst hsource
        simp [apply, boundTo]
      · simp [apply, boundTo, hsource, Ne.symm hsource]

/-! ## Steps of the table -/

/-- **What a step does**: a transaction is begun, or one moves and the count follows. -/
theorem step_eq_ok (h : Accounted limits table) (hstep : table.step limits event = .ok table') :
    (table'.transactions = table.transactions ++ [.begun] ∧ table'.bound = table.bound) ∨
      ∃ index t t', table.transactions[index]? = some t ∧ Moves limits table.bound t t' ∧
        table'.transactions = table.transactions.set index t' ∧
        ∀ source, table'.bound source + (if t.state.boundTo source then 1 else 0) =
          table.bound source + if t'.state.boundTo source then 1 else 0 := by
  cases event with
  | begin =>
    cases hstep
    exact .inl ⟨rfl, rfl⟩
  | on index event =>
    right
    unfold step at hstep
    simp only at hstep
    rcases ht : table.transactions[index]? with _ | t <;> rw [ht] at hstep
    · cases hstep
    · obtain ⟨t', hnext, hstep⟩ := of_bind hstep
      have hm := next_moves hnext
      obtain ⟨plan, hplan, hcount⟩ := counted_of_moves h ht hm
      rw [hplan] at hstep
      cases hstep
      exact ⟨index, t, t', ht, hm, rfl, hcount⟩

/-- The planners of the events do not fail as the planner of the count does. -/
theorem next_avoids_counter (event : TransactionEvent) :
    Avoids (fun failure => ∃ e, failure = .counter e) (t.next limits bound event) := by
  have hrefused : ∀ {ε α : Type} (x : Except ε α),
      Avoids (fun failure => ∃ e, failure = .counter e) (orRefused x) := by
    intro ε α x
    cases x with
    | error e => exact avoids_error.mpr (by simp)
    | ok a => exact avoids_ok a
  cases event with
  | mutate target supports =>
    refine (hrefused _).bind fun plan => ?_
    cases plan <;> exact avoids_ok _
  | commitResponse response =>
    exact .ite (by simp) (.ite (avoids_ok _) ((hrefused _).bind fun _ => by simp))
  | sourceDown => exact .ite (avoids_ok _) ((hrefused _).bind fun _ => by simp)
  | dispatchCommit | timeout | close => exact (hrefused _).bind fun _ => by simp

/-- **The count never fails.** -/
theorem step_ne_counter (h : Accounted limits table) (event : TableEvent) (e : LcsError) :
    table.step limits event ≠ .error (.counter e) := by
  intro hstep
  cases event with
  | begin => cases hstep
  | on index event =>
    unfold step at hstep
    simp only at hstep
    rcases ht : table.transactions[index]? with _ | t <;> rw [ht] at hstep
    · cases hstep
    · rcases hnext : t.next limits table.bound event with failure | t'
      · simp only [hnext, error_bind, Except.error.injEq] at hstep
        exact next_avoids_counter event failure hnext ⟨e, hstep⟩
      · obtain ⟨plan, hplan, -⟩ := counted_of_moves h ht (next_moves hnext)
        simp [hnext, hplan] at hstep

theorem accounted_empty : Accounted limits .empty where
  valid := by simp [empty]
  count := by simp [empty]
  bounded := by simp [empty]
  logs := by simp [empty]

/-- A transaction is begun unbound. -/
theorem Accounted.begin (h : Accounted limits table)
    (htransactions : table'.transactions = table.transactions ++ [.begun])
    (hbound : table'.bound = table.bound) : Accounted limits table' where
  valid := by
    rw [htransactions]
    exact forall_mem_append.mpr ⟨h.valid, by simp [Transaction.begun]⟩
  count := by
    intro source
    rw [hbound, htransactions, h.count, countP_append]
    rfl
  bounded := hbound ▸ h.bounded
  logs := by
    rw [htransactions]
    exact forall_mem_append.mpr ⟨h.logs, by simp [Transaction.LogKept, Transaction.begun]⟩

/-- What is bound after a move was bound before, or has just been accepted. -/
theorem Moves.valid (hm : Moves limits bound t t')
    (ht : ∀ binding, t.state = .activeBound binding →
      validateTransactionBinding limits binding = .ok ()) (hs : t'.state = .activeBound binding) :
    validateTransactionBinding limits binding = .ok () := by
  cases hm with
  | stays hstate | settles _ hstate => exact ht binding (hstate ▸ hs)
  | binds other _ hstate' hvalid =>
    obtain rfl : other = binding := by simpa [hstate'] using hs
    exact hvalid
  | ends _ _ hstate' | timesOutInFlight _ hstate' =>
    simp [hs, isTerminalTransactionState] at hstate'

/-- A count goes up only where there was room. -/
theorem Moves.bounded {bound' : SourceId → ℕ} (hm : Moves limits bound t t')
    (hbounded : ∀ source, bound source ≤ limits.maxBoundTransactionsPerSource)
    (hcount : ∀ source, bound' source + (if t.state.boundTo source then 1 else 0) =
      bound source + if t'.state.boundTo source then 1 else 0) (source : SourceId) :
    bound' source ≤ limits.maxBoundTransactionsPerSource := by
  have hold := hbounded source
  have hnew := hcount source
  cases hm with
  | stays hstate | settles _ hstate =>
    rw [hstate] at hnew
    omega
  | ends _ _ hstate' | timesOutInFlight _ hstate' =>
    rw [boundTo_of_terminal hstate'] at hnew
    simp only [Bool.false_eq_true, if_false] at hnew
    omega
  | binds binding hstate hstate' _ hroom =>
    rw [hstate'] at hnew
    by_cases hsource : binding.sourceId = source
    · subst hsource
      simp [boundTo] at hnew
      omega
    · simp [boundTo, hsource] at hnew
      omega

/-- **One step** keeps the accounts. -/
theorem Accounted.step (h : Accounted limits table) (hstep : table.step limits event = .ok table') :
    Accounted limits table' := by
  rcases step_eq_ok h hstep with ⟨htransactions, hbound⟩ | ⟨index, t, t', ht, hm, hset, hcount⟩
  · exact h.begin htransactions hbound
  · have hmem : t ∈ table.transactions := mem_of_getElem? ht
    have hall : ∀ {P : Transaction → Prop}, (∀ u ∈ table.transactions, P u) → P t' →
        ∀ u ∈ table'.transactions, P u := by
      intro P hP ht' u hu
      rw [hset] at hu
      rcases mem_or_eq_of_mem_set hu with hu | rfl
      · exact hP u hu
      · exact ht'
    refine ⟨hall h.valid fun _ => hm.valid (h.valid t hmem), fun source => ?_,
      hm.bounded h.bounded hcount, hall h.logs (hm.logKept (h.logs t hmem))⟩
    have hold := h.count source
    have hnew := hcount source
    have hlist := countP_set ht t' source
    rw [hset]
    omega

/-! ## Runs -/

/-- One table comes after another: by an event that was not refused. -/
def TransactionTable.Follows (limits : LcsLimits) (table table' : TransactionTable) : Prop :=
  ∃ event, table.step limits event = .ok table'

/-- A table that a run from no transactions reaches. -/
def TransactionTable.Reachable (limits : LcsLimits) : TransactionTable → Prop :=
  Relation.ReflTransGen (TransactionTable.Follows limits) .empty

theorem Accounted.run (h : Accounted limits table)
    (hrun : Relation.ReflTransGen (TransactionTable.Follows limits) table table') :
    Accounted limits table' := by
  induction hrun with
  | refl => exact h
  | tail _ hstep ih =>
    obtain ⟨_, hstep⟩ := hstep
    exact ih.step hstep

/-- How a transaction was, and how it is later. -/
structure Outlives (t t' : Transaction) : Prop where
  terminal : isTerminalTransactionState t.state = true → t'.state = t.state
  binding : ∀ binding, t.state = .activeBound binding →
    t'.state = .activeBound binding ∨ isTerminalTransactionState t'.state = true
  effects : t.logEffects <+: t'.logEffects

theorem Outlives.refl (t : Transaction) : Outlives t t :=
  ⟨fun _ => rfl, fun _ h => .inl h, prefix_rfl⟩

theorem Outlives.trans {u : Transaction} (h : Outlives t t') (h' : Outlives t' u) :
    Outlives t u where
  terminal ht := by
    have hsame := h.terminal ht
    exact (h'.terminal (hsame ▸ ht)).trans hsame
  binding b hb := by
    rcases h.binding b hb with hb' | hended
    · exact h'.binding b hb'
    · exact .inr (by rw [h'.terminal hended]; exact hended)
  effects := h.effects.trans h'.effects

theorem Moves.outlives (hm : Moves limits bound t t') : Outlives t t' where
  terminal := hm.terminal
  binding _ := hm.binding
  effects := by
    cases hm with
    | stays _ _ heffects | binds _ _ _ _ _ _ heffects | timesOutInFlight _ _ _ heffects =>
      exact heffects ▸ prefix_rfl
    | ends _ _ _ _ heffects | settles _ _ _ _ heffects =>
      exact heffects ▸ prefix_append ..

/-- A step keeps every transaction of the table in its place. -/
theorem outlives_step (h : Accounted limits table) (hstep : table.step limits event = .ok table')
    (ht : table.transactions[index]? = some t) :
    ∃ t', table'.transactions[index]? = some t' ∧ Outlives t t' := by
  rcases step_eq_ok h hstep with ⟨htransactions, -⟩ | ⟨moved, u, u', hu, hm, hset, -⟩
  · refine ⟨t, ?_, .refl t⟩
    rw [htransactions, getElem?_append_left (List.getElem?_eq_some_iff.mp ht).1, ht]
  · by_cases hsame : moved = index
    · subst hsame
      cases hu.symm.trans ht
      refine ⟨u', ?_, hm.outlives⟩
      rw [hset, getElem?_set_self (List.getElem?_eq_some_iff.mp ht).1]
    · refine ⟨t, ?_, .refl t⟩
      rw [hset, getElem?_set_ne hsame, ht]

theorem outlives_run (h : Accounted limits table)
    (hrun : Relation.ReflTransGen (TransactionTable.Follows limits) table table')
    (ht : table.transactions[index]? = some t) :
    ∃ t', table'.transactions[index]? = some t' ∧ Outlives t t' := by
  induction hrun with
  | refl => exact ⟨t, ht, .refl t⟩
  | tail hrun hstep ih =>
    obtain ⟨_, hstep⟩ := hstep
    obtain ⟨u, hu, hlives⟩ := ih
    obtain ⟨t', ht', hlives'⟩ := outlives_step (h.run hrun) hstep hu
    exact ⟨t', ht', hlives.trans hlives'⟩

/-- **Accounting.** In every table that some interleaving of events reaches:

* no event makes the planner of the count fail;
* the count of a source is the number of transactions bound to it, and within the limit;
* a log was applied at most once, and not after it was discarded;
* a transaction that has ended stays as it ended, one that was bound is never seen bound to
  anything else, and what was done with its log is not undone. -/
theorem transaction_accounting {limits : LcsLimits} {table : TransactionTable}
    (h : table.Reachable limits) :
    (∀ event e, table.step limits event ≠ .error (.counter e)) ∧
    (∀ source, table.bound source = table.transactions.countP (·.state.boundTo source) ∧
      table.bound source ≤ limits.maxBoundTransactionsPerSource) ∧
    (∀ t ∈ table.transactions, t.logEffects.count .applied ≤ 1 ∧
      ∀ earlier later, t.logEffects = earlier ++ .applied :: later → .discarded ∉ earlier) ∧
    ∀ table', Relation.ReflTransGen (TransactionTable.Follows limits) table table' →
      ∀ (index : ℕ) (t : Transaction), table.transactions[index]? = some t →
        ∃ t' : Transaction, table'.transactions[index]? = some t' ∧
          (isTerminalTransactionState t.state = true → t'.state = t.state) ∧
          (∀ binding binding', t.state = .activeBound binding →
            t'.state = .activeBound binding' → binding' = binding) ∧
          t.logEffects <+: t'.logEffects := by
  have hacc : Accounted limits table := accounted_empty.run h
  refine ⟨step_ne_counter hacc, fun source => ⟨hacc.count source, hacc.bounded source⟩,
    fun t ht => ?_, fun table' hrun index t ht => ?_⟩
  · obtain ⟨-, -, hone⟩ := hacc.logs t ht
    refine ⟨Nat.le_trans count_le_length hone, fun earlier later heq hdiscarded => ?_⟩
    -- the log has seen one effect, so nothing came before it
    have hlength : earlier.length + (later.length + 1) ≤ 1 := by
      simpa [heq] using hone
    have hpos := length_pos_of_mem hdiscarded
    omega
  · obtain ⟨t', ht', hlives⟩ := outlives_run hacc hrun ht
    refine ⟨t', ht', hlives.terminal, fun binding binding' hb hb' => ?_, hlives.effects⟩
    rcases hlives.binding binding hb with hsame | hended
    · simpa [hb'] using hsame
    · simp [hb', isTerminalTransactionState] at hended

/-! ## A run -/

/-- Two transactions on the hive of one source. The first commits, times out before the answer,
and the answer comes late; the second stays open. -/
def Sample.transactionEvents : List TableEvent :=
  let root : Guid := ⟨List.replicate 16 1#8, length_replicate⟩
  let binding : TransactionBinding := ⟨7, "Users".toList, root⟩
  [.begin, .begin, .on 0 (.mutate binding true), .on 1 (.mutate binding true),
    .on 0 .dispatchCommit, .on 0 .timeout, .on 0 (.commitResponse .committed)]

theorem reachable_of_run {events : List TableEvent}
    (h : events.foldlM (step limits) .empty = .ok table) :
    table.Reachable limits :=
  Scan.foldlM_inv (fun _ event _ hs hstep => hs.tail ⟨event, hstep⟩) .refl h

/-- The run goes through: one of the two is still counted, and the log of the other was
applied. -/
theorem transaction_accounting_sample :
    ∃ table : TransactionTable, table.Reachable .default ∧ table.bound 7 = 1 ∧
      table.transactions.map (·.logEffects) = [[.applied], []] ∧
      ∀ event e, table.step .default event ≠ .error (.counter e) := by
  obtain ⟨table, hrun, hseen⟩ := exists_of_map
    (x := Sample.transactionEvents.foldlM (step .default) .empty)
    (f := fun table => (table.bound 7, table.transactions.map (·.logEffects)))
    (c := (1, [[.applied], []])) (by decide +kernel)
  have hreach := reachable_of_run hrun
  obtain ⟨hbound, heffects⟩ := Prod.mk.inj hseen
  exact ⟨table, hreach, hbound, heffects, (transaction_accounting hreach).1⟩

end Pkm.Lcs
