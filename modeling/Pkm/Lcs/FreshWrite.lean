import Pkm.Lcs.Model.Transaction
import Pkm.Lcs.Resolution
/-!
# A fresh write is visible

Along any run of the counter the numbers it gives out increase, and each is
above every number a source reported before. An entry that carries a fresh
number is therefore above every known entry of its precedence: a lookup returns
it, unless an entry of higher precedence overrules it, and it ties with none.
-/

namespace Pkm.Lcs

open List

/-! ## Runs of the counter -/

/-- What is asked of the counter. -/
inductive CounterOp where
  | allocate
  | advancePastSourceMax (sourceMaxSequence : ℕ)
  | writeValue (limits : LcsLimits) (input : ValueWriteInput)
  | blanketTombstone (limits : LcsLimits) (input : BlanketTombstoneInput)
  | acceptMutation (limits : LcsLimits) (state : TransactionState) (target : TransactionBinding)
    (sourceSupportsTransactions : Bool) (currentBoundTransactionsForSource : ℕ)

/-- What came of it: a number was given out, a report was taken in, nothing had to be numbered, or
it was refused. -/
inductive CounterEvent where
  | allocated (sequence : ℕ)
  | reported (sourceMaxSequence : ℕ)
  | unnumbered
  | refused
  deriving DecidableEq

/-- The event a computation on the counter is, and the counter after it. -/
def observe {ε α : Type} (x : Counting ε α) (event : α → CounterEvent)
    (counter : SequenceCounter) : CounterEvent × SequenceCounter :=
  match x.run counter with
  | (.ok a, next) => (event a, next)
  | (.error _, next) => (.refused, next)

def BlanketTombstoneAction.event : BlanketTombstoneAction → CounterEvent
  | .set sequence => .allocated sequence
  | .remove => .unnumbered

def CounterOp.run : CounterOp → SequenceCounter → CounterEvent × SequenceCounter
  | .allocate => observe Counting.allocate .allocated
  | .advancePastSourceMax m => observe (Counting.advancePastSourceMax m) fun _ => .reported m
  | .writeValue limits input =>
    observe (planValueWrite limits input) fun planned => .allocated planned.write.sequence
  | .blanketTombstone limits input =>
    observe (planBlanketTombstone limits input) fun planned => planned.blanket.action.event
  | .acceptMutation limits state target supports bound =>
    observe (planTransactionMutationAcceptance limits state target supports bound)
      fun plan => .allocated plan.sequence

/-- The events of a run, in order, and the counter it ends with. -/
def runCounter : List CounterOp → SequenceCounter → List CounterEvent × SequenceCounter
  | [], counter => ([], counter)
  | op :: ops, counter =>
    let (event, next) := op.run counter
    let (events, last) := runCounter ops next
    (event :: events, last)

/-! ## One operation -/

section

variable {counter next : SequenceCounter}

/-- What one operation can do. -/
inductive Counts (counter : SequenceCounter) : CounterEvent × SequenceCounter → Prop
  | allocated {next : SequenceCounter} (h : next.nextSequence = counter.nextSequence + 1) :
    Counts counter (.allocated counter.nextSequence, next)
  | reported {m : ℕ} {next : SequenceCounter}
    (h : next.nextSequence = max counter.nextSequence (m + 1)) :
    Counts counter (.reported m, next)
  | unnumbered : Counts counter (.unnumbered, counter)
  | refused : Counts counter (.refused, counter)

theorem SequenceCounter.at?_eq_some {n : ℕ} (h : SequenceCounter.at? n = some next) :
    next.nextSequence = n := by
  unfold SequenceCounter.at? at h
  split at h
  · rw [← Option.some.inj h]
  · cases h

/-- Gives out the number the counter stands at, or leaves it there. -/
def Allocates {ε : Type} (x : Counting ε ℕ) : Prop :=
  ∀ counter : SequenceCounter,
    (∃ next : SequenceCounter, next.nextSequence = counter.nextSequence + 1 ∧
        x.run counter = (.ok counter.nextSequence, next)) ∨
      ∃ e, x.run counter = (.error e, counter)

theorem run_get (counter : SequenceCounter) :
    (get : Counting LcsError SequenceCounter).run counter = (.ok counter, counter) := rfl

theorem allocate_allocates : Allocates Counting.allocate := by
  intro counter
  rw [Counting.allocate, Outcome.run_bind, run_get]
  rcases hn : SequenceCounter.at? (counter.nextSequence + 1) with _ | next <;> simp only [hn]
  · exact .inr ⟨_, rfl⟩
  · exact .inl ⟨next, SequenceCounter.at?_eq_some hn, rfl⟩

variable {ε α : Type} {x : Counting ε ℕ}

theorem Allocates.adapt {ε' : Type} (h : Allocates x) (f : ε → ε') :
    Allocates (ExceptT.adapt f x : Counting ε' ℕ) := by
  intro counter
  have hadapt : (ExceptT.adapt f x : Counting ε' ℕ).run counter =
      ((x.run counter).1.mapError f, (x.run counter).2) := rfl
  rcases h counter with ⟨next, hnext, hrun⟩ | ⟨e, hrun⟩ <;> rw [hrun] at hadapt
  · exact .inl ⟨next, hnext, hadapt⟩
  · exact .inr ⟨_, hadapt⟩

/-- What is built around an allocation counts as one. -/
theorem Allocates.counts (h : Allocates x) (build : ℕ → α) {event : α → CounterEvent}
    (hevent : ∀ n, event (build n) = .allocated n) (counter : SequenceCounter) :
    Counts counter (observe (do
      let n ← x
      pure (build n)) event counter) := by
  unfold observe
  rw [Outcome.run_bind]
  rcases h counter with ⟨next, hnext, hrun⟩ | ⟨e, hrun⟩ <;> rw [hrun]
  · change Counts counter (event (build counter.nextSequence), next)
    rw [hevent]
    exact .allocated hnext
  · exact .refused

/-- A check that fails takes no number. -/
theorem counts_check {β : Type} {x : Except ε α} {f : α → Counting ε β} {event : β → CounterEvent}
    (h : ∀ a, x = .ok a → Counts counter (observe (f a) event counter)) :
    Counts counter (observe (Counting.check x >>= f) event counter) := by
  rcases x with e | a
  · exact .refused
  · have hbind : observe (Counting.check (.ok a) >>= f) event counter =
        observe (f a) event counter := rfl
    exact h a rfl

theorem advancePastSourceMax_counts (m : ℕ) (counter : SequenceCounter) :
    Counts counter (observe (Counting.advancePastSourceMax m) (fun _ => .reported m) counter) := by
  unfold observe
  rw [Counting.advancePastSourceMax, Outcome.run_bind, run_get]
  rcases hm : SequenceCounter.at? (m + 1) with _ | candidate
  · exact .refused
  · have hcandidate := SequenceCounter.at?_eq_some hm
    by_cases hgt : candidate.nextSequence > counter.nextSequence
    · have hmax : candidate.nextSequence = max counter.nextSequence (m + 1) := by omega
      simp only [if_pos hgt]
      exact .reported hmax
    · have hmax : counter.nextSequence = max counter.nextSequence (m + 1) := by omega
      simp only [if_neg hgt]
      exact .reported hmax

/-- **Every operation** gives out the number the counter stands at, takes in a report, or leaves
the counter as it is. -/
theorem CounterOp.counts (op : CounterOp) (counter : SequenceCounter) :
    Counts counter (op.run counter) := by
  rcases op with _ | m | ⟨limits, input⟩ | ⟨limits, input⟩ |
    ⟨limits, state, target, supports, bound⟩
  · have h := allocate_allocates.counts id (fun n => rfl : ∀ n, CounterEvent.allocated (id n) = _)
      counter
    rwa [show (do let n ← Counting.allocate; pure (id n) : Counting LcsError ℕ) =
      Counting.allocate from bind_pure _] at h
  · exact advancePastSourceMax_counts m counter
  · refine counts_check fun validated _ => ?_
    refine allocate_allocates.counts _ ?_ counter
    intro n
    rfl
  · -- only setting a blanket tombstone takes a number
    refine counts_check fun validated _ => ?_
    obtain ⟨keyGuid, layer, sequence | _⟩ := validated
    · simp only [BlanketTombstoneAction.numbered, bind_assoc]
      refine allocate_allocates.counts _ ?_ counter
      intro n
      rfl
    · exact .unnumbered
  · refine counts_check fun binding _ => ?_
    refine (allocate_allocates.adapt _).counts _ ?_ counter
    intro n
    rfl

/-- An operation that is refused leaves the counter as it was. -/
theorem CounterOp.counter_of_refused {op : CounterOp} (h : (op.run counter).1 = .refused) :
    (op.run counter).2 = counter := by
  have hcounts := op.counts counter
  generalize op.run counter = result at hcounts h
  cases hcounts with
  | refused => rfl
  | allocated | reported | unnumbered => cases h

end

/-! ## Whole runs -/

/-- Numbers come in order: one given out later is above one given out or reported before. -/
def CounterEvent.Before : CounterEvent → CounterEvent → Prop
  | .allocated m, .allocated n => m < n
  | .reported m, .allocated n => m < n
  | _, _ => True

/-- A number that was given out, or that a report covers. -/
def Known (history : List CounterEvent) (sequence : ℕ) : Prop :=
  .allocated sequence ∈ history ∨ ∃ m, .reported m ∈ history ∧ sequence ≤ m

/-- An event is below the counter if its number is. -/
def CounterEvent.Below (bound : ℕ) : CounterEvent → Prop
  | .allocated n => n < bound
  | .reported m => m < bound
  | _ => True

section

variable {counter : SequenceCounter}

theorem CounterEvent.Below.mono {event : CounterEvent} {m n : ℕ} (h : event.Below m)
    (hmn : m ≤ n) : event.Below n := by
  cases event with
  | allocated k => exact lt_of_lt_of_le h hmn
  | reported k => exact lt_of_lt_of_le h hmn
  | unnumbered | refused => trivial

/-- **Step.** An operation moves the counter forward and past the number of its event, and gives
out no number below the counter. -/
theorem Counts.forward {result : CounterEvent × SequenceCounter} (h : Counts counter result) :
    counter.nextSequence ≤ result.2.nextSequence ∧ result.1.Below result.2.nextSequence ∧
      ∀ n, result.1 = .allocated n → n = counter.nextSequence := by
  cases h with
  | allocated h =>
    refine ⟨by simp only [h]; omega, ?_, fun n hn => (CounterEvent.allocated.inj hn).symm⟩
    simp only [CounterEvent.Below]
    omega
  | reported h =>
    refine ⟨by simp only [h]; omega, ?_, fun n hn => by cases hn⟩
    simp only [CounterEvent.Below]
    omega
  | unnumbered => exact ⟨le_refl _, trivial, fun n hn => by cases hn⟩
  | refused => exact ⟨le_refl _, trivial, fun n hn => by cases hn⟩

/-- **Run.** The numbers given out increase, each above what was reported before, and the counter
ends above them all. -/
theorem runCounter_ordered (ops : List CounterOp) (counter : SequenceCounter) :
    counter.nextSequence ≤ (runCounter ops counter).2.nextSequence ∧
      (runCounter ops counter).1.Pairwise CounterEvent.Before ∧
      (∀ event ∈ (runCounter ops counter).1, event.Below (runCounter ops counter).2.nextSequence) ∧
      ∀ n, .allocated n ∈ (runCounter ops counter).1 → counter.nextSequence ≤ n := by
  induction ops generalizing counter with
  | nil => exact ⟨le_refl _, List.Pairwise.nil, by simp [runCounter], by simp [runCounter]⟩
  | cons op ops ih =>
    obtain ⟨hstep, hbelow, hfresh⟩ := (op.counts counter).forward
    obtain ⟨hle, hpair, hall, hlow⟩ := ih (op.run counter).2
    have hrun : runCounter (op :: ops) counter =
        ((op.run counter).1 :: (runCounter ops (op.run counter).2).1,
          (runCounter ops (op.run counter).2).2) := rfl
    rw [hrun]
    refine ⟨le_trans hstep hle, pairwise_cons.mpr ⟨?_, hpair⟩,
      forall_mem_cons.mpr ⟨hbelow.mono hle, hall⟩, ?_⟩
    · -- what comes later starts from a counter past this event
      intro event hevent
      generalize (op.run counter).1 = first at hbelow
      cases event with
      | allocated n =>
        have hn := hlow n hevent
        cases first with
        | allocated m => exact lt_of_lt_of_le hbelow hn
        | reported m => exact lt_of_lt_of_le hbelow hn
        | unnumbered | refused => trivial
      | reported m | unnumbered | refused => cases first <;> trivial
    · intro n hn
      rcases mem_cons.mp hn with hn | hn
      · exact le_of_eq (hfresh n hn.symm).symm
      · exact le_trans hstep (hlow n hn)

/-- A known number is below the counter. -/
theorem Known.lt {ops : List CounterOp} {sequence : ℕ}
    (h : Known (runCounter ops counter).1 sequence) :
    sequence < (runCounter ops counter).2.nextSequence := by
  obtain ⟨-, -, hall, -⟩ := runCounter_ordered ops counter
  rcases h with h | ⟨m, hm, hle⟩
  · exact hall _ h
  · exact lt_of_le_of_lt hle (hall _ hm)

end

/-! ## A fresh entry among others -/

/-- What showing something or nothing is as a resolution. -/
def Resolution.ofOption {ρ : Type} : Option ρ → Resolution ρ
  | some result => .found result
  | none => .notFound

/-- What a lookup comes to when a candidate joins others: it shows unless one of strictly higher
precedence is there, in which case nothing changes, and no tie is new. -/
structure Shows {α ρ : Type} (tuple : α → ℕ × ℕ) (visible : α → Option ρ) (c : α)
    (others : List α) (before after : LcsResult (Resolution ρ)) : Prop where
  shown : (¬ ∃ b ∈ others, (tuple c).1 < (tuple b).1) → after = .ok (.ofOption (visible c))
  overruled : (∃ b ∈ others, (tuple c).1 < (tuple b).1) → after = before
  tie : ∀ p s, after = .error (.duplicateWinningSequenceTie p s) →
    before = .error (.duplicateWinningSequenceTie p s) ∧ (tuple c).1 < p

section

variable {α ρ : Type} {tuple : α → ℕ × ℕ} {visible : α → Option ρ} {c : α} {others : List α}

theorem answer_cons_of_fresh (hfresh : ∀ b ∈ others, (tuple b).2 < (tuple c).2) :
    Shows tuple visible c others (answer tuple visible others)
      (answer tuple visible (c :: others)) := by
  have hshown : (¬ ∃ b ∈ others, (tuple c).1 < (tuple b).1) →
      answer tuple visible (c :: others) = .ok (.ofOption (visible c)) := by
    intro hnone
    have habove : ∀ b ∈ others, rank tuple b < rank tuple c := by
      intro b hb
      have hle : ¬ (tuple c).1 < (tuple b).1 := fun h => hnone ⟨b, hb, h⟩
      have hseq := hfresh b hb
      rw [rank, rank, Prod.Lex.toLex_lt_toLex]
      omega
    rw [answer_eq_report, Select.choose_cons_of_forall_lt habove, report]
    rcases visible c with _ | r <;> rfl
  have hoverruled : (∃ b ∈ others, (tuple c).1 < (tuple b).1) →
      answer tuple visible (c :: others) = answer tuple visible others := by
    rintro ⟨b, hb, hlt⟩
    have hrank : rank tuple c < rank tuple b := Prod.Lex.toLex_lt_toLex.mpr (.inl hlt)
    rw [answer_eq_report, answer_eq_report, Select.choose_cons_of_lt hb hrank]
  refine ⟨hshown, hoverruled, fun p s htie => ?_⟩
  by_cases hhigh : ∃ b ∈ others, (tuple c).1 < (tuple b).1
  · have hbefore := (hoverruled hhigh).symm.trans htie
    obtain ⟨b, hb, hlt⟩ := hhigh
    have hle := (answer_eq_tie.mp hbefore).le b hb
    rw [rank, Prod.Lex.toLex_le_toLex] at hle
    exact ⟨hbefore, by omega⟩
  · rw [hshown hhigh] at htie
    cases htie

end

variable {context : LayerResolutionContext}

theorem LayerResolutionContext.Reorders.refl (context : LayerResolutionContext) :
    context.Reorders context := ⟨.refl _, .refl _, rfl, rfl⟩

theorem sequence_lt_of_mem {entries : List ValueEntry} {blankets : List BlanketTombstoneEntry}
    {n : ℕ} (hentries : ∀ e ∈ entries, e.sequence < n)
    (hblankets : ∀ b ∈ blankets, b.sequence < n) :
    ∀ c ∈ valueCandidates context entries blankets, c.sequence < n := by
  intro c hc
  rcases mem_append.mp hc with hc | hc
  · obtain ⟨e, he, hce⟩ := mem_filterMap.mp hc
    obtain ⟨l, -, rfl⟩ := Option.map_eq_some_iff.mp hce
    exact hentries e he
  · obtain ⟨b, hb, hcb⟩ := mem_filterMap.mp hc
    obtain ⟨l, -, rfl⟩ := Option.map_eq_some_iff.mp hcb
    exact hblankets b hb

section

variable {entries entries' : List ValueEntry} {blankets blankets' : List BlanketTombstoneEntry}
  {layer : ActiveLayer}

theorem resolveValue_shows (h : context.Proper) {entry : ValueEntry}
    (hperm : entries'.Perm (entry :: entries)) (hs : ∀ e ∈ entries', e.Sound context)
    (hb : ∀ b ∈ blankets, b.Sound context) (hlayer : activeLayer? context entry.layer = some layer)
    (hfresh : ∀ e ∈ entries, e.sequence < entry.sequence)
    (hfreshb : ∀ b ∈ blankets, b.sequence < entry.sequence) :
    Shows ValueCandidate.tuple ValueCandidate.visible ⟨layer, entry.sequence, entry.payload⟩
      (valueCandidates context entries blankets) (resolveValue context entries blankets)
      (resolveValue context entries' blankets) := by
  have hs₀ : ∀ e ∈ entries, e.Sound context :=
    fun e he => hs e (hperm.mem_iff.mpr (mem_cons_of_mem _ he))
  have hcons : valueCandidates context (entry :: entries) blankets =
      ⟨layer, entry.sequence, entry.payload⟩ :: valueCandidates context entries blankets := by
    simp [valueCandidates, ValueEntry.candidate?, hlayer]
  rw [resolveValue_of_sound h hs₀ hb, resolveValue_of_sound h hs hb,
    answer_perm (valueCandidates_perm (.refl context) h hperm (.refl blankets)), hcons]
  exact answer_cons_of_fresh (sequence_lt_of_mem hfresh hfreshb)

theorem resolveValue_blanket_shows (h : context.Proper) {blanket : BlanketTombstoneEntry}
    (hperm : blankets'.Perm (blanket :: blankets)) (hs : ∀ e ∈ entries, e.Sound context)
    (hb : ∀ b ∈ blankets', b.Sound context)
    (hlayer : activeLayer? context blanket.layer = some layer)
    (hfresh : ∀ e ∈ entries, e.sequence < blanket.sequence)
    (hfreshb : ∀ b ∈ blankets, b.sequence < blanket.sequence) :
    Shows ValueCandidate.tuple ValueCandidate.visible ⟨layer, blanket.sequence, .tombstone⟩
      (valueCandidates context entries blankets) (resolveValue context entries blankets)
      (resolveValue context entries blankets') := by
  have hb₀ : ∀ b ∈ blankets, b.Sound context :=
    fun b hm => hb b (hperm.mem_iff.mpr (mem_cons_of_mem _ hm))
  have hcons : (valueCandidates context entries (blanket :: blankets)).Perm
      (⟨layer, blanket.sequence, .tombstone⟩ :: valueCandidates context entries blankets) := by
    simp only [valueCandidates, BlanketTombstoneEntry.candidate?, filterMap_cons, hlayer]
    exact perm_middle
  rw [resolveValue_of_sound h hs hb₀, resolveValue_of_sound h hs hb,
    answer_perm ((valueCandidates_perm (.refl context) h (.refl entries) hperm).trans hcons)]
  exact answer_cons_of_fresh (sequence_lt_of_mem hfresh hfreshb)

theorem resolveNamedPathEntry_shows (h : context.Proper) {requested : Name}
    (hreq : KeyLike context.limits requested) {paths paths' : List NamedPathEntry}
    {entry : NamedPathEntry} (hperm : paths'.Perm (entry :: paths))
    (hs : ∀ e ∈ paths', e.Sound context)
    (hname : foldName entry.childName = foldName requested)
    (hlayer : activeLayer? context entry.entry.layer = some layer)
    (hfresh : ∀ e ∈ paths, e.entry.sequence < entry.entry.sequence) :
    Shows NamedPathCandidate.tuple NamedPathCandidate.visible
      ⟨entry.childName, layer, entry.entry.sequence, entry.entry.target⟩
      (namedPathCandidates context requested paths)
      (resolveNamedPathEntry context requested paths)
      (resolveNamedPathEntry context requested paths') := by
  have hs₀ : ∀ e ∈ paths, e.Sound context :=
    fun e he => hs e (hperm.mem_iff.mpr (mem_cons_of_mem _ he))
  have hcons : namedPathCandidates context requested (entry :: paths) =
      ⟨entry.childName, layer, entry.entry.sequence, entry.entry.target⟩ ::
        namedPathCandidates context requested paths := by
    simp [namedPathCandidates, NamedPathEntry.candidate?, hlayer, casefoldEq_iff.mpr hname]
  rw [resolveNamedPathEntry_of_sound h hreq hs₀, resolveNamedPathEntry_of_sound h hreq hs,
    answer_perm (namedPathCandidates_perm (.refl context) h requested hperm), hcons]
  refine answer_cons_of_fresh fun c hc => ?_
  obtain ⟨e, he, hce⟩ := mem_filterMap.mp hc
  unfold NamedPathEntry.candidate? at hce
  split at hce
  · obtain ⟨l, -, rfl⟩ := Option.map_eq_some_iff.mp hce
    exact hfresh e he
  · cases hce

end

/-! ## Fresh writes -/

/-- **A fresh write is visible and never ties**, after any run of the counter. -/
theorem fresh_write_visible (start : SequenceCounter) (ops : List CounterOp) :
    (runCounter ops start).1.Pairwise CounterEvent.Before ∧
    (∀ (op : CounterOp) (counter : SequenceCounter), (op.run counter).1 = .refused →
      (op.run counter).2 = counter) ∧
    ∀ (op : CounterOp) (n : ℕ) (next : SequenceCounter),
      op.run (runCounter ops start).2 = (.allocated n, next) →
      ∀ context : LayerResolutionContext, validateLayerResolutionContext context = .ok () →
        (∀ (entries entries' : List ValueEntry) (blankets : List BlanketTombstoneEntry)
            (entry : ValueEntry) (layer : ActiveLayer),
          entry.sequence = n → activeLayer? context entry.layer = some layer →
          entries'.Perm (entry :: entries) → (∀ e ∈ entries', e.Sound context) →
          (∀ b ∈ blankets, b.Sound context) →
          (∀ e ∈ entries, Known (runCounter ops start).1 e.sequence) →
          (∀ b ∈ blankets, Known (runCounter ops start).1 b.sequence) →
          Shows ValueCandidate.tuple ValueCandidate.visible ⟨layer, n, entry.payload⟩
            (valueCandidates context entries blankets) (resolveValue context entries blankets)
            (resolveValue context entries' blankets)) ∧
        (∀ (entries : List ValueEntry) (blankets blankets' : List BlanketTombstoneEntry)
            (blanket : BlanketTombstoneEntry) (layer : ActiveLayer),
          blanket.sequence = n → activeLayer? context blanket.layer = some layer →
          blankets'.Perm (blanket :: blankets) → (∀ e ∈ entries, e.Sound context) →
          (∀ b ∈ blankets', b.Sound context) →
          (∀ e ∈ entries, Known (runCounter ops start).1 e.sequence) →
          (∀ b ∈ blankets, Known (runCounter ops start).1 b.sequence) →
          Shows ValueCandidate.tuple ValueCandidate.visible ⟨layer, n, .tombstone⟩
            (valueCandidates context entries blankets) (resolveValue context entries blankets)
            (resolveValue context entries blankets')) ∧
        ∀ (requested : Name) (paths paths' : List NamedPathEntry) (entry : NamedPathEntry)
            (layer : ActiveLayer),
          entry.entry.sequence = n → activeLayer? context entry.entry.layer = some layer →
          KeyLike context.limits requested → foldName entry.childName = foldName requested →
          paths'.Perm (entry :: paths) → (∀ e ∈ paths', e.Sound context) →
          (∀ e ∈ paths, Known (runCounter ops start).1 e.entry.sequence) →
          Shows NamedPathCandidate.tuple NamedPathCandidate.visible
            ⟨entry.childName, layer, n, entry.entry.target⟩
            (namedPathCandidates context requested paths)
            (resolveNamedPathEntry context requested paths)
            (resolveNamedPathEntry context requested paths') := by
  refine ⟨(runCounter_ordered ops start).2.1, fun op counter => op.counter_of_refused, ?_⟩
  intro op n next hrun context hcontext
  have h := validateLayerResolutionContext_eq_ok.mp hcontext
  have hn : n = (runCounter ops start).2.nextSequence := by
    obtain ⟨-, -, hfresh⟩ := (op.counts (runCounter ops start).2).forward
    exact hfresh n (by rw [hrun])
  have hlt : ∀ sequence, Known (runCounter ops start).1 sequence → sequence < n :=
    fun sequence hknown => hn ▸ hknown.lt
  refine ⟨?_, ?_, ?_⟩
  · rintro entries entries' blankets entry layer rfl hlayer hperm hs hb hknown hknownb
    exact resolveValue_shows h hperm hs hb hlayer (fun e he => hlt _ (hknown e he))
      fun b hm => hlt _ (hknownb b hm)
  · rintro entries blankets blankets' blanket layer rfl hlayer hperm hs hb hknown hknownb
    exact resolveValue_blanket_shows h hperm hs hb hlayer (fun e he => hlt _ (hknown e he))
      fun b hm => hlt _ (hknownb b hm)
  · rintro requested paths paths' entry layer rfl hlayer hreq hname hperm hs hknown
    exact resolveNamedPathEntry_shows h hreq hperm hs hname hlayer fun e he => hlt _ (hknown e he)

open Sample in
/-- After a source reported twenty, the next number is twenty-one, and a value that carries it
replaces one of the same layer. -/
theorem fresh_write_visible_sample :
    resolveValue caller
        [⟨"policy".toList, 21, 4, [9#8]⟩, ⟨"Policy".toList, 3, 4, [2#8]⟩] blankets =
      .ok (.found ⟨.dword, [9#8], "Policy".toList, 5, 21⟩) := by
  have hcontext : validateLayerResolutionContext caller = .ok () := by decide +kernel
  have hrun : CounterOp.allocate.run (runCounter [.advancePastSourceMax 20] ⟨5, by omega⟩).2 =
      (.allocated 21, ⟨22, by omega⟩) := by
    rfl
  have hshows := ((fresh_write_visible ⟨5, by omega⟩ [.advancePastSourceMax 20]).2.2 .allocate 21 _
    hrun caller hcontext).1 [⟨"Policy".toList, 3, 4, [2#8]⟩]
    [⟨"policy".toList, 21, 4, [9#8]⟩, ⟨"Policy".toList, 3, 4, [2#8]⟩] blankets
    ⟨"policy".toList, 21, 4, [9#8]⟩ ⟨"Policy".toList, 5⟩ rfl (by decide +kernel) (.refl _)
    (by decide +kernel) (by decide +kernel)
    (fun e he => .inr ⟨20, by simp [runCounter]; rfl, by simp at he; simp [he]⟩)
    (fun b hb => .inr ⟨20, by simp [runCounter]; rfl, by simp [blankets] at hb; simp [hb]⟩)
  exact hshows.shown (by decide +kernel)

end Pkm.Lcs
