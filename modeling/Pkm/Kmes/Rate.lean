import Pkm.Kmes.Model.Rate
/-!
# What the rate lets through

The tokens granted while a window of time is open, less those refunded in it, against the rate.
A bucket's worth is what it holds and the time it has not yet been refilled for, a second of
which is worth the rate. A refill adds less than the rate to the worth by rounding, so reservations
whose samples enter in order get the rate and no more.

Samples that enter out of order are another matter. The clock is read before the lock is taken, and
a sample before the last refill makes the elapsed time wrap.
-/

namespace Pkm.Kmes

open List RateCall

open BitVec (ofNat le_def toNat_ofNat eq_of_toNat_eq toNat_mul)

variable {rate count : U32} {bucket : RateBucket} {now later : U64} {t₁ t₂ : ℕ}
  {calls : List RateCall}

/-! ## Tokens -/

theorem toNat_widen (n : U32) : (n.setWidth 64).toNat = n.toNat := by
  rw [BitVec.toNat_setWidth, Nat.mod_eq_of_lt (by omega)]

theorem toNat_capTokens (tokens : U64) (rate : U32) :
    (capTokens tokens rate).toNat = min tokens.toNat rate.toNat := by
  have hover : tokens > rate.setWidth 64 ↔ rate.toNat < tokens.toNat := by
    rw [gt_iff_lt, BitVec.lt_def, toNat_widen]
  simp only [capTokens, hover]
  split
  · omega
  · rw [BitVec.toNat_setWidth]
    omega

theorem toNat_nsecPerSec : nsecPerSec.toNat = 1000000000 := rfl

/-- The time for which the bucket has not been refilled, each nanosecond worth the rate. The
product is a machine word. -/
def credit (rate : U32) (bucket : RateBucket) (now : U64) : ℕ :=
  ((now - bucket.lastRefillNs) * rate.setWidth 64).toNat

/-- What the bucket is worth, in billionths of a token. -/
def worth (rate : U32) (bucket : RateBucket) (now : U64) : ℕ :=
  bucket.tokens.toNat * 1000000000 + credit rate bucket now

/-- What a refill that adds tokens does: it takes the time those tokens stand for, rounded down to
the nanosecond, out of the credit. -/
theorem credit_consumed {consumed : ℕ} (hpos : 0 < rate.toNat)
    (hle : consumed * rate.toNat ≤ credit rate bucket now) (tokens : U32) :
    credit rate ⟨bucket.lastRefillNs + ofNat 64 consumed, tokens⟩ now
      + consumed * rate.toNat = credit rate bucket now := by
  have hword : credit rate bucket now < 2 ^ 64 := BitVec.isLt _
  have hsmall : consumed < 2 ^ 64 := by
    have := Nat.le_mul_of_pos_right consumed hpos
    omega
  have hproduct : (ofNat 64 consumed * rate.setWidth 64).toNat = consumed * rate.toNat := by
    rw [toNat_mul, toNat_ofNat, toNat_widen, Nat.mod_eq_of_lt hsmall,
      Nat.mod_eq_of_lt (by omega)]
  have hsplit : (now - (bucket.lastRefillNs + ofNat 64 consumed)) * rate.setWidth 64
      = (now - bucket.lastRefillNs) * rate.setWidth 64
        - ofNat 64 consumed * rate.setWidth 64 := by
    rw [← BitVec.sub_sub, sub_mul]
  have hcredit : credit rate ⟨bucket.lastRefillNs + ofNat 64 consumed, tokens⟩ now
      = credit rate bucket now - consumed * rate.toNat := by
    rw [credit, hsplit, BitVec.toNat_sub_of_le (by rwa [le_def, hproduct]), hproduct, credit]
  omega

/-- The cases of a refill. It fills the bucket afresh, or adds the tokens that the credit is good
for and takes the time they stand for out of it. -/
theorem refill_cases (hrate : rate ≠ 0) (bucket : RateBucket) (now : U64) :
    (rate ≤ bucket.tokens ∧ rateBucketRefill bucket now rate = ⟨now, rate⟩) ∨
    ∃ added used, added = credit rate bucket now / 1000000000 ∧
      (rateBucketRefill bucket now rate).tokens.toNat
        = min (bucket.tokens.toNat + added) rate.toNat ∧
      credit rate (rateBucketRefill bucket now rate) now + used = credit rate bucket now ∧
      used ≤ added * 1000000000 ∧ added * 1000000000 < used + rate.toNat := by
  have hpos : 0 < rate.toNat := Nat.pos_of_ne_zero fun h => hrate (eq_of_toNat_eq h)
  by_cases hfull : rate ≤ bucket.tokens
  · exact .inl ⟨hfull, by rw [rateBucketRefill, if_neg hrate, if_pos hfull]⟩
  have hlt := BitVec.lt_def.mp (BitVec.not_le.mp hfull)
  have hword : credit rate bucket now < 2 ^ 64 := BitVec.isLt _
  have hadded : (now - bucket.lastRefillNs) * rate.setWidth 64 / nsecPerSec
      = ofNat 64 (credit rate bucket now / 1000000000) := by
    have hdiv : ((now - bucket.lastRefillNs) * rate.setWidth 64 / nsecPerSec).toNat
        = credit rate bucket now / 1000000000 := by
      rw [BitVec.toNat_udiv]; rfl
    rw [← hdiv, BitVec.ofNat_toNat, BitVec.setWidth_eq]
  generalize hn : credit rate bucket now / 1000000000 = n at hadded
  right
  by_cases hnone : n = 0
  · have hsame : rateBucketRefill bucket now rate = bucket := by
      subst hnone
      rw [rateBucketRefill, if_neg hfull]
      simp [hadded, ite_self]
    exact ⟨n, 0, rfl, by rw [hsame]; omega, by rw [hsame]; rfl, by omega, by omega⟩
  -- the tokens added stand for no more time than has passed, so nothing is clipped
  have hbound : n * 1000000000 ≤ credit rate bucket now := hn ▸ Nat.div_mul_le_self _ _
  have hused := Nat.div_mul_le_self (n * 1000000000) rate.toNat
  have hconsumed : ofNat 64 n * nsecPerSec / rate.setWidth 64
      = ofNat 64 (n * 1000000000 / rate.toNat) := by
    apply eq_of_toNat_eq
    have hquot := Nat.div_le_self (n * 1000000000) rate.toNat
    rw [BitVec.toNat_udiv, toNat_mul, toNat_widen, toNat_ofNat, toNat_ofNat,
      toNat_nsecPerSec, Nat.mod_eq_of_lt (show n < 2 ^ 64 by omega),
      Nat.mod_eq_of_lt (show n * 1000000000 < 2 ^ 64 by omega), Nat.mod_eq_of_lt (by omega)]
  have helapsed : n * 1000000000 / rate.toNat ≤ (now - bucket.lastRefillNs).toNat := by
    apply Nat.div_le_of_le_mul
    have hmod : credit rate bucket now ≤ (now - bucket.lastRefillNs).toNat * rate.toNat := by
      exact Nat.mod_le _ _
    linarith
  have hclip : ¬ ofNat 64 (n * 1000000000 / rate.toNat) > now - bucket.lastRefillNs := by
    rw [BitVec.not_lt, le_def, toNat_ofNat]
    exact (Nat.mod_le _ _).trans helapsed
  have hmoved : now - bucket.lastRefillNs ≠ 0 := by
    intro h
    have : credit rate bucket now = 0 := by rw [credit, h, zero_mul]; rfl
    omega
  have hsmall : (ofNat 64 n).toNat = n :=
    (toNat_ofNat ..).trans (Nat.mod_eq_of_lt (by omega))
  have hsome : ofNat 64 n ≠ 0 := fun h => hnone (hsmall ▸ congrArg BitVec.toNat h)
  refine ⟨n, n * 1000000000 / rate.toNat * rate.toNat, rfl, ?_⟩
  rw [rateBucketRefill, if_neg hrate, if_neg hfull]
  simp only [hadded, hconsumed, if_neg hclip, if_neg hmoved, if_neg hsome]
  refine ⟨?_, credit_consumed hpos (hused.trans hbound) _, hused, Nat.lt_div_mul_add hpos⟩
  rw [toNat_capTokens, BitVec.toNat_add, toNat_widen, hsmall, Nat.mod_eq_of_lt (by omega)]

/-- A bucket filled afresh has no credit. -/
theorem worth_afresh (rate : U32) (now : U64) :
    worth rate ⟨now, rate⟩ now = rate.toNat * 1000000000 := by
  simp [worth, credit]

/-- **A refill adds less than the rate to the worth.** -/
theorem worth_refill (hrate : rate ≠ 0) (bucket : RateBucket) (now : U64) :
    worth rate (rateBucketRefill bucket now rate) now ≤ worth rate bucket now + rate.toNat := by
  obtain ⟨hfull, heq⟩ | ⟨added, used, -, htokens, hcredit, -, hround⟩ :=
    refill_cases hrate bucket now
  · have hle := le_def.mp hfull
    rw [heq, worth_afresh, worth]
    omega
  · unfold worth
    omega

/-- After a refill the bucket is worth little more than a full one. -/
theorem worth_refill_lt (hrate : rate ≠ 0) (bucket : RateBucket) (now : U64) :
    worth rate (rateBucketRefill bucket now rate) now
      ≤ (rate.toNat + 1) * 1000000000 + rate.toNat := by
  obtain ⟨-, heq⟩ | ⟨added, used, hadded, htokens, hcredit, -, hround⟩ :=
    refill_cases hrate bucket now
  · rw [heq, worth_afresh]
    omega
  · unfold worth
    omega

/-- Time that passes is worth the rate, a nanosecond. The machine word can only lose some. -/
theorem worth_later (rate : U32) (bucket : RateBucket) {s₁ s₂ : ℕ} (h : s₁ ≤ s₂) :
    worth rate bucket (.ofNat 64 s₂)
      ≤ worth rate bucket (.ofNat 64 s₁) + rate.toNat * (s₂ - s₁) := by
  obtain ⟨k, rfl⟩ := Nat.exists_eq_add_of_le h
  have hsplit : (ofNat 64 (s₁ + k) - bucket.lastRefillNs) * rate.setWidth 64
      = (ofNat 64 s₁ - bucket.lastRefillNs) * rate.setWidth 64
        + ofNat 64 k * rate.setWidth 64 := by
    rw [BitVec.ofNat_add, add_sub_right_comm, add_mul]
  have hk : (ofNat 64 k * rate.setWidth 64).toNat ≤ rate.toNat * k := by
    rw [toNat_mul, Nat.mul_comm]
    exact (Nat.mod_le _ _).trans (Nat.mul_le_mul_left _ (Nat.mod_le _ _))
  have hsum : credit rate bucket (.ofNat 64 (s₁ + k))
      ≤ credit rate bucket (.ofNat 64 s₁) + rate.toNat * k := by
    rw [credit, hsplit]
    exact (Nat.mod_le _ _).trans (Nat.add_le_add_left hk _)
  rw [worth, worth, Nat.add_sub_cancel_left]
  omega

/-! ## One call -/

/-- A call's samples and entries: the sample is taken after `start`, and the locked section runs
at most `delay` later. -/
def RateCall.Timed (start delay : ℕ) : RateCall → Prop
  | .reserve sampledAt enteredAt _ =>
    start ≤ sampledAt ∧ sampledAt ≤ enteredAt ∧ enteredAt ≤ sampledAt + delay
  | .refund enteredAt _ => start ≤ enteredAt

/-- What a reservation that takes the lock gets, it takes from the refilled bucket. -/
theorem worth_reserve (rate : U32) (hcount : count ≠ 0) (bucket : RateBucket) (now : U64) :
    worth rate (rateBucketReserve bucket now rate count).2 now
        + (if (rateBucketReserve bucket now rate count).1 then count.toNat else 0) * 1000000000
      = worth rate (rateBucketRefill bucket now rate) now := by
  rw [rateBucketReserve, if_neg hcount]
  by_cases h : (rateBucketRefill bucket now rate).tokens < count
  · simp [h]
  · have hle := le_def.mp (BitVec.not_lt.mp h)
    have hsub : ((rateBucketRefill bucket now rate).tokens - count).toNat
        = (rateBucketRefill bucket now rate).tokens.toNat - count.toNat :=
      BitVec.toNat_sub_of_le (BitVec.not_lt.mp h)
    simp only [h, if_false, if_true, worth, credit]
    omega

/-- A refund adds no more to the worth than it gives back. -/
theorem worth_refund (rate : U32) (bucket : RateBucket) (now : U64) (count : U32) :
    worth rate (rateBucketRefund bucket rate count) now
      ≤ worth rate bucket now + count.toNat * 1000000000 := by
  rw [rateBucketRefund]
  split
  · omega
  · have htokens : (capTokens (bucket.tokens.setWidth 64 + count.setWidth 64) rate).toNat
        ≤ bucket.tokens.toNat + count.toNat := by
      rw [toNat_capTokens, BitVec.toNat_add, toNat_widen, toNat_widen]
      omega
    simp only [worth, credit]
    omega

/-! ## A window of time -/

/-- The locked section runs while the window is open. -/
def RateCall.During (t₁ t₂ : ℕ) (call : RateCall) : Prop :=
  t₁ ≤ call.enteredAt ∧ call.enteredAt ≤ t₂

instance (t₁ t₂ : ℕ) (call : RateCall) : Decidable (call.During t₁ t₂) :=
  inferInstanceAs (Decidable (_ ∧ _))

/-- The tokens granted in the window, in the run from the bucket. -/
def grantedDuring (rate : U32) (t₁ t₂ : ℕ) : RateBucket → List RateCall → ℕ
  | _, [] => 0
  | bucket, call :: calls =>
    (if call.During t₁ t₂ then call.granted rate bucket else 0)
      + grantedDuring rate t₁ t₂ (call.apply rate bucket) calls

/-- The sum of an amount over the calls in the window. -/
def totalDuring (t₁ t₂ : ℕ) (amount : RateCall → ℕ) (calls : List RateCall) : ℕ :=
  ((calls.filter (·.During t₁ t₂)).map amount).sum

/-- The locked sections run one after the other. -/
def InLockOrder (calls : List RateCall) : Prop := calls.Pairwise (·.enteredAt ≤ ·.enteredAt)

/-- No reservation's sample is older than one that entered before it. -/
def InSampleOrder (calls : List RateCall) : Prop :=
  calls.Pairwise fun
    | .reserve s₁ .., .reserve s₂ .. => s₁ ≤ s₂
    | _, _ => True

/-- The tokens granted in the window, less those refunded in it, keep to the rate: to
`rate + 1 + rate * (t₂ - t₁ + delay + n) / 10^9` for the `n` reservations in it. -/
def WithinRate (rate : U32) (t₁ t₂ delay : ℕ) (bucket : RateBucket) (calls : List RateCall) :
    Prop :=
  grantedDuring rate t₁ t₂ bucket calls * 1000000000
    ≤ (totalDuring t₁ t₂ refunded calls + rate.toNat + 1) * 1000000000
      + rate.toNat * (t₂ - t₁ + delay + totalDuring t₁ t₂ reserves calls)

theorem totalDuring_cons (t₁ t₂ : ℕ) (amount : RateCall → ℕ) (call : RateCall)
    (calls : List RateCall) :
    totalDuring t₁ t₂ amount (call :: calls)
      = (if call.During t₁ t₂ then amount call else 0) + totalDuring t₁ t₂ amount calls := by
  by_cases h : call.During t₁ t₂ <;> simp [h, totalDuring]

/-- Once the window has closed nothing is granted in it. -/
theorem grantedDuring_closed (h : ∀ call ∈ calls, t₂ < call.enteredAt) (bucket : RateBucket) :
    grantedDuring rate t₁ t₂ bucket calls = 0 := by
  induction calls generalizing bucket with
  | nil => rfl
  | cons call calls ih =>
    obtain ⟨hlate, h⟩ := forall_mem_cons.mp h
    rw [grantedDuring, if_neg fun hd => hlate.not_ge hd.2, ih h]

variable {delay s : ℕ}

/-- **Inside the window, what is granted comes out of the worth.** The sample `s` is the last one
that entered. -/
theorem grantedDuring_le_worth (hrate : rate ≠ 0) (hlock : InLockOrder calls)
    (horder : InSampleOrder calls) (htimed : ∀ call ∈ calls, call.Timed 0 delay)
    (hs : ∀ call ∈ calls, match call with | .reserve s' .. => s ≤ s' | .refund .. => True)
    (hopen : ∀ call ∈ calls, t₁ ≤ call.enteredAt) (hst : s ≤ t₂) (bucket : RateBucket) :
    grantedDuring rate t₁ t₂ bucket calls * 1000000000
      ≤ worth rate bucket (.ofNat 64 s)
        + totalDuring t₁ t₂ refunded calls * 1000000000
        + rate.toNat * (t₂ - s + totalDuring t₁ t₂ reserves calls) := by
  induction calls generalizing bucket s with
  | nil => simp [grantedDuring]
  | cons call calls ih =>
    obtain ⟨hfirst, hlock⟩ := pairwise_cons.mp hlock
    obtain ⟨hsample, horder⟩ := pairwise_cons.mp horder
    rw [forall_mem_cons] at htimed hs hopen
    obtain ⟨hcall, htimed⟩ := htimed
    obtain ⟨hfrom, hs⟩ := hs
    obtain ⟨hstart, hopen⟩ := hopen
    by_cases hlate : t₂ < call.enteredAt
    · have hnone : grantedDuring rate t₁ t₂ bucket (call :: calls) = 0 := grantedDuring_closed
        (forall_mem_cons.mpr ⟨hlate, fun c hc => hlate.trans_le (hfirst c hc)⟩) bucket
      rw [hnone]
      exact Nat.zero_le _
    have hin : call.During t₁ t₂ := ⟨hstart, Nat.not_lt.mp hlate⟩
    have htail := fun (s' : ℕ) hs' hst' => ih (s := s') hlock horder htimed hs' hopen hst'
      (call.apply rate bucket)
    simp only [grantedDuring, totalDuring_cons, if_pos hin]
    cases call with
    | refund enteredAt count =>
      have hrest := htail s hs hst
      have hrefund := worth_refund rate bucket (ofNat 64 s) count
      simp only [apply, granted, refunded, reserves] at *
      linarith
    | reserve s' enteredAt count =>
      have hle : s ≤ s' := hfrom
      have hentered : s' ≤ enteredAt := hcall.2.1
      have hclose : enteredAt ≤ t₂ := Nat.not_lt.mp hlate
      have hrest := htail s' (fun c hc => by have := hsample c hc; cases c <;> exact this)
        (hentered.trans hclose)
      have hlater := worth_later rate bucket hle
      have hspan : rate.toNat * (t₂ - s) = rate.toNat * (s' - s) + rate.toNat * (t₂ - s') := by
        rw [← Nat.mul_add]
        congr 1
        omega
      simp only [apply, granted, reserves] at *
      by_cases hcount : count = 0
      · subst hcount
        simp only [rateBucketReserve, if_true] at *
        simp only [Bool.false_eq_true, if_false]
        linarith
      · have hreserve := worth_reserve rate hcount bucket (ofNat 64 s')
        have hrefill := worth_refill hrate bucket (ofNat 64 s')
        rw [if_neg hcount]
        linarith

/-- **In order, the rate is kept.** Over any window, from any bucket, up to the time by which a
sample may be late. -/
theorem withinRate_of_inSampleOrder (hrate : rate ≠ 0) (hlock : InLockOrder calls)
    (horder : InSampleOrder calls) (htimed : ∀ call ∈ calls, call.Timed 0 delay)
    (bucket : RateBucket) : WithinRate rate t₁ t₂ delay bucket calls := by
  induction calls generalizing bucket with
  | nil => simp [WithinRate, grantedDuring]
  | cons call calls ih =>
    obtain ⟨hfirst, hlock'⟩ := pairwise_cons.mp hlock
    obtain ⟨hsample, horder'⟩ := pairwise_cons.mp horder
    rw [forall_mem_cons] at htimed
    obtain ⟨hcall, htimed⟩ := htimed
    have hrest := ih hlock' horder' htimed (call.apply rate bucket)
    by_cases hin : call.During t₁ t₂
    · simp only [WithinRate, grantedDuring, totalDuring_cons, if_pos hin] at hrest ⊢
      cases call with
      | refund enteredAt count =>
        simp only [granted, reserves] at hrest ⊢
        linarith
      | reserve s enteredAt count =>
        by_cases hcount : count = 0
        · subst hcount
          simp only [granted, reserves, rateBucketReserve,
            if_true, Bool.false_eq_true, if_false] at hrest ⊢
          linarith
        -- the first reservation in the window leaves a refilled bucket; the rest is its worth
        obtain ⟨-, hentered, hdelay⟩ := hcall
        obtain ⟨hopen, hclose⟩ := hin
        have hinside := grantedDuring_le_worth hrate hlock' horder' htimed
          (fun c hc => by have := hsample c hc; cases c <;> exact this)
          (fun c hc => hopen.trans (hfirst c hc)) (hentered.trans hclose)
          ((reserve s enteredAt count).apply rate bucket)
        have hreserve := worth_reserve rate hcount bucket (ofNat 64 s)
        have hworth := worth_refill_lt hrate bucket (ofNat 64 s)
        have hspan : rate.toNat * (t₂ - s) ≤ rate.toNat * (t₂ - t₁ + delay) := by
          apply Nat.mul_le_mul_left
          simp only [RateCall.enteredAt] at hopen hclose
          omega
        simp only [granted, reserves, apply, if_neg hcount] at hinside hspan ⊢
        linarith
    · simp only [WithinRate, grantedDuring, totalDuring_cons, if_neg hin, Nat.zero_add] at hrest ⊢
      exact hrest

/-! ## The rate of a process -/

/-- The rate is enforced although a locked section runs up to `delay` after its sample: for any
calls on a bucket made at `start`, over any window, the tokens granted less those refunded are at
most `rate + 1 + rate * (t₂ - t₁ + n) / 10^9`. -/
def RateEnforced (rate : U32) (delay : ℕ) : Prop :=
  ∀ (start : ℕ) (calls : List RateCall), InLockOrder calls →
    (∀ call ∈ calls, call.Timed start delay) → ∀ t₁ t₂, t₁ ≤ t₂ →
      WithinRate rate t₁ t₂ 0 (rateBucketAlloc (ofNat 64 start) rate) calls

/-- A full bucket is drained, and a sample from before fills it again. -/
def drainedTwice (rate : U32) : List RateCall := [.reserve 1 1 rate, .reserve 0 1 rate]

theorem inSampleOrder_of_timed_zero {start : ℕ} (hlock : InLockOrder calls)
    (htimed : ∀ call ∈ calls, call.Timed start 0) : InSampleOrder calls := by
  refine List.Pairwise.imp_of_mem (fun {a b} ha hb hab => ?_) hlock
  have hta := htimed a ha
  have htb := htimed b hb
  cases a <;> cases b <;> simp only [RateCall.Timed, RateCall.enteredAt] at *
  omega

/-- The wrapped time refills the bucket. -/
theorem refill_late (hrate : rate ≠ 0) :
    (rateBucketRefill ⟨1#64, 0#32⟩ 0#64 rate).tokens = rate := by
  have hpos : 0 < rate.toNat := Nat.pos_of_ne_zero fun h => hrate (eq_of_toNat_eq h)
  have hcredit : credit rate ⟨1#64, 0#32⟩ 0#64 = 2 ^ 64 - rate.toNat := by
    have hneg : (0#64 - 1#64) * rate.setWidth 64 = -(rate.setWidth 64) := by
      rw [BitVec.zero_sub, neg_mul]
      exact congrArg _ (one_mul _)
    rw [credit, hneg, BitVec.toNat_neg, toNat_widen, Nat.mod_eq_of_lt (by omega)]
  obtain ⟨-, heq⟩ | ⟨added, used, hadded, htokens, -⟩ := refill_cases hrate ⟨1#64, 0#32⟩ 0#64
  · rw [heq]
  · apply eq_of_toNat_eq
    omega

/-- **Both drains are granted in the same nanosecond.** -/
theorem granted_drainedTwice (hrate : rate ≠ 0) :
    grantedDuring rate 1 1 (rateBucketAlloc 0#64 rate) (drainedTwice rate)
      = rate.toNat + rate.toNat := by
  have hfirst : rateBucketReserve (rateBucketAlloc 0#64 rate) 1#64 rate rate
      = (true, ⟨1#64, 0#32⟩) := by
    have hfill : rateBucketRefill (rateBucketAlloc 0#64 rate) 1#64 rate = ⟨1#64, rate⟩ := by
      have hfull : (rateBucketAlloc 0#64 rate).tokens ≥ rate := BitVec.le_refl rate
      rw [rateBucketRefill, if_neg hrate, if_pos hfull]
    rw [rateBucketReserve, if_neg hrate, hfill]
    simp
  have hsecond : (rateBucketReserve ⟨1#64, 0#32⟩ 0#64 rate rate).1 = true := by
    rw [rateBucketReserve, if_neg hrate]
    dsimp only
    rw [refill_late hrate, if_neg (BitVec.lt_irrefl rate)]
  simp [drainedTwice, grantedDuring, RateCall.During, RateCall.enteredAt, granted,
    apply, hfirst, hsecond]

/-- **The rate is enforced exactly when the clock is read as the locked section runs.** With no
delay the samples are in order. A delay of a nanosecond lets a sample enter after a later one, and
the elapsed time wraps. -/
theorem rateEnforced_iff (hrate : 2 ≤ rate.toNat) (delay : ℕ) :
    RateEnforced rate delay ↔ delay = 0 := by
  have hne : rate ≠ 0 := by
    rintro rfl
    cases hrate
  constructor
  · intro h
    by_contra hdelay
    have hlock : InLockOrder (drainedTwice rate) := by
      simp [InLockOrder, drainedTwice, RateCall.enteredAt]
    have htimed : ∀ call ∈ drainedTwice rate, call.Timed 0 delay := by
      simp only [drainedTwice, forall_mem_cons, RateCall.Timed]
      refine ⟨by omega, by omega, by simp⟩
    have hwithin := h 0 (drainedTwice rate) hlock htimed 1 1 le_rfl
    have hcount : totalDuring 1 1 reserves (drainedTwice rate) = 2 := by
      simp only [drainedTwice, totalDuring_cons, reserves, if_neg hne]
      rfl
    have hrefund : totalDuring 1 1 refunded (drainedTwice rate) = 0 := by
      simp [totalDuring, drainedTwice, RateCall.During, RateCall.enteredAt, refunded]
    have hgranted := granted_drainedTwice hne
    rw [WithinRate, hcount, hgranted] at hwithin
    omega
  · rintro rfl start calls hlock htimed t₁ t₂ -
    refine withinRate_of_inSampleOrder hne hlock (inSampleOrder_of_timed_zero hlock htimed) ?_ _
    intro call hcall
    have := htimed call hcall
    cases call <;> simp only [RateCall.Timed] at * <;> omega

/-- At the default rate. -/
theorem default_rateEnforced : 2 ≤ (10000 : U32).toNat ∧ RateEnforced 10000 0 :=
  ⟨by decide, (rateEnforced_iff (by decide) 0).mpr rfl⟩

/-- Twice the default rate within a nanosecond: a thread samples the clock at 0, another samples
at 1 and drains the bucket, and the first drains it again. -/
theorem default_rate_drained_twice :
    InLockOrder (drainedTwice 10000) ∧ (∀ call ∈ drainedTwice 10000, call.Timed 0 1) ∧
      grantedDuring 10000 1 1 (rateBucketAlloc 0 10000) (drainedTwice 10000) = 20000 ∧
      ¬ WithinRate 10000 1 1 0 (rateBucketAlloc 0 10000) (drainedTwice 10000) := by
  refine ⟨?_, ?_, by decide, ?_⟩
  · simp [InLockOrder, drainedTwice, RateCall.enteredAt]
  · simp [drainedTwice, RateCall.Timed]
  · unfold WithinRate
    decide

/-! ## Idle buckets -/

/-- The time at which a call touches the bucket. -/
def RateCall.touchedAt : RateCall → ℕ
  | .reserve sampledAt .. => sampledAt
  | .refund enteredAt _ => enteredAt

/-- The bucket of a process that started at some time, after its calls. -/
def bucketAfter (rate : U32) (start : ℕ) (calls : List RateCall) : RateBucket :=
  calls.foldl (apply rate) (rateBucketAlloc (ofNat 64 start) rate)

/-- A refill does not run ahead of its sample. -/
theorem lastRefillNs_refill_le (h : bucket.lastRefillNs ≤ now) :
    (rateBucketRefill bucket now rate).lastRefillNs ≤ now := by
  have hconsumed : ∀ consumed ≤ now - bucket.lastRefillNs,
      bucket.lastRefillNs + consumed ≤ now := by
    intro consumed hle
    bv_omega
  unfold rateBucketRefill
  dsimp only
  split_ifs with hrate hfull hsame hnone hclip
  · exact h
  · exact BitVec.le_refl now
  · exact h
  · exact h
  · exact hconsumed _ (BitVec.le_refl _)
  · exact hconsumed _ (BitVec.not_lt.mp hclip)

theorem lastRefillNs_reserve_le (h : bucket.lastRefillNs ≤ now) :
    (rateBucketReserve bucket now rate count).2.lastRefillNs ≤ now := by
  unfold rateBucketReserve
  dsimp only
  split_ifs
  · exact h
  · exact lastRefillNs_refill_le h
  · exact lastRefillNs_refill_le h

/-- Neither does a run of calls that come in order. -/
theorem lastRefillNs_foldl_le (h : bucket.lastRefillNs.toNat ≤ s)
    (horder : (s :: calls.map touchedAt).Pairwise (· ≤ ·))
    (hword : ∀ t ∈ calls.map touchedAt, t < 2 ^ 64) :
    ∃ t ∈ s :: calls.map touchedAt, (calls.foldl (apply rate) bucket).lastRefillNs.toNat ≤ t := by
  induction calls generalizing bucket s with
  | nil => exact ⟨s, mem_cons_self, h⟩
  | cons call calls ih =>
    obtain ⟨hfirst, horder⟩ := pairwise_cons.mp horder
    obtain ⟨hlt, hword⟩ := forall_mem_cons.mp hword
    have hle : s ≤ call.touchedAt := hfirst _ mem_cons_self
    have hcall : (call.apply rate bucket).lastRefillNs.toNat ≤ call.touchedAt := by
      cases call with
      | reserve sampledAt enteredAt count =>
        have hnow : (ofNat 64 sampledAt).toNat = sampledAt :=
          (toNat_ofNat ..).trans (Nat.mod_eq_of_lt hlt)
        have hsample : bucket.lastRefillNs ≤ ofNat 64 sampledAt := by
          rw [le_def, hnow]
          exact h.trans hle
        exact (le_def.mp (lastRefillNs_reserve_le hsample)).trans_eq hnow
      | refund enteredAt count =>
        have hsame : (rateBucketRefund bucket rate count).lastRefillNs = bucket.lastRefillNs := by
          unfold rateBucketRefund
          split <;> rfl
        exact (congrArg BitVec.toNat hsame).trans_le (h.trans hle)
    obtain ⟨t, ht, hlast⟩ := ih hcall horder hword
    exact ⟨t, mem_cons_of_mem _ ht, hlast⟩

/-- A full budget is granted exactly if the refill fills the bucket. -/
theorem reserve_all_iff (hrate : rate ≠ 0) :
    (∀ count : U32, 1 ≤ count.toNat → count.toNat ≤ rate.toNat →
      (rateBucketReserve bucket now rate count).1 = true) ↔
    rate.toNat ≤ bucket.tokens.toNat + credit rate bucket now / 1000000000 := by
  have hpos : 1 ≤ rate.toNat := Nat.pos_of_ne_zero fun h => hrate (eq_of_toNat_eq h)
  have hgrant : ∀ count : U32, 1 ≤ count.toNat →
      ((rateBucketReserve bucket now rate count).1 = true ↔
        count.toNat ≤ (rateBucketRefill bucket now rate).tokens.toNat) := by
    intro count hcount
    have hne : count ≠ 0 := by
      rintro rfl
      cases hcount
    rw [rateBucketReserve, if_neg hne, ← le_def, ← BitVec.not_lt]
    dsimp only
    split <;> simp [*]
  have hfull : rate.toNat ≤ (rateBucketRefill bucket now rate).tokens.toNat ↔
      rate.toNat ≤ bucket.tokens.toNat + credit rate bucket now / 1000000000 := by
    obtain ⟨hfull, heq⟩ | ⟨added, used, rfl, htokens, -⟩ := refill_cases hrate bucket now
    · have hle := le_def.mp hfull
      simp only [heq, le_refl, true_iff]
      omega
    · omega
  rw [← hfull]
  constructor
  · intro h
    exact (hgrant rate hpos).mp (h rate hpos le_rfl)
  · intro h count hcount hle
    exact (hgrant count hcount).mpr (hle.trans h)

/-- **An idle process has its budget again** exactly if the elapsed time is good for what is
missing. The product of the time and the rate is a machine word, and long idle times overflow
it; those that do not are enough. -/
theorem idle_budget_iff (hrate : 100 ≤ rate.toNat ∧ rate.toNat ≤ 1000000) {start idleUntil : ℕ}
    (horder : (start :: calls.map touchedAt).Pairwise (· ≤ ·))
    (hidle : ∀ t ∈ start :: calls.map touchedAt, t + 1000000000 ≤ idleUntil)
    (hword : idleUntil < 2 ^ 64) :
    let bucket := bucketAfter rate start calls
    let product := (idleUntil - bucket.lastRefillNs.toNat) * rate.toNat
    ((∀ count : U32, 1 ≤ count.toNat → count.toNat ≤ rate.toNat →
        (rateBucketReserve bucket (ofNat 64 idleUntil) rate count).1 = true) ↔
      rate.toNat ≤ bucket.tokens.toNat + product % 2 ^ 64 / 1000000000) ∧
    (product < 2 ^ 64 → rate.toNat ≤ bucket.tokens.toNat + product % 2 ^ 64 / 1000000000) := by
  intro bucket product
  have hne : rate ≠ 0 := by
    rintro rfl
    cases hrate.1
  obtain ⟨hstart, hcalls⟩ := forall_mem_cons.mp hidle
  have hlast : bucket.lastRefillNs.toNat + 1000000000 ≤ idleUntil := by
    have hbefore : ∀ t ∈ calls.map touchedAt, t < 2 ^ 64 := by
      intro t ht
      have := hcalls t ht
      omega
    have hmade : (rateBucketAlloc (ofNat 64 start) rate).lastRefillNs.toNat ≤ start :=
      Nat.mod_le _ _
    obtain ⟨t, ht, hle⟩ := lastRefillNs_foldl_le hmade horder hbefore
    exact (Nat.add_le_add_right hle _).trans (hidle t ht)
  have hcredit : credit rate bucket (.ofNat 64 idleUntil) = product % 2 ^ 64 := by
    have helapsed : (ofNat 64 idleUntil - bucket.lastRefillNs).toNat
        = idleUntil - bucket.lastRefillNs.toNat := by
      rw [BitVec.toNat_sub, toNat_ofNat]
      omega
    rw [credit, toNat_mul, helapsed, toNat_widen]
  refine ⟨hcredit ▸ reserve_all_iff hne, fun hfits => ?_⟩
  have hsecond : 1000000000 * rate.toNat ≤ product := Nat.mul_le_mul_right _ (by omega)
  rw [Nat.mod_eq_of_lt hfits]
  have := Nat.div_le_div_right (c := 1000000000) hsecond
  omega

/-- A process that has drained its bucket at the default rate has all of it again after a
second. -/
theorem default_idle_budget :
    (bucketAfter 10000 0 [.reserve 0 0 10000]).tokens = 0 ∧
      ∀ count : U32, 1 ≤ count.toNat → count.toNat ≤ 10000 → (rateBucketReserve
        (bucketAfter 10000 0 [.reserve 0 0 10000]) (ofNat 64 1000000000) 10000 count).1 =
          true := by
  have h := @idle_budget_iff 10000 [.reserve 0 0 10000] (by decide) 0 1000000000 (by decide)
    (by decide) (by decide)
  exact ⟨by decide, h.1.mpr (h.2 (by decide))⟩

/-- At the highest rate, a process that has drained its bucket and has then been idle for five
hours is refused a single event. -/
theorem idle_five_hours_refused :
    let bucket := bucketAfter 1000000 0 [.reserve 0 0 1000000]
    1000000000 ≤ 18446744073710 ∧
      (rateBucketReserve bucket (ofNat 64 18446744073710) 1000000 1).1 = false := by
  decide

end Pkm.Kmes
