import Mathlib
/-!
# The rate of emissions

Each process has a bucket of tokens. A reservation samples the clock, takes the lock, refills
the bucket for the time since the last refill and takes its tokens if there are enough; a
refund gives tokens back. The clock counts nanoseconds and is read as a machine word.
-/

namespace Pkm.Kmes

abbrev U32 := BitVec 32

abbrev U64 := BitVec 64

structure RateBucket where
  lastRefillNs : U64
  tokens : U32
  deriving DecidableEq

def nsecPerSec : U64 := 1000000000

/-- A new bucket is full. -/
def rateBucketAlloc (nowNs : U64) (rate : U32) : RateBucket := ⟨nowNs, rate⟩

/-- Tokens as they are stored: no more than the rate. -/
def capTokens (tokens : U64) (rate : U32) : U32 :=
  if tokens > rate.setWidth 64 then rate else tokens.setWidth 32

variable (bucket : RateBucket) (rate : U32)

def rateBucketRefill (nowNs : U64) (rate : U32) : RateBucket :=
  if rate = 0 then bucket
  else if bucket.tokens ≥ rate then ⟨nowNs, rate⟩
  else
    let elapsedNs := nowNs - bucket.lastRefillNs
    if elapsedNs = 0 then bucket
    else
      let added := elapsedNs * rate.setWidth 64 / nsecPerSec
      if added = 0 then bucket
      else
        let consumedNs := added * nsecPerSec / rate.setWidth 64
        let consumedNs := if consumedNs > elapsedNs then elapsedNs else consumedNs
        { lastRefillNs := bucket.lastRefillNs + consumedNs
          tokens := capTokens (bucket.tokens.setWidth 64 + added) rate }

/-- Whether the tokens are granted, and the bucket afterwards. -/
def rateBucketReserve (nowNs : U64) (rate count : U32) : Bool × RateBucket :=
  if count = 0 then (false, bucket)
  else
    let bucket := rateBucketRefill bucket nowNs rate
    if bucket.tokens < count then (false, bucket)
    else (true, { bucket with tokens := bucket.tokens - count })

def rateBucketRefund (count : U32) : RateBucket :=
  if count = 0 then bucket
  else { bucket with tokens := capTokens (bucket.tokens.setWidth 64 + count.setWidth 64) rate }

/-! ## Calls -/

/-- A call, with the moment at which its locked section runs. A reservation has sampled the clock
before. -/
inductive RateCall where
  | reserve (sampledAt enteredAt : ℕ) (count : U32)
  | refund (enteredAt : ℕ) (count : U32)

def RateCall.enteredAt : RateCall → ℕ
  | .reserve _ enteredAt _ => enteredAt
  | .refund enteredAt _ => enteredAt

/-- What a call does to the bucket. -/
def RateCall.apply (bucket : RateBucket) : RateCall → RateBucket
  | .reserve sampledAt _ count =>
    (rateBucketReserve bucket (BitVec.ofNat 64 sampledAt) rate count).2
  | .refund _ count => rateBucketRefund bucket rate count

/-- The tokens that a call is granted. -/
def RateCall.granted (bucket : RateBucket) : RateCall → ℕ
  | .reserve sampledAt _ count =>
    if (rateBucketReserve bucket (BitVec.ofNat 64 sampledAt) rate count).1 then count.toNat else 0
  | .refund .. => 0

/-- The tokens that a call gives back. -/
def RateCall.refunded : RateCall → ℕ
  | .reserve .. => 0
  | .refund _ count => count.toNat

/-- One for a reservation that takes the lock. -/
def RateCall.reserves : RateCall → ℕ
  | .reserve _ _ count => if count = 0 then 0 else 1
  | .refund .. => 0

end Pkm.Kmes
