import Mathlib
/-!
# A ring of buckets

Amounts are counted by period. There are `n` buckets; a period uses the bucket of its
number modulo `n` and empties it first if another period has been there. Read in a period,
the ring gives the amounts of the last `n` periods (`sum_addAll`), provided that the
periods of the amounts do not go back.
-/

namespace Pkm

/-- `n` buckets, each with the period whose amounts it holds. -/
structure Buckets (n : ℕ) (M : Type*) where
  period : Fin n → ℕ
  count : Fin n → M

namespace Buckets

variable {n : ℕ} [NeZero n] {M : Type*} [AddCommMonoid M]

def empty : Buckets n M := ⟨fun _ => 0, fun _ => 0⟩

/-- The bucket of a period. -/
def slot (period : ℕ) : Fin n := Fin.ofNat n period

/-- Adds an amount in a period. -/
def add (r : Buckets n M) (cur : ℕ) (amount : M) : Buckets n M where
  period := Function.update r.period (slot cur) cur
  count := Function.update r.count (slot cur)
    ((if r.period (slot cur) = cur then r.count (slot cur) else 0) + amount)

/-- What a bucket contributes when the ring is read in a period. -/
def held (r : Buckets n M) (cur : ℕ) (i : Fin n) : M :=
  if r.period i ≤ cur ∧ cur - r.period i < n then r.count i else 0

/-- Reads the ring in a period. -/
def sum (r : Buckets n M) (cur : ℕ) : M := ∑ i, r.held cur i

/-- What the buckets hold stems from their own periods, and none of them lies after `last`. -/
structure Sound (r : Buckets n M) (last : ℕ) : Prop where
  own : ∀ i, r.count i ≠ 0 → slot (r.period i) = i
  le : ∀ i, r.period i ≤ last

theorem sound_empty (last : ℕ) : (empty : Buckets n M).Sound last :=
  ⟨fun _ h => absurd rfl h, fun _ => Nat.zero_le last⟩

variable {r : Buckets n M} {last cur : ℕ}

theorem Sound.add (amount : M) (h : r.Sound last) (hle : last ≤ cur) :
    (r.add cur amount).Sound cur where
  own := by
    intro i hi
    by_cases his : i = slot cur
    · subst his
      simp [Buckets.add]
    · have hcount : (r.add cur amount).count i = r.count i := by simp [Buckets.add, his]
      have hperiod : (r.add cur amount).period i = r.period i := by simp [Buckets.add, his]
      rw [hperiod]
      exact h.own i (hcount ▸ hi)
  le := by
    intro i
    by_cases his : i = slot cur
    · subst his
      simp [Buckets.add]
    · have hperiod : (r.add cur amount).period i = r.period i := by simp [Buckets.add, his]
      rw [hperiod]
      exact (h.le i).trans hle

/-- An earlier period of the same bucket is at least `n` periods back. -/
theorem add_le_of_slot_eq {p : ℕ} (hslot : (slot p : Fin n) = slot cur) (hlt : p < cur) :
    p + n ≤ cur := by
  have hmod : p % n = cur % n := congrArg Fin.val hslot
  have hdvd : n ∣ cur - p := Nat.dvd_of_mod_eq_zero (Nat.sub_mod_eq_zero_of_mod_eq hmod.symm)
  have hle := Nat.le_of_dvd (by omega) hdvd
  omega

/-- **Adding an amount** adds it to what is read as long as its period is one of the last `n`. -/
theorem sum_add (amount : M) (h : r.Sound last) (hle : last ≤ cur) {now : ℕ} (hnow : cur ≤ now) :
    (r.add cur amount).sum now = r.sum now + if now - cur < n then amount else 0 := by
  have hheld : ∀ i, (r.add cur amount).held now i =
      r.held now i + if i = slot cur then (if now - cur < n then amount else 0) else 0 := by
    intro i
    by_cases his : i = slot cur
    · subst his
      simp only [held, Buckets.add, Function.update_self, hnow, true_and, if_true]
      by_cases hsame : r.period (slot cur) = cur
      · simp only [hsame, hnow, true_and]
        split <;> simp
      · -- the bucket held an earlier period, which is out of reach by now
        have hlt : r.period (slot cur) < cur := lt_of_le_of_ne ((h.le _).trans hle) hsame
        have hold : (if r.period (slot cur) ≤ now ∧ now - r.period (slot cur) < n then
            r.count (slot cur) else 0) = 0 := by
          by_cases hzero : r.count (slot cur) = 0
          · simp [hzero]
          · have hfar := add_le_of_slot_eq (h.own _ hzero) hlt
            rw [if_neg (by omega)]
        rw [hold, if_neg hsame, zero_add, zero_add]
    · simp [held, Buckets.add, his]
  unfold sum
  rw [Finset.sum_congr rfl fun i _ => hheld i, Finset.sum_add_distrib]
  simp

/-- Amounts added in turn. -/
def addAll (r : Buckets n M) (history : List (ℕ × M)) : Buckets n M :=
  history.foldl (fun r x => r.add x.1 x.2) r

/-- **What the ring reads** are the amounts of the last `n` periods. -/
theorem sum_addAll {history : List (ℕ × M)} (h : r.Sound last)
    (hsorted : (last :: history.map Prod.fst).IsChain (· ≤ ·)) {now : ℕ}
    (hnow : ∀ x ∈ history, x.1 ≤ now) :
    (r.addAll history).sum now =
      r.sum now + (history.map fun x => if now - x.1 < n then x.2 else 0).sum := by
  induction history generalizing r last with
  | nil => simp [addAll]
  | cons x history ih =>
    obtain ⟨hle, hrest⟩ := List.isChain_cons_cons.mp hsorted
    obtain ⟨hx, hnow⟩ := List.forall_mem_cons.mp hnow
    have hstep := sum_add x.2 h hle hx
    have hih := ih (h.add x.2 hle) hrest hnow
    rw [List.map_cons, List.sum_cons, ← add_assoc, ← hstep, ← hih]
    rfl

omit [NeZero n] in
theorem sum_empty (now : ℕ) : (empty : Buckets n M).sum now = 0 := by
  simp [sum, held, empty]

end Buckets

end Pkm
