import Pkm.Ntfe.Helpers.Counters
/-!
# What the window of a counter covers

A window of `W` seconds is kept in eight buckets of `W / 8` seconds, or of one second if that
is zero. A read gives the amounts of the current period and of the seven before it
(`cellRead_addAll`). Rounding `W / 8` down makes the buckets cover less than the window, and
rounding it up to one second makes them cover more.
-/

namespace Pkm.Ntfe

open List

variable {secs : ℕ}

/-- An amount that is added to a cell at some second. -/
structure Addition where
  secs : ℕ
  amount : U64

/-- The cell after some additions. -/
def CounterCell.addAll (windows : List ℕ) (history : List Addition) (c : CounterCell) :
    CounterCell :=
  history.foldl (fun c a => c.add windows a.secs a.amount) c

/-! ## The ring of a window -/

variable {windows : List ℕ} {history : List Addition} {c : CounterCell} {W now i : ℕ}

theorem getElem?_addRings {amount : U64} {rings : List CounterRing} (hi : windows[i]? = some W) :
    (addRings now amount windows rings)[i]? = rings[i]?.map fun r => ringAdd r W now amount := by
  induction windows generalizing rings i with
  | nil => simp at hi
  | cons window windows ih =>
    cases rings with
    | nil => simp [addRings]
    | cons ring rings =>
      cases i with
      | zero =>
        obtain rfl : window = W := by simpa using hi
        simp [addRings]
      | succ i => simpa [addRings] using ih (by simpa using hi)

/-- The periods of a window in which amounts were added. -/
def periods (W : ℕ) (history : List Addition) : List (ℕ × U64) :=
  history.map fun a => (a.secs / bucketSecs W, a.amount)

theorem getElem?_addAll (history : List Addition) (c : CounterCell) (hi : windows[i]? = some W) :
    (c.addAll windows history).rings[i]? =
      c.rings[i]?.map fun r => { r with buckets := r.buckets.addAll (periods W history) } := by
  induction history generalizing c with
  | nil => simp [CounterCell.addAll, periods, Buckets.addAll]
  | cons a history ih =>
    have hstep : (c.add windows a.secs a.amount).rings[i]? =
        c.rings[i]?.map fun r => ringAdd r W a.secs a.amount := getElem?_addRings hi
    have hrest := ih (c.add windows a.secs a.amount)
    rw [hstep, Option.map_map] at hrest
    exact hrest

/-! ## What a read gives -/

/-- Whether an amount of second `secs` still counts at second `now`. -/
def Covers (W now secs : ℕ) : Prop := now / bucketSecs W - secs / bucketSecs W < counterBuckets

instance (W now secs : ℕ) : Decidable (Covers W now secs) := inferInstanceAs (Decidable (_ < _))

theorem isChain_periods (hsorted : history.Pairwise fun a b => a.secs ≤ b.secs) :
    (0 :: (periods W history).map Prod.fst).IsChain (· ≤ ·) := by
  apply List.Pairwise.isChain
  rw [pairwise_cons, periods, map_map, pairwise_map]
  exact ⟨fun _ _ => Nat.zero_le _, hsorted.imp fun h => Nat.div_le_div_right h⟩

/-- **A read of a window** gives the amounts that it covers. -/
theorem cellRead_addAll {t : CounterTable} {key : CounterKey} (hW : W ≠ 0) (hmem : W ∈ t.windows)
    (hsorted : history.Pairwise fun a b => a.secs ≤ b.secs)
    (hnow : ∀ a ∈ history, a.secs ≤ now) :
    cellRead t ((CounterCell.fresh t.windows key).addAll t.windows history) W now =
      .value (history.map fun a => if Covers W now a.secs then a.amount else 0).sum := by
  obtain ⟨i, hindex, hi⟩ := exists_windowIndex hmem
  have hfresh : (CounterCell.fresh t.windows key).rings[i]? = some (.fresh W) := by
    simp [CounterCell.fresh, hi]
  have hring := getElem?_addAll history (.fresh t.windows key) hi
  rw [hfresh] at hring
  have hperiods : ∀ x ∈ periods W history, x.1 ≤ now / bucketSecs W := by
    intro x hx
    obtain ⟨a, ha, rfl⟩ := mem_map.mp hx
    exact Nat.div_le_div_right (hnow a ha)
  have hsum := Buckets.sum_addAll (n := 8) (Buckets.sound_empty 0)
    (isChain_periods hsorted) hperiods
  rw [Buckets.sum_empty, zero_add, periods, map_map] at hsum
  simp only [cellRead, hW, hindex, hring]
  exact congrArg CounterReading.value hsum

/-! ## The window that is promised -/

/-- The seconds that the window of `W` seconds has to cover. -/
def promisedSecs (W : ℕ) : ℕ := W - (W + 7) / 8

/-- What the value that is read for a window has to be, whatever the table and whatever was
added to the cell before: the sum of some of the amounts, with all those of the promised
seconds and none of those that are `W` seconds old. -/
def WindowMeans (W : ℕ) : Prop :=
  ∀ (t : CounterTable) (key : CounterKey) (history : List Addition) (now : ℕ),
    W ∈ t.windows → (history.Pairwise fun a b => a.secs ≤ b.secs) →
    (∀ a ∈ history, a.secs ≤ now) → (history.map fun a => a.amount.toNat).sum < 2 ^ 64 →
    ∃ (v : U64) (included : Finset (Fin history.length)),
      cellRead t ((CounterCell.fresh t.windows key).addAll t.windows history) W now = .value v ∧
      v.toNat = ∑ i ∈ included, history[i].amount.toNat ∧
      (∀ i, now - history[i].secs < promisedSecs W → i ∈ included) ∧
      ∀ i, W ≤ now - history[i].secs → i ∉ included

/-- Below `2 ^ 64` a sum of machine words is the sum. -/
theorem toNat_sum_ite {p : Addition → Prop} [DecidablePred p]
    (h : (history.map fun a => a.amount.toNat).sum < 2 ^ 64) :
    (history.map fun a => if p a then a.amount else 0).sum.toNat =
      (history.map fun a => if p a then a.amount.toNat else 0).sum := by
  induction history with
  | nil => rfl
  | cons a history ih =>
    simp only [map_cons, sum_cons] at h ⊢
    have hrest := ih (by omega)
    have hle : (history.map fun a => if p a then a.amount.toNat else 0).sum ≤
        (history.map fun a => a.amount.toNat).sum :=
      sum_le_sum fun b _ => by split <;> omega
    rw [BitVec.toNat_add, hrest]
    split
    · exact Nat.mod_eq_of_lt (by omega)
    · rw [show (0 : U64).toNat = 0 from rfl]
      exact Nat.mod_eq_of_lt (by omega)

/-- The property of a window is one of the seconds that it covers. -/
theorem windowMeans_of_covers (hW : W ≠ 0)
    (hin : ∀ now secs, secs ≤ now → now - secs < promisedSecs W → Covers W now secs)
    (hout : ∀ now secs, W ≤ now - secs → ¬ Covers W now secs) : WindowMeans W := by
  intro t key history now hmem hsorted hnow hbound
  refine ⟨_, Finset.univ.filter fun i => Covers W now history[i].secs,
    cellRead_addAll hW hmem hsorted hnow, ?_, ?_, ?_⟩
  · rw [toNat_sum_ite hbound, Finset.sum_filter]
    exact (Fin.sum_univ_fun_getElem history fun a =>
      if Covers W now a.secs then a.amount.toNat else 0).symm
  · intro i hi
    exact Finset.mem_filter.mpr ⟨Finset.mem_univ i, hin _ _ (hnow _ (getElem_mem i.2)) hi⟩
  · intro i hi hmem
    exact hout _ _ hi (Finset.mem_filter.mp hmem).2

/-- One addition of one tells which seconds are covered. -/
theorem WindowMeans.covers (h : WindowMeans W) (hW : W ≠ 0) (hle : secs ≤ now) :
    (now - secs < promisedSecs W → Covers W now secs) ∧ (W ≤ now - secs → ¬ Covers W now secs) := by
  have hmem : W ∈ [W] := mem_singleton_self W
  have hsorted := pairwise_singleton (fun a b : Addition => a.secs ≤ b.secs) ⟨secs, 1⟩
  have hnow : ∀ a ∈ [(⟨secs, 1⟩ : Addition)], a.secs ≤ now := by simpa using hle
  obtain ⟨v, included, hread, hv, hin, hout⟩ :=
    h ⟨⟨0, 0⟩, [W], []⟩ ⟨0, 0, 0, 0⟩ [⟨secs, 1⟩] now hmem hsorted hnow (by simp)
  rw [cellRead_addAll hW hmem hsorted hnow] at hread
  have hvalue : v = if Covers W now secs then 1 else 0 := by
    simpa using (CounterReading.value.inj hread).symm
  constructor
  · intro hlt
    have hfirst : (0 : Fin 1) ∈ included := hin 0 hlt
    by_contra hcov
    rw [hvalue, if_neg hcov] at hv
    have hnone := Finset.sum_eq_zero_iff.mp hv.symm 0 hfirst
    exact absurd hnone (by simp)
  · intro hge hcov
    have hempty : included = ∅ := by
      refine Finset.eq_empty_of_forall_notMem fun i => hout i ?_
      obtain rfl : i = 0 := Fin.eq_zero i
      exact hge
    rw [hvalue, if_pos hcov, hempty, Finset.sum_empty] at hv
    exact absurd hv (by decide)

/-! ## Windows of whole buckets -/

theorem bucketSecs_of_le (h : 8 ≤ W) : bucketSecs W = W / 8 :=
  max_eq_right (Nat.div_pos h (by decide))

theorem bucketSecs_of_lt (h : W < 8) : bucketSecs W = 1 := by
  rw [bucketSecs, counterBuckets, Nat.div_eq_of_lt h]
  rfl

/-- With at most two seconds left over, the buckets reach back over the promised seconds. -/
theorem covers_of_promised (hle : 8 ≤ W) (hmod : W % 8 ≤ 2) (hsecs : secs ≤ now)
    (h : now - secs < promisedSecs W) : Covers W now secs := by
  have hpos : 0 < W / 8 := Nat.div_pos hle (by decide)
  have hage : now ≤ secs + 7 * (W / 8) := by
    unfold promisedSecs at h
    omega
  have hdiv : now / (W / 8) ≤ secs / (W / 8) + 7 :=
    calc now / (W / 8) ≤ (secs + 7 * (W / 8)) / (W / 8) := Nat.div_le_div_right hage
      _ = secs / (W / 8) + 7 := Nat.add_mul_div_right _ _ hpos
  rw [Covers, bucketSecs_of_le hle, counterBuckets]
  omega

/-- Eight buckets never reach past a window of eight seconds or more. -/
theorem not_covers_of_old (hle : 8 ≤ W) (h : W ≤ now - secs) : ¬ Covers W now secs := by
  have hpos : 0 < W / 8 := Nat.div_pos hle (by decide)
  have hage : secs + 8 * (W / 8) ≤ now := by omega
  have hdiv : secs / (W / 8) + 8 ≤ now / (W / 8) :=
    calc secs / (W / 8) + 8 = (secs + 8 * (W / 8)) / (W / 8) :=
          (Nat.add_mul_div_right _ _ hpos).symm
      _ ≤ now / (W / 8) := Nat.div_le_div_right hage
  rw [Covers, bucketSecs_of_le hle, counterBuckets]
  omega

/-- Below eight seconds an amount counts for eight seconds, and too long. -/
theorem not_windowMeans_of_lt (h : W < 8) : ¬ WindowMeans W := by
  intro hmeans
  rcases Nat.eq_zero_or_pos W with rfl | hpos
  · -- the window of no seconds is the total
    obtain ⟨v, included, hread, hv, -, hout⟩ :=
      hmeans ⟨⟨0, 0⟩, [0], []⟩ ⟨0, 0, 0, 0⟩ [⟨0, 1⟩] 0 (mem_singleton_self 0)
        (pairwise_singleton _ _) (by simp) (by decide)
    cases hread
    have hempty : included = ∅ := Finset.eq_empty_of_forall_notMem fun i => hout i (Nat.zero_le _)
    rw [hempty] at hv
    exact absurd hv (by decide)
  · refine (hmeans.covers hpos.ne' (Nat.zero_le 7)).2 (by omega) ?_
    rw [Covers, bucketSecs_of_lt h]
    decide

/-- With three seconds or more left over, an amount of the last second of a period is lost too
early. -/
theorem not_windowMeans_of_mod (hle : 8 ≤ W) (hmod : 2 < W % 8) : ¬ WindowMeans W := by
  intro hmeans
  have hpos : 0 < W / 8 := Nat.div_pos hle (by decide)
  have hcov := (hmeans.covers (by omega)
    (show W / 8 - 1 ≤ 8 * (W / 8) by omega)).1 (by unfold promisedSecs; omega)
  have hlast : (W / 8 - 1) / (W / 8) = 0 := Nat.div_eq_of_lt (by omega)
  rw [Covers, bucketSecs_of_le hle, Nat.mul_div_cancel _ hpos, hlast] at hcov
  exact absurd hcov (by decide)

/-- **What windows mean.** A window is as promised exactly if it has at least eight seconds and
the buckets leave out at most two of them. -/
theorem windowMeans_iff (W : ℕ) : WindowMeans W ↔ 8 ≤ W ∧ W % 8 ≤ 2 := by
  constructor
  · intro h
    have hle : 8 ≤ W := by
      by_contra hlt
      exact not_windowMeans_of_lt (by omega) h
    refine ⟨hle, ?_⟩
    by_contra hmod
    exact not_windowMeans_of_mod hle (by omega) h
  · rintro ⟨hle, hmod⟩
    exact windowMeans_of_covers (by omega) (fun _ _ hsecs h => covers_of_promised hle hmod hsecs h)
      fun _ _ h => not_covers_of_old hle h

/-- Fifteen seconds: an amount of second 0 is not read any more at second 8, though thirteen
seconds are promised. Five seconds: it is still read at second 7. -/
theorem fifteen_and_five_seconds :
    cellRead ⟨⟨0, 0⟩, [15], []⟩
        ((CounterCell.fresh [15] ⟨0, 0, 0, 0⟩).addAll [15] [⟨0, 1⟩]) 15 8 = .value 0 ∧
      promisedSecs 15 = 13 ∧ ¬ WindowMeans 15 ∧
    cellRead ⟨⟨0, 0⟩, [5], []⟩
        ((CounterCell.fresh [5] ⟨0, 0, 0, 0⟩).addAll [5] [⟨0, 1⟩]) 5 7 = .value 1 ∧
      ¬ WindowMeans 5 :=
  ⟨by decide, by decide, not_windowMeans_of_mod (by decide) (by decide), by decide,
    not_windowMeans_of_lt (by decide)⟩

end Pkm.Ntfe
