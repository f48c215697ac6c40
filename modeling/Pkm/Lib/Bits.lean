import Mathlib
/-!
# Bits of a fixed-width word

A mask is a `BitVec`, read one bit at a time. `bit m i` is bit `i` of `m`; the
word operators are pushed down to Boolean operators on bits, a word is
determined by its bits, and `a ⊆ b` says that every bit of `a` is a bit of `b`.
-/

namespace Pkm.Bits

variable {w : ℕ} {a b m : BitVec w} {i : Fin w}

/-- Bit `i` of the word `m`. -/
def bit (m : BitVec w) (i : Fin w) : Bool := m.getLsbD i

@[simp]
theorem bit_zero (i : Fin w) : bit (0#w) i = false := by simp [bit]

@[simp]
theorem bit_and (a b : BitVec w) (i : Fin w) : bit (a &&& b) i = (bit a i && bit b i) := by
  simp [bit]

@[simp]
theorem bit_or (a b : BitVec w) (i : Fin w) : bit (a ||| b) i = (bit a i || bit b i) := by
  simp [bit]

@[simp]
theorem bit_not (a : BitVec w) (i : Fin w) : bit (~~~a) i = !bit a i := by
  simp [bit]

/-- A word is determined by its bits. -/
theorem ext_bit (h : ∀ i, bit a i = bit b i) : a = b :=
  BitVec.eq_of_getLsbD_eq fun i hi => h ⟨i, hi⟩

theorem ext_bit_iff : a = b ↔ ∀ i, bit a i = bit b i := ⟨fun h i => by rw [h], ext_bit⟩

theorem eq_zero_iff : a = 0#w ↔ ∀ i, bit a i = false := by
  simp [ext_bit_iff]

theorem ne_zero_iff : a ≠ 0#w ↔ ∃ i, bit a i = true := by
  simp [eq_zero_iff]

/-! ## Inclusion -/

instance instHasSubset : HasSubset (BitVec w) := ⟨fun a b => a &&& ~~~b = 0#w⟩

instance instDecidableSubset (a b : BitVec w) : Decidable (a ⊆ b) :=
  inferInstanceAs (Decidable (a &&& ~~~b = 0#w))

/-- Inclusion of masks is inclusion bit by bit. -/
theorem subset_iff : a ⊆ b ↔ ∀ i, bit a i = true → bit b i = true := by
  change a &&& ~~~b = 0#w ↔ _
  simp only [eq_zero_iff, bit_and, bit_not]
  refine forall_congr' fun i => ?_
  cases bit a i <;> cases bit b i <;> simp

theorem bit_of_subset (h : a ⊆ b) (hi : bit a i = true) : bit b i = true := subset_iff.mp h i hi

theorem bit_eq_false_of_subset (h : a ⊆ b) (hi : bit b i = false) : bit a i = false := by
  by_contra hne
  rw [bit_of_subset h ((Bool.not_eq_false _).mp hne)] at hi
  cases hi

theorem subset_refl (a : BitVec w) : a ⊆ a := subset_iff.mpr fun _ h => h

theorem subset_trans {c : BitVec w} (hab : a ⊆ b) (hbc : b ⊆ c) : a ⊆ c :=
  subset_iff.mpr fun _ h => bit_of_subset hbc (bit_of_subset hab h)

/-- A flag test keeps its answer in a larger word. -/
theorem and_ne_zero_mono (h : a ⊆ b) (hm : a &&& m ≠ 0#w) : b &&& m ≠ 0#w := by
  obtain ⟨i, hi⟩ := ne_zero_iff.mp hm
  rw [bit_and, Bool.and_eq_true] at hi
  exact ne_zero_iff.mpr ⟨i, by rw [bit_and, bit_of_subset h hi.1, hi.2]; rfl⟩

/-- Testing a word against a mask asks for one bit they share. -/
theorem and_ne_zero_iff : a &&& m ≠ 0#w ↔ ∃ i, bit a i = true ∧ bit m i = true := by
  simp [ne_zero_iff]

/-- A test for a flag of one bit reads the bit. -/
theorem and_flag_ne_zero_iff {flag : BitVec w} (hflag : ∀ j, bit flag j = decide (j = i)) :
    m &&& flag ≠ 0#w ↔ bit m i = true := by
  simp [and_ne_zero_iff, hflag]

end Pkm.Bits
