import Pkm.Kacs.Check
/-!
# What a label withholds stays withheld

Before the DACL is read, the mandatory label and the process-trust label decide
bits without granting them. A decided bit is not touched by any walk, the
fallback looks at both labels, and what privileges put back after the restricted
pass was cleared of the trust label's bits. So no later stage grants a bit the
trust label withholds, and none grants a bit the mandatory label withholds beyond
what privileges had seeded.
-/

namespace Pkm.Kacs

open Bits

section Labels

variable [CharCase]

/-- A right decided before the walk keeps its answer at every node. -/
theorem walkCells_of_decided {d : DaclStateInput} {sidMatches : SidMatches} {i : Fin 32} {k : ℕ}
    (hk : k < (forestOf d.objectTree).size) (h : bit d.initialState.decided i = true) :
    walkCells d sidMatches i k = cellOf i d.initialState := by
  have hstart : cellOf i (startState d) = cellOf i d.initialState := by
    unfold startState
    simp only
    split
    · rw [cellOf_applyBits]
      split
      · exact Cell.settle_of_decided h
      · rfl
    · rfl
  unfold walkCells
  rw [hstart]
  have huniform := Forest.uniform_of_lt (c := cellOf i d.initialState) hk
  rw [Forest.walk_decided (by rw [huniform]; exact h), huniform]

namespace Resolved

variable {input : EvaluateSecurityDescriptorInput} (r : Resolved input) {i : Fin 32} {k : ℕ}

/-- The caller's walk leaves alone what was decided before it. -/
theorem walkAt_of_decided (hk : k < (forestOf input.objectTree).size)
    (h : bit r.initial.decided i = true) : r.walkAt i k = bit r.initial.granted i := by
  unfold walkAt
  rw [walkCells_of_decided hk h]
  rfl

/-- What privileges granted is granted at every node before the narrowing passes. -/
theorem normalAt_of_privilegeAt (hk : k < (forestOf input.objectTree).size)
    (h : r.privilegeAt i = true) : r.normalAt i k = true := by
  rw [privilegeAt, Bool.or_eq_true] at h
  rcases h with hg | hf
  · rw [normalAt, r.walkAt_of_decided hk (bit_of_subset r.initial_subset hg), hg, Bool.true_or]
  · rw [normalAt, hf, Bool.or_true]

theorem fallback_labels (h : r.fallback = true) :
    bit r.mic writeOwnerBit = false ∧ bit r.trust writeOwnerBit = false := by
  simp only [fallback, Bool.and_eq_true, Bool.not_eq_true', bit_or, Bool.or_eq_false_iff] at h
  exact h.1.2

/-- The restricted pass takes away, and privileges put back only what was there. -/
theorem normalAt_of_mergedAt (hk : k < (forestOf input.objectTree).size)
    (h : r.mergedAt i k = true) : r.normalAt i k = true := by
  rw [mergedAt] at h
  split at h
  · cases hn : r.normalAt i k with
    | true => rfl
    | false =>
      rw [hn] at h
      have hp : r.privilegeAt i = true := by simpa [mergeBit] using h
      rw [← hn]
      exact r.normalAt_of_privilegeAt hk hp
  · exact h

theorem mergedAt_of_grantAt (h : r.grantAt i k = true) : r.mergedAt i k = true := by
  unfold grantAt at h
  split at h
  · exact (Bool.and_eq_true_iff.mp h).1
  · exact h

variable (hk : k < (forestOf input.objectTree).size)

include hk

/-- **A right the labels decided is granted only if it was granted with them applied.** -/
theorem initial_of_grantAt
    (hlabel : bit r.mic i = true ∨ bit r.trust i = true) (h : r.grantAt i k = true) :
    bit r.initial.granted i = true := by
  have hfallback : (r.fallback && decide (i = writeOwnerBit)) = false := by
    by_contra hf
    rw [Bool.not_eq_false, Bool.and_eq_true, decide_eq_true_eq] at hf
    obtain ⟨hm, ht⟩ := r.fallback_labels hf.1
    rw [hf.2, hm, ht] at hlabel
    rcases hlabel with h | h <;> cases h
  have hdecided : bit r.initial.decided i = true := by
    simp only [initial, bit_or, Bool.or_eq_true]
    exact hlabel.imp_left .inr
  have hn := r.normalAt_of_mergedAt hk (r.mergedAt_of_grantAt h)
  rwa [normalAt, hfallback, Bool.or_false, r.walkAt_of_decided hk hdecided] at hn

theorem not_trust_of_grantAt (h : r.grantAt i k = true) : bit r.trust i = false := by
  by_contra ht
  rw [Bool.not_eq_false] at ht
  have hinit := r.initial_of_grantAt hk (.inr ht) h
  simp [initial, ht] at hinit

theorem seed_of_mic_grantAt
    (hmic : bit r.mic i = true) (h : r.grantAt i k = true) : bit input.seed i = true := by
  have hinit := r.initial_of_grantAt hk (.inl hmic) h
  simp only [initial, bit_and, Bool.and_eq_true] at hinit
  exact hinit.1

end Resolved

/-- **Labels withhold to the end.** No mask of a successful check holds a bit the process-trust
label decided, and the bits it holds that the mandatory label decided were seeded by privileges. -/
theorem accessCheckCore_labels_withhold {input : AccessCheckCoreInput}
    {out : AccessCheckCoreState} (h : accessCheckCore input = .ok out) :
    ∃ sd base seed, input.sd = some sd ∧
      evaluateSecurityDescriptor (input.baseInput sd) = .ok base ∧
      seedAccessCheckPrivileges input.token.privileges input.mapping input.privilegeIntent =
        .ok seed ∧
      out.pipDecided = base.pipDecided ∧
      out.grants.Forall fun granted =>
        granted &&& out.pipDecided = 0#32 ∧ granted &&& base.micDecided ⊆ seed.granted := by
  obtain ⟨sd, hsd, ⟨c⟩⟩ := nonempty_checked h
  refine ⟨sd, c.base, _, hsd, c.base_eq, seedAccessCheckPrivileges_eq _ _ _,
    c.pipDecided_eq, c.presents.forall fun k hk m hm => ⟨?_, ?_⟩⟩
  · refine eq_zero_iff.mpr fun i => ?_
    rw [c.pipDecided_eq, c.yields.pipDecided, bit_and, hm]
    cases hg : c.grantAt i k with
    | false => rfl
    | true => exact c.resolved.not_trust_of_grantAt hk (c.base_of_grantAt hg)
  · refine subset_iff.mpr fun i hi => ?_
    rw [c.yields.micDecided, bit_and, hm, Bool.and_eq_true] at hi
    exact c.resolved.seed_of_mic_grantAt hk hi.2 (c.base_of_grantAt hi.1)

end Labels

attribute [local instance] Sample.asciiCase

/-- A descriptor with both labels: nothing of high integrity may be written from below, and a
process of less trust may only read. -/
def Sample.labelledSd : SecurityDescriptor :=
  descriptor Sid.system
    (some [highLabel, basicAce systemProcessTrustLabelAceType 0#8 1#32
      ⟨[1, 2, 0, 0, 0, 0, 0, 19, 0, 2, 0, 0, 0, 16, 0, 0], by decide⟩]) none (by decide)

open Sample in
theorem accessCheckCore_labels_withhold_sample :
    ∃ out base seed,
      accessCheckCore { check with sd := some labelledSd } = .ok out ∧
      evaluateSecurityDescriptor (check.baseInput labelledSd) = .ok base ∧
      seedAccessCheckPrivileges check.token.privileges mapping 0#32 = .ok seed ∧
      base.micDecided ≠ 0#32 ∧ out.pipDecided ≠ 0#32 ∧
      out.grants.Forall fun granted =>
        granted &&& out.pipDecided = 0#32 ∧ granted &&& base.micDecided ⊆ seed.granted := by
  obtain ⟨out, h⟩ := Outcome.exists_of_isOk
    (x := accessCheckCore { check with sd := some labelledSd }) (by decide)
  obtain ⟨sd, base, seed, hsd, hbase, hseed, hpip, hall⟩ := accessCheckCore_labels_withhold h
  cases hsd
  have hbits : (evaluateSecurityDescriptor (check.baseInput labelledSd)).toOption.map
      (fun base => (base.micDecided, base.pipDecided)) =
      some (mapping.all &&& ~~~(5#32 ||| readControl ||| synchronize),
        (mapping.all ||| accessSystemSecurity) &&& ~~~1#32) := by decide
  have hok : evaluateSecurityDescriptor (check.baseInput labelledSd) = .ok base := hbase
  rw [hok] at hbits
  obtain ⟨hmic, htrust⟩ := Prod.mk.inj (Option.some.inj hbits)
  refine ⟨out, base, seed, h, hbase, hseed, ?_, ?_, hall⟩
  · rw [show base.micDecided = _ from hmic]
    decide
  · rw [hpip, show base.pipDecided = _ from htrust]
    decide

end Pkm.Kacs
