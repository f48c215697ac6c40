import Pkm.Kacs.Mandatory
/-!
# Stronger subjects

A subject with more enabled privileges, a higher integrity level and a more
trusted process is granted no less. What privileges seed grows and what the
labels withhold shrinks; where neither decides a right, both subjects walk the
same entries. The fallback may fire for the weaker subject only: then privileges
or the walk had already given the stronger one `WRITE_OWNER`, in the first case
with the same protection from the restricted pass.
-/

namespace Pkm.Kacs

open Bits

/-! ## Effective privileges -/

/-- More enabled privileges are more effective privileges, whatever the intent. -/
theorem effectiveAccessCheckMask_mono {p q : TokenPrivileges} (h : p.enabledMask ⊆ q.enabledMask)
    (intent : BitVec 32) :
    p.effectiveAccessCheckMask intent ⊆ q.effectiveAccessCheckMask intent := by
  have hand : ∀ {x y m : BitVec 64}, x ⊆ y → x &&& m ⊆ y &&& m := by
    intro x y m hxy
    refine subset_iff.mpr fun i hi => ?_
    rw [bit_and, Bool.and_eq_true] at hi ⊢
    exact ⟨bit_of_subset hxy hi.1, hi.2⟩
  unfold TokenPrivileges.effectiveAccessCheckMask
  split <;> split
  · exact hand (hand h)
  · exact hand h
  · exact hand h
  · exact h

theorem dominates_mono {p q : PipContext} (htype : p.pipType ≤ q.pipType)
    (htrust : p.pipTrust ≤ q.pipTrust) (label : ProcessTrustLabel)
    (h : dominates p label = true) : dominates q label = true := by
  simp only [dominates, decide_eq_true_eq, BitVec.le_def] at h htype htrust ⊢
  omega

/-- The second input is the first with a stronger subject. -/
structure Strengthens (a b : EvaluateSecurityDescriptorInput) : Prop where
  eq : ∃ privileges integrityLevel pip,
    b = { a with token := { a.token with privileges, integrityLevel }, pip }
  privileges : a.token.privileges.enabledMask ⊆ b.token.privileges.enabledMask
  integrityLevel : a.token.integrityLevel ≤ b.token.integrityLevel
  pipType : a.pip.pipType ≤ b.pip.pipType
  pipTrust : a.pip.pipTrust ≤ b.pip.pipTrust

namespace Strengthens

variable {a b : EvaluateSecurityDescriptorInput} (h : Strengthens a b)
include h

theorem sd : a.sd = b.sd := by
  obtain ⟨_, _, _, rfl⟩ := h.eq
  rfl

theorem objectTree : a.objectTree = b.objectTree := by
  obtain ⟨_, _, _, rfl⟩ := h.eq
  rfl

theorem effective : a.effective ⊆ b.effective := by
  have hmono := effectiveAccessCheckMask_mono h.privileges a.privilegeIntent
  obtain ⟨_, _, _, rfl⟩ := h.eq
  exact hmono

theorem seed : a.seed ⊆ b.seed := by
  have hmono := seedBits_mono a.mapping h.effective
  obtain ⟨_, _, _, rfl⟩ := h.eq
  exact hmono

theorem dominates (label : ProcessTrustLabel) (hd : Kacs.dominates a.pip label = true) :
    Kacs.dominates b.pip label = true :=
  dominates_mono h.pipType h.pipTrust label hd

theorem token : b.token.restricted = a.token.restricted ∧
    b.token.confinement = a.token.confinement ∧ b.token.subject = a.token.subject ∧
    b.mapping = a.mapping := by
  obtain ⟨_, _, _, rfl⟩ := h.eq
  exact ⟨rfl, rfl, rfl, rfl⟩

end Strengthens

/-! ## One evaluation -/

section Evaluate

variable [CharCase]

/-- A walk depends on the state before it only through the right's cell. -/
theorem walkCells_initialState {d : DaclStateInput} {s s' : AccessDecisionState}
    {sidMatches : SidMatches} {i : Fin 32} (h : cellOf i s = cellOf i s') :
    walkCells { d with initialState := s } sidMatches i =
      walkCells { d with initialState := s' } sidMatches i := by
  have hstart : cellOf i (startState { d with initialState := s }) =
      cellOf i (startState { d with initialState := s' }) := by
    unfold startState
    simp only
    split
    · rw [cellOf_applyBits, cellOf_applyBits, h]
    · exact h
  unfold walkCells
  rw [hstart]
  rfl

namespace Strengthens

variable {a b : EvaluateSecurityDescriptorInput} (h : Strengthens a b)
include h

variable (r : Resolved a) (s : Resolved b)

theorem normalized : s.normalized = r.normalized := by
  have hs := s.normalized_eq
  obtain ⟨_, _, _, rfl⟩ := h.eq
  exact Except.ok.inj (hs.symm.trans r.normalized_eq)

theorem mic : s.mic ⊆ r.mic := by
  obtain ⟨-, -, hlabel, -⟩ := s.agree r h.sd.symm
  have hactive : s.micIsActive = true → r.micIsActive = true := by
    unfold Resolved.micIsActive
    rw [hlabel]
    have hlevel := h.integrityLevel
    obtain ⟨_, _, _, rfl⟩ := h.eq
    exact micActive_anti hlevel
  have heff := h.effective
  unfold Resolved.mic
  rw [hlabel]
  obtain ⟨_, _, _, rfl⟩ := h.eq
  exact micBits_anti hactive heff

theorem trust : s.trust ⊆ r.trust := by
  obtain ⟨-, -, -, htrust⟩ := s.agree r h.sd.symm
  have hdom := h.dominates
  unfold Resolved.trust
  rw [htrust]
  obtain ⟨_, _, _, rfl⟩ := h.eq
  exact trustBits_anti hdom

/-- Both walk with the same input, and the narrowing walks do not look at what makes a subject
stronger. -/
theorem walks_eq : (∀ state, s.pass.normalInput state = r.pass.normalInput state) ∧
    s.restrictedAt = r.restrictedAt ∧ s.confinedAt = r.confinedAt := by
  obtain ⟨hsd, hmeta, -, -⟩ := s.agree r h.sd.symm
  have hn := h.normalized r s
  unfold Resolved.restrictedAt Resolved.confinedAt Resolved.pass
  rw [hsd, hmeta, hn]
  obtain ⟨_, _, _, rfl⟩ := h.eq
  exact ⟨fun _ => rfl, rfl, rfl⟩

variable {r s} {i : Fin 32} {k : ℕ}

theorem walkAt_of_cellOf (hcell : cellOf i s.initial = cellOf i r.initial) :
    s.walkAt i = r.walkAt i := by
  funext k
  unfold Resolved.walkAt
  rw [(h.walks_eq r s).1, h.token.2.2.1]
  exact congrArg (fun v : Cells => (v k).granted)
    (walkCells_initialState (d := r.pass.normalInput r.initial) hcell)

/-- Where the stronger subject's privileges and labels leave a right open and the weaker subject's
labels do too, both walk alike. -/
theorem walkAt_eq (hs : bit s.initial.decided i = false) (hmic : bit r.mic i = false)
    (htrust : bit r.trust i = false) : s.walkAt i = r.walkAt i := by
  simp only [Resolved.initial, bit_or, Bool.or_eq_false_iff] at hs
  have hseed : bit a.seed i = false := bit_eq_false_of_subset h.seed hs.1.1.2
  refine h.walkAt_of_cellOf ?_
  simp [cellOf, Resolved.initial, hs.1.1.2, hs.1.2, hs.2, hmic, htrust, hseed]

/-- **The caller's own walk grants the stronger subject no less.** -/
theorem walkAt (hk : k < (forestOf a.objectTree).size) (hg : r.walkAt i k = true) :
    s.walkAt i k = true := by
  -- a label of the weaker subject that withholds the right leaves it only what was seeded
  have hseeded : bit r.initial.decided i = true → bit a.seed i = true ∧ bit r.trust i = false := by
    intro hd
    rw [r.walkAt_of_decided hk hd] at hg
    simpa [Resolved.initial] using hg
  have hks : k < (forestOf b.objectTree).size := h.objectTree ▸ hk
  by_cases hd : bit s.initial.decided i = true
  · rw [s.walkAt_of_decided hks hd]
    cases hseed : bit b.seed i with
    | true =>
      have htrust : bit s.trust i = false := by
        by_contra ht
        have hrt := bit_of_subset (h.trust r s) (Bool.not_eq_false _ ▸ ht)
        have hno := (hseeded (by simp [Resolved.initial, hrt])).2
        rw [hrt] at hno
        cases hno
      simp [Resolved.initial, hseed, htrust]
    | false =>
      -- decided without a seed: by something that decides for the weaker subject as well
      have hrd : bit r.initial.decided i = true := by
        simp only [Resolved.initial, bit_or, Bool.or_eq_true, hseed] at hd ⊢
        rcases hd with ((hass | hno) | hmic) | htrust
        · exact .inl (.inl (.inl hass))
        · cases hno
        · exact .inl (.inr (bit_of_subset (h.mic r s) hmic))
        · exact .inr (bit_of_subset (h.trust r s) htrust)
      have := bit_of_subset h.seed (hseeded hrd).1
      rw [hseed] at this
      cases this
  · have hopen : ∀ m : Mask, (bit m i = true → bit r.initial.decided i = true) →
        bit m i = false := by
      intro m hm
      by_contra hn
      refine hd ?_
      have := bit_of_subset h.seed (hseeded (hm (Bool.not_eq_false _ ▸ hn))).1
      simp [Resolved.initial, this]
    have hmic := hopen r.mic fun hm => by simp [Resolved.initial, hm]
    have htrust := hopen r.trust fun ht => by simp [Resolved.initial, ht]
    rw [h.walkAt_eq (Bool.not_eq_true _ ▸ hd) hmic htrust]
    exact hg

/-- Where the fallback fires for the weaker subject, privileges give the stronger one
`WRITE_OWNER` too. -/
theorem privilegeAt_of_fallback (hf : r.fallback = true) :
    s.privilegeAt writeOwnerBit = true := by
  obtain ⟨hmic, htrust⟩ := r.fallback_labels hf
  simp only [Resolved.fallback, Bool.and_eq_true, Bool.not_eq_true'] at hf
  obtain ⟨⟨⟨hasked, hpriv⟩, -⟩, hwalk⟩ := hf
  cases hw : s.walkAt writeOwnerBit 0 with
  | true =>
    cases hd : bit s.initial.decided writeOwnerBit with
    | true =>
      rw [s.walkAt_of_decided (forestOf_size_pos b.objectTree) hd] at hw
      simp [Resolved.privilegeAt, hw]
    | false =>
      rw [h.walkAt_eq hd hmic htrust, hwalk] at hw
      cases hw
  | false =>
    have hfs : s.fallback = true := by
      simp [Resolved.fallback, h.normalized r s, hasked, holds_mono h.effective hpriv,
        bit_eq_false_of_subset (h.mic r s) hmic, bit_eq_false_of_subset (h.trust r s) htrust, hw]
    simp [Resolved.privilegeAt, hfs]

theorem privilegeAt (hp : r.privilegeAt i = true) : s.privilegeAt i = true := by
  rw [Resolved.privilegeAt, Bool.or_eq_true] at hp
  rcases hp with hp | hp
  · simp only [Resolved.initial, bit_and, bit_not, Bool.and_eq_true, Bool.not_eq_true'] at hp
    have htrust := bit_eq_false_of_subset (h.trust r s) hp.2
    simp [Resolved.privilegeAt, Resolved.initial, bit_of_subset h.seed hp.1, htrust]
  · rw [Bool.and_eq_true, decide_eq_true_eq] at hp
    rw [hp.2]
    exact h.privilegeAt_of_fallback hp.1

/-- **The evaluation of a descriptor grants the stronger subject no less.** -/
theorem grantAt (hk : k < (forestOf a.objectTree).size) (hg : r.grantAt i k = true) :
    s.grantAt i k = true := by
  have hks : k < (forestOf b.objectTree).size := h.objectTree ▸ hk
  obtain ⟨hrestricted, hconfinement, -, hmapping⟩ := h.token
  have hnormal : r.normalAt i k = true → s.normalAt i k = true := by
    intro hn
    rw [Resolved.normalAt, Bool.or_eq_true] at hn
    rcases hn with hw | hf
    · rw [Resolved.normalAt, h.walkAt hk hw, Bool.true_or]
    · refine s.normalAt_of_privilegeAt hks (h.privilegeAt (r := r) ?_)
      rw [Resolved.privilegeAt, hf, Bool.or_true]
  obtain ⟨-, hpass, hconfined⟩ := h.walks_eq r s
  exact r.grantAt_mono hrestricted hconfinement hmapping hnormal (hpass ▸ id)
    (fun _ => h.privilegeAt) (fun _ => hconfined ▸ id) hg

end Strengthens

end Evaluate

/-! ## The whole check -/

section Check

variable [CharCase]

/-- The evaluation of a rule reads the labels of the check. -/
theorem Resolved.labels_of_synthetic {a b : EvaluateSecurityDescriptorInput} {dacl : Bytes}
    {base sd : SecurityDescriptor} (r : Resolved a) (q : Resolved b) (ha : a.sd = some base)
    (hb : b.sd = some sd) (h : syntheticSd base dacl = some sd) :
    q.label = r.label ∧ q.trustLabel = r.trustLabel := by
  cases ha.symm.trans r.sd_eq
  cases hb.symm.trans q.sd_eq
  obtain ⟨hlabel, htrust⟩ := labels_of_entries (syntheticSd_eq_some h).2.2.1
  exact ⟨Except.ok.inj (q.label_eq.symm.trans (hlabel.trans r.label_eq)),
    Except.ok.inj (q.trustLabel_eq.symm.trans (htrust.trans r.trustLabel_eq))⟩

variable {input : AccessCheckCoreInput} {weak strong : AccessCheckCoreState}
  {privileges : TokenPrivileges} {integrityLevel : IntegrityLevel} {pip : PipContext}

/-- **Stronger subjects are granted no less.** Enabling privileges, raising the integrity level or
raising the trust of the process keeps every bit of a successful check, at every node. -/
theorem accessCheckCore_strength_mono
    (hprivileges : input.token.privileges.enabledMask ⊆ privileges.enabledMask)
    (hintegrity : input.token.integrityLevel ≤ integrityLevel)
    (htype : input.pip.pipType ≤ pip.pipType) (htrust : input.pip.pipTrust ≤ pip.pipTrust)
    (hweak : accessCheckCore input = .ok weak)
    (hstrong : accessCheckCore
      { input with token := { input.token with privileges, integrityLevel }, pip } = .ok strong) :
    weak.grants ⊆ strong.grants := by
  obtain ⟨sd, hsd, ⟨c⟩⟩ := nonempty_checked hweak
  obtain ⟨sd', hsd', ⟨c'⟩⟩ := nonempty_checked hstrong
  cases hsd.symm.trans hsd'
  have hbase : Strengthens (input.baseInput sd) (AccessCheckCoreInput.baseInput
      { input with token := { input.token with privileges, integrityLevel }, pip } sd) :=
    ⟨⟨privileges, integrityLevel, pip, rfl⟩, hprivileges, hintegrity, htype, htrust⟩
  have hdacls := c.applicableDacls_eq c' rfl rfl rfl
  refine c.presents.subset c'.presents fun i k hk hg => ?_
  rw [Checked.grantAt, Bool.and_eq_true] at hg ⊢
  refine ⟨hbase.grantAt hk hg.1, ?_⟩
  have hrules := hg.2
  unfold Checked.rulesAt at hrules ⊢
  rw [← hdacls]
  rw [List.all_eq_true] at hrules ⊢
  intro dacl hdacl
  refine ruleGrants_compare (R := fun x y => x = true → y = true)
    (a := input.caapInput sd c.base) rfl rfl hk (fun q hq => ⟨?_, ?_⟩) (fun q r r' hq => ?_) ?_
    (hrules dacl hdacl)
  · rintro ⟨r⟩
    refine r.transfer rfl r.token_valid r.not_identification r.normalized_eq ?_
    exact r.trust_applies.mono hbase.dominates
  · rintro ⟨r⟩
    refine r.transfer rfl r.token_valid r.not_identification r.normalized_eq ?_
    rw [(c'.resolved.labels_of_synthetic r rfl rfl hq).2, (c'.resolved.agree c.resolved rfl).2.2.2]
    exact c.resolved.trust_applies
  · refine Strengthens.grantAt (r := r) (s := r') ?_ hk
    exact ⟨⟨privileges, integrityLevel, pip, rfl⟩, hprivileges, hintegrity, htype, htrust⟩
  · exact c.privilegeGranted_of c' hbase.privilegeAt (hbase.grantAt (forestOf_size_pos _))

end Check

attribute [local instance] Sample.asciiCase

open Sample in
/-- The labelled descriptor, checked before and after the subject gains SeTakeOwnership, a higher
level and a more trusted process. -/
theorem accessCheckCore_strength_mono_sample :
    ∃ weak strong,
      accessCheckCore { check with sd := some labelledSd } = .ok weak ∧
      accessCheckCore
        { check with
          sd := some labelledSd
          token :=
            { token Sid.system with
              privileges := ⟨seTakeOwnershipPrivilege, seTakeOwnershipPrivilege, 0#64, 0#64⟩
              integrityLevel := 0x3000#32 }
          pip := ⟨512#32, 4096#32⟩ } = .ok strong ∧
      weak.grants ⊆ strong.grants :=
  Outcome.exists_pair_of_isOk (by decide) (by decide) fun _ _ hweak hstrong =>
    accessCheckCore_strength_mono (by decide) (by decide) (by decide) (by decide) hweak hstrong

end Pkm.Kacs
