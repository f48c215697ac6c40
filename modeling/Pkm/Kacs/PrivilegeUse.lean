import Pkm.Kacs.MaximumAllowed
import Pkm.Kacs.Strength
/-!
# Which privileges count as used

A check records for every privilege which rights it contributed to the evaluation
of the descriptor, and marks it used when one of them was requested and survived.
A right that a privilege did not contribute is decided as if the caller did not
have it. So a privilege whose removal would cost the caller a requested right is
marked: except SeTakeOwnership, when the descriptor grants `WRITE_OWNER` by itself
and the fallback fires in the evaluation of a policy rule only. Those evaluations
report no contributions.
-/

namespace Pkm.Kacs

open Bits Outcome

variable {entry : BitVec 64 × Mask} {input : PrivilegeUseInput}

/-! ## The privileges a check accounts for -/

inductive AccountedPrivilege where
  | security
  | backup
  | restore
  | takeOwnership
  | relabel
  deriving DecidableEq

namespace AccountedPrivilege

def mask : AccountedPrivilege → BitVec 64
  | security => seSecurityPrivilege
  | backup => seBackupPrivilege
  | restore => seRestorePrivilege
  | takeOwnership => seTakeOwnershipPrivilege
  | relabel => seRelabelPrivilege

/-- What a privilege contributed. -/
def contribution : AccountedPrivilege → PrivilegeProvenance → Mask
  | security => PrivilegeProvenance.securityGranted
  | backup => PrivilegeProvenance.backupGranted
  | restore => PrivilegeProvenance.restoreGranted
  | takeOwnership => PrivilegeProvenance.takeOwnershipGranted
  | relabel => PrivilegeProvenance.relabelGranted

theorem mem_provenanceEntries (privilege : AccountedPrivilege) (provenance : PrivilegeProvenance) :
    (privilege.mask, privilege.contribution provenance) ∈ provenanceEntries provenance := by
  cases privilege <;> simp [provenanceEntries, mask, contribution]

theorem mask_and_mask {p q : AccountedPrivilege} (h : p ≠ q) : p.mask &&& q.mask = 0#64 := by
  revert h
  cases p <;> cases q <;> decide

end AccountedPrivilege

/-! ## Accounting -/

theorem subset_accountPrivilege (input : PrivilegeUseInput)
    (state : BitVec 64 × List PrivilegeUseEvent) (entry : BitVec 64 × Mask) :
    state.1 ⊆ (accountPrivilege input state entry).1 := by
  unfold accountPrivilege
  simp only
  split
  · exact subset_refl _
  · split
    · refine subset_iff.mpr fun i hi => ?_
      rw [bit_or, hi, Bool.true_or]
    · exact subset_refl _

/-- A privilege one of whose contributions was requested and survives counts as used. -/
theorem subset_accountPrivilege_of_surviving {state : BitVec 64 × List PrivilegeUseEvent}
    (h : survivingBits input (entry.2 &&& input.mappedDesired) ≠ 0#32) :
    entry.1 ⊆ (accountPrivilege input state entry).1 := by
  have hcontributed : entry.2 &&& input.mappedDesired ≠ 0#32 := by
    intro hzero
    refine h ?_
    rw [hzero]
    unfold survivingBits
    split <;> simp
  unfold accountPrivilege
  simp only [hcontributed, if_false, h, ne_eq, not_false_eq_true, if_true]
  refine subset_iff.mpr fun i hi => ?_
  rw [bit_or, hi, Bool.or_true]

/-- **What survives of one entry is in the account of all of them.** -/
theorem subset_foldl_accountPrivilege {entries : List (BitVec 64 × Mask)} (hmem : entry ∈ entries)
    (h : survivingBits input (entry.2 &&& input.mappedDesired) ≠ 0#32)
    (state : BitVec 64 × List PrivilegeUseEvent) :
    entry.1 ⊆ (entries.foldl (accountPrivilege input) state).1 := by
  have hkeep : ∀ (l : List (BitVec 64 × Mask)) (state : BitVec 64 × List PrivilegeUseEvent),
      state.1 ⊆ (l.foldl (accountPrivilege input) state).1 := fun l state =>
    List.foldlRecOn (motive := fun s : BitVec 64 × _ => state.1 ⊆ s.1) l _ (subset_refl _)
      fun s h e _ => subset_trans h (subset_accountPrivilege input s e)
  induction entries generalizing state with
  | nil => cases hmem
  | cons e l ih =>
    rcases List.mem_cons.mp hmem with rfl | hmem
    · exact subset_trans (subset_accountPrivilege_of_surviving h) (hkeep l _)
    · exact ih hmem _

/-- A right survives where the mode of the check looks for it. -/
theorem survivingBits_ne_zero {contributed : Mask} {i : Fin 32} (hi : bit contributed i = true)
    (h : match input.mode with
      | .scalar => bit input.finalGranted i = true
      | .resultList => ∃ l, input.objectGrantedList = some l ∧ ∃ m ∈ l, bit m i = true) :
    survivingBits input contributed ≠ 0#32 := by
  refine ne_zero_iff.mpr ⟨i, ?_⟩
  unfold survivingBits
  cases hmode : input.mode with
  | scalar =>
    rw [hmode] at h
    simp only [bit_and, hi]
    exact h
  | resultList =>
    rw [hmode] at h
    obtain ⟨l, hl, m, hm, hbit⟩ := h
    rw [hl]
    have hfold : ∀ (l : List Mask) (acc : Mask),
        bit (l.foldl (fun acc granted => acc ||| (contributed &&& granted)) acc) i =
          (bit acc i || l.any fun m => bit m i) := by
      intro l
      induction l with
      | nil => simp
      | cons m l ih =>
        intro acc
        simp [ih, hi, Bool.or_assoc]
    simp only [hfold, Bool.or_eq_true, List.any_eq_true]
    exact .inr ⟨m, hm, hbit⟩

/-! ## Without a privilege -/

/-- The privileges without some. -/
def TokenPrivileges.remove (self : TokenPrivileges) (mask : BitVec 64) : TokenPrivileges :=
  { self with
    present := self.present &&& ~~~mask
    enabled := self.enabled &&& ~~~mask
    enabledByDefault := self.enabledByDefault &&& ~~~mask }

theorem TokenPrivileges.effective_remove (self : TokenPrivileges) (mask : BitVec 64)
    (intent : BitVec 32) :
    (self.remove mask).effectiveAccessCheckMask intent =
      self.effectiveAccessCheckMask intent &&& ~~~mask := by
  refine ext_bit fun i => ?_
  unfold effectiveAccessCheckMask enabledMask remove
  split <;> split <;> simp only [bit_and, bit_not] <;> cases bit mask i <;> simp

theorem holds_remove_self (effective privilege : BitVec 64) :
    holds (effective &&& ~~~privilege) privilege = false := by
  refine decide_eq_false (not_not.mpr (eq_zero_iff.mpr fun i => ?_))
  cases bit privilege i <;> simp

/-- Removing a privilege leaves the others. -/
theorem holds_remove_of_ne {p q : AccountedPrivilege} (h : p ≠ q) (effective : BitVec 64) :
    holds (effective &&& ~~~p.mask) q.mask = holds effective q.mask := by
  unfold holds
  congr 2
  refine ext_bit fun i => ?_
  have hdisjoint : bit (p.mask &&& q.mask) i = false := by
    rw [AccountedPrivilege.mask_and_mask h, bit_zero]
  rw [bit_and] at hdisjoint
  simp only [bit_and]
  cases hq : bit q.mask i with
  | false => simp
  | true =>
    rw [hq, Bool.and_true] at hdisjoint
    simp [hdisjoint]

/-- The second input is the first without a privilege. -/
def Removes (privilege : AccountedPrivilege) (a b : EvaluateSecurityDescriptorInput) : Prop :=
  b = { a with token.privileges := a.token.privileges.remove privilege.mask }

namespace Removes

variable {privilege : AccountedPrivilege} {a b : EvaluateSecurityDescriptorInput}
  (h : Removes privilege a b)
include h

theorem effective : b.effective = a.effective &&& ~~~privilege.mask := by
  subst h
  exact TokenPrivileges.effective_remove _ _ _

theorem holds_eq (other : AccountedPrivilege) :
    holds b.effective other.mask =
      (holds a.effective other.mask && decide (privilege ≠ other)) := by
  rw [h.effective]
  by_cases hp : privilege = other
  · subst hp
    simp [holds_remove_self]
  · simp [holds_remove_of_ne hp, hp]

theorem strengthens : Strengthens b a := by
  have hsub : b.token.privileges.enabledMask ⊆ a.token.privileges.enabledMask := by
    subst h
    refine subset_iff.mpr fun i hi => ?_
    simp only [TokenPrivileges.enabledMask, TokenPrivileges.remove, bit_and,
      Bool.and_eq_true] at hi ⊢
    exact ⟨hi.1.1, hi.2.1⟩
  subst h
  exact ⟨⟨a.token.privileges, a.token.integrityLevel, a.pip, rfl⟩, hsub, BitVec.le_refl _,
    BitVec.le_refl _, BitVec.le_refl _⟩

end Removes

/-! ## A right that a privilege did not contribute -/

section Evaluate

variable [CharCase] {privilege : AccountedPrivilege} {a b : EvaluateSecurityDescriptorInput}
  (h : Removes privilege a b) (r : Resolved a) (s : Resolved b) {i : Fin 32}
  (hi : bit (privilege.contribution r.provenance) i = false)

namespace Removes

include h

omit [CharCase] in
/-- What a privilege would contribute, with and without another one or itself. -/
theorem bit_maskIf_holds (other : AccountedPrivilege) (m : Mask)
    (ho : privilege = other → bit (maskIf (holds a.effective other.mask) m) i = false) :
    bit (maskIf (holds b.effective other.mask) m) i =
      bit (maskIf (holds a.effective other.mask) m) i := by
  by_cases hp : privilege = other
  · rw [ho hp, bit_maskIf, h.holds_eq]
    simp [hp]
  · rw [bit_maskIf, bit_maskIf, h.holds_eq]
    simp [hp]

theorem trust : s.trust = r.trust := by
  obtain ⟨-, -, -, htrust⟩ := s.agree r h.strengthens.sd
  unfold Resolved.trust
  rw [htrust]
  subst h
  rfl

include hi

theorem seed : bit b.seed i = bit a.seed i := by
  have hmapping : b.mapping = a.mapping := h.strengthens.token.2.2.2.symm
  have hsec := h.bit_maskIf_holds .security accessSystemSecurity (by rintro rfl; exact hi)
  have hback := h.bit_maskIf_holds .backup a.mapping.read (by rintro rfl; exact hi)
  have hrest := h.bit_maskIf_holds .restore
    (a.mapping.write ||| writeDac ||| writeOwner ||| delete ||| accessSystemSecurity)
    (by rintro rfl; exact hi)
  simp only [AccountedPrivilege.mask] at hsec hback hrest
  simp only [EvaluateSecurityDescriptorInput.seed, seedBits, securityBits, backupBits, restoreBits,
    bit_or, hmapping, hsec, hback, hrest]

theorem mic : bit s.mic i = bit r.mic i := by
  have hmapping : b.mapping = a.mapping := h.strengthens.token.2.2.2.symm
  obtain ⟨-, -, hlabel, -⟩ := s.agree r h.strengthens.sd
  have hactive : s.micIsActive = r.micIsActive := by
    unfold Resolved.micIsActive
    rw [hlabel]
    subst h
    rfl
  have hrelabel : bit (relabelBits r.micIsActive b.effective) i =
      bit (relabelBits r.micIsActive a.effective) i := by
    have hown := h.holds_eq .relabel
    simp only [AccountedPrivilege.mask] at hown
    simp only [relabelBits, bit_maskIf, hown]
    by_cases hp : privilege = .relabel
    · subst hp
      have hnone : bit (relabelBits r.micIsActive a.effective) i = false := hi
      simp only [relabelBits, bit_maskIf] at hnone
      rw [hnone]
      simp
    · simp [hp]
  unfold Resolved.mic micBits
  rw [hlabel, hactive, hmapping]
  simp [hrelabel]

theorem walkAt : s.walkAt i = r.walkAt i := by
  refine (h.strengthens.walkAt_of_cellOf ?_).symm
  simp [cellOf, Resolved.initial, h.seed r hi, h.mic r s hi, h.trust r s]

/-- For `WRITE_OWNER`, the fallback fires alike. -/
theorem fallback (hwo : i = writeOwnerBit) : s.fallback = r.fallback := by
  subst hwo
  have hn := h.strengthens.normalized s r
  by_cases hp : privilege = .takeOwnership
  · subst hp
    have hoff : r.fallback = false := by
      have hcontributed : bit (maskIf r.fallback writeOwner) writeOwnerBit = false := hi
      simpa using hcontributed
    have hnone := h.holds_eq .takeOwnership
    simp only [AccountedPrivilege.mask, Bool.and_false] at hnone
    rw [hoff, Resolved.fallback, hnone]
    simp
  · have hsame := h.holds_eq .takeOwnership
    simp only [AccountedPrivilege.mask, ne_eq, hp, not_false_eq_true, decide_true,
      Bool.and_true] at hsame
    simp only [Resolved.fallback, hn, hsame, bit_or, h.mic r s hi, h.trust r s, h.walkAt r s hi]

theorem normalAt : s.normalAt i = r.normalAt i := by
  unfold Resolved.normalAt
  rw [h.walkAt r s hi]
  by_cases hwo : i = writeOwnerBit
  · rw [h.fallback r s hi hwo]
  · simp [hwo]

theorem privilegeAt : s.privilegeAt i = r.privilegeAt i := by
  have hgranted : bit s.initial.granted i = bit r.initial.granted i := by
    simp only [Resolved.initial, bit_and, h.seed r hi, h.trust r s]
  unfold Resolved.privilegeAt
  rw [hgranted]
  by_cases hwo : i = writeOwnerBit
  · rw [h.fallback r s hi hwo]
  · simp [hwo]

/-- **A right that a privilege did not contribute is decided as without it.** -/
theorem grantAt : s.grantAt i = r.grantAt i := by
  obtain ⟨hrestricted, hconfinement, -, hmapping⟩ := h.strengthens.token
  have hmerged : s.mergedAt i = r.mergedAt i := by
    unfold Resolved.mergedAt
    rw [hrestricted, hmapping, h.normalAt r s hi, h.privilegeAt r s hi,
      (h.strengthens.walks_eq s r).2.1]
  unfold Resolved.grantAt
  rw [hconfinement, hmerged, (h.strengthens.walks_eq s r).2.2]

end Removes

end Evaluate

/-! ## The whole check -/

/-- The evaluation of a rule uses no privilege that the check does not. -/
theorem effective_ruleInput (privileges : TokenPrivileges) (intent : BitVec 32) :
    privileges.effectiveAccessCheckMask 0#32 ⊆ privileges.effectiveAccessCheckMask intent := by
  refine subset_iff.mpr fun i hi => ?_
  simp only [TokenPrivileges.effectiveAccessCheckMask, BitVec.zero_and, if_true, bit_and,
    Bool.and_eq_true] at hi
  unfold TokenPrivileges.effectiveAccessCheckMask
  split <;> split <;> simp [hi.1.1, hi.1.2, hi.2]

/-- The check of a caller without a privilege. -/
def AccessCheckCoreInput.without (self : AccessCheckCoreInput) (privilege : AccountedPrivilege) :
    AccessCheckCoreInput :=
  { self with token.privileges := self.token.privileges.remove privilege.mask }

section Check

variable [CharCase] {input input' : AccessCheckCoreInput} {sd : SecurityDescriptor}
  {out out' : AccessCheckCoreState} (c : Checked input sd out) (c' : Checked input' sd out')
  {privilege : AccountedPrivilege}

/-- Take-ownership apart, what a privilege contributes to a rule it contributes to the check. -/
theorem Checked.contribution_rule (hp : privilege ≠ .takeOwnership) {dacl : Bytes}
    {q : SecurityDescriptor} (hq : syntheticSd sd dacl = some q)
    (r : Resolved (ruleInput (input.caapInput sd c.base) q)) :
    privilege.contribution r.provenance ⊆ privilege.contribution c.resolved.provenance := by
  have heff : (ruleInput (input.caapInput sd c.base) q).effective ⊆
      (input.baseInput sd).effective := effective_ruleInput _ _
  have hactive : r.micIsActive = c.resolved.micIsActive := by
    unfold Resolved.micIsActive
    rw [(c.resolved.labels_of_synthetic r rfl rfl hq).1]
    rfl
  have hmask : ∀ (p : BitVec 64) (m : Mask) (on : Bool),
      maskIf (on && holds (ruleInput (input.caapInput sd c.base) q).effective p) m ⊆
        maskIf (on && holds (input.baseInput sd).effective p) m := by
    intro p m on
    refine subset_iff.mpr fun i hi => ?_
    rw [bit_maskIf, Bool.and_eq_true, Bool.and_eq_true] at hi ⊢
    exact ⟨⟨hi.1.1, holds_mono heff hi.1.2⟩, hi.2⟩
  cases privilege with
  | security => exact hmask seSecurityPrivilege _ true
  | backup => exact hmask seBackupPrivilege _ true
  | restore => exact hmask seRestorePrivilege _ true
  | takeOwnership => exact absurd rfl hp
  | relabel =>
    change relabelBits r.micIsActive _ ⊆ relabelBits c.resolved.micIsActive _
    rw [hactive]
    exact hmask seRelabelPrivilege _ _

variable {i : Fin 32} {k : ℕ}

/-- **A right that a privilege did not contribute is granted without it**, take-ownership
apart. -/
theorem Checked.grantAt_of_not_contributed (hinput : input' = input.without privilege)
    (hp : privilege ≠ .takeOwnership)
    (hi : bit (privilege.contribution c.resolved.provenance) i = false)
    (hk : k < (forestOf input.objectTree).size) : c'.grantAt i k = c.grantAt i k := by
  have hbase : Removes privilege (input.baseInput sd) (input'.baseInput sd) := by
    subst hinput
    rfl
  have hrule : ∀ q, Removes privilege (ruleInput (input.caapInput sd c.base) q)
      (ruleInput (input'.caapInput sd c'.base) q) := by
    intro q
    subst hinput
    rfl
  obtain ⟨htree, hpip, hsubject, hcontext, hpolicies⟩ : input.objectTree = input'.objectTree ∧
      input'.pip = input.pip ∧ input.token.subject = input'.token.subject ∧
      input.conditionalContext = input'.conditionalContext ∧
      input.policies = input'.policies := by
    subst hinput
    exact ⟨rfl, rfl, rfl, rfl, rfl⟩
  have hgrant := hbase.grantAt c.resolved c'.resolved hi
  have hone : ∀ dacl,
      (ruleGrants (input'.caapInput sd c'.base) dacl).grants.holdsAt i k =
        (ruleGrants (input.caapInput sd c.base) dacl).grants.holdsAt i k := by
    intro dacl
    refine ruleGrants_compare (R := fun x y => y = x) rfl htree hk
      (fun q _ => ⟨c'.rule_resolved hpip.symm, c.rule_resolved hpip⟩) (fun q r r' hq => ?_) ?_
    · have hnot := bit_eq_false_of_subset (c.contribution_rule hp hq r) hi
      exact congrFun ((hrule q).grantAt r r' hnot) k
    · show bit c'.base.privilegeGranted i = bit c.base.privilegeGranted i
      rw [c'.yields.privilegeGranted, c.yields.privilegeGranted,
        hbase.privilegeAt c.resolved c'.resolved hi, hgrant]
  rw [Checked.grantAt, Checked.grantAt, hgrant]
  unfold Checked.rulesAt
  rw [← c.applicableDacls_eq c' hpolicies hsubject hcontext]
  simp only [hone]

/-- A requested right that a privilege contributed and that is in the final grant marks the
privilege as used. -/
theorem Checked.used_of_contributed {mapped : Mask}
    (hnormalized : c.resolved.normalized = ⟨input.desiredAccess, mapped, false⟩)
    (hmapped : bit mapped i = true) (hk : k < (forestOf input.objectTree).size)
    (hmode : input.mode = .scalar → k = 0) (hg : c.grantAt i k = true)
    (hi : bit (privilege.contribution c.resolved.provenance) i = true) :
    privilege.mask ⊆ out.updatedPrivileges.used := by
  have hmax : c.base.maxAllowedMode = false := by rw [c.yields.maxAllowedMode, hnormalized]
  have hdesired : c.base.mappedDesired = mapped := by rw [c.yields.mappedDesired, hnormalized]
  have hpresents := c.presents
  rw [c.grants_eq] at hpresents
  have hsurvives : survivingBits (input.privilegeUseInput c.base c.caap)
      (privilege.contribution c.base.provenance &&& c.base.mappedDesired) ≠ 0#32 := by
    refine survivingBits_ne_zero (i := i) ?_ ?_
    · rw [bit_and, hdesired, hmapped, c.yields.provenance, hi]
      rfl
    · change match input.mode with
        | .scalar => bit c.caap.granted i = true
        | .resultList => ∃ l, c.caap.objectGrantedList = some l ∧ ∃ m ∈ l, bit m i = true
      cases hm : input.mode with
      | scalar =>
        rw [hmode hm, ← hpresents.scalar] at hg
        exact hg
      | resultList =>
        obtain ⟨tree, htree⟩ := Option.isSome_iff_exists.mp (c.resultList hm)
        rw [htree] at hpresents hk
        obtain ⟨l, hl, hlen⟩ := hpresents.exists_nodes
        have hkl : k < l.length := Nat.lt_of_lt_of_eq hk hlen.symm
        rw [← hpresents.nodes hl hkl, List.getD_eq_getElem _ _ hkl] at hg
        exact ⟨l, hl, l[k], List.getElem_mem hkl, hg⟩
  have hused := subset_foldl_accountPrivilege
    (privilege.mem_provenanceEntries c.base.provenance) hsurvives (0#64, [])
  rw [c.used_eq]
  change privilege.mask ⊆ _ ||| (if c.base.maxAllowedMode = true then _ else _ : _ × _).1
  rw [hmax]
  refine subset_iff.mpr fun j hj => ?_
  rw [bit_or, Bool.or_eq_true]
  exact .inr (bit_of_subset hused hj)

end Check

/-- **A privilege that makes a difference is marked as used.** Let a check ask for specific rights,
and let one of them be in its final grant, but not in that of the check without the privilege; the
final grant is the root's mask in scalar mode and the mask of any node in result-list mode. Then the
first check marks the privilege. For SeTakeOwnership the evaluation of the descriptor itself, before
any policy, has to miss the right without the privilege. -/
theorem accessCheckCore_privilege_use [CharCase] (input : AccessCheckCoreInput)
    (privilege : AccountedPrivilege) {sd : SecurityDescriptor} {mapped : Mask}
    {out without : AccessCheckCoreState} {i : Fin 32} {k : ℕ} (hsd : input.sd = some sd)
    (hspecific : input.desiredAccess &&& maximumAllowed = 0#32)
    (hmapped : input.mapping.mapMask input.desiredAccess = .ok mapped)
    (hi : bit mapped i = true) (hout : accessCheckCore input = .ok out)
    (hwithout : accessCheckCore (input.without privilege) = .ok without)
    (hmode : input.mode = .scalar → k = 0) (hgranted : out.grants.holdsAt i k = true)
    (hmissing : without.grants.holdsAt i k = false)
    (htake : privilege = .takeOwnership → ∀ base,
      evaluateSecurityDescriptor ((input.without privilege).baseInput sd) = .ok base →
      base.grants.holdsAt i k = false) :
    privilege.mask ⊆ out.updatedPrivileges.used := by
  obtain ⟨sd₁, hsd₁, ⟨c⟩⟩ := nonempty_checked hout
  obtain ⟨sd₂, hsd₂, ⟨c'⟩⟩ := nonempty_checked hwithout
  cases hsd.symm.trans hsd₁
  cases hsd.symm.trans hsd₂
  have hk : k < (forestOf input.objectTree).size := by
    cases hm : input.mode with
    | scalar =>
      rw [hmode hm]
      exact forestOf_size_pos _
    | resultList =>
      obtain ⟨tree, htree⟩ := Option.isSome_iff_exists.mp (c.resultList hm)
      have hpresents := c.presents
      rw [htree] at hpresents ⊢
      exact hpresents.lt_of_holdsAt hgranted
  have hg : c.grantAt i k = true := (c.presents.holdsAt_eq hk).symm.trans hgranted
  have hn : c'.grantAt i k = false := (c'.presents.holdsAt_eq hk).symm.trans hmissing
  have hnormalized := Except.ok.inj
    (c.resolved.normalized_eq.symm.trans (normalizeDesiredAccess_specific hspecific hmapped))
  refine c.used_of_contributed hnormalized hi hk hmode hg ?_
  by_contra hnot
  rw [Bool.not_eq_true] at hnot
  by_cases hp : privilege = .takeOwnership
  · -- without a contribution the descriptor itself is evaluated alike
    have hbase : Removes privilege (input.baseInput sd) ((input.without privilege).baseInput sd) :=
      rfl
    have hsame := congrFun (hbase.grantAt c.resolved c'.resolved hnot) k
    have hno := htake hp c'.base c'.base_eq
    rw [c'.yields.presents.holdsAt_eq hk, hsame, c.base_of_grantAt hg] at hno
    cases hno
  · rw [c.grantAt_of_not_contributed c' rfl hp hnot hk, hg] at hn
    cases hn

/-! ## The privilege that is not marked -/

attribute [local instance] Sample.asciiCase

namespace Sample

/-- The system, with SeTakeOwnership, asks to take ownership. -/
def takingCheck : AccessCheckCoreInput :=
  { check with
    token := withPrivileges (token Sid.system) seTakeOwnershipPrivilege
    desiredAccess := writeOwner
    mode := .scalar
    objectTree := none }

/-- The system may take ownership, under a policy that lets everyone read. -/
def takenCheck : AccessCheckCoreInput :=
  { takingCheck with
    sd := some (descriptor Sid.administrators
      (some [basicAce systemScopedPolicyIdAceType 0#8 0#32 Sid.creatorGroup])
      (some [allow writeOwner Sid.system]) (by decide))
    policies := [⟨Sid.creatorGroup, ⟨[⟨none, acl [allow 1#32 Sid.everyone], none, none, none⟩]⟩⟩] }

end Sample

open Sample in
/-- The descriptor grants `WRITE_OWNER`; under the policy's rule only the fallback does. So the
right depends on SeTakeOwnership, which is not marked. -/
theorem accessCheckCore_privilege_use_unmarked :
    ∃ out without, accessCheckCore takenCheck = .ok out ∧
      accessCheckCore (takenCheck.without .takeOwnership) = .ok without ∧
      out.granted = writeOwner ∧ without.granted = 0#32 ∧
      ¬ AccountedPrivilege.takeOwnership.mask ⊆ out.updatedPrivileges.used := by
  obtain ⟨out, hout, hwith⟩ := exists_of_map (x := accessCheckCore takenCheck)
    (f := fun out => (out.granted, out.updatedPrivileges.used)) (c := (writeOwner, 0#64))
    (by decide +kernel)
  obtain ⟨without, hwithout, hno⟩ := exists_of_map (f := (·.granted)) (c := 0#32)
    (x := accessCheckCore (takenCheck.without .takeOwnership)) (by decide +kernel)
  obtain ⟨hgranted, hused⟩ := Prod.mk.inj hwith
  refine ⟨out, without, hout, hwithout, hgranted, hno, ?_⟩
  rw [show out.updatedPrivileges.used = 0#64 from hused]
  decide

open Sample in
theorem accessCheckCore_privilege_use_sample :
    ∃ out without, accessCheckCore takingCheck = .ok out ∧
      accessCheckCore (takingCheck.without .takeOwnership) = .ok without ∧
      AccountedPrivilege.takeOwnership.mask ⊆ out.updatedPrivileges.used := by
  obtain ⟨out, hout, hwith⟩ := exists_of_map (f := (·.grants.holdsAt writeOwnerBit 0))
    (c := true) (x := accessCheckCore takingCheck) (by decide)
  obtain ⟨without, hwithout, hno⟩ := exists_of_map (f := (·.grants.holdsAt writeOwnerBit 0))
    (c := false) (x := accessCheckCore (takingCheck.without .takeOwnership)) (by decide)
  have hbase : (evaluateSecurityDescriptor
      ((takingCheck.without .takeOwnership).baseInput Sample.sd)).toOption.map
        (·.grants.holdsAt writeOwnerBit 0) = some false := by decide
  have hmapped : takingCheck.mapping.mapMask takingCheck.desiredAccess = .ok writeOwner := rfl
  refine ⟨out, without, hout, hwithout, accessCheckCore_privilege_use takingCheck .takeOwnership
    rfl (by decide) hmapped (by decide) hout hwithout (fun _ => rfl) hwith hno
    fun _ base hok => ?_⟩
  rw [hok] at hbase
  exact Option.some.inj hbase

end Pkm.Kacs
