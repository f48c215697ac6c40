import Pkm.Kacs.Mandatory
/-!
# More constrained subjects

Restricting SIDs, a confinement SID and central policies narrow a check. Each
adds a pass whose result is intersected with what is there, and what privileges
put back after the restricted pass was granted before it. So constraining a
subject that was not constrained in that way before grants nothing new.

The passes themselves are not antitone. A further restricting SID or device group
lets more entries speak in a restricted pass that was there before, and a policy
installed for a SID the descriptor names takes the place of the recovery policy.
Either can grant more.
-/

namespace Pkm.Kacs

open Bits List Outcome

/-! ## One evaluation -/

/-- The second input is the first with a constraint where it had none. -/
structure Constrains (a b : EvaluateSecurityDescriptorInput) : Prop where
  eq : ∃ restricted confinement, b = { a with token := { a.token with restricted, confinement } }
  restricted : a.token.restricted.isActive = false ∨ b.token.restricted = a.token.restricted
  confinement : a.token.confinement.activeSid = none ∨ b.token.confinement = a.token.confinement

namespace Constrains

variable {a b : EvaluateSecurityDescriptorInput} (h : Constrains a b)
include h

theorem sd : a.sd = b.sd := by
  obtain ⟨_, _, rfl⟩ := h.eq
  rfl

variable [CharCase] (r : Resolved a) (s : Resolved b)

theorem normalized : s.normalized = r.normalized := by
  have hs := s.normalized_eq
  obtain ⟨_, _, rfl⟩ := h.eq
  exact Except.ok.inj (hs.symm.trans r.normalized_eq)

theorem labels : s.mic = r.mic ∧ s.trust = r.trust ∧ s.initial = r.initial := by
  obtain ⟨-, -, hlabel, htrust⟩ := s.agree r h.sd.symm
  have hmic : s.mic = r.mic := by
    unfold Resolved.mic Resolved.micIsActive
    rw [hlabel]
    obtain ⟨_, _, rfl⟩ := h.eq
    rfl
  have htrust : s.trust = r.trust := by
    unfold Resolved.trust
    rw [htrust]
    obtain ⟨_, _, rfl⟩ := h.eq
    rfl
  refine ⟨hmic, htrust, ?_⟩
  unfold Resolved.initial
  rw [hmic, htrust]
  obtain ⟨_, _, rfl⟩ := h.eq
  rfl

/-- The caller's own walk does not look at the constraints. -/
theorem walkAt : s.walkAt = r.walkAt := by
  obtain ⟨hsd, hmeta, -, -⟩ := s.agree r h.sd.symm
  have hn := h.normalized r s
  have hinitial := (h.labels r s).2.2
  unfold Resolved.walkAt Resolved.pass
  rw [hsd, hmeta, hn, hinitial]
  obtain ⟨_, _, rfl⟩ := h.eq
  rfl

theorem fallback : s.fallback = r.fallback := by
  obtain ⟨hmic, htrust, -⟩ := h.labels r s
  have hn := h.normalized r s
  unfold Resolved.fallback
  rw [h.walkAt r s, hmic, htrust, hn]
  obtain ⟨_, _, rfl⟩ := h.eq
  rfl

theorem normalAt : s.normalAt = r.normalAt := by
  unfold Resolved.normalAt
  rw [h.walkAt r s, h.fallback r s]

theorem privilegeAt : s.privilegeAt = r.privilegeAt := by
  unfold Resolved.privilegeAt
  rw [h.fallback r s, (h.labels r s).2.2]

/-- The same restricting SIDs grant the same, whatever the confinement. -/
theorem restrictedAt (hr : b.token.restricted = a.token.restricted) :
    s.restrictedAt = r.restrictedAt := by
  obtain ⟨hsd, hmeta, -, -⟩ := s.agree r h.sd.symm
  have hn := h.normalized r s
  obtain ⟨_, _, rfl⟩ := h.eq
  obtain rfl : _ = a.token.restricted := hr
  unfold Resolved.restrictedAt Resolved.pass PassInput.restrictedInput PassInput.normalInput
  rw [hsd, hmeta, hn]

/-- The same confinement grants the same, whatever the restricting SIDs. -/
theorem confinedAt (hc : b.token.confinement = a.token.confinement) :
    s.confinedAt = r.confinedAt := by
  obtain ⟨hsd, hmeta, -, -⟩ := s.agree r h.sd.symm
  have hn := h.normalized r s
  obtain ⟨_, _, rfl⟩ := h.eq
  obtain rfl : _ = a.token.confinement := hc
  unfold Resolved.confinedAt Resolved.pass PassInput.confinementInput PassInput.normalInput
  rw [hsd, hmeta, hn]

variable {r s} {i : Fin 32} {k : ℕ}

theorem mergedAt (hk : k < (forestOf a.objectTree).size) (hg : s.mergedAt i k = true) :
    r.mergedAt i k = true := by
  obtain ⟨hmapping, htree⟩ : b.mapping = a.mapping ∧ b.objectTree = a.objectTree := by
    obtain ⟨_, _, rfl⟩ := h.eq
    exact ⟨rfl, rfl⟩
  rcases h.restricted with hoff | hsame
  · have hnormal := s.normalAt_of_mergedAt (htree ▸ hk) hg
    rw [Resolved.mergedAt, hoff, ← h.normalAt r s]
    exact hnormal
  · rw [Resolved.mergedAt, hsame, hmapping, h.normalAt r s, h.privilegeAt r s,
      h.restrictedAt r s hsame] at hg
    exact hg

/-- **A constraint that is new to the subject grants nothing new.** -/
theorem grantAt (hk : k < (forestOf a.objectTree).size) (hg : s.grantAt i k = true) :
    r.grantAt i k = true := by
  have hr : r.mergedAt i k = true := h.mergedAt hk (s.mergedAt_of_grantAt hg)
  rcases h.confinement with hoff | hsame
  · rw [Resolved.grantAt, hoff]
    exact hr
  · rw [Resolved.grantAt, hsame, h.confinedAt r s hsame] at hg
    rw [Resolved.grantAt]
    split at hg
    · exact Bool.and_eq_true_iff.mpr ⟨hr, (Bool.and_eq_true_iff.mp hg).2⟩
    · exact hr

end Constrains

/-! ## The whole check -/

/-- The policy installed for a SID keeps every rule it had. A SID without a policy stays without
one, so that the recovery policy keeps answering for it. -/
def PolicyExtends : Option CaapPolicy → Option CaapPolicy → Prop
  | some policy, some policy' => ∀ rule ∈ policy.rules, rule ∈ policy'.rules
  | none, none => True
  | _, _ => False

/-- What the confining SIDs alone are granted by the DACL of a check. -/
def AccessCheckCoreInput.confinementWalk [CharCase] (self : AccessCheckCoreInput)
    (sd : SecurityDescriptor) (confinementSid : Sid) : KacsResult InternalDaclEvaluation := do
  let normalized ← self.mapping.normalizeDesiredAccess self.desiredAccess
  let validRights ← self.mapping.mapMask genericAll
  let metadata ← extractSaclMetadata sd
  let pass : PassInput :=
    { sd, token := self.token, normalized, validRights, mapping := self.mapping
      objectTree := self.objectTree
      context := { self.conditionalContext with resourceClaims := metadata.resourceAttributes } }
  pass.confinementPass confinementSid

section Check

variable [CharCase] {input input' : AccessCheckCoreInput} {out out' : AccessCheckCoreState}
  {dacl : Bytes} {sd : SecurityDescriptor}

/-- A policy that keeps its rules contributes every DACL it contributed. -/
theorem policyDacls_extends {a b : CaapEvaluationInput} {sid : Sid}
    (happlies : ruleApplies a = ruleApplies b)
    (h : PolicyExtends (lookupPolicy a.policies sid) (lookupPolicy b.policies sid))
    (hdacl : dacl ∈ policyDacls a sid) : dacl ∈ policyDacls b sid := by
  unfold policyDacls policyRules at hdacl ⊢
  revert h hdacl
  rw [happlies]
  rcases lookupPolicy a.policies sid with _ | policy <;>
    rcases lookupPolicy b.policies sid with _ | policy' <;> intro h hdacl
  · exact hdacl
  · exact h.elim
  · exact h.elim
  · obtain ⟨rule, hrule, rfl⟩ := mem_map.mp hdacl
    obtain ⟨hmem, happ⟩ := mem_filter.mp hrule
    exact mem_map.mpr ⟨rule, mem_filter.mpr ⟨h rule hmem, happ⟩, rfl⟩

/-- A rule of a check is a rule of every check whose policies extend its own. -/
theorem Checked.mem_applicableDacls (c : Checked input sd out) (c' : Checked input' sd out')
    (hsubject : input.token.subject = input'.token.subject)
    (hcontext : input.conditionalContext = input'.conditionalContext)
    (hp : ∀ sid ∈ c.resolved.metadata.policySids,
      PolicyExtends (lookupPolicy input.policies sid) (lookupPolicy input'.policies sid))
    (hdacl : dacl ∈ applicableDacls (input.caapInput sd c.base)) :
    dacl ∈ applicableDacls (input'.caapInput sd c'.base) := by
  have hmeta : c.resolved.metadata = c'.resolved.metadata := (c.resolved.agree c'.resolved rfl).2.1
  obtain ⟨sid, hsid, hmem⟩ := mem_flatMap.mp hdacl
  have hnamed : sid ∈ c.resolved.metadata.policySids := c.yields.policySids ▸ hsid
  have hnamed' : sid ∈ c'.base.policySids := by
    rw [c'.yields.policySids, ← hmeta]
    exact hnamed
  refine mem_flatMap.mpr ⟨sid, hnamed', policyDacls_extends ?_ (hp sid hnamed) hmem⟩
  refine ruleApplies_congr ?_ hsubject hcontext
  exact c.yields.resourceAttributes.trans
    ((congrArg _ hmeta).trans c'.yields.resourceAttributes.symm)

/-- A confined check grants at most what its confining SIDs are granted. -/
theorem Checked.confined (c : Checked input sd out) {confinementSid : Sid}
    (h : input.token.confinement.activeSid = some confinementSid) :
    ∃ ev, input.confinementWalk sd confinementSid = .ok ev ∧ out.grants ⊆ ev.grants := by
  obtain ⟨ev, hev, hpresents⟩ := c.resolved.confinementPass_spec confinementSid
  refine ⟨ev, ?_, c.presents.subset hpresents fun i k _ hg => ?_⟩
  · refine bind_eq_ok.mpr ⟨_, c.resolved.normalized_eq, ?_⟩
    refine bind_eq_ok.mpr ⟨_, input.mapping.mapMask_genericAll, ?_⟩
    refine bind_eq_ok.mpr ⟨_, c.metadata_eq, ?_⟩
    rw [Resolved.pass, c.resolved_sd] at hev
    exact hev
  · have hbase := c.base_of_grantAt hg
    have hactive : (input.baseInput sd).token.confinement.activeSid = some confinementSid := h
    rw [Resolved.grantAt, hactive, Bool.and_eq_true] at hbase
    exact hbase.2

/-- What a constrained check grants, the check grants without the constraints. -/
theorem Checked.grantAt_of_constrained (c : Checked input sd out) (c' : Checked input' sd out')
    {restricted : RestrictedTokenContext} {confinement : ConfinementTokenContext}
    {policies : List CaapPolicyEntry} (hinput : input' =
      { input with token := { input.token with restricted, confinement }, policies })
    (hr : input.token.restricted.isActive = false ∨ restricted = input.token.restricted)
    (hc : input.token.confinement.activeSid = none ∨ confinement = input.token.confinement)
    (hp : ∀ sid ∈ c.resolved.metadata.policySids,
      PolicyExtends (lookupPolicy input.policies sid) (lookupPolicy policies sid)) {i : Fin 32}
    {k : ℕ} (hk : k < (forestOf input.objectTree).size) (hg : c'.grantAt i k = true) :
    c.grantAt i k = true := by
  have hbase : Constrains (input.baseInput sd) (input'.baseInput sd) := by
    subst hinput
    exact ⟨⟨restricted, confinement, rfl⟩, hr, hc⟩
  have hrule : ∀ q, Constrains (ruleInput (input.caapInput sd c.base) q)
      (ruleInput (input'.caapInput sd c'.base) q) := by
    intro q
    subst hinput
    exact ⟨⟨restricted, confinement, rfl⟩, hr, hc⟩
  obtain ⟨htree, hpip, hsubject, hcontext, hpolicies⟩ : input'.objectTree = input.objectTree ∧
      input'.pip = input.pip ∧ input.token.subject = input'.token.subject ∧
      input.conditionalContext = input'.conditionalContext ∧ input'.policies = policies := by
    subst hinput
    exact ⟨rfl, rfl, rfl, rfl, rfl⟩
  rw [Checked.grantAt, Bool.and_eq_true] at hg ⊢
  refine ⟨hbase.grantAt hk hg.1, ?_⟩
  have hrules := hg.2
  unfold Checked.rulesAt at hrules ⊢
  rw [all_eq_true] at hrules ⊢
  intro dacl hdacl
  have hmem := c.mem_applicableDacls c' hsubject hcontext (hpolicies ▸ hp) hdacl
  have hk' : k < (forestOf input'.objectTree).size := htree ▸ hk
  refine ruleGrants_compare (R := fun x y => x = true → y = true)
    (a := input'.caapInput sd c'.base) rfl htree hk'
    (fun q _ => ⟨c.rule_resolved hpip, c'.rule_resolved hpip.symm⟩)
    (fun q r r' _ => (hrule q).grantAt hk) ?_ (hrules dacl hmem)
  refine c'.privilegeGranted_of c ?_ (hbase.grantAt (forestOf_size_pos _))
  rw [hbase.privilegeAt c.resolved c'.resolved]
  exact id

/-- **Constraints grant nothing new.** Take a successful check. Restricting SIDs or device groups
for a token that has neither, a confinement SID for a token that is not confined, and further rules
for the policies the descriptor names leave a check that is granted no more, in any combination.
And if the token is confined, it is granted no more than its confining SIDs are. -/
theorem accessCheckCore_constraints_narrow (input : AccessCheckCoreInput)
    {out : AccessCheckCoreState} (hout : accessCheckCore input = .ok out) :
    (∀ restricted confinement policies constrained,
      (input.token.restricted.isActive = false ∨ restricted = input.token.restricted) →
      (input.token.confinement.activeSid = none ∨ confinement = input.token.confinement) →
      (∀ sd metadata, input.sd = some sd → extractSaclMetadata sd = .ok metadata →
        ∀ sid ∈ metadata.policySids,
          PolicyExtends (lookupPolicy input.policies sid) (lookupPolicy policies sid)) →
      accessCheckCore
        { input with token := { input.token with restricted, confinement }, policies } =
          .ok constrained →
      constrained.grants ⊆ out.grants) ∧
    ∀ sd confinementSid, input.sd = some sd →
      input.token.confinement.activeSid = some confinementSid →
      ∃ ev, input.confinementWalk sd confinementSid = .ok ev ∧ out.grants ⊆ ev.grants := by
  obtain ⟨sd, hsd, ⟨c⟩⟩ := nonempty_checked hout
  constructor
  · intro restricted confinement policies constrained hr hc hp hconstrained
    obtain ⟨sd', hsd', ⟨c'⟩⟩ := nonempty_checked hconstrained
    cases hsd.symm.trans hsd'
    exact c'.presents.subset c.presents fun i k hk hg =>
      c.grantAt_of_constrained c' rfl hr hc (hp sd _ hsd c.metadata_eq) hk hg
  · intro sd' confinementSid hsd' hactive
    cases hsd.symm.trans hsd'
    exact c.confined hactive

end Check

/-! ## Where a constraint grants more -/

attribute [local instance] Sample.asciiCase

namespace Sample

open Bytes

/-- An entry that grants a mask where the device is a member of a group. -/
def allowOnDevice (mask : Mask) (sid group : Sid) : Bytes :=
  let condition := [0x61, 0x72, 0x74, 0x78, 0x51] ++
    ofU32 (BitVec.ofNat 32 group.bytes.length) ++ group.bytes ++ [0x8a, 0, 0]
  [accessAllowedCallbackAceType, 0#8] ++
    ofU16 (BitVec.ofNat 16 (8 + sid.bytes.length + condition.length)) ++ ofU32 mask ++
    sid.bytes ++ condition

/-- The system and everyone may read. -/
def sharedSd : SecurityDescriptor :=
  descriptor Sid.administrators none (some [allow 1#32 Sid.system, allow 1#32 Sid.everyone])
    (by decide)

/-- The system may read, and everyone on a device of the administrators. -/
def deviceSd : SecurityDescriptor :=
  descriptor Sid.administrators none
    (some [allow 1#32 Sid.system, allowOnDevice 1#32 Sid.everyone Sid.administrators]) (by decide)

/-- The system and everyone may read, under the policy of a SID. -/
def scopedSd : SecurityDescriptor :=
  descriptor Sid.administrators
    (some [basicAce systemScopedPolicyIdAceType 0#8 0#32 Sid.creatorGroup])
    (some [allow 1#32 Sid.system, allow 1#32 Sid.everyone]) (by decide)

/-- The policy of that SID, under which everyone may read. -/
def readPolicy : CaapPolicyEntry where
  sid := Sid.creatorGroup
  policy := ⟨[⟨none, acl [allow 1#32 Sid.everyone], none, none, none⟩]⟩

/-- A token of a user with restricting SIDs and device groups. -/
def restrictedToken (user : Sid) (sids deviceGroups : List Sid) : AccessCheckToken :=
  { token user with
    restricted :=
      { restrictedSids := sids.map fun sid => ⟨sid, seGroupEnabled⟩
        restrictedDeviceGroups := deviceGroups.map fun sid => ⟨sid, seGroupEnabled⟩
        writeRestricted := false } }

/-- A check grants something that another does not. -/
def Adds (free constrained : AccessCheckCoreInput) : Prop :=
  ∃ out out', accessCheckCore free = .ok out ∧ accessCheckCore constrained = .ok out' ∧
    ¬ out'.grants ⊆ out.grants

theorem adds_of_granted {free constrained : AccessCheckCoreInput}
    (h : (accessCheckCore free).toOption.map (·.granted) = some 0#32)
    (h' : (accessCheckCore constrained).toOption.map (·.granted) = some 1#32) :
    Adds free constrained := by
  obtain ⟨out, hx, hzero⟩ := exists_of_map h
  obtain ⟨out', hy, hone⟩ := exists_of_map h'
  exact ⟨out, out', hx, hy, Grants.not_subset hone hzero (by decide)⟩

end Sample

open Sample in
/-- A further restricting SID, restricting SIDs for a token restricted by device groups, a further
restricting device group and a newly installed policy can each grant a right. -/
theorem accessCheckCore_constraint_adds :
    Adds
      { check with
        sd := some sharedSd
        token := restrictedToken Sid.system [Sid.administrators] [] }
      { check with
        sd := some sharedSd
        token := restrictedToken Sid.system [Sid.administrators, Sid.everyone] [] } ∧
    Adds
      { check with
        sd := some sharedSd
        token := restrictedToken Sid.system [] [Sid.administrators] }
      { check with
        sd := some sharedSd
        token := restrictedToken Sid.system [Sid.everyone] [Sid.administrators] } ∧
    Adds
      { check with sd := some deviceSd, token := restrictedToken Sid.system [Sid.everyone] [] }
      { check with
        sd := some deviceSd
        token := restrictedToken Sid.system [Sid.everyone] [Sid.administrators] } ∧
    Adds { check with sd := some scopedSd, token := token Sid.everyone }
      { check with sd := some scopedSd, token := token Sid.everyone, policies := [readPolicy] } :=
  ⟨adds_of_granted (by decide) (by decide), adds_of_granted (by decide) (by decide),
    adds_of_granted (by decide) (by decide), adds_of_granted (by decide) (by decide)⟩

namespace Sample

/-- The system, confined to everyone, reads under an installed policy. -/
def confinedCheck : AccessCheckCoreInput :=
  { check with
    sd := some scopedSd
    token := { token Sid.system with confinement := ⟨some Sid.everyone, [], false⟩ }
    policies := [readPolicy] }

/-- The same policy with a second rule, under which nobody may do anything. -/
def extendedPolicy : CaapPolicyEntry where
  sid := Sid.creatorGroup
  policy := ⟨readPolicy.policy.rules ++ [⟨none, acl [], none, none, none⟩]⟩

/-- The confined check, restricted to everyone and under the extended policy. -/
def constrainedCheck : AccessCheckCoreInput :=
  { confinedCheck with
    token.restricted := (restrictedToken Sid.system [Sid.everyone] []).restricted
    policies := [extendedPolicy] }

end Sample

open Sample in
/-- The confined check before and after the further constraints. -/
theorem accessCheckCore_constraints_narrow_sample :
    ∃ out constrained ev,
      accessCheckCore confinedCheck = .ok out ∧
      accessCheckCore constrainedCheck = .ok constrained ∧
      confinedCheck.confinementWalk scopedSd Sid.everyone = .ok ev ∧
      constrained.grants ⊆ out.grants ∧ out.grants ⊆ ev.grants := by
  obtain ⟨out, hout⟩ := exists_of_isOk (x := accessCheckCore confinedCheck) (by decide +kernel)
  obtain ⟨constrained, hconstrained⟩ := exists_of_isOk (x := accessCheckCore constrainedCheck)
    (by decide +kernel)
  obtain ⟨hnarrow, hconfined⟩ := accessCheckCore_constraints_narrow confinedCheck hout
  obtain ⟨ev, hev, hsub⟩ := hconfined scopedSd Sid.everyone rfl rfl
  refine ⟨out, constrained, ev, hout, hconstrained, hev, ?_, hsub⟩
  refine hnarrow _ _ _ constrained (.inl rfl) (.inr rfl) ?_ hconstrained
  intro sd metadata hsd hmetadata sid hsid
  cases hsd
  have hnamed : (extractSaclMetadata scopedSd).toOption.map (·.policySids) =
      some [Sid.creatorGroup] := by decide +kernel
  rw [hmetadata] at hnamed
  have hsids : metadata.policySids = [Sid.creatorGroup] := Option.some.inj hnamed
  rw [hsids, mem_singleton] at hsid
  subst hsid
  exact fun rule hrule => mem_append_left _ hrule

end Pkm.Kacs
