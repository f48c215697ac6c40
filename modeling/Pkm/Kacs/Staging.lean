import Pkm.Kacs.Check
/-!
# Policies as sets of rules, and staging

A narrowing by central policies meets the base grant with every applicable rule,
so it reads the policies as sets: neither the order nor the number of their rules,
nor that of the policies an object names, changes a grant. Where no applicable
rule stages anything, the staged grant is the effective one, the staged audit
walks the same lists against the same grant, and the check reports no mismatch.
-/

namespace Pkm.Kacs

open List Outcome

/-- The same check with other policies named and installed. -/
def CaapEvaluationInput.withPolicies (self : CaapEvaluationInput) (policySids : List Sid)
    (policies : List CaapPolicyEntry) : CaapEvaluationInput :=
  { self with base := { self.base with policySids }, policies }

/-- The policies are those of the check with their rules, and the names on the object, in another
order and number. -/
structure Rearranged (input : CaapEvaluationInput) (policySids : List Sid)
    (policies : List CaapPolicyEntry) : Prop where
  sids : ∀ sid, sid ∈ policySids ↔ sid ∈ input.base.policySids
  rules : ∀ sid ∈ policySids,
    Option.Rel (fun policy policy' => ∀ rule, rule ∈ policy.rules ↔ rule ∈ policy'.rules)
      (lookupPolicy policies sid) (lookupPolicy input.policies sid)

section Sets

variable [CharCase] {input : CaapEvaluationInput} {policySids : List Sid}
  {policies : List CaapPolicyEntry} (h : Rearranged input policySids policies)

include h

/-- A rearranged policy contributes the same rules. -/
theorem Rearranged.mem_policyRules {sid : Sid} (hsid : sid ∈ policySids) (rule : CaapRule) :
    rule ∈ policyRules (input.withPolicies policySids policies) sid ↔
      rule ∈ policyRules input sid := by
  have hrules := h.rules sid hsid
  have hlookup : lookupPolicy (input.withPolicies policySids policies).policies sid =
      lookupPolicy policies sid := rfl
  unfold policyRules
  rw [hlookup]
  generalize lookupPolicy policies sid = policy, lookupPolicy input.policies sid = policy'
    at hrules ⊢
  cases hrules with
  | none => exact Iff.rfl
  | some hsame =>
    rw [mem_filter, mem_filter, hsame]
    exact Iff.rfl

theorem Rearranged.mem_applicableRules (rule : CaapRule) :
    rule ∈ applicableRules (input.withPolicies policySids policies) ↔
      rule ∈ applicableRules input := by
  unfold applicableRules
  rw [mem_flatMap, mem_flatMap]
  constructor
  · rintro ⟨sid, hsid, hrule⟩
    exact ⟨sid, (h.sids sid).mp hsid, (h.mem_policyRules hsid rule).mp hrule⟩
  · rintro ⟨sid, hsid, hrule⟩
    have hsid' : sid ∈ policySids := (h.sids sid).mpr hsid
    exact ⟨sid, hsid', (h.mem_policyRules hsid' rule).mpr hrule⟩

/-- **A narrowing reads the policies as sets of rules.** -/
theorem Rearranged.evaluateCaap_eq :
    (evaluateCaap (input.withPolicies policySids policies)).map
        (fun state => (state.grants, state.stagedGrants)) =
      (evaluateCaap input).map fun state => (state.grants, state.stagedGrants) := by
  have hbase : cloneBaseObjectGrants (input.withPolicies policySids policies).base
      (input.withPolicies policySids policies).objectTree =
      cloneBaseObjectGrants input.base input.objectTree := rfl
  cases hnodes : cloneBaseObjectGrants input.base input.objectTree with
  | error e =>
    -- the base grant does not fit the tree, with any policies
    unfold evaluateCaap
    rw [hbase, hnodes]
    rfl
  | ok nodes =>
    obtain ⟨state, hstate, hn⟩ := evaluateCaap_narrowed hnodes
    obtain ⟨state', hstate', hn'⟩ := evaluateCaap_narrowed (hbase.trans hnodes)
    have hmem : ∀ (f : CaapRule → Grants) (g : Grants),
        g ∈ (applicableRules (input.withPolicies policySids policies)).map f ↔
          g ∈ (applicableRules input).map f := by
      intro f g
      simp [h.mem_applicableRules]
    have hgrants : state'.grants = state.grants := by
      rw [hn.grants, hn'.grants]
      exact Meet.foldl_congr_mem (hmem (effectiveGrants input)) _
    have hstaged : state'.stagedGrants = state.stagedGrants := by
      rw [hn.staged, hn'.staged]
      exact Meet.foldl_congr_mem (hmem (stagedGrants input)) _
    rw [hstate, hstate']
    show Except.ok (state'.grants, state'.stagedGrants) = Except.ok (state.grants, _)
    rw [hgrants, hstaged]

end Sets

/-! ## Nothing staged -/

theorem objectGrantsDiffer_self (nodes : Option (List Mask)) :
    objectGrantsDiffer nodes nodes = false := by
  cases nodes with
  | none => rfl
  | some l =>
    unfold objectGrantsDiffer
    simp only [ne_eq, not_true_eq_false, decide_false, Bool.false_or, any_eq_false]
    intro pair hpair
    have hsame : pair.1 = pair.2 := by
      obtain ⟨k, hk, rfl⟩ := mem_iff_getElem.mp hpair
      rw [getElem_zip]
    simpa using hsame

section Unstaged

variable [CharCase] {progress progress' : AuditProgress} {diagnostics : List CaapDiagnosticEvent}
  {contributions : List CaapSaclContribution} {sd : SecurityDescriptor}

/-- No applicable rule of a policy the object names carries a staged list. -/
def Unstaged (input : CaapEvaluationInput) : Prop :=
  ∀ sid ∈ input.base.policySids, ∀ policy, lookupPolicy input.policies sid = some policy →
    ∀ rule ∈ policy.rules, ruleApplies input rule.appliesTo →
      rule.stagedDacl = none ∧ rule.stagedSacl = none

/-- The recovery rule stages nothing either. -/
theorem Unstaged.applicableRules {input : CaapEvaluationInput} (h : Unstaged input)
    {rule : CaapRule} (hrule : rule ∈ applicableRules input) :
    rule.stagedDacl = none ∧ rule.stagedSacl = none := by
  obtain ⟨sid, hsid, hrule⟩ := mem_flatMap.mp hrule
  unfold policyRules at hrule
  cases hlookup : lookupPolicy input.policies sid with
  | some policy =>
    rw [hlookup] at hrule
    obtain ⟨hmem, happ⟩ := mem_filter.mp hrule
    exact h sid hsid policy hlookup rule hmem happ
  | none =>
    rw [hlookup] at hrule
    obtain rfl := mem_singleton.mp hrule
    exact ⟨rfl, rfl⟩

/-- **With nothing staged both phases are one**: the grants, and the audit lists. -/
theorem Unstaged.evaluateCaap {input : CaapEvaluationInput} {state : CaapEvaluationState}
    (h : Unstaged input) (hstate : evaluateCaap input = .ok state) :
    state.stagedGrants = state.grants ∧
      state.stagedSacls = state.effectiveSacls.map CaapSaclContribution.restage := by
  obtain ⟨nodes, hnodes, -⟩ := of_bind hstate
  obtain ⟨state', hstate', hn⟩ := evaluateCaap_narrowed hnodes
  cases hstate.symm.trans hstate'
  constructor
  · have hsame : (Kacs.applicableRules input).map (stagedGrants input) =
        (Kacs.applicableRules input).map (effectiveGrants input) := by
      refine map_congr_left fun rule hrule => ?_
      unfold stagedGrants
      rw [(h.applicableRules hrule).1]
      rfl
    rw [hn.grants, hn.staged, hsame]
    rfl
  · obtain ⟨added, heffective, hstaged⟩ := hn.sacls fun rule hrule => (h.applicableRules hrule).2
    rw [heffective, hstaged]
    rfl

/-! ### The audit of a phase -/

variable {input : SaclInput} {caap : CaapEvaluationState} {objectResultsDiffer : Bool}

/-- What a list adds to the audit does not depend on its phase. -/
theorem evaluateCaapSaclContribution_restage (h : progress'.sacl = progress.sacl)
    (contribution : CaapSaclContribution) :
    (evaluateCaapSaclContribution input caap objectResultsDiffer progress'
        contribution.restage).sacl =
      (evaluateCaapSaclContribution input caap objectResultsDiffer progress contribution).sacl := by
  have hlist : contribution.restage.sacl = contribution.sacl := rfl
  unfold evaluateCaapSaclContribution
  rw [hlist]
  cases Acl.parse contribution.sacl with
  | error e => exact h
  | ok acl =>
    simp only
    cases evaluateSacl input acl with
    | error e => exact h
    | ok state =>
      rw [h]

theorem foldl_contribution_restage (contributions : List CaapSaclContribution)
    (h : progress'.sacl = progress.sacl) :
    ((contributions.map CaapSaclContribution.restage).foldl
        (evaluateCaapSaclContribution input caap objectResultsDiffer) progress').sacl =
      (contributions.foldl (evaluateCaapSaclContribution input caap objectResultsDiffer)
        progress).sacl := by
  induction contributions generalizing progress progress' with
  | nil => exact h
  | cons contribution contributions ih =>
    exact ih (evaluateCaapSaclContribution_restage h contribution)

/-- The walk of the descriptor's own SACL. -/
def evaluateOwnSacl (input : SaclInput) (sd : SecurityDescriptor) : KacsResult EvaluateSaclState :=
  match sd.sacl with
  | some sacl => evaluateSacl input sacl
  | none => .ok EvaluateSaclState.empty

/-- The descriptor's own list is walked first. -/
theorem evaluateAudit_eq_ok
    (h : evaluateAudit input sd caap objectResultsDiffer contributions diagnostics = .ok progress) :
    ∃ own, evaluateOwnSacl input sd = .ok own ∧
      progress = contributions.foldl
        (evaluateCaapSaclContribution input caap objectResultsDiffer)
        { sacl := own, diagnostics } := by
  unfold evaluateAudit at h
  unfold evaluateOwnSacl
  cases hsacl : sd.sacl with
  | none =>
    rw [hsacl] at h
    exact ⟨_, rfl, (Except.ok.inj h).symm⟩
  | some sacl =>
    rw [hsacl] at h
    obtain ⟨own, hown, h⟩ := of_bind h
    exact ⟨own, hown, (Except.ok.inj h).symm⟩

/-- **The restaged lists lead to the same audit.** -/
theorem evaluateAudit_restage {diagnostics' : List CaapDiagnosticEvent}
    (h : evaluateAudit input sd caap objectResultsDiffer contributions diagnostics = .ok progress)
    (h' : evaluateAudit input sd caap objectResultsDiffer
      (contributions.map CaapSaclContribution.restage) diagnostics' = .ok progress') :
    progress'.sacl = progress.sacl := by
  obtain ⟨own, hown, rfl⟩ := evaluateAudit_eq_ok h
  obtain ⟨own', hown', rfl⟩ := evaluateAudit_eq_ok h'
  cases hown.symm.trans hown'
  exact foldl_contribution_restage contributions rfl

/-! ### The diagnostics of a list -/

/-- No diagnostic reports a mismatch. -/
def NoMismatch (diagnostics : List CaapDiagnosticEvent) : Prop :=
  ∀ event ∈ diagnostics, event.kind ≠ .stagingMismatch

/-- A list is reported for an error only. -/
theorem noMismatch_contribution (h : NoMismatch progress.diagnostics)
    (contribution : CaapSaclContribution) :
    NoMismatch (evaluateCaapSaclContribution input caap objectResultsDiffer progress
      contribution).diagnostics := by
  have hreport : ∀ event : CaapDiagnosticEvent, event.kind = .saclError →
      NoMismatch (progress.diagnostics ++ [event]) := fun event hkind =>
    forall_mem_append.mpr ⟨h, forall_mem_singleton.mpr (by simp [hkind])⟩
  unfold evaluateCaapSaclContribution
  cases Acl.parse contribution.sacl with
  | error e => exact hreport _ rfl
  | ok acl =>
    simp only
    cases evaluateSacl input acl with
    | error e => exact hreport _ rfl
    | ok state => exact h

theorem noMismatch_evaluateAudit (hno : NoMismatch diagnostics)
    (h : evaluateAudit input sd caap objectResultsDiffer contributions diagnostics =
      .ok progress) : NoMismatch progress.diagnostics := by
  obtain ⟨own, -, rfl⟩ := evaluateAudit_eq_ok h
  exact List.foldlRecOn (motive := fun p : AuditProgress => NoMismatch p.diagnostics)
    contributions _ hno fun _ h contribution _ => noMismatch_contribution h contribution

/-- **The staged audit of restaged lists differs in nothing.** -/
theorem evaluateStagedAudit_restage {effective : AuditProgress} {differs : Bool}
    (hsacls : caap.stagedSacls = caap.effectiveSacls.map CaapSaclContribution.restage)
    (heffective : evaluateAudit input sd caap objectResultsDiffer caap.effectiveSacls [] =
      .ok effective) (h : evaluateStagedAudit input sd caap objectResultsDiffer effective =
      .ok (differs, diagnostics)) : differs = false ∧ NoMismatch diagnostics := by
  have hno : NoMismatch effective.diagnostics :=
    noMismatch_evaluateAudit (fun _ hevent => by cases hevent) heffective
  unfold evaluateStagedAudit at h
  split at h
  · cases h
    exact ⟨rfl, hno⟩
  · obtain ⟨staged, hstaged, h⟩ := of_bind h
    cases h
    have hno' := noMismatch_evaluateAudit hno hstaged
    rw [hsacls] at hstaged
    exact ⟨by simp [evaluateAudit_restage heffective hstaged], hno'⟩

/-- **A check with nothing staged reports no mismatch.** -/
theorem Unstaged.accessCheckCore {input : AccessCheckCoreInput}
    {base : EvaluateSecurityDescriptorState} {out : AccessCheckCoreState}
    (hsd : input.sd = some sd)
    (hbase : evaluateSecurityDescriptor (input.baseInput sd) = .ok base)
    (hunstaged : Unstaged (input.caapInput sd base)) (h : accessCheckCore input = .ok out) :
    out.stagingMismatch = false ∧ NoMismatch out.caapDiagnosticEvents := by
  obtain ⟨-, h⟩ := of_guard h
  rw [hsd] at h
  obtain ⟨base', hbase', h⟩ := of_bind h
  cases hbase.symm.trans hbase'
  obtain ⟨caap, hcaap, h⟩ := of_bind h
  obtain ⟨hgrants, hsacls⟩ := hunstaged.evaluateCaap hcaap
  have hscalar : caap.stagedGranted = caap.granted := congrArg Grants.scalar hgrants
  have hnodes : caap.stagedObjectGrantedList = caap.objectGrantedList :=
    congrArg Grants.nodes hgrants
  cases howner : sd.owner with
  | none => simp [howner] at h
  | some owner =>
    simp only [howner, hscalar, hnodes, objectGrantsDiffer_self] at h
    obtain ⟨effective, heffective, h⟩ := of_bind h
    obtain ⟨⟨differs, diagnostics⟩, hstaged, h⟩ := of_bind h
    obtain ⟨rfl, hno⟩ := evaluateStagedAudit_restage hsacls heffective hstaged
    cases h
    simpa using hno

/-- **Policies are order-free and consistent across stages.** The grants of both phases are those
of the policies as sets; where no applicable rule stages anything the two phases grant the same,
and the check reports neither a mismatch nor a diagnostic of one. -/
theorem evaluateCaap_sets_and_stages :
    (∀ (input : CaapEvaluationInput) (policySids : List Sid) (policies : List CaapPolicyEntry),
      Rearranged input policySids policies →
      (evaluateCaap (input.withPolicies policySids policies)).map
          (fun state => (state.grants, state.stagedGrants)) =
        (evaluateCaap input).map fun state => (state.grants, state.stagedGrants)) ∧
    (∀ (input : CaapEvaluationInput) (state : CaapEvaluationState),
      Unstaged input → evaluateCaap input = .ok state → state.stagedGrants = state.grants) ∧
    (∀ (input : AccessCheckCoreInput) (sd : SecurityDescriptor)
      (base : EvaluateSecurityDescriptorState) (out : AccessCheckCoreState),
      input.sd = some sd → evaluateSecurityDescriptor (input.baseInput sd) = .ok base →
      Unstaged (input.caapInput sd base) → accessCheckCore input = .ok out →
      out.stagingMismatch = false ∧
        ∀ event ∈ out.caapDiagnosticEvents, event.kind ≠ .stagingMismatch) := by
  refine ⟨fun input policySids policies h => h.evaluateCaap_eq, ?_, ?_⟩
  · intro input state hunstaged hstate
    exact (hunstaged.evaluateCaap hstate).1
  · intro input sd base out hsd hbase hunstaged hout
    exact hunstaged.accessCheckCore hsd hbase hout

end Unstaged

attribute [local instance] Sample.asciiCase

namespace Sample

/-- An entry that audits the system's successful reads. -/
def auditRead : Bytes := basicAce systemAuditAceType successfulAccessAceFlag 1#32 Sid.system

/-- The system may read, audited, under the policy of a SID. -/
def auditedSd : SecurityDescriptor :=
  descriptor Sid.administrators
    (some [basicAce systemScopedPolicyIdAceType 0#8 0#32 Sid.creatorGroup, auditRead])
    (some [allow 1#32 Sid.system]) (by decide)

/-- The system may read, audited once more. -/
def readRule : CaapRule where
  appliesTo := none
  effectiveDacl := acl [allow 1#32 Sid.system]
  effectiveSacl := some (acl [auditRead])
  stagedDacl := none
  stagedSacl := none

/-- The system may do anything. -/
def systemRule : CaapRule where
  appliesTo := none
  effectiveDacl := acl [allow genericAll Sid.system]
  effectiveSacl := none
  stagedDacl := none
  stagedSacl := none

/-- The system reads under both rules. -/
def auditedCheck : AccessCheckCoreInput :=
  { check with
    sd := some auditedSd
    policies := [⟨Sid.creatorGroup, ⟨[readRule, systemRule]⟩⟩] }

end Sample

open Sample in
/-- An audited read under two rules, and the same with the policy named twice and its rules
exchanged and repeated. -/
theorem auditedCheck_sets_and_stages :
    ∃ base out,
      evaluateSecurityDescriptor (auditedCheck.baseInput auditedSd) = .ok base ∧
      accessCheckCore auditedCheck = .ok out ∧ out.auditEvents.length = 2 ∧
      (evaluateCaap ((auditedCheck.caapInput auditedSd base).withPolicies
          [Sid.creatorGroup, Sid.creatorGroup]
          [⟨Sid.creatorGroup, ⟨[systemRule, readRule, systemRule]⟩⟩])).map
          (fun state => (state.grants, state.stagedGrants)) =
        (evaluateCaap (auditedCheck.caapInput auditedSd base)).map
          (fun state => (state.grants, state.stagedGrants)) ∧
      out.stagingMismatch = false ∧
      ∀ event ∈ out.caapDiagnosticEvents, event.kind ≠ .stagingMismatch := by
  obtain ⟨base, hbase, hsids⟩ := exists_of_map (f := (·.policySids)) (c := [Sid.creatorGroup])
    (x := evaluateSecurityDescriptor (auditedCheck.baseInput auditedSd)) (by decide +kernel)
  obtain ⟨out, hout, haudited⟩ := exists_of_map (f := (·.auditEvents.length)) (c := 2)
    (x := accessCheckCore auditedCheck) (by decide +kernel)
  obtain ⟨hsets, -, hstages⟩ := evaluateCaap_sets_and_stages
  refine ⟨base, out, hbase, hout, haudited, hsets _ _ _ ⟨?_, ?_⟩, hstages _ _ _ _ rfl hbase ?_ hout⟩
  · intro sid
    show _ ↔ sid ∈ base.policySids
    rw [hsids]
    simp
  · intro sid hsid
    obtain rfl : sid = Sid.creatorGroup := by simpa using hsid
    refine .some fun rule => ?_
    simp only [mem_cons, not_mem_nil, or_false]
    tauto
  · intro sid hsid policy hpolicy rule hrule _
    obtain rfl : sid = Sid.creatorGroup := by
      have hsid' : sid ∈ base.policySids := hsid
      simpa [hsids] using hsid'
    obtain rfl : policy = ⟨[readRule, systemRule]⟩ := (Option.some.inj hpolicy).symm
    obtain rfl | rfl : rule = readRule ∨ rule = systemRule := by simpa using hrule
    · exact ⟨rfl, rfl⟩
    · exact ⟨rfl, rfl⟩

end Pkm.Kacs
