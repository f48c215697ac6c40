import Pkm.Kacs.Check
/-!
# The descriptor of a rule

A rule is evaluated on a descriptor written for it: the object's own, with the rule's DACL and
without the entries that name policies. What is written parses back to exactly that, so a rule sees
the object's owner, labels and attributes, and names no policy of its own.
-/

namespace Pkm.Kacs

open Bytes Outcome

/-! ## What a SACL says without its policies -/

section Metadata

variable [CharCase]

/-- The attributes alone. -/
def SaclMetadata.withoutPolicies (self : SaclMetadata) : SaclMetadata :=
  { self with policySids := [] }

variable {ace : Ace}

/-- An entry that is kept adds to the attributes alone as it adds to all. -/
theorem addSaclMetadata_kept (h : keptInRule ace = true) (state : SaclMetadata) :
    addSaclMetadata state.withoutPolicies ace
      = (addSaclMetadata state ace).map SaclMetadata.withoutPolicies := by
  have hpolicy : ¬ ace.aceType = systemScopedPolicyIdAceType := of_decide_eq_true h
  simp only [addSaclMetadata, if_neg hpolicy]
  by_cases happ : applies ace = true
  · rw [if_neg (not_not.mpr happ), if_neg (not_not.mpr happ)]
    by_cases hattr : ace.aceType = systemResourceAttributeAceType
    · rw [if_pos hattr, if_pos hattr]
      cases ace.kind with
      | resourceAttribute mask sid data =>
        dsimp only
        cases parseClaimAttributeEntry data with
        | error e => rfl
        | ok attr =>
          rw [ok_bind, ok_bind, apply_ite (Except.map SaclMetadata.withoutPolicies)]
          rfl
      | _ => rfl
    · rw [if_neg hattr, if_neg hattr]
      rfl
  · rw [if_pos happ, if_pos happ]
    rfl

/-- An entry that is left out adds no attribute. -/
theorem addSaclMetadata_left_out (h : keptInRule ace = false) (state : SaclMetadata) :
    ∃ state', addSaclMetadata state ace = .ok state' ∧
      state'.withoutPolicies = state.withoutPolicies := by
  have hpolicy : ace.aceType = systemScopedPolicyIdAceType := by simpa [keptInRule] using h
  have hattr : ¬ systemScopedPolicyIdAceType = systemResourceAttributeAceType := by decide
  simp only [addSaclMetadata, hpolicy, if_true]
  by_cases happ : applies ace = true
  · rw [if_neg (not_not.mpr happ)]
    cases ace.kind with
    | _ => exact ⟨_, rfl, rfl⟩
  · rw [if_pos happ]
    exact ⟨_, rfl, rfl⟩

/-- **Without the policies the attributes are the same**, and an entry that cannot be read is found
as before. -/
theorem foldlM_addSaclMetadata_kept (entries : List Ace) (state : SaclMetadata) :
    (entries.filter keptInRule).foldlM addSaclMetadata state.withoutPolicies
      = (entries.foldlM addSaclMetadata state).map SaclMetadata.withoutPolicies := by
  induction entries generalizing state with
  | nil => rfl
  | cons ace rest ih =>
    rw [List.filter_cons, List.foldlM_cons]
    cases hkept : keptInRule ace with
    | true =>
      rw [if_pos rfl, List.foldlM_cons, addSaclMetadata_kept hkept]
      cases addSaclMetadata state ace with
      | error e => rfl
      | ok state' => exact ih state'
    | false =>
      obtain ⟨state', hok, hsame⟩ := addSaclMetadata_left_out hkept state
      rw [if_neg (by simp), hok, ok_bind, ← ih state', hsame]

/-- What a descriptor says with the same entries, those that name policies apart. -/
theorem extractSaclMetadata_kept {sd base : SecurityDescriptor}
    (h : sd.sacl.map Acl.entries = base.sacl.map fun acl => acl.entries.filter keptInRule) :
    extractSaclMetadata sd = (extractSaclMetadata base).map SaclMetadata.withoutPolicies := by
  unfold extractSaclMetadata
  cases hb : base.sacl with
  | none =>
    rw [hb] at h
    have hs : sd.sacl = none := by simpa using h
    rw [hs]
    rfl
  | some baseSacl =>
    rw [hb] at h
    obtain ⟨sacl, hs, hentries⟩ : ∃ sacl, sd.sacl = some sacl ∧ sacl.entries = _ := by
      simpa using h
    rw [hs]
    simp only [hentries]
    exact foldlM_addSaclMetadata_kept baseSacl.entries ⟨[], []⟩

end Metadata

section Faithful

variable [CharCase]

/-- What an evaluation of a descriptor reads from its SACL. -/
theorem evaluate_metadata {input : EvaluateSecurityDescriptorInput} {sd : SecurityDescriptor}
    {state : EvaluateSecurityDescriptorState} (hsd : input.sd = some sd)
    (h : evaluateSecurityDescriptor input = .ok state) :
    extractSaclMetadata sd = .ok ⟨state.resourceAttributes, state.policySids⟩ := by
  obtain ⟨r, hy⟩ := exists_resolved h
  have hr : r.sd = sd := Option.some.inj (r.sd_eq.symm.trans hsd)
  rw [hy.resourceAttributes, hy.policySids, ← hr]
  exact r.metadata_eq

/-- **The descriptor of a rule is faithful.** For a DACL that parses, what is written parses: with
the owner, the group, the resource-manager byte and the control flags of the object's descriptor, a
DACL announced; with the given DACL; and with the entries of its SACL that name no policy. So a rule
resolves the object's labels and attributes and no policies. -/
theorem buildSyntheticSdBytes_faithful {base : SecurityDescriptor} {daclBytes bytes : Bytes}
    {dacl : Acl} (hdacl : Acl.parse daclBytes = .ok dacl)
    (hbuild : buildSyntheticSdBytes base daclBytes = .ok bytes) :
    ∃ sd, SecurityDescriptor.parse bytes = .ok sd ∧ sd.owner = base.owner ∧
      sd.group = base.group ∧ sd.resourceManagerControl = base.resourceManagerControl ∧
      sd.control = base.control ||| seDaclPresent ∧ sd.dacl = some dacl ∧
      sd.sacl.map Acl.entries = (base.sacl.map fun sacl => sacl.entries.filter fun ace =>
        decide (ace.aceType ≠ systemScopedPolicyIdAceType)) ∧
      resolveMandatoryLabel sd = resolveMandatoryLabel base ∧
      resolveProcessTrustLabel sd = resolveProcessTrustLabel base ∧
      ∀ input state, input.sd = some sd → evaluateSecurityDescriptor input = .ok state →
        state.policySids = [] ∧
          (extractSaclMetadata base).map (·.resourceAttributes) = .ok state.resourceAttributes := by
  obtain rfl := Acl.parse_eq_ok.mp hdacl
  rw [← List.append_nil dacl.bytes] at hbuild
  obtain ⟨sd, hparse, howner, hgroup, hrm, hcontrol, hd, hentries⟩ :=
    parse_buildSyntheticSdBytes hbuild
  obtain ⟨hlabel, htrust⟩ := labels_of_entries hentries
  refine ⟨sd, hparse, howner, hgroup, hrm, hcontrol, hd, hentries, hlabel, htrust, ?_⟩
  intro input state hsd heval
  have hmetadata := evaluate_metadata hsd heval
  rw [extractSaclMetadata_kept hentries] at hmetadata
  cases hbase : extractSaclMetadata base with
  | error e =>
    rw [hbase] at hmetadata
    cases hmetadata
  | ok metadata =>
    rw [hbase] at hmetadata
    injection Except.ok.inj hmetadata with hattributes hpolicies
    exact ⟨hpolicies.symm, congrArg Except.ok hattributes⟩

end Faithful

attribute [local instance] Sample.asciiCase

namespace Sample

/-- A descriptor of the system without a DACL. -/
def noDaclSd : SecurityDescriptor := descriptor Sid.system none none (by decide)

/-- The DACL of a rule: everyone may read. -/
def ruleDacl : Acl := (Acl.parse (acl [allow 1#32 Sid.everyone])).toOption.get (by decide)

end Sample

open Sample in
/-- The object has no DACL and its rule has one. The rule's descriptor announces it, which the
object's does not. -/
theorem noDacl_rule_announces_dacl :
    noDaclSd.control = seSelfRelative ∧
      (do let bytes ← buildSyntheticSdBytes noDaclSd ruleDacl.bytes
          let sd ← SecurityDescriptor.parse bytes
          .ok sd.control : KacsResult (BitVec 16)) = .ok (seSelfRelative ||| seDaclPresent) := by
  decide

namespace Sample

/-- A descriptor of the system of high integrity, with an attribute `a`, under the policy of a
SID. -/
def policedSd : SecurityDescriptor :=
  descriptor Sid.system
    (some [highLabel,
      [systemResourceAttributeAceType, 0, 52, 0, 0, 0, 0, 0] ++ Sid.everyone.bytes ++
        [20, 0, 0, 0, 1, 0, 0, 0, 0, 0, 0, 0, 1, 0, 0, 0, 24, 0, 0, 0, 0x61, 0, 0, 0,
          7, 0, 0, 0, 0, 0, 0, 0],
      basicAce systemScopedPolicyIdAceType 0#8 0#32 Sid.creatorGroup]) none (by decide +kernel)

end Sample

open Sample in
/-- A rule for that object resolves the level and the attribute, and not the policy. -/
theorem policedSd_rule_faithful :
    ∃ bytes sd state, buildSyntheticSdBytes policedSd ruleDacl.bytes = .ok bytes ∧
      SecurityDescriptor.parse bytes = .ok sd ∧ sd.dacl = some ruleDacl ∧
      resolveMandatoryLabel sd = .ok ⟨0x3000#32, systemMandatoryLabelNoWriteUp, true⟩ ∧
      evaluateSecurityDescriptor (check.baseInput sd) = .ok state ∧ state.policySids = [] ∧
      state.resourceAttributes.map (·.name) = [['a']] := by
  have hok : (buildSyntheticSdBytes policedSd ruleDacl.bytes >>= fun bytes =>
      SecurityDescriptor.parse bytes >>= fun sd =>
        evaluateSecurityDescriptor (check.baseInput sd)).isOk = true := by decide +kernel
  have hlevel : resolveMandatoryLabel policedSd =
      .ok ⟨0x3000#32, systemMandatoryLabelNoWriteUp, true⟩ := by decide +kernel
  have hattribute : ((extractSaclMetadata policedSd).map (·.resourceAttributes)).map
      (List.map (·.name)) = .ok [['a']] := by decide +kernel
  obtain ⟨state, hstate⟩ := exists_of_isOk hok
  obtain ⟨bytes, hbuild, hstate⟩ := of_bind hstate
  obtain ⟨sd, hparse, hstate⟩ := of_bind hstate
  obtain ⟨sd', hparse', -, -, -, -, hdacl, -, hlabel, -, hmetadata⟩ :=
    buildSyntheticSdBytes_faithful (Acl.parse_eq_ok.mpr rfl) hbuild
  cases hparse.symm.trans hparse'
  obtain ⟨hpolicies, hattributes⟩ := hmetadata _ state rfl hstate
  rw [hattributes] at hattribute
  exact ⟨bytes, sd, state, hbuild, hparse, hdacl, hlabel.trans hlevel, hstate, hpolicies,
    Except.ok.inj hattribute⟩

end Pkm.Kacs
