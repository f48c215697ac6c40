import Pkm.Kacs.Helpers.Granting
import Pkm.Kacs.Relabel
import Pkm.Kacs.Restriction
/-!
# What restricting a token can add

`restrict` is meant to narrow: a derived token must not be granted what its source
is not. `restrict_narrows` says for which derivations that holds, over every
descriptor whose DACL only grants. A derivation that leaks is shown to by a
descriptor made for it: a `Probe` asks for `READ_CONTROL` and `WRITE_OWNER`, and
neither privileges nor labels decide the two beforehand.
-/

namespace Pkm.Kacs

open Bits List Outcome

/-- A token that evaluations accept. -/
structure AccessCheckToken.Usable (token : AccessCheckToken) : Prop where
  valid : validateAccessCheckTokenInvariants token = .ok ()
  not_identification :
    ¬ (token.tokenType = .impersonation ∧ token.impersonationLevel = .identification)

/-! ## Probes -/

/-- A descriptor with given grants and a request for what it grants. -/
structure Probe where
  granting : Granting
  selfSid : Option Sid
  objectTree : Option ObjectTypeList
  /-- Whether the rights asked for count as writes. -/
  write : Bool

namespace Probe

variable (p : Probe)

def mapping : GenericMapping where
  read := 0#32
  write := maskIf p.write grantedRights
  execute := 0#32
  all := readControl

def input (token : AccessCheckToken) : EvaluateSecurityDescriptorInput where
  sd := some p.granting.sd
  token
  pip := { pipType := 0#32, pipTrust := 0#32 }
  desiredAccess := grantedRights
  mapping := p.mapping
  objectTree := p.objectTree
  conditionalContext := { Sample.context with selfSid := p.selfSid }
  privilegeIntent := 0#32

/-- What a probe asks of its descriptor. -/
def question : DaclQuestion where
  sd := p.granting.sd
  mapping := p.mapping
  validRights := readControl
  relevant := grantedRights
  objectTree := p.objectTree
  selfSid := p.selfSid

/-! ### The entries -/

variable {p} {who : Identity} {i : Fin 32} {k : ℕ}

theorem grantsOnly_sd : p.granting.sd.GrantsOnly := by
  rintro dacl ⟨⟩ ace hace
  obtain ⟨grant, -, rfl⟩ := mem_map.mp hace
  rfl

variable (target : Option Guid)

/-- Where a grant acts. -/
def targetOf : AceTarget := (target.map .object).getD .global

theorem applies_granting (sid : Sid) : applies (Ace.granting target sid) = true := by
  change decide (0#8 &&& inheritOnlyAce = 0#8) = true
  decide

theorem mapBits_grantedRights (mapping : GenericMapping) :
    mapping.mapBits grantedRights = grantedRights := by
  simp only [GenericMapping.mapBits]
  rw [if_neg (by decide), if_neg (by decide), if_neg (by decide), if_neg (by decide)]
  decide

theorem projectObjectTarget_targetFlags :
    projectObjectTarget (Ace.targetFlags target) target = .ok (targetOf target) := by
  cases target with
  | none => rfl
  | some guid => exact if_neg (by decide : aceObjectTypePresent &&& aceObjectTypePresent ≠ 0#32)

theorem projectDaclAce_granting (sid : Sid) (mapping : GenericMapping) :
    projectDaclAce (Ace.granting target sid) mapping = .ok (some
      { polarity := .allow, mask := grantedRights, sid, target := targetOf target
        condition := none }) := by
  have hmask : mapping.mapMask grantedRights = .ok grantedRights := by
    rw [mapping.mapMask_of_noReserved (by decide), mapBits_grantedRights]
  have hpolarity : polarityOf accessAllowedObjectAceType accessDeniedObjectAceType
      (Ace.granting target sid).aceType = some .allow := if_pos rfl
  have hkind : (Ace.granting target sid).kind =
      .object grantedRights (Ace.targetFlags target) target none sid := rfl
  unfold projectDaclAce
  simp only [hkind, hpolarity, hmask, projectObjectTarget_targetFlags, ok_bind]

/-- **An entry acts for whom it names, where it is aimed.** -/
theorem mem_effects (hi : bit grantedRights i = true) {e : Effect} :
    e ∈ p.question.effects who i ↔ ∃ grant ∈ p.granting.grants,
      who.named (some p.granting.owner) p.selfSid grant.2 = true ∧
      ∃ scope, scopeOf p.objectTree (targetOf grant.1) = some scope ∧ e = ⟨true, scope⟩ := by
  have hbit : bit (grantedRights &&& grantedRights) i = true := by rw [bit_and, hi, Bool.and_self]
  change e ∈ p.granting.dacl.entries.filterMap _ ↔ _
  rw [mem_filterMap]
  constructor
  · rintro ⟨ace, hace, he⟩
    obtain ⟨grant, hgrant, rfl⟩ := mem_map.mp hace
    obtain ⟨-, projected, scope, hp, hnamed, -, hscope, rfl⟩ := DaclQuestion.effect_eq_some.mp he
    rw [projectDaclAce_granting] at hp
    cases hp
    exact ⟨grant, hgrant, hnamed, scope, hscope, rfl⟩
  · rintro ⟨grant, hgrant, hnamed, scope, hscope, rfl⟩
    refine ⟨_, mem_map.mpr ⟨grant, hgrant, rfl⟩, DaclQuestion.effect_eq_some.mpr ?_⟩
    exact ⟨applies_granting _ _, _, scope, projectDaclAce_granting _ _ _, hnamed, hbit, hscope, rfl⟩

theorem ownerRightsSuppressed_dacl : ownerRightsSuppressed p.granting.dacl =
    p.granting.grants.any fun grant => decide (grant.2 = Sid.ownerRights) := by
  change (p.granting.grants.map _).any _ = _
  rw [any_map]
  refine congrArg (p.granting.grants.any ·) (funext fun grant => ?_)
  have htype : isAccessAceType accessAllowedObjectAceType = true := by decide
  change (applies (Ace.granting grant.1 grant.2) && decide (some grant.2 = some Sid.ownerRights) &&
    isAccessAceType accessAllowedObjectAceType) = _
  rw [applies_granting, htype, Bool.and_true]
  exact decide_eq_decide.mpr Option.some_inj

/-! ### The evaluation -/

theorem not_system (hi : bit grantedRights i = true) : bit accessSystemSecurity i = false := by
  revert i
  decide

/-- Without the intent to restore, privileges give neither right. -/
theorem bit_seed {token : AccessCheckToken} (hi : bit grantedRights i = true) :
    bit (p.input token).seed i = false := by
  have hrestore : holds (p.input token).effective seRestorePrivilege = false := by
    have hoff : ~~~seRestorePrivilege &&& seRestorePrivilege = 0#64 := by decide
    refine decide_eq_false (not_not.mpr ?_)
    change (if 0#32 &&& restoreIntent = 0#32 then _ &&& ~~~seRestorePrivilege else _) &&& _ = _
    rw [if_pos (by decide), BitVec.and_assoc, hoff, BitVec.and_zero]
  have hread : bit p.mapping.read i = false := bit_zero i
  change bit (seedBits p.mapping (p.input token).effective) i = false
  simp [seedBits, securityBits, backupBits, restoreBits, hrestore, hread,
    not_system hi, Bool.or_self]

section Evaluation

variable [CharCase] {token : AccessCheckToken}

/-- The evaluation of a probe passes every check. -/
def resolved (p : Probe) (u : token.Usable) : Resolved (p.input token) where
  sd := p.granting.sd
  normalized := { requested := grantedRights, mapped := grantedRights, maximumAllowed := false }
  metadata := ⟨[], []⟩
  label := defaultMandatoryLabel
  trustLabel := none
  sd_eq := rfl
  owner_isSome := rfl
  token_valid := u.valid
  not_identification := u.not_identification
  normalized_eq := by
    have hstripped : grantedRights &&& ~~~maximumAllowed = grantedRights := by decide
    have hmask : p.mapping.mapMask grantedRights = .ok grantedRights := by
      rw [p.mapping.mapMask_of_noReserved (by decide), mapBits_grantedRights]
    have hmax : decide (grantedRights &&& maximumAllowed ≠ 0#32) = false := by decide
    have hfree : validateNoReservedBits grantedRights = .ok () := by decide
    change p.mapping.normalizeDesiredAccess grantedRights = _
    simp only [GenericMapping.normalizeDesiredAccess, hfree, hmax, hstripped, hmask, ok_bind]
  metadata_eq := rfl
  label_eq := rfl
  trustLabel_eq := rfl
  trust_applies := by rintro label ⟨⟩

variable {u : token.Usable}

/-- **Nothing is decided before the walk.** -/
theorem bit_decided (hi : bit grantedRights i = true) :
    bit (p.resolved u).initial.decided i = false := by
  have hmic : bit (p.resolved u).mic i = false := by
    change bit (micBits p.mapping _ _ _) i = false
    rw [micBits, bit_maskIf, bit_and, bit_not, bit_or, micAllowed, bit_or, bit_or]
    change (_ && (bit readControl i && !(_ || (bit readControl i || _) || _))) = false
    cases bit readControl i <;> simp
  have htrust : bit (p.resolved u).trust i = false := bit_zero i
  simp [Resolved.initial, hmic, htrust, bit_seed hi, not_system hi]

theorem walkAt_resolved (hi : bit grantedRights i = true) :
    (p.resolved u).walkAt i k = p.question.grants (.caller token.subject) i k :=
  (p.resolved u).walkAt_eq grantsOnly_sd (bit_decided hi)

theorem privilegeAt_resolved (hi : bit grantedRights i = true) :
    (p.resolved u).privilegeAt i = ((p.resolved u).fallback && decide (i = writeOwnerBit)) := by
  have hseed : bit (p.resolved u).initial.granted i = false := by
    simp [Resolved.initial, bit_seed hi]
  rw [Resolved.privilegeAt, hseed, Bool.false_or]

/-- The fallback fires for whom the DACL does not grant `WRITE_OWNER` as a whole. -/
theorem fallback_resolved : (p.resolved u).fallback =
    (token.privileges.privilegeEnabled seTakeOwnershipPrivilege &&
      !p.question.grants (.caller token.subject) writeOwnerBit 0) := by
  have hi : bit grantedRights writeOwnerBit = true := by decide
  have hopen := bit_decided (p := p) (u := u) hi
  simp only [Resolved.initial, bit_or, Bool.or_eq_false_iff] at hopen
  unfold Resolved.fallback
  rw [walkAt_resolved hi, bit_or, hopen.1.2, hopen.2]
  change ((bit grantedRights writeOwnerBit || false) &&
    holds (token.privileges.effectiveAccessCheckMask 0#32) seTakeOwnershipPrivilege && _ && _) = _
  rw [hi, holds_takeOwnership]
  simp

/-! ### What is granted and what is withheld -/

variable (hi : bit grantedRights i = true)

include hi in
/-- What the caller and the restricting SIDs are granted, the token is. A restriction of writes
asks less. -/
theorem grantAt_of_grants (hcaller : p.question.grants (.caller token.subject) i k = true)
    (hmerge : (token.restricted.writeRestricted = true ∧ p.write = false) ∨
      p.question.grants (.restricting token.restricted) i k = true)
    (hconfined : token.confinement.activeSid ≠ none →
      p.question.grants (.confining token.confinement) i k = true) :
    (p.resolved u).grantAt i k = true := by
  refine ((p.resolved u).grantAt_iff grantsOnly_sd).mpr ⟨?_, hconfined⟩
  have hnormal : (p.resolved u).normalAt i k = true := by
    rw [Resolved.normalAt, walkAt_resolved hi, hcaller, Bool.true_or]
  rw [Resolved.mergedAt, hnormal]
  split
  · rw [(p.resolved u).restrictedAt_eq grantsOnly_sd]
    change mergeBit token.restricted.writeRestricted true
      (p.question.grants (.restricting token.restricted) i k)
      (bit (maskIf p.write grantedRights) i) _ = true
    rw [bit_maskIf, hi, Bool.and_true]
    rcases hmerge with ⟨hw, hread⟩ | hr
    · simp [mergeBit, hw, hread]
    · rw [hr]
      cases token.restricted.writeRestricted <;> cases p.write <;> simp [mergeBit]
  · rfl

/-- What the fallback grants, a restricted token keeps. -/
theorem grantAt_of_fallback (hf : (p.resolved u).fallback = true)
    (hconfined : token.confinement.activeSid ≠ none →
      p.question.grants (.confining token.confinement) writeOwnerBit k = true) :
    (p.resolved u).grantAt writeOwnerBit k = true := by
  refine ((p.resolved u).grantAt_iff grantsOnly_sd).mpr ⟨?_, hconfined⟩
  have hpriv := privilegeAt_resolved (p := p) (u := u)
    (show bit grantedRights writeOwnerBit = true by decide)
  rw [hf, decide_eq_true rfl] at hpriv
  rw [Resolved.mergedAt, hpriv]
  split
  · exact Bool.or_true _
  · rw [Resolved.normalAt, hf, decide_eq_true rfl, Bool.and_self, Bool.or_true]

include hi in
/-- What the restricting SIDs are not granted, a restricted token is not. -/
theorem grantAt_of_withheld (hactive : token.restricted.isActive = true)
    (hwrite : token.restricted.writeRestricted = true → p.write = true)
    (hrestricting : p.question.grants (.restricting token.restricted) i k = false)
    (hpriv : (p.resolved u).privilegeAt i = false) :
    (p.resolved u).grantAt i k = false := by
  by_contra hg
  obtain ⟨hmerged, -⟩ := ((p.resolved u).grantAt_iff grantsOnly_sd).mp (Bool.not_eq_false _ ▸ hg)
  rw [Resolved.mergedAt, hpriv, (p.resolved u).restrictedAt_eq grantsOnly_sd] at hmerged
  change (if token.restricted.isActive = true then mergeBit token.restricted.writeRestricted _
    (p.question.grants (.restricting token.restricted) i k)
    (bit (maskIf p.write grantedRights) i) false else _) = true at hmerged
  rw [if_pos hactive, hrestricting, bit_maskIf, hi, Bool.and_true] at hmerged
  cases hw : token.restricted.writeRestricted with
  | false => simp [mergeBit, hw] at hmerged
  | true => simp [mergeBit, hw, hwrite hw] at hmerged

end Evaluation

/-! ### Grants without a tree -/

/-- Some entry names the reader, or the reader is an owner whose implicit rights were not taken
away. -/
def Reads (p : Probe) (who : Identity) : Prop :=
  (∃ grant ∈ p.granting.grants, who.named (some p.granting.owner) p.selfSid grant.2 = true) ∨
  who.present p.granting.owner = true ∧ ∀ grant ∈ p.granting.grants, grant.2 ≠ Sid.ownerRights

theorem start_readControl : (p.question.start who readControlBit).granted = true ↔
    who.present p.granting.owner = true ∧
      ∀ grant ∈ p.granting.grants, grant.2 ≠ Sid.ownerRights := by
  have hbit : bit ((readControl ||| writeDac) &&& readControl) readControlBit = true := by decide
  change (who.present p.granting.owner && !ownerRightsSuppressed p.granting.dacl &&
    bit ((readControl ||| writeDac) &&& readControl) readControlBit) = true ↔ _
  rw [hbit, ownerRightsSuppressed_dacl, Bool.and_true, Bool.and_eq_true, Bool.not_eq_true']
  simp

/-- **Without a tree, reading is being granted `READ_CONTROL`.** -/
theorem grants_iff_reads (htree : p.objectTree = none) :
    p.question.grants who readControlBit 0 = true ↔ p.Reads who := by
  have hi : bit grantedRights readControlBit = true := by decide
  have hforest : forestOf p.question.objectTree = scalarForest := by
    change forestOf p.objectTree = _
    rw [htree]
    rfl
  have hscope : ∀ target, scopeOf p.objectTree target = some .all := by
    intro target
    rw [htree]
    rfl
  by_cases hsome : ∃ grant ∈ p.granting.grants,
      who.named (some p.granting.owner) p.selfSid grant.2 = true
  · obtain ⟨grant, hgrant, hnamed⟩ := hsome
    refine iff_of_true (DaclQuestion.grants_of_reached
      ((mem_effects hi).mpr ⟨grant, hgrant, hnamed, .all, hscope _, rfl⟩) ?_)
      (.inl ⟨grant, hgrant, hnamed⟩)
    rw [hforest]
    rfl
  · have hleaf : p.question.grants who readControlBit 0 =
        (p.question.start who readControlBit).granted := by
      refine DaclQuestion.grants_of_leaf (forestOf_size_pos _) (fun c => ?_) fun e he => ?_
      · rw [hforest]
        exact (Option.some_ne_none 0).symm
      · obtain ⟨grant, hgrant, hnamed, -⟩ := (mem_effects hi).mp he
        exact absurd ⟨grant, hgrant, hnamed⟩ hsome
    rw [hleaf, start_readControl, Reads, or_iff_right hsome]

end Probe

/-! ## Narrowing -/

section Narrows

variable [CharCase] {a b : AccessCheckToken}

/-- **Whatever a descriptor that only grants gives the second token, it gives the first.** -/
def Narrows (a b : AccessCheckToken) : Prop :=
  ∀ input : EvaluateSecurityDescriptorInput, (∀ sd ∈ input.sd, sd.GrantsOnly) →
    ∀ out', evaluateSecurityDescriptor { input with token := b } = .ok out' →
      ∃ out, evaluateSecurityDescriptor { input with token := a } = .ok out ∧
        out'.grants ⊆ out.grants

variable {p : Probe}

/-- One grant too many refutes it. -/
theorem not_narrows {u : a.Usable} {v : b.Usable} {i : Fin 32} {k : ℕ}
    (hk : k < (forestOf p.objectTree).size) (hg : (p.resolved v).grantAt i k = true)
    (hn : (p.resolved u).grantAt i k = false) : ¬ Narrows a b := by
  intro hnarrows
  obtain ⟨out', hout', hy'⟩ := (p.resolved v).evaluate
  have hsd : ∀ sd ∈ (p.input a).sd, sd.GrantsOnly := by
    rintro sd ⟨⟩
    exact Probe.grantsOnly_sd
  obtain ⟨out, hout, hsub⟩ := hnarrows (p.input a) hsd out' hout'
  obtain ⟨st, hst, hy⟩ := (p.resolved u).evaluate
  cases hst.symm.trans hout
  rw [hy'.presents.le_of_subset hy.presents hsub hk hg] at hn
  cases hn

/-! ### Restricting writes only -/

/-- A probe without a tree that the second token reads and the first is kept from. -/
theorem not_narrows_of_reads (p : Probe) (htree : p.objectTree = none) (u : a.Usable)
    (v : b.Usable) (hcaller : p.Reads (.caller b.subject))
    (hmerge : (b.restricted.writeRestricted = true ∧ p.write = false) ∨
      p.Reads (.restricting b.restricted))
    (hconfined : b.confinement.activeSid ≠ none → p.Reads (.confining b.confinement))
    (hactive : a.restricted.isActive = true)
    (hwrite : a.restricted.writeRestricted = true → p.write = true)
    (hrestricting : ¬ p.Reads (.restricting a.restricted)) : ¬ Narrows a b := by
  have hi : bit grantedRights readControlBit = true := by decide
  have hread : ∀ who, p.question.grants who readControlBit 0 = true ↔ p.Reads who := fun _ =>
    Probe.grants_iff_reads htree
  refine not_narrows (p := p) (u := u) (v := v) (i := readControlBit) (forestOf_size_pos _) ?_ ?_
  · refine Probe.grantAt_of_grants hi ((hread _).mpr hcaller) ?_ fun hne =>
      (hread _).mpr (hconfined hne)
    exact hmerge.imp_right (hread _).mpr
  · refine Probe.grantAt_of_withheld hi hactive hwrite ?_ ?_
    · rw [← Bool.not_eq_true, hread]
      exact hrestricting
    · rw [Probe.privilegeAt_resolved hi, show decide (readControlBit = writeOwnerBit) = false by
        decide, Bool.and_false]

omit [CharCase] in
/-- The SIDs that confine, if any do, are not all restricting. -/
theorem Leaks.exists_self (h : Leaks a b) : ∃ self : Option Sid,
    self.any (restrictedContains a.restricted.restrictedSids) = false ∧
      (a.confinement.activeSid ≠ none → self.any (confinementContains a.confinement) = true) := by
  by_cases hne : a.confinement.activeSid = none
  · exact ⟨none, rfl, fun hno => absurd hne hno⟩
  · obtain ⟨sid, hconfines, hfree⟩ := h.escapes hne
    exact ⟨some sid, hfree, fun _ => hconfines⟩

omit [CharCase] in
theorem Identity.named_principalSelf (who : Identity) (owner selfSid : Option Sid) :
    who.named owner selfSid Sid.principalSelf = selfSid.any who.allows := by
  rw [Identity.named, if_neg (by decide), if_pos rfl]

/-- The owner reads its descriptor once only writes are restricted. -/
theorem BecomesWriteRestricted.not_narrows (hw : BecomesWriteRestricted a b)
    (hd : DerivedFrom a b) (hl : Leaks a b) (u : a.Usable) (v : b.Usable) : ¬ Narrows a b := by
  obtain ⟨hfull, hwrites, owner, hpresent, hfree⟩ := hw
  obtain ⟨self, hself, hconfines⟩ := hl.exists_self
  refine not_narrows_of_reads
    { granting := { owner, grants := [(none, Sid.principalSelf)], short := by decide }
      selfSid := self, objectTree := none, write := false }
    rfl u v (.inr ⟨?_, ?_⟩) (.inl ⟨hwrites, rfl⟩)
    (fun hne => .inl ⟨_, mem_singleton.mpr rfl, ?_⟩) hl.restricted (fun hno => ?_) ?_
  · exact (congrFun hd.present owner).trans hpresent
  · intro grant hgrant
    obtain rfl := mem_singleton.mp hgrant
    decide
  · rw [Identity.named_principalSelf]
    exact hd.confinement ▸ hconfines (hd.confinement ▸ hne)
  · rw [hfull] at hno
    cases hno
  · rintro (⟨grant, hgrant, hnamed⟩ | ⟨hno, -⟩)
    · obtain rfl := mem_singleton.mp hgrant
      exact Bool.false_ne_true (hself.symm.trans hnamed)
    · exact Bool.false_ne_true (hfree.symm.trans hno)

/-! ### New restricting SIDs -/

omit [CharCase] in
/-- Nobody reads for an empty set of SIDs. -/
theorem not_reads_of_nil {restricted : RestrictedTokenContext}
    (h : restricted.restrictedSids = []) : ¬ p.Reads (.restricting restricted) := by
  rw [Identity.restricting_of_nil h]
  rintro (⟨grant, -, hnamed⟩ | ⟨hno, -⟩)
  · have hany : ∀ o : Option Sid, o.any (fun _ => false) = false := by
      intro o
      cases o <;> rfl
    rw [Identity.named, hany, hany] at hnamed
    simp at hnamed
  · cases hno

/-- A probe of the caller's own descriptor, with entries that leave its implicit rights. -/
def ownProbe (owner self : Sid) (grants : List (Option Guid × Sid)) (h : grants.length ≤ 3) :
    Probe where
  granting := { owner, grants, short := h }
  selfSid := some self
  objectTree := none
  write := true

section OwnProbe

omit [CharCase]

variable {owner self sid : Sid} {grants : List (Option Guid × Sid)} {h : grants.length ≤ 3}
  {who : Identity}

theorem ownProbe_self (hself : who.allows self = true) (hmem : (none, Sid.principalSelf) ∈ grants) :
    (ownProbe owner self grants h).Reads who := by
  refine .inl ⟨_, hmem, ?_⟩
  exact hself

theorem ownProbe_literal (hl : sid.Literal) (hsid : who.allows sid = true)
    (hmem : (none, sid) ∈ grants) : (ownProbe owner self grants h).Reads who := by
  refine .inl ⟨_, hmem, ?_⟩
  rw [Identity.named, if_neg hl.1, if_neg hl.2]
  exact hsid

theorem ownProbe_owner (hpresent : who.present owner = true)
    (hkeeps : ∀ grant ∈ grants, grant.2 ≠ Sid.ownerRights) :
    (ownProbe owner self grants h).Reads who :=
  .inr ⟨hpresent, hkeeps⟩

/-- Where OWNER RIGHTS and PRINCIPAL SELF stand for themselves, every SID does. -/
theorem named_self (who : Identity) (sid : Sid) :
    who.named (some Sid.ownerRights) (some Sid.principalSelf) sid = who.allows sid := by
  unfold Identity.named
  split_ifs with howner hself
  · rw [howner]
    rfl
  · rw [hself]
    rfl
  · rfl

theorem ownProbe_any (hsid : who.allows sid = true) (hmem : (none, sid) ∈ grants) :
    (ownProbe Sid.ownerRights Sid.principalSelf grants h).Reads who :=
  .inl ⟨_, hmem, (named_self who sid).trans hsid⟩

end OwnProbe

/-- One descriptor names the caller, the restricting SIDs and the confining SIDs. -/
theorem GetsRestrictingSids.not_narrows (hg : GetsRestrictingSids a b)
    (hd : DerivedFrom a b) (hl : Leaks a b) (u : a.Usable) (v : b.Usable) : ¬ Narrows a b := by
  obtain ⟨hnone, hsome, hname⟩ := hg
  obtain ⟨r, hr⟩ : ∃ r, restrictedContains b.restricted.restrictedSids r = true := by
    obtain ⟨entry, hentry⟩ := exists_mem_of_ne_nil _ hsome
    exact ⟨entry.sid, any_eq_true.mpr ⟨entry, hentry, decide_eq_true rfl⟩⟩
  have huser : ownerMatchesIdentity b.subject b.subject.user = true := by
    rw [ownerMatchesIdentity, decide_eq_true rfl, Bool.true_or]
  have hself : Sid.principalSelf ≠ Sid.ownerRights := by decide
  -- the token was granted nothing for lack of restricting SIDs
  have hprobe := fun owner self grants h hcaller hrestricting hconfined =>
    not_narrows_of_reads (ownProbe owner self grants h) rfl u v hcaller (.inr hrestricting)
      hconfined hl.restricted (fun _ => rfl) (not_reads_of_nil hnone)
  by_cases hfree : b.confinement.activeSid = none
  · exact hprobe b.subject.user r [(none, Sid.principalSelf)] (by decide)
      (ownProbe_owner huser (by simpa using hself)) (ownProbe_self hr (by simp))
      fun hne => absurd hfree hne
  obtain ⟨x, hx, -⟩ := hl.escapes (hd.confinement ▸ hfree)
  rw [← hd.confinement] at hx
  rcases hname hfree with ⟨l, hlr, hlit⟩ | ⟨l, hlx, hlit⟩ | ⟨z, hzr, hzx⟩ | ⟨o, hor, ho⟩ | ⟨c, hc⟩
  · exact hprobe b.subject.user x [(none, l), (none, Sid.principalSelf)] (by simp)
      (ownProbe_owner huser (by simpa using ⟨hlit.1, hself⟩))
      (ownProbe_literal hlit hlr (by simp)) fun _ => ownProbe_self hx (by simp)
  · exact hprobe b.subject.user r [(none, l), (none, Sid.principalSelf)] (by simp)
      (ownProbe_owner huser (by simpa using ⟨hlit.1, hself⟩))
      (ownProbe_self hr (by simp)) fun _ => ownProbe_literal hlit hlx (by simp)
  · exact hprobe b.subject.user z [(none, Sid.principalSelf)] (by simp)
      (ownProbe_owner huser (by simpa using hself)) (ownProbe_self hzr (by simp))
      fun _ => ownProbe_self hzx (by simp)
  · exact hprobe o x [(none, Sid.principalSelf)] (by simp)
      (ownProbe_owner ho (by simpa using hself)) (ownProbe_owner hor (by simpa using hself))
      fun _ => ownProbe_self hx (by simp)
  · exact hprobe Sid.ownerRights Sid.principalSelf [(none, c), (none, r), (none, x)] (by simp)
      (ownProbe_any hc (by simp)) (ownProbe_any hr (by simp))
      fun _ => ownProbe_any hx (by simp)

/-! ### The fallback -/

open Sample in
/-- A probe of a root with two children, where SIDs stand for themselves: the first two are granted
the rights at the first child, the third at the second. -/
def treeProbe (first second third : Sid) : Probe where
  granting :=
    { owner := Sid.ownerRights
      grants := [(some (guid 1#8), first), (some (guid 1#8), second), (some (guid 2#8), third)]
      short := Nat.le_refl 3 }
  selfSid := some Sid.principalSelf
  objectTree := some tree
  write := true

section TreeProbe

omit [CharCase]

variable {first second third : Sid} {who : Identity}

open Sample in
theorem treeProbe_mem_effects {e : Effect} :
    e ∈ (treeProbe first second third).question.effects who writeOwnerBit ↔
      (who.allows first = true ∨ who.allows second = true) ∧ e = ⟨true, .sub 1⟩ ∨
        who.allows third = true ∧ e = ⟨true, .sub 2⟩ := by
  have hone : scopeOf (some tree) (Probe.targetOf (some (guid 1#8))) = some (.sub 1) := rfl
  have htwo : scopeOf (some tree) (Probe.targetOf (some (guid 2#8))) = some (.sub 2) := rfl
  rw [Probe.mem_effects (by decide)]
  change (∃ grant ∈ [(some (guid 1#8), first), (some (guid 1#8), second),
    (some (guid 2#8), third)], who.named (some Sid.ownerRights) (some Sid.principalSelf)
      grant.2 = true ∧ ∃ scope, scopeOf (some tree) (Probe.targetOf grant.1) = some scope ∧
        e = ⟨true, scope⟩) ↔ _
  simp only [named_self, mem_cons, exists_eq_or_imp, hone, htwo, Option.some.injEq, exists_eq_left']
  tauto

theorem sample_leaf {k : ℕ} (hk : k ≠ 0) (c : ℕ) :
    (forestOf (some Sample.tree)).parent c ≠ some k := by
  match c with
  | 0 => exact (Option.some_ne_none k).symm
  | 1 => exact fun h => hk (Option.some.inj h).symm
  | 2 => exact fun h => hk (Option.some.inj h).symm
  | n + 3 => exact (Option.some_ne_none k).symm

theorem treeProbe_first (h : who.allows first = true ∨ who.allows second = true) :
    (treeProbe first second third).question.grants who writeOwnerBit 1 = true :=
  DaclQuestion.grants_of_reached (treeProbe_mem_effects.mpr (.inl ⟨h, rfl⟩)) rfl

theorem treeProbe_third (h : who.allows third = true) :
    (treeProbe first second third).question.grants who writeOwnerBit 2 = true :=
  DaclQuestion.grants_of_reached (treeProbe_mem_effects.mpr (.inr ⟨h, rfl⟩)) rfl

/-- Both children granted, the root is. -/
theorem treeProbe_root (h : who.allows first = true ∨ who.allows second = true)
    (h' : who.allows third = true) :
    (treeProbe first second third).question.grants who writeOwnerBit 0 = true := by
  refine DaclQuestion.grants_of_children ⟨⟨1, rfl⟩, fun c hc => ?_⟩
  match c with
  | 0 => cases hc
  | 1 => exact treeProbe_first h
  | 2 => exact treeProbe_third h'
  | n + 3 => cases hc

/-- A child that nothing names the reader at is not granted. -/
theorem treeProbe_leaf {k : ℕ} (hk : k < 3) (hpos : k ≠ 0)
    (hno : ∀ e ∈ (treeProbe first second third).question.effects who writeOwnerBit,
      (forestOf (some Sample.tree)).reaches e k = false) :
    (treeProbe first second third).question.grants who writeOwnerBit k = false := by
  have hbit : bit ((readControl ||| writeDac) &&& readControl) writeOwnerBit = false := by decide
  rw [DaclQuestion.grants_of_leaf hk (sample_leaf hpos) hno]
  change (_ && bit ((readControl ||| writeDac) &&& readControl) writeOwnerBit) = false
  rw [hbit, Bool.and_false]

end TreeProbe

/-- A SID that no longer counts lets the fallback fire. -/
theorem FallsBackMore.not_narrows (hf : FallsBackMore a b) (hd : DerivedFrom a b)
    (hl : Leaks a b) (u : a.Usable) (v : b.Usable) : ¬ Narrows a b := by
  obtain ⟨hpriv, ⟨third, hcounts, hlost⟩, first, hfirst, hfree⟩ := hf
  obtain ⟨second, hfree', hconfines⟩ : ∃ sid,
      restrictedContains a.restricted.restrictedSids sid = false ∧
        (a.confinement.activeSid ≠ none → confinementContains a.confinement sid = true) := by
    by_cases hne : a.confinement.activeSid = none
    · exact ⟨first, hfree, fun hno => absurd hne hno⟩
    · obtain ⟨sid, hc, hr⟩ := hl.escapes hne
      exact ⟨sid, hr, fun _ => hc⟩
  have hi : bit grantedRights writeOwnerBit = true := by decide
  refine Kacs.not_narrows (p := treeProbe first second third) (u := u) (v := v)
    (i := writeOwnerBit) (show 1 < 3 by decide) ?_ ?_
  · -- the DACL no longer grants the derived token the right at the second child
    have hsecond : (treeProbe first second third).question.grants (.caller b.subject)
        writeOwnerBit 2 = false := by
      refine treeProbe_leaf (by decide) (by decide) fun e he => ?_
      rcases treeProbe_mem_effects.mp he with ⟨-, rfl⟩ | ⟨hm, rfl⟩
      · rfl
      · exact absurd (hlost.symm.trans hm) Bool.false_ne_true
    refine Probe.grantAt_of_fallback ?_ fun hne => treeProbe_first (.inr ?_)
    · rw [Probe.fallback_resolved, hpriv, Bool.true_and, Bool.not_eq_true']
      by_contra hroot
      rw [DaclQuestion.grants_of_root (Bool.not_eq_false _ ▸ hroot) (show 2 < 3 by decide)]
        at hsecond
      cases hsecond
    · change confinementContains b.confinement second = true
      rw [hd.confinement] at hne ⊢
      exact hconfines hne
  · refine Probe.grantAt_of_withheld hi hl.restricted (fun _ => rfl) ?_ ?_
    · refine treeProbe_leaf (by decide) (by decide) fun e he => ?_
      rcases treeProbe_mem_effects.mp he with ⟨hm | hm, rfl⟩ | ⟨-, rfl⟩
      · exact absurd (hfree.symm.trans hm) Bool.false_ne_true
      · exact absurd (hfree'.symm.trans hm) Bool.false_ne_true
      · rfl
    · rw [Probe.privilegeAt_resolved hi, Probe.fallback_resolved,
        treeProbe_root (.inl hfirst) hcounts]
      simp

/-! ## Restricting a token -/

theorem DerivedFrom.not_narrows (hd : DerivedFrom a b) (hl : Leaks a b)
    (ha : validateAccessCheckTokenInvariants a = .ok ())
    (hb : validateAccessCheckTokenInvariants b = .ok ()) : ¬ Narrows a b := by
  have u : a.Usable := ⟨ha, hl.usable⟩
  have v : b.Usable := ⟨hb, by
    rw [hd.tokenType, hd.impersonationLevel]
    exact hl.usable⟩
  rcases hl.gains with hw | hg | hf
  · exact hw.not_narrows hd hl u v
  · exact hg.not_narrows hd hl u v
  · exact hf.not_narrows hd hl u v

theorem DerivedFrom.narrows (hd : DerivedFrom a b) (hl : ¬ Leaks a b)
    (ha : validateAccessCheckTokenInvariants a = .ok ()) : Narrows a b := by
  intro input hsd out' hout'
  obtain ⟨s, hs⟩ := exists_resolved hout'
  have hident : ¬ (a.tokenType = .impersonation ∧ a.impersonationLevel = .identification) := by
    rw [← hd.tokenType, ← hd.impersonationLevel]
    exact s.not_identification
  obtain ⟨r⟩ : Nonempty (Resolved { input with token := a }) :=
    s.transfer rfl ha hident s.normalized_eq s.trust_applies
  obtain ⟨out, hout, hr⟩ := r.evaluate
  refine ⟨out, hout, hs.presents.subset hr.presents fun i k hk hg => ?_⟩
  by_contra hn
  exact hl (hd.leaks_of_gain (hsd r.sd r.sd_eq) hk hg (Bool.not_eq_true _ ▸ hn))

/-- **Restricting a token narrows it exactly where it does not leak**: by write restriction, by the
first restricting SIDs or by the take-ownership fallback. -/
theorem restrict_narrows {t t' : BootToken} {privsToDelete : BitVec 64}
    {writeRestrictedRequested : Bool} {denyIndices : List (BitVec 32)}
    {restrictSids : List SidAndAttributes}
    (h : t.restrict privsToDelete writeRestrictedRequested denyIndices restrictSids = .ok t') :
    Narrows t.withAccessToken t'.withAccessToken ↔
      ¬ Leaks t.withAccessToken t'.withAccessToken := by
  have hd := BootToken.derivedFrom h
  have ht := t.validateAccessCheckTokenInvariants_withAccessToken
  have ht' := t'.validateAccessCheckTokenInvariants_withAccessToken
  exact ⟨fun hnarrows hl => hd.not_narrows hl ht ht' hnarrows, fun hl => hd.narrows hl ht⟩

/-- **A chain of restrictions narrows exactly where its two ends do not leak**, and so always if
it begins without restricting SIDs. -/
theorem restrictAll_narrows (t : BootToken) (rs : List Restriction) :
    (Narrows t.withAccessToken (t.restrictAll rs).withAccessToken ↔
      ¬ Leaks t.withAccessToken (t.restrictAll rs).withAccessToken) ∧
    (t.withAccessToken.restricted.isActive = false →
      Narrows t.withAccessToken (t.restrictAll rs).withAccessToken) := by
  have hd := t.derivedFrom_restrictAll rs
  have ht := t.validateAccessCheckTokenInvariants_withAccessToken
  have ht' := (t.restrictAll rs).validateAccessCheckTokenInvariants_withAccessToken
  refine ⟨⟨fun hn hl => hd.not_narrows hl ht ht' hn, fun hl => hd.narrows hl ht⟩, fun h => ?_⟩
  exact hd.narrows (fun hl => absurd hl.restricted (by simp [h])) ht

end Narrows

attribute [local instance] Sample.asciiCase

namespace Sample

/-- The system, restricted to everyone. -/
def restrictedSystem : BootToken :=
  { lowSubject with
    userSid := Sid.system
    integrityLevel := IntegrityLevel.medium
    restrictedSids := [⟨Sid.everyone, seGroupEnabled⟩] }

/-- A request for everything on a descriptor of the system's. -/
def ownInput (token : AccessCheckToken) : EvaluateSecurityDescriptorInput :=
  { check.baseInput sd with token, objectTree := none }

/-- The same token, with writes restricted only. -/
def writeRestrictedSystem : BootToken :=
  (restrictedSystem.restrict 0#64 true [] [⟨Sid.everyone, seGroupEnabled⟩]).toOption.get (by decide)

theorem restrict_restrictedSystem (writeRestrictedRequested : Bool) :
    ∃ t', restrictedSystem.restrict 0#64 writeRestrictedRequested []
      [⟨Sid.everyone, seGroupEnabled⟩] = .ok t' :=
  exists_of_isOk (by cases writeRestrictedRequested <;> decide)

end Sample

open Sample in
/-- The owner of a descriptor reads it once only writes are restricted. -/
theorem restrict_widens :
    restrictedSystem.restrict 0#64 true [] [⟨Sid.everyone, seGroupEnabled⟩] =
        .ok writeRestrictedSystem ∧
      (∀ sd ∈ (ownInput restrictedSystem.withAccessToken).sd, sd.GrantsOnly) ∧
      ∃ out out', evaluateSecurityDescriptor (ownInput restrictedSystem.withAccessToken) = .ok out ∧
        evaluateSecurityDescriptor (ownInput writeRestrictedSystem.withAccessToken) = .ok out' ∧
        ¬ out'.grants ⊆ out.grants := by
  refine ⟨rfl, ?_, ?_⟩
  · have hall : Sample.sd.dacl.all (fun dacl => dacl.entries.all grantsOnly) = true := by decide
    rintro sd ⟨⟩ dacl hdacl ace hace
    rw [Option.mem_def.mp hdacl] at hall
    exact all_eq_true.mp hall ace hace
  · obtain ⟨out, h, hbefore⟩ := exists_of_map (f := (·.granted)) (c := 0#32)
      (x := evaluateSecurityDescriptor (ownInput restrictedSystem.withAccessToken)) (by decide)
    obtain ⟨out', h', hafter⟩ := exists_of_map (f := (·.granted)) (c := readControl ||| writeDac)
      (x := evaluateSecurityDescriptor (ownInput writeRestrictedSystem.withAccessToken))
      (by decide)
    exact ⟨out, out', h, h', Grants.not_subset hafter hbefore (by decide)⟩

open Sample in
theorem restrict_narrows_sample : ∃ t', restrictedSystem.restrict 0#64 false []
    [⟨Sid.everyone, seGroupEnabled⟩] = .ok t' ∧
      (Narrows restrictedSystem.withAccessToken t'.withAccessToken ↔
        ¬ Leaks restrictedSystem.withAccessToken t'.withAccessToken) := by
  obtain ⟨t', h⟩ := restrict_restrictedSystem false
  exact ⟨t', h, restrict_narrows h⟩

end Pkm.Kacs
