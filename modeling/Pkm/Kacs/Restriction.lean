import Pkm.Kacs.AllowOnly
import Pkm.Kacs.Model.BootToken
import Pkm.Kacs.Strength
import Pkm.Kacs.TreeCoherence
/-!
# Derived tokens

`restrict` leaves a token with fewer privileges, fewer SIDs that count for allow
entries, and restricting SIDs that are either new or some of those there were. Before
the restricting SIDs are looked at, the derived token is granted no more than the
token it comes from. After it there are three ways to more, and each needs a token
that was restricted before: `Leaks` lists them.
-/

namespace Pkm.Kacs

open Bits DaclQuestion List Outcome

/-! ## What a derivation changes -/

/-- The second token is derived from the first. -/
structure DerivedFrom (a b : AccessCheckToken) : Prop where
  tokenType : b.tokenType = a.tokenType
  impersonationLevel : b.impersonationLevel = a.impersonationLevel
  integrityLevel : b.integrityLevel = a.integrityLevel
  mandatoryPolicy : b.mandatoryPolicy = a.mandatoryPolicy
  confinement : b.confinement = a.confinement
  privileges : b.privileges.enabledMask ⊆ a.privileges.enabledMask
  allows : ∀ sid, sidMatchesToken b.subject sid .allow = true →
    sidMatchesToken a.subject sid .allow = true
  present : ownerMatchesIdentity b.subject = ownerMatchesIdentity a.subject
  deviceGroups : b.restricted.restrictedDeviceGroups = a.restricted.restrictedDeviceGroups
  writeRestricted : a.restricted.writeRestricted = true → b.restricted.writeRestricted = true
  restrictedSids : a.restricted.restrictedSids ≠ [] → b.restricted.restrictedSids ≠ [] ∧
    ∀ sid, restrictedContains b.restricted.restrictedSids sid = true →
      restrictedContains a.restricted.restrictedSids sid = true

theorem counts_useForDenyOnly (group : SidAndAttributes) :
    (BootToken.useForDenyOnly group).counts true = false := by
  have hdeny : (BootToken.useForDenyOnly group).denyOnly = true := by
    refine decide_eq_true fun hzero => ?_
    have hbit := eq_zero_iff.mp hzero 4
    rw [BootToken.useForDenyOnly, bit_and, bit_or,
      show bit seGroupUseForDenyOnly (4 : Fin 32) = true by decide, Bool.or_true] at hbit
    cases hbit
  rw [SidAndAttributes.counts, hdeny]
  simp

/-- Marking a group keeps the SIDs and only takes what counts. -/
theorem modify_useForDenyOnly (groups : List SidAndAttributes) (n : ℕ) (sid : Sid) :
    (((groups.modify n BootToken.useForDenyOnly).any fun g => decide (g.sid = sid)) =
      groups.any fun g => decide (g.sid = sid)) ∧
    (((groups.modify n BootToken.useForDenyOnly).any fun g =>
      decide (g.sid = sid) && g.counts true) = true →
      (groups.any fun g => decide (g.sid = sid) && g.counts true) = true) := by
  induction groups generalizing n with
  | nil => simp
  | cons group rest ih =>
    cases n with
    | zero =>
      rw [modify_zero_cons]
      refine ⟨rfl, fun h => ?_⟩
      rw [any_cons, counts_useForDenyOnly, Bool.and_false, Bool.false_or] at h
      rw [any_cons, h, Bool.or_true]
    | succ n =>
      rw [modify_succ_cons]
      refine ⟨?_, fun h => ?_⟩
      · rw [any_cons, any_cons, (ih n).1]
      · rw [any_cons, Bool.or_eq_true] at h ⊢
        exact h.imp_right (ih n).2

theorem denyGroups_eq_ok {previous indices : List (BitVec 32)}
    {groups denied : List SidAndAttributes}
    (h : BootToken.denyGroups previous indices groups = .ok denied) (sid : Sid) :
    ((denied.any fun g => decide (g.sid = sid)) = groups.any fun g => decide (g.sid = sid)) ∧
    ((denied.any fun g => decide (g.sid = sid) && g.counts true) = true →
      (groups.any fun g => decide (g.sid = sid) && g.counts true) = true) := by
  induction indices generalizing previous groups with
  | nil =>
    cases h
    exact ⟨rfl, id⟩
  | cons index rest ih =>
    obtain ⟨-, h⟩ := of_guard h
    obtain ⟨-, h⟩ := of_guard h
    obtain ⟨hsame, hcounts⟩ := ih h
    obtain ⟨hsame', hcounts'⟩ := modify_useForDenyOnly groups index.toNat sid
    exact ⟨hsame.trans hsame', fun hg => hcounts' (hcounts hg)⟩

theorem BootToken.derivedFrom {t t' : BootToken} {privsToDelete : BitVec 64}
    {writeRestrictedRequested : Bool} {denyIndices : List (BitVec 32)}
    {restrictSids : List SidAndAttributes}
    (h : t.restrict privsToDelete writeRestrictedRequested denyIndices restrictSids = .ok t') :
    DerivedFrom t.withAccessToken t'.withAccessToken := by
  obtain ⟨restrictedSids, hsids, h⟩ := of_bind h
  obtain ⟨groups, hgroups, h⟩ := of_bind h
  cases h
  refine ⟨rfl, rfl, rfl, rfl, rfl, ?_, ?_, ?_, rfl, ?_, ?_⟩
  · refine subset_iff.mpr fun i hi => ?_
    simp only [withAccessToken, TokenPrivileges.enabledMask, bit_and, Bool.and_eq_true] at hi ⊢
    exact ⟨hi.1.1, hi.2.1⟩
  · intro sid hallow
    change (if sid = t.userSid then _ else _) = true at hallow
    change (if sid = t.userSid then _ else _) = true
    split_ifs at hallow ⊢
    · have hdeny : (!(writeRestrictedRequested || t.writeRestricted || t.userDenyOnly)) = true :=
        hallow
      simp only [Bool.not_eq_true', Bool.or_eq_false_iff] at hdeny
      exact congrArg not hdeny.2
    · exact (denyGroups_eq_ok hgroups sid).2 hallow
  · funext sid
    exact congrArg (decide (sid = t.userSid) || ·) (denyGroups_eq_ok hgroups sid).1
  · intro hw
    change (writeRestrictedRequested || t.writeRestricted) = true
    have ht : t.writeRestricted = true := hw
    rw [ht, Bool.or_true]
  · intro hne
    have hsome : t.restrictedSids ≠ [] := hne
    rw [restrictedSidsFor, if_neg hsome] at hsids
    obtain ⟨hsurvive, hsids⟩ := of_guard hsids
    cases hsids
    refine ⟨hsurvive, fun sid hsid => ?_⟩
    obtain ⟨entry, hentry, hsame⟩ := any_eq_true.mp hsid
    exact any_eq_true.mpr ⟨entry, mem_of_mem_filter hentry, hsame⟩

/-! ## Chains -/

theorem DerivedFrom.refl (a : AccessCheckToken) : DerivedFrom a a :=
  ⟨rfl, rfl, rfl, rfl, rfl, subset_refl _, fun _ => id, rfl, rfl, id, fun h => ⟨h, fun _ => id⟩⟩

theorem DerivedFrom.trans {a b c : AccessCheckToken} (h : DerivedFrom a b)
    (h' : DerivedFrom b c) : DerivedFrom a c where
  tokenType := h'.tokenType.trans h.tokenType
  impersonationLevel := h'.impersonationLevel.trans h.impersonationLevel
  integrityLevel := h'.integrityLevel.trans h.integrityLevel
  mandatoryPolicy := h'.mandatoryPolicy.trans h.mandatoryPolicy
  confinement := h'.confinement.trans h.confinement
  privileges := subset_trans h'.privileges h.privileges
  allows sid hsid := h.allows sid (h'.allows sid hsid)
  present := h'.present.trans h.present
  deviceGroups := h'.deviceGroups.trans h.deviceGroups
  writeRestricted hw := h'.writeRestricted (h.writeRestricted hw)
  restrictedSids hne :=
    have hb := h.restrictedSids hne
    have hc := h'.restrictedSids hb.1
    ⟨hc.1, fun sid hsid => hb.2 sid (hc.2 sid hsid)⟩

/-- What a token is restricted by. -/
structure Restriction where
  privsToDelete : BitVec 64
  writeRestricted : Bool
  denyIndices : List (BitVec 32)
  restrictSids : List SidAndAttributes

/-- The token after restrictions. One that is refused changes nothing. -/
def BootToken.restrictAll (t : BootToken) (rs : List Restriction) : BootToken :=
  rs.foldl (fun t r => (t.restrict r.privsToDelete r.writeRestricted r.denyIndices
    r.restrictSids).toOption.getD t) t

theorem BootToken.derivedFrom_restrictAll (t : BootToken) (rs : List Restriction) :
    DerivedFrom t.withAccessToken (t.restrictAll rs).withAccessToken := by
  induction rs generalizing t with
  | nil => exact .refl _
  | cons r rs ih =>
    rw [restrictAll, foldl_cons]
    refine DerivedFrom.trans ?_ (ih _)
    rcases h : t.restrict r.privsToDelete r.writeRestricted r.denyIndices r.restrictSids with e | t'
    · exact .refl _
    · exact derivedFrom h

/-! ## Before the restricting SIDs are looked at -/

namespace DerivedFrom

variable [CharCase] {input : EvaluateSecurityDescriptorInput} {a b : AccessCheckToken}
  (h : DerivedFrom a b) (r : Resolved { input with token := a })
  (s : Resolved { input with token := b })

omit [CharCase] in
include h in
theorem effective : EvaluateSecurityDescriptorInput.effective { input with token := b } ⊆
    EvaluateSecurityDescriptorInput.effective { input with token := a } :=
  effectiveAccessCheckMask_mono h.privileges input.privilegeIntent

theorem normalized_eq : s.normalized = r.normalized :=
  Except.ok.inj (s.normalized_eq.symm.trans r.normalized_eq)

/-- The question does not depend on the token. -/
theorem question_eq : s.question = r.question := by
  have hsd : s.sd = r.sd := (s.agree r rfl).1
  unfold Resolved.question
  rw [hsd, normalized_eq r s]

theorem trust_eq : s.trust = r.trust := by
  unfold Resolved.trust
  rw [(s.agree r rfl).2.2.2]

include h in
theorem mic_subset : r.mic ⊆ s.mic := by
  have hactive : s.micIsActive = r.micIsActive := by
    unfold Resolved.micIsActive
    rw [(s.agree r rfl).2.2.1]
    change micActive _ b.integrityLevel b.mandatoryPolicy =
      micActive _ a.integrityLevel a.mandatoryPolicy
    rw [h.integrityLevel, h.mandatoryPolicy]
  unfold Resolved.mic
  rw [hactive, (s.agree r rfl).2.2.1]
  exact micBits_anti id h.effective

include h in
theorem initial_granted : s.initial.granted ⊆ r.initial.granted := by
  refine subset_iff.mpr fun i hi => ?_
  simp only [Resolved.initial, bit_and, bit_not, trust_eq r s, Bool.and_eq_true] at hi ⊢
  exact ⟨bit_of_subset (seedBits_mono input.mapping h.effective) hi.1, hi.2⟩

variable {r s} {i : Fin 32} {k : ℕ}

include h in
/-- **The caller's walk grants the derived token no more.** -/
theorem walkAt (hsd : r.sd.GrantsOnly) (hk : k < (forestOf input.objectTree).size)
    (hg : s.walkAt i k = true) : r.walkAt i k = true := by
  have hseeded : bit r.initial.granted i = true → r.walkAt i k = true := by
    intro hi
    rw [r.walkAt_of_decided hk (bit_of_subset r.initial_subset hi), hi]
  cases hs : bit s.initial.decided i with
  | true =>
    rw [s.walkAt_of_decided hk hs] at hg
    exact hseeded (bit_of_subset (h.initial_granted r s) hg)
  | false =>
    have hlabels : bit s.mic i = false ∧ bit s.trust i = false ∧
        bit accessSystemSecurity i = false := by
      simp only [Resolved.initial, bit_or, Bool.or_eq_false_iff] at hs
      exact ⟨hs.1.2, hs.2, hs.1.1.1⟩
    have hmic := bit_eq_false_of_subset (h.mic_subset r s) hlabels.1
    cases hr : bit r.initial.decided i with
    | true =>
      -- decided by privileges alone
      refine hseeded ?_
      have htrust : bit r.trust i = false := trust_eq r s ▸ hlabels.2.1
      simp only [Resolved.initial, bit_or, hmic, htrust, hlabels.2.2, Bool.false_or,
        Bool.or_false] at hr
      simp [Resolved.initial, hr, htrust]
    | false =>
      have hsd' : s.sd.GrantsOnly := (s.agree r rfl).1 ▸ hsd
      rw [s.walkAt_eq hsd' hs, question_eq r s] at hg
      rw [r.walkAt_eq hsd hr]
      refine grants_mono ⟨h.allows, fun sid hp => ?_⟩ hg
      have hpresent : ownerMatchesIdentity b.subject sid = true := hp
      rw [h.present] at hpresent
      exact hpresent

include h in
/-- Where the fallback fires for the derived token, it fires for the other one, or the DACL grants
that the right. -/
theorem fallback (hf : s.fallback = true) :
    r.fallback = true ∨ r.walkAt writeOwnerBit 0 = true := by
  cases hw : r.walkAt writeOwnerBit 0 with
  | true => exact .inr rfl
  | false =>
    refine .inl ?_
    obtain ⟨hmic, htrust⟩ := s.fallback_labels hf
    have hmic' := bit_eq_false_of_subset (h.mic_subset r s) hmic
    simp only [Resolved.fallback, Bool.and_eq_true] at hf
    obtain ⟨⟨⟨hasked, hpriv⟩, -⟩, -⟩ := hf
    simp only [Resolved.fallback, ← normalized_eq r s, hasked, holds_mono h.effective hpriv,
      bit_or, hmic', ← trust_eq r s, htrust, hw, Bool.or_self, Bool.not_false, Bool.and_self]

include h in
theorem normalAt (hsd : r.sd.GrantsOnly) (hk : k < (forestOf input.objectTree).size)
    (hg : s.normalAt i k = true) : r.normalAt i k = true := by
  rw [Resolved.normalAt, Bool.or_eq_true, Bool.and_eq_true, decide_eq_true_eq] at hg
  rw [Resolved.normalAt]
  rcases hg with hw | ⟨hf, rfl⟩
  · rw [h.walkAt hsd hk hw, Bool.true_or]
  · rcases h.fallback (r := r) hf with hr | hr
    · simp [hr]
    · rw [(r.descends_walkAt writeOwnerBit).of_root hr hk, Bool.true_or]

end DerivedFrom

/-! ## Ways to more -/

section

variable (a b : AccessCheckToken)

/-- Only writes are restricted now, and an owner of the caller's is not a restricting SID. -/
def BecomesWriteRestricted : Prop :=
  a.restricted.writeRestricted = false ∧ b.restricted.writeRestricted = true ∧
    ∃ sid, ownerMatchesIdentity a.subject sid = true ∧
      restrictedContains a.restricted.restrictedSids sid = false

/-- A SID that an entry can be for as it stands. -/
def Sid.Literal (sid : Sid) : Prop := sid ≠ Sid.ownerRights ∧ sid ≠ Sid.principalSelf

/-- A DACL can grant one right to the caller, to a restricting SID and to a confining SID at once.
It cannot only if the two kinds of SIDs are OWNER RIGHTS and PRINCIPAL SELF, one each, and the
caller has nothing but the implicit rights of an owner. -/
def CanNameAll : Prop :=
  (∃ sid, restrictedContains b.restricted.restrictedSids sid = true ∧ sid.Literal) ∨
  (∃ sid, confinementContains b.confinement sid = true ∧ sid.Literal) ∨
  (∃ sid, restrictedContains b.restricted.restrictedSids sid = true ∧
    confinementContains b.confinement sid = true) ∨
  (∃ sid, restrictedContains b.restricted.restrictedSids sid = true ∧
    ownerMatchesIdentity b.subject sid = true) ∨
  ∃ sid, sidMatchesToken b.subject sid .allow = true

/-- A token that only device groups restricted, to nothing at all, has restricting SIDs now. -/
def GetsRestrictingSids : Prop :=
  a.restricted.restrictedSids = [] ∧ b.restricted.restrictedSids ≠ [] ∧
    (b.confinement.activeSid ≠ none → CanNameAll b)

/-- A SID that counted was all that kept the take-ownership fallback from firing. -/
def FallsBackMore : Prop :=
  b.privileges.privilegeEnabled seTakeOwnershipPrivilege = true ∧
    (∃ sid, sidMatchesToken a.subject sid .allow = true ∧
      sidMatchesToken b.subject sid .allow = false) ∧
    ∃ sid, sidMatchesToken a.subject sid .allow = true ∧
      restrictedContains a.restricted.restrictedSids sid = false

/-- **The derived token is granted something new by some descriptor.** -/
structure Leaks : Prop where
  usable : ¬ (a.tokenType = .impersonation ∧ a.impersonationLevel = .identification)
  restricted : a.restricted.isActive = true
  escapes : a.confinement.activeSid ≠ none → ∃ sid, confinementContains a.confinement sid = true ∧
    restrictedContains a.restricted.restrictedSids sid = false
  gains : BecomesWriteRestricted a b ∨ GetsRestrictingSids a b ∨ FallsBackMore a b

end

/-! ## There are no others -/

/-- The merge loses what neither privileges nor the restricting SIDs give, if it is asked of
them. -/
theorem mergeBit_eq_false {writeRestricted restricted write privilege : Bool}
    (h : mergeBit writeRestricted true restricted write privilege = false) :
    privilege = false ∧ restricted = false ∧ (writeRestricted = true → write = true) := by
  revert writeRestricted restricted write privilege
  decide

/-- An entry that decides something is of a type that does, and has a SID. -/
theorem accessSid_of_projectDaclAce {ace : Ace} {mapping : GenericMapping}
    {projected : ProjectedDaclAce} (h : projectDaclAce ace mapping = .ok (some projected)) :
    ace.kind.accessSid = some projected.sid ∧ isAccessAceType ace.aceType = true := by
  obtain ⟨types, hmem, hpolarity, -, hsid⟩ := projectDaclAce_inv h
  have htypes : (accessAceTypes.all fun types =>
      isAccessAceType types.1 && isAccessAceType types.2.1) = true := by decide
  obtain ⟨hallow, hdeny⟩ := Bool.and_eq_true_iff.mp (all_eq_true.mp htypes types hmem)
  refine ⟨hsid, ?_⟩
  rcases polarityOf_mem hpolarity with heq | heq
  · rwa [heq]
  · rwa [heq]

namespace DaclQuestion

variable {q : DaclQuestion} {who other : Identity} {i : Fin 32} {k : ℕ}

/-- What is granted was granted at the start, or by an entry. -/
theorem start_or_effects_of_grants (h : q.grants who i k = true) :
    (q.start who i).granted = true ∨ q.effects who i ≠ [] := by
  by_cases hnil : q.effects who i = []
  · refine .inl ?_
    unfold grants cells at h
    rw [hnil] at h
    change (Forest.uniform _ _ k).granted = true at h
    unfold Forest.uniform at h
    split at h
    · exact h
    · cases h
  · exact .inr hnil

/-- Whom a right is granted has something that whom it is not granted lacks. -/
theorem lacks_of_grants (hg : q.grants who i k = true) (hn : q.grants other i k = false) :
    (∃ sid, who.allows sid = true ∧ other.allows sid = false) ∨
      ∃ sid, who.present sid = true ∧ other.present sid = false := by
  by_contra hnone
  simp only [not_or, not_exists, not_and, Bool.not_eq_false] at hnone
  rw [grants_mono ⟨hnone.1, hnone.2⟩ hg] at hn
  cases hn

/-- A right that is not implicit does not depend on who is an owner. -/
theorem lacks_allows_of_grants (hi : bit (readControl ||| writeDac) i = false)
    (hg : q.grants who i k = true) (hn : q.grants other i k = false) :
    ∃ sid, who.allows sid = true ∧ other.allows sid = false := by
  have hforget : ∀ w : Identity, q.grants w i k = q.grants ⟨w.allows, fun _ => false⟩ i k := by
    intro w
    simp only [grants, cells, start, bit_and, hi, Bool.false_and, Bool.and_false]
    rfl
  rw [hforget] at hg hn
  refine (lacks_of_grants hg hn).resolve_right ?_
  rintro ⟨_, hno, _⟩
  cases hno

/-- An entry for the reader names one of the reader's SIDs, or is for OWNER RIGHTS and takes the
implicit rights away, or is for PRINCIPAL SELF. -/
theorem literal_or_self_of_effects {dacl : Acl} (hdacl : q.sd.dacl = some dacl)
    (hshown : ownerRightsSuppressed dacl = false) (h : q.effects who i ≠ []) :
    (∃ sid, who.allows sid = true ∧ sid.Literal) ∨ q.selfSid.any who.allows = true := by
  obtain ⟨e, he⟩ := exists_mem_of_ne_nil _ h
  rw [effects, hdacl] at he
  obtain ⟨ace, hace, he⟩ := mem_filterMap.mp he
  obtain ⟨happlies, projected, -, hp, hnamed, -⟩ := effect_eq_some.mp he
  unfold Identity.named at hnamed
  split at hnamed
  · rename_i howner
    obtain ⟨hsid, htype⟩ := accessSid_of_projectDaclAce hp
    have hsuppressed := any_eq_false.mp hshown ace hace
    rw [happlies, hsid, howner, htype] at hsuppressed
    simp at hsuppressed
  · rename_i howner
    split at hnamed
    · exact .inr hnamed
    · rename_i hself
      exact .inl ⟨projected.sid, hnamed, howner, hself⟩

end DaclQuestion

/-- What counts for an allow entry is present. -/
theorem ownerMatchesIdentity_of_sidMatchesToken {token : TokenView} {sid : Sid}
    (hm : sidMatchesToken token sid .allow = true) : ownerMatchesIdentity token sid = true := by
  unfold sidMatchesToken at hm
  unfold ownerMatchesIdentity
  split at hm
  · rename_i huser
    rw [decide_eq_true huser, Bool.true_or]
  · obtain ⟨group, hgroup, hboth⟩ := any_eq_true.mp hm
    rw [Bool.or_eq_true]
    exact .inr (any_eq_true.mpr ⟨group, hgroup, (Bool.and_eq_true_iff.mp hboth).1⟩)

/-- The intent of the caller does not matter for taking ownership. -/
theorem holds_takeOwnership (privileges : TokenPrivileges) (intent : BitVec 32) :
    holds (privileges.effectiveAccessCheckMask intent) seTakeOwnershipPrivilege =
      privileges.privilegeEnabled seTakeOwnershipPrivilege := by
  have hbackup : ~~~seBackupPrivilege &&& seTakeOwnershipPrivilege = seTakeOwnershipPrivilege := by
    decide
  have hrestore : ~~~seRestorePrivilege &&& seTakeOwnershipPrivilege =
      seTakeOwnershipPrivilege := by
    decide
  unfold holds TokenPrivileges.privilegeEnabled TokenPrivileges.effectiveAccessCheckMask
  split_ifs <;> simp only [BitVec.and_assoc, hbackup, hrestore]

variable [CharCase]

namespace Resolved

variable {input : EvaluateSecurityDescriptorInput} {r : Resolved input} {i : Fin 32} {k : ℕ}

/-- A right that neither privileges nor the fallback gave is the walk's. -/
theorem question_of_normalAt (hsd : r.sd.GrantsOnly) (hk : k < (forestOf input.objectTree).size)
    (hp : r.privilegeAt i = false) (hn : r.normalAt i k = true) :
    r.question.grants (.caller input.token.subject) i k = true := by
  rw [privilegeAt, Bool.or_eq_false_iff] at hp
  rw [normalAt, hp.2, Bool.or_false] at hn
  cases hd : bit r.initial.decided i with
  | true =>
    rw [r.walkAt_of_decided hk hd, hp.1] at hn
    cases hn
  | false => rwa [r.walkAt_eq hsd hd] at hn

/-- The fallback fires only where nothing was decided before the walk. -/
theorem undecided_of_fallback (h : r.fallback = true) :
    bit r.initial.decided writeOwnerBit = false := by
  obtain ⟨hmic, htrust⟩ := r.fallback_labels h
  have hsystem : bit accessSystemSecurity writeOwnerBit = false := by decide
  cases hseed : bit input.seed writeOwnerBit with
  | false => simp [initial, hmic, htrust, hsystem, hseed]
  | true =>
    have hgranted : bit r.initial.granted writeOwnerBit = true := by
      simp [initial, hseed, htrust]
    have hwalk : r.walkAt writeOwnerBit 0 = true := by
      rw [r.walkAt_of_decided (forestOf_size_pos _) (bit_of_subset r.initial_subset hgranted),
        hgranted]
    simp [fallback, hwalk] at h

end Resolved

namespace DerivedFrom

variable {input : EvaluateSecurityDescriptorInput} {a b : AccessCheckToken} (h : DerivedFrom a b)
  {r : Resolved { input with token := a }} {s : Resolved { input with token := b }} {i : Fin 32}
  {k : ℕ} (hsd : r.sd.GrantsOnly) (hk : k < (forestOf input.objectTree).size) {q : DaclQuestion}

omit [CharCase] in
include h in
theorem isActive (hactive : a.restricted.isActive = true) : b.restricted.isActive = true := by
  simp only [RestrictedTokenContext.isActive, Bool.or_eq_true, Bool.not_eq_true',
    isEmpty_eq_false_iff] at hactive ⊢
  rcases hactive with hsids | hgroups
  · exact .inl (h.restrictedSids hsids).1
  · exact .inr (h.deviceGroups ▸ hgroups)

include h hsd in
/-- A new grant is new before the confinement, which is the same for both. -/
theorem mergedAt_of_gain (hg : s.grantAt i k = true) (hn : r.grantAt i k = false) :
    s.mergedAt i k = true ∧ r.mergedAt i k = false ∧ (a.confinement.activeSid ≠ none →
      r.question.grants (.confining a.confinement) i k = true) := by
  have hsd' : s.sd.GrantsOnly := (s.agree r rfl).1 ▸ hsd
  obtain ⟨hmerged, hconfined⟩ := (s.grantAt_iff hsd').mp hg
  have hconfined' : a.confinement.activeSid ≠ none →
      r.question.grants (.confining a.confinement) i k = true := by
    intro hne
    rw [← question_eq r s, ← h.confinement]
    exact hconfined (h.confinement ▸ hne)
  refine ⟨hmerged, ?_, hconfined'⟩
  by_contra hm
  rw [(r.grantAt_iff hsd).mpr ⟨Bool.not_eq_false _ ▸ hm, hconfined'⟩] at hn
  cases hn

include h hsd hk in
/-- What the restricting SIDs of the first token kept from it. -/
theorem withheld_of_gain (hm : s.mergedAt i k = true) (hn : r.mergedAt i k = false) :
    a.restricted.isActive = true ∧ r.normalAt i k = true ∧ r.privilegeAt i = false ∧
      r.question.grants (.restricting a.restricted) i k = false ∧
      (a.restricted.writeRestricted = true → bit input.mapping.write i = true) := by
  have hnormal : r.normalAt i k = true := h.normalAt hsd hk (s.normalAt_of_mergedAt hk hm)
  rw [Resolved.mergedAt, r.restrictedAt_eq hsd] at hn
  split at hn
  · rename_i hactive
    rw [hnormal] at hn
    exact ⟨hactive, hnormal, mergeBit_eq_false hn⟩
  · rw [hnormal] at hn
    cases hn

omit [CharCase] in
include h in
theorem becomesWriteRestricted (hw : a.restricted.writeRestricted = false)
    (hw' : b.restricted.writeRestricted = true)
    (hcaller : q.grants (.caller b.subject) i k = true)
    (hrestricting : q.grants (.restricting a.restricted) i k = false) :
    BecomesWriteRestricted a b := by
  refine ⟨hw, hw', ?_⟩
  rcases lacks_of_grants hcaller hrestricting with ⟨sid, hm, hfree⟩ | ⟨sid, hm, hfree⟩
  · exact ⟨sid, h.present ▸ ownerMatchesIdentity_of_sidMatchesToken hm, hfree⟩
  · exact ⟨sid, h.present ▸ hm, hfree⟩

omit [CharCase] in
/-- One DACL grants all three a right that it grants no empty set of SIDs. -/
theorem canNameAll (hcaller : q.grants (.caller b.subject) i k = true)
    (hrestricting : q.grants (.restricting b.restricted) i k = true)
    (hconfining : q.grants (.confining b.confinement) i k = true)
    (hnobody : q.grants ⟨fun _ => false, fun _ => false⟩ i k = false) : CanNameAll b := by
  unfold CanNameAll
  by_contra hnone
  simp only [not_or] at hnone
  obtain ⟨hliteral, hconfined, hboth, howner, hallows⟩ := hnone
  -- a missing DACL grants everybody the same
  obtain ⟨dacl, hdacl⟩ : ∃ dacl, q.sd.dacl = some dacl := by
    cases hdacl : q.sd.dacl with
    | some dacl => exact ⟨dacl, rfl⟩
    | none =>
      have hsame : q.effects (.confining b.confinement) i =
          q.effects ⟨fun _ => false, fun _ => false⟩ i := by
        unfold effects
        rw [hdacl]
      have hstart : q.start (.confining b.confinement) i =
          q.start ⟨fun _ => false, fun _ => false⟩ i := by
        unfold start implicit
        rfl
      unfold grants cells at hconfining hnobody
      rw [hsame, hstart, hnobody] at hconfining
      cases hconfining
  -- the caller has the implicit rights of an owner and nothing else
  have hnothing : q.effects (.caller b.subject) i = [] := by
    unfold effects
    rw [hdacl]
    refine filterMap_eq_nil_iff.mpr fun ace _ => ?_
    rw [Option.eq_none_iff_forall_ne_some]
    intro e he
    obtain ⟨-, projected, -, -, hnamed, -⟩ := effect_eq_some.mp he
    have hnever : ∀ o : Option Sid, o.any (Identity.caller b.subject).allows = false := by
      intro o
      cases o with
      | none => rfl
      | some sid => exact Bool.not_eq_true _ ▸ fun hm => hallows ⟨sid, hm⟩
    unfold Identity.named at hnamed
    rw [hnever, hnever] at hnamed
    split_ifs at hnamed
    exact hallows ⟨_, hnamed⟩
  have hstart : (q.start (.caller b.subject) i).granted = true := by
    rcases start_or_effects_of_grants hcaller with hs | he
    · exact hs
    · exact absurd hnothing he
  simp only [start, implicit, Bool.and_eq_true, hdacl, Option.map_some,
    Option.getD_some, Bool.not_eq_true'] at hstart
  obtain ⟨⟨hpresent, hshown⟩, -⟩ := hstart
  obtain ⟨owner, howned, hpresent⟩ := (Option.any_eq_true _ _).mp hpresent
  -- so the entries that are for the others are for PRINCIPAL SELF
  have hself : q.selfSid.any (confinementContains b.confinement) = true := by
    rcases start_or_effects_of_grants hconfining with hs | he
    · rw [start, implicit, howned] at hs
      cases hs
    · rcases literal_or_self_of_effects hdacl hshown he with hl | hs
      · exact absurd hl hconfined
      · exact hs
  have hself' : q.selfSid.any (restrictedContains b.restricted.restrictedSids) = true := by
    rcases start_or_effects_of_grants hrestricting with hs | he
    · rw [start, implicit, howned] at hs
      simp only [Bool.and_eq_true] at hs
      exact absurd ⟨owner, hs.1.1, hpresent⟩ howner
    · rcases literal_or_self_of_effects hdacl hshown he with hl | hs
      · exact absurd hl hliteral
      · exact hs
  obtain ⟨sid, hsid, hconfines⟩ := (Option.any_eq_true _ _).mp hself
  rw [hsid] at hself'
  exact hboth ⟨sid, hself', hconfines⟩

omit [CharCase] in
include h in
theorem getsRestrictingSids (hcaller : q.grants (.caller b.subject) i k = true)
    (hrestricting : q.grants (.restricting a.restricted) i k = false)
    (hrestricting' : q.grants (.restricting b.restricted) i k = true)
    (hconfining : b.confinement.activeSid ≠ none →
      q.grants (.confining b.confinement) i k = true) : GetsRestrictingSids a b := by
  have hnone : a.restricted.restrictedSids = [] := by
    by_contra hne
    obtain ⟨-, hsub⟩ := h.restrictedSids hne
    have hle : (Identity.restricting b.restricted).Le (.restricting a.restricted) := ⟨hsub, hsub⟩
    rw [grants_mono hle hrestricting'] at hrestricting
    cases hrestricting
  refine ⟨hnone, fun hnone' => ?_, fun hne => ?_⟩
  · unfold Identity.restricting at hrestricting hrestricting'
    rw [hnone, ← hnone', hrestricting'] at hrestricting
    cases hrestricting
  · exact canNameAll hcaller hrestricting' (hconfining hne)
      (Identity.restricting_of_nil hnone ▸ hrestricting)

include h hsd hk in
/-- A fallback that fires for the derived token alone. -/
theorem fallsBackMore (hf : s.fallback = true) (hp : r.privilegeAt writeOwnerBit = false)
    (hrestricting : r.question.grants (.restricting a.restricted) writeOwnerBit k = false) :
    FallsBackMore a b := by
  have himplicit : bit (readControl ||| writeDac) writeOwnerBit = false := by decide
  rw [Resolved.privilegeAt, Bool.or_eq_false_iff] at hp
  have hsd' : s.sd.GrantsOnly := (s.agree r rfl).1 ▸ hsd
  -- the walk grants the right to the first token, and not to the derived one
  have hcaller : r.question.grants (.caller a.subject) writeOwnerBit 0 = true := by
    have hwalk : r.walkAt writeOwnerBit 0 = true := by
      rcases h.fallback (r := r) hf with hr | hr
      · simp [hr] at hp
      · exact hr
    cases hd : bit r.initial.decided writeOwnerBit with
    | true =>
      rw [r.walkAt_of_decided (forestOf_size_pos _) hd, hp.1] at hwalk
      cases hwalk
    | false => rwa [r.walkAt_eq hsd hd] at hwalk
  have hcaller' : r.question.grants (.caller b.subject) writeOwnerBit 0 = false := by
    have hopen := s.undecided_of_fallback hf
    rw [← question_eq r s, ← s.walkAt_eq hsd' hopen]
    simp only [Resolved.fallback, Bool.and_eq_true, Bool.not_eq_true'] at hf
    exact hf.2
  refine ⟨?_, lacks_allows_of_grants himplicit hcaller hcaller',
    lacks_allows_of_grants himplicit (grants_of_root hcaller hk) hrestricting⟩
  simp only [Resolved.fallback, Bool.and_eq_true] at hf
  rw [← holds_takeOwnership b.privileges input.privilegeIntent]
  exact hf.1.1.2

include h hsd hk in
/-- **Every gain of a derived token is one of the listed ones.** -/
theorem leaks_of_gain (hg : s.grantAt i k = true) (hn : r.grantAt i k = false) : Leaks a b := by
  obtain ⟨hm, hm', hconfining⟩ := h.mergedAt_of_gain hsd hg hn
  obtain ⟨hactive, hnormal, hp, hrestricting, hwrite⟩ := h.withheld_of_gain hsd hk hm hm'
  refine ⟨r.not_identification, hactive, fun hne => ?_, ?_⟩
  · exact (lacks_of_grants (hconfining hne) hrestricting).resolve_right
      fun ⟨_, hno, _⟩ => by cases hno
  have hsd' : s.sd.GrantsOnly := (s.agree r rfl).1 ▸ hsd
  cases hp' : s.privilegeAt i with
  | true =>
    refine .inr (.inr ?_)
    rw [Resolved.privilegeAt, Bool.or_eq_true, Bool.and_eq_true, decide_eq_true_eq] at hp'
    rcases hp' with hseed | ⟨hf, rfl⟩
    · rw [Resolved.privilegeAt, bit_of_subset (h.initial_granted r s) hseed] at hp
      cases hp
    · exact h.fallsBackMore hsd hk hf hp hrestricting
  | false =>
    have hcaller : r.question.grants (.caller b.subject) i k = true :=
      question_eq r s ▸ s.question_of_normalAt hsd' hk hp' (s.normalAt_of_mergedAt hk hm)
    have hrestricts : b.restricted.isActive = true := h.isActive hactive
    rw [Resolved.mergedAt, s.restrictedAt_eq hsd', hp', question_eq r s] at hm
    change (if b.restricted.isActive = true then _ else _) = true at hm
    rw [if_pos hrestricts] at hm
    change mergeBit b.restricted.writeRestricted (s.normalAt i k)
      (r.question.grants (.restricting b.restricted) i k) (bit input.mapping.write i) false
      = true at hm
    cases hr : r.question.grants (.restricting b.restricted) i k with
    | true =>
      refine .inr (.inl (h.getsRestrictingSids hcaller hrestricting hr fun hne => ?_))
      rw [h.confinement] at hne ⊢
      exact hconfining hne
    | false =>
      rw [hr] at hm
      obtain ⟨hw, hread⟩ : b.restricted.writeRestricted = true ∧
          bit input.mapping.write i = false := by
        revert hm
        unfold mergeBit
        cases b.restricted.writeRestricted <;> cases bit input.mapping.write i <;> simp
      refine .inl (h.becomesWriteRestricted ?_ hw hcaller hrestricting)
      by_contra hw'
      rw [hwrite (Bool.not_eq_false _ ▸ hw')] at hread
      cases hread

end DerivedFrom

end Pkm.Kacs
