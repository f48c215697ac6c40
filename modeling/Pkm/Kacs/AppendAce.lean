import Pkm.Kacs.Mandatory
import Pkm.Kacs.TreeCoherence
/-!
# An entry at the end of a DACL

A walk never takes back what it granted, so one more entry at the end can only
add to each of the three walks of an evaluation. The exception is in how they are
combined: the take-ownership fallback fires only where the caller's own walk does
not grant `WRITE_OWNER`, and what it grants is kept through the restricted pass.
An entry that grants `WRITE_OWNER` to the caller turns the fallback off, and with
it that protection.
-/

namespace Pkm.Kacs

open Bits Outcome

/-- The second descriptor is the first with one more entry at the end of its DACL, which does not
speak for OWNER RIGHTS. -/
structure AppendsAce (ace : Ace) (sd sd' : SecurityDescriptor) : Prop where
  owner : sd'.owner = sd.owner
  sacl : sd'.sacl = sd.sacl
  dacl : ∃ dacl dacl', sd.dacl = some dacl ∧ sd'.dacl = some dacl' ∧
    dacl'.entries = dacl.entries ++ [ace]
  not_ownerRights : ace.kind.accessSid ≠ some Sid.ownerRights

/-- What is read from the SACL depends on nothing else. -/
theorem sacl_congr [CharCase] {sd sd' : SecurityDescriptor} (h : sd'.sacl = sd.sacl) :
    extractSaclMetadata sd' = extractSaclMetadata sd ∧
      resolveMandatoryLabel sd' = resolveMandatoryLabel sd ∧
      resolveProcessTrustLabel sd' = resolveProcessTrustLabel sd := by
  unfold extractSaclMetadata resolveMandatoryLabel resolveProcessTrustLabel
  rw [h]
  exact ⟨rfl, rfl, rfl⟩

section Walk

variable {ace : Ace} {sd sd' : SecurityDescriptor} (h : AppendsAce ace sd sd')
include h

theorem AppendsAce.ownerRightsSuppressed :
    sd'.dacl.map Kacs.ownerRightsSuppressed = sd.dacl.map Kacs.ownerRightsSuppressed := by
  obtain ⟨dacl, dacl', hd, hd', hentries⟩ := h.dacl
  rw [hd, hd']
  simp [Kacs.ownerRightsSuppressed, hentries, h.not_ownerRights]

variable [CharCase] {d d' : DaclStateInput}

/-- One more entry is one more effect at the end of every walk. -/
theorem AppendsAce.walkCells (hsd : d.sd = sd) (hd : d' = { d with sd := sd' })
    (sidMatches : SidMatches) (i : Fin 32) :
    walkCells d' sidMatches i =
      (forestOf d.objectTree).walk (aceEffect d sidMatches i ace).toList
        (Kacs.walkCells d sidMatches i) := by
  obtain ⟨dacl, dacl', hdacl, hdacl', hentries⟩ := h.dacl
  have hstart : startState d' = startState d := by
    unfold startState
    subst hd hsd
    rw [h.ownerRightsSuppressed]
  have heffects : daclEffects d' sidMatches i =
      daclEffects d sidMatches i ++ (aceEffect d sidMatches i ace).toList := by
    unfold daclEffects
    subst hd hsd
    simp only [hdacl, hdacl', hentries, List.filterMap_append]
    change _ ++ List.filterMap (aceEffect d sidMatches i) [ace] = _
    cases he : aceEffect d sidMatches i ace with
    | none => rw [List.filterMap_cons_none he]; rfl
    | some e => rw [List.filterMap_cons_some he]; rfl
  have htree : d'.objectTree = d.objectTree := by rw [hd]
  unfold Kacs.walkCells
  rw [hstart, heffects, htree, Forest.walk_append]

/-- So every walk keeps what it granted. -/
theorem AppendsAce.granted (hsd : d.sd = sd) (hd : d' = { d with sd := sd' })
    {sidMatches : SidMatches} {i : Fin 32} {k : ℕ}
    (hg : (Kacs.walkCells d sidMatches i k).granted = true) :
    (Kacs.walkCells d' sidMatches i k).granted = true := by
  rw [h.walkCells hsd hd]
  exact Forest.granted_walk hg

end Walk

/-! ## One evaluation -/

namespace AppendsAce

variable [CharCase] {ace : Ace} {sd' : SecurityDescriptor} {a b : EvaluateSecurityDescriptorInput}
  {r : Resolved a} {s : Resolved b} (h : AppendsAce ace r.sd s.sd)
  (hb : b = { a with sd := some sd' })
include h hb

/-- Nothing before the walks looks at the DACL. -/
theorem agree : s.normalized = r.normalized ∧ s.metadata = r.metadata ∧ s.mic = r.mic ∧
    s.trust = r.trust ∧ s.initial = r.initial := by
  obtain ⟨hmeta, hlabel, htrust⟩ := sacl_congr h.sacl
  have hmeta := Except.ok.inj (s.metadata_eq.symm.trans (hmeta.trans r.metadata_eq))
  have hlabel := Except.ok.inj (s.label_eq.symm.trans (hlabel.trans r.label_eq))
  have htrust := Except.ok.inj (s.trustLabel_eq.symm.trans (htrust.trans r.trustLabel_eq))
  subst hb
  have hn := Except.ok.inj (s.normalized_eq.symm.trans r.normalized_eq)
  have hmic : s.mic = r.mic := by
    unfold Resolved.mic Resolved.micIsActive
    rw [hlabel]
    rfl
  have htrust : s.trust = r.trust := by
    unfold Resolved.trust
    rw [htrust]
  refine ⟨hn, hmeta, hmic, htrust, ?_⟩
  unfold Resolved.initial
  rw [hmic, htrust]
  rfl

theorem normalInput :
    s.pass.normalInput s.initial = { r.pass.normalInput r.initial with sd := s.sd } := by
  obtain ⟨hn, hmeta, -, -, hinitial⟩ := h.agree hb
  subst hb
  have howner : callerIsOwnerNormal s.sd a.token.subject =
      callerIsOwnerNormal r.sd a.token.subject := by
    unfold callerIsOwnerNormal
    rw [h.owner]
  unfold Resolved.pass PassInput.normalInput
  simp only [hn, hmeta, hinitial, howner]

variable {i : Fin 32} {k : ℕ}

theorem walkAt (hg : r.walkAt i k = true) : s.walkAt i k = true := by
  have hinput := h.normalInput hb
  subst hb
  exact h.granted rfl hinput hg

theorem restrictedAt (hg : r.restrictedAt i k = true) : s.restrictedAt i k = true := by
  obtain ⟨hn, hmeta, -⟩ := h.agree hb
  subst hb
  refine h.granted rfl ?_ hg
  unfold Resolved.pass PassInput.restrictedInput PassInput.normalInput
  simp only [hn, hmeta, h.owner]

theorem confinedAt {confinementSid : Sid} (hg : r.confinedAt confinementSid i k = true) :
    s.confinedAt confinementSid i k = true := by
  obtain ⟨hn, hmeta, -⟩ := h.agree hb
  subst hb
  refine h.granted rfl ?_ hg
  unfold Resolved.pass PassInput.confinementInput PassInput.normalInput
  simp only [hn, hmeta, h.owner]

/-- A fallback that fired is turned off by a grant of the caller's own walk, and by nothing
else. -/
theorem fallback (hf : r.fallback = true) : s.fallback = !s.walkAt writeOwnerBit 0 := by
  obtain ⟨hn, -, hmic, htrust, -⟩ := h.agree hb
  subst hb
  simp only [Resolved.fallback, Bool.and_eq_true] at hf
  obtain ⟨⟨⟨hasked, hpriv⟩, hlabels⟩, -⟩ := hf
  have hpriv : holds (EvaluateSecurityDescriptorInput.effective { a with sd := some sd' })
      seTakeOwnershipPrivilege = true := hpriv
  simp only [Resolved.fallback, hn, hmic, htrust, hasked, hpriv, hlabels, Bool.true_and]

theorem normalAt (hk : k < (forestOf a.objectTree).size) (hg : r.normalAt i k = true) :
    s.normalAt i k = true := by
  rw [Resolved.normalAt, Bool.or_eq_true] at hg ⊢
  rcases hg with hw | hf
  · exact .inl (h.walkAt hb hw)
  · rw [Bool.and_eq_true, decide_eq_true_eq] at hf
    obtain ⟨hf, rfl⟩ := hf
    cases hw : s.walkAt writeOwnerBit 0 with
    | true =>
      -- the fallback is off because the walk now grants the right at the root, so everywhere
      have hk' : k < (forestOf b.objectTree).size := by
        subst hb
        exact hk
      exact .inl ((s.descends_walkAt writeOwnerBit).of_root hw hk')
    | false =>
      refine .inr ?_
      rw [h.fallback hb hf, hw]
      rfl

/-- Privileges keep what they granted, unless the fallback is turned off. -/
theorem privilegeAt (hi : i = writeOwnerBit → r.fallback = true → s.fallback = true)
    (hp : r.privilegeAt i = true) : s.privilegeAt i = true := by
  rw [Resolved.privilegeAt, Bool.or_eq_true] at hp ⊢
  rcases hp with hp | hf
  · rw [(h.agree hb).2.2.2.2]
    exact .inl hp
  · rw [Bool.and_eq_true, decide_eq_true_eq] at hf
    rw [hi hf.2 hf.1]
    exact .inr (by simpa using hf.2)

/-- **One more entry keeps what was granted**, unless it turns the fallback off for a restricted
token. -/
theorem grantAt (hk : k < (forestOf a.objectTree).size)
    (hi : a.token.restricted.isActive = true → i = writeOwnerBit → r.fallback = true →
      s.fallback = true)
    (hg : r.grantAt i k = true) : s.grantAt i k = true := by
  have hsame : b.token = a.token ∧ b.mapping = a.mapping := by
    subst hb
    exact ⟨rfl, rfl⟩
  exact r.grantAt_mono (congrArg _ hsame.1) (congrArg _ hsame.1) hsame.2 (h.normalAt hb hk)
    (h.restrictedAt hb) (fun hactive => h.privilegeAt hb (hi hactive))
    (fun _ => h.confinedAt hb) hg

/-- An entry that turns the fallback off grants `WRITE_OWNER`. -/
theorem exists_projected (hf : r.fallback = true) (hoff : s.fallback = false) :
    ∃ projected, projectDaclAce ace a.mapping = .ok (some projected) ∧
      projected.polarity = .allow ∧ projected.mask &&& writeOwner ≠ 0#32 := by
  have hbefore : r.walkAt writeOwnerBit 0 = false := by
    simp only [Resolved.fallback, Bool.and_eq_true, Bool.not_eq_true'] at hf
    exact hf.2
  have hafter : s.walkAt writeOwnerBit 0 = true := by
    rw [h.fallback hb hf, Bool.not_eq_false'] at hoff
    exact hoff
  have hinput := h.normalInput hb
  subst hb
  unfold Resolved.walkAt at hbefore hafter
  rw [h.walkCells rfl hinput] at hafter
  -- an entry without an effect, or with a denial, leaves the right as it was
  cases he : aceEffect (r.pass.normalInput r.initial) (sidMatchesToken a.token.subject)
      writeOwnerBit ace with
  | none =>
    rw [he] at hafter
    exact absurd (hafter.symm.trans hbefore) Bool.noConfusion
  | some e =>
    rw [he] at hafter
    have hallow : e.allow = true := by
      by_contra hdeny
      have hsame := Forest.granted_apply_deny (F := forestOf a.objectTree)
        (v := Kacs.walkCells (r.pass.normalInput r.initial) (sidMatchesToken a.token.subject)
          writeOwnerBit) (k := 0) (Bool.not_eq_true _ ▸ hdeny)
      exact absurd (hafter.symm.trans (hsame.trans hbefore)) Bool.noConfusion
    obtain ⟨projected, hspeak, heff⟩ := Option.bind_eq_some_iff.mp he
    unfold projectedEffect at heff
    split at heff
    · rename_i hbits
      obtain ⟨scope, -, rfl⟩ := Option.map_eq_some_iff.mp heff
      rw [bit_and, Bool.and_eq_true] at hbits
      have hprojected := projected_of_speakingAce hspeak
      exact ⟨projected, hprojected, of_decide_eq_true hallow, and_writeOwner_ne_zero.mpr hbits.1⟩
    · cases heff

end AppendsAce

/-- **One more entry at the end of a DACL keeps every bit but `WRITE_OWNER`.** That bit too is
kept, unless the token is restricted, SeTakeOwnership takes part, the entry grants `WRITE_OWNER`,
and the fallback that supplied the bit before no longer does. -/
theorem evaluateSecurityDescriptor_append_ace [CharCase] (input : EvaluateSecurityDescriptorInput)
    {ace : Ace} {sd sd' : SecurityDescriptor} {st st' : EvaluateSecurityDescriptorState}
    (hsd : input.sd = some sd) (happend : AppendsAce ace sd sd')
    (h : evaluateSecurityDescriptor input = .ok st)
    (h' : evaluateSecurityDescriptor { input with sd := some sd' } = .ok st') :
    Grants.Rel (fun m m' => m &&& ~~~writeOwner ⊆ m') st.grants st'.grants ∧
      (st.grants ⊆ st'.grants ∨
        input.token.restricted.isActive = true ∧
        input.token.privileges.effectiveAccessCheckMask input.privilegeIntent &&&
          seTakeOwnershipPrivilege ≠ 0#64 ∧
        (∃ projected, projectDaclAce ace input.mapping = .ok (some projected) ∧
          projected.polarity = .allow ∧ projected.mask &&& writeOwner ≠ 0#32) ∧
        st.provenance.takeOwnershipGranted = writeOwner ∧
        st'.provenance.takeOwnershipGranted = 0#32) := by
  obtain ⟨r, hy⟩ := exists_resolved h
  obtain ⟨s, hy'⟩ := exists_resolved h'
  cases hsd.symm.trans r.sd_eq
  have hsd' : sd' = s.sd := Option.some.inj s.sd_eq
  rw [hsd'] at happend
  constructor
  · refine hy.presents.rel hy'.presents fun k hk m m' hm hm' => subset_iff.mpr fun i hi => ?_
    rw [bit_and, bit_not, Bool.and_eq_true, Bool.not_eq_true', bit_writeOwner,
      decide_eq_false_iff_not, hm] at hi
    rw [hm']
    exact happend.grantAt rfl hk (fun _ hwo => absurd hwo hi.2) hi.1
  · by_cases hlost : input.token.restricted.isActive = true ∧ r.fallback = true ∧
        s.fallback = false
    · obtain ⟨hactive, hf, hoff⟩ := hlost
      refine .inr ⟨hactive, ?_, happend.exists_projected rfl hf hoff, ?_, ?_⟩
      · simp only [Resolved.fallback, Bool.and_eq_true] at hf
        exact of_decide_eq_true hf.1.1.2
      · rw [hy.provenance]
        simp [Resolved.provenance, hf, maskIf]
      · rw [hy'.provenance]
        simp [Resolved.provenance, hoff, maskIf]
    · refine .inl (hy.presents.subset hy'.presents fun i k hk hg => ?_)
      refine happend.grantAt rfl hk (fun hactive _ hf => ?_) hg
      by_contra hoff
      exact hlost ⟨hactive, hf, Bool.not_eq_true _ ▸ hoff⟩

/-! ## The bit that is lost -/

attribute [local instance] Sample.asciiCase

namespace Sample

/-- The system, restricted to everyone, with SeTakeOwnership. -/
def takingOwnership (sd : SecurityDescriptor) : EvaluateSecurityDescriptorInput :=
  { check.baseInput sd with
    token :=
      { withPrivileges (token Sid.system) seTakeOwnershipPrivilege with
        restricted := ⟨[⟨Sid.everyone, seGroupEnabled⟩], [], false⟩ } }

/-- Everyone may read. -/
def readableSd : SecurityDescriptor :=
  descriptor Sid.administrators none (some [allow 1#32 Sid.everyone]) (by decide)

/-- Everyone may read, and the system may take ownership. -/
def takeableSd : SecurityDescriptor :=
  descriptor Sid.administrators none
    (some [allow 1#32 Sid.everyone, allow writeOwner Sid.system]) (by decide)

def ownerAce : Ace := (Ace.parse (allow writeOwner Sid.system)).toOption.get (by decide)

theorem appendsAce : AppendsAce ownerAce readableSd takeableSd where
  owner := by decide
  sacl := rfl
  dacl := ⟨readableSd.dacl.get (by decide), takeableSd.dacl.get (by decide), by simp, by simp,
    by decide⟩
  not_ownerRights := by decide

end Sample

open Sample in
/-- The system loses `WRITE_OWNER` when the DACL grants it. -/
theorem evaluateSecurityDescriptor_append_ace_loses :
    AppendsAce ownerAce readableSd takeableSd ∧ ownerAce.aceType = accessAllowedAceType ∧
      ∃ st st', evaluateSecurityDescriptor (takingOwnership readableSd) = .ok st ∧
        evaluateSecurityDescriptor (takingOwnership takeableSd) = .ok st' ∧
        ¬ st.grants ⊆ st'.grants := by
  obtain ⟨st, h, hbefore⟩ := exists_of_map (f := (·.granted)) (c := writeOwner)
    (x := evaluateSecurityDescriptor (takingOwnership readableSd)) (by decide)
  obtain ⟨st', h', hafter⟩ := exists_of_map (f := (·.granted)) (c := 0#32)
    (x := evaluateSecurityDescriptor (takingOwnership takeableSd)) (by decide)
  exact ⟨appendsAce, by decide, st, st', h, h', Grants.not_subset hbefore hafter (by decide)⟩

open Sample in
theorem evaluateSecurityDescriptor_append_ace_sample :
    ∃ st st', evaluateSecurityDescriptor (takingOwnership readableSd) = .ok st ∧
      evaluateSecurityDescriptor (takingOwnership takeableSd) = .ok st' ∧
      Grants.Rel (fun m m' => m &&& ~~~writeOwner ⊆ m') st.grants st'.grants :=
  exists_pair_of_isOk (by decide) (by decide) fun _ _ h h' =>
    (evaluateSecurityDescriptor_append_ace (takingOwnership readableSd) rfl appendsAce h h').1

end Pkm.Kacs
