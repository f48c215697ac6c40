import Pkm.Kacs.Model.PreSacl
/-!
# Privileges and labels in closed form

The steps before the DACL are partial only through the masks they map, and the
masks they map are constants or come from an entry. What each step adds is
written here as a mask: what privileges seed, what the mandatory label withholds
and what the process-trust label withholds. The last needs the mask of the label
to be one that can be mapped, unless the caller dominates the label.
-/

namespace Pkm.Kacs

open Bits Outcome

variable {a b effective privilege : BitVec 64} {mapping : GenericMapping}
  {trustLabel : Option ProcessTrustLabel} {pip pip' : PipContext}

/-! ## Privileges -/

/-- Whether some effective privilege is the given one. -/
def holds (effective privilege : BitVec 64) : Bool := decide (effective &&& privilege ≠ 0#64)

theorem holds_mono (h : a ⊆ b) (ha : holds a privilege = true) : holds b privilege = true :=
  decide_eq_true (and_ne_zero_mono h (of_decide_eq_true ha))

/-- A mask, or nothing. -/
def maskIf (p : Bool) (m : Mask) : Mask := if p then m else 0#32

@[simp]
theorem bit_maskIf (p : Bool) (m : Mask) (i : Fin 32) : bit (maskIf p m) i = (p && bit m i) := by
  cases p <;> simp [maskIf]

section

variable (mapping : GenericMapping) (effective : BitVec 64)

def securityBits : Mask := maskIf (holds effective seSecurityPrivilege) accessSystemSecurity

def backupBits : Mask := maskIf (holds effective seBackupPrivilege) mapping.read

def restoreBits : Mask :=
  maskIf (holds effective seRestorePrivilege)
    (mapping.write ||| writeDac ||| writeOwner ||| delete ||| accessSystemSecurity)

/-- Everything privileges grant before the SACL is read. -/
def seedBits : Mask :=
  securityBits effective ||| backupBits mapping effective ||| restoreBits mapping effective

/-- Which privilege seeded what. -/
def seedProvenance : PrivilegeProvenance where
  securityGranted := securityBits effective
  backupGranted := backupBits mapping effective
  restoreGranted := restoreBits mapping effective
  takeOwnershipGranted := 0#32
  relabelGranted := 0#32

/-- What the seeds are worth as a mask. -/
theorem privilegeGranted_seed :
    (seedProvenance mapping effective).privilegeGranted = seedBits mapping effective := by
  simp [PrivilegeProvenance.privilegeGranted, seedProvenance, seedBits]

end

/-- More privileges seed more. -/
theorem seedBits_mono (mapping : GenericMapping) (h : a ⊆ b) :
    seedBits mapping a ⊆ seedBits mapping b := by
  refine subset_iff.mpr fun i hi => ?_
  simp only [seedBits, securityBits, backupBits, restoreBits, bit_or, bit_maskIf,
    Bool.or_eq_true, Bool.and_eq_true] at hi ⊢
  rcases hi with (⟨hp, hi⟩ | ⟨hp, hi⟩) | ⟨hp, hi⟩
  · exact .inl (.inl ⟨holds_mono h hp, hi⟩)
  · exact .inl (.inr ⟨holds_mono h hp, hi⟩)
  · exact .inr ⟨holds_mono h hp, hi⟩

theorem maskIf_holds (m : Mask) :
    maskIf (holds effective privilege) m =
      if effective &&& privilege ≠ 0#64 then m else 0#32 := by
  simp [maskIf, holds]

theorem seedSecurity_eq (state : PrivilegeGrantState) :
    seedSecurity state =
      { state with
        granted := state.granted ||| securityBits state.effectivePrivileges
        provenance.securityGranted :=
          state.provenance.securityGranted ||| securityBits state.effectivePrivileges } := by
  unfold seedSecurity securityBits
  rw [maskIf_holds]
  split <;> simp

theorem seedBackup_eq (mapping : GenericMapping) (state : PrivilegeGrantState) :
    seedBackup mapping state = .ok
      { state with
        decided := state.decided ||| backupBits mapping state.effectivePrivileges
        granted := state.granted ||| backupBits mapping state.effectivePrivileges
        provenance.backupGranted :=
          state.provenance.backupGranted ||| backupBits mapping state.effectivePrivileges } := by
  unfold seedBackup backupBits
  rw [maskIf_holds, mapping.mapMask_genericRead]
  split <;> simp

theorem seedRestore_eq (mapping : GenericMapping) (state : PrivilegeGrantState) :
    seedRestore mapping state = .ok
      { state with
        decided := state.decided ||| restoreBits mapping state.effectivePrivileges
        granted := state.granted ||| restoreBits mapping state.effectivePrivileges
        provenance.restoreGranted :=
          state.provenance.restoreGranted ||| restoreBits mapping state.effectivePrivileges } := by
  unfold seedRestore restoreBits
  rw [maskIf_holds, mapping.mapMask_genericWrite]
  split <;> simp

/-- **Seeding never fails**, and records which privilege granted what. -/
theorem seedAccessCheckPrivileges_eq (privileges : TokenPrivileges) (mapping : GenericMapping)
    (privilegeIntent : BitVec 32) :
    let effective := privileges.effectiveAccessCheckMask privilegeIntent
    seedAccessCheckPrivileges privileges mapping privilegeIntent = .ok
      { effectivePrivileges := effective
        decided := accessSystemSecurity ||| seedBits mapping effective
        granted := seedBits mapping effective
        provenance := seedProvenance mapping effective } := by
  intro effective
  have hdecided : accessSystemSecurity ||| backupBits mapping effective |||
      restoreBits mapping effective = accessSystemSecurity ||| seedBits mapping effective := by
    -- what SeSecurity grants is decided from the start
    refine ext_bit fun i => ?_
    simp only [seedBits, securityBits, bit_or, bit_maskIf]
    cases bit accessSystemSecurity i <;> simp
  simp only [seedAccessCheckPrivileges, seedSecurity_eq, seedBackup_eq, seedRestore_eq,
    ok_bind, PrivilegeProvenance.none, BitVec.zero_or]
  rw [← hdecided]
  rfl

/-! ## The mandatory label -/

/-- Whether a mandatory label holds a caller back. -/
def micActive (label : MandatoryLabel) (tokenIntegrity : IntegrityLevel)
    (mandatoryPolicy : BitVec 32) : Bool :=
  decide (mandatoryPolicy &&& tokenMandatoryPolicyNoWriteUp ≠ 0#32) &&
    decide (tokenIntegrity < label.integrityLevel)

/-- Removes the bits of a right that a label names. -/
def stripIf (mask flag : Mask) (bits allowed : Mask) : Mask :=
  if mask &&& flag ≠ 0#32 then allowed &&& ~~~bits else allowed

/-- What a label leaves to a caller below it, relabelling apart. -/
def micAllowed (mapping : GenericMapping) (mask : Mask) : Mask :=
  stripIf mask systemMandatoryLabelNoExecuteUp mapping.execute
    (stripIf mask systemMandatoryLabelNoWriteUp mapping.write
      (stripIf mask systemMandatoryLabelNoReadUp mapping.read
        (mapping.read ||| mapping.execute))) ||| (readControl ||| synchronize)

/-- `WRITE_OWNER`, when SeRelabel lifts it above the label. -/
def relabelBits (active : Bool) (effective : BitVec 64) : Mask :=
  maskIf (active && holds effective seRelabelPrivilege) writeOwner

/-- What the mandatory label withholds. -/
def micBits (mapping : GenericMapping) (mask : Mask) (active : Bool) (effective : BitVec 64) :
    Mask :=
  maskIf active (mapping.all &&& ~~~(micAllowed mapping mask ||| relabelBits active effective))

/-- **The mandatory label never fails to be applied**, and only withholds. -/
theorem applyMic_eq (label : MandatoryLabel) (tokenIntegrity : IntegrityLevel)
    (mandatoryPolicy : BitVec 32) (effective : BitVec 64) (mapping : GenericMapping)
    (decided : Mask) (provenance : PrivilegeProvenance) :
    let active := micActive label tokenIntegrity mandatoryPolicy
    applyMic label tokenIntegrity mandatoryPolicy effective mapping decided provenance =
      .ok (micBits mapping label.mask active effective,
        decided ||| micBits mapping label.mask active effective,
        { provenance with
          relabelGranted := provenance.relabelGranted ||| relabelBits active effective }) := by
  intro active
  unfold applyMic
  by_cases hpolicy : mandatoryPolicy &&& tokenMandatoryPolicyNoWriteUp = 0#32
  · have hoff : active = false := by simp [active, micActive, hpolicy]
    simp [hpolicy, hoff, micBits, relabelBits, maskIf]
  · by_cases hlevel : tokenIntegrity ≥ label.integrityLevel
    · have hoff : active = false := by
        simp [active, micActive, BitVec.not_lt.mpr hlevel]
      simp [hlevel, hoff, micBits, relabelBits, maskIf]
    · have hon : active = true := by
        simp [active, micActive, hpolicy, BitVec.not_le.mp hlevel]
      rw [if_neg hpolicy, if_neg hlevel, mapping.mapMask_genericRead,
        mapping.mapMask_genericWrite, mapping.mapMask_genericExecute, mapping.mapMask_genericAll]
      simp only [hon, micBits, relabelBits, Bool.true_and, maskIf_holds]
      by_cases hrelabel : effective &&& seRelabelPrivilege ≠ 0#64
      · simp only [if_pos hrelabel]
        rfl
      · simp only [if_neg hrelabel, BitVec.or_zero]
        rfl

/-- A stronger token is held back from less. -/
theorem micBits_anti {mask : Mask} {active active' : Bool} {effective' : BitVec 64}
    (hactive : active' = true → active = true) (heff : effective ⊆ effective') :
    micBits mapping mask active' effective' ⊆ micBits mapping mask active effective := by
  refine subset_iff.mpr fun i hi => ?_
  simp only [micBits, relabelBits, bit_maskIf, bit_and, bit_or, bit_not, Bool.and_eq_true,
    Bool.not_eq_true', Bool.or_eq_false_iff] at hi ⊢
  obtain ⟨ha', hall, hallowed, hrelabel⟩ := hi
  have ha := hactive ha'
  refine ⟨ha, hall, hallowed, ?_⟩
  rw [ha'] at hrelabel
  rw [ha]
  cases hh : holds effective seRelabelPrivilege with
  | false => rfl
  | true => rw [holds_mono heff hh] at hrelabel; exact hrelabel

theorem micActive_anti {label : MandatoryLabel} {a b : IntegrityLevel} {policy : BitVec 32}
    (h : a ≤ b) (hb : micActive label b policy = true) : micActive label a policy = true := by
  simp only [micActive, Bool.and_eq_true, decide_eq_true_eq] at hb ⊢
  refine ⟨hb.1, ?_⟩
  have hlt := hb.2
  rw [BitVec.lt_def] at hlt ⊢
  rw [BitVec.le_def] at h
  omega

/-! ## The process-trust label -/

/-- Whether a caller dominates a process-trust label. -/
def dominates (pip : PipContext) (label : ProcessTrustLabel) : Bool :=
  decide (pip.pipType ≥ label.pipType ∧ pip.pipTrust ≥ label.pipTrust)

/-- What the process-trust label withholds. -/
def trustBits (mapping : GenericMapping) (trustLabel : Option ProcessTrustLabel)
    (pip : PipContext) : Mask :=
  match trustLabel with
  | some label =>
    maskIf (!dominates pip label)
      ((mapping.all ||| accessSystemSecurity) &&& ~~~mapping.mapBits label.mask)
  | none => 0#32

/-- The mask of the label can be mapped, or is not needed. -/
def TrustApplies (trustLabel : Option ProcessTrustLabel) (pip : PipContext) : Prop :=
  ∀ label, trustLabel = some label → dominates pip label = false →
    validateNoReservedBits label.mask = .ok ()

theorem and_not_zero (m : Mask) : m &&& ~~~0#32 = m :=
  ext_bit fun i => by rw [bit_and, bit_not, bit_zero, Bool.not_false, Bool.and_true]

/-- The process-trust label is applied whenever its mask can be mapped or is not needed. -/
theorem applyTrustLabel_of_applies (h : TrustApplies trustLabel pip) (mapping : GenericMapping)
    (decided granted privilegeGranted : Mask) :
    applyTrustLabel trustLabel pip mapping decided granted privilegeGranted =
      .ok (trustBits mapping trustLabel pip, decided ||| trustBits mapping trustLabel pip,
        granted &&& ~~~trustBits mapping trustLabel pip,
        privilegeGranted &&& ~~~trustBits mapping trustLabel pip) := by
  cases trustLabel with
  | none => simp only [applyTrustLabel, trustBits, BitVec.or_zero, and_not_zero]
  | some label =>
    unfold applyTrustLabel applyPip trustBits
    by_cases hdom : pip.pipType ≥ label.pipType ∧ pip.pipTrust ≥ label.pipTrust
    · have htrue : dominates pip label = true := decide_eq_true hdom
      have hzero : ∀ m, maskIf (!true) m = 0#32 := fun _ => rfl
      simp only [if_pos hdom, htrue, hzero, BitVec.or_zero, and_not_zero]
    · have hfalse : dominates pip label = false := decide_eq_false hdom
      simp only [if_neg hdom]
      rw [mapping.mapMask_of_noReserved (h label rfl hfalse), mapping.mapMask_genericAll]
      simp [hfalse, maskIf]

/-- Where it is applied, the mask could be mapped or was not needed. -/
theorem applies_of_applyTrustLabel {decided granted privilegeGranted : Mask}
    {result : Mask × Mask × Mask × Mask}
    (h : applyTrustLabel trustLabel pip mapping decided granted privilegeGranted = .ok result) :
    TrustApplies trustLabel pip := by
  rintro label rfl hdom
  unfold applyTrustLabel applyPip at h
  simp only [if_neg (of_decide_eq_false hdom)] at h
  obtain ⟨allowed, hmap, -⟩ := of_bind h
  obtain ⟨⟨⟩, hv, -⟩ := of_bind hmap
  exact hv

/-- A caller of more trust is held back from less. -/
theorem trustBits_anti (h : ∀ label, dominates pip label = true → dominates pip' label = true) :
    trustBits mapping trustLabel pip' ⊆ trustBits mapping trustLabel pip := by
  cases trustLabel with
  | none => exact subset_refl _
  | some label =>
    refine subset_iff.mpr fun i hi => ?_
    simp only [trustBits, bit_maskIf, Bool.and_eq_true] at hi ⊢
    refine ⟨?_, hi.2⟩
    cases hd : dominates pip label with
    | false => rfl
    | true => rw [h label hd] at hi; exact hi.1

theorem TrustApplies.mono (h : ∀ label, dominates pip label = true → dominates pip' label = true)
    (ht : TrustApplies trustLabel pip) : TrustApplies trustLabel pip' := by
  intro label hl hd
  refine ht label hl ?_
  cases hd' : dominates pip label with
  | false => rfl
  | true => rw [h label hd'] at hd; exact hd

end Pkm.Kacs
