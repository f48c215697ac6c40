import Pkm.Kacs.Grants
import Pkm.Kacs.Helpers.Labels
import Pkm.Kacs.Model.EvaluateSd
/-!
# The evaluation of a descriptor, one right at a time

`Resolved input` is an evaluation whose checks pass: the descriptor, the request
after mapping, the labels and the metadata of the SACL, with the facts that they
are what the input gives. From there nothing fails any more. `grantAt i k` says
whether right `i` is granted at node `k`: by the caller's walk or the
take-ownership fallback, narrowed by the walk for the restricting SIDs with what
privileges granted put back, and narrowed by the walk for the confining SIDs.
`evaluateSecurityDescriptor` succeeds exactly on resolved inputs and grants
exactly `grantAt`.
-/

namespace Pkm.Kacs

open Bits InternalDaclEvaluation List Outcome

variable {a b : EvaluateSecurityDescriptorInput} {g : Fin 32 → ℕ → Bool}
  {ev : InternalDaclEvaluation} {normalized : NormalizedDesiredAccess}
  {tree : Option ObjectTypeList}

/-! ## Merging grants -/

namespace Grants

theorem getD_zipWith (f : Mask → Mask → Mask) {l l' : List Mask} {k : ℕ} (hk : k < l.length)
    (hk' : k < l'.length) :
    (List.zipWith f l l').getD k 0#32 = f (l.getD k 0#32) (l'.getD k 0#32) := by
  rw [getD_eq_getElem _ _ (by simp; omega), getElem_zipWith,
    getD_eq_getElem _ _ hk, getD_eq_getElem _ _ hk']

end Grants

/-- What presents the grants of an evaluation says what the state of a node grants. -/
theorem presents_state {states : List AccessDecisionState}
    (hev : Grants.Presents tree ev.grants g) (hs : ev.objectStates = some states) {k : ℕ}
    (hk : k < states.length) (i : Fin 32) : bit states[k].granted i = g i k := by
  have hnode := hev.nodes (l := states.map (·.granted)) (by simp [grants, hs]) (by simpa using hk) i
  rwa [getD_eq_getElem _ _ (by simpa using hk), getElem_map] at hnode

/-- Merging two evaluations of one tree merges their grants right by right. -/
theorem presents_mergeWith {f : Mask → Mask → Mask} {φ : Fin 32 → Bool → Bool → Bool}
    (hf : ∀ a b i, bit (f a b) i = φ i (bit a i) (bit b i))
    {normal other : InternalDaclEvaluation} {h : Fin 32 → ℕ → Bool}
    (hn : Grants.Presents tree normal.grants g) (ho : Grants.Presents tree other.grants h) :
    Grants.Presents tree (mergeWith f normal other).grants fun i k => φ i (g i k) (h i k) := by
  unfold mergeWith
  cases hs : normal.objectStates with
  | none =>
    refine ⟨fun i => ?_, ?_, ?_⟩
    · rw [← hn.scalar, ← ho.scalar]
      exact hf _ _ i
    · have := hn.lengths
      simp only [grants, hs] at this ⊢
      exact this
    · intro l hl
      cases hl
  | some states =>
    obtain ⟨t, rfl⟩ : ∃ t, tree = some t := by
      cases tree with
      | none =>
        have := hn.nodes_eq_none
        simp [grants, hs] at this
      | some t => exact ⟨t, rfl⟩
    obtain ⟨l, hl, hlen⟩ := hn.exists_nodes
    obtain ⟨l', hl', hlen'⟩ := ho.exists_nodes
    obtain rfl : states.map (·.granted) = l := by
      simpa [grants, hs] using hl
    obtain ⟨states', hs', rfl⟩ : ∃ states', other.objectStates = some states' ∧
        states'.map (·.granted) = l' := by
      simpa [grants] using hl'
    simp only [length_map] at hlen hlen'
    simp only [hs']
    set merged := List.zipWith (fun state o => { state with granted := f state.granted o.granted })
      states states' with hmerged
    have hmlen : merged.length = t.len := by rw [length_zipWith]; omega
    refine (presents_of_states hmlen).congr fun i k hk => ?_
    have hk : k < t.len := hk
    rw [cellsOf_of_lt (by omega), ← presents_state hn hs (hlen ▸ hk),
      ← presents_state ho hs' (hlen' ▸ hk)]
    simp only [hmerged, getElem_zipWith]
    exact hf _ _ i

/-- The merge with the restricted pass, for one right. -/
def mergeBit (writeRestricted : Bool) (normal restricted write privilege : Bool) : Bool :=
  (if writeRestricted then (normal && !write) || (normal && restricted && write)
  else normal && restricted) || privilege

theorem bit_mergeGranted (normal restricted writeBits : Mask) (writeRestricted : Bool)
    (privilegeGranted : Mask) (i : Fin 32) :
    bit (mergeGranted normal restricted writeBits writeRestricted privilegeGranted) i =
      mergeBit writeRestricted (bit normal i) (bit restricted i) (bit writeBits i)
        (bit privilegeGranted i) := by
  cases writeRestricted <;> simp [mergeGranted, mergeBit]

/-- The merge is monotone in everything it combines. -/
theorem mergeBit_mono {writeRestricted write : Bool} {n n' r r' p p' : Bool}
    (hn : n = true → n' = true) (hr : r = true → r' = true) (hp : p = true → p' = true)
    (h : mergeBit writeRestricted n r write p = true) :
    mergeBit writeRestricted n' r' write p' = true := by
  revert writeRestricted write n n' r r' p p'
  decide

/-! ## The take-ownership fallback -/

/-- Whether the fallback grants `WRITE_OWNER`. -/
def fallbackFires (normalized : NormalizedDesiredAccess) (effective : BitVec 64)
    (mandatoryDecided rootGranted : Mask) : Bool :=
  (bit normalized.mapped writeOwnerBit || normalized.maximumAllowed) &&
    holds effective seTakeOwnershipPrivilege &&
    !bit mandatoryDecided writeOwnerBit && !bit rootGranted writeOwnerBit

theorem fallbackFires_iff {effective : BitVec 64} {mandatoryDecided rootGranted : Mask} :
    fallbackFires normalized effective mandatoryDecided rootGranted = true ↔
      (decide (normalized.mapped &&& writeOwner ≠ 0#32) || normalized.maximumAllowed) = true ∧
        effective &&& seTakeOwnershipPrivilege ≠ 0#64 ∧
        mandatoryDecided &&& writeOwner = 0#32 ∧ rootGranted &&& writeOwner = 0#32 := by
  have hzero : ∀ m : Mask, m &&& writeOwner = 0#32 ↔ bit m writeOwnerBit = false := fun m => by
    rw [← Bool.not_eq_true, ← and_writeOwner_ne_zero, not_not]
  simp [fallbackFires, holds, and_assoc, hzero]

/-- The state of a node after the fallback fired. -/
def withWriteOwner (state : AccessDecisionState) : AccessDecisionState :=
  if state.granted &&& writeOwner = 0#32 then
    { decided := state.decided ||| writeOwner, granted := state.granted ||| writeOwner }
  else state

theorem bit_withWriteOwner (state : AccessDecisionState) (i : Fin 32) :
    bit (withWriteOwner state).granted i = (bit state.granted i || decide (i = writeOwnerBit)) := by
  unfold withWriteOwner
  split
  · simp
  · rename_i hne
    by_cases hi : i = writeOwnerBit
    · subst hi
      simp [and_writeOwner_ne_zero.mp hne]
    · simp [hi]

/-- Changing every state of an evaluation changes its grants right by right. -/
theorem presents_map_states (hev : Grants.Presents tree ev.grants g)
    {f : AccessDecisionState → AccessDecisionState} {φ : Fin 32 → Bool → Bool}
    (hf : ∀ state i, bit (f state).granted i = φ i (bit state.granted i)) :
    Grants.Presents tree
      (grants ⟨f ev.root, ev.objectStates.map (·.map f)⟩)
      fun i k => φ i (g i k) := by
  refine ⟨fun i => ?_, ?_, ?_⟩
  · rw [← hev.scalar]
    exact hf _ i
  · rw [← hev.lengths]
    cases hs : ev.objectStates <;> simp [grants, hs]
  · intro l hl k hk i
    obtain ⟨states, hs, rfl⟩ : ∃ states, ev.objectStates = some states ∧
        (states.map f).map (·.granted) = l := by
      simpa [grants] using hl
    rw [length_map, length_map] at hk
    rw [getD_eq_getElem _ _ (by simpa using hk), getElem_map, getElem_map,
      ← presents_state hev hs hk]
    exact hf _ i

/-- **The fallback grants `WRITE_OWNER` everywhere or nothing.** -/
theorem applyTakeOwnershipFallback_spec (hev : Grants.Presents tree ev.grants g)
    (normalized : NormalizedDesiredAccess) (effective : BitVec 64) (mandatoryDecided : Mask)
    (provenance : PrivilegeProvenance) :
    let fires := fallbackFires normalized effective mandatoryDecided ev.root.granted
    ∃ root objectStates,
      applyTakeOwnershipFallback ev.root ev.objectStates normalized effective mandatoryDecided
          provenance =
        (root, objectStates,
          { provenance with
            takeOwnershipGranted := provenance.takeOwnershipGranted ||| maskIf fires writeOwner }) ∧
      Grants.Presents tree (grants ⟨root, objectStates⟩)
        fun i k => g i k || (fires && decide (i = writeOwnerBit)) := by
  intro fires
  by_cases hf : fires = true
  · obtain ⟨hreq, hpriv, hmand, hroot⟩ := fallbackFires_iff.mp hf
    refine ⟨withWriteOwner ev.root, ev.objectStates.map (·.map withWriteOwner), ?_, ?_⟩
    · have hwith : withWriteOwner ev.root =
          { decided := ev.root.decided ||| writeOwner
            granted := ev.root.granted ||| writeOwner } := if_pos hroot
      unfold applyTakeOwnershipFallback
      simp only [hreq, hpriv, hmand, hroot, hf, hwith]
      rfl
    · have hbits := presents_map_states hev (φ := fun i b => b || decide (i = writeOwnerBit))
        bit_withWriteOwner
      simpa [hf] using hbits
  · have hoff : fires = false := Bool.not_eq_true _ ▸ hf
    refine ⟨ev.root, ev.objectStates, ?_, ?_⟩
    · have hsame : { provenance with takeOwnershipGranted :=
          provenance.takeOwnershipGranted ||| maskIf fires writeOwner } = provenance := by
        simp [hoff, maskIf]
      rw [hsame]
      unfold applyTakeOwnershipFallback
      simp only
      split_ifs with h₁ h₂ h₃ h₄
      all_goals try rfl
      exact absurd (fallbackFires_iff.mpr ⟨h₁, h₂, not_not.mp h₃, not_not.mp h₄⟩) hf
    · simpa [hoff] using hev

/-! ## Resolved evaluations -/

/-- The tree of an input is never empty. -/
theorem not_isEmpty (tree : Option ObjectTypeList) : tree.any (·.isEmpty) = false := by
  cases tree with
  | none => rfl
  | some t =>
    have := t.len_pos
    simpa [ObjectTypeList.isEmpty, ObjectTypeList.len, length_pos_iff] using this

variable (self : EvaluateSecurityDescriptorInput)

/-- The privileges that take part. -/
def EvaluateSecurityDescriptorInput.effective : BitVec 64 :=
  self.token.privileges.effectiveAccessCheckMask self.privilegeIntent

/-- What privileges seed. -/
def EvaluateSecurityDescriptorInput.seed : Mask := seedBits self.mapping self.effective

def EvaluateSecurityDescriptorInput.seedProvenance : PrivilegeProvenance :=
  Kacs.seedProvenance self.mapping self.effective

/-- The owner's implicit rights are decided as they are granted. -/
theorem startState_subset {d : DaclStateInput}
    (h : d.initialState.granted ⊆ d.initialState.decided) :
    (startState d).granted ⊆ (startState d).decided := by
  unfold startState
  simp only
  split
  · refine subset_iff.mpr fun i hi => ?_
    have hold := bit_of_subset h (i := i)
    simp only [applyBits, if_true, bit_or, Bool.or_eq_true] at hi ⊢
    exact hi.imp_left hold
  · exact h

/-- An evaluation whose checks pass, with everything it reads resolved. -/
structure Resolved [CharCase] (input : EvaluateSecurityDescriptorInput) where
  sd : SecurityDescriptor
  normalized : NormalizedDesiredAccess
  metadata : SaclMetadata
  label : MandatoryLabel
  trustLabel : Option ProcessTrustLabel
  sd_eq : input.sd = some sd
  owner_isSome : sd.owner.isSome = true
  token_valid : validateAccessCheckTokenInvariants input.token = .ok ()
  not_identification :
    ¬ (input.token.tokenType = .impersonation ∧ input.token.impersonationLevel = .identification)
  normalized_eq : input.mapping.normalizeDesiredAccess input.desiredAccess = .ok normalized
  metadata_eq : extractSaclMetadata sd = .ok metadata
  label_eq : resolveMandatoryLabel sd = .ok label
  trustLabel_eq : resolveProcessTrustLabel sd = .ok trustLabel
  trust_applies : TrustApplies trustLabel input.pip

namespace Resolved

variable [CharCase] {input : EvaluateSecurityDescriptorInput} (r : Resolved input)

def micIsActive : Bool := micActive r.label input.token.integrityLevel input.token.mandatoryPolicy

/-- What the mandatory label withholds. -/
def mic : Mask := micBits input.mapping r.label.mask r.micIsActive input.effective

/-- What the process-trust label withholds. -/
def trust : Mask := trustBits input.mapping r.trustLabel input.pip

/-- The state privileges and labels leave for the DACL. -/
def initial : AccessDecisionState where
  decided := accessSystemSecurity ||| input.seed ||| r.mic ||| r.trust
  granted := input.seed &&& ~~~r.trust

/-- What the three walks share. -/
def pass : PassInput where
  sd := r.sd
  token := input.token
  normalized := r.normalized
  validRights := input.mapping.all
  mapping := input.mapping
  objectTree := input.objectTree
  context := { input.conditionalContext with resourceClaims := r.metadata.resourceAttributes }

variable (i : Fin 32) (k : ℕ)

/-- What the caller's own walk grants. -/
noncomputable def walkAt : Bool :=
  (walkCells (r.pass.normalInput r.initial) (sidMatchesToken input.token.subject) i k).granted

/-- Whether the fallback grants `WRITE_OWNER`. -/
noncomputable def fallback : Bool :=
  (bit r.normalized.mapped writeOwnerBit || r.normalized.maximumAllowed) &&
    holds input.effective seTakeOwnershipPrivilege &&
    !bit (r.mic ||| r.trust) writeOwnerBit && !r.walkAt writeOwnerBit 0

/-- What the caller is granted before any narrowing. -/
noncomputable def normalAt : Bool := r.walkAt i k || (r.fallback && decide (i = writeOwnerBit))

/-- What privileges granted, the fallback included. -/
noncomputable def privilegeAt : Bool :=
  bit r.initial.granted i || (r.fallback && decide (i = writeOwnerBit))

/-- What the walk for the restricting SIDs grants. -/
noncomputable def restrictedAt : Bool :=
  (walkCells r.pass.restrictedInput
    (fun sid _ => restrictedContains input.token.restricted.restrictedSids sid) i k).granted

/-- What is left after the restricted pass. -/
noncomputable def mergedAt : Bool :=
  if input.token.restricted.isActive then
    mergeBit input.token.restricted.writeRestricted (r.normalAt i k) (r.restrictedAt i k)
      (bit input.mapping.write i) (r.privilegeAt i)
  else r.normalAt i k

/-- What the walk for the confining SIDs grants. -/
noncomputable def confinedAt (confinementSid : Sid) (i : Fin 32) (k : ℕ) : Bool :=
  (walkCells r.pass.confinementInput
    (fun sid _ => decide (sid = confinementSid) ||
      confinementContainsCapability input.token.confinement sid) i k).granted

/-- **What the evaluation grants.** -/
noncomputable def grantAt : Bool :=
  match input.token.confinement.activeSid with
  | some confinementSid => r.mergedAt i k && r.confinedAt confinementSid i k
  | none => r.mergedAt i k

/-- The provenance after the labels. -/
def labelProvenance : PrivilegeProvenance :=
  { input.seedProvenance with relabelGranted := relabelBits r.micIsActive input.effective }

/-- The provenance the evaluation reports. -/
noncomputable def provenance : PrivilegeProvenance :=
  { r.labelProvenance with takeOwnershipGranted := maskIf r.fallback writeOwner }

end Resolved

/-- The grants of an evaluated descriptor. -/
def EvaluateSecurityDescriptorState.grants (self : EvaluateSecurityDescriptorState) : Grants where
  scalar := self.granted
  nodes := self.objectGrantedList

namespace Resolved

variable [CharCase] {input : EvaluateSecurityDescriptorInput} {ev : InternalDaclEvaluation}

/-- What a successful evaluation reports. -/
structure Yields (r : Resolved input) (st : EvaluateSecurityDescriptorState) : Prop where
  presents : st.grants.Presents input.objectTree r.grantAt
  privilegeGranted : ∀ i, bit st.privilegeGranted i = (r.privilegeAt i && r.grantAt i 0)
  maxAllowedMode : st.maxAllowedMode = r.normalized.maximumAllowed
  mappedDesired : st.mappedDesired = r.normalized.mapped
  resourceAttributes : st.resourceAttributes = r.metadata.resourceAttributes
  policySids : st.policySids = r.metadata.policySids
  pipDecided : st.pipDecided = r.trust
  micDecided : st.micDecided = r.mic
  provenance : st.provenance = r.provenance

/-! ### The stages -/

variable (r : Resolved input)

theorem initial_subset : r.initial.granted ⊆ r.initial.decided := by
  refine subset_iff.mpr fun i hi => ?_
  simp only [initial, bit_and, Bool.and_eq_true] at hi ⊢
  simp [hi.1]

theorem preSaclWalk_eq :
    preSaclWalk
      { sd := r.sd
        tokenIntegrity := input.token.integrityLevel
        mandatoryPolicy := input.token.mandatoryPolicy
        effectivePrivileges := input.effective
        pip := input.pip
        mapping := input.mapping
        initialState := { granted := input.seed, decided := accessSystemSecurity ||| input.seed }
        privilegeGranted := input.seedProvenance.privilegeGranted
        provenance := input.seedProvenance } = .ok
      { decided := r.initial.decided
        granted := r.initial.granted
        privilegeGranted := r.initial.granted
        mandatoryDecided := r.mic ||| r.trust
        pipDecided := r.trust
        micDecided := r.mic
        resourceAttributes := r.metadata.resourceAttributes
        policySids := r.metadata.policySids
        provenance := r.labelProvenance } := by
  have hpriv : input.seedProvenance.privilegeGranted = input.seed := privilegeGranted_seed _ _
  have hzero : input.seedProvenance.relabelGranted = 0#32 := rfl
  simp only [preSaclWalk, r.metadata_eq, r.label_eq, r.trustLabel_eq, ok_bind,
    applyMic_eq, applyTrustLabel_of_applies r.trust_applies, hpriv, hzero, BitVec.zero_or]
  rfl

theorem normalPass_spec :
    ∃ ev, r.pass.normalPass r.initial = .ok ev ∧ ev.grants.Presents input.objectTree r.walkAt :=
  evaluateDaclStates_spec (r.pass.normalInput r.initial) _ (startState_subset r.initial_subset)

theorem restrictedPass_spec :
    ∃ ev, r.pass.restrictedPass = .ok ev ∧ ev.grants.Presents input.objectTree r.restrictedAt :=
  evaluateDaclStates_spec r.pass.restrictedInput _ (startState_subset (subset_refl _))

theorem confinementPass_spec (confinementSid : Sid) :
    ∃ ev, r.pass.confinementPass confinementSid = .ok ev ∧
      ev.grants.Presents input.objectTree (r.confinedAt confinementSid) :=
  evaluateDaclStates_spec r.pass.confinementInput _ (startState_subset (subset_refl _))

/-- The restricted pass narrows what it is given. -/
theorem restrict_spec {privileges : Mask} (hev : ev.grants.Presents input.objectTree r.normalAt)
    (hpriv : ∀ i, bit privileges i = r.privilegeAt i) :
    ∃ ev', r.pass.restrict ev privileges = .ok ev' ∧
      ev'.grants.Presents input.objectTree r.mergedAt := by
  by_cases hactive : input.token.restricted.isActive = true
  · obtain ⟨restricted, hok, hpres⟩ := r.restrictedPass_spec
    have hmerge := presents_mergeWith (φ := fun i a b =>
        mergeBit input.token.restricted.writeRestricted a b (bit input.mapping.write i)
          (bit privileges i))
      (fun a b i => bit_mergeGranted a b input.mapping.write
        input.token.restricted.writeRestricted privileges i) hev hpres
    refine ⟨_, (if_pos hactive).trans (bind_eq_ok.mpr ⟨_, hok, bind_eq_ok.mpr
      ⟨_, input.mapping.mapMask_genericWrite, rfl⟩⟩), hmerge.congr fun i k _ => ?_⟩
    rw [mergedAt, if_pos hactive, hpriv]
  · refine ⟨ev, if_neg hactive, hev.congr fun i k _ => ?_⟩
    rw [mergedAt, if_neg hactive]

/-- The confinement pass narrows what it is given. -/
theorem confine_spec (hev : ev.grants.Presents input.objectTree r.mergedAt) :
    ∃ ev', r.pass.confine ev = .ok ev' ∧ ev'.grants.Presents input.objectTree r.grantAt := by
  change ∃ ev', (match input.token.confinement.activeSid with
    | some confinementSid => do
      let confinement ← r.pass.confinementPass confinementSid
      .ok (mergeAbsoluteResults ev confinement)
    | none => .ok ev) = .ok ev' ∧ _
  cases hsid : input.token.confinement.activeSid with
  | none =>
    refine ⟨ev, rfl, hev.congr fun i k _ => ?_⟩
    rw [grantAt, hsid]
  | some confinementSid =>
    obtain ⟨confinement, hok, hpres⟩ := r.confinementPass_spec confinementSid
    refine ⟨_, by simp only [hok]; rfl, (presents_mergeWith
      (fun a b i => bit_and a b i) hev hpres).congr fun i k _ => ?_⟩
    rw [grantAt, hsid]

/-- **A resolved evaluation succeeds** and grants exactly `grantAt`. -/
theorem evaluateChecked_spec :
    ∃ st, evaluateChecked input r.sd = .ok st ∧ r.Yields st := by
  obtain ⟨normal, hnormal, hpresNormal⟩ := r.normalPass_spec
  have hfires : fallbackFires r.normalized input.effective (r.mic ||| r.trust)
      normal.root.granted = r.fallback := by
    have hroot : bit normal.root.granted writeOwnerBit = r.walkAt writeOwnerBit 0 :=
      hpresNormal.scalar writeOwnerBit
    rw [fallbackFires, hroot]
    rfl
  obtain ⟨root, states, hfallback, hpresFallback⟩ := applyTakeOwnershipFallback_spec hpresNormal
    r.normalized input.effective (r.mic ||| r.trust) r.labelProvenance
  rw [hfires, show r.labelProvenance.takeOwnershipGranted = 0#32 from rfl, BitVec.zero_or]
    at hfallback
  rw [hfires] at hpresFallback
  have hpriv : ∀ i, bit (r.initial.granted ||| maskIf r.fallback writeOwner) i =
      r.privilegeAt i := fun i => by
    rw [bit_or, bit_maskIf, bit_writeOwner]
    rfl
  obtain ⟨restricted, hrestrict, hpresRestricted⟩ := r.restrict_spec hpresFallback hpriv
  obtain ⟨final, hconfine, hpresFinal⟩ := r.confine_spec hpresRestricted
  refine ⟨{ decided := final.root.decided
            granted := final.root.granted
            privilegeGranted :=
              (r.initial.granted ||| maskIf r.fallback writeOwner) &&& final.root.granted
            maxAllowedMode := r.normalized.maximumAllowed
            mappedDesired := r.normalized.mapped
            resourceAttributes := r.metadata.resourceAttributes
            policySids := r.metadata.policySids
            pipDecided := r.trust
            micDecided := r.mic
            provenance := r.provenance
            objectGrantedList := final.objectStates.map (·.map (·.granted)) }, ?_, ?_⟩
  · refine bind_eq_ok.mpr ⟨_, r.normalized_eq, ?_⟩
    refine bind_eq_ok.mpr ⟨_, input.mapping.mapMask_genericAll, ?_⟩
    refine bind_eq_ok.mpr ⟨_, seedAccessCheckPrivileges_eq _ _ _, ?_⟩
    refine bind_eq_ok.mpr ⟨_, r.preSaclWalk_eq, ?_⟩
    refine bind_eq_ok.mpr ⟨normal, hnormal, ?_⟩
    unfold EvaluateSecurityDescriptorInput.effective at hfallback
    simp only [hfallback]
    refine bind_eq_ok.mpr ⟨restricted, hrestrict, ?_⟩
    exact bind_eq_ok.mpr ⟨final, hconfine, rfl⟩
  · refine ⟨hpresFinal, fun i => ?_, rfl, rfl, rfl, rfl, rfl, rfl, rfl⟩
    rw [← hpriv, ← hpresFinal.scalar]
    exact bit_and _ _ i

theorem evaluate :
    ∃ st, evaluateSecurityDescriptor input = .ok st ∧ r.Yields st := by
  obtain ⟨st, hok, hy⟩ := r.evaluateChecked_spec
  refine ⟨st, ?_, hy⟩
  unfold evaluateSecurityDescriptor
  have howner : ¬ r.sd.owner.isNone = true := by
    simpa using Option.isSome_iff_ne_none.mp r.owner_isSome
  rw [r.token_valid, if_neg r.not_identification, r.sd_eq]
  change (if _ then _ else _) = _
  rw [if_neg howner, not_isEmpty, if_neg Bool.false_ne_true, hok]

end Resolved

/-- What one evaluation grants another does, with the same narrowing and if each of its passes
does. -/
theorem Resolved.grantAt_mono [CharCase] (r : Resolved a) {s : Resolved b} {i : Fin 32} {k : ℕ}
    (hrestricted : b.token.restricted = a.token.restricted)
    (hconfinement : b.token.confinement = a.token.confinement) (hmapping : b.mapping = a.mapping)
    (hnormal : r.normalAt i k = true → s.normalAt i k = true)
    (hpass : r.restrictedAt i k = true → s.restrictedAt i k = true)
    (hprivilege : a.token.restricted.isActive = true → r.privilegeAt i = true →
      s.privilegeAt i = true)
    (hconfined : ∀ sid, r.confinedAt sid i k = true → s.confinedAt sid i k = true)
    (hg : r.grantAt i k = true) : s.grantAt i k = true := by
  have hmerged : r.mergedAt i k = true → s.mergedAt i k = true := by
    unfold mergedAt
    rw [hrestricted, hmapping]
    split
    · exact mergeBit_mono hnormal hpass (hprivilege ‹_›)
    · exact hnormal
  unfold grantAt at hg ⊢
  rw [hconfinement]
  split at hg
  · rw [Bool.and_eq_true] at hg ⊢
    exact ⟨hmerged hg.1, hconfined _ hg.2⟩
  · exact hmerged hg

/-- Two resolved evaluations of one descriptor read the same from it. -/
theorem Resolved.agree [CharCase] (r : Resolved a) (r' : Resolved b) (h : a.sd = b.sd) :
    r.sd = r'.sd ∧ r.metadata = r'.metadata ∧ r.label = r'.label ∧
      r.trustLabel = r'.trustLabel := by
  have hsd : r.sd = r'.sd := Option.some.inj (r.sd_eq.symm.trans (h.trans r'.sd_eq))
  refine ⟨hsd, ?_, ?_, ?_⟩
  · exact Except.ok.inj (r.metadata_eq.symm.trans (hsd ▸ r'.metadata_eq))
  · exact Except.ok.inj (r.label_eq.symm.trans (hsd ▸ r'.label_eq))
  · exact Except.ok.inj (r.trustLabel_eq.symm.trans (hsd ▸ r'.trustLabel_eq))

/-- What is resolved for one input is resolved for another of the same descriptor, up to the checks
that depend on the token, the request and the trust of the process. -/
theorem Resolved.transfer [CharCase] (r : Resolved a) (hsd : a.sd = b.sd)
    (hvalid : validateAccessCheckTokenInvariants b.token = .ok ()) (hident :
      ¬ (b.token.tokenType = .impersonation ∧ b.token.impersonationLevel = .identification))
    (hnorm : b.mapping.normalizeDesiredAccess b.desiredAccess = .ok normalized)
    (htrust : TrustApplies r.trustLabel b.pip) : Nonempty (Resolved b) :=
  ⟨⟨r.sd, normalized, r.metadata, r.label, r.trustLabel, hsd ▸ r.sd_eq, r.owner_isSome, hvalid,
    hident, hnorm, r.metadata_eq, r.label_eq, r.trustLabel_eq, htrust⟩⟩

/-- **A successful evaluation is a resolved one** and grants exactly `grantAt`. -/
theorem exists_resolved [CharCase] {input : EvaluateSecurityDescriptorInput}
    {st : EvaluateSecurityDescriptorState} (h : evaluateSecurityDescriptor input = .ok st) :
    ∃ r : Resolved input, r.Yields st := by
  have hall := h
  obtain ⟨⟨⟩, htoken, h⟩ := of_bind h
  obtain ⟨hident, h⟩ := of_guard h
  split at h
  · cases h
  · rename_i sd hsd
    obtain ⟨howner, h⟩ := of_guard h
    obtain ⟨-, h⟩ := of_guard h
    obtain ⟨normalized, hnorm, h⟩ := of_bind h
    obtain ⟨valid, -, h⟩ := of_bind h
    obtain ⟨seed, -, h⟩ := of_bind h
    obtain ⟨pre, hpre, -⟩ := of_bind h
    obtain ⟨metadata, hmeta, hpre⟩ := of_bind hpre
    obtain ⟨label, hlabel, hpre⟩ := of_bind hpre
    obtain ⟨trustLabel, htrust, hpre⟩ := of_bind hpre
    obtain ⟨⟨mic, decided, provenance⟩, -, hpre⟩ := of_bind hpre
    obtain ⟨result, happ, -⟩ := of_bind hpre
    let r : Resolved input :=
      { sd, normalized, metadata, label, trustLabel
        sd_eq := hsd
        owner_isSome := by
          rw [Option.isNone_iff_eq_none, ← Option.not_isSome_iff_eq_none] at howner
          exact not_not.mp howner
        token_valid := htoken
        not_identification := hident
        normalized_eq := hnorm
        metadata_eq := hmeta
        label_eq := hlabel
        trustLabel_eq := htrust
        trust_applies := applies_of_applyTrustLabel happ }
    obtain ⟨st', hok, hy⟩ := r.evaluate
    cases hok.symm.trans hall
    exact ⟨r, hy⟩

end Pkm.Kacs
