import Pkm.Kacs.Relabel
/-!
# Getting and setting the security of an object

A merge changes what it was asked to set and nothing else: every component that is
not selected, every control bit that belongs to none of the selected components,
and, where only the label is set, every other entry of the SACL in its place. So
setting what was got changes nothing: the subset of a descriptor, merged back
under the same selection, gives the descriptor's components and its control word.
-/

namespace Pkm.Kacs

open Bits Outcome

/-! ## Control bits -/

/-- The control bits of the owner, the group and the lists that a merge takes from the input. -/
def takenControl (securityInfo : BitVec 32) : BitVec 16 :=
  (if securityInfo &&& ownerSecurityInformation ≠ 0#32 then seOwnerDefaulted else 0#16) |||
    (if securityInfo &&& groupSecurityInformation ≠ 0#32 then seGroupDefaulted else 0#16) |||
    (if securityInfo &&& daclSecurityInformation ≠ 0#32 then daclControl else 0#16) |||
    (if securityInfo &&& saclSecurityInformation ≠ 0#32 then saclControl else 0#16)

/-- The control bits that belong to what is selected. A label is an entry of the SACL, so setting
it may make a SACL appear or disappear. -/
def selectedControl (securityInfo : BitVec 32) : BitVec 16 :=
  takenControl securityInfo |||
    (if securityInfo &&& daclSecurityInformation ≠ 0#32 then seDaclPresent else 0#16) |||
    (if securityInfo &&& (saclSecurityInformation ||| labelSecurityInformation) ≠ 0#32 then
      seSaclPresent else 0#16)

/-- Replacing some bits, if they are selected. -/
theorem bit_replace (p : Prop) [Decidable p] (control input bits : BitVec 16) (i : Fin 16) :
    bit (if p then replaceControlBits control input bits else control) i =
      if bit (if p then bits else 0#16) i then bit input i else bit control i := by
  unfold replaceControlBits
  by_cases hp : p
  · simp only [if_pos hp]
    cases h : bit bits i <;> simp [h]
  · simp [if_neg hp]

/-- **The merged control word, bit by bit.** -/
theorem bit_mergedSdControl (current input : BitVec 16) (securityInfo : BitVec 32) (i : Fin 16) :
    bit (mergedSdControl current input securityInfo) i =
      if bit (takenControl securityInfo) i then bit input i else bit current i := by
  unfold mergedSdControl takenControl
  simp only [bit_replace, bit_or _ (ite _ _ _)]
  generalize bit (if securityInfo &&& ownerSecurityInformation ≠ 0#32 then _ else _) i = o,
    bit (if securityInfo &&& groupSecurityInformation ≠ 0#32 then _ else _) i = g,
    bit (if securityInfo &&& daclSecurityInformation ≠ 0#32 then _ else _) i = d,
    bit (if securityInfo &&& saclSecurityInformation ≠ 0#32 then _ else _) i = s
  cases o <;> cases g <;> cases d <;> cases s <;> rfl

/-- A selection of neither of two selects neither. -/
theorem and_or_eq_zero {info a b : BitVec 32} (h : info &&& (a ||| b) = 0#32) :
    info &&& a = 0#32 ∧ info &&& b = 0#32 := by
  rwa [BitVec.and_or_distrib_left, BitVec.or_eq_zero_iff] at h

/-- Adding some bits of a word, if they are selected. -/
theorem bit_add (p : Prop) [Decidable p] (control base bits : BitVec 16) (i : Fin 16) :
    bit (if p then control ||| (base &&& bits) else control) i =
      (bit control i || (bit base i && bit (if p then bits else 0#16) i)) := by
  by_cases hp : p
  · simp [if_pos hp, bit_and]
  · simp [if_neg hp, Bool.or_false]

/-- **A subset hands out the bits a merge takes.** -/
theorem bit_sdSubsetControl (base : BitVec 16) {securityInfo : BitVec 32} {i : Fin 16}
    (h : bit (takenControl securityInfo) i = true) :
    bit (sdSubsetControl base securityInfo) i = bit base i := by
  -- who asks for the SACL asks for the SACL or the label
  have hsacl : securityInfo &&& saclSecurityInformation ≠ 0#32 →
      securityInfo &&& (saclSecurityInformation ||| labelSecurityInformation) ≠ 0#32 :=
    fun hs hnone => hs (and_or_eq_zero hnone).1
  unfold takenControl at h
  unfold sdSubsetControl
  simp only [bit_add, bit_and]
  rw [bit_or, bit_or, bit_or, Bool.or_eq_true, Bool.or_eq_true, Bool.or_eq_true] at h
  rcases h with h | h
  · rcases h with (h | h) | h <;>
    · rw [h]
      cases bit base i <;> simp
  · by_cases hs : securityInfo &&& saclSecurityInformation ≠ 0#32
    · rw [if_pos hs] at h
      rw [if_pos (hsacl hs), h]
      cases bit base i <;> simp
    · rw [if_neg hs, bit_zero] at h
      cases h

/-! ## The frame of a merge -/

/-- Everything but the selected components is as it was. -/
structure KeepsUnselected (securityInfo : BitVec 32) (current sd : SecurityDescriptor) : Prop where
  owner : securityInfo &&& ownerSecurityInformation = 0#32 → sd.owner = current.owner
  group : securityInfo &&& groupSecurityInformation = 0#32 → sd.group = current.group
  dacl : securityInfo &&& daclSecurityInformation = 0#32 → sd.dacl = current.dacl
  sacl : securityInfo &&& saclSecurityInformation = 0#32 →
    securityInfo &&& labelSecurityInformation = 0#32 → sd.sacl = current.sacl
  entries : securityInfo &&& saclSecurityInformation = 0#32 →
    (aclEntries sd.sacl).filter notLabel = (aclEntries current.sacl).filter notLabel
  control : sd.control &&& ~~~selectedControl securityInfo =
    current.control &&& ~~~selectedControl securityInfo
  resourceManagerControl : sd.resourceManagerControl = current.resourceManagerControl

section Merge

variable {subject : BootToken} {currentSd inputSd sd : SecurityDescriptor}
  {securityInfo : BitVec 32} {allowRestoreOwnerAssignment : Bool}

namespace Merged

variable (h : Merged subject currentSd inputSd securityInfo allowRestoreOwnerAssignment sd)

include h

/-- Where the SACL is not set, its other entries stay. -/
theorem filter_entries (hs : securityInfo &&& saclSecurityInformation = 0#32) :
    (aclEntries sd.sacl).filter notLabel = (aclEntries currentSd.sacl).filter notLabel ∧
      (securityInfo &&& labelSecurityInformation = 0#32 → sd.sacl = currentSd.sacl) := by
  have hinj : Function.Injective (Option.map Acl.bytes) := Option.map_injective fun _ _ => Acl.ext
  rcases mergedSacl_cases h.sacl_eq with ⟨hset, -⟩ | ⟨-, hset, found, hfound, -, hrelabel⟩ |
    ⟨-, -, hbytes⟩
  · exact absurd hs hset
  · rw [parseLabelSubsetAceBytes_eq_ok hfound] at hrelabel
    obtain ⟨sacl, hbytes, hentries⟩ := relabeledSacl_eq_ok hrelabel
    obtain rfl := hinj hbytes
    have hlabel : (labelAce inputSd.sacl).toList.filter notLabel = [] := by
      rw [List.filter_eq_nil_iff]
      intro ace hace
      have htype := List.find?_some (Option.mem_toList.mp hace)
      simpa [notLabel] using (Bool.and_eq_true_iff.mp htype).1
    refine ⟨?_, fun hl => absurd hl hset⟩
    rw [hentries, List.filter_append, hlabel, List.filter_filter]
    simp
  · rw [hinj hbytes]
    exact ⟨rfl, fun _ => rfl⟩

/-- The control bits of a merge. -/
theorem bit_control (i : Fin 16) :
    bit sd.control i =
      if i = 15 then true else if i = 4 then sd.sacl.isSome else if i = 2 then sd.dacl.isSome
      else if bit (takenControl securityInfo) i then bit inputSd.control i
      else bit currentSd.control i := by
  rw [h.control_eq, bit_componentControl, bit_mergedSdControl, Option.isSome_map, Option.isSome_map]

theorem dacl_unselected (hd : securityInfo &&& daclSecurityInformation = 0#32) :
    sd.dacl = currentSd.dacl := by
  rw [h.dacl_eq, if_neg (not_not.mpr hd)]

/-- A bit that belongs to nothing selected is as it was. -/
theorem bit_unselected {i : Fin 16}
    (hselected : bit (selectedControl securityInfo) i = false) :
    bit sd.control i = bit currentSd.control i := by
  obtain ⟨hself, hsaclBit, hdaclBit⟩ := currentSd.bit_control
  unfold selectedControl at hselected
  rw [bit_or, bit_or, Bool.or_eq_false_iff, Bool.or_eq_false_iff] at hselected
  obtain ⟨⟨htaken, hd⟩, hs⟩ := hselected
  rw [h.bit_control, htaken, if_neg Bool.false_ne_true]
  split_ifs with h15 h4 h2
  · rw [h15, hself]
  · -- neither the SACL nor the label is set
    have hnone : securityInfo &&& (saclSecurityInformation ||| labelSecurityInformation) =
        0#32 := by
      by_contra hset
      rw [if_pos hset, h4] at hs
      revert hs
      decide
    obtain ⟨hs, hl⟩ := and_or_eq_zero hnone
    rw [h4, hsaclBit, (h.filter_entries hs).2 hl]
  · have hnone : securityInfo &&& daclSecurityInformation = 0#32 := by
      by_contra hset
      rw [if_pos hset, h2] at hd
      revert hd
      decide
    rw [h2, hdaclBit, h.dacl_unselected hnone]
  · rfl

/-- **A merge keeps what is not selected.** -/
theorem keepsUnselected : KeepsUnselected securityInfo currentSd sd := by
  refine ⟨fun ho => ?_, fun hg => ?_, h.dacl_unselected, fun hs => (h.filter_entries hs).2,
    fun hs => (h.filter_entries hs).1, ?_, h.resourceManagerControl_eq⟩
  · obtain ⟨owner, howner, hsd⟩ := h.owner_eq
    unfold mergedOwner at howner
    rw [if_neg (not_not.mpr ho)] at howner
    cases hcurrent : currentSd.owner with
    | none => rw [hcurrent] at howner; cases howner
    | some current =>
      rw [hcurrent] at howner
      rw [hsd, Except.ok.inj howner]
  · rw [h.group_eq, if_neg (not_not.mpr hg)]
  · refine ext_bit fun i => ?_
    rw [bit_and, bit_and, bit_not]
    cases hselected : bit (selectedControl securityInfo) i with
    | true => rw [Bool.not_true, Bool.and_false, Bool.and_false]
    | false => rw [h.bit_unselected hselected]

end Merged

/-! ## The round trip -/

/-- What the subset of a descriptor is read as, where the label is not asked for alone. -/
abbrev SubsetOf (securityInfo : BitVec 32) (currentSd : SecurityDescriptor) :
    SecurityDescriptor → Prop :=
  BuiltFrom (sdSubsetControl currentSd.control securityInfo) currentSd.resourceManagerControl
    (ifSelected securityInfo ownerSecurityInformation currentSd.owner)
    (ifSelected securityInfo groupSecurityInformation currentSd.group)
    (ifSelected securityInfo saclSecurityInformation currentSd.sacl)
    (ifSelected securityInfo daclSecurityInformation currentSd.dacl)

theorem ifSelected_map {α β : Type} (securityInfo info : BitVec 32) (f : α → β)
    (component : Option α) :
    ifSelected securityInfo info (component.map f) =
      (ifSelected securityInfo info component).map f := by
  unfold ifSelected
  split <;> rfl

theorem buildSdSubsetFromDescriptor_eq_ok {subset : Bytes}
    (hlabel : securityInfo &&& labelSecurityInformation = 0#32)
    (h : buildSdSubsetFromDescriptor currentSd securityInfo = .ok subset) :
    ∃ sd, SecurityDescriptor.parse subset = .ok sd ∧ SubsetOf securityInfo currentSd sd := by
  obtain ⟨⟨⟩, -, h⟩ := of_bind h
  rw [if_neg (not_not.mpr hlabel)] at h
  simp only [ok_bind, Option.or_none, ifSelected_map] at h
  exact parse_of_buildSdBytesFromComponents h

/-- **Merging the subset back changes nothing.** -/
theorem Merged.eq_of_subset (hbuilt : SubsetOf securityInfo currentSd inputSd)
    (hlabel : securityInfo &&& labelSecurityInformation = 0#32)
    (h : Merged subject currentSd inputSd securityInfo allowRestoreOwnerAssignment sd) :
    sd.owner = currentSd.owner ∧ sd.group = currentSd.group ∧ sd.sacl = currentSd.sacl ∧
      sd.dacl = currentSd.dacl ∧ sd.control = currentSd.control := by
  have hkeeps := h.keepsUnselected
  have howner : sd.owner = currentSd.owner := by
    by_cases ho : securityInfo &&& ownerSecurityInformation = 0#32
    · exact hkeeps.owner ho
    · obtain ⟨owner, howner, hsd⟩ := h.owner_eq
      unfold mergedOwner at howner
      rw [if_pos ho, hbuilt.owner_eq, ifSelected, if_pos ho] at howner
      cases hcurrent : currentSd.owner with
      | none => rw [hcurrent] at howner; cases howner
      | some current =>
        rw [hcurrent] at howner
        obtain ⟨⟨⟩, -, howner⟩ := of_bind howner
        rw [hsd, Except.ok.inj howner]
  have hgroup : sd.group = currentSd.group := by
    rw [h.group_eq, hbuilt.group_eq, ifSelected]
    split <;> rfl
  have hdacl : sd.dacl = currentSd.dacl := by
    rw [h.dacl_eq, hbuilt.dacl_eq, ifSelected]
    split <;> rfl
  have hsacl : sd.sacl = currentSd.sacl := by
    by_cases hs : securityInfo &&& saclSecurityInformation = 0#32
    · exact hkeeps.sacl hs hlabel
    · rcases mergedSacl_cases h.sacl_eq with ⟨-, hbytes, -⟩ | ⟨hno, -⟩ | ⟨hno, -⟩
      · rw [hbuilt.sacl_eq, ifSelected, if_pos hs] at hbytes
        exact Option.map_injective (fun _ _ => Acl.ext) hbytes
      · exact absurd hno hs
      · exact absurd hno hs
  refine ⟨howner, hgroup, hsacl, hdacl, ext_bit fun i => ?_⟩
  obtain ⟨hself, hsaclBit, hdaclBit⟩ := currentSd.bit_control
  rw [h.bit_control, hsacl, hdacl]
  split_ifs with h15 h4 h2 htaken
  · rw [h15, hself]
  · rw [h4, hsaclBit]
  · rw [h2, hdaclBit]
  · -- a bit taken from the subset, which has it from the current descriptor
    rw [hbuilt.control_eq, bit_componentControl, if_neg h15, if_neg h4, if_neg h2,
      bit_sdSubsetControl _ htaken]
  · rfl

end Merge

/-- **Getting and setting the security of an object.** Under a selection of owner, group and whole
lists, merging a descriptor's own subset back gives the descriptor's components, its lists byte
for byte, and its control word. And every merge keeps what is not selected: components, control
bits, the resource manager's byte, and under a label the other entries of the SACL, in order. -/
theorem mergeSdWithCurrentDescriptor_round_trip (subject : BootToken)
    (currentSd : SecurityDescriptor) (securityInfo : BitVec 32)
    (allowRestoreOwnerAssignment : Bool) :
    (∀ subset bytes,
      securityInfo &&& ~~~(ownerSecurityInformation ||| groupSecurityInformation |||
        daclSecurityInformation ||| saclSecurityInformation) = 0#32 →
      buildSdSubsetFromDescriptor currentSd securityInfo = .ok subset →
      mergeSdWithCurrentDescriptor subject currentSd securityInfo subset
        allowRestoreOwnerAssignment = .ok bytes →
      ∃ sd, SecurityDescriptor.parse bytes = .ok sd ∧ sd.owner = currentSd.owner ∧
        sd.group = currentSd.group ∧ sd.sacl = currentSd.sacl ∧ sd.dacl = currentSd.dacl ∧
        sd.control = currentSd.control) ∧
    (∀ inputSdBytes bytes,
      mergeSdWithCurrentDescriptor subject currentSd securityInfo inputSdBytes
        allowRestoreOwnerAssignment = .ok bytes →
      ∃ sd, SecurityDescriptor.parse bytes = .ok sd ∧
        KeepsUnselected securityInfo currentSd sd) := by
  refine ⟨fun subset bytes hinfo hsubset hmerge => ?_, fun inputSdBytes bytes hmerge => ?_⟩
  · have hlabel : securityInfo &&& labelSecurityInformation = 0#32 := by
      have hmask : labelSecurityInformation = ~~~(ownerSecurityInformation |||
          groupSecurityInformation ||| daclSecurityInformation ||| saclSecurityInformation) &&&
          labelSecurityInformation := by decide
      rw [hmask, ← BitVec.and_assoc, hinfo, BitVec.zero_and]
    obtain ⟨inputSd, hinput, hbuilt⟩ := buildSdSubsetFromDescriptor_eq_ok hlabel hsubset
    obtain ⟨inputSd', sd, hinput', hparse, hmerged⟩ := mergeSdWithCurrentDescriptor_eq_ok hmerge
    cases hinput.symm.trans hinput'
    exact ⟨sd, hparse, hmerged.eq_of_subset hbuilt hlabel⟩
  · obtain ⟨inputSd, sd, -, hparse, hmerged⟩ := mergeSdWithCurrentDescriptor_eq_ok hmerge
    exact ⟨sd, hparse, hmerged.keepsUnselected⟩

open Sample in
/-- A subject of low integrity sets the lists of an object to what they are, and then its group. -/
theorem lowSd_round_trip :
    ∃ subset bytes sd bytes' sd',
      buildSdSubsetFromDescriptor lowSd (daclSecurityInformation ||| saclSecurityInformation) =
        .ok subset ∧
      mergeSdWithCurrentDescriptor lowSubject lowSd
        (daclSecurityInformation ||| saclSecurityInformation) subset false = .ok bytes ∧
      SecurityDescriptor.parse bytes = .ok sd ∧ sd.sacl = lowSd.sacl ∧
      sd.control = lowSd.control ∧
      mergeSdWithCurrentDescriptor lowSubject lowSd groupSecurityInformation unlabeledSd.bytes
        false = .ok bytes' ∧
      SecurityDescriptor.parse bytes' = .ok sd' ∧
      KeepsUnselected groupSecurityInformation lowSd sd' := by
  obtain ⟨subset, hsubset⟩ := exists_of_isOk
    (x := buildSdSubsetFromDescriptor lowSd (daclSecurityInformation ||| saclSecurityInformation))
    (by decide +kernel)
  obtain ⟨bytes, hbytes⟩ := exists_of_isOk
    (x := buildSdSubsetFromDescriptor lowSd (daclSecurityInformation ||| saclSecurityInformation)
      >>= fun subset => mergeSdWithCurrentDescriptor lowSubject lowSd
        (daclSecurityInformation ||| saclSecurityInformation) subset false) (by decide +kernel)
  rw [hsubset, ok_bind] at hbytes
  obtain ⟨bytes', hbytes'⟩ := exists_of_isOk
    (x := mergeSdWithCurrentDescriptor lowSubject lowSd groupSecurityInformation
      unlabeledSd.bytes false) (by decide +kernel)
  obtain ⟨sd, hparse, -, -, hsacl, -, hcontrol⟩ :=
    (mergeSdWithCurrentDescriptor_round_trip lowSubject lowSd
      (daclSecurityInformation ||| saclSecurityInformation) false).1 subset bytes (by decide)
      hsubset hbytes
  obtain ⟨sd', hparse', hkeeps⟩ :=
    (mergeSdWithCurrentDescriptor_round_trip lowSubject lowSd groupSecurityInformation
      false).2 _ bytes' hbytes'
  exact ⟨subset, bytes, sd, bytes', sd', hsubset, hbytes, hparse, hsacl, hcontrol, hbytes',
    hparse', hkeeps⟩

end Pkm.Kacs
