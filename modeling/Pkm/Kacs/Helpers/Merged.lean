import Pkm.Kacs.Helpers.Written
import Pkm.Kacs.Model.SdMerge
/-!
# The descriptor of a merge

What is built from components parses back to them, with a control word that
announces the lists that are there and is otherwise the one it was built with. So
a merge is known by its parts: `Merged` says where each component of the merged
descriptor comes from.
-/

namespace Pkm.Kacs

open Outcome

open SecurityDescriptor (parseViews_assemble length_assemble)

variable {securityInfo : BitVec 32} {subject : BootToken}

/-! ## The written descriptor -/

/-- The control word, bit by bit. -/
theorem bit_componentControl (base : BitVec 16) (sacl dacl : Option Bytes) (i : Fin 16) :
    Bits.bit (componentControl base sacl dacl) i =
      if i = 15 then true else if i = 4 then sacl.isSome else if i = 2 then dacl.isSome
      else Bits.bit base i := by
  unfold componentControl
  cases sacl <;> cases dacl <;>
    simp only [Option.isSome_none, Option.isSome_some, Bool.false_eq_true, if_false, if_true,
      Bits.bit_or, Bits.bit_and, Bits.bit_not, bit_seSelfRelative, bit_seDaclPresent,
      bit_seSaclPresent] <;>
    split_ifs <;> simp_all

/-- The control word announces the lists that are there. -/
theorem componentControl_flags (base : BitVec 16) (sacl dacl : Option Bytes) :
    componentControl base sacl dacl &&& seSelfRelative ≠ 0#16 ∧
      decide (componentControl base sacl dacl &&& seSaclPresent ≠ 0#16) = sacl.isSome ∧
      decide (componentControl base sacl dacl &&& seDaclPresent ≠ 0#16) = dacl.isSome := by
  simp only [Bits.and_flag_ne_zero_iff bit_seSelfRelative,
    Bits.and_flag_ne_zero_iff bit_seDaclPresent, Bits.and_flag_ne_zero_iff bit_seSaclPresent,
    bit_componentControl]
  cases sacl <;> cases dacl <;> simp

/-- What a descriptor built from components is read as. -/
structure BuiltFrom (base : BitVec 16) (rmControl : Byte) (owner group : Option Sid)
    (sacl dacl : Option Acl) (sd : SecurityDescriptor) : Prop where
  owner_eq : sd.owner = owner
  group_eq : sd.group = group
  sacl_eq : sd.sacl = sacl
  dacl_eq : sd.dacl = dacl
  control_eq : sd.control = componentControl base (sacl.map Acl.bytes) (dacl.map Acl.bytes)
  resourceManagerControl_eq : sd.resourceManagerControl = rmControl

variable {bytes : Bytes} {currentSd : SecurityDescriptor}

/-- **A descriptor built from components parses back to them.** -/
theorem parse_of_buildSdBytesFromComponents {base : BitVec 16} {rmControl : Byte}
    {owner group : Option Sid} {sacl dacl : Option Acl}
    (h : buildSdBytesFromComponents base rmControl (owner.map Sid.bytes) (group.map Sid.bytes)
      (sacl.map Acl.bytes) (dacl.map Acl.bytes) = .ok bytes) :
    ∃ sd, SecurityDescriptor.parse bytes = .ok sd ∧
      BuiltFrom base rmControl owner group sacl dacl sd := by
  obtain ⟨hlen, h⟩ := of_guard h
  obtain ⟨hself, hsacl, hdacl⟩ :=
    componentControl_flags base (sacl.map Acl.bytes) (dacl.map Acl.bytes)
  rw [Option.isSome_map] at hsacl hdacl
  have hdaclBytes : dacl.map (fun a => a.bytes ++ []) = dacl.map Acl.bytes := by simp
  have hviews := parseViews_assemble rmControl _ owner group sacl dacl [] hself hsacl hdacl (by
    rw [length_assemble, hdaclBytes]
    exact Nat.not_lt.mp hlen)
  have hbytes := Except.ok.inj h
  rw [hdaclBytes, hbytes] at hviews
  refine ⟨⟨bytes, _, _, _, _, _, hviews⟩, SecurityDescriptor.parse_eq_ok.mpr rfl,
    rfl, rfl, rfl, rfl, rfl, ?_⟩
  show Bytes.byteAt bytes 1 = rmControl
  rw [← hbytes]
  rfl

/-! ## The parts of a merge -/

/-- **The list of a merge** is the input's, the current one with another label, or the current
one. -/
theorem mergedSacl_cases {inputSd : SecurityDescriptor} {bytes : Option Bytes}
    (h : mergedSacl subject currentSd inputSd securityInfo = .ok bytes) :
    (securityInfo &&& saclSecurityInformation ≠ 0#32 ∧ bytes = inputSd.sacl.map Acl.bytes ∧
      ∃ found, findExplicitLabelAceBytes inputSd.sacl = .ok found ∧
        validateLabelAssignment subject found = .ok ()) ∨
    (securityInfo &&& saclSecurityInformation = 0#32 ∧
      securityInfo &&& labelSecurityInformation ≠ 0#32 ∧
      ∃ found, parseLabelSubsetAceBytes inputSd = .ok found ∧
        validateLabelAssignment subject found = .ok () ∧
        relabeledSacl currentSd.sacl found = .ok bytes) ∨
    (securityInfo &&& saclSecurityInformation = 0#32 ∧
      securityInfo &&& labelSecurityInformation = 0#32 ∧
      bytes = currentSd.sacl.map Acl.bytes) := by
  unfold mergedSacl at h
  split at h
  · rename_i hset
    obtain ⟨⟨⟩, -, h⟩ := of_bind h
    obtain ⟨found, hfound, h⟩ := of_bind h
    obtain ⟨⟨⟩, hvalid, h⟩ := of_bind h
    exact .inl ⟨hset, (Except.ok.inj h).symm, found, hfound, hvalid⟩
  · rename_i hsacl
    split at h
    · rename_i hset
      obtain ⟨found, hfound, h⟩ := of_bind h
      obtain ⟨⟨⟩, hvalid, h⟩ := of_bind h
      exact .inr (.inl ⟨not_not.mp hsacl, hset, found, hfound, hvalid, h⟩)
    · rename_i hlabel
      exact .inr (.inr ⟨not_not.mp hsacl, not_not.mp hlabel, (Except.ok.inj h).symm⟩)

/-- Where the components of a merged descriptor come from. -/
structure Merged (subject : BootToken) (currentSd inputSd : SecurityDescriptor)
    (securityInfo : BitVec 32) (allowRestoreOwnerAssignment : Bool) (sd : SecurityDescriptor) :
    Prop where
  valid : validateSdSecurityInfo securityInfo = .ok ()
  owner_eq : ∃ owner, mergedOwner subject currentSd inputSd securityInfo
    allowRestoreOwnerAssignment = .ok owner ∧ sd.owner = some owner
  group_eq : sd.group =
    if securityInfo &&& groupSecurityInformation ≠ 0#32 then inputSd.group else currentSd.group
  dacl_eq : sd.dacl =
    if securityInfo &&& daclSecurityInformation ≠ 0#32 then inputSd.dacl else currentSd.dacl
  sacl_eq : mergedSacl subject currentSd inputSd securityInfo = .ok (sd.sacl.map Acl.bytes)
  control_eq : sd.control =
    componentControl (mergedSdControl currentSd.control inputSd.control securityInfo)
      (sd.sacl.map Acl.bytes) (sd.dacl.map Acl.bytes)
  resourceManagerControl_eq : sd.resourceManagerControl = currentSd.resourceManagerControl

/-- **The descriptor of a merge**, part by part. -/
theorem mergeSdWithCurrentDescriptor_eq_ok {inputSdBytes : Bytes}
    {allowRestoreOwnerAssignment : Bool}
    (h : mergeSdWithCurrentDescriptor subject currentSd securityInfo inputSdBytes
      allowRestoreOwnerAssignment = .ok bytes) :
    ∃ inputSd sd, SecurityDescriptor.parse inputSdBytes = .ok inputSd ∧
      SecurityDescriptor.parse bytes = .ok sd ∧
      Merged subject currentSd inputSd securityInfo allowRestoreOwnerAssignment sd := by
  obtain ⟨inputSd, hinput, h⟩ := of_bind h
  obtain ⟨owner, howner, h⟩ := of_bind h
  obtain ⟨⟨⟩, hvalid, h⟩ := of_bind h
  obtain ⟨saclBytes, hsacl, h⟩ := of_bind h
  obtain ⟨sacl, rfl⟩ : ∃ sacl : Option Acl, saclBytes = sacl.map Acl.bytes := by
    rcases mergedSacl_cases hsacl with ⟨-, hbytes, -⟩ | ⟨-, -, found, -, -, hrelabel⟩ |
      ⟨-, -, hbytes⟩
    · exact ⟨_, hbytes⟩
    · obtain ⟨sacl, hbytes, -⟩ := buildAclBytesFromAcesWithReserved_eq_ok hrelabel
      exact ⟨sacl, hbytes⟩
    · exact ⟨_, hbytes⟩
  have hbuild : buildSdBytesFromComponents _ _ ((some owner).map Sid.bytes) _ _ _ = .ok bytes := h
  obtain ⟨sd, hparse, hbuilt⟩ := parse_of_buildSdBytesFromComponents hbuild
  refine ⟨inputSd, sd, mapError_eq_ok.mp hinput, hparse, hvalid,
    ⟨owner, howner, hbuilt.owner_eq⟩, hbuilt.group_eq, hbuilt.dacl_eq, ?_, ?_,
    hbuilt.resourceManagerControl_eq⟩
  · rw [hbuilt.sacl_eq, hsacl]
  · rw [hbuilt.control_eq, hbuilt.sacl_eq, hbuilt.dacl_eq]

end Pkm.Kacs
