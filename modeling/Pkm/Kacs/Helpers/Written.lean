import Pkm.Kacs.Helpers.Project
import Pkm.Kacs.Helpers.Synthetic
import Pkm.Kacs.Model.Inherit
/-!
# Entries as they are written

An entry of a known type is what its fields write: header, mask, what stands
before the SID, the SID and what stands behind it. The payload does not depend on
the flags, so an entry with its flags replaced is an entry of the same kind, and
rewriting an entry that has nothing to resolve only replaces its flags.
-/

namespace Pkm.Kacs

open Bytes List Outcome

variable {b revision : Byte} {aces : List Bytes}

/-! ## Replacing the flags -/

variable {bs : Bytes} {i : ℕ}

theorem byteAt_set_ne {j : ℕ} (h : i ≠ j) : byteAt (bs.set i b) j = byteAt bs j := by
  simp [byteAt, getElem?_set_ne h]

theorem byteAt_set_self (h : i < bs.length) : byteAt (bs.set i b) i = b := by
  simp [byteAt, h]

namespace Ace

variable {bytes : Bytes} {sid : Sid} {offset : ℕ} {mask : Mask}

/-- An optional GUID is what stands between the two offsets. -/
theorem readOptionalGuid_eq_ok {present : Bool} {offset' : ℕ} {guid : Option Guid}
    (h : readOptionalGuid bytes present offset = .ok (guid, offset')) :
    offset ≤ offset' ∧ bytes.drop offset = guidBytes guid ++ bytes.drop offset' := by
  unfold readOptionalGuid at h
  split at h
  · obtain ⟨g, hg, h⟩ := of_bind h
    cases h
    unfold readGuid at hg
    split at hg
    · cases hg
      refine ⟨Nat.le_add_right _ _, ?_⟩
      change _ = slice bytes offset (offset + 16) ++ _
      rw [slice, Nat.add_sub_cancel_left, ← drop_drop, take_append_drop]
    · cases hg
  · cases h
    exact ⟨Nat.le_refl _, rfl⟩

/-- The GUIDs of an object entry are what stands before its SID. -/
theorem parseObjectFields_eq_ok {flags : BitVec 32} {objectType inheritedObjectType : Option Guid}
    (h : parseObjectFields bytes flags = .ok (objectType, inheritedObjectType, offset)) :
    12 ≤ offset ∧ bytes.drop 12 =
      guidBytes objectType ++ guidBytes inheritedObjectType ++ bytes.drop offset := by
  obtain ⟨⟨guid, mid⟩, h₁, h⟩ := of_bind h
  obtain ⟨⟨guid', mid'⟩, h₂, h⟩ := of_bind h
  obtain ⟨-, h⟩ := of_guard h
  cases h
  obtain ⟨hle₁, hd₁⟩ := readOptionalGuid_eq_ok h₁
  obtain ⟨hle₂, hd₂⟩ := readOptionalGuid_eq_ok h₂
  refine ⟨Nat.le_trans hle₁ hle₂, ?_⟩
  rw [append_assoc, ← hd₂, ← hd₁]
  rfl

section Congr

variable {bytes bytes' : Bytes} (hlen : bytes.length = bytes'.length)
  (h : bytes.drop 4 = bytes'.drop 4) {offset : ℕ}

include h in
theorem drop_congr (ho : 4 ≤ offset) : bytes.drop offset = bytes'.drop offset := by
  have hdrop := congrArg (List.drop (offset - 4)) h
  rw [drop_drop, drop_drop, Nat.add_sub_cancel' ho] at hdrop
  exact hdrop

include h in
theorem u32At_congr (ho : 4 ≤ offset) : u32At bytes offset = u32At bytes' offset := by
  have hbyte : ∀ i, 4 ≤ i → byteAt bytes i = byteAt bytes' i := by
    intro i hi
    have hd := byteAt_drop bytes 4 (i - 4)
    rw [h, byteAt_drop, Nat.add_sub_cancel' hi] at hd
    exact hd.symm
  unfold u32At
  rw [hbyte _ ho, hbyte _ (by omega), hbyte _ (by omega), hbyte _ (by omega)]

include hlen h

theorem parseObjectFields_congr (flags : BitVec 32) :
    parseObjectFields bytes flags = parseObjectFields bytes' flags := by
  have hread : ∀ present offset, 4 ≤ offset →
      readOptionalGuid bytes present offset = readOptionalGuid bytes' present offset := by
    intro present offset ho
    have hslice : slice bytes offset (offset + 16) = slice bytes' offset (offset + 16) := by
      rw [slice, slice, drop_congr h ho]
    unfold readOptionalGuid readGuid
    simp only [hslice]
  unfold parseObjectFields
  rw [hread _ _ (by decide), hlen]
  cases hr : readOptionalGuid bytes' (decide (flags &&& aceObjectTypePresent ≠ 0#32))
      objectPrefixSize with
  | error e => rfl
  | ok p =>
    have hle : 12 ≤ p.2 := (readOptionalGuid_eq_ok hr).1
    simp only [ok_bind]
    rw [hread _ _ (by omega)]

/-- **The payload of an entry is read behind its header.** -/
theorem parseKind_congr (aceType : Byte) : parseKind aceType bytes = parseKind aceType bytes' := by
  have hmask := u32At_congr h (Nat.le_refl 4)
  have hflags := u32At_congr h (show 4 ≤ 8 by decide)
  have hsid : bytes.drop singleSidPrefixSize = bytes'.drop singleSidPrefixSize :=
    drop_congr h (by decide)
  have hrest : ∀ n, bytes.drop (singleSidPrefixSize + n) = bytes'.drop (singleSidPrefixSize + n) :=
    fun n => drop_congr h (by rw [singleSidPrefixSize]; omega)
  have hfields := parseObjectFields_congr hlen h
  unfold parseKind
  split
  · simp only [parseSingleSid, hlen, hmask, hsid]
  · simp only [parseMandatoryLabel, hlen, hmask, hsid]
  · simp only [parseObject, hlen, hmask, hflags, hfields]
    split
    · rfl
    · refine Outcome.bind_congr fun _ _ => Outcome.bind_congr fun p hp => ?_
      have hle := (parseObjectFields_eq_ok hp).1
      rw [drop_congr h (by omega)]
  · simp only [parseCallback, hlen, hmask, hsid, hrest]
  · simp only [parseCallbackObject, hlen, hmask, hflags, hfields]
    split
    · rfl
    · refine Outcome.bind_congr fun _ _ => Outcome.bind_congr fun p hp => ?_
      have hle := (parseObjectFields_eq_ok hp).1
      rw [drop_congr h (by omega)]
      refine Outcome.bind_congr fun q _ => ?_
      rw [drop_congr h (by omega)]
  · simp only [parseResourceAttribute, hlen, hmask, hsid, hrest]
  · rfl

end Congr

variable (ace : Ace) (flags : Byte)

/-- An entry with its flags replaced is an entry of the same kind. -/
def reflag : Ace where
  bytes := ace.bytes.set 1 flags
  aceType := ace.aceType
  aceFlags := flags
  aceSize := ace.aceSize
  kind := ace.kind
  wf := by
    obtain ⟨hlen, h4, hmod, ht, -, hsize, hkind⟩ := ace.wf
    have hset : (ace.bytes.set 1 flags).length = ace.bytes.length := length_set
    have hfour := ace.four_le_length
    refine ⟨hset.trans hlen, h4, hmod, ?_, byteAt_set_self (by omega), ?_, ?_⟩
    · rw [byteAt_set_ne (by decide), ht]
    · rw [u16At, byteAt_set_ne (by decide), byteAt_set_ne (by decide)]
      exact hsize
    · rw [parseKind_congr hset (drop_set_of_lt (by decide)), hkind]

/-! ## What an entry is made of -/

theorem byteAt_one : byteAt ace.bytes 1 = ace.aceFlags := ace.wf.2.2.2.2.1

@[simp]
theorem reflag_aceFlags : (ace.reflag flags).aceFlags = flags := rfl

@[simp]
theorem reflag_kind : (ace.reflag flags).kind = ace.kind := rfl

/-- A SID that is followed by data stands before it. -/
theorem drop_eq_sid_append {n : ℕ} (h : Sid.parsePrefix (bytes.drop offset) = .ok (sid, n)) :
    bytes.drop offset = sid.bytes ++ bytes.drop (offset + n) := by
  obtain ⟨rest, hrest, rfl⟩ := Sid.parsePrefix_eq_ok.mp h
  rw [← drop_drop, hrest, drop_left]

/-- The payload of a known type: the mask, what stands before the SID, the SID, and the rest. -/
theorem parseKind_payload {aceType : Byte} {kind : AceKind} (h : parseKind aceType bytes = .ok kind)
    (hk : kind.maskAndSid = some (mask, sid)) :
    16 ≤ bytes.length ∧ u32At bytes 4 = mask ∧
      bytes.drop 8 = kind.beforeSid ++ sid.bytes ++ kind.afterSid := by
  have h20 : minObjectSize = 20 := rfl
  have hp := payload_of_parseKind h
  generalize layout aceType = lay at hp
  cases hp with
  | singleSid hlen _ hs | mandatoryLabel hlen hs =>
    cases hk
    refine ⟨hlen, rfl, ?_⟩
    rw [show bytes.drop 8 = sid.bytes from (Sid.parse_eq_ok.mp hs).symm]
    simp [AceKind.beforeSid, AceKind.afterSid]
  | object hlen _ hf hs =>
    cases hk
    refine ⟨by omega, rfl, ?_⟩
    rw [drop_eq_ofU32 (by omega), (parseObjectFields_eq_ok hf).2, ← Sid.parse_eq_ok.mp hs]
    simp [AceKind.beforeSid, AceKind.afterSid]
  | callbackObject hlen _ hf hs =>
    cases hk
    refine ⟨by omega, rfl, ?_⟩
    rw [drop_eq_ofU32 (by omega), (parseObjectFields_eq_ok hf).2, drop_eq_sid_append hs]
    simp [AceKind.beforeSid, AceKind.afterSid]
  | callback hlen _ hs | resourceAttribute hlen hs =>
    cases hk
    exact ⟨hlen, rfl, drop_eq_sid_append hs⟩
  | opaqueLayout => cases hk

/-- **An entry of a known type is what its fields write.** -/
theorem bytes_eq_writeAce (h : ace.kind.maskAndSid = some (mask, sid)) :
    ace.bytes = writeAce ace.aceType ace.aceFlags mask
      (ace.kind.beforeSid ++ sid.bytes ++ ace.kind.afterSid) := by
  obtain ⟨hlen, -, -, ht, hf, hsize, hkind⟩ := ace.wf
  obtain ⟨hlong, hmask, hpayload⟩ := parseKind_payload hkind h
  have hcount : 8 + (ace.bytes.drop 8).length = ace.aceSize.toNat := by
    rw [length_drop]
    omega
  rw [writeAce, ← hpayload, hcount, BitVec.ofNat_toNat, ← hmask, ← hsize, ← ht, ← hf]
  calc ace.bytes = ace.bytes.drop 0 := rfl
    _ = [byteAt ace.bytes 0, byteAt ace.bytes 1] ++ ace.bytes.drop 2 := by
      rw [drop_eq_cons (by omega), drop_eq_cons (by omega)]
      rfl
    _ = _ := by
      rw [drop_eq_ofU16 (by omega), drop_eq_ofU32 (by omega)]
      simp

end Ace

/-! ## Lists -/

/-- The entries of a list that may be missing. -/
def aclEntries (acl : Option Acl) : List Ace := (acl.map Acl.entries).getD []

/-- A list whose revision could be computed is made of entries. -/
theorem exists_entries_of_revision {sourceRevision : Byte}
    (h : minimumAclRevisionWithSourceFloorForOpaque sourceRevision aces = .ok revision) :
    ∃ entries : List Ace, entries.map Ace.bytes = aces := by
  obtain ⟨result, hfold, -⟩ := of_bind h
  clear h
  generalize (aclRevision, false) = start at hfold
  induction aces generalizing start with
  | nil => exact ⟨[], rfl⟩
  | cons bytes rest ih =>
    obtain ⟨next, hstep, hrest⟩ := of_bind hfold
    obtain ⟨ace, hace, -⟩ := of_bind hstep
    obtain ⟨entries, rfl⟩ := ih next hrest
    exact ⟨ace :: entries, by rw [map_cons, Ace.parse_eq_ok.mp hace]⟩

/-- **A list that was built can be read back**, with the entries it was built from. Without
entries there is no list. -/
theorem buildAclBytesFromAcesWithReserved_eq_ok {sbz1 : Byte} {sbz2 : BitVec 16}
    {bytes : Option Bytes}
    (h : buildAclBytesFromAcesWithReserved revision sbz1 sbz2 aces = .ok bytes) :
    ∃ acl : Option Acl, bytes = acl.map Acl.bytes ∧
      (aclEntries acl).map Ace.bytes = aces ∧ ∀ a ∈ acl, a.entries ≠ [] := by
  unfold buildAclBytesFromAcesWithReserved at h
  split at h
  · rename_i hempty
    cases h
    exact ⟨none, rfl, hempty.symm, by simp⟩
  · rename_i hsome
    obtain ⟨writeRevision, hrevision, h⟩ := of_bind h
    obtain ⟨hfit, h⟩ := of_guard h
    cases h
    obtain ⟨entries, rfl⟩ := exists_entries_of_revision (orErrno_eq_ok.mp hrevision)
    have hsize : 8 + (Acl.entryBytes entries).length ≤ 65535 :=
      Nat.not_lt.mp fun hlt => hfit (.inl hlt)
    refine ⟨some (Acl.build writeRevision sbz1 sbz2 entries hsize), rfl, rfl, ?_⟩
    rintro a ⟨⟩ hnil
    exact hsome (congrArg (List.map Ace.bytes) hnil)

end Pkm.Kacs
