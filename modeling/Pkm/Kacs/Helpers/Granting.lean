import Pkm.Kacs.Helpers.Written
/-!
# Descriptors with given grants

A descriptor that grants `READ_CONTROL` and `WRITE_OWNER` to a few SIDs, each at a
node of an object tree or everywhere, and has no SACL. Its entries and its layout
are written out, so it is one that the parser returns.
-/

namespace Pkm.Kacs

open Bytes List

/-- The rights that are granted. -/
def grantedRights : Mask := readControl ||| writeOwner

theorem Sid.length_bytes (sid : Sid) : sid.bytes.length % 4 = 0 ∧ sid.bytes.length ≤ 68 := by
  obtain ⟨-, -, hcount, hlen⟩ := sid.wf
  have hle : (byteAt sid.bytes 1).toNat ≤ 15 := hcount
  have h8 : Sid.minSize = 8 := rfl
  rw [hlen, Sid.expectedLen]
  omega

namespace Ace

variable (target : Option Guid)

/-- The flags of an object entry with an optional target. -/
def targetFlags : BitVec 32 :=
  if target.isSome then aceObjectTypePresent else 0#32

def grantingBytes (sid : Sid) : Bytes :=
  writeAce accessAllowedObjectAceType 0#8 grantedRights
    (ofU32 (targetFlags target) ++ (guidBytes target ++ sid.bytes))

section

variable (target : Option Guid) (sid : Sid)

theorem length_grantingBytes :
    (grantingBytes target sid).length = 12 + (guidBytes target).length + sid.bytes.length := by
  simp only [grantingBytes, writeAce, length_append, length_ofU16, length_ofU32,
    length_cons, length_nil]
  omega

theorem length_guidBytes :
    (guidBytes target).length = if target.isSome then 16 else 0 := by
  cases target with
  | none => rfl
  | some guid => exact guid.length_eq

theorem drop_grantingBytes :
    (grantingBytes target sid).drop 12 = guidBytes target ++ sid.bytes := rfl

theorem u32At_grantingBytes :
    u32At (grantingBytes target sid) 4 = grantedRights ∧
      u32At (grantingBytes target sid) 8 = targetFlags target := by
  refine ⟨?_, ?_⟩
  · rw [grantingBytes, writeAce, append_assoc]
    exact u32At_append_ofU32 rfl
  · rw [grantingBytes]
    exact u32At_append_ofU32 rfl

theorem parseObjectFields_grantingBytes :
    parseObjectFields (grantingBytes target sid) (targetFlags target) =
      .ok (target, none, 12 + (guidBytes target).length) := by
  have hlen := length_grantingBytes target sid
  have hsid := sid.length_pos
  cases target with
  | none =>
    have hlong : ¬ (grantingBytes none sid).length < 12 + Sid.minSize := by
      rw [hlen]
      omega
    change (if (grantingBytes none sid).length < 12 + Sid.minSize then _ else _) = _
    rw [if_neg hlong]
    rfl
  | some guid =>
    have hguid : (guidBytes (some guid)).length = 16 := guid.length_eq
    have hslice : slice (grantingBytes (some guid) sid) 12 28 = guid.bytes := by
      exact take_left' guid.length_eq
    have hread : readGuid (grantingBytes (some guid) sid) 12 = .ok guid := by
      unfold readGuid
      simp only [hslice, guid.length_eq, dif_pos]
    have hlong : ¬ (grantingBytes (some guid) sid).length < 28 + Sid.minSize := by
      omega
    have hfirst : readOptionalGuid (grantingBytes (some guid) sid) true 12 =
        .ok (some guid, 28) := by
      unfold readOptionalGuid
      rw [hread]
      rfl
    have hpresent : decide (aceObjectTypePresent &&& aceObjectTypePresent ≠ 0#32) = true := by
      decide
    unfold parseObjectFields
    rw [show targetFlags (some guid) = aceObjectTypePresent from rfl, hpresent,
      show objectPrefixSize = 12 from rfl, hfirst]
    change (if (grantingBytes (some guid) sid).length < 28 + Sid.minSize then _ else _) = _
    rw [if_neg hlong, hguid]

end

/-- An entry that grants a SID the rights, at a node or everywhere. -/
def granting (sid : Sid) : Ace where
  bytes := grantingBytes target sid
  aceType := accessAllowedObjectAceType
  aceFlags := 0#8
  aceSize := BitVec.ofNat 16 (12 + (guidBytes target).length + sid.bytes.length)
  kind := .object grantedRights (targetFlags target) target none sid
  wf := by
    have hlen := length_grantingBytes target sid
    have hsid := sid.length_bytes
    have hpos := sid.length_pos
    have hguid : (guidBytes target).length = 0 ∨ (guidBytes target).length = 16 := by
      rw [length_guidBytes]
      split <;> simp
    have h8 : Sid.minSize = 8 := rfl
    have hsize : (BitVec.ofNat 16 (12 + (guidBytes target).length + sid.bytes.length)).toNat =
        12 + (guidBytes target).length + sid.bytes.length := by
      rw [BitVec.toNat_ofNat, Nat.mod_eq_of_lt (by omega)]
    refine ⟨by rw [hsize, hlen], ?_, by omega, rfl, rfl, ?_, ?_⟩
    · rw [hsize, headerSize]
      omega
    · rw [grantingBytes, writeAce, append_assoc, append_assoc]
      refine (u16At_append_ofU16 rfl).trans (congrArg (BitVec.ofNat 16) ?_)
      simp only [length_append, length_ofU32]
      omega
    · change parseObject (grantingBytes target sid) = _
      have hdrop : (grantingBytes target sid).drop (12 + (guidBytes target).length) =
          sid.bytes := by
        rw [← drop_drop, drop_grantingBytes, drop_left]
      unfold parseObject
      rw [if_neg (by rw [hlen, minObjectSize]; omega), (u32At_grantingBytes target sid).1,
        (u32At_grantingBytes target sid).2]
      simp only [parseObjectFields_grantingBytes, hdrop, Sid.parse_bytes, Outcome.ok_bind,
        show validateAceMask grantedRights = .ok () from rfl]

theorem length_granting (sid : Sid) : (granting target sid).bytes.length ≤ 96 := by
  have hlen := length_grantingBytes target sid
  have hsid := sid.length_bytes
  have hguid : (guidBytes target).length ≤ 16 := by
    rw [length_guidBytes]
    split <;> decide
  change (grantingBytes target sid).length ≤ 96
  omega

end Ace

theorem Acl.length_entryBytes_le {entries : List Ace} {n : ℕ}
    (h : ∀ ace ∈ entries, ace.bytes.length ≤ n) :
    (Acl.entryBytes entries).length ≤ n * entries.length := by
  induction entries with
  | nil => exact Nat.zero_le _
  | cons ace rest ih =>
    have hhead := h ace mem_cons_self
    have htail := ih (forall_mem_cons.mp h).2
    rw [Acl.entryBytes_cons, length_append, length_cons, Nat.mul_succ]
    omega

/-- An owner, and who is granted the rights at which node. -/
structure Granting where
  owner : Sid
  grants : List (Option Guid × Sid)
  short : grants.length ≤ 3

namespace Granting

variable (self : Granting)

def entries : List Ace := self.grants.map fun grant => Ace.granting grant.1 grant.2

theorem length_entryBytes : (Acl.entryBytes self.entries).length ≤ 288 := by
  have hshort := self.short
  have hle : (Acl.entryBytes self.entries).length ≤ 96 * self.entries.length := by
    refine Acl.length_entryBytes_le fun ace hace => ?_
    obtain ⟨grant, -, rfl⟩ := mem_map.mp hace
    exact Ace.length_granting _ _
  rw [entries, length_map] at hle
  rw [entries]
  omega

def dacl : Acl :=
  Acl.build aclRevisionDs 0#8 0#16 self.entries
    (Nat.le_trans (Nat.add_le_add_left self.length_entryBytes 8) (by decide))

theorem length_dacl : self.dacl.bytes.length ≤ 296 := by
  have hle := self.length_entryBytes
  change (aclHeaderAndEntries _ _ _ (self.entries.map Ace.bytes)).length ≤ 296
  rw [Acl.length_aclHeaderAndEntries, Acl.flatten_map_bytes]
  omega

/-- The descriptor. It has an owner and a DACL and nothing else. -/
def sd : SecurityDescriptor where
  bytes := SecurityDescriptor.assemble 0#8 (seSelfRelative ||| seDaclPresent)
    (some self.owner.bytes) none none (some (self.dacl.bytes ++ []))
  control := seSelfRelative ||| seDaclPresent
  owner := some self.owner
  group := none
  sacl := none
  dacl := some self.dacl
  wf := by
    refine SecurityDescriptor.parseViews_assemble 0#8 (seSelfRelative ||| seDaclPresent)
      (some self.owner) none none (some self.dacl) [] (by decide) (by decide)
      (by rw [Option.isSome_some]; decide) ?_
    have hdacl := self.length_dacl
    have howner := self.owner.length_bytes
    rw [SecurityDescriptor.length_assemble]
    simp only [Option.map_some, Option.map_none, Option.getD_some, Option.getD_none,
      length_append, length_nil, SecurityDescriptor.headerSize,
      maxSecurityDescriptorBytes]
    omega

end Granting

end Pkm.Kacs
