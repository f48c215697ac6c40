import Pkm.Kacs.Model.Inherit
/-!
# Inheritance of registry entries

A new key inherits from its parent key with code of its own. Keys are containers,
so only entries for containers are inherited; an entry that names the creator or
has generic rights is resolved for the key, and kept unresolved for the keys below
while its flags still propagate. The list is written by a builder that appends
entries and raises the revision as their types need.
-/

namespace Pkm.Kacs

namespace Registry

open Bytes

def aceNeedsResolution (ace : Ace) : Bool :=
  match ace.kind.maskAndSid with
  | some (mask, sid) =>
    decide (sid = Sid.creatorOwner) || decide (sid = Sid.creatorGroup) ||
      decide (mask &&& (genericAll ||| genericExecute ||| genericRead ||| genericWrite) ≠ 0#32)
  | none => false

/-- The inherited copy always applies to the new key, so it is not inherit-only. -/
def inheritedAceFlags (parentFlags : Byte) : Byte :=
  let flags := (parentFlags ||| inheritedAce) &&& ~~~inheritOnlyAce
  if parentFlags &&& noPropagateInheritAce ≠ 0#8 then
    flags &&& ~~~(objectInheritAce ||| containerInheritAce ||| noPropagateInheritAce)
  else flags

/-! ## Writing an entry -/

def mapAceMask (mask : Mask) (mapping : GenericMapping) (validMappedMask : Mask) :
    KacsResult Mask := do
  let mapped ← mapping.mapMask mask
  let invalid := mapped &&& ~~~validMappedMask
  if invalid ≠ 0#32 then .error (.mappedAccessMaskOutsideObjectRights invalid) else .ok mapped

def writeAce (aceType aceFlags : Byte) (payload : Bytes) : KacsResult Bytes :=
  let aceSize := 4 + payload.length
  if aceSize > 65535 ∨ aceSize % 4 ≠ 0 then
    .error (.invalidAceSize (if aceSize ≤ 65535 then BitVec.ofNat 16 aceSize else 65535#16))
  else .ok ([aceType, aceFlags] ++ ofU16 (BitVec.ofNat 16 aceSize) ++ payload)

def substitutedSid (sid owner group : Sid) : Bytes :=
  if sid = Sid.creatorOwner then owner.bytes
  else if sid = Sid.creatorGroup then group.bytes
  else sid.bytes

/-- What an entry is rewritten against: the new key's owner and group, and the rights of keys. -/
structure RewriteInput where
  owner : Sid
  group : Sid
  mapping : GenericMapping
  validMappedMask : Mask

section Write

variable (input : RewriteInput) (aceType aceFlags : Byte) (mask : Mask)

/-- An entry with its mask mapped and its SID substituted, between what stands before and behind
the SID. -/
def writeSidAce (beforeSid : Bytes) (sid : Sid) (afterSid : Bytes) : KacsResult Bytes := do
  let mapped ← mapAceMask mask input.mapping input.validMappedMask
  writeAce aceType aceFlags
    (ofU32 mapped ++ beforeSid ++ substitutedSid sid input.owner input.group ++ afterSid)

def writeSingleSidAce (sid : Sid) : KacsResult Bytes :=
  writeSidAce input aceType aceFlags mask [] sid []

def writeObjectAce (objectFlags : BitVec 32) (objectType inheritedObjectType : Option Guid)
    (sid : Sid) : KacsResult Bytes :=
  writeSidAce input aceType aceFlags mask
    (ofU32 objectFlags ++ guidBytes objectType ++ guidBytes inheritedObjectType) sid []

def writeCallbackAce (sid : Sid) (applicationData : Bytes) : KacsResult Bytes :=
  writeSidAce input aceType aceFlags mask [] sid applicationData

def writeCallbackObjectAce (objectFlags : BitVec 32)
    (objectType inheritedObjectType : Option Guid) (sid : Sid) (applicationData : Bytes) :
    KacsResult Bytes :=
  writeSidAce input aceType aceFlags mask
    (ofU32 objectFlags ++ guidBytes objectType ++ guidBytes inheritedObjectType) sid
    applicationData

end Write

def rewriteAce (input : RewriteInput) (ace : Ace) (aceFlags : Byte) : KacsResult Bytes :=
  match ace.kind with
  | .singleSid mask sid => writeSingleSidAce input ace.aceType aceFlags mask sid
  | .object mask flags objectType inheritedObjectType sid =>
    writeObjectAce input ace.aceType aceFlags mask flags objectType inheritedObjectType sid
  | .callback mask sid applicationData =>
    writeCallbackAce input ace.aceType aceFlags mask sid applicationData
  | .callbackObject mask flags objectType inheritedObjectType sid applicationData =>
    writeCallbackObjectAce input ace.aceType aceFlags mask flags objectType inheritedObjectType
      sid applicationData
  | .resourceAttribute mask sid applicationData =>
    writeCallbackAce input ace.aceType aceFlags mask sid applicationData
  | .opaqueKind =>
    .error (.unsupportedAceInDacl ace.aceType "inheritance requires rewritable ACE masks and SIDs")

/-! ## Building a list -/

structure BuiltAcl where
  bytes : Bytes
  aceCount : BitVec 16

/-- A list under construction. The header is reserved and written at the end. -/
structure AclBuilder where
  bytes : Bytes
  revision : Byte
  aceCount : BitVec 16

namespace AclBuilder

def new (revisionFloor : Byte) : AclBuilder where
  bytes := List.replicate 8 0#8
  revision := revisionFloor
  aceCount := 0#16

def pushAce (self : AclBuilder) (aceType : Byte) (ace : Bytes) : KacsResult AclBuilder :=
  if self.aceCount = 65535#16 then .error (.invariantViolation "acl ace count overflow")
  else
    .ok { bytes := self.bytes ++ ace
          revision := maxRevision self.revision (minimumAclRevisionForAceType aceType)
          aceCount := self.aceCount + 1#16 }

def finish (self : AclBuilder) : KacsResult BuiltAcl :=
  let aclLen := self.bytes.length
  if aclLen > 65535 then .error (.securityDescriptorTooLarge aclLen 65535)
  else
    .ok { bytes := [self.revision, 0#8] ++ ofU16 (BitVec.ofNat 16 aclLen) ++
            ofU16 self.aceCount ++ ofU16 0#16 ++ self.bytes.drop 8
          aceCount := self.aceCount }

end AclBuilder

/-- One entry of the parent: the entry for the key, and the rule that is carried on. -/
def inheritAce (input : RewriteInput) (builder : AclBuilder) (ace : Ace) :
    KacsResult AclBuilder :=
  if ace.aceFlags &&& containerInheritAce = 0#8 then .ok builder
  else
    let flags := inheritedAceFlags ace.aceFlags
    let split := aceNeedsResolution ace = true ∧
      flags &&& (objectInheritAce ||| containerInheritAce) ≠ 0#8
    let effectiveFlags :=
      if split then
        flags &&& ~~~(objectInheritAce ||| containerInheritAce ||| noPropagateInheritAce |||
          inheritOnlyAce)
      else flags
    do
      let rewritten ← rewriteAce input ace effectiveFlags
      let builder ← builder.pushAce ace.aceType rewritten
      if split then builder.pushAce ace.aceType (ace.bytes.set 1 (flags ||| inheritOnlyAce))
      else .ok builder

def buildInheritedAcl (acl : Option Acl) (owner group : Sid) (mapping : GenericMapping)
    (validMappedMask : Mask) : KacsResult (Option BuiltAcl) :=
  match acl with
  | none => .ok none
  | some acl => do
    let builder ← acl.entries.foldlM
      (inheritAce { owner, group, mapping, validMappedMask }) (AclBuilder.new acl.revision)
    if builder.aceCount = 0#16 then .ok none
    else do
      let built ← builder.finish
      .ok (some built)

end Registry

end Pkm.Kacs
