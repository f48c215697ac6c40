import Pkm.Kacs.Model.BootToken
import Pkm.Kacs.Model.Caap
/-!
# Inheritance of file entries

A new file or directory gets the inheritable entries of its parent's list. Most
entries pass on with new flags. An entry that names the creator, or that has
generic rights, is a rule: for the child it is resolved to the child's creator and
to file rights and goes no further, and a directory also gets an inherit-only copy
of the rule itself for what is created below.
-/

namespace Pkm.Kacs

open Bytes

/-! ## File rights -/

def fileReadData : Mask := 0x00000001#32
def fileWriteData : Mask := 0x00000002#32
def fileAppendData : Mask := 0x00000004#32
def fileReadEa : Mask := 0x00000008#32
def fileWriteEa : Mask := 0x00000010#32
def fileExecute : Mask := 0x00000020#32
def fileDeleteChild : Mask := 0x00000040#32
def fileReadAttributes : Mask := 0x00000080#32
def fileWriteAttributes : Mask := 0x00000100#32

def fileGenericMapping : GenericMapping where
  read := fileReadData ||| fileReadAttributes ||| fileReadEa ||| readControl ||| synchronize
  write := fileWriteData ||| fileAppendData ||| fileWriteAttributes ||| fileWriteEa |||
    readControl ||| synchronize
  execute := fileExecute ||| fileReadAttributes ||| readControl ||| synchronize
  all := fileReadData ||| fileWriteData ||| fileAppendData ||| fileReadEa ||| fileWriteEa |||
    fileExecute ||| fileDeleteChild ||| fileReadAttributes ||| fileWriteAttributes ||| delete |||
    readControl ||| writeDac ||| writeOwner ||| synchronize

/-! ## Flags -/

def aceInheritsToChild (aceFlags : Byte) (childIsContainer : Bool) : Bool :=
  if childIsContainer then
    decide (aceFlags &&& containerInheritAce ≠ 0#8) ||
      (decide (aceFlags &&& objectInheritAce ≠ 0#8) &&
        decide (aceFlags &&& noPropagateInheritAce = 0#8))
  else decide (aceFlags &&& objectInheritAce ≠ 0#8)

def inheritedAceFlags (parentFlags : Byte) (childIsContainer : Bool) : Byte :=
  let flags := (parentFlags ||| inheritedAce) &&& ~~~inheritOnlyAce
  let flags :=
    if childIsContainer = true ∧ parentFlags &&& objectInheritAce ≠ 0#8 ∧
        parentFlags &&& containerInheritAce = 0#8 ∧
        parentFlags &&& noPropagateInheritAce = 0#8 then
      flags ||| inheritOnlyAce
    else flags
  if childIsContainer = false ∨ parentFlags &&& noPropagateInheritAce ≠ 0#8 then
    flags &&& ~~~(objectInheritAce ||| containerInheritAce ||| noPropagateInheritAce |||
      inheritOnlyAce)
  else flags

/-! ## Rewriting an entry -/

/-- The mask and the SID of an entry whose type is known. -/
def AceKind.maskAndSid : AceKind → Option (Mask × Sid)
  | .singleSid mask sid | .object mask _ _ _ sid | .callback mask sid _
  | .callbackObject mask _ _ _ sid _ | .resourceAttribute mask sid _ => some (mask, sid)
  | .opaqueKind => none

def mapFileAceMask (kind : AceKind) : SysResult Mask :=
  match kind.maskAndSid with
  | some (mask, _) => orErrno (fileGenericMapping.mapMask mask) .einval
  | none => .error .eacces

def aceSidNamesCreator (kind : AceKind) : Bool :=
  match kind.maskAndSid with
  | some (_, sid) => decide (sid = Sid.creatorOwner) || decide (sid = Sid.creatorGroup)
  | none => false

/-- Whether an entry has generic rights, which are resolved where it applies. -/
def aceIsGeneric (kind : AceKind) : Bool :=
  match kind.maskAndSid with
  | some (mask, _) =>
    decide (mask &&& (genericAll ||| genericRead ||| genericWrite ||| genericExecute) ≠ 0#32)
  | none => false

/-- The SID a creator SID stands for. In the copy that keeps propagating it stands for itself, so
that the next creator is the one it resolves to. -/
def resolvedCreatorAceSid (sid ownerSid : Sid) (groupSid : Option Sid) (substitute : Bool) :
    SysResult Bytes :=
  if substitute = false then .ok sid.bytes
  else if sid = Sid.creatorOwner then .ok ownerSid.bytes
  else if sid = Sid.creatorGroup then
    match groupSid with
    | some sid => .ok sid.bytes
    | none => .error .einval
  else .ok sid.bytes

/-- An entry written from its header fields, its mask and what follows. The size is written as
sixteen bits. -/
def writeAce (aceType flags : Byte) (mask : Mask) (payload : Bytes) : Bytes :=
  [aceType, flags] ++ ofU16 (BitVec.ofNat 16 (8 + payload.length)) ++ ofU32 mask ++ payload

def guidBytes (guid : Option Guid) : Bytes := (guid.map (·.bytes)).getD []

/-- What stands before the SID of an entry, behind the mask. -/
def AceKind.beforeSid : AceKind → Bytes
  | .object _ flags objectType inheritedObjectType _
  | .callbackObject _ flags objectType inheritedObjectType _ _ =>
    ofU32 flags ++ guidBytes objectType ++ guidBytes inheritedObjectType
  | _ => []

/-- What stands behind the SID of an entry. -/
def AceKind.afterSid : AceKind → Bytes
  | .callback _ _ applicationData | .callbackObject _ _ _ _ _ applicationData
  | .resourceAttribute _ _ applicationData => applicationData
  | _ => []

variable (ace : Ace)

/-- An entry with new flags. The propagating copy is the entry itself: neither its creator SID nor
its generic rights are resolved until it applies to something below. -/
def buildRewrittenFileAceBytes (newFlags : Byte) (ownerSid : Sid) (groupSid : Option Sid)
    (substituteCreator : Bool) : SysResult Bytes :=
  if substituteCreator = false ∨ ace.kind = .opaqueKind then .ok (ace.bytes.set 1 newFlags)
  else do
    let mask ← mapFileAceMask ace.kind
    match ace.kind.maskAndSid with
    | none => .error .eacces
    | some (_, sid) => do
      let sidBytes ← resolvedCreatorAceSid sid ownerSid groupSid substituteCreator
      .ok (writeAce ace.aceType newFlags mask (ace.kind.beforeSid ++ sidBytes ++ ace.kind.afterSid))

/-- The resolved entry, only where it applies to the child at all. -/
def buildEffectiveAceBytes (inheritedFlags : Byte) (ownerSid : Sid) (groupSid : Option Sid) :
    SysResult (Option Bytes) :=
  if inheritedFlags &&& inheritOnlyAce = 0#8 then do
    let effectiveFlags := inheritedFlags &&&
      ~~~(objectInheritAce ||| containerInheritAce ||| inheritOnlyAce ||| noPropagateInheritAce)
    let bytes ← buildRewrittenFileAceBytes ace effectiveFlags ownerSid groupSid true
    .ok (some bytes)
  else .ok none

/-- The rule itself, carried on by a directory while its flags still propagate. -/
def buildPropagatingAceBytes (inheritedFlags : Byte) (ownerSid : Sid) (groupSid : Option Sid)
    (childIsContainer : Bool) : SysResult (Option Bytes) :=
  if childIsContainer = true ∧
      inheritedFlags &&& (objectInheritAce ||| containerInheritAce) ≠ 0#8 then do
    let bytes ← buildRewrittenFileAceBytes ace (inheritedFlags ||| inheritOnlyAce) ownerSid
      groupSid false
    .ok (some bytes)
  else .ok none

/-- What one entry of the parent contributes to a child: an entry for the child, and the rule that
is carried on. -/
def buildInheritedAceBytes (ownerSid : Sid) (groupSid : Option Sid) (childIsContainer : Bool) :
    SysResult (Option Bytes × Option Bytes) :=
  if aceInheritsToChild ace.aceFlags childIsContainer = false then .ok (none, none)
  else
    let inheritedFlags := inheritedAceFlags ace.aceFlags childIsContainer
    if aceSidNamesCreator ace.kind = false ∧ aceIsGeneric ace.kind = false then do
      let bytes ← buildRewrittenFileAceBytes ace inheritedFlags ownerSid groupSid true
      .ok (some bytes, none)
    else do
      let effective ← buildEffectiveAceBytes ace inheritedFlags ownerSid groupSid
      let propagating ←
        buildPropagatingAceBytes ace inheritedFlags ownerSid groupSid childIsContainer
      .ok (effective, propagating)

/-! ## Inheriting a list -/

def buildAclBytesFromAcesWithReserved (revision sbz1 : Byte) (sbz2 : BitVec 16)
    (aces : List Bytes) : SysResult (Option Bytes) :=
  if aces = [] then .ok none
  else do
    let writeRevision ← orErrno (minimumAclRevisionWithSourceFloorForOpaque revision aces) .einval
    if 8 + aces.flatten.length > 65535 ∨ aces.length > 65535 then .error .einval
    else .ok (some (aclHeaderAndEntries writeRevision sbz1 sbz2 aces))

/-- The entries a child gets, in order. -/
def inheritedAces (parentAcl : Acl) (ownerSid : Sid) (groupSid : Option Sid)
    (childIsContainer : Bool) : SysResult (List Bytes) :=
  parentAcl.entries.foldlM (fun inherited ace => do
    let (effective, propagating) ← buildInheritedAceBytes ace ownerSid groupSid childIsContainer
    .ok (inherited ++ effective.toList ++ propagating.toList)) []

def inheritAclFromParent (parentAcl : Option Acl) (ownerSid : Sid) (groupSid : Option Sid)
    (childIsContainer : Bool) : SysResult (Option Bytes) :=
  match parentAcl with
  | none => .ok none
  | some parentAcl => do
    let inherited ← inheritedAces parentAcl ownerSid groupSid childIsContainer
    buildAclBytesFromAcesWithReserved parentAcl.revision parentAcl.sbz1 parentAcl.sbz2 inherited

end Pkm.Kacs
