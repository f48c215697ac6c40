import Pkm.Kacs.Model.Inherit
/-!
# Getting and setting the security of an object

Who asks for the security of an object says which components are meant and gets a
descriptor of those. A subject that sets the security of an object gives a descriptor
and says which of its components are meant. The others are the current descriptor's.
What the subject may set is checked here for the owner, for the label and for resource
attributes that are mandatory; that the subject holds the rights for it is checked before.

Which privileges a merge marks as used is left out: nothing in it reads the marks.
-/

namespace Pkm.Kacs

open SecurityDescriptor (headerSize assemble)

/-! ## Security information -/

def ownerSecurityInformation : BitVec 32 := 0x01#32
def groupSecurityInformation : BitVec 32 := 0x02#32
def daclSecurityInformation : BitVec 32 := 0x04#32
def saclSecurityInformation : BitVec 32 := 0x08#32
def labelSecurityInformation : BitVec 32 := 0x10#32

def validateSdSecurityInfo (securityInfo : BitVec 32) : SysResult Unit :=
  let supported := ownerSecurityInformation ||| groupSecurityInformation |||
    daclSecurityInformation ||| saclSecurityInformation ||| labelSecurityInformation
  if securityInfo = 0#32 ∨ securityInfo &&& ~~~supported ≠ 0#32 then .error .einval
  else if securityInfo &&& saclSecurityInformation ≠ 0#32 ∧
      securityInfo &&& labelSecurityInformation ≠ 0#32 then .error .einval
  else .ok ()

def sdParseErrno : KacsError → Errno
  | .securityDescriptorTooLarge _ _ => .erange
  | _ => .einval

/-! ## Writing a descriptor -/

def replaceControlBits (control inputControl bits : BitVec 16) : BitVec 16 :=
  (control &&& ~~~bits) ||| (inputControl &&& bits)

/-- The control bits that describe a DACL. -/
def daclControl : BitVec 16 :=
  seDaclDefaulted ||| seDaclTrusted ||| seDaclAutoInheritReq ||| seDaclAutoInherited |||
    seDaclProtected

def saclControl : BitVec 16 :=
  seSaclDefaulted ||| seSaclAutoInheritReq ||| seSaclAutoInherited ||| seSaclProtected

def mergedSdControl (currentControl inputControl : BitVec 16) (securityInfo : BitVec 32) :
    BitVec 16 :=
  let replaceIf (info : BitVec 32) (bits control : BitVec 16) : BitVec 16 :=
    if securityInfo &&& info ≠ 0#32 then replaceControlBits control inputControl bits else control
  let control := replaceIf ownerSecurityInformation seOwnerDefaulted currentControl
  let control := replaceIf groupSecurityInformation seGroupDefaulted control
  let control := replaceIf daclSecurityInformation daclControl control
  replaceIf saclSecurityInformation saclControl control

/-- The control word of a descriptor with some lists. -/
def componentControl (baseControl : BitVec 16) (sacl dacl : Option Bytes) : BitVec 16 :=
  let control := (baseControl ||| seSelfRelative) &&& ~~~(seSaclPresent ||| seDaclPresent)
  let control := if sacl.isSome then control ||| seSaclPresent else control
  if dacl.isSome then control ||| seDaclPresent else control

def buildSdBytesFromComponents (baseControl : BitVec 16) (resourceManagerControl : Byte)
    (owner group sacl dacl : Option Bytes) : SysResult Bytes :=
  if headerSize + (owner.getD []).length + (group.getD []).length + (sacl.getD []).length +
      (dacl.getD []).length > maxSecurityDescriptorBytes then .error .erange
  else
    .ok (assemble resourceManagerControl (componentControl baseControl sacl dacl) owner group
      sacl dacl)

/-! ## Labels -/

/-- Whether an entry is a label of the object that holds it. -/
def isLabelAce (ace : Ace) : Bool :=
  decide (ace.aceType = systemMandatoryLabelAceType) &&
    decide (ace.aceFlags &&& inheritOnlyAce = 0#8)

/-- The label of a list. A second one is refused. -/
def findExplicitLabelAceBytes : Option Acl → SysResult (Option Bytes)
  | none => .ok none
  | some acl =>
    acl.entries.foldlM (fun found ace =>
      if isLabelAce ace = false then .ok found
      else if found.isSome then .error .einval
      else .ok (some ace.bytes)) none

/-- The label to set when only the label is set: it stands alone in the list, and without a list
the label is cleared. -/
def parseLabelSubsetAceBytes (inputSd : SecurityDescriptor) : SysResult (Option Bytes) :=
  match inputSd.sacl with
  | none => .ok none
  | some sacl =>
    match sacl.entries with
    | [first] => if isLabelAce first = false then .error .einval else .ok (some first.bytes)
    | _ => .error .einval

def labelIntegrityFromAce (aceBytes : Bytes) : SysResult IntegrityLevel := do
  let ace ← orErrno (Ace.parse aceBytes) .einval
  match ace.kind with
  | .singleSid _ sid =>
    if sid.identifierAuthority ≠ [0, 0, 0, 0, 0, 16] ∨ sid.subAuthorityCount ≠ 1#8 then
      .error .einval
    else
      match sid.subAuthority 0 with
      | some level => .ok level
      | none => .error .einval
  | _ => .error .einval

variable (subject : BootToken)

def validateLabelAssignment (labelAceBytes : Option Bytes) : SysResult Unit :=
  match labelAceBytes with
  | none => .ok ()
  | some labelAceBytes => do
    let labelIntegrity ← labelIntegrityFromAce labelAceBytes
    if labelIntegrity ≤ subject.integrityLevel then .ok ()
    else if subject.subjectHasEnabledPrivilege seRelabelPrivilege then .ok ()
    else .error .eacces

/-! ## Mandatory resource attributes -/

def claimSecurityAttributeMandatory : BitVec 32 := 0x0020#32

/-- Whether an entry is a mandatory resource attribute. -/
def isMandatoryResourceAttribute (ace : Ace) : SysResult Bool :=
  if ace.aceType ≠ systemResourceAttributeAceType then .ok false
  else
    match ace.kind with
    | .resourceAttribute _ _ applicationData => do
      let parsed ← orErrno (parseClaimAttributeEntry applicationData) .einval
      .ok (decide (parsed.flags &&& claimSecurityAttributeMandatory ≠ 0#32))
    | _ => .ok false

def collectMandatoryResourceAttributeAces : Option Acl → SysResult (List Bytes)
  | none => .ok []
  | some acl =>
    acl.entries.foldlM (fun mandatoryAces ace => do
      let mandatory ← isMandatoryResourceAttribute ace
      .ok (if mandatory then mandatoryAces ++ [ace.bytes] else mandatoryAces)) []

def validateMandatoryResourceAttributePreservation (currentSacl newSacl : Option Acl) :
    SysResult Unit := do
  let current ← collectMandatoryResourceAttributeAces currentSacl
  if current = [] then .ok ()
  else do
    let new ← collectMandatoryResourceAttributeAces newSacl
    if ∀ existing ∈ current, existing ∈ new then .ok ()
    else if subject.subjectHasEnabledPrivilege seTcbPrivilege then .ok ()
    else .error .eacces

/-! ## Owners -/

def seGroupOwner : BitVec 32 := 0x00000008#32

def validateOwnerAssignment (ownerSid : Sid) (allowRestoreOwnerAssignment : Bool) :
    SysResult Unit :=
  if ownerSid = subject.userSid then .ok ()
  else if subject.groups.any fun group =>
      decide (group.attributes &&& seGroupOwner = seGroupOwner) &&
        decide (group.sid = ownerSid) then .ok ()
  else if allowRestoreOwnerAssignment &&
      subject.subjectHasEnabledPrivilege seRestorePrivilege then .ok ()
  else .error .eacces

/-! ## The subset -/

def sdSubsetControl (baseControl : BitVec 16) (securityInfo : BitVec 32) : BitVec 16 :=
  let addIf (info : BitVec 32) (bits control : BitVec 16) : BitVec 16 :=
    if securityInfo &&& info ≠ 0#32 then control ||| (baseControl &&& bits) else control
  let control := baseControl &&& seRmControlValid
  let control := addIf ownerSecurityInformation seOwnerDefaulted control
  let control := addIf groupSecurityInformation seGroupDefaulted control
  let control := addIf daclSecurityInformation daclControl control
  addIf (saclSecurityInformation ||| labelSecurityInformation) saclControl control

/-- A list of the label alone, if there is one. -/
def extractLabelSubsetSaclBytes (sd : SecurityDescriptor) : SysResult (Option Bytes) :=
  match sd.sacl with
  | none => .ok none
  | some sacl =>
    match sacl.entries.find? isLabelAce with
    | none => .ok none
    | some ace => buildAclBytesFromAcesWithReserved sacl.revision sacl.sbz1 sacl.sbz2 [ace.bytes]

/-- A component that is handed out only if it is asked for. -/
def ifSelected {α : Type} (securityInfo info : BitVec 32) (component : Option α) : Option α :=
  if securityInfo &&& info ≠ 0#32 then component else none

def buildSdSubsetFromDescriptor (sd : SecurityDescriptor) (securityInfo : BitVec 32) :
    SysResult Bytes := do
  validateSdSecurityInfo securityInfo
  let labelSacl ←
    if securityInfo &&& labelSecurityInformation ≠ 0#32 then extractLabelSubsetSaclBytes sd
    else .ok none
  let fullSacl := ifSelected securityInfo saclSecurityInformation (sd.sacl.map Acl.bytes)
  let dacl := ifSelected securityInfo daclSecurityInformation (sd.dacl.map Acl.bytes)
  buildSdBytesFromComponents (sdSubsetControl sd.control securityInfo) sd.resourceManagerControl
    (ifSelected securityInfo ownerSecurityInformation (sd.owner.map Sid.bytes))
    (ifSelected securityInfo groupSecurityInformation (sd.group.map Sid.bytes))
    (fullSacl.or labelSacl) dacl

/-! ## The merge -/

def mergedOwner (currentSd inputSd : SecurityDescriptor) (securityInfo : BitVec 32)
    (allowRestoreOwnerAssignment : Bool) : SysResult Sid :=
  if securityInfo &&& ownerSecurityInformation ≠ 0#32 then
    match inputSd.owner with
    | none => .error .einval
    | some owner => do
      validateOwnerAssignment subject owner allowRestoreOwnerAssignment
      .ok owner
  else
    match currentSd.owner with
    | none => .error .einval
    | some owner => .ok owner

/-- The current list with its labels replaced by at most one. -/
def relabeledSacl (currentSacl : Option Acl) (labelAce : Option Bytes) :
    SysResult (Option Bytes) :=
  let preserved := ((currentSacl.map Acl.entries).getD []).filter fun ace =>
    decide (ace.aceType ≠ systemMandatoryLabelAceType)
  buildAclBytesFromAcesWithReserved (currentSacl.elim aclRevision Acl.revision)
    (currentSacl.elim 0#8 Acl.sbz1) (currentSacl.elim 0#16 Acl.sbz2)
    (labelAce.toList ++ preserved.map Ace.bytes)

def mergedSacl (currentSd inputSd : SecurityDescriptor) (securityInfo : BitVec 32) :
    SysResult (Option Bytes) :=
  if securityInfo &&& saclSecurityInformation ≠ 0#32 then do
    validateMandatoryResourceAttributePreservation subject currentSd.sacl inputSd.sacl
    let labelAce ← findExplicitLabelAceBytes inputSd.sacl
    validateLabelAssignment subject labelAce
    .ok (inputSd.sacl.map Acl.bytes)
  else if securityInfo &&& labelSecurityInformation ≠ 0#32 then do
    let labelAce ← parseLabelSubsetAceBytes inputSd
    validateLabelAssignment subject labelAce
    relabeledSacl currentSd.sacl labelAce
  else .ok (currentSd.sacl.map Acl.bytes)

def mergeSdWithCurrentDescriptor (currentSd : SecurityDescriptor) (securityInfo : BitVec 32)
    (inputSdBytes : Bytes) (allowRestoreOwnerAssignment : Bool) : SysResult Bytes := do
  let inputSd ← (SecurityDescriptor.parse inputSdBytes).mapError sdParseErrno
  let owner ← mergedOwner subject currentSd inputSd securityInfo allowRestoreOwnerAssignment
  let group :=
    if securityInfo &&& groupSecurityInformation ≠ 0#32 then inputSd.group else currentSd.group
  validateSdSecurityInfo securityInfo
  let dacl :=
    if securityInfo &&& daclSecurityInformation ≠ 0#32 then inputSd.dacl else currentSd.dacl
  let sacl ← mergedSacl subject currentSd inputSd securityInfo
  buildSdBytesFromComponents (mergedSdControl currentSd.control inputSd.control securityInfo)
    currentSd.resourceManagerControl (some owner.bytes) (group.map Sid.bytes) sacl
    (dacl.map Acl.bytes)

end Pkm.Kacs
