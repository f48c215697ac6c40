import Pkm.Kacs.Model.SecurityDescriptor
import Pkm.Kacs.Model.Token
/-!
# Before the DACL: privileges, mandatory labels and SACL metadata

What is decided about a request before any DACL entry is read. The caller's
privileges seed granted bits; the mandatory label withholds bits from a caller of
a lower integrity level; the process-trust label withholds bits, privileges
included, from a caller it is not dominated by. The same walk collects the
resource attributes and the scoped-policy SIDs of the SACL.

Each function that updates state in place is a function from the old state to the
new one.
-/

namespace Pkm.Kacs

open Bytes

/-- Decided and granted bits. -/
structure AccessDecisionState where
  decided : Mask
  granted : Mask
  deriving DecidableEq

instance : Inhabited AccessDecisionState := ⟨⟨0#32, 0#32⟩⟩

/-! ## Privilege seeds -/

/-- The bits each privilege is responsible for. -/
structure PrivilegeProvenance where
  securityGranted : Mask
  backupGranted : Mask
  restoreGranted : Mask
  takeOwnershipGranted : Mask
  relabelGranted : Mask
  deriving DecidableEq

namespace PrivilegeProvenance

def none : PrivilegeProvenance := ⟨0#32, 0#32, 0#32, 0#32, 0#32⟩

def privilegeGranted (self : PrivilegeProvenance) : Mask :=
  self.securityGranted ||| self.backupGranted ||| self.restoreGranted ||| self.takeOwnershipGranted

end PrivilegeProvenance

/-- The state the privileges leave a check in. -/
structure PrivilegeGrantState where
  effectivePrivileges : BitVec 64
  decided : Mask
  granted : Mask
  provenance : PrivilegeProvenance

def PrivilegeGrantState.privilegeGranted (self : PrivilegeGrantState) : Mask :=
  self.provenance.privilegeGranted

/-- SeSecurity grants access to the SACL. -/
def seedSecurity (state : PrivilegeGrantState) : PrivilegeGrantState :=
  if state.effectivePrivileges &&& seSecurityPrivilege ≠ 0#64 then
    { state with
      granted := state.granted ||| accessSystemSecurity
      provenance.securityGranted := state.provenance.securityGranted ||| accessSystemSecurity }
  else state

/-- SeBackup grants what reading maps to. -/
def seedBackup (mapping : GenericMapping) (state : PrivilegeGrantState) :
    KacsResult PrivilegeGrantState :=
  if state.effectivePrivileges &&& seBackupPrivilege ≠ 0#64 then do
    let backupBits ← mapping.mapMask genericRead
    .ok { state with
          decided := state.decided ||| backupBits
          granted := state.granted ||| backupBits
          provenance.backupGranted := state.provenance.backupGranted ||| backupBits }
  else .ok state

/-- SeRestore grants what writing maps to, and the rights to replace the descriptor. -/
def seedRestore (mapping : GenericMapping) (state : PrivilegeGrantState) :
    KacsResult PrivilegeGrantState :=
  if state.effectivePrivileges &&& seRestorePrivilege ≠ 0#64 then do
    let writeBits ← mapping.mapMask genericWrite
    let restoreBits := writeBits ||| writeDac ||| writeOwner ||| delete ||| accessSystemSecurity
    .ok { state with
          decided := state.decided ||| restoreBits
          granted := state.granted ||| restoreBits
          provenance.restoreGranted := state.provenance.restoreGranted ||| restoreBits }
  else .ok state

/-- `ACCESS_SYSTEM_SECURITY` is always decided here: no DACL can grant it. -/
def seedAccessCheckPrivileges (privileges : TokenPrivileges) (mapping : GenericMapping)
    (privilegeIntent : BitVec 32) : KacsResult PrivilegeGrantState := do
  let state ← seedBackup mapping (seedSecurity
    { effectivePrivileges := privileges.effectiveAccessCheckMask privilegeIntent
      decided := accessSystemSecurity
      granted := 0#32
      provenance := PrivilegeProvenance.none })
  seedRestore mapping state

/-! ## The mandatory label -/

def tokenMandatoryPolicyNoWriteUp : BitVec 32 := 1#32

def systemMandatoryLabelNoReadUp : Mask := 1#32
def systemMandatoryLabelNoWriteUp : Mask := 2#32
def systemMandatoryLabelNoExecuteUp : Mask := 4#32

/-- The integrity label of an object. -/
structure MandatoryLabel where
  integrityLevel : IntegrityLevel
  mask : Mask
  explicit : Bool
  deriving DecidableEq

def defaultMandatoryLabel : MandatoryLabel :=
  { integrityLevel := IntegrityLevel.medium, mask := systemMandatoryLabelNoWriteUp
    explicit := false }

def integrityLevelFromSid (sid : Sid) : KacsResult IntegrityLevel :=
  if sid.identifierAuthority ≠ [0, 0, 0, 0, 0, 16] then .error .invalidMandatoryLabelSid
  else if sid.subAuthorityCount ≠ 1#8 then .error .invalidMandatoryLabelSid
  else
    match sid.subAuthority 0 with
    | some level => .ok level
    | none => .error .invalidMandatoryLabelSid

/-- Whether an entry takes part in a check of the object that holds it. -/
def applies (ace : Ace) : Bool := decide (ace.aceFlags &&& inheritOnlyAce = 0#8)

/-- The first entry of a type that applies to the object itself. -/
def firstOfType (aceType : Byte) (entries : List Ace) : Option Ace :=
  entries.find? fun ace => applies ace && decide (ace.aceType = aceType)

def resolveMandatoryLabel (sd : SecurityDescriptor) : KacsResult MandatoryLabel :=
  match sd.sacl with
  | none => .ok defaultMandatoryLabel
  | some sacl =>
    match firstOfType systemMandatoryLabelAceType sacl.entries with
    | none => .ok defaultMandatoryLabel
    | some ace =>
      match ace.kind with
      | .singleSid mask sid => do
        let integrityLevel ← integrityLevelFromSid sid
        .ok { integrityLevel, mask, explicit := true }
      | _ => .error .invalidMandatoryLabelSid

/-- Withholds bits from a caller below the label: the bits it decides, the decided bits and the
provenance afterwards. -/
def applyMic (label : MandatoryLabel) (tokenIntegrity : IntegrityLevel)
    (mandatoryPolicy : BitVec 32) (effectivePrivileges : BitVec 64) (mapping : GenericMapping)
    (decided : Mask) (provenance : PrivilegeProvenance) :
    KacsResult (Mask × Mask × PrivilegeProvenance) :=
  if mandatoryPolicy &&& tokenMandatoryPolicyNoWriteUp = 0#32 then .ok (0#32, decided, provenance)
  else if tokenIntegrity ≥ label.integrityLevel then .ok (0#32, decided, provenance)
  else do
    let readBits ← mapping.mapMask genericRead
    let writeBits ← mapping.mapMask genericWrite
    let executeBits ← mapping.mapMask genericExecute
    let allowed := readBits ||| executeBits
    let allowed :=
      if label.mask &&& systemMandatoryLabelNoReadUp ≠ 0#32 then allowed &&& ~~~readBits
      else allowed
    let allowed :=
      if label.mask &&& systemMandatoryLabelNoWriteUp ≠ 0#32 then allowed &&& ~~~writeBits
      else allowed
    let allowed :=
      if label.mask &&& systemMandatoryLabelNoExecuteUp ≠ 0#32 then allowed &&& ~~~executeBits
      else allowed
    -- after the strips: a caller below the label can always read the descriptor and synchronise
    let allowed := allowed ||| (readControl ||| synchronize)
    let (allowed, provenance) :=
      if effectivePrivileges &&& seRelabelPrivilege ≠ 0#64 then
        (allowed ||| writeOwner,
          { provenance with relabelGranted := provenance.relabelGranted ||| writeOwner })
      else (allowed, provenance)
    let allBits ← mapping.mapMask genericAll
    let mandatoryDecided := allBits &&& ~~~allowed
    .ok (mandatoryDecided, decided ||| mandatoryDecided, provenance)

/-! ## The process-trust label -/

structure ProcessTrustLabel where
  pipType : BitVec 32
  pipTrust : BitVec 32
  mask : Mask

/-- The trust of the calling process. -/
structure PipContext where
  pipType : BitVec 32
  pipTrust : BitVec 32

def pipAxesFromSid (sid : Sid) : KacsResult (BitVec 32 × BitVec 32) :=
  if sid.identifierAuthority ≠ [0, 0, 0, 0, 0, 19] then .error .invalidProcessTrustLabelSid
  else if sid.subAuthorityCount ≠ 2#8 then .error .invalidProcessTrustLabelSid
  else
    match sid.subAuthority 0, sid.subAuthority 1 with
    | some pipType, some pipTrust => .ok (pipType, pipTrust)
    | _, _ => .error .invalidProcessTrustLabelSid

def resolveProcessTrustLabel (sd : SecurityDescriptor) : KacsResult (Option ProcessTrustLabel) :=
  match sd.sacl with
  | none => .ok none
  | some sacl =>
    match firstOfType systemProcessTrustLabelAceType sacl.entries with
    | none => .ok none
    | some ace =>
      match ace.kind with
      | .singleSid mask sid => do
        let (pipType, pipTrust) ← pipAxesFromSid sid
        .ok (some { pipType, pipTrust, mask })
      | _ => .error .invalidProcessTrustLabelSid

/-- Withholds bits from a caller that does not dominate the label: the bits it decides, and the
decided, granted and privilege-granted bits afterwards. -/
def applyPip (label : ProcessTrustLabel) (callerPip : PipContext) (mapping : GenericMapping)
    (decided granted privilegeGranted : Mask) : KacsResult (Mask × Mask × Mask × Mask) :=
  if callerPip.pipType ≥ label.pipType ∧ callerPip.pipTrust ≥ label.pipTrust then
    .ok (0#32, decided, granted, privilegeGranted)
  else do
    let allowed ← mapping.mapMask label.mask
    let allBits ← mapping.mapMask genericAll
    let pipDenied := (allBits ||| accessSystemSecurity) &&& ~~~allowed
    .ok (pipDenied, decided ||| pipDenied, granted &&& ~~~pipDenied,
      privilegeGranted &&& ~~~pipDenied)

/-- The same for a descriptor that may carry no label. -/
def applyTrustLabel (trustLabel : Option ProcessTrustLabel) (callerPip : PipContext)
    (mapping : GenericMapping) (decided granted privilegeGranted : Mask) :
    KacsResult (Mask × Mask × Mask × Mask) :=
  match trustLabel with
  | some label => applyPip label callerPip mapping decided granted privilegeGranted
  | none => .ok (0#32, decided, granted, privilegeGranted)

/-! ## SACL metadata -/

/-- The attributes and the policy SIDs a SACL carries. -/
structure SaclMetadata where
  resourceAttributes : List ClaimAttribute
  policySids : List Sid

section Metadata

variable [CharCase]

/-- One entry of the SACL: attributes are kept once per folded name. -/
def addSaclMetadata (state : SaclMetadata) (ace : Ace) : KacsResult SaclMetadata :=
  if ¬ applies ace then .ok state
  else if ace.aceType = systemResourceAttributeAceType then
    match ace.kind with
    | .resourceAttribute _ _ applicationData => do
      let attr ← parseClaimAttributeEntry applicationData
      let folded := foldString attr.name
      if state.resourceAttributes.any fun known => decide (foldString known.name = folded) then
        .ok state
      else .ok { state with resourceAttributes := state.resourceAttributes ++ [attr] }
    | _ => .ok state
  else if ace.aceType = systemScopedPolicyIdAceType then
    match ace.kind with
    | .singleSid _ sid => .ok { state with policySids := state.policySids ++ [sid] }
    | _ => .ok state
  else .ok state

def extractSaclMetadata (sd : SecurityDescriptor) : KacsResult SaclMetadata :=
  match sd.sacl with
  | none => .ok ⟨[], []⟩
  | some sacl => sacl.entries.foldlM addSaclMetadata ⟨[], []⟩

/-! ## The walk -/

structure PreSaclWalkInput where
  sd : SecurityDescriptor
  tokenIntegrity : IntegrityLevel
  mandatoryPolicy : BitVec 32
  effectivePrivileges : BitVec 64
  pip : PipContext
  mapping : GenericMapping
  initialState : AccessDecisionState
  privilegeGranted : Mask
  provenance : PrivilegeProvenance

structure PreSaclWalkState where
  decided : Mask
  granted : Mask
  privilegeGranted : Mask
  mandatoryDecided : Mask
  pipDecided : Mask
  micDecided : Mask
  resourceAttributes : List ClaimAttribute
  policySids : List Sid
  provenance : PrivilegeProvenance

def preSaclWalk (input : PreSaclWalkInput) : KacsResult PreSaclWalkState := do
  let metadata ← extractSaclMetadata input.sd
  let label ← resolveMandatoryLabel input.sd
  let trustLabel ← resolveProcessTrustLabel input.sd
  let (micDecided, decided, provenance) ←
    applyMic label input.tokenIntegrity input.mandatoryPolicy input.effectivePrivileges
      input.mapping input.initialState.decided input.provenance
  let (pipDecided, decided, granted, privilegeGranted) ←
    applyTrustLabel trustLabel input.pip input.mapping decided input.initialState.granted
      input.privilegeGranted
  .ok { decided, granted, privilegeGranted
        mandatoryDecided := micDecided ||| pipDecided
        pipDecided, micDecided
        resourceAttributes := metadata.resourceAttributes
        policySids := metadata.policySids
        provenance }

end Metadata

/-! ## The take-ownership fallback -/

/-- Grants `WRITE_OWNER` by privilege when it was asked for, is not withheld by a label and was not
granted otherwise. -/
def applyTakeOwnershipFallback (scalar : AccessDecisionState)
    (objectStates : Option (List AccessDecisionState)) (normalized : NormalizedDesiredAccess)
    (effectivePrivileges : BitVec 64) (mandatoryDecided : Mask)
    (provenance : PrivilegeProvenance) :
    AccessDecisionState × Option (List AccessDecisionState) × PrivilegeProvenance :=
  let writeOwnerRequested :=
    decide (normalized.mapped &&& writeOwner ≠ 0#32) || normalized.maximumAllowed
  if ¬ writeOwnerRequested then (scalar, objectStates, provenance)
  else if effectivePrivileges &&& seTakeOwnershipPrivilege = 0#64 then
    (scalar, objectStates, provenance)
  else if mandatoryDecided &&& writeOwner ≠ 0#32 then (scalar, objectStates, provenance)
  else if scalar.granted &&& writeOwner ≠ 0#32 then (scalar, objectStates, provenance)
  else
    ({ decided := scalar.decided ||| writeOwner, granted := scalar.granted ||| writeOwner },
      objectStates.map (·.map fun state =>
        if state.granted &&& writeOwner = 0#32 then
          { decided := state.decided ||| writeOwner, granted := state.granted ||| writeOwner }
        else state),
      { provenance with
        takeOwnershipGranted := provenance.takeOwnershipGranted ||| writeOwner })

end Pkm.Kacs
