import Pkm.Kacs.Model.Dacl
/-!
# Evaluating a security descriptor

The pipeline of a check up to the central policies: privileges and labels, the
DACL walk for the caller, the take-ownership fallback, and the two narrowing
passes. The pass for restricting SIDs is merged with what privileges granted
restored; the pass for confining SIDs is merged by intersection.
-/

namespace Pkm.Kacs

structure EvaluateSecurityDescriptorInput where
  sd : Option SecurityDescriptor
  token : AccessCheckToken
  pip : PipContext
  desiredAccess : Mask
  mapping : GenericMapping
  objectTree : Option ObjectTypeList
  conditionalContext : ConditionalContext
  privilegeIntent : BitVec 32

structure EvaluateSecurityDescriptorState where
  decided : Mask
  granted : Mask
  privilegeGranted : Mask
  maxAllowedMode : Bool
  mappedDesired : Mask
  resourceAttributes : List ClaimAttribute
  policySids : List Sid
  pipDecided : Mask
  micDecided : Mask
  provenance : PrivilegeProvenance
  objectGrantedList : Option (List Mask)

/-- Whether a token has restricting SIDs of either kind. -/
def RestrictedTokenContext.isActive (self : RestrictedTokenContext) : Bool :=
  !self.restrictedSids.isEmpty || !self.restrictedDeviceGroups.isEmpty

/-- The confinement SID, unless the token is exempt. -/
def ConfinementTokenContext.activeSid (self : ConfinementTokenContext) : Option Sid :=
  self.confinementSid.filter fun _ => !self.confinementExempt

/-- What the three walks of an evaluation share. The context carries the resource claims. -/
structure PassInput where
  sd : SecurityDescriptor
  token : AccessCheckToken
  normalized : NormalizedDesiredAccess
  validRights : Mask
  mapping : GenericMapping
  objectTree : Option ObjectTypeList
  context : ConditionalContext

namespace PassInput

variable (self : PassInput)

/-- The walk for the caller, from the state privileges and labels left. -/
def normalInput (initialState : AccessDecisionState) : DaclStateInput where
  sd := self.sd
  token := self.token.subject
  normalized := self.normalized
  validRights := self.validRights
  mapping := self.mapping
  skipOwnerImplicit := false
  conditionalContext := self.context
  objectTree := self.objectTree
  initialState := initialState
  callerIsOwner := callerIsOwnerNormal self.sd self.token.subject

/-- The walk for the restricting SIDs, which match by presence. -/
def restrictedInput : DaclStateInput :=
  let restricted := self.token.restricted
  let restrictedOwner := self.sd.owner.any (restrictedContains restricted.restrictedSids)
  let restrictedSelf := self.context.selfSid.filter (restrictedContains restricted.restrictedSids)
  { self.normalInput { granted := 0#32, decided := 0#32 } with
    conditionalContext :=
      { self.context with
        selfSid := restrictedSelf
        principalSelfMatches := some restrictedSelf.isSome
        identity :=
          some { user := none, userDenyOnly := false, groups := restricted.restrictedSids }
        identityMembershipIsPresenceBased := true
        callerIsOwner := OwnerMatch.presence restrictedOwner
        deviceGroups := restricted.restrictedDeviceGroups
        deviceMembershipUsesVirtualGroups := true }
    callerIsOwner := OwnerMatch.presence restrictedOwner }

/-- The walk for the confining SIDs, without the owner's implicit rights. -/
def confinementInput : DaclStateInput :=
  let confinement := self.token.confinement
  let confinementOwner := self.sd.owner.any (confinementContains confinement)
  let confinementSelf := self.context.selfSid.filter (confinementContains confinement)
  { self.normalInput { granted := 0#32, decided := 0#32 } with
    skipOwnerImplicit := true
    conditionalContext :=
      { self.context with
        selfSid := confinementSelf
        principalSelfMatches := some confinementSelf.isSome
        callerIsOwner := OwnerMatch.presence confinementOwner
        deviceMembershipUsesVirtualGroups := true }
    callerIsOwner := OwnerMatch.presence confinementOwner }

variable [CharCase]

def normalPass (initialState : AccessDecisionState) : KacsResult InternalDaclEvaluation :=
  evaluateDaclStates (self.normalInput initialState) (sidMatchesToken self.token.subject)

def restrictedPass : KacsResult InternalDaclEvaluation :=
  evaluateDaclStates self.restrictedInput
    fun sid _ => restrictedContains self.token.restricted.restrictedSids sid

def confinementPass (confinementSid : Sid) : KacsResult InternalDaclEvaluation :=
  evaluateDaclStates self.confinementInput
    fun sid _ =>
      decide (sid = confinementSid) || confinementContainsCapability self.token.confinement sid

/-- The restricted pass merged into an evaluation, if the token has restricting SIDs. -/
def restrict (evaluation : InternalDaclEvaluation) (privilegeGranted : Mask) :
    KacsResult InternalDaclEvaluation :=
  if self.token.restricted.isActive then do
    let restricted ← self.restrictedPass
    let writeBits ← self.mapping.mapMask genericWrite
    .ok (mergeRestrictedResults evaluation restricted writeBits
      self.token.restricted.writeRestricted privilegeGranted)
  else .ok evaluation

/-- The confinement pass merged into an evaluation, if the token is confined. -/
def confine (evaluation : InternalDaclEvaluation) : KacsResult InternalDaclEvaluation :=
  match self.token.confinement.activeSid with
  | some confinementSid => do
    let confinement ← self.confinementPass confinementSid
    .ok (mergeAbsoluteResults evaluation confinement)
  | none => .ok evaluation

end PassInput

variable [CharCase]

/-- The pipeline behind the checks on the token, the descriptor and the tree. -/
def evaluateChecked (input : EvaluateSecurityDescriptorInput) (sd : SecurityDescriptor) :
    KacsResult EvaluateSecurityDescriptorState := do
  let token := input.token
  let mapping := input.mapping
  let normalized ← mapping.normalizeDesiredAccess input.desiredAccess
  let validRights ← mapping.mapMask genericAll
  let privilegeSeed ← seedAccessCheckPrivileges token.privileges mapping input.privilegeIntent
  let preSacl ← preSaclWalk
    { sd
      tokenIntegrity := token.integrityLevel
      mandatoryPolicy := token.mandatoryPolicy
      effectivePrivileges := privilegeSeed.effectivePrivileges
      pip := input.pip
      mapping
      initialState := { granted := privilegeSeed.granted, decided := privilegeSeed.decided }
      privilegeGranted := privilegeSeed.privilegeGranted
      provenance := privilegeSeed.provenance }
  let pass : PassInput :=
    { sd, token, normalized, validRights, mapping
      objectTree := input.objectTree
      context := { input.conditionalContext with resourceClaims := preSacl.resourceAttributes } }
  let evaluation ← pass.normalPass { granted := preSacl.granted, decided := preSacl.decided }
  let (root, objectStates, provenance) :=
    applyTakeOwnershipFallback evaluation.root evaluation.objectStates normalized
      privilegeSeed.effectivePrivileges preSacl.mandatoryDecided preSacl.provenance
  let privilegeGrantedBeforeRestriction :=
    preSacl.privilegeGranted ||| provenance.takeOwnershipGranted
  let evaluation ← pass.restrict { root, objectStates } privilegeGrantedBeforeRestriction
  let evaluation ← pass.confine evaluation
  .ok { decided := evaluation.root.decided
        granted := evaluation.root.granted
        privilegeGranted := privilegeGrantedBeforeRestriction &&& evaluation.root.granted
        maxAllowedMode := normalized.maximumAllowed
        mappedDesired := normalized.mapped
        resourceAttributes := preSacl.resourceAttributes
        policySids := preSacl.policySids
        pipDecided := preSacl.pipDecided
        micDecided := preSacl.micDecided
        provenance
        objectGrantedList := evaluation.objectStates.map (·.map (·.granted)) }

def evaluateSecurityDescriptor (input : EvaluateSecurityDescriptorInput) :
    KacsResult EvaluateSecurityDescriptorState := do
  validateAccessCheckTokenInvariants input.token
  if input.token.tokenType = .impersonation ∧ input.token.impersonationLevel = .identification then
    .error .accessDenied
  else
    match input.sd with
    | none => .error .nullSecurityDescriptor
    | some sd =>
      if sd.owner.isNone then .error .missingSecurityDescriptorOwner
      else if input.objectTree.any (·.isEmpty) then .error .emptyObjectTypeList
      else evaluateChecked input sd

end Pkm.Kacs
