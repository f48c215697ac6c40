import Pkm.Kacs.Model.Caap
/-!
# The access check

`accessCheckCore` evaluates the descriptor, narrows the grant by the central
policies it names, accounts for the privileges the grant rests on, and walks the
SACL and the policies' audit lists for the events the outcome causes.
-/

namespace Pkm.Kacs

/-! ## Auditing -/

def successfulAccessAceFlag : Byte := 0x40#8
def failedAccessAceFlag : Byte := 0x80#8

def auditPolicyObjectAccessSuccess : BitVec 32 := 1#32
def auditPolicyObjectAccessFailure : BitVec 32 := 2#32
def auditPolicyPrivilegeUseSuccess : BitVec 32 := 4#32
def auditPolicyPrivilegeUseFailure : BitVec 32 := 8#32

structure AuditEvent where
  aceBytes : Option Bytes
  requested : Mask
  granted : Mask
  success : Bool
  policyForced : Bool
  privilege : Option (BitVec 64)
  objectAuditContext : Option Bytes
  deriving DecidableEq

structure EvaluateSaclState where
  auditEvents : List AuditEvent
  continuousAuditMask : Mask
  deriving DecidableEq

def EvaluateSaclState.empty : EvaluateSaclState := ⟨[], 0#32⟩

/-- An outcome is a success when everything requested is granted. -/
def isSuccess (granted mappedDesired : Mask) : Bool :=
  decide (granted &&& mappedDesired = mappedDesired) || decide (mappedDesired = 0#32)

def AceKind.mask : AceKind → Mask
  | .singleSid mask _ | .object mask _ _ _ _ | .callback mask _ _ | .callbackObject mask _ _ _ _ _
  | .resourceAttribute mask _ _ => mask
  | .opaqueKind => 0#32

def mappedAceMask (ace : Ace) (mapping : GenericMapping) : KacsResult Mask :=
  mapping.mapMask ace.kind.mask

def auditTargetMatches (ace : Ace) (objectTree : Option ObjectTypeList) : Bool :=
  match objectTree with
  | none => true
  | some tree =>
    match ace.kind with
    | .object _ flags objectType _ _ | .callbackObject _ flags objectType _ _ _ =>
      decide (flags &&& aceObjectTypePresent = 0#32) ||
        objectType.any fun guid => (tree.find guid).isSome
    | _ => true

/-- An audit entry matches as a deny entry would. -/
def auditSidMatches (token : TokenView) (sid : Sid) (callerIsOwner : Bool)
    (selfSid : Option Sid) : Bool :=
  if sid = Sid.ownerRights then callerIsOwner
  else if sid = Sid.principalSelf then
    (selfSid.map fun principal => sidMatchesToken token principal .deny).getD false
  else sidMatchesToken token sid .deny

def maybeAppendAccessAudit (ace : Ace) (mappedDesired granted : Mask)
    (objectAuditContext : Option Bytes) (state : EvaluateSaclState) : EvaluateSaclState :=
  let success := isSuccess granted mappedDesired
  let flag := if success then successfulAccessAceFlag else failedAccessAceFlag
  if ace.aceFlags &&& flag ≠ 0#8 then
    { state with
      auditEvents := state.auditEvents ++
        [{ aceBytes := some ace.bytes, requested := mappedDesired, granted, success
           policyForced := false, privilege := none, objectAuditContext }] }
  else state

/-- The audit entries a SACL walk acts on, with their condition. -/
inductive AuditKind where
  | audit (sid : Sid) (condition : Option Bytes)
  | alarm (sid : Sid) (condition : Option Bytes)

def auditKind (ace : Ace) : Option AuditKind :=
  match ace.kind with
  | .singleSid _ sid =>
    if ace.aceType = systemAuditAceType then some (.audit sid none)
    else if ace.aceType = systemAlarmAceType then some (.alarm sid none) else none
  | .object _ _ _ _ sid =>
    if ace.aceType = systemAuditObjectAceType then some (.audit sid none)
    else if ace.aceType = systemAlarmObjectAceType then some (.alarm sid none) else none
  | .callback _ sid applicationData =>
    if ace.aceType = systemAuditCallbackAceType then some (.audit sid (some applicationData))
    else if ace.aceType = systemAlarmCallbackAceType then some (.alarm sid (some applicationData))
    else none
  | .callbackObject _ _ _ _ sid applicationData =>
    if ace.aceType = systemAuditCallbackObjectAceType then
      some (.audit sid (some applicationData))
    else if ace.aceType = systemAlarmCallbackObjectAceType then
      some (.alarm sid (some applicationData))
    else none
  | .resourceAttribute _ _ _ | .opaqueKind => none

structure SaclInput where
  token : TokenView
  owner : Sid
  selfSid : Option Sid
  objectTree : Option ObjectTypeList
  mappedDesired : Mask
  granted : Mask
  maxAllowedMode : Bool
  mapping : GenericMapping
  conditionalContext : ConditionalContext
  objectAuditContext : Option Bytes

section Audit

variable [CharCase] (input : SaclInput)

/-- What the walk matches entries against: a request for everything is matched by what it got. -/
def saclDesired : Mask := if input.maxAllowedMode then input.granted else input.mappedDesired

def saclContext : ConditionalContext :=
  { input.conditionalContext with
    callerIsOwner :=
      { present := ownerMatchesIdentity input.token input.owner
        allow := sidMatchesToken input.token input.owner .allow
        deny := sidMatchesToken input.token input.owner .deny }
    principalSelfMatches := input.selfSid.map fun sid => sidMatchesToken input.token sid .deny }

/-- Whether an audit entry speaks about the caller and the objects asked for. -/
def auditAceSpeaks (ace : Ace) (sid : Sid) (condition : Option Bytes) : Bool :=
  let context := saclContext input
  auditSidMatches input.token sid (context.callerIsOwner.forAllow false) input.selfSid &&
    auditTargetMatches ace input.objectTree &&
    match condition with
    | none => true
    | some applicationData =>
      decide (evaluateConditionalExpression applicationData input.token context false ≠ .false)

def handleSaclAce (state : EvaluateSaclState) (ace : Ace) : KacsResult EvaluateSaclState :=
  if ¬ applies ace then .ok state
  else do
    let aceMask ← mappedAceMask ace input.mapping
    match auditKind ace with
    | none => .ok state
    | some (.audit sid condition) =>
      if ¬ auditAceSpeaks input ace sid condition then .ok state
      else if aceMask &&& saclDesired input = 0#32 then .ok state
      else .ok (maybeAppendAccessAudit ace (saclDesired input) input.granted
        input.objectAuditContext state)
    | some (.alarm sid condition) =>
      if ¬ auditAceSpeaks input ace sid condition then .ok state
      else .ok { state with continuousAuditMask := state.continuousAuditMask ||| aceMask }

def evaluateSacl (sacl : Acl) : KacsResult EvaluateSaclState :=
  sacl.entries.foldlM (handleSaclAce input) EvaluateSaclState.empty

end Audit

/-! ## Privilege use -/

inductive AccessCheckMode where
  | scalar
  | resultList
  deriving DecidableEq

structure PrivilegeUseEvent where
  privilege : BitVec 64
  contributed : Mask
  survivingBits : Mask
  checkRequested : Mask
  checkGranted : Mask
  success : Bool
  objectAuditContext : Option Bytes
  deriving DecidableEq

structure PrivilegeUseInput where
  mode : AccessCheckMode
  token : AccessCheckToken
  provenance : PrivilegeProvenance
  mappedDesired : Mask
  finalGranted : Mask
  objectGrantedList : Option (List Mask)
  maxAllowedMode : Bool
  objectAuditContext : Option Bytes

def provenanceEntries (provenance : PrivilegeProvenance) : List (BitVec 64 × Mask) :=
  [(seSecurityPrivilege, provenance.securityGranted),
    (seBackupPrivilege, provenance.backupGranted),
    (seRestorePrivilege, provenance.restoreGranted),
    (seTakeOwnershipPrivilege, provenance.takeOwnershipGranted),
    (seRelabelPrivilege, provenance.relabelGranted)]

variable (input : PrivilegeUseInput)

/-- The bits of a contribution that are in the final grant, of some node in result-list mode. -/
def survivingBits (requestedContribution : Mask) : Mask :=
  match input.mode with
  | .scalar => requestedContribution &&& input.finalGranted
  | .resultList => (input.objectGrantedList.getD []).foldl
      (fun acc granted => acc ||| (requestedContribution &&& granted)) 0#32

/-- One privilege: whether it counts as used, and the event its use or failure causes. -/
def accountPrivilege (state : BitVec 64 × List PrivilegeUseEvent) (entry : BitVec 64 × Mask) :
    BitVec 64 × List PrivilegeUseEvent :=
  let (usedDelta, events) := state
  let (privilege, provenanceMask) := entry
  let contributed := provenanceMask &&& input.mappedDesired
  if contributed = 0#32 then state
  else
    let surviving := survivingBits input contributed
    let checkGranted := (input.objectGrantedList.bind List.head?).getD input.finalGranted
    let event : PrivilegeUseEvent :=
      { privilege, contributed, survivingBits := surviving
        checkRequested := input.mappedDesired, checkGranted
        success := decide (surviving ≠ 0#32)
        objectAuditContext := input.objectAuditContext }
    let policy :=
      if surviving ≠ 0#32 then auditPolicyPrivilegeUseSuccess else auditPolicyPrivilegeUseFailure
    (if surviving ≠ 0#32 then usedDelta ||| privilege else usedDelta,
      if input.token.auditPolicy &&& policy ≠ 0#32 then events ++ [event] else events)

def evaluatePrivilegeUse : BitVec 64 × List PrivilegeUseEvent :=
  if input.maxAllowedMode then (0#64, [])
  else (provenanceEntries input.provenance).foldl (accountPrivilege input) (0#64, [])

/-! ## Policy audit lists -/

inductive CaapDiagnosticKind where
  | saclError
  | stagingMismatch

structure CaapDiagnosticEvent where
  kind : CaapDiagnosticKind
  phase : Option CaapSaclPhase
  policySid : Option Bytes
  ruleIndex : Option (BitVec 32)
  reason : String
  requested : Mask
  effectiveGranted : Mask
  stagedGranted : Mask
  objectResultsDiffer : Bool
  objectAuditContext : Option Bytes

/-- The audit events collected so far and the diagnostics. -/
structure AuditProgress where
  sacl : EvaluateSaclState
  diagnostics : List CaapDiagnosticEvent

def objectGrantsDiffer : Option (List Mask) → Option (List Mask) → Bool
  | some staged, some effective =>
    decide (staged.length ≠ effective.length) ||
      (List.zip staged effective).any fun (staged, effective) => decide (staged ≠ effective)
  | none, none => false
  | _, _ => true

def EvaluateSaclState.extend (self other : EvaluateSaclState) : EvaluateSaclState where
  auditEvents := self.auditEvents ++ other.auditEvents
  continuousAuditMask := self.continuousAuditMask ||| other.continuousAuditMask

variable [CharCase] (input : SaclInput)

/-- Evaluates one contributed list; a list that cannot be evaluated is only reported. -/
def evaluateCaapSaclContribution (caap : CaapEvaluationState) (objectResultsDiffer : Bool)
    (progress : AuditProgress) (contribution : CaapSaclContribution) : AuditProgress :=
  let diagnostic (reason : String) : AuditProgress :=
    { progress with
      diagnostics := progress.diagnostics ++
        [{ kind := .saclError
           phase := some contribution.phase
           policySid := some contribution.policySid.bytes
           ruleIndex := some contribution.ruleIndex
           reason
           requested := input.mappedDesired
           effectiveGranted := caap.granted
           stagedGranted := caap.stagedGranted
           objectResultsDiffer
           objectAuditContext := input.objectAuditContext }] }
  match Acl.parse contribution.sacl with
  | .error _ => diagnostic "invalid-caap-sacl"
  | .ok acl =>
    match evaluateSacl input acl with
    | .ok state => { progress with sacl := progress.sacl.extend state }
    | .error _ => diagnostic "caap-sacl-evaluation-error"

/-- The descriptor's own SACL and then the contributed lists. -/
def evaluateAudit (sd : SecurityDescriptor) (caap : CaapEvaluationState)
    (objectResultsDiffer : Bool) (contributions : List CaapSaclContribution)
    (diagnostics : List CaapDiagnosticEvent) : KacsResult AuditProgress := do
  let own ←
    match sd.sacl with
    | some sacl => evaluateSacl input sacl
    | none => .ok EvaluateSaclState.empty
  .ok (contributions.foldl (evaluateCaapSaclContribution input caap objectResultsDiffer)
    { sacl := own, diagnostics })

/-- The staged audit, when some rule contributes to it: whether it differs from the effective one,
and the diagnostics. -/
def evaluateStagedAudit (sd : SecurityDescriptor) (caap : CaapEvaluationState)
    (objectResultsDiffer : Bool) (effective : AuditProgress) :
    KacsResult (Bool × List CaapDiagnosticEvent) :=
  if caap.stagedSacls.isEmpty then .ok (false, effective.diagnostics)
  else do
    let staged ← evaluateAudit input sd caap objectResultsDiffer caap.stagedSacls
      effective.diagnostics
    .ok (decide (staged.sacl ≠ effective.sacl), staged.diagnostics)

structure AccessCheckCoreInput extends EvaluateSecurityDescriptorInput where
  mode : AccessCheckMode
  objectAuditContext : Option Bytes
  policies : List CaapPolicyEntry

structure AccessCheckCoreState where
  decided : Mask
  granted : Mask
  privilegeGranted : Mask
  maxAllowedMode : Bool
  mappedDesired : Mask
  continuousAuditMask : Mask
  stagingMismatch : Bool
  pipDecided : Mask
  deniedIntegrity : Mask
  deniedTrust : Mask
  objectGrantedList : Option (List Mask)
  auditEvents : List AuditEvent
  privilegeUseEvents : List PrivilegeUseEvent
  caapDiagnosticEvents : List CaapDiagnosticEvent
  updatedPrivileges : TokenPrivileges

namespace AccessCheckCoreInput

variable (self : AccessCheckCoreInput)

/-- The evaluation of the descriptor itself. -/
def baseInput (sd : SecurityDescriptor) : EvaluateSecurityDescriptorInput :=
  { self.toEvaluateSecurityDescriptorInput with sd := some sd }

/-- The narrowing by central policies. -/
def caapInput (sd : SecurityDescriptor) (base : EvaluateSecurityDescriptorState) :
    CaapEvaluationInput where
  sd := sd
  token := self.token
  pip := self.pip
  desiredAccess := self.desiredAccess
  mapping := self.mapping
  objectTree := self.objectTree
  conditionalContext := self.conditionalContext
  base := base
  policies := self.policies

/-- The walk of an audit list against a grant. -/
def saclInput (owner : Sid) (base : EvaluateSecurityDescriptorState) (granted : Mask) :
    SaclInput where
  token := self.token.subject
  owner := owner
  selfSid := self.conditionalContext.selfSid
  objectTree := self.objectTree
  mappedDesired := base.mappedDesired
  granted := granted
  maxAllowedMode := base.maxAllowedMode
  mapping := self.mapping
  conditionalContext := { self.conditionalContext with resourceClaims := base.resourceAttributes }
  objectAuditContext := self.objectAuditContext

/-- The accounting of privileges. -/
def privilegeUseInput (base : EvaluateSecurityDescriptorState) (caap : CaapEvaluationState) :
    PrivilegeUseInput where
  mode := self.mode
  token := self.token
  provenance := base.provenance
  mappedDesired := base.mappedDesired
  finalGranted := caap.granted
  objectGrantedList := caap.objectGrantedList
  maxAllowedMode := base.maxAllowedMode
  objectAuditContext := self.objectAuditContext

end AccessCheckCoreInput

/-- The event the caller's audit policy forces, if any. -/
def forcedAudit (input : AccessCheckCoreInput) (base : EvaluateSecurityDescriptorState)
    (granted : Mask) : List AuditEvent :=
  let success := isSuccess granted base.mappedDesired
  let policy :=
    if success then auditPolicyObjectAccessSuccess else auditPolicyObjectAccessFailure
  if input.token.auditPolicy &&& policy ≠ 0#32 then
    [{ aceBytes := none, requested := base.mappedDesired, granted, success
       policyForced := true, privilege := none, objectAuditContext := input.objectAuditContext }]
  else []

def accessCheckCore (input : AccessCheckCoreInput) : KacsResult AccessCheckCoreState :=
  if input.mode = .resultList ∧ input.objectTree.isNone then
    .error (.invariantViolation "result-list mode requires object tree")
  else
    match input.sd with
    | none => .error .nullSecurityDescriptor
    | some sd => do
      let base ← evaluateSecurityDescriptor (input.baseInput sd)
      let caap ← evaluateCaap (input.caapInput sd base)
      let hasPolicies := !base.policySids.isEmpty
      let objectResultsDiffer :=
        hasPolicies && objectGrantsDiffer caap.stagedObjectGrantedList caap.objectGrantedList
      let stagingMismatch :=
        (hasPolicies && decide (caap.stagedGranted ≠ caap.granted)) || objectResultsDiffer
      let (usedDelta, privilegeUseEvents) :=
        evaluatePrivilegeUse (input.privilegeUseInput base caap)
      match sd.owner with
      | none => .error .missingSecurityDescriptorOwner
      | some owner => do
        let effective ← evaluateAudit (input.saclInput owner base caap.granted) sd caap
          objectResultsDiffer caap.effectiveSacls []
        let (auditDiffers, diagnostics) ←
          evaluateStagedAudit (input.saclInput owner base caap.stagedGranted) sd caap
            objectResultsDiffer effective
        let stagingMismatch := stagingMismatch || auditDiffers
        let diagnostics :=
          if hasPolicies && stagingMismatch then
            diagnostics ++
              [{ kind := .stagingMismatch, phase := none, policySid := none, ruleIndex := none
                 reason := "effective-staged-delta"
                 requested := base.mappedDesired
                 effectiveGranted := caap.granted
                 stagedGranted := caap.stagedGranted
                 objectResultsDiffer
                 objectAuditContext := input.objectAuditContext }]
          else diagnostics
        let denialScope := if base.maxAllowedMode then BitVec.allOnes 32 else base.mappedDesired
        .ok { decided := base.decided
              granted := caap.granted
              privilegeGranted := base.privilegeGranted &&& caap.granted
              maxAllowedMode := base.maxAllowedMode
              mappedDesired := base.mappedDesired
              continuousAuditMask := effective.sacl.continuousAuditMask
              stagingMismatch
              pipDecided := base.pipDecided
              deniedIntegrity := base.micDecided &&& denialScope
              deniedTrust := base.pipDecided &&& denialScope
              objectGrantedList := caap.objectGrantedList
              auditEvents := effective.sacl.auditEvents ++ forcedAudit input base caap.granted
              privilegeUseEvents
              caapDiagnosticEvents := diagnostics
              updatedPrivileges :=
                { input.token.privileges with
                  used := input.token.privileges.used ||| usedDelta } }

end Pkm.Kacs
