import Pkm.Kacs.Model.EvaluateSd
/-!
# Central access policies

A descriptor names policies by scoped-policy entries of its SACL. Each rule of a
named policy that applies narrows the grant to what the descriptor would grant
with the rule's DACL in place of its own; a rule that cannot be evaluated leaves
only what privileges granted, and a policy that is not installed is replaced by a
recovery policy for administrators, the system and the owner. A second, staged
grant is narrowed alongside by the rules' staged DACLs.
-/

namespace Pkm.Kacs

open Bytes

/-! ## Writing lists -/

/-- The revision an entry type needs. -/
def minimumAclRevisionForAceType (aceType : Byte) : Byte :=
  if aceType ∈ [accessAllowedObjectAceType, accessDeniedObjectAceType, systemAuditObjectAceType,
      systemAlarmObjectAceType, accessAllowedCallbackAceType, accessDeniedCallbackAceType,
      accessAllowedCallbackObjectAceType, accessDeniedCallbackObjectAceType,
      systemAuditCallbackAceType, systemAlarmCallbackAceType, systemAuditCallbackObjectAceType,
      systemAlarmCallbackObjectAceType] then aclRevisionDs
  else aclRevision

/-- The larger of two revisions. -/
def maxRevision (a b : Byte) : Byte := if a ≤ b then b else a

def minimumAclRevisionForAceSlices (aces : List Bytes) : KacsResult Byte :=
  aces.foldlM (fun revision bytes => do
    let ace ← Ace.parse bytes
    .ok (maxRevision revision (minimumAclRevisionForAceType ace.aceType))) aclRevision

/-- The revision for a rewritten list: an entry of an unknown type keeps the source's revision. -/
def minimumAclRevisionWithSourceFloorForOpaque (sourceRevision : Byte) (aces : List Bytes) :
    KacsResult Byte := do
  let (revision, sawOpaque) ← aces.foldlM (fun (revision, sawOpaque) bytes => do
    let ace ← Ace.parse bytes
    .ok (maxRevision revision (minimumAclRevisionForAceType ace.aceType),
      sawOpaque || decide (ace.kind = .opaqueKind))) (aclRevision, false)
  .ok (if sawOpaque then maxRevision revision sourceRevision else revision)

/-- A list's header and entries. Size and count are written as sixteen bits. -/
def aclHeaderAndEntries (revision sbz1 : Byte) (sbz2 : BitVec 16) (aces : List Bytes) : Bytes :=
  [revision, sbz1] ++ ofU16 (BitVec.ofNat 16 (8 + aces.flatten.length)) ++
    ofU16 (BitVec.ofNat 16 aces.length) ++ ofU16 sbz2 ++ aces.flatten

def basicAce (aceType flags : Byte) (mask : Mask) (sid : Sid) : Bytes :=
  [aceType, flags] ++ ofU16 (BitVec.ofNat 16 (8 + sid.bytes.length)) ++ ofU32 mask ++ sid.bytes

def aclBytes (aces : List Bytes) : KacsResult Bytes := do
  let revision ← minimumAclRevisionForAceSlices aces
  .ok (aclHeaderAndEntries revision 0#8 0#16 aces)

/-- What stands in for a policy that is not installed: full access for those who can repair it. -/
def recoveryAces : List Bytes :=
  [Sid.administrators, Sid.system, Sid.ownerRights].map
    (basicAce accessAllowedAceType 0#8 genericAll)

def buildRecoveryPolicyDacl : KacsResult Bytes := aclBytes recoveryAces

/-- The SACL without its scoped-policy entries. -/
def stripScopedPolicyAces : Option Acl → KacsResult (Option Bytes)
  | none => .ok none
  | some sacl => do
    let kept := (sacl.entries.filter fun ace =>
      decide (ace.aceType ≠ systemScopedPolicyIdAceType)).map (·.bytes)
    let revision ← minimumAclRevisionWithSourceFloorForOpaque sacl.revision kept
    .ok (some (aclHeaderAndEntries revision sacl.sbz1 sacl.sbz2 kept))

/-! ## The descriptor of a rule -/

/-- The bytes of the descriptor with a rule's DACL in place of its own. -/
def buildSyntheticSdBytes (baseSd : SecurityDescriptor) (daclBytes : Bytes) :
    KacsResult Bytes :=
  match baseSd.owner with
  | none => .error .missingSecurityDescriptorOwner
  | some owner => do
    let sacl ← stripScopedPolicyAces baseSd.sacl
    let control := baseSd.control ||| seSelfRelative ||| seDaclPresent
    let control :=
      if sacl.isSome then control ||| seSaclPresent else control &&& ~~~seSaclPresent
    let group := baseSd.group.map Sid.bytes
    let totalLen := SecurityDescriptor.headerSize + owner.bytes.length +
      (group.getD []).length + (sacl.getD []).length + daclBytes.length
    if totalLen > maxSecurityDescriptorBytes then
      .error (.securityDescriptorTooLarge totalLen maxSecurityDescriptorBytes)
    else
      .ok (SecurityDescriptor.assemble baseSd.resourceManagerControl control (some owner.bytes)
        group sacl (some daclBytes))

/-! ## Rules -/

structure CaapRule where
  appliesTo : Option Bytes
  effectiveDacl : Bytes
  effectiveSacl : Option Bytes
  stagedDacl : Option Bytes
  stagedSacl : Option Bytes

structure CaapPolicy where
  rules : List CaapRule

structure CaapPolicyEntry where
  sid : Sid
  policy : CaapPolicy

inductive CaapSaclPhase where
  | effective
  | staged

/-- An audit list contributed by a rule. -/
structure CaapSaclContribution where
  policySid : Sid
  ruleIndex : BitVec 32
  phase : CaapSaclPhase
  sacl : Bytes

structure CaapEvaluationInput where
  sd : SecurityDescriptor
  token : AccessCheckToken
  pip : PipContext
  desiredAccess : Mask
  mapping : GenericMapping
  objectTree : Option ObjectTypeList
  conditionalContext : ConditionalContext
  base : EvaluateSecurityDescriptorState
  policies : List CaapPolicyEntry

structure CaapEvaluationState where
  granted : Mask
  objectGrantedList : Option (List Mask)
  stagedGranted : Mask
  stagedObjectGrantedList : Option (List Mask)
  effectiveSacls : List CaapSaclContribution
  stagedSacls : List CaapSaclContribution

/-- What a rule grants. -/
structure RuleGrantState where
  granted : Mask
  objectGrantedList : Option (List Mask)

def lookupPolicy (policies : List CaapPolicyEntry) (sid : Sid) : Option CaapPolicy :=
  (policies.find? fun entry => decide (entry.sid = sid)).map (·.policy)

/-- The grant of a rule that cannot be evaluated. -/
def denyExceptPrivileges (privilegeGranted : Mask) (objectTree : Option ObjectTypeList) :
    RuleGrantState where
  granted := privilegeGranted
  objectGrantedList := objectTree.map fun tree => List.replicate tree.len privilegeGranted

def cloneBaseObjectGrants (base : EvaluateSecurityDescriptorState)
    (objectTree : Option ObjectTypeList) : KacsResult (Option (List Mask)) :=
  match objectTree with
  | none => .ok none
  | some tree =>
    match base.objectGrantedList with
    | none => .error (.invariantViolation "missing base object_granted_list")
    | some list =>
      if list.length ≠ tree.len then
        .error (.invariantViolation "base object_granted_list length mismatch")
      else .ok (some list)

def intersectObjectGrants (current next : Option (List Mask)) : KacsResult (Option (List Mask)) :=
  match current, next with
  | some current, some next =>
    if current.length ≠ next.length then
      .error (.invariantViolation "object_granted_list length mismatch")
    else .ok (some (List.zipWith (· &&& ·) current next))
  | current, _ => .ok current

variable [CharCase] (input : CaapEvaluationInput)

/-- The context a rule's condition is evaluated in. -/
def ruleContext : ConditionalContext where
  selfSid := none
  principalSelfMatches := none
  callerIsOwner := OwnerMatch.none
  identity := none
  identityMembershipIsPresenceBased := false
  deviceGroups := []
  deviceMembershipUsesVirtualGroups := false
  membershipAllowed := false
  userClaims := input.conditionalContext.userClaims
  deviceClaims := input.conditionalContext.deviceClaims
  resourceClaims := input.base.resourceAttributes
  localClaims := input.conditionalContext.localClaims

/-- A rule applies when it has no condition or its condition is true of the claims alone. -/
def ruleApplies (appliesTo : Option Bytes) : Bool :=
  match appliesTo with
  | none => true
  | some appliesTo =>
    decide (evaluateConditionalExpression appliesTo input.token.subject (ruleContext input) false =
      .true)

/-- The evaluation of a descriptor that carries a rule's DACL. Backup and restore intents do not
reach a rule. -/
def ruleInput (sd : SecurityDescriptor) : EvaluateSecurityDescriptorInput where
  sd := some sd
  token := input.token
  pip := input.pip
  desiredAccess := input.desiredAccess
  mapping := input.mapping
  objectTree := input.objectTree
  conditionalContext := input.conditionalContext
  privilegeIntent := 0#32

/-- What the descriptor grants with a rule's DACL; `none` when that cannot be evaluated. -/
def evaluateRuleDacl (daclBytes : Bytes) : Option RuleGrantState := do
  let syntheticBytes ← (buildSyntheticSdBytes input.sd daclBytes).toOption
  let syntheticSd ← (SecurityDescriptor.parse syntheticBytes).toOption
  let result ← (evaluateSecurityDescriptor (ruleInput input syntheticSd)).toOption
  some { granted := result.granted, objectGrantedList := result.objectGrantedList }

/-- The grant of a rule's DACL, or what is left when it cannot be evaluated. -/
def ruleGrants (daclBytes : Bytes) : RuleGrantState :=
  (evaluateRuleDacl input daclBytes).getD
    (denyExceptPrivileges input.base.privilegeGranted input.objectTree)

/-- The staged audit list of a rule, which defaults to the effective one. -/
def contributions (phase : CaapSaclPhase) (policySid : Option Sid) (ruleIndex : BitVec 32)
    (sacl : Option Bytes) : List CaapSaclContribution :=
  match policySid, sacl with
  | some policySid, some sacl => [{ policySid, ruleIndex, phase, sacl }]
  | _, _ => []

def applyRule (policySid : Option Sid) (ruleIndex : BitVec 32) (rule : CaapRule)
    (state : CaapEvaluationState) : KacsResult CaapEvaluationState :=
  if ¬ ruleApplies input rule.appliesTo then .ok state
  else do
    let effectiveState := ruleGrants input rule.effectiveDacl
    let objectGrantedList ←
      intersectObjectGrants state.objectGrantedList effectiveState.objectGrantedList
    let stagedState :=
      match rule.stagedDacl with
      | some stagedDacl => ruleGrants input stagedDacl
      | none => effectiveState
    let stagedObjectGrantedList ←
      intersectObjectGrants state.stagedObjectGrantedList stagedState.objectGrantedList
    .ok { granted := state.granted &&& effectiveState.granted
          objectGrantedList
          stagedGranted := state.stagedGranted &&& stagedState.granted
          stagedObjectGrantedList
          effectiveSacls := state.effectiveSacls ++
            contributions .effective policySid ruleIndex rule.effectiveSacl
          stagedSacls := state.stagedSacls ++
            contributions .staged policySid ruleIndex (rule.stagedSacl.or rule.effectiveSacl) }

/-- All rules of one named policy, or the recovery rule when the policy is not installed. -/
def applyPolicy (state : CaapEvaluationState) (policySid : Sid) :
    KacsResult CaapEvaluationState :=
  match lookupPolicy input.policies policySid with
  | some policy =>
    policy.rules.zipIdx.foldlM (fun state (rule, index) =>
      applyRule input (some policySid) (BitVec.ofNat 32 index) rule state) state
  | none => do
    let recoveryDacl ← buildRecoveryPolicyDacl
    applyRule input none 0#32
      { appliesTo := none, effectiveDacl := recoveryDacl, effectiveSacl := none
        stagedDacl := none, stagedSacl := none } state

def evaluateCaap : KacsResult CaapEvaluationState := do
  let objectGrantedList ← cloneBaseObjectGrants input.base input.objectTree
  input.base.policySids.foldlM (applyPolicy input)
    { granted := input.base.granted
      objectGrantedList
      stagedGranted := input.base.granted
      stagedObjectGrantedList := objectGrantedList
      effectiveSacls := []
      stagedSacls := [] }

end Pkm.Kacs
