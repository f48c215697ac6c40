import Pkm.Kacs.Model.Condition
import Pkm.Kacs.Model.ObjectTree
import Pkm.Kacs.Model.PreSacl
/-!
# The DACL walk

`evaluateDaclStates` decides a request by the entries of a DACL, in order. Every
entry that applies, matches the caller and passes its condition decides those of
its bits that are requested and still undecided: over the whole object, or, with
an object tree, over one subtree, from where grants and denials move up. Without
a tree the walk stops once everything requested is decided.

The walk is used three times by a check, for the caller, for its restricting SIDs
and for its confining SIDs, with a different way of matching a SID each time.
-/

namespace Pkm.Kacs

inductive AcePolarity where
  | allow
  | deny
  deriving DecidableEq

inductive AceTarget where
  | global
  | object (guid : Guid)
  deriving DecidableEq

/-- What the walk needs to know of an entry. -/
structure ProjectedDaclAce where
  polarity : AcePolarity
  mask : Mask
  sid : Sid
  target : AceTarget
  condition : Option Bytes

/-- The outcome of a walk: the root, and every node of the tree if there is one. -/
structure InternalDaclEvaluation where
  root : AccessDecisionState
  objectStates : Option (List AccessDecisionState)
  deriving DecidableEq

/-- How a walk matches a SID of an entry. -/
abbrev SidMatches := Sid → AcePolarity → Bool

structure DaclStateInput where
  sd : SecurityDescriptor
  token : TokenView
  normalized : NormalizedDesiredAccess
  validRights : Mask
  mapping : GenericMapping
  skipOwnerImplicit : Bool
  conditionalContext : ConditionalContext
  objectTree : Option ObjectTypeList
  initialState : AccessDecisionState
  callerIsOwner : OwnerMatch

/-! ## Matching -/

def sidMatchesToken (token : TokenView) (sid : Sid) (polarity : AcePolarity) : Bool :=
  if sid = token.user then
    match polarity with
    | .allow => !token.userDenyOnly
    | .deny => true
  else
    token.groups.any fun group =>
      decide (group.sid = sid) && group.counts (decide (polarity = .allow))

def ownerMatchesIdentity (token : TokenView) (sid : Sid) : Bool :=
  decide (sid = token.user) || token.groups.any fun group => decide (group.sid = sid)

def callerIsOwnerNormal (sd : SecurityDescriptor) (token : TokenView) : OwnerMatch :=
  match sd.owner with
  | none => OwnerMatch.none
  | some owner =>
    { present := ownerMatchesIdentity token owner
      allow := sidMatchesToken token owner .allow
      deny := sidMatchesToken token owner .deny }

def restrictedContains (restrictedSids : List SidAndAttributes) (sid : Sid) : Bool :=
  restrictedSids.any fun entry => decide (entry.sid = sid)

def confinementContainsCapability (confinement : ConfinementTokenContext) (sid : Sid) : Bool :=
  confinement.confinementCapabilities.any fun entry => decide (entry.sid = sid)

def confinementContains (confinement : ConfinementTokenContext) (sid : Sid) : Bool :=
  decide (confinement.confinementSid = some sid) || confinementContainsCapability confinement sid

/-- Matches the SID of an entry, where OWNER RIGHTS and PRINCIPAL SELF stand for other SIDs. -/
def aceMatchesIdentity (aceSid : Sid) (polarity : AcePolarity) (callerIsOwner : OwnerMatch)
    (selfSid : Option Sid) (ordinarySidMatches : SidMatches) : Bool :=
  if aceSid = Sid.ownerRights then callerIsOwner.forAllow (decide (polarity = .allow))
  else if aceSid = Sid.principalSelf then
    (selfSid.map fun sid => ordinarySidMatches sid polarity).getD false
  else ordinarySidMatches aceSid polarity

/-! ## Entries -/

/-- The entry types that decide access. -/
def isAccessAceType (aceType : Byte) : Bool :=
  decide (aceType ∈ [accessAllowedAceType, accessDeniedAceType, accessAllowedObjectAceType,
    accessDeniedObjectAceType, accessAllowedCallbackAceType, accessDeniedCallbackAceType,
    accessAllowedCallbackObjectAceType, accessDeniedCallbackObjectAceType])

/-- The SID of the entry kinds that can grant or deny. -/
def AceKind.accessSid : AceKind → Option Sid
  | .singleSid _ sid | .object _ _ _ _ sid | .callback _ sid _ | .callbackObject _ _ _ _ sid _ =>
    some sid
  | .resourceAttribute _ _ _ | .opaqueKind => none

/-- Whether some entry speaks for OWNER RIGHTS, which takes the owner's implicit rights away. -/
def ownerRightsSuppressed (dacl : Acl) : Bool :=
  dacl.entries.any fun ace =>
    applies ace && decide (ace.kind.accessSid = some Sid.ownerRights) && isAccessAceType ace.aceType

def projectObjectTarget (flags : BitVec 32) (objectType : Option Guid) : KacsResult AceTarget :=
  if flags &&& aceObjectTypePresent = 0#32 then .ok .global
  else
    match objectType with
    | some guid => .ok (.object guid)
    | none =>
      .error (.invalidObjectAceLayout "object type flag set without object type guid")

/-- The polarity of a plain, object, callback or callback object entry type. -/
def polarityOf (allowType denyType aceType : Byte) : Option AcePolarity :=
  if aceType = allowType then some .allow
  else if aceType = denyType then some .deny
  else none

/-- What an entry decides; `none` for the entries a DACL walk passes over. -/
def projectDaclAce (ace : Ace) (mapping : GenericMapping) :
    KacsResult (Option ProjectedDaclAce) :=
  match ace.kind with
  | .singleSid mask sid =>
    match polarityOf accessAllowedAceType accessDeniedAceType ace.aceType with
    | none => .ok none
    | some polarity => do
      let mask ← mapping.mapMask mask
      .ok (some { polarity, mask, sid, target := .global, condition := none })
  | .object mask flags objectType _ sid =>
    match polarityOf accessAllowedObjectAceType accessDeniedObjectAceType ace.aceType with
    | none => .ok none
    | some polarity => do
      let mask ← mapping.mapMask mask
      let target ← projectObjectTarget flags objectType
      .ok (some { polarity, mask, sid, target, condition := none })
  | .callback mask sid applicationData =>
    match polarityOf accessAllowedCallbackAceType accessDeniedCallbackAceType ace.aceType with
    | none => .ok none
    | some polarity => do
      let mask ← mapping.mapMask mask
      .ok (some { polarity, mask, sid, target := .global, condition := some applicationData })
  | .callbackObject mask flags objectType _ sid applicationData =>
    match polarityOf accessAllowedCallbackObjectAceType accessDeniedCallbackObjectAceType
        ace.aceType with
    | none => .ok none
    | some polarity => do
      let mask ← mapping.mapMask mask
      let target ← projectObjectTarget flags objectType
      .ok (some { polarity, mask, sid, target, condition := some applicationData })
  | .resourceAttribute _ _ _ | .opaqueKind => .ok none

def conditionAllows (polarity : AcePolarity) (result : ConditionalResult) : Bool :=
  match polarity with
  | .allow => decide (result = .true)
  | .deny => decide (result ≠ .false)

/-! ## States -/

/-- Settles those of the bits that are undecided. -/
def applyBits (bits : Mask) (polarity : AcePolarity) (state : AccessDecisionState) :
    AccessDecisionState :=
  let undecided := bits &&& ~~~state.decided
  { decided := state.decided ||| undecided
    granted := if polarity = .allow then state.granted ||| undecided else state.granted }

variable (tree : ObjectTypeList) (index : ℕ) (bits : Mask) (polarity : AcePolarity)
  (states : List AccessDecisionState)

/-- Grants a node what all its children are granted. -/
def propagateGrantAt : List AccessDecisionState :=
  match tree.directChildren index with
  | [] => states
  | firstChild :: children =>
    let commonGranted := children.foldl
      (fun common child => common &&& (states.getD child default).granted)
      (states.getD firstChild default).granted
    states.modify index (applyBits commonGranted .allow)

/-- Grants move up, from the last node to the first. -/
def propagateGrantsUp : List AccessDecisionState :=
  (List.range states.length).foldr (fun index states => propagateGrantAt tree index states) states

/-- Denied bits move up the chain of parents of a node; the counter bounds its length. -/
def propagateDenialsUp (tree : ObjectTypeList) (deniedBits : Mask) :
    ℕ → Option ℕ → List AccessDecisionState → List AccessDecisionState
  | fuel + 1, some index, states =>
    propagateDenialsUp tree deniedBits fuel (tree.parentOf index)
      (states.modify index (applyBits deniedBits .deny))
  | _, _, states => states

def applyGlobalToTree : List AccessDecisionState := states.map (applyBits bits polarity)

/-- Settles bits in the subtree at a node. -/
def applyToSubtree : List AccessDecisionState :=
  states.mapIdx fun node state =>
    if tree.inSubtree index node then applyBits bits polarity state else state

def applyObjectAceToTree : List AccessDecisionState :=
  match polarity with
  | .allow => propagateGrantsUp tree (applyToSubtree tree index bits .allow states)
  | .deny =>
    -- the nodes of the subtree with the bits that are newly denied there
    let newlyDenied := (List.range states.length).filterMap fun node =>
      let denied := bits &&& ~~~(states.getD node default).decided
      if tree.inSubtree index node ∧ denied ≠ 0#32 then some (node, denied) else none
    newlyDenied.foldl (fun states (node, denied) =>
      propagateDenialsUp tree denied (node + 1) (tree.parentOf node) states)
      (applyToSubtree tree index bits .deny states)

/-! ## The walk -/

section Walk

variable [CharCase] (input : DaclStateInput) (sidMatches : SidMatches)

def relevantMask : Mask :=
  if input.normalized.maximumAllowed then input.validRights else input.normalized.mapped

/-- Whether a projected entry speaks about the caller, its condition included. -/
def aceSpeaks (projected : ProjectedDaclAce) : Bool :=
  aceMatchesIdentity projected.sid projected.polarity input.callerIsOwner
      input.conditionalContext.selfSid sidMatches &&
    match projected.condition with
    | none => true
    | some condition =>
      conditionAllows projected.polarity
        (evaluateConditionalExpression condition input.token
          { input.conditionalContext with callerIsOwner := input.callerIsOwner }
          (decide (projected.polarity = .allow)))

/-- One entry without a tree: the new state, and whether everything requested is now decided. -/
def applyToScalar (bits : Mask) (polarity : AcePolarity) (state : AccessDecisionState) :
    AccessDecisionState × Bool :=
  if bits &&& ~~~state.decided = 0#32 then (state, false)
  else
    let state := applyBits bits polarity state
    (state, !input.normalized.maximumAllowed &&
      decide (state.decided &&& relevantMask input = relevantMask input))

/-- One entry with a tree. -/
def applyToTree (tree : ObjectTypeList) (bits : Mask) (projected : ProjectedDaclAce)
    (states : List AccessDecisionState) : List AccessDecisionState :=
  match projected.target with
  | .global => applyGlobalToTree bits projected.polarity states
  | .object guid =>
    match tree.find guid with
    | some index => applyObjectAceToTree tree index bits projected.polarity states
    | none => states

/-- The entries from one on, over the state without a tree. -/
def walkScalar : List Ace → AccessDecisionState → KacsResult AccessDecisionState
  | [], state => .ok state
  | ace :: rest, state =>
    if ¬ applies ace then walkScalar rest state
    else do
      match ← projectDaclAce ace input.mapping with
      | none => walkScalar rest state
      | some projected =>
        let bits := projected.mask &&& relevantMask input
        if ¬ aceSpeaks input sidMatches projected then walkScalar rest state
        else if bits = 0#32 then walkScalar rest state
        else
          match applyToScalar input bits projected.polarity state with
          | (state, true) => .ok state
          | (state, false) => walkScalar rest state

/-- The entries from one on, over the states of a tree. -/
def walkTree (tree : ObjectTypeList) :
    List Ace → List AccessDecisionState → KacsResult (List AccessDecisionState)
  | [], states => .ok states
  | ace :: rest, states =>
    if ¬ applies ace then walkTree tree rest states
    else do
      match ← projectDaclAce ace input.mapping with
      | none => walkTree tree rest states
      | some projected =>
        let bits := projected.mask &&& relevantMask input
        if ¬ aceSpeaks input sidMatches projected then walkTree tree rest states
        else if bits = 0#32 then walkTree tree rest states
        else walkTree tree rest (applyToTree tree bits projected states)

/-- The state the walk starts from: the owner's implicit rights are granted unless an entry speaks
for OWNER RIGHTS. -/
def startState : AccessDecisionState :=
  let suppressed := (input.sd.dacl.map ownerRightsSuppressed).getD false
  if input.callerIsOwner.present ∧ ¬ input.skipOwnerImplicit ∧ ¬ suppressed then
    applyBits ((readControl ||| writeDac) &&& input.validRights) .allow input.initialState
  else input.initialState

def evaluateDaclStates : KacsResult InternalDaclEvaluation :=
  let start := startState input
  match input.objectTree with
  | none => do
    let root ←
      match input.sd.dacl with
      | none => .ok (applyBits input.validRights .allow start)
      | some dacl => walkScalar input sidMatches dacl.entries start
    .ok { root, objectStates := none }
  | some tree => do
    let states := List.replicate tree.len start
    let states ←
      match input.sd.dacl with
      | none => .ok (applyGlobalToTree input.validRights .allow states)
      | some dacl => walkTree input sidMatches tree dacl.entries states
    .ok { root := states.getD 0 default, objectStates := some states }

end Walk

/-! ## Merging passes -/

def mergeGranted (normal restricted writeBits : Mask) (writeRestricted : Bool)
    (privilegeGranted : Mask) : Mask :=
  let merged :=
    if writeRestricted then (normal &&& ~~~writeBits) ||| (normal &&& restricted &&& writeBits)
    else normal &&& restricted
  merged ||| privilegeGranted

/-- Combines the grants of two evaluations of one tree, node by node. -/
def mergeWith (f : Mask → Mask → Mask) (normal other : InternalDaclEvaluation) :
    InternalDaclEvaluation :=
  match normal.objectStates with
  | none => { normal with root.granted := f normal.root.granted other.root.granted }
  | some states =>
    let states := List.zipWith (fun state o => { state with granted := f state.granted o.granted })
      states (other.objectStates.getD [])
    { root := states.getD 0 default, objectStates := some states }

def mergeRestrictedResults (normal restricted : InternalDaclEvaluation) (writeBits : Mask)
    (writeRestricted : Bool) (privilegeGranted : Mask) : InternalDaclEvaluation :=
  mergeWith (fun n r => mergeGranted n r writeBits writeRestricted privilegeGranted)
    normal restricted

def mergeAbsoluteResults (normal narrowed : InternalDaclEvaluation) : InternalDaclEvaluation :=
  mergeWith (fun n r => n &&& r) normal narrowed

end Pkm.Kacs
