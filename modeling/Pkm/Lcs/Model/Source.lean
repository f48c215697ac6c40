import Pkm.Lcs.Model.Hives
import Pkm.Lcs.Model.Sequence
/-!
# Sources

A source registers its hives and gets a slot of the table, or resumes the slot it
had before its connection was lost. Slots are not given back: one whose source is
gone is down and keeps its hives reserved.
-/

namespace Pkm.Lcs

inductive SourceSlotStatus where
  | active
  | down
  deriving DecidableEq

/-- A hive as a source registers it. -/
structure SourceRegistrationHive where
  name : Name
  rootGuid : Guid
  flags : BitVec 32
  scopeGuid : Guid

structure SourceRegistrationRequest where
  hives : List SourceRegistrationHive
  maxSequence : ℕ
  callerHasTcb : Bool

/-- A hive as a slot keeps it. -/
structure RegisteredHiveIdentity where
  name : Name
  rootGuid : Guid
  scope : HiveScope
  deriving DecidableEq

structure SourceSlotView where
  sourceId : SourceId
  status : SourceSlotStatus
  hives : List RegisteredHiveIdentity
  deriving DecidableEq

inductive SourceRegistrationDecision where
  | newSlot
  | resumeDownSlot (sourceId : SourceId)
  deriving DecidableEq

structure SourceRegistrationPlan where
  decision : SourceRegistrationDecision
  hiveCount : ℕ
  sourceNextSequence : ℕ
  deriving DecidableEq

def rsiHivePrivate : BitVec 32 := 0x01#32

def sameHiveNamespace (leftName : Name) (leftScope : HiveScope) (rightName : Name)
    (rightScope : HiveScope) : Bool :=
  decide (leftScope = rightScope) && casefoldEq leftName rightName

/-! ## The hives of a request -/

def sourceRegistrationHiveScope (hive : SourceRegistrationHive) : LcsResult HiveScope :=
  let unknown := hive.flags &&& ~~~rsiHivePrivate
  if unknown ≠ 0 then .error (.unknownHiveFlags hive.flags unknown)
  else if hive.flags &&& rsiHivePrivate ≠ 0 then
    if hive.scopeGuid = nilGuid then .error .privateHiveHasNilScopeGuid
    else .ok (.privateTo hive.scopeGuid)
  else if hive.scopeGuid ≠ nilGuid then .error .globalHiveHasScopeGuid
  else .ok .global

variable (limits : LcsLimits) (existingSlots : List SourceSlotView)
  (requestHives previous : List SourceRegistrationHive)

def validateRegistrationHive (hive : SourceRegistrationHive) : LcsResult Unit := do
  let _ ← validateHiveNameBytes hive.name limits
  let _ ← sourceRegistrationHiveScope hive
  if hive.rootGuid = nilGuid then .error .nilHiveRootGuid else .ok ()

def registrationHiveSeenBefore (current : SourceRegistrationHive) : LcsResult Bool := do
  let currentName ← validateHiveNameBytes current.name limits
  let currentScope ← sourceRegistrationHiveScope current
  previous.anyM fun hive => do
    let previousName ← validateHiveNameBytes hive.name limits
    let previousScope ← sourceRegistrationHiveScope hive
    .ok (sameHiveNamespace previousName previousScope currentName currentScope)

def rootGuidSeenBefore (rootGuid : Guid) : Bool :=
  previous.any fun hive => hive.rootGuid == rootGuid

def validateSourceRegistrationHive (_ : Unit) (hive : SourceRegistrationHive) : LcsResult Unit := do
  validateRegistrationHive limits hive
  if ← registrationHiveSeenBefore limits previous hive then .error .duplicateHiveIdentity
  else if rootGuidSeenBefore previous hive.rootGuid then .error .duplicateHiveRootGuid
  else .ok ()

def validateSourceRegistrationHives (hives : List SourceRegistrationHive) : LcsResult Unit :=
  if hives.isEmpty then .error .zeroHiveCount
  else if hives.length > limits.maxHivesPerSource then
    .error (.tooManyHives hives.length limits.maxHivesPerSource)
  else Scan.foldAfter (validateSourceRegistrationHive limits) [] () hives

/-! ## The slots of the table -/

def existingHiveSeen (previous : List RegisteredHiveIdentity) (current : RegisteredHiveIdentity) :
    LcsResult Bool := do
  let currentName ← validateHiveNameBytes current.name limits
  previous.anyM fun hive => do
    let previousName ← validateHiveNameBytes hive.name limits
    .ok (sameHiveNamespace previousName hive.scope currentName current.scope)

def existingHiveSeenBefore (previous : List RegisteredHiveIdentity)
    (current : RegisteredHiveIdentity) : LcsResult Bool :=
  existingHiveSeen limits previous current

def existingHiveSeenInPriorSlot (previous : List SourceSlotView)
    (current : RegisteredHiveIdentity) : LcsResult Bool :=
  existingHiveSeen limits (previous.flatMap (·.hives)) current

def existingRootGuidSeenBefore (previous : List RegisteredHiveIdentity) (rootGuid : Guid) : Bool :=
  previous.any fun hive => hive.rootGuid == rootGuid

def existingRootGuidSeenInPriorSlot (previous : List SourceSlotView) (rootGuid : Guid) : Bool :=
  existingRootGuidSeenBefore (previous.flatMap (·.hives)) rootGuid

def validateExistingHive (previousSlots : List SourceSlotView)
    (previous : List RegisteredHiveIdentity) (_ : Unit) (hive : RegisteredHiveIdentity) :
    LcsResult Unit := do
  let _ ← validateHiveNameBytes hive.name limits
  if hive.rootGuid = nilGuid then .error .nilHiveRootGuid
  else if ← existingHiveSeenBefore limits previous hive then .error .duplicateHiveIdentity
  else if existingRootGuidSeenBefore previous hive.rootGuid then .error .duplicateHiveRootGuid
  else if ← existingHiveSeenInPriorSlot limits previousSlots hive then
    .error .duplicateHiveIdentity
  else if existingRootGuidSeenInPriorSlot previousSlots hive.rootGuid then
    .error .duplicateHiveRootGuid
  else .ok ()

def validateExistingSourceSlot (previousSlots : List SourceSlotView) (_ : Unit)
    (slot : SourceSlotView) : LcsResult Unit :=
  if slot.hives.isEmpty then .error .zeroHiveCount
  else Scan.foldAfter (validateExistingHive limits previousSlots) [] () slot.hives

def validateExistingSourceSlots : LcsResult Unit :=
  Scan.foldAfter (validateExistingSourceSlot limits) [] () existingSlots

def validateSourceSlots : LcsResult Unit := validateExistingSourceSlots limits existingSlots

/-! ## A request against the table -/

def sameRequestedAndExistingNamespace (requested : SourceRegistrationHive)
    (existing : RegisteredHiveIdentity) : LcsResult Bool := do
  let requestedName ← validateHiveNameBytes requested.name limits
  let requestedScope ← sourceRegistrationHiveScope requested
  let existingName ← validateHiveNameBytes existing.name limits
  .ok (sameHiveNamespace requestedName requestedScope existingName existing.scope)

def requestContainsExactHive (existing : RegisteredHiveIdentity) : LcsResult Bool :=
  requestHives.anyM fun requested => do
    let same ← sameRequestedAndExistingNamespace limits requested existing
    .ok (same && requested.rootGuid == existing.rootGuid)

def exactDownSlotMatch (limits : LcsLimits) (requestHives : List SourceRegistrationHive) :
    List SourceSlotView → LcsResult (Option SourceId)
  | [] => .ok none
  | slot :: rest =>
    if slot.status ≠ .down ∨ slot.hives.length ≠ requestHives.length then
      exactDownSlotMatch limits requestHives rest
    else do
      if ← slot.hives.allM (requestContainsExactHive limits requestHives) then
        .ok (some slot.sourceId)
      else exactDownSlotMatch limits requestHives rest

/-- One refusal of a request: over every hive of the slots it looks at and every hive of the
request. -/
def rejectPairs (slots : List SourceSlotView) (looksAt : SourceSlotView → Bool)
    (requestHives : List SourceRegistrationHive)
    (reject : RegisteredHiveIdentity → SourceRegistrationHive → LcsResult Unit) : LcsResult Unit :=
  slots.forM fun slot =>
    if ¬ looksAt slot then .ok ()
    else slot.hives.forM fun existing => requestHives.forM fun requested =>
      reject existing requested

def rejectActiveCollisions : LcsResult Unit :=
  rejectPairs existingSlots (fun slot => slot.status == .active) requestHives
    fun existing requested => do
      if ← sameRequestedAndExistingNamespace limits requested existing then
        .error .hiveIdentityCollision
      else .ok ()

def rejectInexactDownSlotResume : LcsResult Unit :=
  rejectPairs existingSlots (fun slot => slot.status == .down) requestHives
    fun existing requested => do
      if ¬ (← sameRequestedAndExistingNamespace limits requested existing) then .ok ()
      else if requested.rootGuid ≠ existing.rootGuid then .error .staleSourceHiveIdentity
      else .error .partialSourceResume

def rejectRootGuidCollisions : LcsResult Unit :=
  rejectPairs existingSlots (fun _ => true) requestHives
    fun existing requested =>
      if requested.rootGuid ≠ existing.rootGuid then .ok ()
      else do
        if ← sameRequestedAndExistingNamespace limits requested existing then .ok ()
        else .error .hiveRootGuidCollision

def validateSourceRegistration (request : SourceRegistrationRequest) :
    LcsResult SourceRegistrationPlan :=
  if ¬ request.callerHasTcb then .error .missingTcbPrivilege
  else do
    validateSourceRegistrationHives limits request.hives
    validateSourceSlots limits existingSlots
    let counter ← SequenceCounter.fromHighestPersisted request.maxSequence
    match ← exactDownSlotMatch limits request.hives existingSlots with
    | some sourceId =>
      .ok ⟨.resumeDownSlot sourceId, request.hives.length, counter.nextSequence⟩
    | none => do
      rejectActiveCollisions limits existingSlots request.hives
      rejectInexactDownSlotResume limits existingSlots request.hives
      rejectRootGuidCollisions limits existingSlots request.hives
      if existingSlots.length ≥ limits.maxRegisteredSources then
        .error (.tooManyRegisteredSources (existingSlots.length + 1) limits.maxRegisteredSources)
      else .ok ⟨.newSlot, request.hives.length, counter.nextSequence⟩

/-! ## The table over time -/

/-- What a slot keeps of a registered hive. -/
def registeredHiveIdentity (hive : SourceRegistrationHive) : LcsResult RegisteredHiveIdentity := do
  let scope ← sourceRegistrationHiveScope hive
  .ok ⟨hive.name, hive.rootGuid, scope⟩

/-- The slot of that source goes from one status to another, if it has the first. -/
def moveSlot (sourceId : SourceId) (old new : SourceSlotStatus) :
    List SourceSlotView → Option (List SourceSlotView)
  | [] => none
  | slot :: rest =>
    if slot.sourceId = sourceId then
      if slot.status = old then some ({ slot with status := new } :: rest) else none
    else (moveSlot sourceId old new rest).map (slot :: ·)

inductive SourceEvent where
  | register (request : SourceRegistrationRequest)
  | disconnect (sourceId : SourceId)

/-- The table after an event, unless that is refused. Slots fill up from the front, and a slot's
number is its place. -/
def sourceTableStep (slots : List SourceSlotView) :
    SourceEvent → Option (List SourceSlotView)
  | .register request => do
    let plan ← (validateSourceRegistration limits slots request).toOption
    match plan.decision with
    | .newSlot => do
      let hives ← (request.hives.mapM registeredHiveIdentity).toOption
      some (slots ++ [⟨slots.length + 1, .active, hives⟩])
    | .resumeDownSlot sourceId => moveSlot sourceId .down .active slots
  | .disconnect sourceId => moveSlot sourceId .active .down slots

end Pkm.Lcs
