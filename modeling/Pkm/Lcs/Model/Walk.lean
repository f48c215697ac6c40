import Pkm.Lcs.Model.Resolution
import Pkm.Lcs.Model.Source
/-!
# Walking paths

A path is routed to a hive by its first component and walked from the root of that
hive, one lookup for each further component. A key that is a link restarts the walk
at the link's target, with the components that were left, until a number of links is
used up; the target is routed anew. A path that starts at an open key is walked from
that key and goes on like an absolute one after its first link.

The sources answer without delay, and what they hold stays the same during a call.
-/

namespace Pkm.Lcs

open Bytes

/-- The errors of a registry call. -/
inductive LinuxErrno where
  | e2big
  | eacces
  | eexist
  | einval
  | eio
  | eloop
  | enametoolong
  | enoent
  | enospc
  | eopnotsupp
  | eoverflow
  | eperm
  | erange
  | estale
  deriving DecidableEq

abbrev SysResult := Except LinuxErrno

/-- The ranges the limits are held to. -/
structure LcsLimits.InRange (limits : LcsLimits) : Prop where
  symlinkDepth : 1 ≤ limits.symlinkDepthLimit ∧ limits.symlinkDepthLimit ≤ 64
  valueSize : 4096 ≤ limits.maxValueSize ∧ limits.maxValueSize ≤ 67108864
  keyDepth : 32 ≤ limits.maxKeyDepth ∧ limits.maxKeyDepth ≤ 4096
  componentLength : 64 ≤ limits.maxPathComponentLength ∧ limits.maxPathComponentLength ≤ 1024
  pathLength : 1024 ≤ limits.maxTotalPathLength ∧ limits.maxTotalPathLength ≤ 65535
  boundTransactions :
    1 ≤ limits.maxBoundTransactionsPerSource ∧ limits.maxBoundTransactionsPerSource ≤ 256
  layers : 16 ≤ limits.maxTotalLayers ∧ limits.maxTotalLayers ≤ 65536
  sources : 1 ≤ limits.maxRegisteredSources ∧ limits.maxRegisteredSources ≤ 256
  hives : 1 ≤ limits.maxHivesPerSource ∧ limits.maxHivesPerSource ≤ 1024
  scopes : 1 ≤ limits.maxScopeGuidsPerToken ∧ limits.maxScopeGuidsPerToken ≤ 256
  privateLayers : 1 ≤ limits.maxPrivateLayersPerToken ∧ limits.maxPrivateLayersPerToken ≤ 256

theorem LcsLimits.inRange_default : LcsLimits.default.InRange := by
  constructor <;> decide

def maxKeyDepthHard : ℕ := 4096

def maxTotalPathBytesHard : ℕ := 65535

/-! ## What the sources answer -/

/-- What a source tells of a key. -/
structure KeyMetadata where
  guid : Guid
  sd : Bytes
  volatile : Bool
  symlink : Bool
  deriving DecidableEq

structure LookupPayload where
  entries : List PathEntry
  metadata : List KeyMetadata

structure ReadKeyPayload where
  name : Name
  sd : Bytes
  volatile : Bool
  symlink : Bool

structure QueryValuesPayload where
  entries : List NamedValueEntry
  blankets : List BlanketTombstoneEntry

inductive CreateEntryStatus where
  | ok
  | alreadyExists
  deriving DecidableEq

/-- The answers of the sources, and whether a descriptor in one of them is well formed. -/
structure Sources where
  lookup : SourceId → Guid → Name → LookupPayload
  readKey : SourceId → Guid → ReadKeyPayload
  queryValues : SourceId → Guid → Name → QueryValuesPayload
  createEntry : SourceId → Guid → Name → CreateEntryStatus
  sdWellFormed : Bytes → Bool

/-- The table of sources under the active limits. Slots are numbered by their place in it. -/
structure HiveTable where
  limits : LcsLimits
  inRange : limits.InRange
  slots : List SourceSlotView
  numbered : slots.map (·.sourceId) = (List.range slots.length).map (· + 1)

/-- What a call finds in place. -/
structure Registry extends HiveTable where
  layers : List LayerView
  nextSequence : ℕ
  sources : Sources

def baseLayerSnapshot : List LayerView := [⟨baseLayerName, 0, true⟩]

def normalizeLayerInputs (layers : List LayerView) : List LayerView :=
  if layers.isEmpty then baseLayerSnapshot else layers

def Registry.layerContext (registry : Registry) (privateLayers : List Name) :
    LayerResolutionContext :=
  ⟨normalizeLayerInputs registry.layers, privateLayers, registry.limits, registry.nextSequence⟩

/-! ## Errors of the core as errors of a call -/

def absoluteRouteErrno : LcsError → LinuxErrno
  | .nameTooLong _ _ _ | .pathTooLong _ _ => .enametoolong
  | _ => .einval

def symlinkTargetErrno (_ : LcsError) : LinuxErrno := .einval

def sourceRegistrationErrno : LcsError → LinuxErrno
  | .missingTcbPrivilege => .eperm
  | .hiveIdentityCollision | .hiveRootGuidCollision => .eexist
  | .tooManyRegisteredSources _ _ | .tooManyHives _ _ => .enospc
  | .sequenceOverflow => .eoverflow
  | .staleSourceHiveIdentity => .estale
  | _ => .einval

def rsiMaterializationErrno : LcsError → LinuxErrno
  | .missingBaseLayer | .invalidBaseLayerProperties _ _ | .duplicateLayerIdentity
  | .tooManyLayers _ _ | .tooManyPrivateLayers _ _ | .duplicatePrivateLayerIdentity => .einval
  | _ => .eio

/-! ## Reading answers -/

inductive MetadataError where
  | missing (guid : Guid)
  | nilGuid
  | duplicate (guid : Guid)
  | unreferenced (guid : Guid)
  deriving DecidableEq

/-- The checks of a response whose path entries, child after child, are `entries`. -/
def validateMetadataCompleteness (entries : List PathEntry) (metadata : List KeyMetadata) :
    Except MetadataError Unit := do
  entries.forM fun entry =>
    match entry.target with
    | .guid guid => if metadata.any (·.guid == guid) then .ok () else .error (.missing guid)
    | .hidden => .ok ()
  metadata.forM fun record =>
    if record.guid = nilGuid then .error .nilGuid
    else if 1 < metadata.countP (·.guid == record.guid) then .error (.duplicate record.guid)
    else if ¬ entries.any (·.target == .guid record.guid) then .error (.unreferenced record.guid)
    else .ok ()

def validateRsiLookupMetadataCompleteness (payload : LookupPayload) : Except MetadataError Unit :=
  validateMetadataCompleteness payload.entries payload.metadata

def materializeLookupChild (context : LayerResolutionContext) (sdWellFormed : Bytes → Bool)
    (childName : Name) (payload : LookupPayload) : SysResult (Option KeyMetadata) := do
  let _ ← (validateKeyComponentBytes childName context.limits).mapError fun _ => .einval
  (validateRsiLookupMetadataCompleteness payload).mapError fun _ => .eio
  if ¬ payload.entries.all fun entry =>
      (validateLayerNameBytes entry.layer context.limits).isOk then .error .eio
  else if ¬ payload.metadata.all fun metadata => sdWellFormed metadata.sd then .error .eio
  else if ¬ payload.entries.all fun entry => decide (entry.sequence < context.nextSequence) then
    .error .eio
  else
    match ← (resolveNamedPathEntry context childName
        (payload.entries.map fun entry => ⟨childName, entry⟩)).mapError rsiMaterializationErrno with
    | .notFound => .ok none
    | .found found =>
      match payload.metadata.find? fun metadata => metadata.guid == found.path.guid with
      | none => .error .eio
      | some metadata => .ok (some metadata)

variable (limits : LcsLimits) (slots : List SourceSlotView) (path : Name) (target : Bytes)

def materializeReadKey (sdWellFormed : Bytes → Bool) (guid : Guid) (payload : ReadKeyPayload) :
    SysResult KeyMetadata := do
  let _ ← (validateKeyComponentBytes payload.name limits).mapError fun _ => .eio
  if ¬ sdWellFormed payload.sd then .error .eio
  else if payload.sd.isEmpty then .error .eio
  else .ok ⟨guid, payload.sd, payload.volatile, payload.symlink⟩

def materializeQueryValue (context : LayerResolutionContext) (valueName : Name)
    (payload : QueryValuesPayload) : SysResult ValueResolution := do
  let _ ← (validateValueNameBytes valueName context.limits).mapError fun _ => .einval
  if ¬ payload.entries.all fun e => (validateValueNameBytes e.name context.limits).isOk &&
      (validateLayerNameBytes e.entry.layer context.limits).isOk then .error .eio
  else if ¬ payload.blankets.all fun blanket =>
      (validateLayerNameBytes blanket.layer context.limits).isOk then .error .eio
  else if ¬ payload.entries.all fun e =>
      (validateValueDataLen e.entry.data.length context.limits).isOk &&
      (validateSourceValuePayload e.entry).isOk then .error .eio
  else if ¬ payload.entries.all fun e => decide (e.entry.sequence < context.nextSequence) then
    .error .eio
  else if ¬ payload.blankets.all fun blanket =>
      decide (blanket.sequence < context.nextSequence) then .error .eio
  else if ¬ payload.entries.all fun e => casefoldEq e.name valueName then .error .eio
  else
    (resolveValue context (payload.entries.map (·.entry)) payload.blankets).mapError
      rsiMaterializationErrno

/-! ## Routing through the table -/

structure HiveRouteResult where
  sourceId : SourceId
  rootGuid : Guid
  deriving DecidableEq

def sourceSlotHiveStatus : SourceSlotStatus → HiveStatus
  | .active => .active
  | .down => .unavailable

def hiveViews : List HiveView :=
  slots.flatMap fun slot => slot.hives.map fun hive =>
    ⟨hive.name, hive.rootGuid, slot.sourceId, sourceSlotHiveStatus slot.status, hive.scope⟩

def hiveRouteResult : HiveRouteOutcome → SysResult HiveRouteResult
  | .dispatch hive => .ok ⟨hive.sourceId, hive.rootGuid⟩
  | .failure .enoent => .error .enoent
  | .failure .eio => .error .eio

def routeHiveFromSourceSlots (hiveName : Name) (scopeGuids : List Guid) :
    SysResult HiveRouteResult := do
  (validateSourceSlots limits slots).mapError sourceRegistrationErrno
  let route ← (routeHive limits (hiveViews slots) hiveName scopeGuids).mapError
    sourceRegistrationErrno
  hiveRouteResult (classifyHiveRoute route)

def routeAbsolutePathFromSourceSlots (rewrite : CurrentUserRewrite) (scopeGuids : List Guid) :
    SysResult HiveRouteResult := do
  let _ ← (validateRegistryPathStr path limits).mapError absoluteRouteErrno
  (validateSourceSlots limits slots).mapError sourceRegistrationErrno
  let route ← (routeRoutablePathHive limits (hiveViews slots) path rewrite scopeGuids).mapError
    absoluteRouteErrno
  hiveRouteResult route

/-- The text in a value's data, if it is text. -/
def decodeUtf8 (data : Bytes) : Option Name :=
  (String.fromUTF8? ⟨(data.map UInt8.ofBitVec).toArray⟩).map String.toList

def decodeTarget : SysResult Name :=
  match decodeUtf8 target with
  | some path => .ok path
  | none => .error .einval

def routeSymlinkTargetFromSourceSlots (scopeGuids : List Guid) : SysResult HiveRouteResult := do
  (validateSourceSlots limits slots).mapError sourceRegistrationErrno
  let path ← decodeTarget target
  let route ← (routeRoutablePathHive limits (hiveViews slots) path .literal scopeGuids).mapError
    symlinkTargetErrno
  hiveRouteResult route

/-! ## Components -/

/-- The callback that keeps every component. -/
def keepComponent (components : List Name) (component : Name) : LcsResult (List Name) :=
  .ok (components ++ [component])

def materializeAbsolutePathComponents (rewrite : CurrentUserRewrite) : SysResult (List Name) := do
  let (_, components) ← (forEachRoutablePathComponent limits path rewrite keepComponent []).mapError
    absoluteRouteErrno
  if components.isEmpty then .error .einval else .ok components

def materializeSymlinkTargetComponents : SysResult (List Name) := do
  let path ← decodeTarget target
  let (_, components) ←
    (forEachRoutablePathComponent limits path .literal keepComponent []).mapError symlinkTargetErrno
  if components.isEmpty then .error .einval else .ok components

def validateSyscallRelativePath : SysResult PathSummary :=
  (validateRegistryPathStr path limits).mapError absoluteRouteErrno

def materializeRelativePathComponents : SysResult (List Name) := do
  let _ ← validateSyscallRelativePath limits path
  .ok (path.splitOnP isSeparator)

def componentsFit (components : List Name) : SysResult Unit :=
  components.forM fun name =>
    if name.isEmpty then .error .einval
    else if utf8Len name > maxTotalPathBytesHard then .error .enametoolong
    else .ok ()

def validateRelativeOpenDepthCounts (parentDepth relativeComponentCount maxKeyDepth : ℕ) :
    SysResult Unit :=
  if parentDepth + relativeComponentCount > maxKeyDepth then .error .einval else .ok ()

/-! ## Links -/

variable (registry : Registry) (privateLayers : List Name) (scopeGuids : List Guid)

def lookupChild (source : SourceId) (parent : Guid) (name : Name) :
    SysResult (Option KeyMetadata) :=
  materializeLookupChild (registry.layerContext privateLayers) registry.sources.sdWellFormed name
    (registry.sources.lookup source parent name)

def readKey (source : SourceId) (guid : Guid) : SysResult KeyMetadata :=
  materializeReadKey registry.limits registry.sources.sdWellFormed guid
    (registry.sources.readKey source guid)

/-- The default value of a link, which has to be one. -/
def symlinkTarget (source : SourceId) (link : Guid) : SysResult Bytes := do
  match ← materializeQueryValue (registry.layerContext privateLayers) []
      (registry.sources.queryValues source link []) with
  | .notFound => .error .einval
  | .found value => if value.valueType ≠ .link then .error .einval else .ok value.data

def resolveSymlinkTargetForKey (source : SourceId) (link : Guid) :
    SysResult (HiveRouteResult × List Name) := do
  let target ← symlinkTarget registry privateLayers source link
  let route ← routeSymlinkTargetFromSourceSlots registry.limits registry.slots target scopeGuids
  let components ← materializeSymlinkTargetComponents registry.limits target
  .ok (route, components)

def symlinkFollowComponents (target suffix : List Name) : SysResult (List Name) :=
  if target.isEmpty then .error .einval
  else if (target ++ suffix).length > maxKeyDepthHard then .error .einval
  else .ok (target ++ suffix)

def ownedSymlinkFollowComponents (target suffix : List Name) : SysResult (List Name) := do
  let components ← symlinkFollowComponents target suffix
  componentsFit components
  .ok components

/-! ## Walks -/

structure ResolvedKeyPath where
  sourceId : SourceId
  keyGuid : Guid
  resolvedPath : List Name
  ancestorGuids : List Guid
  finalSd : Bytes
  finalVolatile : Bool
  finalSymlink : Bool
  deriving DecidableEq

/-- Where one stretch of a walk ends: at the last component, or at a link to be followed. -/
inductive Descent where
  | arrived (ancestors : List Guid) (key : KeyMetadata)
  | link (guid : Guid) (suffix : List Name)
  deriving DecidableEq

/-- One lookup for each component. -/
def descend (look : Guid → Name → SysResult (Option KeyMetadata)) (openFinalLink : Bool)
    (ancestors : List Guid) (current : Guid) : List Name → SysResult Descent
  | [] => .error .einval
  | name :: rest => do
    match ← look current name with
    | none => .error .enoent
    | some child =>
      if child.symlink ∧ ¬ (openFinalLink ∧ rest.isEmpty) then .ok (.link child.guid rest)
      else if rest.isEmpty then .ok (.arrived (ancestors ++ [child.guid]) child)
      else descend look openFinalLink (ancestors ++ [child.guid]) child.guid rest

variable (openFinalLink : Bool) (source : SourceId)

/-- The root of a hive is read and not looked up. -/
def descendRoot (key : KeyMetadata) : Descent :=
  if key.symlink ∧ ¬ openFinalLink then .link key.guid [] else .arrived [key.guid] key

def resolvedKeyPathPrepare (components : List Name) : SysResult Unit :=
  if source = 0 ∨ components.isEmpty ∨ components.length > maxKeyDepthHard then .error .einval
  else componentsFit components

/-- The stretch of an absolute walk up to its first link. -/
def walkAbsoluteStretch (root : Guid) (components : List Name) : SysResult Descent := do
  resolvedKeyPathPrepare source components
  if components.length = 1 then do
    let key ← readKey registry source root
    .ok (descendRoot openFinalLink key)
  else
    descend (lookupChild registry privateLayers source) openFinalLink [root] root components.tail

def ResolvedKeyPath.ofArrival (path : List Name) (ancestors : List Guid) (key : KeyMetadata) :
    ResolvedKeyPath :=
  ⟨source, key.guid, path, ancestors, key.sd, key.volatile, key.symlink⟩

def walkAbsoluteComponentsAtSymlinkLimit (root : Guid) (components : List Name) :
    SysResult ResolvedKeyPath := do
  match ← walkAbsoluteStretch registry privateLayers openFinalLink source root components with
  | .arrived ancestors key => .ok (.ofArrival source components ancestors key)
  | .link _ _ => .error .eloop

/-- The walk with the number of links it may still follow. -/
def walkAbsoluteComponentsImpl (openFinalLink followSymlinks : Bool) (linksLeft : ℕ)
    (source : SourceId) (root : Guid) (components : List Name) : SysResult ResolvedKeyPath := do
  match ← walkAbsoluteStretch registry privateLayers openFinalLink source root components with
  | .arrived ancestors key => .ok (.ofArrival source components ancestors key)
  | .link link suffix =>
    if ¬ followSymlinks then .error .eopnotsupp
    else
      match linksLeft with
      | 0 => .error .eloop
      | linksLeft + 1 => do
        let (route, target) ← resolveSymlinkTargetForKey registry privateLayers scopeGuids source
          link
        let next ← ownedSymlinkFollowComponents target suffix
        walkAbsoluteComponentsImpl openFinalLink followSymlinks linksLeft route.sourceId
          route.rootGuid next

def walkAbsoluteComponentsForOpen (root : Guid) (components : List Name) :
    SysResult ResolvedKeyPath :=
  walkAbsoluteComponentsImpl registry privateLayers scopeGuids openFinalLink true
    registry.limits.symlinkDepthLimit source root components

def walkSymlinkTarget (linksLeft : ℕ) (source : SourceId) (link : Guid) (suffix : List Name) :
    SysResult ResolvedKeyPath :=
  match linksLeft with
  | 0 => .error .eloop
  | linksLeft + 1 => do
    let (route, target) ← resolveSymlinkTargetForKey registry privateLayers scopeGuids source link
    let next ← symlinkFollowComponents target suffix
    if linksLeft = 0 then
      walkAbsoluteComponentsAtSymlinkLimit registry privateLayers openFinalLink route.sourceId
        route.rootGuid next
    else
      walkAbsoluteComponentsImpl registry privateLayers scopeGuids openFinalLink true linksLeft
        route.sourceId route.rootGuid next

/-- An open key. -/
structure KeyFd where
  sourceId : SourceId
  keyGuid : Guid
  grantedAccess : BitVec 32
  resolvedPath : List Name
  ancestorGuids : List Guid
  orphaned : Bool
  deriving DecidableEq

variable (parent : KeyFd)

def KeyFd.parentSnapshot : SysResult KeyFd :=
  if parent.orphaned then .error .enoent else .ok parent

def resolvedKeyPathPrepareRelative (components : List Name) : SysResult Unit :=
  if parent.sourceId = 0 ∨ parent.resolvedPath.isEmpty ∨ components.isEmpty then .error .einval
  else if parent.orphaned then .error .enoent
  else if parent.resolvedPath.length + components.length > maxKeyDepthHard then .error .einval
  else componentsFit components

def walkRelativeComponentsImpl (followSymlinks : Bool) (linksLeft : ℕ) (parent : KeyFd)
    (components : List Name) : SysResult ResolvedKeyPath := do
  resolvedKeyPathPrepareRelative parent components
  match ← descend (lookupChild registry privateLayers parent.sourceId) openFinalLink
      parent.ancestorGuids parent.keyGuid components with
  | .arrived ancestors key =>
    .ok (.ofArrival parent.sourceId (parent.resolvedPath ++ components) ancestors key)
  | .link link suffix =>
    if ¬ followSymlinks then .error .eopnotsupp
    else
      walkSymlinkTarget registry privateLayers scopeGuids openFinalLink linksLeft parent.sourceId
        link suffix

def walkRelativeComponentsForOpen (components : List Name) : SysResult ResolvedKeyPath :=
  walkRelativeComponentsImpl registry privateLayers scopeGuids openFinalLink true
    registry.limits.symlinkDepthLimit parent components

end Pkm.Lcs
