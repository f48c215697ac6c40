import Pkm.Lcs.Model.Open
/-!
# Creating keys

`regCreateKey` opens the key if the path names one, and creates the last component
under the key that the rest of the path names if it does not. A source that finds
the component there already makes the call open it after all. The calls are those
without a transaction that write to the base layer.
-/

namespace Pkm.Lcs

open Bytes

structure KeyCreateOptions where
  volatile : Bool
  symlink : Bool

def validateKeyCreateFlags (flags : BitVec 32) : SysResult KeyCreateOptions :=
  if flags &&& ~~~(regOptionVolatile ||| regOptionCreateLink) ≠ 0 then .error .einval
  else .ok ⟨flags &&& regOptionVolatile != 0, flags &&& regOptionCreateLink != 0⟩

def createPreflight (desiredAccess flags : BitVec 32) : SysResult KeyCreateOptions := do
  openPreflight desiredAccess 0
  validateKeyCreateFlags flags

/-- What a create needs besides: how many layers the table holds, the descriptor that guards the
base layer, and the GUID drawn for the key. -/
structure CreateInputs where
  layerTableCount : ℕ
  baseLayerSd : Bytes
  keyGuid : SysResult Guid

/-- The request by which a source is told of a new key. -/
structure CreateEntryRequest where
  sourceId : SourceId
  parentGuid : Guid
  childName : Name
  childGuid : Guid
  deriving DecidableEq

inductive CreateOutcome where
  | openedExisting (fd : KeyFd)
  | createdNew (fd : KeyFd) (entry : CreateEntryRequest)
  deriving DecidableEq

variable (registry : Registry) (token : RegistryToken)

/-! ## A path that names a key -/

/-- The path is resolved without the token's scopes, and links are always followed. -/
def createExistingResolve : KeyPath → SysResult ResolvedKeyPath
  | .absolute path => resolveAbsolutePath registry token [] false path
  | .relative parent path => resolveRelativePath registry token [] false parent path

def createExistingCopiedPathForToken (path : KeyPath) (desiredAccess flags : BitVec 32) :
    SysResult KeyFd := do
  let _ ← createPreflight desiredAccess flags
  let resolved ← createExistingResolve registry token path
  publishOpenKeyForToken registry token desiredAccess resolved

/-! ## The parent of a missing key -/

structure CreateMissingParentResolution where
  parent : ResolvedKeyPath
  childName : Name

/-- Splits the last component off, which has to be a name. -/
def createMissingParentCopyChild (components : List Name) : SysResult Name :=
  match components.getLast? with
  | none => .error .einval
  | some name =>
    if name.isEmpty then .error .einval
    else if utf8Len name > maxTotalPathBytesHard then .error .enametoolong
    else .ok name

def createMissingParentFinish (parent : ResolvedKeyPath) (childName : Name) :
    SysResult CreateMissingParentResolution := do
  validateRelativeOpenDepthCounts parent.resolvedPath.length 1 registry.limits.maxKeyDepth
  .ok ⟨parent, childName⟩

def createMissingCopiedAbsoluteParentForToken (path : Name) :
    SysResult CreateMissingParentResolution := do
  let route ← routeAbsolutePathForToken registry token token.scopeGuids path
  let components ← materializeAbsolutePathComponentsForToken registry token path
  if components.length < 2 then .error .einval
  else do
    let childName ← createMissingParentCopyChild components
    let parent ← walkAbsoluteComponentsForOpen registry token.privateLayers token.scopeGuids false
      route.sourceId route.rootGuid components.dropLast
    createMissingParentFinish registry parent childName

/-- The open key itself as a resolved path. -/
def resolvedParentFromSnapshot (parent : KeyFd) : SysResult ResolvedKeyPath :=
  if parent.sourceId = 0 ∨ parent.resolvedPath.isEmpty then .error .einval
  else if parent.orphaned then .error .enoent
  else if parent.resolvedPath.length > maxKeyDepthHard then .error .einval
  else do
    let key ← readKey registry parent.sourceId parent.keyGuid
    .ok (.ofArrival parent.sourceId parent.resolvedPath parent.ancestorGuids key)

def createMissingCopiedRelativeParent (parent : KeyFd) (path : Name) :
    SysResult CreateMissingParentResolution := do
  let (parent, components) ← relativeComponents registry parent path
  let childName ← createMissingParentCopyChild components
  let resolved ←
    (if components.length = 1 then resolvedParentFromSnapshot registry parent
    else
      walkRelativeComponentsForOpen registry token.privateLayers token.scopeGuids false parent
        components.dropLast)
  createMissingParentFinish registry resolved childName

def createMissingCopiedParentForToken : KeyPath → SysResult CreateMissingParentResolution
  | .absolute path => createMissingCopiedAbsoluteParentForToken registry token path
  | .relative parent path => createMissingCopiedRelativeParent registry token parent path

/-! ## Checks before a key is made -/

def createMissingRuntimeInputsValidate (inputs : CreateInputs) : SysResult Unit :=
  if inputs.baseLayerSd.isEmpty then .error .eio else .ok ()

variable (resolution : CreateMissingParentResolution) (inputs : CreateInputs)

def createMissingParentSdView : SysResult Bytes :=
  if resolution.parent.finalSd.isEmpty then .error .eio else .ok resolution.parent.finalSd

def createMissingParentAccessCheckForToken : SysResult Unit := do
  let sd ← createMissingParentSdView resolution
  let _ ← keyOpenAccessCheckForToken token sd keyCreateSubKey
  .ok ()

def layersKeyPath : List Name := ["Machine", "System", "Registry", "Layers"].map String.toList

def valueNameCasefoldEq (limits : LcsLimits) (left right : Name) : SysResult Bool := do
  let left ← (validateValueNameBytes left limits).mapError absoluteRouteErrno
  let right ← (validateValueNameBytes right limits).mapError absoluteRouteErrno
  .ok (casefoldEq left right)

/-- A key under the layers' key is a layer, and needs room in the layer table. -/
def createMissingLayerTableAdmit (resolution : CreateMissingParentResolution) : SysResult Unit :=
  if resolution.parent.resolvedPath.length ≠ layersKeyPath.length then .ok ()
  else do
    let isLayersKey ← (resolution.parent.resolvedPath.zip layersKeyPath).allM fun pair =>
      valueNameCasefoldEq registry.limits pair.1 pair.2
    if isLayersKey ∧ inputs.layerTableCount ≥ registry.limits.maxTotalLayers then .error .enospc
    else .ok ()

def createMissingVolatileParentCheck (options : KeyCreateOptions) : SysResult Unit :=
  if resolution.parent.finalVolatile ∧ ¬ options.volatile then .error .einval else .ok ()

def createMissingSymlinkAuthorityForToken (options : KeyCreateOptions) : SysResult Unit :=
  if ¬ options.symlink then .ok ()
  else do
    let sd ← createMissingParentSdView resolution
    let _ ← keyOpenAccessCheckForToken token sd keyCreateLink
    if ¬ token.tcbOrAdmin then .error .eperm else .ok ()

/-- The base layer is always a layer of a table that passes its check. -/
def admitBaseLayerTarget : SysResult Unit := do
  let layers := normalizeLayerInputs registry.layers
  (validateLayerViews registry.limits layers).mapError absoluteRouteErrno
  if layers.any fun layer => casefoldEq layer.name baseLayerName then .ok () else .error .enoent

def baseLayerWriteAccessCheckForToken : SysResult Unit := do
  if inputs.baseLayerSd.isEmpty then .error .eio
  else
    let _ ← keyOpenAccessCheckForToken token inputs.baseLayerSd keySetValue
    .ok ()

def createMissingInitialSdForToken : SysResult Bytes := do
  let parentSd ← createMissingParentSdView resolution
  match token.createdContainerSd parentSd with
  | .error .einval | .error .erange => .error .eio
  | .error e => .error e
  | .ok sd => if sd.isEmpty then .error .eio else .ok sd

/-! ## Making the key -/

def createMissingPublishCreatedKeyForToken (childGuid : Guid) (createdSd : Bytes)
    (desiredAccess : BitVec 32) : SysResult KeyFd :=
  let parent := resolution.parent
  if parent.resolvedPath.length ≥ maxKeyDepthHard then .error .einval
  else
    publishOpenKeyForToken registry token desiredAccess
      ⟨parent.sourceId, childGuid, parent.resolvedPath ++ [resolution.childName],
        parent.ancestorGuids ++ [childGuid], createdSd, false, false⟩

/-- The walk starts again at the root of the parent's hive, with the names of the parent's path. -/
def createMissingRetryOpenExistingForToken (desiredAccess : BitVec 32) : SysResult KeyFd := do
  let parent := resolution.parent
  match parent.ancestorGuids.head? with
  | none => .error .einval
  | some root =>
    if parent.resolvedPath.length ≥ maxKeyDepthHard then .error .einval
    else do
      let resolved ← walkAbsoluteComponentsForOpen registry token.privateLayers token.scopeGuids
        false parent.sourceId root (parent.resolvedPath ++ [resolution.childName])
      let resolved ← requireSd resolved
      publishOpenKeyForToken registry token desiredAccess resolved

def createMissingCopiedPathFinishForToken (path : KeyPath) (desiredAccess flags : BitVec 32) :
    SysResult CreateOutcome := do
  let options ← createPreflight desiredAccess flags
  createMissingRuntimeInputsValidate inputs
  let resolution ← createMissingCopiedParentForToken registry token path
  createMissingParentAccessCheckForToken token resolution
  createMissingLayerTableAdmit registry inputs resolution
  createMissingVolatileParentCheck resolution options
  createMissingSymlinkAuthorityForToken token resolution options
  admitBaseLayerTarget registry
  baseLayerWriteAccessCheckForToken token inputs
  let childGuid ← inputs.keyGuid
  let createdSd ← createMissingInitialSdForToken token resolution
  let entry : CreateEntryRequest :=
    ⟨resolution.parent.sourceId, resolution.parent.keyGuid, resolution.childName, childGuid⟩
  match registry.sources.createEntry entry.sourceId entry.parentGuid entry.childName with
  | .alreadyExists => do
    let fd ← createMissingRetryOpenExistingForToken registry token resolution desiredAccess
    .ok (.openedExisting fd)
  | .ok => do
    let fd ← createMissingPublishCreatedKeyForToken registry token resolution childGuid createdSd
      desiredAccess
    .ok (.createdNew fd entry)

/-! ## The call -/

def regCreateKey (path : KeyPath) (desiredAccess flags : BitVec 32) : SysResult CreateOutcome := do
  let _ ← createPreflight desiredAccess flags
  syscallPathCopy path.text
  privateCredentialsAcquireForToken registry token
  match createExistingCopiedPathForToken registry token path desiredAccess flags with
  | .ok fd => .ok (.openedExisting fd)
  | .error .enoent =>
    createMissingCopiedPathFinishForToken registry token inputs path desiredAccess flags
  | .error e => .error e

end Pkm.Lcs
