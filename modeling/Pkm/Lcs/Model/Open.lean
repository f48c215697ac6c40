import Pkm.Lcs.Model.Walk
/-!
# Opening keys

`regOpenKey` checks the request, resolves the path, checks the access that the
descriptor of the key allows and publishes an open key. An absolute path is resolved
with the scopes of the caller's token, a path from an open key with none.
-/

namespace Pkm.Lcs

open Bytes

/-! ## Requests -/

def regOpenLink : BitVec 32 := 0x01#32
def regOptionVolatile : BitVec 32 := 0x01#32
def regOptionCreateLink : BitVec 32 := 0x02#32

def keySetValue : BitVec 32 := 0x00000002#32
def keyCreateSubKey : BitVec 32 := 0x00000004#32
def keyCreateLink : BitVec 32 := 0x00000020#32
def keyAllAccess : BitVec 32 := 0x000F003F#32

def maximumAllowed : BitVec 32 := 0x02000000#32
def genericAll : BitVec 32 := 0x10000000#32
def genericExecute : BitVec 32 := 0x20000000#32
def genericWrite : BitVec 32 := 0x40000000#32
def genericRead : BitVec 32 := 0x80000000#32
def genericMask : BitVec 32 := genericAll ||| genericExecute ||| genericWrite ||| genericRead

def regValidDesiredAccessMask : BitVec 32 := 0xF30F003F#32
def regValidMappedAccessMask : BitVec 32 := 0x010F003F#32

/-- The concrete rights of the generic ones, for registry keys. -/
def registryGenericMapping : List (BitVec 32 × BitVec 32) :=
  [(genericRead, 0x00020019#32), (genericWrite, 0x00020006#32), (genericExecute, 0#32),
    (genericAll, keyAllAccess)]

def mapRegistryGenericBits (mask : BitVec 32) : BitVec 32 :=
  registryGenericMapping.foldl (fun mapped rights =>
    if mask &&& rights.1 ≠ 0 then mapped ||| rights.2 else mapped) (mask &&& ~~~genericMask)

/-- Whether the access may be asked for. -/
def validRegistryDesiredAccess (requested : BitVec 32) : Bool :=
  requested != 0 && requested &&& ~~~regValidDesiredAccessMask == 0 &&
    mapRegistryGenericBits (requested &&& ~~~maximumAllowed) &&& ~~~regValidMappedAccessMask == 0

def openPreflight (desiredAccess flags : BitVec 32) : SysResult Unit :=
  if flags &&& ~~~regOpenLink ≠ 0 then .error .einval
  else if ¬ validRegistryDesiredAccess desiredAccess then .error .einval
  else .ok ()

/-! ## The caller -/

/-- What a call needs of the caller's token: its registry credentials, the user's SID as a
component, and what the access check and the inheritance of descriptors decide for it. -/
structure RegistryToken where
  scopeGuids : List Guid
  privateLayers : List Name
  privateLayersTcbAuthorized : Bool
  userSidComponent : LcsResult Name
  tcbOrAdmin : Bool
  keyAccess : Bytes → BitVec 32 → SysResult (BitVec 32)
  createdContainerSd : Bytes → SysResult Bytes

variable (limits : LcsLimits)

def layerNameCasefoldEq (left right : Name) : SysResult Bool := do
  let left ← (validateLayerNameBytes left limits).mapError absoluteRouteErrno
  let right ← (validateLayerNameBytes right limits).mapError absoluteRouteErrno
  .ok (casefoldEq left right)

/-- A private layer above the base needs an authorised token. -/
def validatePrivateLayerAuthority (layers : List LayerView) (token : RegistryToken) :
    SysResult Unit :=
  if token.privateLayers.isEmpty ∨ token.privateLayersTcbAuthorized then .ok ()
  else
    token.privateLayers.forM fun name => layers.forM fun layer =>
      if layer.precedence = 0 then .ok ()
      else do
        if ← layerNameCasefoldEq limits name layer.name then .error .eperm else .ok ()

def privateCredentialsAcquireForToken (registry : Registry) (token : RegistryToken) :
    SysResult Unit :=
  if token.scopeGuids.length > registry.limits.maxScopeGuidsPerToken ∨
      token.privateLayers.length > registry.limits.maxPrivateLayersPerToken then .error .e2big
  else validatePrivateLayerAuthority registry.limits registry.layers token

/-! ## Resolving a path -/

/-- A path as a caller gives it, from the top or from an open key. -/
inductive KeyPath where
  | absolute (path : Name)
  | relative (parent : KeyFd) (path : Name)
  deriving DecidableEq

def KeyPath.text : KeyPath → Name
  | .absolute path => path
  | .relative _ path => path

def syscallPathCopy (path : Name) : SysResult Unit :=
  if utf8Len path > maxTotalPathBytesHard then .error .enametoolong else .ok ()

variable (registry : Registry) (token : RegistryToken)

/-- The caller's path, with the alias for the caller's own hive rewritten. -/
def currentUserRewrite : SysResult CurrentUserRewrite := do
  let component ← token.userSidComponent.mapError absoluteRouteErrno
  .ok (.initialCallerPath component)

variable (scopeGuids : List Guid) (openFinalLink : Bool) (path : Name)

def routeAbsolutePathForToken : SysResult HiveRouteResult := do
  let rewrite ← currentUserRewrite token
  routeAbsolutePathFromSourceSlots registry.limits registry.slots path rewrite scopeGuids

def materializeAbsolutePathComponentsForToken : SysResult (List Name) := do
  let rewrite ← currentUserRewrite token
  materializeAbsolutePathComponents registry.limits path rewrite

/-- A key without a descriptor cannot be opened. -/
def requireSd (resolved : ResolvedKeyPath) : SysResult ResolvedKeyPath :=
  if resolved.finalSd.isEmpty then .error .eio else .ok resolved

def resolveAbsolutePath : SysResult ResolvedKeyPath := do
  let route ← routeAbsolutePathForToken registry token scopeGuids path
  let components ← materializeAbsolutePathComponentsForToken registry token path
  let resolved ← walkAbsoluteComponentsForOpen registry token.privateLayers scopeGuids
    openFinalLink route.sourceId route.rootGuid components
  requireSd resolved

/-- The steps of a call with a path from an open key, up to its components. -/
def relativeComponents (parent : KeyFd) (path : Name) : SysResult (KeyFd × List Name) := do
  let summary ← validateSyscallRelativePath registry.limits path
  let parent ← parent.parentSnapshot
  validateRelativeOpenDepthCounts parent.resolvedPath.length summary.componentCount
    registry.limits.maxKeyDepth
  let components ← materializeRelativePathComponents registry.limits path
  .ok (parent, components)

def resolveRelativePath (parent : KeyFd) (path : Name) : SysResult ResolvedKeyPath := do
  let (parent, components) ← relativeComponents registry parent path
  let resolved ← walkRelativeComponentsForOpen registry token.privateLayers scopeGuids
    openFinalLink parent components
  requireSd resolved

/-! ## Publishing -/

/-- The names an open key may have: a hive's and then those of keys. -/
def validateFdPath : List Name → LcsResult Unit
  | [] => .ok ()
  | hive :: rest => do
    let _ ← validateHiveNameBytes hive limits
    rest.forM fun component => do
      let _ ← validateKeyComponentBytes component limits
      .ok ()

def validateKeyFdOpenView (fd : KeyFd) : SysResult Unit :=
  if fd.keyGuid = nilGuid then .error .einval
  else if fd.grantedAccess &&& ~~~regValidMappedAccessMask ≠ 0 then .error .einval
  else if fd.resolvedPath.isEmpty ∨ fd.ancestorGuids.length ≠ fd.resolvedPath.length ∨
      fd.ancestorGuids.getLast? ≠ some fd.keyGuid then .error .einval
  else (validateFdPath limits fd.resolvedPath).mapError absoluteRouteErrno

def keyOpenAccessCheckForToken (sd : Bytes) (desiredAccess : BitVec 32) :
    SysResult (BitVec 32) :=
  if sd.isEmpty ∨ desiredAccess = 0 then .error .einval else token.keyAccess sd desiredAccess

def publishOpenKeyForToken (desiredAccess : BitVec 32) (resolved : ResolvedKeyPath) :
    SysResult KeyFd := do
  let granted ← keyOpenAccessCheckForToken token resolved.finalSd desiredAccess
  let fd : KeyFd :=
    ⟨resolved.sourceId, resolved.keyGuid, granted, resolved.resolvedPath, resolved.ancestorGuids,
      false⟩
  if fd.sourceId = 0 then .error .einval
  else do
    validateKeyFdOpenView registry.limits fd
    .ok fd

/-! ## The call -/

/-- What a path is resolved to for an open. -/
def openResolve : KeyPath → SysResult ResolvedKeyPath
  | .absolute path => resolveAbsolutePath registry token token.scopeGuids openFinalLink path
  | .relative parent path => resolveRelativePath registry token [] openFinalLink parent path

def regOpenKey (path : KeyPath) (desiredAccess flags : BitVec 32) : SysResult KeyFd := do
  openPreflight desiredAccess flags
  privateCredentialsAcquireForToken registry token
  syscallPathCopy path.text
  let resolved ← openResolve registry token (flags &&& regOpenLink != 0) path
  publishOpenKeyForToken registry token desiredAccess resolved

end Pkm.Lcs
