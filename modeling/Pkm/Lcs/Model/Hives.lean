import Pkm.Lcs.Model.Names
import Pkm.Lib.Scan
/-!
# Hives

The hives sources have registered, and which of them the first component of a path
means: of the hives of that name a private one of the caller's scopes, in the
caller's order, or else the global one. The alias for the caller's own hive is
rewritten in a path the caller gives, and not in the target of a link.
-/

namespace Pkm.Lcs

inductive HiveStatus where
  | active
  | unavailable
  deriving DecidableEq

/-- Who sees a hive: everybody, or those that carry a scope. -/
inductive HiveScope where
  | global
  | privateTo (scope : Guid)
  deriving DecidableEq

structure HiveView where
  name : Name
  rootGuid : Guid
  sourceId : SourceId
  status : HiveStatus
  scope : HiveScope
  deriving DecidableEq

structure RoutedHive where
  name : Name
  rootGuid : Guid
  sourceId : SourceId
  scope : HiveScope
  deriving DecidableEq

inductive HiveRoute where
  | active (hive : RoutedHive)
  | unavailable (hive : RoutedHive)
  | notRegistered
  deriving DecidableEq

inductive HiveRouteErrno where
  | enoent
  | eio
  deriving DecidableEq

inductive HiveRouteOutcome where
  | dispatch (hive : RoutedHive)
  | failure (errno : HiveRouteErrno)
  deriving DecidableEq

inductive CurrentUserRewrite where
  | initialCallerPath (userSidComponent : Name)
  | literal

def usersHiveName : Name := "Users".toList

/-! ## Checks -/

def validateRegisteredHiveName (name : Name) (limits : LcsLimits) : LcsResult Name :=
  validateHiveNameBytes name limits

/-- Hives of one name clash within a scope only. -/
def sameHiveScope : HiveScope → HiveScope → Bool
  | .global, .global => true
  | .privateTo previous, .privateTo current => previous == current
  | _, _ => false

variable (limits : LcsLimits) (hives : List HiveView) (hiveName : Name)

def hiveSeenBefore (previous : List HiveView) (current : HiveView) : LcsResult Bool := do
  let currentName ← validateRegisteredHiveName current.name limits
  previous.anyM fun hive => do
    let previousName ← validateRegisteredHiveName hive.name limits
    .ok (casefoldEq previousName currentName && sameHiveScope hive.scope current.scope)

def validateHive (previous : List HiveView) (_ : Unit) (hive : HiveView) : LcsResult Unit := do
  let _ ← validateRegisteredHiveName hive.name limits
  if ← hiveSeenBefore limits previous hive then .error .duplicateHiveIdentity else .ok ()

def validateHiveTable : LcsResult Unit := Scan.foldAfter (validateHive limits) [] () hives

def validateScopeGuidSet (scopes : List Guid) : LcsResult Unit :=
  if scopes.length > limits.maxScopeGuidsPerToken then
    .error (.tooManyScopeGuids scopes.length limits.maxScopeGuidsPerToken)
  else
    Scan.foldAfter (fun previous _ scope =>
      if previous.any fun p => p == scope then .error .duplicateScopeGuid else .ok ()) [] () scopes

/-! ## Routing -/

def findPrivateHive (scope : Guid) : Option HiveView :=
  hives.find? fun hive => decide (hive.scope = .privateTo scope) && casefoldEq hive.name hiveName

def findGlobalHive : Option HiveView :=
  hives.find? fun hive => decide (hive.scope = .global) && casefoldEq hive.name hiveName

def routeFromHive (hive : HiveView) : HiveRoute :=
  let routed : RoutedHive := ⟨hive.name, hive.rootGuid, hive.sourceId, hive.scope⟩
  match hive.status with
  | .active => .active routed
  | .unavailable => .unavailable routed

def routeHive (scopeGuids : List Guid) : LcsResult HiveRoute := do
  validateHiveTable limits hives
  validateScopeGuidSet limits scopeGuids
  let hiveName ← validateKeyComponentBytes hiveName limits
  match scopeGuids.findSome? (findPrivateHive hives hiveName) with
  | some hive => .ok (routeFromHive hive)
  | none =>
    match findGlobalHive hives hiveName with
    | some hive => .ok (routeFromHive hive)
    | none => .ok .notRegistered

def classifyHiveRoute : HiveRoute → HiveRouteOutcome
  | .active hive => .dispatch hive
  | .unavailable _ => .failure .eio
  | .notRegistered => .failure .enoent

/-! ## Paths -/

/-- What the check of a path finds. -/
structure PathSummary where
  componentCount : ℕ
  firstComponent : Name
  finalComponent : Name
  deriving DecidableEq

/-- The check of a path, between two characters. -/
structure PathScan where
  component : Name
  componentLen : ℕ
  componentCount : ℕ
  firstComponent : Option Name

/-- The end of a component, which cannot be empty there. -/
def PathScan.closeComponent (scan : PathScan) (empty : LcsError) : LcsResult PathScan :=
  if scan.componentLen = 0 then .error empty
  else do
    validateComponentLen "path_component" scan.componentLen limits
    let componentCount := scan.componentCount + 1
    if componentCount > limits.maxKeyDepth then
      .error (.keyDepthExceeded componentCount limits.maxKeyDepth)
    else
      .ok {
        component := []
        componentLen := 0
        componentCount
        firstComponent := some (scan.firstComponent.getD scan.component) }

def PathScan.step (scan : PathScan) (c : Char) : LcsResult PathScan :=
  if isSeparator c then scan.closeComponent limits .emptyPathComponent
  else
    .ok { scan with
      component := scan.component ++ [c]
      componentLen := scan.componentLen + c.utf8Size }

def validateRegistryPathStr (path : Name) (limits : LcsLimits) : LcsResult PathSummary :=
  if path.isEmpty then .error .emptyPath
  else if path.contains '\x00' then .error (.nullByte "path")
  else if utf8Len path > limits.maxTotalPathLength then
    .error (.pathTooLong (utf8Len path) limits.maxTotalPathLength)
  else do
    let scan ← path.foldlM (PathScan.step limits) ⟨[], 0, 0, none⟩
    let closed ← scan.closeComponent limits .trailingPathSeparator
    .ok {
      componentCount := closed.componentCount
      firstComponent := closed.firstComponent.getD scan.component
      finalComponent := scan.component }

section

variable {σ : Type}

def forEachPathComponent (path : Name) (emit : σ → Name → LcsResult σ) (s : σ) : LcsResult σ :=
  (path.splitOnP isSeparator).foldlM emit s

def forEachPathComponentAfterFirst (path : Name) (emit : σ → Name → LcsResult σ) (s : σ) :
    LcsResult σ :=
  (path.splitOnP isSeparator).tail.foldlM emit s

/-- The callback, and how often it was called. -/
def counted (emit : σ → Name → LcsResult σ) (state : ℕ × σ) (component : Name) :
    LcsResult (ℕ × σ) := do
  let s ← emit state.2 component
  .ok (state.1 + 1, s)

def validateRewrittenCurrentUserLen (path firstComponent userSidComponent : Name)
    (limits : LcsLimits) : LcsResult Unit :=
  let remainderLen := utf8Len path - utf8Len firstComponent
  let rewrittenLen := utf8Len usersHiveName + 1 + utf8Len userSidComponent + remainderLen
  if rewrittenLen > limits.maxTotalPathLength then
    .error (.pathTooLong rewrittenLen limits.maxTotalPathLength)
  else .ok ()

def forEachRoutablePathComponent (limits : LcsLimits) (path : Name) (rewrite : CurrentUserRewrite)
    (emit : σ → Name → LcsResult σ) (s : σ) : LcsResult (ℕ × σ) := do
  let summary ← validateRegistryPathStr path limits
  match isReservedCurrentUserName summary.firstComponent, rewrite with
  | true, .initialCallerPath userSidComponent => do
    let userSidComponent ← validateKeyComponentBytes userSidComponent limits
    validateRewrittenCurrentUserLen path summary.firstComponent userSidComponent limits
    let state ← counted emit (0, s) usersHiveName
    let state ← counted emit state userSidComponent
    forEachPathComponentAfterFirst path (counted emit) state
  | _, _ => forEachPathComponent path (counted emit) (0, s)

end

/-- The callback that keeps the first component. -/
def keepFirst (first : Option Name) (component : Name) : LcsResult (Option Name) :=
  .ok (some (first.getD component))

/-- A path that passed the check has a first component, so the default is never taken. -/
def routeRoutablePathHive (path : Name) (rewrite : CurrentUserRewrite) (scopeGuids : List Guid) :
    LcsResult HiveRouteOutcome := do
  let (_, firstComponent) ← forEachRoutablePathComponent limits path rewrite keepFirst none
  let route ← routeHive limits hives (firstComponent.getD []) scopeGuids
  .ok (classifyHiveRoute route)

end Pkm.Lcs
