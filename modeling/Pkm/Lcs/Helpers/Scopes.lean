import Pkm.Lcs.Helpers.Paths
import Pkm.Lcs.Model.Create
import Pkm.Lcs.SourceTable
/-!
# Walks with and without the caller's scopes

Routing is the only step of a walk that looks at scopes, and a link at the end of a path the only
place where it matters whether a walk stops at links. So a walk is the same without scopes if
every hive it is routed to is a global one, and the same for both kinds of calls if it meets no
link at its end. `WalkPoint.walk` is the walk of both kinds of paths, one link after the other, and
`Along` says such a thing of all the places that it is routed to.
-/

namespace Pkm.Lcs

open Bytes Outcome Within

/-- The route leads to a global hive of the table. -/
def HiveTable.GlobalRoute (table : HiveTable) (route : HiveRouteResult) : Prop :=
  ∃ slot ∈ table.slots, ∃ hive ∈ slot.hives, hive.scope = .global ∧
    route = ⟨slot.sourceId, hive.rootGuid⟩

/-! ## Routes -/

section

variable {limits : LcsLimits} {slots : List SourceSlotView} {hives : List HiveView} {name : Name}
  {scopes : List Guid} {routed : RoutedHive}

theorem routeFromHive_eq_active {hive : HiveView} :
    routeFromHive hive = .active routed ↔
      hive.status = .active ∧ routed = ⟨hive.name, hive.rootGuid, hive.sourceId, hive.scope⟩ := by
  unfold routeFromHive
  cases hive.status <;> simp [eq_comm]

/-- Where a route that is active comes from. -/
theorem routeHive_eq_active :
    routeHive limits hives name scopes = .ok (.active routed) ↔
      validateHiveTable limits hives = .ok () ∧ validateScopeGuidSet limits scopes = .ok () ∧
      KeyLike limits name ∧ routeOver (findHive hives name) scopes = .active routed := by
  rw [routeHive_eq, bind_eq_ok]
  constructor
  · rintro ⟨_, htable, h⟩
    obtain ⟨_, hscopes, h⟩ := of_bind h
    obtain ⟨checked, hchecked, hover⟩ := of_bind h
    obtain ⟨hsame, hkey⟩ := validateKeyLikeName_eq_ok.mp hchecked
    rw [hsame] at hover
    exact ⟨htable, hscopes, hkey, Except.ok.inj hover⟩
  · rintro ⟨htable, hscopes, hkey, hover⟩
    refine ⟨(), htable, ?_⟩
    rw [hscopes, validateKeyComponentBytes_of_keyLike hkey, ok_bind, ok_bind, hover]

/-- **A global hive is found without scopes too.** -/
theorem routeHive_nil_of_global (hglobal : routed.scope = .global)
    (h : routeHive limits hives name scopes = .ok (.active routed)) :
    routeHive limits hives name [] = .ok (.active routed) := by
  obtain ⟨htable, -, hkey, hover⟩ := routeHive_eq_active.mp h
  refine routeHive_eq_active.mpr ⟨htable, if_neg (Nat.not_lt_zero _), hkey, ?_⟩
  unfold routeOver at hover ⊢
  rcases hprivate : scopes.findSome? fun scope => findHive hives name (.privateTo scope) with
    _ | hive
  · rwa [hprivate] at hover
  · -- a hive found by one of the scopes is not the global one
    rw [hprivate] at hover
    obtain ⟨-, rfl⟩ := routeFromHive_eq_active.mp hover
    obtain ⟨scope, -, hfind⟩ := List.exists_of_findSome?_eq_some hprivate
    have hscope := (findHive_eq_some htable).mp hfind
    rw [hscope.2.1] at hglobal
    cases hglobal

theorem hiveRouteResult_classify_eq_ok {route : HiveRoute} {result : HiveRouteResult} :
    hiveRouteResult (classifyHiveRoute route) = .ok result ↔
      ∃ hive, route = .active hive ∧ result = ⟨hive.sourceId, hive.rootGuid⟩ := by
  cases route <;> simp [classifyHiveRoute, hiveRouteResult, eq_comm]

/-- A hive that is routed to is one of the table's. -/
theorem mem_of_routeHive {routed : RoutedHive}
    (h : routeHive limits (hiveViews slots) name scopes = .ok (.active routed)) :
    ∃ slot ∈ slots, ∃ hive ∈ slot.hives, routed = ⟨hive.name, hive.rootGuid, slot.sourceId,
      hive.scope⟩ ∧ foldName hive.name = foldName name ∧ (scopes = [] → hive.scope = .global) := by
  obtain ⟨htable, -, -, hover⟩ := routeHive_eq_active.mp h
  have hfound : ∃ view scope, Matches (hiveViews slots) scope name view ∧
      routeFromHive view = .active routed ∧ (scopes = [] → scope = .global) := by
    unfold routeOver at hover
    split at hover
    · rename_i view hview
      obtain ⟨scope, hscope, hfind⟩ := List.exists_of_findSome?_eq_some hview
      exact ⟨view, _, (findHive_eq_some htable).mp hfind, hover,
        fun hnil => by simp [hnil] at hscope⟩
    · split at hover
      · rename_i view hview
        exact ⟨view, _, (findHive_eq_some htable).mp hview, hover, fun _ => rfl⟩
      · cases hover
  obtain ⟨view, scope, ⟨hmem, hscope, hname⟩, hview, hnil⟩ := hfound
  obtain ⟨-, rfl⟩ := routeFromHive_eq_active.mp hview
  obtain ⟨slot, hslot, hmem⟩ := List.mem_flatMap.mp hmem
  obtain ⟨hive, hhive, rfl⟩ := List.mem_map.mp hmem
  exact ⟨slot, hslot, hive, hhive, rfl, hname, fun h => hscope.trans (hnil h)⟩

end

/-! ## Routes to global hives -/

variable {registry : Registry} {privateLayers : List Name} {scopes : List Guid}

/-- A path that leads to a global hive does so without the scopes: there is one hive of a root. -/
theorem routed_within (hvalid : validateSourceSlots registry.limits registry.slots = .ok ())
    (errno : LcsError → LinuxErrno) (path : Name) (rewrite : CurrentUserRewrite)
    {route : HiveRouteResult} (hglobal : registry.GlobalRoute route)
    (h : ((routeRoutablePathHive registry.limits (hiveViews registry.slots) path rewrite
      scopes).mapError errno >>= hiveRouteResult) = .ok route) :
    ((routeRoutablePathHive registry.limits (hiveViews registry.slots) path rewrite
      []).mapError errno >>= hiveRouteResult) = .ok route := by
  obtain ⟨outcome, hroute, hresult⟩ := of_bind h
  rw [mapError_eq_ok, routeRoutablePathHive_eq] at hroute
  obtain ⟨first, hfirst, hroute⟩ := of_bind hroute
  obtain ⟨found, hactive, hclass⟩ := of_bind hroute
  cases hclass
  obtain ⟨hive, rfl, rfl⟩ := hiveRouteResult_classify_eq_ok.mp hresult
  obtain ⟨slot, hslot, registered, hregistered, rfl, -⟩ := mem_of_routeHive hactive
  obtain ⟨slot', hslot', other, hother, hscope, hsame⟩ := hglobal
  obtain ⟨rfl, rfl⟩ := (validateSourceSlots_eq_ok.mp hvalid).unique hslot hregistered hslot' hother
    fun hapart => hapart.2 (congrArg HiveRouteResult.rootGuid hsame)
  rw [routeRoutablePathHive_eq, hfirst, ok_bind, routeHive_nil_of_global hscope hactive]
  rfl

theorem routeAbsolutePathForToken_nil {token : RegistryToken} {path : Name}
    {route : HiveRouteResult} (hglobal : registry.GlobalRoute route)
    (h : routeAbsolutePathForToken registry token scopes path = .ok route) :
    routeAbsolutePathForToken registry token [] path = .ok route := by
  obtain ⟨rewrite, hrewrite, h⟩ := of_bind h
  obtain ⟨_, hpath, h⟩ := of_bind h
  obtain ⟨_, hvalid, h⟩ := of_bind h
  unfold routeAbsolutePathForToken routeAbsolutePathFromSourceSlots
  rw [hrewrite, ok_bind, hpath, ok_bind, hvalid, ok_bind]
  exact routed_within (mapError_eq_ok.mp hvalid) _ path rewrite hglobal h

theorem resolveSymlinkTargetForKey_nil {source : SourceId} {link : Guid}
    {route : HiveRouteResult} {target : List Name} (hglobal : registry.GlobalRoute route)
    (h : resolveSymlinkTargetForKey registry privateLayers scopes source link =
      .ok (route, target)) :
    resolveSymlinkTargetForKey registry privateLayers [] source link = .ok (route, target) := by
  obtain ⟨data, hdata, h⟩ := of_bind h
  obtain ⟨_, hroute, h⟩ := of_bind h
  obtain ⟨components, hcomponents, h⟩ := of_bind h
  cases h
  obtain ⟨_, hvalid, hroute⟩ := of_bind hroute
  obtain ⟨path, hpath, hroute⟩ := of_bind hroute
  unfold resolveSymlinkTargetForKey routeSymlinkTargetFromSourceSlots
  rw [hdata, ok_bind, hvalid, ok_bind, hpath, ok_bind,
    routed_within (mapError_eq_ok.mp hvalid) _ path _ hglobal hroute, ok_bind, hcomponents]
  rfl

/-! ## The places of a walk -/

/-- Who walks, and the scopes by which hives are found. -/
structure Walker where
  registry : Registry
  token : RegistryToken
  scopes : List Guid

/-- The same caller with other scopes. -/
def Walker.over (w : Walker) (scopes : List Guid) : Walker := { w with scopes }

/-- The target of a link. -/
def Walker.target (w : Walker) : SourceId → Guid → SysResult (HiveRouteResult × List Name) :=
  resolveSymlinkTargetForKey w.registry w.token.privateLayers w.scopes

variable {w : Walker}

/-- Where a walk goes on from: the root of the hive it has been routed to, or an open key. -/
inductive WalkPoint where
  | hive (route : HiveRouteResult) (components : List Name)
  | key (parent : KeyFd) (components : List Name)
  deriving DecidableEq

namespace WalkPoint

def source : WalkPoint → SourceId
  | hive route _ => route.sourceId
  | key parent _ => parent.sourceId

/-- The stretch from there up to the next link. -/
def stretch (w : Walker) (openFinalLink : Bool) : WalkPoint → SysResult Descent
  | hive route components =>
    walkAbsoluteStretch w.registry w.token.privateLayers openFinalLink route.sourceId
      route.rootGuid components
  | key parent components => do
    resolvedKeyPathPrepareRelative parent components
    descend (lookupChild w.registry w.token.privateLayers parent.sourceId) openFinalLink
      parent.ancestorGuids parent.keyGuid components

def arrival : WalkPoint → List Guid → KeyMetadata → ResolvedKeyPath
  | hive route components => .ofArrival route.sourceId components
  | key parent components => .ofArrival parent.sourceId (parent.resolvedPath ++ components)

def followComponents : WalkPoint → List Name → List Name → SysResult (List Name)
  | hive _ _ => ownedSymlinkFollowComponents
  | key _ _ => symlinkFollowComponents

/-- The hive is a global one. -/
def Global (table : HiveTable) : WalkPoint → Prop
  | hive route _ => table.GlobalRoute route
  | key _ _ => True

/-- What is left of the path ends at a link. -/
def EndsAtLink (w : Walker) (p : WalkPoint) : Prop :=
  ∃ link, p.stretch w false = .ok (.link link [])

/-- The next link leads to a hive, where the components behind the link are appended to those of
its target. -/
inductive Follows (w : Walker) : WalkPoint → WalkPoint → Prop where
  | link {p : WalkPoint} {guid : Guid} {suffix : List Name} {found : HiveRouteResult × List Name}
      (hstretch : p.stretch w false = .ok (.link guid suffix))
      (hfound : w.target p.source guid = .ok found) :
      Follows w p (.hive found.1 (found.2 ++ suffix))

section

variable (w : Walker)

/-- The walk from there with the number of links it may still follow. -/
def walk (openFinalLink : Bool) (links : ℕ) (p : WalkPoint) : SysResult ResolvedKeyPath := do
  match ← p.stretch w openFinalLink with
  | .arrived ancestors found => .ok (p.arrival ancestors found)
  | .link link suffix =>
    match links with
    | 0 => .error .eloop
    | links + 1 => do
      let found ← w.target p.source link
      let next ← p.followComponents found.2 suffix
      walk openFinalLink links (hive found.1 next)

/-- The property of all places of a walk that may follow so many links. -/
def Along (P : WalkPoint → Prop) : ℕ → WalkPoint → Prop
  | 0, p => P p
  | links + 1, p => P p ∧ ∀ q, Follows w p q → Along P links q

/-- A walk that may follow so many links comes to a key. -/
def Arrives : ℕ → WalkPoint → Prop
  | 0, p => ∃ ancestors key, p.stretch w false = .ok (.arrived ancestors key)
  | links + 1, p =>
    (∃ ancestors key, p.stretch w false = .ok (.arrived ancestors key)) ∨
      ∃ q, Follows w p q ∧ Arrives links q

end

variable {P : WalkPoint → Prop} {links : ℕ} {p : WalkPoint} {openFinalLink : Bool}
  {resolved : ResolvedKeyPath}

theorem Along.here (h : Along w P links p) : P p := by
  cases links with
  | zero => exact h
  | succ links => exact h.1

theorem followComponents_eq {target suffix next : List Name}
    (h : p.followComponents target suffix = .ok next) : next = target ++ suffix := by
  have hplain : symlinkFollowComponents target suffix = .ok next := by
    cases p with
    | key => exact h
    | hive =>
      obtain ⟨components, hcomponents, h⟩ := of_bind h
      obtain ⟨_, -, h⟩ := of_bind h
      rwa [← Except.ok.inj h]
  obtain ⟨-, hplain⟩ := of_guard hplain
  obtain ⟨-, hplain⟩ := of_guard hplain
  exact (Except.ok.inj hplain).symm

/-- How a walk comes to its end: at once, or behind the next link. -/
theorem walk_eq_ok (h : walk w openFinalLink links p = .ok resolved) :
    (∃ ancestors key, p.stretch w openFinalLink = .ok (.arrived ancestors key) ∧
      resolved = p.arrival ancestors key) ∨
    ∃ n link suffix found, links = n + 1 ∧ p.stretch w openFinalLink = .ok (.link link suffix) ∧
      w.target p.source link = .ok found ∧
      walk w openFinalLink n (.hive found.1 (found.2 ++ suffix)) = .ok resolved := by
  unfold walk at h
  obtain ⟨descent, hdescent, h⟩ := of_bind h
  cases descent with
  | arrived ancestors key => exact .inl ⟨ancestors, key, hdescent, (Except.ok.inj h).symm⟩
  | link link suffix =>
    cases links with
    | zero => cases h
    | succ n =>
      obtain ⟨found, hfound, h⟩ := of_bind h
      obtain ⟨next, hnext, h⟩ := of_bind h
      rw [followComponents_eq hnext] at h
      exact .inr ⟨n, link, suffix, found, rfl, hdescent, hfound, h⟩

/-- A walk that ends has come to a key. -/
theorem arrives_of_walk (h : walk w false links p = .ok resolved) : Arrives w links p := by
  induction links generalizing p with
  | zero =>
    obtain ⟨ancestors, key, hstretch, -⟩ | ⟨n, _, _, _, hn, -⟩ := walk_eq_ok h
    · exact ⟨ancestors, key, hstretch⟩
    · cases hn
  | succ links ih =>
    obtain ⟨ancestors, key, hstretch, -⟩ | ⟨n, _, _, _, hn, hstretch, hfound, h⟩ := walk_eq_ok h
    · exact .inl ⟨ancestors, key, hstretch⟩
    · cases hn
      exact .inr ⟨_, .link hstretch hfound, ih h⟩

theorem avoids_followComponents (target suffix : List Name) :
    Avoids (· = .enoent) (p.followComponents target suffix) := by
  have hplain : Avoids (· = .enoent) (symlinkFollowComponents target suffix) :=
    .ite (by simp) (.ite (by simp) (by simp))
  cases p with
  | key => exact hplain
  | hive =>
    refine hplain.bind fun components => Avoids.bind ?_ fun _ => avoids_ok _
    induction components with
    | nil => exact avoids_ok _
    | cons name components ih =>
      exact Avoids.bind (.ite (by simp) (.ite (by simp) (by simp))) fun _ => ih

/-- A walk that comes to a key does not say that there is none. -/
theorem Arrives.avoids (h : Arrives w links p) :
    Avoids (· = .enoent) (walk w false links p) := by
  induction links generalizing p with
  | zero =>
    obtain ⟨ancestors, key, hstretch⟩ := h
    rw [walk, hstretch]
    exact avoids_ok _
  | succ links ih =>
    rw [walk]
    obtain ⟨ancestors, key, hstretch⟩ | ⟨q, ⟨hstretch, hfound⟩, h⟩ := h
    · rw [hstretch]
      exact avoids_ok _
    · rw [hstretch, ok_bind]
      dsimp only
      rw [hfound, ok_bind]
      intro e he hnone
      obtain ⟨next, hnext, he⟩ := (avoids_followComponents _ _).of_bind_eq_error hnone he
      rw [followComponents_eq hnext] at he
      exact ih h e he hnone

/-! ### The walks of the source -/

theorem walkAbsoluteComponentsImpl_eq (links : ℕ) (route : HiveRouteResult)
    (components : List Name) :
    walkAbsoluteComponentsImpl w.registry w.token.privateLayers w.scopes openFinalLink true links
        route.sourceId route.rootGuid components =
      walk w openFinalLink links (hive route components) := by
  induction links generalizing route components with
  | zero =>
    rw [walkAbsoluteComponentsImpl, walk]
    refine bind_congr fun descent _ => ?_
    cases descent <;> rfl
  | succ links ih =>
    rw [walkAbsoluteComponentsImpl, walk]
    refine bind_congr fun descent _ => ?_
    cases descent with
    | arrived => rfl
    | link => exact bind_congr fun found _ => bind_congr fun next _ => ih found.1 next

theorem walkRelativeComponentsForOpen_eq (parent : KeyFd) (components : List Name) :
    walkRelativeComponentsForOpen w.registry w.token.privateLayers w.scopes openFinalLink parent
        components =
      walk w openFinalLink w.registry.limits.symlinkDepthLimit (key parent components) := by
  unfold walkRelativeComponentsForOpen walkRelativeComponentsImpl
  generalize w.registry.limits.symlinkDepthLimit = links
  rw [walk, stretch, bind_assoc]
  refine bind_congr fun _ _ => bind_congr fun descent _ => ?_
  cases descent with
  | arrived => rfl
  | link =>
    cases links with
    | zero => rfl
    | succ links =>
      refine bind_congr fun found _ => bind_congr fun next _ => ?_
      rw [← walkAbsoluteComponentsImpl_eq]
      cases links with
      | zero =>
        -- the source writes the walk without further links out
        rw [walkAbsoluteComponentsImpl]
        refine bind_congr fun descent _ => ?_
        cases descent <;> rfl
      | succ => rfl

end WalkPoint

open WalkPoint

theorem descend_openFinalLink {look : Guid → Name → SysResult (Option KeyMetadata)}
    {components : List Name} {ancestors : List Guid} {current : Guid}
    (h : ∀ link, descend look false ancestors current components ≠ .ok (.link link [])) :
    descend look true ancestors current components =
      descend look false ancestors current components := by
  induction components generalizing ancestors current with
  | nil => rfl
  | cons name rest ih =>
    unfold descend at h ⊢
    refine bind_congr fun found hfound => ?_
    rw [hfound] at h
    cases found with
    | none => rfl
    | some child =>
      simp only [ok_bind] at h ⊢
      by_cases hlink : child.symlink = true
      · cases rest with
        | nil => exact absurd (by simp [hlink]) (h child.guid)
        | cons => simp [hlink]
      · cases rest with
        | nil => simp [hlink]
        | cons =>
          simp only [hlink, false_and, List.isEmpty_cons, Bool.false_eq_true, if_false] at h ⊢
          exact ih h

/-- **A walk that does not end at a link** does not depend on whether it would stop there. -/
theorem stretch_openFinalLink {p : WalkPoint} (h : ¬ p.EndsAtLink w) :
    p.stretch w true = p.stretch w false := by
  cases p with
  | key parent components =>
    refine bind_congr fun _ hprepared => descend_openFinalLink fun link hlink => h ⟨link, ?_⟩
    rw [stretch, hprepared]
    exact hlink
  | hive route components =>
    refine bind_congr fun _ hprepared => ?_
    have hends : ∀ (link : Guid) {x : SysResult Descent}, (hive route components).stretch w false =
        x → x ≠ .ok (.link link []) := fun _ _ hx hlink => h ⟨_, hx.trans hlink⟩
    rw [stretch, walkAbsoluteStretch] at hends
    rw [hprepared, ok_bind] at hends
    by_cases hone : components.length = 1
    · rw [if_pos hone, if_pos hone]
      rw [if_pos hone] at hends
      refine bind_congr fun key hkey => ?_
      rw [hkey, ok_bind] at hends
      cases hsymlink : key.symlink with
      | false => simp [descendRoot, hsymlink]
      | true => exact absurd (by simp [descendRoot, hsymlink]) (hends key.guid rfl)
    · rw [if_neg hone, if_neg hone]
      rw [if_neg hone] at hends
      exact descend_openFinalLink fun link => hends link rfl

/-! ## Paths -/

section

variable (w : Walker)

/-- Where the walk of a path starts. -/
def KeyPath.start : KeyPath → SysResult WalkPoint
  | .absolute path => do
    let route ← routeAbsolutePathForToken w.registry w.token w.scopes path
    let components ← materializeAbsolutePathComponentsForToken w.registry w.token path
    .ok (.hive route components)
  | .relative parent path => do
    let found ← relativeComponents w.registry parent path
    .ok (.key found.1 found.2)

/-- What a path is resolved to by some scopes. -/
def resolvePath (openFinalLink : Bool) (path : KeyPath) : SysResult ResolvedKeyPath := do
  let p ← path.start w
  let resolved ← p.walk w openFinalLink w.registry.limits.symlinkDepthLimit
  requireSd resolved

/-- A property of all places that the walk of a path is routed to. -/
def AlongPath (P : WalkPoint → Prop) (path : KeyPath) : Prop :=
  ∀ p, path.start w = .ok p → Along w P w.registry.limits.symlinkDepthLimit p

/-- The path leads to a key. -/
def NamesKey (path : KeyPath) : Prop :=
  ∃ p, path.start w = .ok p ∧ Arrives w w.registry.limits.symlinkDepthLimit p

end

variable {path : KeyPath} {resolved : ResolvedKeyPath}

theorem resolveAbsolutePath_eq (w : Walker) (b : Bool) (text : Name) :
    resolveAbsolutePath w.registry w.token w.scopes b text = resolvePath w b (.absolute text) := by
  unfold resolveAbsolutePath resolvePath KeyPath.start
  simp only [bind_assoc, ok_bind, walkAbsoluteComponentsForOpen, walkAbsoluteComponentsImpl_eq]

theorem resolveRelativePath_eq (w : Walker) (b : Bool) (parent : KeyFd) (text : Name) :
    resolveRelativePath w.registry w.token w.scopes b parent text =
      resolvePath w b (.relative parent text) := by
  unfold resolveRelativePath resolvePath KeyPath.start
  simp only [bind_assoc, ok_bind, walkRelativeComponentsForOpen_eq]

theorem namesKey_of_resolvePath (h : resolvePath w false path = .ok resolved) :
    NamesKey w path := by
  obtain ⟨p, hp, h⟩ := of_bind h
  obtain ⟨_, hwalk, -⟩ := of_bind h
  exact ⟨p, hp, arrives_of_walk hwalk⟩

theorem NamesKey.avoids (h : NamesKey w path) :
    Avoids (· = .enoent) (resolvePath w false path) := by
  obtain ⟨p, hp, h⟩ := h
  rw [resolvePath, hp]
  exact h.avoids.bind fun _ => .ite (by simp) (by simp)

/-! ## Walks that are alike -/

/-- What is routed by some scopes is routed by others, and stretches do not depend on where a walk
would stop, at the places that have the property. -/
structure Alike (w : Walker) (P : WalkPoint → Prop) (scopes' : List Guid) (b b' : Bool) :
    Prop where
  stretch : ∀ p, P p → p.stretch w b = p.stretch w false ∧ p.stretch w b' = p.stretch w false
  start : ∀ {path : KeyPath} {p}, P p → path.start w = .ok p → path.start (w.over scopes') = .ok p
  follow : ∀ {source link found components}, P (.hive found.1 components) →
    w.target source link = .ok found → (w.over scopes').target source link = .ok found

theorem alike_global : Alike w (Global w.registry.toHiveTable) [] false false where
  stretch _ _ := ⟨rfl, rfl⟩
  start {path _} hglobal h := by
    cases path with
    | relative => exact h
    | absolute path =>
      obtain ⟨route, hroute, h⟩ := of_bind h
      obtain ⟨components, hcomponents, h⟩ := of_bind h
      cases h
      exact bind_eq_ok.mpr ⟨_, routeAbsolutePathForToken_nil hglobal hroute,
        bind_eq_ok.mpr ⟨_, hcomponents, rfl⟩⟩
  follow hglobal := resolveSymlinkTargetForKey_nil hglobal

theorem alike_of_not_endsAtLink (b b' : Bool) :
    Alike w (fun p => ¬ p.EndsAtLink w) w.scopes b b' where
  stretch p hp := by cases b <;> cases b' <;> simp [stretch_openFinalLink hp]
  start _ h := h
  follow _ h := h

namespace Alike

variable {P : WalkPoint → Prop} {scopes' : List Guid} {b b' : Bool} {links : ℕ} {p : WalkPoint}
  (hP : Alike w P scopes' b b')

include hP

/-- **Walks through such places end at the same key**, by induction on the links they may
follow. -/
theorem walk (h : Along w P links p) :
    Within (p.walk w b links) (p.walk (w.over scopes') b' links) := by
  induction links generalizing p with
  | zero =>
    obtain ⟨hb, hb'⟩ := hP.stretch p h.here
    rw [WalkPoint.walk, WalkPoint.walk]
    exact bind (fun descent hdescent => hb'.trans (hb.symm.trans hdescent)) fun _ _ => .refl
  | succ links ih =>
    obtain ⟨hb, hb'⟩ := hP.stretch p h.here
    rw [WalkPoint.walk, WalkPoint.walk]
    refine bind (fun _ hdescent => hb'.trans (hb.symm.trans hdescent)) fun descent hdescent => ?_
    cases descent with
    | arrived ancestors key => rfl
    | link link suffix =>
      have hnext : ∀ found, w.target p.source link = .ok found →
          Along w P links (.hive found.1 (found.2 ++ suffix)) :=
        fun _ hfound => h.2 _ (.link (hb.symm.trans hdescent) hfound)
      refine bind (fun found hfound => hP.follow (hnext found hfound).here hfound)
        fun found hfound => bind .refl fun next hcomponents => ?_
      rw [followComponents_eq hcomponents]
      exact ih (hnext found hfound)

/-- And come to a key alike. -/
theorem arrives (h : Along w P links p) (harrives : Arrives w links p) :
    Arrives (w.over scopes') links p := by
  induction links generalizing p with
  | zero => exact harrives
  | succ links ih =>
    refine harrives.imp_right ?_
    rintro ⟨q, hq, harrives⟩
    have hnext := h.2 q hq
    obtain ⟨hstretch, hfound⟩ := hq
    exact ⟨_, .link hstretch (hP.follow hnext.here hfound), ih hnext harrives⟩

/-- **Paths that are walked alike are resolved to the same key.** -/
theorem resolvePath (h : AlongPath w P path) :
    Within (resolvePath w b path) (resolvePath (w.over scopes') b' path) :=
  bind (fun p hp => hP.start (h p hp).here hp) fun p hp =>
    bind (hP.walk (h p hp)) fun _ _ => .refl

theorem namesKey (h : AlongPath w P path) (hnames : NamesKey w path) :
    NamesKey (w.over scopes') path := by
  obtain ⟨p, hp, harrives⟩ := hnames
  exact ⟨p, hP.start (h p hp).here hp, hP.arrives (h p hp) harrives⟩

end Alike

end Pkm.Lcs
