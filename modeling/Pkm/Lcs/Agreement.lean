import Pkm.Lcs.Helpers.Scopes
/-!
# What a path names to an open and to a create

A create first looks whether the path names a key, and if not makes one under the key
that the rest of the path names. `Agrees` says that both are what an open would find.
The two calls resolve a path differently in two ways: one of them leaves the caller's scopes out,
which for an absolute path is the create where it looks for the key, and for a path from an open
key it is the open; and the flag that makes an open stop at a link means another thing to a create.
`SameReading` says that neither makes a difference to the path of a call.
-/

namespace Pkm.Lcs

open Bytes Outcome

/-! ## Agreement -/

/-- One key, whatever path and access it was opened with. -/
def KeyFd.SameKey (a b : KeyFd) : Prop := a.sourceId = b.sourceId ∧ a.keyGuid = b.keyGuid

section

variable (registry : Registry) (token : RegistryToken) (flags : BitVec 32)

/-- The key is what an open resolves the path to. -/
def OpenResolvesTo (path : KeyPath) (sourceId : SourceId) (keyGuid : Guid) : Prop :=
  ∃ resolved, openResolve registry token (flags &&& regOpenLink != 0) path = .ok resolved ∧
    resolved.sourceId = sourceId ∧ resolved.keyGuid = keyGuid

/-- The key is what the path means without its last component, which for a path of one component
from an open key is that key. -/
def NamesParent (path : KeyPath) (sourceId : SourceId) (keyGuid : Guid) : Prop :=
  match path with
  | .absolute path =>
    OpenResolvesTo registry token flags (.absolute (pathWithoutLast path)) sourceId keyGuid
  | .relative parent path =>
    if path.any isSeparator then
      OpenResolvesTo registry token flags (.relative parent (pathWithoutLast path)) sourceId keyGuid
    else sourceId = parent.sourceId ∧ keyGuid = parent.keyGuid

structure Agrees (inputs : CreateInputs) (path : KeyPath) (desiredAccess : BitVec 32) :
    Prop where
  existing : ∀ fd, regOpenKey registry token path desiredAccess flags = .ok fd →
    ∃ fd', regCreateKey registry token inputs path desiredAccess flags =
      .ok (.openedExisting fd') ∧ fd'.SameKey fd
  created : ∀ fd entry, regCreateKey registry token inputs path desiredAccess flags =
    .ok (.createdNew fd entry) →
      NamesParent registry token flags path entry.sourceId entry.parentGuid

end

/-! ## Where a call reads a path alike -/

open WalkPoint

section

variable (registry : Registry) (token : RegistryToken)

/-- The caller with all its scopes. -/
def fullWalker : Walker := ⟨registry, token, token.scopeGuids⟩

/-- The caller with the scopes by which an open resolves the path. -/
def opener : KeyPath → Walker
  | .absolute _ => fullWalker registry token
  | .relative _ _ => ⟨registry, token, []⟩

/-- The path without its last component, unless only an open key is left. -/
def KeyPath.withoutLast : KeyPath → Option KeyPath
  | .absolute path => some (.absolute (pathWithoutLast path))
  | .relative parent path =>
    if path.any isSeparator then some (.relative parent (pathWithoutLast path)) else none

/-- The walk of the path does not end at a link. -/
def NoFinalLink (w : Walker) (path : KeyPath) : Prop := AlongPath w (fun p => ¬ p.EndsAtLink w) path

/-- **What a call may meet** on the way of its path, if the token is accepted.

* An absolute path that leads to a key is routed, like every link on its way, to global hives.
* With the flag that an open stops at links by, the path does not end at a link, and if it leads to
  no key its parent is no link.
* A path from an open key that leads to no key has no link to a private hive on the way to its
  parent. -/
structure SameReading (flags : BitVec 32) (path : KeyPath) : Prop where
  globalHives : ∀ text, path = .absolute text → NamesKey (fullWalker registry token) path →
    AlongPath (fullWalker registry token) (Global registry.toHiveTable) path
  noFinalLink : flags = regOpenLink → NoFinalLink (opener registry token path) path
  parentNoLink : flags = regOpenLink → ¬ NamesKey (opener registry token path) path →
    ∀ parentPath, path.withoutLast = some parentPath →
      NoFinalLink (opener registry token path) parentPath
  parentGlobal : ∀ parent text, path = .relative parent text →
    ¬ NamesKey ⟨registry, token, []⟩ path → ∀ parentPath, path.withoutLast = some parentPath →
      AlongPath (fullWalker registry token) (Global registry.toHiveTable) parentPath

end

/-! ## Flags -/

theorem flags_of_openPreflight {desiredAccess flags : BitVec 32}
    (h : openPreflight desiredAccess flags = .ok ()) : flags = 0 ∨ flags = regOpenLink := by
  obtain ⟨hflags, -⟩ := of_guard h
  rw [not_not] at hflags
  -- the other bits are out, so the flags are their lowest bit
  have hlow : flags &&& regOpenLink ||| flags &&& ~~~regOpenLink = flags := by
    rw [← BitVec.and_or_distrib_left]
    exact BitVec.and_allOnes
  rw [← hlow, hflags, regOpenLink, BitVec.and_one_eq_setWidth_ofBool_getLsbD]
  cases flags.getLsbD 0 <;> decide

/-! ## The key itself -/

variable {registry : Registry} {token : RegistryToken} {inputs : CreateInputs}
  {desiredAccess flags : BitVec 32} {resolution : CreateMissingParentResolution} {fd parent : KeyFd}
  {components : List Name} {path : Name}

theorem openResolve_eq (b : Bool) (path : KeyPath) :
    openResolve registry token b path =
      resolvePath (opener registry token path) b path := by
  cases path with
  | absolute path => exact resolveAbsolutePath_eq (fullWalker registry token) b path
  | relative parent path => exact resolveRelativePath_eq ⟨registry, token, []⟩ b parent path

theorem createExistingResolve_eq (path : KeyPath) :
    createExistingResolve registry token path = resolvePath ⟨registry, token, []⟩ false path := by
  cases path with
  | absolute path => exact resolveAbsolutePath_eq ⟨registry, token, []⟩ false path
  | relative parent path => exact resolveRelativePath_eq ⟨registry, token, []⟩ false parent path

/-- The flag makes no difference to a path that does not end at a link. -/
theorem resolvePath_openFinalLink (hflags : flags = 0 ∨ flags = regOpenLink) {w : Walker}
    {path : KeyPath} (h : flags = regOpenLink → NoFinalLink w path)
    {resolved : ResolvedKeyPath} :
    resolvePath w (flags &&& regOpenLink != 0) path = .ok resolved ↔
      resolvePath w false path = .ok resolved := by
  rcases hflags with rfl | rfl
  · rfl
  · exact ⟨(alike_of_not_endsAtLink _ _).resolvePath (h rfl) resolved,
      (alike_of_not_endsAtLink _ _).resolvePath (h rfl) resolved⟩

/-- A path that leads to a key leads to it without the scopes as well. -/
theorem SameReading.namesKey {path : KeyPath} (hsame : SameReading registry token flags path)
    (h : NamesKey (opener registry token path) path) :
    NamesKey ⟨registry, token, []⟩ path := by
  cases path with
  | absolute path => exact alike_global.namesKey (hsame.globalHives path rfl h) h
  | relative parent path => exact h

theorem SameReading.resolvePath_nil {path : KeyPath}
    (hsame : SameReading registry token flags path) {resolved : ResolvedKeyPath}
    (h : resolvePath (opener registry token path) false path = .ok resolved) :
    resolvePath ⟨registry, token, []⟩ false path = .ok resolved := by
  cases path with
  | absolute path =>
    have hglobal := hsame.globalHives path rfl (namesKey_of_resolvePath h)
    exact alike_global.resolvePath hglobal resolved h
  | relative parent path => exact h

/-- **An open that succeeds is what the create finds.** -/
theorem regCreateKey_of_regOpenKey {path : KeyPath}
    (hsame : SameReading registry token flags path)
    (h : regOpenKey registry token path desiredAccess flags = .ok fd) :
    regCreateKey registry token inputs path desiredAccess flags = .ok (.openedExisting fd) := by
  obtain ⟨_, hpreflight, h⟩ := of_bind h
  obtain ⟨_, hcredentials, h⟩ := of_bind h
  obtain ⟨_, hcopy, h⟩ := of_bind h
  obtain ⟨resolved, hresolved, hpublish⟩ := of_bind h
  have hflags := flags_of_openPreflight hpreflight
  obtain ⟨options, hcreate⟩ : ∃ options, createPreflight desiredAccess flags = .ok options := by
    obtain ⟨-, haccess⟩ := of_guard hpreflight
    have hzero : openPreflight desiredAccess 0 = .ok () := (if_neg (by decide)).trans haccess
    rw [createPreflight, hzero]
    rcases hflags with rfl | rfl
    · exact ⟨_, rfl⟩
    · exact ⟨_, rfl⟩
  have hfound : createExistingCopiedPathForToken registry token path desiredAccess flags =
      .ok fd := by
    rw [openResolve_eq, resolvePath_openFinalLink hflags hsame.noFinalLink] at hresolved
    unfold createExistingCopiedPathForToken
    rw [hcreate, ok_bind, createExistingResolve_eq, hsame.resolvePath_nil hresolved]
    exact hpublish
  unfold regCreateKey
  rw [hcreate, ok_bind, hcopy, ok_bind, hcredentials, ok_bind, hfound]

/-- **A path that leads to a key makes no new one**, for the access check never says that there is
no key. -/
theorem not_namesKey_of_createdNew (hkeyAccess : ∀ sd access, token.keyAccess sd access ≠
      .error .enoent) {path : KeyPath} {entry : CreateEntryRequest}
    (h : regCreateKey registry token inputs path desiredAccess flags =
      .ok (.createdNew fd entry)) : ¬ NamesKey ⟨registry, token, []⟩ path := by
  intro hnames
  have hpublish : ∀ resolved, Avoids (· = .enoent)
      (publishOpenKeyForToken registry token desiredAccess resolved) := by
    intro resolved
    refine Avoids.bind (.ite (by simp) fun e he hnone => ?_) fun granted => ?_
    · exact hkeyAccess _ _ (hnone ▸ he)
    · refine .ite (by simp) (Avoids.bind ?_ fun _ => avoids_ok _)
      refine .ite (by simp) (.ite (by simp) (.ite (by simp) ?_))
      intro e he hnone
      cases hfd : validateFdPath registry.limits resolved.resolvedPath with
      | ok => simp [hfd, Except.mapError] at he
      | error e' =>
        simp only [hfd, Except.mapError] at he
        cases e' <;> cases he <;> cases hnone
  obtain ⟨_, hpreflight, h⟩ := of_bind h
  obtain ⟨_, -, h⟩ := of_bind h
  obtain ⟨_, -, h⟩ := of_bind h
  have hlook : Avoids (· = .enoent)
      (createExistingCopiedPathForToken registry token path desiredAccess flags) := by
    unfold createExistingCopiedPathForToken
    rw [hpreflight, ok_bind, createExistingResolve_eq]
    exact hnames.avoids.bind hpublish
  split at h
  · cases h
  · rename_i hnone
    exact hlook _ hnone rfl
  · cases h

/-! ## Its parent -/

theorem routeAbsolutePathFromSourceSlots_withoutLast {rewrite : CurrentUserRewrite}
    {scopes : List Guid} {route : HiveRouteResult}
    (hcomponents : pathComponents registry.limits path rewrite = .ok components)
    (htwo : 2 ≤ components.length)
    (h : routeAbsolutePathFromSourceSlots registry.limits registry.slots path rewrite scopes =
      .ok route) :
    routeAbsolutePathFromSourceSlots registry.limits registry.slots (pathWithoutLast path) rewrite
      scopes = .ok route := by
  have hshorter := pathComponents_withoutLast registry.inRange hcomponents htwo
  obtain ⟨summary, hsummary, -⟩ := of_bind hshorter
  obtain ⟨_, -, h⟩ := of_bind h
  have hsame : routedComponent registry.limits (pathWithoutLast path) rewrite =
      routedComponent registry.limits path rewrite := by
    rw [routedComponent, routedComponent, hshorter, hcomponents]
    match components, htwo with
    | _ :: _ :: _, _ => rfl
  unfold routeAbsolutePathFromSourceSlots
  rw [hsummary]
  rw [routeRoutablePathHive_eq] at h ⊢
  rw [hsame]
  exact h

theorem requireSd_of_ne_nil {resolved : ResolvedKeyPath} (h : resolved.finalSd ≠ []) :
    requireSd resolved = .ok resolved :=
  if_neg (by simpa using h)

/-- **The parent of an absolute path** is what an open of the rest resolves to. -/
theorem resolveAbsolutePath_withoutLast
    (h : createMissingCopiedAbsoluteParentForToken registry token path = .ok resolution)
    (hsd : resolution.parent.finalSd ≠ []) :
    resolveAbsolutePath registry token token.scopeGuids false (pathWithoutLast path) =
      .ok resolution.parent := by
  obtain ⟨route, hroute, h⟩ := of_bind h
  obtain ⟨components, hcomponents, h⟩ := of_bind h
  obtain ⟨htwo, h⟩ := of_guard h
  obtain ⟨childName, -, h⟩ := of_bind h
  obtain ⟨parent, hwalk, h⟩ := of_bind h
  obtain ⟨_, -, h⟩ := of_bind h
  cases h
  obtain ⟨rewrite, hrewrite, hroute⟩ := of_bind hroute
  obtain ⟨rewrite', hrewrite', hcomponents⟩ := of_bind hcomponents
  cases hrewrite.symm.trans hrewrite'
  rw [materializeAbsolutePathComponents_eq_ok] at hcomponents
  rw [Nat.not_lt] at htwo
  have hshorter := pathComponents_withoutLast registry.inRange hcomponents htwo
  unfold resolveAbsolutePath routeAbsolutePathForToken materializeAbsolutePathComponentsForToken
  rw [hrewrite, ok_bind,
    routeAbsolutePathFromSourceSlots_withoutLast hcomponents htwo hroute, ok_bind,
    ok_bind, materializeAbsolutePathComponents_eq_ok.mpr hshorter, ok_bind, hwalk]
  exact requireSd_of_ne_nil hsd

/-- The components of a path from an open key, without the last one. -/
theorem relativeComponents_withoutLast (hany : path.any isSeparator = true)
    (h : relativeComponents registry parent path = .ok (fd, components)) :
    relativeComponents registry parent (pathWithoutLast path) = .ok (fd, components.dropLast) ∧
      2 ≤ components.length := by
  obtain ⟨sep, last, hsep, hlast, hpath⟩ := exists_last hany
  generalize pathWithoutLast path = before at hpath ⊢
  subst hpath
  obtain ⟨summary, hsummary, h⟩ := of_bind h
  obtain ⟨snapshot, hsnapshot, h⟩ := of_bind h
  obtain ⟨_, hdepth, h⟩ := of_bind h
  obtain ⟨found, hfound, h⟩ := of_bind h
  cases h
  obtain ⟨_, -, hfound⟩ := of_bind hfound
  cases hfound
  obtain ⟨shorter, hshorter, hcount⟩ :=
    validateRegistryPathStr_before hsep hlast (mapError_eq_ok.mp hsummary)
  have hvalid : validateSyscallRelativePath registry.limits before = .ok shorter :=
    mapError_eq_ok.mpr hshorter
  have hdepth' : validateRelativeOpenDepthCounts fd.resolvedPath.length
      shorter.componentCount registry.limits.maxKeyDepth = .ok () := by
    unfold validateRelativeOpenDepthCounts at hdepth ⊢
    rw [ite_error_eq_ok] at hdepth
    exact if_neg (by omega)
  rw [splitOnP_append_separator before hsep hlast, List.dropLast_concat]
  constructor
  · unfold relativeComponents materializeRelativePathComponents
    rw [hvalid, ok_bind, hsnapshot, ok_bind, hdepth']
    rfl
  · have := List.length_pos_of_ne_nil (List.splitOnP_ne_nil isSeparator before)
    rw [List.length_append, List.length_singleton]
    omega

theorem readKey_guid {source : SourceId} {guid : Guid} {key : KeyMetadata}
    (h : readKey registry source guid = .ok key) : key.guid = guid := by
  obtain ⟨_, -, h⟩ := of_bind h
  obtain ⟨-, h⟩ := of_guard h
  obtain ⟨-, h⟩ := of_guard h
  rw [← Except.ok.inj h]

/-- **The parent of a path from an open key**, if there is a component between them. -/
theorem resolveRelativePath_withoutLast (hany : path.any isSeparator = true)
    (h : createMissingCopiedRelativeParent registry token parent path = .ok resolution)
    (hsd : resolution.parent.finalSd ≠ []) :
    resolveRelativePath registry token token.scopeGuids false parent (pathWithoutLast path) =
      .ok resolution.parent := by
  obtain ⟨⟨fd, components⟩, hcomponents, h⟩ := of_bind h
  obtain ⟨childName, -, h⟩ := of_bind h
  obtain ⟨resolved, hresolved, h⟩ := of_bind h
  obtain ⟨_, -, h⟩ := of_bind h
  cases h
  obtain ⟨hshorter, htwo⟩ := relativeComponents_withoutLast hany hcomponents
  rw [if_neg (by omega)] at hresolved
  unfold resolveRelativePath
  rw [hshorter, ok_bind]
  dsimp only
  rw [hresolved]
  exact requireSd_of_ne_nil hsd

/-- With one component the parent is the open key. -/
theorem parent_of_no_separator (hany : ¬ path.any isSeparator = true)
    (h : createMissingCopiedRelativeParent registry token parent path = .ok resolution) :
    resolution.parent.sourceId = parent.sourceId ∧ resolution.parent.keyGuid = parent.keyGuid := by
  obtain ⟨⟨fd, components⟩, hcomponents, h⟩ := of_bind h
  obtain ⟨childName, -, h⟩ := of_bind h
  obtain ⟨resolved, hresolved, h⟩ := of_bind h
  obtain ⟨_, -, h⟩ := of_bind h
  cases h
  obtain ⟨_, -, hcomponents⟩ := of_bind hcomponents
  obtain ⟨snapshot, hsnapshot, hcomponents⟩ := of_bind hcomponents
  obtain ⟨_, -, hcomponents⟩ := of_bind hcomponents
  obtain ⟨found, hfound, hcomponents⟩ := of_bind hcomponents
  cases hcomponents
  obtain ⟨_, -, hfound⟩ := of_bind hfound
  cases hfound
  obtain ⟨-, hsnapshot⟩ := of_guard hsnapshot
  cases hsnapshot
  rw [if_pos (by rw [splitOnP_of_no_separator (by simpa using hany)]; rfl)] at hresolved
  obtain ⟨-, hresolved⟩ := of_guard hresolved
  obtain ⟨-, hresolved⟩ := of_guard hresolved
  obtain ⟨-, hresolved⟩ := of_guard hresolved
  obtain ⟨key, hkey, hresolved⟩ := of_bind hresolved
  cases hresolved
  exact ⟨rfl, readKey_guid hkey⟩

/-- Where the parent in the request of a new key comes from. -/
theorem createdNew_resolution {path : KeyPath} {entry : CreateEntryRequest}
    (h : regCreateKey registry token inputs path desiredAccess flags = .ok (.createdNew fd entry)) :
    ∃ resolution, createMissingCopiedParentForToken registry token path = .ok resolution ∧
      resolution.parent.finalSd ≠ [] ∧ entry.sourceId = resolution.parent.sourceId ∧
      entry.parentGuid = resolution.parent.keyGuid := by
  obtain ⟨_, -, h⟩ := of_bind h
  obtain ⟨_, -, h⟩ := of_bind h
  obtain ⟨_, -, h⟩ := of_bind h
  split at h
  · cases h
  · obtain ⟨_, -, h⟩ := of_bind h
    obtain ⟨_, -, h⟩ := of_bind h
    obtain ⟨resolution, hresolution, h⟩ := of_bind h
    obtain ⟨_, haccess, h⟩ := of_bind h
    obtain ⟨sd, hsd, -⟩ := of_bind haccess
    -- the checks that follow leave the resolution as it is
    obtain ⟨_, -, h⟩ := of_bind h
    obtain ⟨_, -, h⟩ := of_bind h
    obtain ⟨_, -, h⟩ := of_bind h
    obtain ⟨_, -, h⟩ := of_bind h
    obtain ⟨_, -, h⟩ := of_bind h
    obtain ⟨childGuid, -, h⟩ := of_bind h
    obtain ⟨createdSd, -, h⟩ := of_bind h
    refine ⟨resolution, hresolution, ?_, ?_⟩
    · simpa using (of_guard hsd).1
    · dsimp only at h
      split at h
      · obtain ⟨_, -, h⟩ := of_bind h
        cases h
      · obtain ⟨_, -, h⟩ := of_bind h
        cases (Except.ok.inj h)
        exact ⟨rfl, rfl⟩
  · cases h

/-- **Calls that read their path alike agree.** -/
theorem agrees_of_sameReading (hkeyAccess : ∀ sd access, token.keyAccess sd access ≠
      .error .enoent) (hpreflight : openPreflight desiredAccess flags = .ok ()) {path : KeyPath}
    (hsame : SameReading registry token flags path) (inputs : CreateInputs) :
    Agrees registry token flags inputs path desiredAccess := by
  have hflags := flags_of_openPreflight hpreflight
  refine ⟨fun fd hopen => ⟨fd, regCreateKey_of_regOpenKey hsame hopen, rfl, rfl⟩, ?_⟩
  intro fd entry hcreate
  have hno := not_namesKey_of_createdNew hkeyAccess hcreate
  obtain ⟨resolution, hresolution, hsd, hsource, hparent⟩ := createdNew_resolution hcreate
  rw [hsource, hparent]
  have hlinks := fun hlink => hsame.parentNoLink hlink (hno.comp hsame.namesKey)
  cases path with
  | absolute path =>
    refine ⟨resolution.parent, ?_, rfl, rfl⟩
    rw [openResolve_eq]
    refine (resolvePath_openFinalLink hflags fun hlink => hlinks hlink _ rfl).mpr ?_
    exact (resolveAbsolutePath_eq (fullWalker registry token) false _).symm.trans
      (resolveAbsolutePath_withoutLast hresolution hsd)
  | relative parent path =>
    by_cases hany : path.any isSeparator = true
    · refine (if_pos hany).mpr ⟨resolution.parent, ?_, rfl, rfl⟩
      rw [openResolve_eq]
      refine (resolvePath_openFinalLink hflags fun hlink => hlinks hlink _ (if_pos hany)).mpr ?_
      -- the create has walked with the scopes
      have hglobal := hsame.parentGlobal parent path rfl hno _ (if_pos hany)
      refine alike_global.resolvePath hglobal _ ?_
      exact (resolveRelativePath_eq (fullWalker registry token) false parent _).symm.trans
        (resolveRelativePath_withoutLast hany hresolution hsd)
    · exact (if_neg hany).mpr (parent_of_no_separator hany hresolution)

end Pkm.Lcs
