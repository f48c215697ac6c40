import Pkm.Lcs.Helpers.PathCheck
/-!
# Rewritten paths

The alias for the caller's own hive is one component of a path, and two are put in
its place. The check of the path was made before that: its length is checked again,
the number of its components is not. So a path at the greatest depth that starts with
the alias is walked although the path it stands for would be refused.
-/

namespace Pkm.Lcs

open List Outcome

/-- The path that has these components. -/
def joinPath (components : List Name) : Name := ['\\'].intercalate components

theorem splitOnP_joinPath {components : List Name} (hne : components ≠ [])
    (hsep : ∀ c ∈ components, c.any isSeparator = false) :
    (joinPath components).splitOnP isSeparator = components := by
  induction components with
  | nil => exact absurd rfl hne
  | cons first others ih =>
    have hfirst := splitOnP_of_no_separator (hsep first mem_cons_self)
    cases others with
    | nil => simpa [joinPath] using hfirst
    | cons next others =>
      have hjoin : joinPath (first :: next :: others) =
          first ++ '\\' :: joinPath (next :: others) := by
        simp [joinPath]
      rw [hjoin, splitOnP_append_cons _ _ rfl, hfirst,
        ih (cons_ne_nil _ _) (forall_mem_cons.mp hsep).2]
      rfl

/-! ## A path by its components -/

theorem no_separator_of_mem_splitOnP (path : Name) :
    ∀ c ∈ path.splitOnP isSeparator, c.any isSeparator = false := by
  induction path using components_induction with
  | one name hname => exact forall_mem_singleton.mpr hname
  | more name sep rest components hname _ ih => exact forall_mem_cons.mpr ⟨hname, ih⟩

theorem null_mem_iff (path : Name) :
    '\x00' ∈ path ↔ ∃ c ∈ path.splitOnP isSeparator, '\x00' ∈ c := by
  induction path using components_induction with
  | one name _ => simp
  | more name sep rest components _ hsep ih =>
    have hne : '\x00' ≠ sep := by
      rintro rfl
      cases hsep
    simp [hne, ih]

/-- Every separator is one byte. -/
theorem utf8Len_eq_sum (path : Name) :
    utf8Len path + 1 = ((path.splitOnP isSeparator).map fun c => utf8Len c + 1).sum := by
  induction path using components_induction with
  | one name _ => simp
  | more name sep rest components _ hsep ih =>
    have hone : sep.utf8Size = 1 := by
      simp only [isSeparator, Bool.or_eq_true, beq_iff_eq] at hsep
      rcases hsep with rfl | rfl <;> rfl
    have hrest : utf8Len (sep :: rest) = utf8Len rest + 1 := by
      rw [utf8Len, map_cons, hone, Nat.add_comm]
      rfl
    rw [utf8Len_append, map_cons, sum_cons]
    omega

/-- The components of what may be a path. -/
structure ComponentsLike (limits : LcsLimits) (components : List Name) : Prop where
  null : ∀ c ∈ components, '\x00' ∉ c
  total : (components.map fun c => utf8Len c + 1).sum ≤ limits.maxTotalPathLength + 1
  each : ∀ c ∈ components, ComponentLike limits c
  depth : components.length ≤ limits.maxKeyDepth

section

variable {limits : LcsLimits} {path : Name} {rewrite : CurrentUserRewrite} {components : List Name}

theorem pathLike_iff : PathLike limits path ↔
    ComponentsLike limits (path.splitOnP isSeparator) := by
  have hnull : path.contains '\x00' = false ↔
      ∀ c ∈ path.splitOnP isSeparator, '\x00' ∉ c := by
    rw [Bool.eq_false_iff, ne_eq, contains_iff_mem, null_mem_iff]
    simp
  have htotal := utf8Len_eq_sum path
  constructor
  · rintro ⟨h, hlen, heach, hdepth⟩
    exact ⟨hnull.mp h, by omega, heach, hdepth⟩
  · rintro ⟨h, hlen, heach, hdepth⟩
    exact ⟨hnull.mpr h, by omega, heach, hdepth⟩

/-- **The check of a path is exact.** A path passes if it is not empty, has no null, fits, and its
split at the separators has no empty component, none that is too long and not too many. The summary
is that of the split, and each component passes as the name of a key. -/
theorem validateRegistryPathStr_exact (path : Name) (limits : LcsLimits) :
    ((∃ summary, validateRegistryPathStr path limits = .ok summary) ↔
      path ≠ [] ∧ '\x00' ∉ path ∧ utf8Len path ≤ limits.maxTotalPathLength ∧
        (∀ c ∈ path.splitOnP isSeparator, c ≠ [] ∧ utf8Len c ≤ limits.maxPathComponentLength) ∧
        (path.splitOnP isSeparator).length ≤ limits.maxKeyDepth) ∧
      ∀ summary, validateRegistryPathStr path limits = .ok summary →
        summary.componentCount = (path.splitOnP isSeparator).length ∧
        (path.splitOnP isSeparator).head? = some summary.firstComponent ∧
        (path.splitOnP isSeparator).getLast? = some summary.finalComponent ∧
        ∀ c ∈ path.splitOnP isSeparator, validateKeyComponentBytes c limits = .ok c := by
  simp only [validateRegistryPathStr_eq_ok, exists_and_left, exists_eq, and_true]
  refine ⟨⟨fun h => ⟨?_, by simpa using h.null, h.total, h.components, h.depth⟩, ?_⟩, ?_⟩
  · rintro rfl
    exact (h.components [] (by simp)).1 rfl
  · rintro ⟨-, hnull, htotal, hcomponents, hdepth⟩
    exact ⟨by simpa using hnull, htotal, hcomponents, hdepth⟩
  · rintro _ ⟨h, rfl⟩
    refine ⟨rfl, head?_splitOnP path, ?_, fun c hc => ?_⟩
    · rw [getLastD_eq_getLast?, getLast?_eq_some_getLast (splitOnP_ne_nil _ path)]
      rfl
    · have hnull : '\x00' ∉ c := (pathLike_iff.mp h).null c hc
      exact validateKeyComponentBytes_of_keyLike ⟨by simpa using hnull, (h.components c hc).1,
        (h.components c hc).2, no_separator_of_mem_splitOnP path c hc⟩

/-- **Components joined again** are checked as they stand. -/
theorem validateRegistryPathStr_joinPath (hne : components ≠ [])
    (hsep : ∀ c ∈ components, c.any isSeparator = false) :
    (∃ summary, validateRegistryPathStr (joinPath components) limits = .ok summary ∧
      summary.componentCount = components.length) ↔ ComponentsLike limits components := by
  have hsplit := splitOnP_joinPath hne hsep
  rw [← hsplit, ← pathLike_iff, hsplit]
  constructor
  · rintro ⟨summary, h, -⟩
    exact (validateRegistryPathStr_eq_ok.mp h).1
  · intro h
    exact ⟨_, validateRegistryPathStr_eq_ok.mpr ⟨h, rfl⟩, by rw [hsplit]⟩

/-! ## The rewritten path -/

theorem length_le_utf8Len (name : Name) : name.length ≤ utf8Len name := by
  induction name with
  | nil => exact Nat.le_refl 0
  | cons c rest ih =>
    have := Char.utf8Size_pos c
    rw [utf8Len] at ih ⊢
    rw [length_cons, map_cons, sum_cons]
    omega

/-- The alias is the longer name: folding keeps the number of characters. -/
theorem utf8Len_usersHiveName_le {name : Name} (h : isReservedCurrentUserName name = true) :
    utf8Len usersHiveName ≤ utf8Len name := by
  have hlen : name.length = currentUserName.length := by
    simpa [foldName] using congrArg List.length (casefoldEq_iff.mp h)
  calc utf8Len usersHiveName ≤ currentUserName.length := by decide
    _ = name.length := hlen.symm
    _ ≤ utf8Len name := length_le_utf8Len name

/-- The walk puts two components in the place of the alias. -/
def Rewrites (path : Name) (rewrite : CurrentUserRewrite) : Prop :=
  isReservedCurrentUserName (leadingComponent path) = true ∧ rewrite ≠ .literal

/-- What the components of a walk are: those of the path, or those of the rewritten path. -/
theorem pathComponents_cases (h : pathComponents limits path rewrite = .ok components) :
    PathLike limits path ∧
      (¬ Rewrites path rewrite ∧ components = path.splitOnP isSeparator ∨
        Rewrites path rewrite ∧ ∃ sid, KeyLike limits sid ∧
          5 + 1 + utf8Len sid + (utf8Len path - utf8Len (leadingComponent path)) ≤
            limits.maxTotalPathLength ∧
          components = usersHiveName :: sid :: (path.splitOnP isSeparator).tail) := by
  obtain ⟨summary, hsummary, h⟩ := of_bind h
  refine ⟨(validateRegistryPathStr_eq_ok.mp hsummary).1, ?_⟩
  cases hreserved : isReservedCurrentUserName (leadingComponent path) with
  | false =>
    rw [hreserved] at h
    exact .inl ⟨by simp [Rewrites, hreserved], (Except.ok.inj h).symm⟩
  | true =>
    rw [hreserved] at h
    cases rewrite with
    | literal => exact .inl ⟨by simp [Rewrites], (Except.ok.inj h).symm⟩
    | initialCallerPath sid =>
      obtain ⟨checked, hsid, h⟩ := of_bind h
      obtain ⟨_, hlen, h'⟩ := of_bind h
      obtain ⟨rfl, hkey⟩ := validateKeyLikeName_eq_ok.mp hsid
      obtain ⟨hfits, -⟩ := of_guard hlen
      exact .inr ⟨⟨hreserved, nofun⟩, checked, hkey, Nat.not_lt.mp hfits, (Except.ok.inj h').symm⟩

/-- **The rewritten path** can fail only for its depth. -/
theorem componentsLike_rewritten (hpath : PathLike limits path)
    (hreserved : isReservedCurrentUserName (leadingComponent path) = true) {sid : Name}
    (hsid : KeyLike limits sid)
    (hfits : 5 + 1 + utf8Len sid + (utf8Len path - utf8Len (leadingComponent path)) ≤
      limits.maxTotalPathLength) :
    ComponentsLike limits (usersHiveName :: sid :: (path.splitOnP isSeparator).tail) ↔
      (path.splitOnP isSeparator).length < limits.maxKeyDepth := by
  obtain ⟨hnull, -, heach, -⟩ := pathLike_iff.mp hpath
  have hsum := utf8Len_eq_sum path
  rw [splitOnP_cons_eq path] at hnull heach hsum ⊢
  rw [forall_mem_cons] at hnull heach
  rw [map_cons, sum_cons] at hsum
  have husers : ComponentLike limits usersHiveName :=
    ⟨by decide, (utf8Len_usersHiveName_le hreserved).trans heach.1.2⟩
  have hfive : utf8Len usersHiveName = 5 := by decide
  rw [tail_cons]
  constructor
  · rintro ⟨-, -, -, hdepth⟩
    exact hdepth
  · intro hdepth
    refine ⟨?_, ?_, ?_, hdepth⟩
    · have hsidNull : '\x00' ∉ sid := by simpa using hsid.1
      exact forall_mem_cons.mpr ⟨by decide, forall_mem_cons.mpr ⟨hsidNull, hnull.2⟩⟩
    · simp only [map_cons, sum_cons]
      omega
    · exact forall_mem_cons.mpr ⟨husers, forall_mem_cons.mpr ⟨⟨hsid.2.1, hsid.2.2.1⟩, heach.2⟩⟩

end

/-! ## Walks -/

section

variable {σ : Type}

/-- The callback, with the components it was given. -/
def recorded (emit : σ → Name → LcsResult σ) (state : σ × List Name) (component : Name) :
    LcsResult (σ × List Name) := do
  let s ← emit state.1 component
  .ok (s, state.2 ++ [component])

theorem foldlM_recorded (emit : σ → Name → LcsResult σ) (components seen : List Name) (s : σ) :
    components.foldlM (recorded emit) (s, seen) = (do
      let s ← components.foldlM emit s
      .ok (s, seen ++ components)) := by
  induction components generalizing s seen with
  | nil => simp
  | cons component rest ih =>
    simp only [foldlM_cons, recorded, ih]
    simp

/-- The components a walk has given make a path again, of as many components, and the first is
not the alias where the walk was to rewrite it. -/
structure Rejoins (limits : LcsLimits) (rewrite : CurrentUserRewrite) (count : ℕ)
    (components : List Name) : Prop where
  accepted : ∃ summary, validateRegistryPathStr (joinPath components) limits = .ok summary ∧
    summary.componentCount = count
  noAlias : rewrite ≠ .literal → ∀ first ∈ components.head?, isReservedCurrentUserName first = false

theorem rejoins_iff {limits : LcsLimits} {path : Name} {rewrite : CurrentUserRewrite}
    {components : List Name} (h : pathComponents limits path rewrite = .ok components) :
    Rejoins limits rewrite components.length components ↔
      ¬ (Rewrites path rewrite ∧ (path.splitOnP isSeparator).length = limits.maxKeyDepth) := by
  obtain ⟨hpath, ⟨hno, rfl⟩ | ⟨hyes, sid, hsid, hfits, rfl⟩⟩ := pathComponents_cases h
  · -- the components of a path that passed
    have haccepted := (validateRegistryPathStr_joinPath (splitOnP_ne_nil _ path)
      (no_separator_of_mem_splitOnP path)).mpr (pathLike_iff.mp hpath)
    refine iff_of_true ⟨haccepted, fun hgiven first hfirst => ?_⟩ fun hdeep => hno hdeep.1
    rw [head?_splitOnP, Option.mem_some_iff] at hfirst
    subst hfirst
    rw [← Bool.not_eq_true]
    exact fun halias => hno ⟨halias, hgiven⟩
  · have hsep : ∀ c ∈ usersHiveName :: sid :: (path.splitOnP isSeparator).tail,
        c.any isSeparator = false :=
      forall_mem_cons.mpr ⟨by decide, forall_mem_cons.mpr ⟨hsid.2.2.2, fun c hc =>
        no_separator_of_mem_splitOnP path c (mem_of_mem_tail hc)⟩⟩
    have haccepted := @validateRegistryPathStr_joinPath limits _ (cons_ne_nil _ _) hsep
    rw [componentsLike_rewritten hpath hyes.1 hsid hfits] at haccepted
    have hdepth := hpath.depth
    constructor
    · rintro ⟨hjoined, -⟩ ⟨-, hdeep⟩
      exact absurd (haccepted.mp hjoined) (by omega)
    · intro hshallow
      refine ⟨haccepted.mpr ?_, fun _ first hfirst => ?_⟩
      · have : (path.splitOnP isSeparator).length ≠ limits.maxKeyDepth := fun hdeep =>
          hshallow ⟨hyes, hdeep⟩
        omega
      · rw [head?_cons, Option.mem_some_iff] at hfirst
        subst hfirst
        decide +kernel

/-- **Rewriting keeps paths valid up to their depth.** What a walk that succeeds has given its
callback makes a path again that passes under the same limits, unless the alias is rewritten in a
path that already has as many components as a path may. -/
theorem walk_rejoins_iff (limits : LcsLimits) (path : Name) (rewrite : CurrentUserRewrite)
    (emit : σ → Name → LcsResult σ) (s : σ) :
    (∀ count s' components, forEachRoutablePathComponent limits path rewrite (recorded emit)
        (s, []) = .ok (count, s', components) → Rejoins limits rewrite count components) ↔
      ¬ ((forEachRoutablePathComponent limits path rewrite emit s).isOk = true ∧
        Rewrites path rewrite ∧ (path.splitOnP isSeparator).length = limits.maxKeyDepth) := by
  simp only [forEachRoutablePathComponent_eq, foldlM_recorded, bind_assoc, nil_append]
  constructor
  · rintro h ⟨hok, hdeep⟩
    obtain ⟨⟨count, last⟩, hwalk⟩ := exists_of_isOk hok
    obtain ⟨components, hcomponents, hwalk⟩ := of_bind hwalk
    obtain ⟨last, hfold, -⟩ := of_bind hwalk
    rw [hcomponents, ok_bind, hfold] at h
    exact (rejoins_iff hcomponents).mp (h _ _ _ rfl) hdeep
  · intro h count s' components hwalk
    obtain ⟨emitted, hcomponents, hwalk⟩ := of_bind hwalk
    obtain ⟨last, hfold, hwalk⟩ := of_bind hwalk
    obtain ⟨rfl, rfl, rfl⟩ : emitted.length = count ∧ last = s' ∧ emitted = components := by
      simpa using hwalk
    refine (rejoins_iff hcomponents).mpr fun hdeep => h ⟨?_, hdeep⟩
    rw [hcomponents, ok_bind, hfold]
    rfl

end

/-- At the smallest depth the limits allow, the alias with 31 keys below it is walked as 33
components, and the path of these is refused. -/
theorem rewritten_too_deep :
    forEachRoutablePathComponent { LcsLimits.default with maxKeyDepth := 32 }
        ("CurrentUser".toList ++ (List.replicate 31 "\\k".toList).flatten)
        (.initialCallerPath "S-1-5-18".toList) (recorded fun (_ : Unit) _ => .ok ()) ((), []) =
      .ok (33, (), "Users".toList :: "S-1-5-18".toList :: List.replicate 31 "k".toList) ∧
    validateRegistryPathStr
        (joinPath ("Users".toList :: "S-1-5-18".toList :: List.replicate 31 "k".toList))
        { LcsLimits.default with maxKeyDepth := 32 } = .error (.keyDepthExceeded 33 32) := by
  decide +kernel

end Pkm.Lcs
