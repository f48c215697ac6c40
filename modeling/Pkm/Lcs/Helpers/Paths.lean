import Pkm.Lcs.Model.Open
import Pkm.Lcs.Routing
/-!
# Paths and their last component

What the check of a path says of the path without its last component: that passes
too, has the same first component, and its components are the others.
-/

namespace Pkm.Lcs

open List Outcome

/-! ## Splitting at the last separator -/

/-- The path without its last component. The alias for the caller's hive is a path of two
components, the first of which is the hive of users. -/
def pathWithoutLast (path : Name) : Name :=
  if path.any isSeparator then (path.rdropWhile fun c => !isSeparator c).dropLast
  else usersHiveName

theorem exists_last {path : Name} (h : path.any isSeparator = true) :
    ∃ sep last, isSeparator sep = true ∧ last.any isSeparator = false ∧
      path = pathWithoutLast path ++ sep :: last := by
  have hne : (path.rdropWhile fun c => !isSeparator c) ≠ [] := by
    intro hnil
    obtain ⟨c, hc, hsep⟩ := any_eq_true.mp h
    simpa [hsep] using rdropWhile_eq_nil_iff.mp hnil c hc
  have hlast := rdropWhile_last_not _ _ hne
  refine ⟨_, path.rtakeWhile fun c => !isSeparator c, by simpa using hlast, ?_, ?_⟩
  · rw [any_eq_false]
    intro c hc
    simpa using mem_rtakeWhile_imp hc
  · rw [pathWithoutLast, if_pos h, ← singleton_append, ← append_assoc,
      dropLast_append_getLast hne, rdropWhile_append_rtakeWhile]

/-- The components are those before the last separator and the one after it. -/
theorem splitOnP_append_separator (before : Name) {sep : Char} {last : Name}
    (hsep : isSeparator sep = true) (hlast : last.any isSeparator = false) :
    (before ++ sep :: last).splitOnP isSeparator = before.splitOnP isSeparator ++ [last] := by
  rw [splitOnP_append_cons before last hsep, splitOnP_of_no_separator hlast]

/-! ## The check of a path -/

variable {limits : LcsLimits} {rewrite : CurrentUserRewrite} {components : List Name}
  {before last name path : Name}

theorem leadingComponent_of_no_separator (h : name.any isSeparator = false) :
    leadingComponent name = name := by
  refine takeWhile_eq_self_iff.mpr fun c hc => ?_
  simpa using any_eq_false.mp h c hc

/-- **One component** is a path. -/
theorem validateRegistryPathStr_of_keyLike (hr : limits.InRange) (h : KeyLike limits name) :
    validateRegistryPathStr name limits = .ok ⟨1, name, name⟩ := by
  obtain ⟨hnull, hne, hlen, hsep⟩ := h
  have hsplit := splitOnP_of_no_separator hsep
  have hpath := hr.componentLength.2
  have htotal := hr.pathLength.1
  have hdepth := hr.keyDepth.1
  refine validateRegistryPathStr_eq_ok.mpr ⟨⟨hnull, by omega, ?_, ?_⟩, ?_⟩
  · rw [hsplit]
    simpa [ComponentLike] using ⟨hne, hlen⟩
  · rw [hsplit, length_singleton]
    omega
  · rw [hsplit, leadingComponent_of_no_separator hsep]
    rfl

variable {sep : Char}

/-- **A path without its last component** passes the check as well, and has one component less. -/
theorem validateRegistryPathStr_before {summary : PathSummary} (hsep : isSeparator sep = true)
    (hlast : last.any isSeparator = false)
    (h : validateRegistryPathStr (before ++ sep :: last) limits = .ok summary) :
    ∃ shorter, validateRegistryPathStr before limits = .ok shorter ∧
      shorter.componentCount + 1 = summary.componentCount := by
  obtain ⟨⟨hnull, htotal, hall, hdepth⟩, rfl⟩ := validateRegistryPathStr_eq_ok.mp h
  rw [splitOnP_append_separator before hsep hlast] at hall hdepth ⊢
  rw [length_append] at hdepth ⊢
  rw [utf8Len_append] at htotal
  refine ⟨_, validateRegistryPathStr_eq_ok.mpr ⟨⟨?_, by omega, ?_, by omega⟩, rfl⟩, rfl⟩
  · rw [contains_append, Bool.or_eq_false_iff] at hnull
    exact hnull.1
  · exact fun c hc => hall c (mem_append_left _ hc)

theorem leadingComponent_before (hsep : isSeparator sep = true) :
    leadingComponent (before ++ sep :: last) = leadingComponent before := by
  unfold leadingComponent
  rw [takeWhile_append]
  split
  · rename_i hlen
    have hself := List.IsPrefix.eq_of_length ( takeWhile_prefix _) hlen
    simp [hsep, hself]
  · rfl

/-! ## The components of a path -/

theorem foldlM_keepComponent (components kept : List Name) :
    components.foldlM keepComponent kept = .ok (kept ++ components) := by
  induction components generalizing kept with
  | nil => simp
  | cons component rest ih =>
    rw [foldlM_cons, keepComponent, ok_bind, ih, append_assoc]
    rfl

theorem pathComponents_ne_nil (h : pathComponents limits path rewrite = .ok components) :
    components ≠ [] := by
  obtain ⟨_, -, h⟩ := of_bind h
  split at h
  · obtain ⟨_, -, h⟩ := of_bind h
    obtain ⟨_, -, h⟩ := of_bind h
    rw [← Except.ok.inj h]
    exact cons_ne_nil _ _
  · rw [← Except.ok.inj h]
    exact splitOnP_ne_nil _ path

theorem materializeAbsolutePathComponents_eq_ok :
    materializeAbsolutePathComponents limits path rewrite = .ok components ↔
      pathComponents limits path rewrite = .ok components := by
  unfold materializeAbsolutePathComponents
  simp only [forEachRoutablePathComponent_eq, foldlM_keepComponent, nil_append]
  rcases h : pathComponents limits path rewrite with e | found
  · simp [Except.mapError]
  · have hne := pathComponents_ne_nil h
    simp [Except.mapError, hne]

theorem pathComponents_of_hiveLike (hr : limits.InRange) (h : HiveLike limits name)
    (rewrite : CurrentUserRewrite) : pathComponents limits name rewrite = .ok [name] := by
  obtain ⟨hkey, hreserved⟩ := h
  have hsep := hkey.2.2.2
  unfold pathComponents
  rw [validateRegistryPathStr_of_keyLike hr hkey, ok_bind,
    leadingComponent_of_no_separator hsep, hreserved, splitOnP_of_no_separator hsep]

theorem hiveLike_usersHiveName (hr : limits.InRange) : HiveLike limits usersHiveName := by
  have hlen : utf8Len usersHiveName ≤ 64 := by decide
  exact ⟨⟨by decide, by decide, hlen.trans hr.componentLength.1, by decide⟩, by decide +kernel⟩

/-- **The components of a path without its last one** are the others. -/
theorem pathComponents_withoutLast (hr : limits.InRange)
    (h : pathComponents limits path rewrite = .ok components) (htwo : 2 ≤ components.length) :
    pathComponents limits (pathWithoutLast path) rewrite = .ok components.dropLast := by
  obtain ⟨summary, hsummary, h⟩ := of_bind h
  by_cases hany : path.any isSeparator = true
  · obtain ⟨sep, last, hsep, hlast, hpath⟩ := exists_last hany
    generalize hbefore : pathWithoutLast path = before at hpath
    subst hpath
    obtain ⟨shorter, hshorter, -⟩ := validateRegistryPathStr_before hsep hlast hsummary
    rw [leadingComponent_before hsep, splitOnP_append_separator before hsep hlast] at h
    unfold pathComponents
    rw [hshorter, ok_bind]
    cases hreserved : isReservedCurrentUserName (leadingComponent before) with
    | false =>
      rw [hreserved] at h
      cases h
      rw [dropLast_concat]
    | true =>
      rw [hreserved] at h
      cases rewrite with
      | literal =>
        cases h
        rw [dropLast_concat]
      | initialCallerPath userSidComponent =>
        obtain ⟨component, hcomponent, h⟩ := of_bind h
        obtain ⟨_, hlen, h⟩ := of_bind h
        cases h
        have hlen' : validateRewrittenCurrentUserLen before (leadingComponent before) component
            limits = .ok () := by
          unfold validateRewrittenCurrentUserLen at hlen ⊢
          rw [ite_error_eq_ok, utf8Len_append] at hlen
          exact if_neg (by omega)
        obtain ⟨first, others, hsplit⟩ := exists_cons_of_ne_nil (splitOnP_ne_nil isSeparator before)
        simp only [hcomponent, ok_bind, hlen', hsplit, cons_append, tail_cons]
        rw [dropLast_cons_of_ne_nil (cons_ne_nil _ _),
          dropLast_cons_of_ne_nil (by simp), dropLast_concat]
  · rw [Bool.not_eq_true] at hany
    have hwithout : pathWithoutLast path = usersHiveName := by
      rw [pathWithoutLast, hany, if_neg Bool.false_ne_true]
    rw [hwithout, pathComponents_of_hiveLike hr (hiveLike_usersHiveName hr)]
    rw [splitOnP_of_no_separator hany] at h
    split at h
    · obtain ⟨component, -, h⟩ := of_bind h
      obtain ⟨_, -, h⟩ := of_bind h
      cases h
      rfl
    · cases h
      simp at htwo

end Pkm.Lcs
