import Pkm.Lcs.Model.Hives
/-!
# What the check of a path says

A path passes when its components do, there are not too many of them and the whole
is not too long. The components are those the path has between its separators; the
walk over a path gives them to the callback one after the other.
-/

namespace Pkm.Lcs

open List Outcome

variable {component name rest : Name}

/-! ## Components -/

/-- The path up to its first separator. -/
def leadingComponent (path : Name) : Name := path.takeWhile fun c => !isSeparator c

theorem head?_splitOnP (path : Name) :
    (path.splitOnP isSeparator).head? = some (leadingComponent path) := by
  induction path with
  | nil => rfl
  | cons c rest ih =>
    rw [splitOnP_cons_eq_if_modifyHead, leadingComponent]
    cases hc : isSeparator c with
    | true => simp [hc]
    | false =>
      rw [leadingComponent] at ih
      simp [hc, ih]

theorem splitOnP_of_no_separator (h : name.any isSeparator = false) :
    name.splitOnP isSeparator = [name] :=
  splitOnP_eq_singleton fun c hc => by simpa using any_eq_false.mp h c hc

/-- Path and components, from the front. -/
theorem splitOnP_cons_eq (path : Name) :
    path.splitOnP isSeparator = leadingComponent path :: (path.splitOnP isSeparator).tail := by
  obtain ⟨tail, htail⟩ := head?_eq_some_iff.mp (head?_splitOnP path)
  rw [htail, tail_cons]

/-- The components still to come, when `component` was gathered before `rest`. -/
def openComponents (component rest : Name) : List Name :=
  (rest.splitOnP isSeparator).modifyHead (component ++ ·)

theorem openComponents_nil (rest : Name) : openComponents [] rest = rest.splitOnP isSeparator := by
  rw [openComponents, splitOnP_cons_eq]
  rfl

variable {c : Char}

theorem openComponents_separator (hc : isSeparator c = true) :
    openComponents component (c :: rest) = component :: rest.splitOnP isSeparator := by
  rw [openComponents, splitOnP_cons_eq_if_modifyHead, if_pos hc]
  simp

theorem openComponents_char (hc : isSeparator c = false) :
    openComponents component (c :: rest) = openComponents (component ++ [c]) rest := by
  rw [openComponents, openComponents, splitOnP_cons_eq_if_modifyHead, if_neg (by simp [hc]),
    splitOnP_cons_eq]
  simp

/-- Induction over the components of a path. -/
theorem components_induction {motive : Name → List Name → Prop}
    (one : ∀ name, name.any isSeparator = false → motive name [name])
    (more : ∀ name sep rest components, name.any isSeparator = false → isSeparator sep = true →
      motive rest components → motive (name ++ sep :: rest) (name :: components)) (path : Name) :
    motive path (path.splitOnP isSeparator) := by
  suffices h : ∀ rest component : Name, component.any isSeparator = false →
      motive (component ++ rest) (openComponents component rest) by
    simpa [openComponents_nil] using h path [] rfl
  intro rest
  induction rest with
  | nil =>
    intro component hcomponent
    simpa [openComponents] using one component hcomponent
  | cons c rest ih =>
    intro component hcomponent
    cases hc : isSeparator c with
    | true =>
      rw [openComponents_separator hc]
      exact more _ _ _ _ hcomponent hc (by simpa [openComponents_nil] using ih [] rfl)
    | false =>
      rw [openComponents_char hc]
      simpa using ih (component ++ [c]) (by simp [hcomponent, hc])

theorem utf8Len_append (a b : Name) : utf8Len (a ++ b) = utf8Len a + utf8Len b := by
  simp [utf8Len]

theorem utf8Len_eq_zero : utf8Len name = 0 ↔ name = [] := by
  cases name with
  | nil => simp [utf8Len]
  | cons c rest =>
    have := Char.utf8Size_pos c
    simp [utf8Len]
    omega

variable {limits : LcsLimits} {summary : PathSummary}

/-- What a component that ends well must be, and what is left of the check. -/
theorem closeComponent_eq_ok_iff {scan closed : PathScan} {e : LcsError} :
    scan.closeComponent limits e = .ok closed ↔
      scan.componentLen ≠ 0 ∧ scan.componentLen ≤ limits.maxPathComponentLength ∧
        scan.componentCount + 1 ≤ limits.maxKeyDepth ∧
        closed = ⟨[], 0, scan.componentCount + 1,
          some (scan.firstComponent.getD scan.component)⟩ := by
  unfold PathScan.closeComponent
  rw [ite_error_eq_ok]
  refine and_congr_right fun _ => ?_
  rw [bind_eq_ok]
  constructor
  · rintro ⟨u, hlen, h⟩
    obtain ⟨hdepth, h⟩ := of_guard h
    exact ⟨validateComponentLen_eq_ok.mp hlen, Nat.not_lt.mp hdepth, (Except.ok.inj h).symm⟩
  · rintro ⟨hlen, hdepth, rfl⟩
    exact ⟨(), validateComponentLen_eq_ok.mpr hlen, if_neg (Nat.not_lt.mpr hdepth)⟩

/-- What a component of a path may be. -/
def ComponentLike (limits : LcsLimits) (name : Name) : Prop :=
  name ≠ [] ∧ utf8Len name ≤ limits.maxPathComponentLength

/-- The check of a path once all characters are read. -/
def PathScan.finish (limits : LcsLimits) (scan : PathScan) : LcsResult PathSummary := do
  let closed ← scan.closeComponent limits .trailingPathSeparator
  .ok ⟨closed.componentCount, closed.firstComponent.getD scan.component, scan.component⟩

/-- What the check finds in components it has yet to close. -/
def summaryOf (n : ℕ) (first : Option Name) (components : List Name) : PathSummary :=
  ⟨n + components.length, first.getD (components.headD []), components.getLastD []⟩

/-- **The rest of the check**, from any place in a path. -/
theorem foldlM_step_eq_ok (limits : LcsLimits) (rest component : Name) (n : ℕ)
    (first : Option Name) (summary : PathSummary) :
    (rest.foldlM (PathScan.step limits) ⟨component, utf8Len component, n, first⟩ >>=
        PathScan.finish limits) = .ok summary ↔
      (∀ c ∈ openComponents component rest, ComponentLike limits c) ∧
        n + (openComponents component rest).length ≤ limits.maxKeyDepth ∧
        summary = summaryOf n first (openComponents component rest) := by
  induction rest generalizing component n first with
  | nil =>
    rw [foldlM_nil, pure_eq_ok, ok_bind, PathScan.finish, bind_eq_ok]
    simp only [closeComponent_eq_ok_iff, ne_eq, utf8Len_eq_zero]
    simp only [openComponents, splitOnP_nil, modifyHead_cons, append_nil,
      forall_mem_singleton, ComponentLike]
    constructor
    · rintro ⟨closed, ⟨hne, hlen, hdepth, rfl⟩, h⟩
      exact ⟨⟨hne, hlen⟩, hdepth, (Except.ok.inj h).symm⟩
    · rintro ⟨⟨hne, hlen⟩, hdepth, rfl⟩
      exact ⟨_, ⟨hne, hlen, hdepth, rfl⟩, rfl⟩
  | cons c rest ih =>
    rw [foldlM_cons, PathScan.step, bind_assoc]
    cases hc : isSeparator c with
    | true =>
      -- the component ends here, and the rest starts with an empty one
      rw [if_pos rfl, bind_eq_ok, openComponents_separator hc, ← openComponents_nil]
      simp only [closeComponent_eq_ok_iff, ne_eq, utf8Len_eq_zero, forall_mem_cons, length_cons]
      have hsummary : summaryOf (n + 1) (some (first.getD component)) (openComponents [] rest) =
          summaryOf n first (component :: openComponents [] rest) := by
        rw [openComponents_nil, splitOnP_cons_eq]
        simp only [summaryOf, length_cons, getLastD_cons]
        congr 1
        omega
      constructor
      · rintro ⟨closed, ⟨hne, hlen, -, rfl⟩, h⟩
        obtain ⟨hall, hdepth, rfl⟩ := (ih _ _ _).mp h
        exact ⟨⟨⟨hne, hlen⟩, hall⟩, by omega, hsummary⟩
      · rintro ⟨⟨⟨hne, hlen⟩, hall⟩, hdepth, rfl⟩
        exact ⟨_, ⟨hne, hlen, by omega, rfl⟩, (ih _ _ _).mpr ⟨hall, by omega, hsummary.symm⟩⟩
    | false =>
      have hlen : utf8Len (component ++ [c]) = utf8Len component + c.utf8Size := by
        simp [utf8Len]
      rw [if_neg Bool.false_ne_true, ok_bind, openComponents_char hc, ← hlen, ih]

/-- What a path may be. -/
structure PathLike (limits : LcsLimits) (path : Name) : Prop where
  null : path.contains '\x00' = false
  total : utf8Len path ≤ limits.maxTotalPathLength
  components : ∀ c ∈ path.splitOnP isSeparator, ComponentLike limits c
  depth : (path.splitOnP isSeparator).length ≤ limits.maxKeyDepth

variable {path : Name} {σ : Type}

/-- **The check of a path** passes exactly what a path may be, and reports its components. -/
theorem validateRegistryPathStr_eq_ok :
    validateRegistryPathStr path limits = .ok summary ↔
      PathLike limits path ∧ summary = ⟨(path.splitOnP isSeparator).length,
        leadingComponent path, (path.splitOnP isSeparator).getLastD []⟩ := by
  have hsummary : summaryOf 0 none (path.splitOnP isSeparator) =
      ⟨(path.splitOnP isSeparator).length, leadingComponent path,
        (path.splitOnP isSeparator).getLastD []⟩ := by
    rw [summaryOf, Nat.zero_add, headD_eq_head?_getD, head?_splitOnP]
    rfl
  have hscan := foldlM_step_eq_ok limits path [] 0 none summary
  rw [openComponents_nil, hsummary, Nat.zero_add] at hscan
  unfold validateRegistryPathStr
  rw [ite_error_eq_ok, ite_error_eq_ok, ite_error_eq_ok]
  constructor
  · rintro ⟨-, hnull, htotal, h⟩
    obtain ⟨hall, hdepth, rfl⟩ := hscan.mp h
    exact ⟨⟨Bool.eq_false_iff.mpr hnull, Nat.not_lt.mp htotal, hall, hdepth⟩, rfl⟩
  · rintro ⟨⟨hnull, htotal, hall, hdepth⟩, rfl⟩
    refine ⟨?_, Bool.eq_false_iff.mp hnull, Nat.not_lt.mpr htotal, hscan.mpr ⟨hall, hdepth, rfl⟩⟩
    intro hempty
    rw [List.isEmpty_iff.mp hempty] at hall
    exact (hall [] (by simp)).1 rfl

theorem validateRegistryPathStr_first (h : validateRegistryPathStr path limits = .ok summary) :
    summary.firstComponent = leadingComponent path := by
  rw [(validateRegistryPathStr_eq_ok.mp h).2]

/-! ## The walk over a path -/

/-- What a path is walked by: its components, with the alias for the caller's hive rewritten. -/
def pathComponents (limits : LcsLimits) (path : Name) (rewrite : CurrentUserRewrite) :
    LcsResult (List Name) := do
  let _ ← validateRegistryPathStr path limits
  match isReservedCurrentUserName (leadingComponent path), rewrite with
  | true, .initialCallerPath userSidComponent => do
    let userSidComponent ← validateKeyComponentBytes userSidComponent limits
    validateRewrittenCurrentUserLen path (leadingComponent path) userSidComponent limits
    .ok (usersHiveName :: userSidComponent :: (path.splitOnP isSeparator).tail)
  | _, _ => .ok (path.splitOnP isSeparator)

theorem foldlM_counted (emit : σ → Name → LcsResult σ) (components : List Name) (n : ℕ) (s : σ) :
    components.foldlM (counted emit) (n, s) = (do
      let s ← components.foldlM emit s
      .ok (n + components.length, s)) := by
  induction components generalizing n s with
  | nil => rfl
  | cons component rest ih =>
    simp only [foldlM_cons, counted, bind_assoc, ok_bind, ih, length_cons]
    simp only [Nat.add_comm, Nat.add_left_comm]

/-- **The walk over a path** gives the callback its components. -/
theorem forEachRoutablePathComponent_eq (path : Name) (rewrite : CurrentUserRewrite)
    (emit : σ → Name → LcsResult σ) (s : σ) :
    forEachRoutablePathComponent limits path rewrite emit s = (do
      let components ← pathComponents limits path rewrite
      let s ← components.foldlM emit s
      .ok (components.length, s)) := by
  unfold pathComponents
  simp only [bind_assoc]
  refine Outcome.bind_congr fun summary hsummary => ?_
  rw [validateRegistryPathStr_first hsummary]
  have hplain := foldlM_counted emit (path.splitOnP isSeparator) 0 s
  rw [Nat.zero_add] at hplain
  cases isReservedCurrentUserName (leadingComponent path) with
  | false => exact hplain
  | true =>
    cases rewrite with
    | literal => exact hplain
    | initialCallerPath userSidComponent =>
      simp only [bind_assoc]
      refine Outcome.bind_congr fun component _ => Outcome.bind_congr fun _ _ => ?_
      have hrewritten := foldlM_counted emit
        (usersHiveName :: component :: (path.splitOnP isSeparator).tail) 0 s
      rw [Nat.zero_add, foldlM_cons] at hrewritten
      exact hrewritten

end Pkm.Lcs
