import Pkm.Lcs.Helpers.PathCheck
/-!
# Which hive a name means

In a table that passes its check a scope has at most one hive of a name, so the
first match of a search is the only one. What a caller reaches by a name is then
decided by the hives of the caller's own scopes and the global ones: the order of
the table and the hives of other scopes do not matter.
-/

namespace Pkm.Lcs

open List Outcome

/-! ## The table -/

/-- Hives of different names, or of different scopes. -/
def HiveView.Apart (a b : HiveView) : Prop :=
  ¬ (foldName a.name = foldName b.name ∧ a.scope = b.scope)

theorem sameHiveScope_iff {a b : HiveScope} : sameHiveScope a b = true ↔ a = b := by
  cases a <;> cases b <;> simp [sameHiveScope]

section

variable {limits : LcsLimits} {hives hives' : List HiveView} {scope : HiveScope} {hive : HiveView}
  {scopes : List Guid} {name : Name}

theorem validateHive_eq_ok {previous : List HiveView} {u v : Unit}
    (h : ∀ b ∈ previous, HiveLike limits b.name) :
    validateHive limits previous u hive = .ok v ↔
      HiveLike limits hive.name ∧ (∀ b ∈ previous, b.Apart hive) ∧ v = u := by
  have hseen : HiveLike limits hive.name → hiveSeenBefore limits previous hive =
      .ok (previous.any fun b =>
        casefoldEq b.name hive.name && sameHiveScope b.scope hive.scope) := by
    intro hlike
    unfold hiveSeenBefore
    rw [validateRegisteredHiveName, validateHiveNameBytes_of_hiveLike hlike]
    refine Scan.anyM_eq_ok fun b hb => ?_
    rw [validateRegisteredHiveName, validateHiveNameBytes_of_hiveLike (h b hb)]
    rfl
  have hnone : (previous.any fun b =>
      casefoldEq b.name hive.name && sameHiveScope b.scope hive.scope) = false ↔
      ∀ b ∈ previous, b.Apart hive := by
    rw [any_eq_false]
    refine forall₂_congr fun b _ => ?_
    rw [Bool.and_eq_true, casefoldEq_iff, sameHiveScope_iff]
    rfl
  unfold validateHive
  constructor
  · intro hok
    obtain ⟨name, hname, hok⟩ := of_bind hok
    obtain ⟨rfl, hlike⟩ := validateHiveNameBytes_eq_ok.mp hname
    rw [hseen hlike, ok_bind, ite_error_eq_ok, Bool.not_eq_true] at hok
    exact ⟨hlike, hnone.mp hok.1, rfl⟩
  · rintro ⟨hlike, hapart, -⟩
    rw [validateRegisteredHiveName, validateHiveNameBytes_of_hiveLike hlike, ok_bind,
      hseen hlike, ok_bind, hnone.mpr hapart, if_neg Bool.false_ne_true]

/-- **A table passes the check** exactly when its names are hive names and no two hives of a
scope share one. -/
theorem validateHiveTable_eq_ok :
    validateHiveTable limits hives = .ok () ↔
      (∀ hive ∈ hives, HiveLike limits hive.name) ∧ hives.Pairwise HiveView.Apart := by
  have h := Scan.foldAfter_nil_eq_ok_iff () () hives (V := fun hive : HiveView =>
    HiveLike limits hive.name) (g := fun u _ => u)
    (fun _ _ _ _ h => validateHive_eq_ok h)
  rw [validateHiveTable, h]
  simp

/-- The order of the table does not matter to the check. -/
theorem validateHiveTable_perm (hp : hives.Perm hives')
    (h : validateHiveTable limits hives = .ok ()) : validateHiveTable limits hives' = .ok () := by
  obtain ⟨hnames, hapart⟩ := validateHiveTable_eq_ok.mp h
  refine validateHiveTable_eq_ok.mpr ⟨fun hive hm => hnames hive (hp.mem_iff.mpr hm), ?_⟩
  exact (hp.pairwise_iff fun hab hba => hab ⟨hba.1.symm, hba.2.symm⟩).mp hapart

/-! ## Searching the table -/

/-- The hive of a scope that a name means. -/
def Matches (hives : List HiveView) (scope : HiveScope) (name : Name) (hive : HiveView) : Prop :=
  hive ∈ hives ∧ hive.scope = scope ∧ foldName hive.name = foldName name

/-- The search of one scope, which both searches of the table are. -/
def findHive (hives : List HiveView) (name : Name) (scope : HiveScope) : Option HiveView :=
  hives.find? fun hive => decide (hive.scope = scope) && casefoldEq hive.name name

section

variable (h : validateHiveTable limits hives = .ok ())

include h

theorem Matches.unique {a b : HiveView}
    (ha : Matches hives scope name a) (hb : Matches hives scope name b) : a = b := by
  obtain ⟨-, hapart⟩ := validateHiveTable_eq_ok.mp h
  have : Std.Symm HiveView.Apart := ⟨fun _ _ hab hba => hab ⟨hba.1.symm, hba.2.symm⟩⟩
  by_contra hne
  exact hapart.forall ha.1 hb.1 hne ⟨ha.2.2.trans hb.2.2.symm, ha.2.1.trans hb.2.1.symm⟩

/-- **The first match is the only one.** -/
theorem findHive_eq_some :
    findHive hives name scope = some hive ↔ Matches hives scope name hive := by
  have hfound : ∀ {found}, findHive hives name scope = some found →
      Matches hives scope name found := by
    intro found hf
    have hp := find?_some hf
    rw [Bool.and_eq_true, decide_eq_true_iff, casefoldEq_iff] at hp
    exact ⟨mem_of_find?_eq_some hf, hp.1, hp.2⟩
  refine ⟨hfound, fun hm => ?_⟩
  rcases hf : findHive hives name scope with _ | found
  · have hnone := find?_eq_none.mp hf hive hm.1
    simp [hm.2.1, casefoldEq_iff.mpr hm.2.2] at hnone
  · rw [(hfound hf).unique h hm]

theorem findHive_eq_none :
    findHive hives name scope = none ↔ ∀ hive, ¬ Matches hives scope name hive := by
  rw [Option.eq_none_iff_forall_ne_some]
  exact forall_congr' fun hive => not_congr (findHive_eq_some h)

end

/-! ## Routing -/

/-- The routes of a name, over what the searches return. -/
def routeOver (find : HiveScope → Option HiveView) (scopes : List Guid) : HiveRoute :=
  match scopes.findSome? fun scope => find (.privateTo scope) with
  | some hive => routeFromHive hive
  | none =>
    match find .global with
    | some hive => routeFromHive hive
    | none => .notRegistered

theorem routeHive_eq (limits : LcsLimits) (hives : List HiveView) (name : Name)
    (scopes : List Guid) :
    routeHive limits hives name scopes = (do
      validateHiveTable limits hives
      validateScopeGuidSet limits scopes
      let name ← validateKeyComponentBytes name limits
      .ok (routeOver (findHive hives name) scopes)) := by
  refine Outcome.bind_congr fun _ _ => Outcome.bind_congr fun _ _ =>
    Outcome.bind_congr fun checked _ => ?_
  have hprivate : scopes.findSome? (findPrivateHive hives checked) =
      scopes.findSome? fun scope => findHive hives checked (.privateTo scope) := rfl
  have hglobal : findGlobalHive hives checked = findHive hives checked .global := rfl
  rw [hprivate, hglobal, routeOver]
  rcases scopes.findSome? fun scope => findHive hives checked (.privateTo scope) with _ | hive
  · rcases findHive hives checked .global with _ | hive <;> rfl
  · rfl

/-- A route is decided by the searches of the caller's scopes and of the global one. -/
theorem routeOver_congr {find find' : HiveScope → Option HiveView}
    (hprivate : ∀ scope ∈ scopes, find (.privateTo scope) = find' (.privateTo scope))
    (hglobal : find .global = find' .global) : routeOver find scopes = routeOver find' scopes := by
  have hfind : (scopes.findSome? fun scope => find (.privateTo scope)) =
      scopes.findSome? fun scope => find' (.privateTo scope) := by
    induction scopes with
    | nil => rfl
    | cons scope rest ih =>
      rw [findSome?_cons, findSome?_cons, hprivate scope mem_cons_self,
        ih (forall_mem_cons.mp hprivate).2]
  rw [routeOver, routeOver, hfind, hglobal]

/-- Whether the hive is one of the caller's. -/
def HiveView.seenBy (scopes : List Guid) (hive : HiveView) : Bool :=
  match hive.scope with
  | .global => true
  | .privateTo scope => scopes.contains scope

/-- Tables that agree on the caller's hives. -/
theorem findHive_congr (h : validateHiveTable limits hives = .ok ())
    (h' : validateHiveTable limits hives' = .ok ())
    (hsame : ∀ hive, hive.seenBy scopes = true → (hive ∈ hives ↔ hive ∈ hives'))
    (hscope : scope = .global ∨ ∃ s ∈ scopes, scope = .privateTo s) :
    findHive hives name scope = findHive hives' name scope := by
  have hseen : ∀ hive : HiveView, hive.scope = scope → hive.seenBy scopes = true := by
    intro hive hs
    unfold HiveView.seenBy
    rw [hs]
    rcases hscope with rfl | ⟨s, hmem, rfl⟩
    · rfl
    · simpa using hmem
  ext hive
  rw [findHive_eq_some h, findHive_eq_some h']
  constructor
  · exact fun hm => ⟨(hsame hive (hseen hive hm.2.1)).mp hm.1, hm.2⟩
  · exact fun hm => ⟨(hsame hive (hseen hive hm.2.1)).mpr hm.1, hm.2⟩

/-- Two tables with the caller's hives in common route alike. -/
theorem routeHive_congr (h : validateHiveTable limits hives = .ok ())
    (h' : validateHiveTable limits hives' = .ok ())
    (hsame : ∀ hive, hive.seenBy scopes = true → (hive ∈ hives ↔ hive ∈ hives')) (name : Name) :
    routeHive limits hives name scopes = routeHive limits hives' name scopes := by
  rw [routeHive_eq, routeHive_eq, h, h', ok_bind]
  refine Outcome.bind_congr fun _ _ => Outcome.bind_congr fun checked _ => ?_
  rw [routeOver_congr fun s hs => findHive_congr h h' hsame (.inr ⟨s, hs, rfl⟩)]
  exact findHive_congr h h' hsame (.inl rfl)

/-- What a name must route to: the hive of the first of the caller's scopes that has one, else
the global one, else nothing. -/
structure RoutesFirst (hives : List HiveView) (name : Name) (scopes : List Guid)
    (result : LcsResult HiveRoute) : Prop where
  ofPrivate : ∀ before scope after hive, scopes = before ++ scope :: after →
    (∀ s ∈ before, ∀ other, ¬ Matches hives (.privateTo s) name other) →
    Matches hives (.privateTo scope) name hive → result = .ok (routeFromHive hive)
  ofGlobal : ∀ hive, (∀ s ∈ scopes, ∀ other, ¬ Matches hives (.privateTo s) name other) →
    Matches hives .global name hive → result = .ok (routeFromHive hive)
  otherwise : (∀ s ∈ scopes, ∀ other, ¬ Matches hives (.privateTo s) name other) →
    (∀ other, ¬ Matches hives .global name other) → result = .ok .notRegistered

theorem routesFirst_routeOver (h : validateHiveTable limits hives = .ok ()) (name : Name)
    (scopes : List Guid) :
    RoutesFirst hives name scopes (.ok (routeOver (findHive hives name) scopes)) := by
  have hnone : ∀ {l : List Guid}, (∀ s ∈ l, ∀ other, ¬ Matches hives (.privateTo s) name other) →
      (l.findSome? fun scope => findHive hives name (.privateTo scope)) = none := by
    intro l hl
    exact findSome?_eq_none_iff.mpr fun s hs => (findHive_eq_none h).mpr (hl s hs)
  refine ⟨?_, ?_, ?_⟩
  · rintro before scope after hive rfl hbefore hm
    rw [routeOver, findSome?_append, hnone hbefore, findSome?_cons, (findHive_eq_some h).mpr hm]
    rfl
  · intro hive hscopes hm
    rw [routeOver, hnone hscopes, (findHive_eq_some h).mpr hm]
  · intro hscopes hglobal
    rw [routeOver, hnone hscopes, (findHive_eq_none h).mpr hglobal]

end

/-! ## The first component of a path -/

section

variable {limits : LcsLimits}

theorem foldlM_keepFirst (components : List Name) (first : Option Name) :
    components.foldlM keepFirst first = .ok (first.or components.head?) := by
  induction components generalizing first with
  | nil => simp
  | cons component rest ih =>
    rw [foldlM_cons, keepFirst, ok_bind, ih]
    cases first <;> rfl

/-- The component a path is routed by: the first of those it is walked by. -/
def routedComponent (limits : LcsLimits) (path : Name) (rewrite : CurrentUserRewrite) :
    LcsResult Name := do
  let components ← pathComponents limits path rewrite
  .ok (components.headD [])

/-- **A path is routed by its first component**, which is found without the table. -/
theorem routeRoutablePathHive_eq (hives : List HiveView) (path : Name)
    (rewrite : CurrentUserRewrite) (scopes : List Guid) :
    routeRoutablePathHive limits hives path rewrite scopes = (do
      let first ← routedComponent limits path rewrite
      let route ← routeHive limits hives first scopes
      .ok (classifyHiveRoute route)) := by
  unfold routeRoutablePathHive routedComponent
  simp only [forEachRoutablePathComponent_eq, foldlM_keepFirst, bind_assoc, ok_bind,
    Option.none_or, headD_eq_head?_getD]

end

/-! ## Isolation -/

/-- **Private hives are isolated.** Over a table and scopes that pass their checks, a name that
does routes to the hive of the first of the caller's scopes that has one, else to the global one,
else nowhere. The order of the table does not change that, nor do hives of scopes that the caller
does not have. All of this holds of a path as of the component it is routed by. -/
theorem private_hive_isolation {limits : LcsLimits} {hives : List HiveView} {scopes : List Guid}
    (htable : validateHiveTable limits hives = .ok ())
    (hscopes : validateScopeGuidSet limits scopes = .ok ()) :
    (∀ name, validateKeyComponentBytes name limits = .ok name →
      RoutesFirst hives name scopes (routeHive limits hives name scopes)) ∧
    (∀ name hives', hives.Perm hives' →
      routeHive limits hives' name scopes = routeHive limits hives name scopes) ∧
    (∀ name hives', validateHiveTable limits hives' = .ok () →
      (hives.filter (·.seenBy scopes)).Perm (hives'.filter (·.seenBy scopes)) →
      routeHive limits hives' name scopes = routeHive limits hives name scopes) ∧
    (∀ path rewrite first, routedComponent limits path rewrite = .ok first →
      validateKeyComponentBytes first limits = .ok first →
      ∃ route, RoutesFirst hives first scopes (.ok route) ∧
        routeRoutablePathHive limits hives path rewrite scopes = .ok (classifyHiveRoute route)) ∧
    (∀ path rewrite hives', hives.Perm hives' →
      routeRoutablePathHive limits hives' path rewrite scopes =
        routeRoutablePathHive limits hives path rewrite scopes) ∧
    ∀ path rewrite hives', validateHiveTable limits hives' = .ok () →
      (hives.filter (·.seenBy scopes)).Perm (hives'.filter (·.seenBy scopes)) →
      routeRoutablePathHive limits hives' path rewrite scopes =
        routeRoutablePathHive limits hives path rewrite scopes := by
  have hroute : ∀ name, validateKeyComponentBytes name limits = .ok name →
      routeHive limits hives name scopes = .ok (routeOver (findHive hives name) scopes) := by
    intro name hname
    rw [routeHive_eq, htable, hscopes, hname]
    rfl
  have hother : ∀ {hives'}, validateHiveTable limits hives' = .ok () →
      (hives.filter (·.seenBy scopes)).Perm (hives'.filter (·.seenBy scopes)) → ∀ name,
      routeHive limits hives' name scopes = routeHive limits hives name scopes := by
    intro hives' htable' hp
    refine routeHive_congr htable' htable fun hive hseen => ?_
    have hmem := hp.mem_iff (a := hive)
    simpa [hseen] using hmem.symm
  have hperm := fun {hives'} (hp : hives.Perm hives') =>
    hother (validateHiveTable_perm hp htable) (hp.filter _)
  refine ⟨fun name hname => ?_, fun name _ hp => hperm hp name,
    fun name _ htable' hp => hother htable' hp name, fun path rewrite first hfirst hname => ?_,
    fun path rewrite hives' hp => ?_, fun path rewrite hives' htable' hp => ?_⟩
  · rw [hroute name hname]
    exact routesFirst_routeOver htable name scopes
  · refine ⟨_, routesFirst_routeOver htable first scopes, ?_⟩
    rw [routeRoutablePathHive_eq, hfirst, ok_bind, hroute first hname]
    rfl
  · simp only [routeRoutablePathHive_eq, hperm hp]
  · simp only [routeRoutablePathHive_eq, hother htable' hp]

namespace Sample

def scope (n : ℕ) : Guid := ⟨List.replicate 16 (BitVec.ofNat 8 n), length_filled n⟩

/-- A global hive, and one of the same name that only one scope sees. -/
def hives : List HiveView :=
  [⟨"Machine".toList, scope 1, 1, .active, .global⟩,
    ⟨"MACHINE".toList, scope 2, 2, .active, .privateTo (scope 9)⟩]

end Sample

open Sample in
/-- A caller with the scope reaches the private hive by the name of the global one; the table may
be turned around. -/
theorem private_hive_isolation_sample :
    routeHive .default hives "machine".toList [scope 9] =
        .ok (.active ⟨"MACHINE".toList, scope 2, 2, .privateTo (scope 9)⟩) ∧
      routeHive .default hives.reverse "machine".toList [scope 9] =
        routeHive .default hives "machine".toList [scope 9] := by
  have htable : validateHiveTable .default hives = .ok () := by decide +kernel
  have hscopes : validateScopeGuidSet .default [scope 9] = .ok () := by decide +kernel
  exact ⟨by decide +kernel, (private_hive_isolation htable hscopes).2.1 _ _ (reverse_perm _).symm⟩

/-- Scopes that do not pass their check are refused, where an unknown name would be reported as
not registered. -/
theorem routeHive_duplicate_scope :
    validateHiveTable .default [] = .ok () ∧
      (∀ scope hive, ¬ Matches [] scope "Machine".toList hive) ∧
      routeHive .default [] "Machine".toList [Sample.scope 9, Sample.scope 9] =
        .error .duplicateScopeGuid := by
  refine ⟨by decide +kernel, fun scope hive hm => ?_, by decide +kernel⟩
  cases hm.1

end Pkm.Lcs
