import Pkm.Lcs.Enumeration
/-!
# When an enumeration fails

Everything about the entries is checked before the first group is resolved, a tie of
two winners apart: that shows when its group is reached. So an enumeration that fails
has told its callback nothing, unless a tie comes behind a group that shows something.
-/

namespace Pkm.Lcs

open List Outcome

/-- An enumeration, for callbacks with any state. -/
abbrev Enumeration (ρ : Type) := (σ : Type) → (σ → ρ → LcsResult σ) → σ → LcsResult (ℕ × σ)

/-- An error that the callback does not raise comes before the callback is invoked: it comes for
every callback. -/
def Enumeration.AllOrNothing {ρ : Type} (run : Enumeration ρ) : Prop :=
  ∀ (σ : Type) (emit : σ → ρ → LcsResult σ) (s : σ) (e : LcsError), run σ emit s = .error e →
    (∀ t item, emit t item ≠ .error e) →
    ∀ (σ' : Type) (emit' : σ' → ρ → LcsResult σ') (s' : σ'), run σ' emit' s' = .error e

section

variable {ι ρ : Type} (group : ι → LcsResult (Resolution ρ))

/-- The first group that fails comes behind one that shows something. -/
def LateFailure (groups : List ι) : Prop :=
  ∃ before g after e, groups = before ++ g :: after ∧ group g = .error e ∧
    (∀ b ∈ before, ∃ r, group b = .ok r) ∧ ∃ b ∈ before, ∃ item, group b = .ok (.found item)

variable {group}

variable {before groups : List ι} {check : LcsResult Unit} {run : Enumeration ρ}

/-- A callback that always fails is invoked by the first group that shows something. -/
theorem foldlM_emitGroup_throws (hok : ∀ b ∈ before, ∃ r, group b = .ok r)
    (hfound : ∃ b ∈ before, ∃ item, group b = .ok (.found item)) (e : LcsError) (state : ℕ × Unit) :
    before.foldlM (emitGroup group fun _ _ => .error e) state = .error e := by
  induction before generalizing state with
  | nil => simp at hfound
  | cons b rest ih =>
    rw [foldlM_cons, emitGroup]
    obtain ⟨⟨r, hr⟩, hok⟩ := forall_mem_cons.mp hok
    rw [hr]
    cases r with
    | found item => rfl
    | notFound =>
      refine ih hok ?_ state
      obtain ⟨b', hb', item, hitem⟩ := hfound
      rcases mem_cons.mp hb' with rfl | hb'
      · rw [hr] at hitem
        cases hitem
      · exact ⟨b', hb', item, hitem⟩

/-- Groups that show nothing invoke no callback. -/
theorem foldlM_emitGroup_silent {σ : Type} {emit : σ → ρ → LcsResult σ}
    (h : ∀ b ∈ before, group b = .ok .notFound) (state : ℕ × σ) :
    before.foldlM (emitGroup group emit) state = .ok state := by
  induction before with
  | nil => rfl
  | cons b rest ih =>
    obtain ⟨hb, hrest⟩ := forall_mem_cons.mp h
    rw [foldlM_cons, emitGroup, hb]
    exact ih hrest

/-- The first group that fails, if any does. -/
theorem exists_first_error {g : ι} {e : LcsError} (hg : g ∈ groups) (he : group g = .error e) :
    ∃ before f after e', groups = before ++ f :: after ∧ group f = .error e' ∧
      ∀ b ∈ before, ∃ r, group b = .ok r := by
  induction groups with
  | nil => cases hg
  | cons a rest ih =>
    rcases ha : group a with e' | r
    · exact ⟨[], a, rest, e', rfl, ha, by simp⟩
    · have hg' : g ∈ rest := (mem_cons.mp hg).resolve_left fun heq => by
        rw [← heq, he] at ha
        cases ha
      obtain ⟨before, f, after, e', rfl, hf, hbefore⟩ := ih hg'
      exact ⟨a :: before, f, after, e', rfl, hf, forall_mem_cons.mpr ⟨⟨r, ha⟩, hbefore⟩⟩

/-- **A fold over groups is all or nothing exactly when it has no late failure.** -/
theorem allOrNothing_iff_not_lateFailure (groups : List ι) :
    Enumeration.AllOrNothing (fun _ emit s => groups.foldlM (emitGroup group emit) (0, s)) ↔
      ¬ LateFailure group groups := by
  constructor
  · rintro h ⟨before, g, after, e, rfl, hg, hok, hfound⟩
    have hrun : ∀ (σ : Type) (emit : σ → ρ → LcsResult σ) (s : σ) (state : ℕ × σ),
        before.foldlM (emitGroup group emit) (0, s) = .ok state →
        (before ++ g :: after).foldlM (emitGroup group emit) (0, s) = .error e := by
      intro σ emit s state hstate
      rw [foldlM_append, hstate, ok_bind, foldlM_cons, emitGroup, hg]
      rfl
    obtain ⟨state, hstate⟩ : ∃ state,
        before.foldlM (emitGroup group fun (_ : Unit) _ => .ok ()) (0, ()) = .ok state := by
      rcases hsilent : before.foldlM (emitGroup group fun (_ : Unit) _ => .ok ()) (0, ())
        with e' | r
      · rcases foldlM_emitGroup_eq_error hsilent with ⟨b, hb, hbad⟩ | ⟨_, _, hbad⟩
        · obtain ⟨r, hr⟩ := hok b hb
          rw [hr] at hbad
          cases hbad
        · cases hbad
      · exact ⟨r, rfl⟩
    -- another error than the one of the group shows that the callback is reached
    obtain ⟨e', hne⟩ : ∃ e' : LcsError, e' ≠ e := by
      by_cases he : e = .nilKeyGuid
      · exact ⟨.missingBaseLayer, by rw [he]; simp⟩
      · exact ⟨.nilKeyGuid, fun h => he h.symm⟩
    have hall := h Unit _ () e (hrun _ _ _ _ hstate) (by simp) Unit (fun _ _ => .error e') ()
    beta_reduce at hall
    rw [foldlM_append, foldlM_emitGroup_throws hok hfound] at hall
    exact hne (Except.error.inj hall)
  · intro hlate σ emit s e he hraise σ' emit' s'
    obtain ⟨g, hg, hgroup⟩ := (foldlM_emitGroup_eq_error he).resolve_right (by
      rintro ⟨t, item, h⟩
      exact hraise t item h)
    obtain ⟨before, f, after, e', rfl, hf, hok⟩ := exists_first_error hg hgroup
    have hsilent : ∀ b ∈ before, group b = .ok .notFound := by
      intro b hb
      obtain ⟨_ | _, hr⟩ := hok b hb
      · exact absurd ⟨before, f, after, e', rfl, hf, hok, b, hb, _, hr⟩ hlate
      · exact hr
    have hrun : ∀ {τ : Type} (k : τ → ρ → LcsResult τ) (t : τ),
        (before ++ f :: after).foldlM (emitGroup group k) (0, t) = .error e' := by
      intro τ k t
      rw [foldlM_append, foldlM_emitGroup_silent hsilent, ok_bind, foldlM_cons, emitGroup, hf]
      rfl
    cases (hrun emit s).symm.trans he
    exact hrun emit' s'

/-- A check before the enumeration, which fails for every callback. -/
theorem allOrNothing_bind_iff :
    Enumeration.AllOrNothing (fun σ emit s => check >>= fun _ => run σ emit s) ↔
      (check = .ok () → run.AllOrNothing) := by
  cases check with
  | error e =>
    refine iff_of_true (fun _ _ _ e' h _ _ _ _ => ?_) (by simp)
    cases h
    rfl
  | ok u => exact ⟨fun h _ => h, fun h => h rfl⟩

theorem allOrNothing_iff_of_eq {check' : LcsResult Unit} (h : ∀ σ emit s, run σ emit s = (do
      check
      check'
      groups.foldlM (emitGroup group emit) (0, s))) :
    run.AllOrNothing ↔ (check = .ok () → check' = .ok () → ¬ LateFailure group groups) := by
  obtain rfl : run = _ := funext fun σ => funext fun emit => funext fun s => h σ emit s
  rw [← allOrNothing_iff_not_lateFailure]
  exact allOrNothing_bind_iff.trans (forall_congr' fun _ => allOrNothing_bind_iff)

end

/-- **An enumeration is all or nothing exactly when no tie comes behind a group that shows
something**, if it gets to its groups at all. -/
theorem enumeration_allOrNothing_iff (context : LayerResolutionContext) :
    (∀ (entries : List NamedValueEntry) (blankets : List BlanketTombstoneEntry),
      Enumeration.AllOrNothing (fun _ => forEachEffectiveValue context entries blankets) ↔
        (validateLayerResolutionContext context = .ok () →
          prevalidateValueEnumerationSource context entries blankets = .ok () →
          ¬ LateFailure (fun e => valueGroup context entries blankets e.name)
            (Scan.firsts (fun e => foldName e.name) [] entries))) ∧
      ∀ entries : List NamedPathEntry,
        Enumeration.AllOrNothing (fun _ => forEachVisibleSubkey context entries) ↔
          (validateLayerResolutionContext context = .ok () →
            prevalidateSubkeyEnumerationSource context entries = .ok () →
            ¬ LateFailure (fun e => subkeyGroup context entries e.childName)
              (Scan.firsts (fun e => foldName e.childName) [] entries)) :=
  ⟨fun _ _ => allOrNothing_iff_of_eq fun _ => forEachEffectiveValue_eq,
    fun _ => allOrNothing_iff_of_eq fun _ => forEachVisibleSubkey_eq⟩

namespace Sample

/-- A value, and behind it two winners of another name. -/
def lateTie : List NamedValueEntry :=
  [⟨"Size".toList, ⟨"base".toList, 7, 4, [1#8]⟩⟩, ⟨"Owner".toList, ⟨"base".toList, 2, 1, [3#8]⟩⟩,
    ⟨"OWNER".toList, ⟨"base".toList, 2, 1, [4#8]⟩⟩]

end Sample

/-- The enumeration fails at the tie, and a callback that refuses everything is asked before. -/
theorem lateTie_emits_first :
    forEachEffectiveValue Sample.caller Sample.lateTie [] (fun (_ : Unit) _ => .ok ()) () =
        .error (.duplicateWinningSequenceTie 0 2) ∧
      forEachEffectiveValue Sample.caller Sample.lateTie []
          (fun (_ : Unit) _ => .error .nilKeyGuid) () = .error .nilKeyGuid := by
  decide +kernel

end Pkm.Lcs
