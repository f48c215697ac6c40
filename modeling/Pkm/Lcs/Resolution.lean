import Pkm.Lcs.Helpers.Candidates
/-!
# Resolution is a unique maximum

A lookup over sound entries is decided by its candidates as a multiset. It finds
the only candidate with the greatest precedence and sequence if that one shows
something, finds nothing if there is no candidate or the greatest one hides, and
reports a tie if several share the greatest tuple. No order of the layer table,
of the entries or of the blanket tombstones changes it.
-/

namespace Pkm.Lcs

open Outcome

variable {context context' : LayerResolutionContext} {entries : List NamedPathEntry}

/-! ## The candidates of a lookup -/

def pathCandidates (context : LayerResolutionContext) (entries : List PathEntry) :
    List PathCandidate :=
  entries.filterMap (·.candidate? context)

def valueCandidates (context : LayerResolutionContext) (entries : List ValueEntry)
    (blankets : List BlanketTombstoneEntry) : List ValueCandidate :=
  entries.filterMap (·.candidate? context) ++ blankets.filterMap (·.candidate? context)

def namedPathCandidates (context : LayerResolutionContext) (requested : Name)
    (entries : List NamedPathEntry) : List NamedPathCandidate :=
  entries.filterMap (·.candidate? context requested)

/-- What a lookup must return over its candidates. -/
structure Decides {α ρ : Type} (tuple : α → ℕ × ℕ) (visible : α → Option ρ)
    (candidates : List α) (result : LcsResult (Resolution ρ)) : Prop where
  found : ∀ r, result = .ok (.found r) ↔
    ∃ c, Select.Wins (rank tuple) candidates c ∧ visible c = some r
  notFound : result = .ok .notFound ↔
    candidates = [] ∨ ∃ c, Select.Wins (rank tuple) candidates c ∧ visible c = none
  tie : ∀ p s, result = .error (.duplicateWinningSequenceTie p s) ↔
    Select.Ties (rank tuple) candidates (toLex (p, s))

variable {α ι : Type}

theorem answer_decides {ρ : Type} (tuple : α → ℕ × ℕ) (visible : α → Option ρ)
    (candidates : List α) :
    Decides tuple visible candidates (answer tuple visible candidates) where
  found _ := answer_eq_found
  notFound := answer_eq_notFound
  tie _ _ := answer_eq_tie

/-! ## Sound entries -/

theorem prevalidate_eq_collect (candidate : ι → LcsResult (Option α)) (entries : List ι) :
    prevalidate candidate entries = (do
      let _ ← Scan.collect candidate entries
      .ok ()) := by
  rw [← Scan.foldlM_skip (fun _ _ => ()) (), prevalidate]
  congr! with _ _ c
  rcases c with _ | c <;> rfl

theorem prevalidate_eq_ok {candidate : ι → LcsResult (Option α)} {entries : List ι} :
    prevalidate candidate entries = .ok () ↔ ∀ e ∈ entries, ∃ c, candidate e = .ok c := by
  rw [prevalidate_eq_collect, bind_eq_ok]
  constructor
  · rintro ⟨cs, hcs, -⟩ e he
    obtain ⟨p, hp, -⟩ := Scan.exists_of_collect hcs
    exact ⟨p e, hp e he⟩
  · intro h
    choose! p hp using h
    exact ⟨_, Scan.collect_eq_ok hp, rfl⟩

theorem resolvePathEntry_of_sound (h : context.Proper) {entries : List PathEntry}
    (hs : ∀ e ∈ entries, e.Sound context) :
    resolvePathEntry context entries =
      answer PathCandidate.tuple PathCandidate.visible (pathCandidates context entries) := by
  rw [resolvePathEntry_eq, validateLayerResolutionContext_eq_ok.mpr h,
    Scan.collect_eq_ok fun e he => pathCandidate_eq h (hs e he)]
  rfl

theorem resolveValue_of_sound (h : context.Proper) {entries : List ValueEntry}
    {blankets : List BlanketTombstoneEntry} (hs : ∀ e ∈ entries, e.Sound context)
    (hb : ∀ b ∈ blankets, b.Sound context) :
    resolveValue context entries blankets =
      answer ValueCandidate.tuple ValueCandidate.visible
        (valueCandidates context entries blankets) := by
  rw [resolveValue_eq, validateLayerResolutionContext_eq_ok.mpr h,
    Scan.collect_eq_ok fun e he => valueCandidate_eq h (hs e he),
    Scan.collect_eq_ok fun b hb' => blanketCandidate_eq h (hb b hb')]
  rfl

theorem prevalidateSubkey_of_sound (h : context.Proper) (hs : ∀ e ∈ entries, e.Sound context) :
    prevalidateSubkeyEnumerationSource context entries = .ok () := by
  refine prevalidate_eq_ok.mpr fun e he => ⟨e.entry.candidate? context, ?_⟩
  rw [validateKeyComponentBytes_of_keyLike (hs e he).1, ok_bind, pathCandidate_eq h (hs e he).2]

theorem resolveNamedPathEntry_of_sound (h : context.Proper) {requested : Name}
    (hr : KeyLike context.limits requested) (hs : ∀ e ∈ entries, e.Sound context) :
    resolveNamedPathEntry context requested entries =
      answer NamedPathCandidate.tuple NamedPathCandidate.visible
        (namedPathCandidates context requested entries) := by
  rw [resolveNamedPathEntry_eq, validateLayerResolutionContext_eq_ok.mpr h,
    validateKeyComponentBytes_of_keyLike hr, ok_bind, prevalidateSubkey_of_sound h hs, ok_bind,
    Scan.collect_eq_ok fun e he => namedPathCandidate_eq h (hs e he) requested]
  rfl

/-! ## Other orders -/

section

variable (hr : context.Reorders context') (h : context.Proper)

include hr h

theorem LayerResolutionContext.Reorders.sound {layer : Name} {sequence : ℕ} {payload : Prop}
    (hs : Sound context layer sequence payload) : Sound context' layer sequence payload := by
  unfold Sound at hs ⊢
  rwa [← hr.limits, ← hr.nextSequence, ← hr.activeLayer?_eq h]

theorem pathCandidates_perm {entries entries' : List PathEntry} (he : entries.Perm entries') :
    (pathCandidates context entries).Perm (pathCandidates context' entries') := by
  unfold pathCandidates PathEntry.candidate?
  simp only [hr.activeLayer?_eq h]
  exact he.filterMap _

theorem valueCandidates_perm {entries entries' : List ValueEntry}
    {blankets blankets' : List BlanketTombstoneEntry} (he : entries.Perm entries')
    (hb : blankets.Perm blankets') :
    (valueCandidates context entries blankets).Perm
      (valueCandidates context' entries' blankets') := by
  unfold valueCandidates ValueEntry.candidate? BlanketTombstoneEntry.candidate?
  simp only [hr.activeLayer?_eq h]
  exact (he.filterMap _).append (hb.filterMap _)

theorem namedPathCandidates_perm {entries entries' : List NamedPathEntry} (requested : Name)
    (he : entries.Perm entries') :
    (namedPathCandidates context requested entries).Perm
      (namedPathCandidates context' requested entries') := by
  unfold namedPathCandidates NamedPathEntry.candidate?
  simp only [hr.activeLayer?_eq h]
  exact he.filterMap _

end

/-! ## The three lookups -/

/-- **Resolution is the unique maximum and free of order.** The entries are sound:
of those that are not, the first is reported. -/
theorem resolution_unique_maximum (hcontext : validateLayerResolutionContext context = .ok ()) :
    (∀ (entries : List ValueEntry) (blankets : List BlanketTombstoneEntry),
      (∀ e ∈ entries, e.Sound context) → (∀ b ∈ blankets, b.Sound context) →
      Decides ValueCandidate.tuple ValueCandidate.visible
          (valueCandidates context entries blankets) (resolveValue context entries blankets) ∧
        ∀ context' entries' blankets', context.Reorders context' → entries.Perm entries' →
          blankets.Perm blankets' →
          resolveValue context' entries' blankets' = resolveValue context entries blankets) ∧
    (∀ entries : List PathEntry, (∀ e ∈ entries, e.Sound context) →
      Decides PathCandidate.tuple PathCandidate.visible
          (pathCandidates context entries) (resolvePathEntry context entries) ∧
        ∀ context' entries', context.Reorders context' → entries.Perm entries' →
          resolvePathEntry context' entries' = resolvePathEntry context entries) ∧
    (∀ (requested : Name) (entries : List NamedPathEntry), KeyLike context.limits requested →
      (∀ e ∈ entries, e.Sound context) →
      Decides NamedPathCandidate.tuple NamedPathCandidate.visible
          (namedPathCandidates context requested entries)
          (resolveNamedPathEntry context requested entries) ∧
        ∀ context' entries', context.Reorders context' → entries.Perm entries' →
          resolveNamedPathEntry context' requested entries' =
            resolveNamedPathEntry context requested entries) := by
  have h := validateLayerResolutionContext_eq_ok.mp hcontext
  refine ⟨?_, ?_, ?_⟩
  · intro entries blankets hs hb
    rw [resolveValue_of_sound h hs hb]
    refine ⟨answer_decides _ _ _, fun context' entries' blankets' hr he hbl => ?_⟩
    rw [resolveValue_of_sound (hr.proper h) (fun e hm => hr.sound h (hs e (he.mem_iff.mpr hm)))
      (fun b hm => hr.sound h (hb b (hbl.mem_iff.mpr hm)))]
    exact (answer_perm (valueCandidates_perm hr h he hbl)).symm
  · intro entries hs
    rw [resolvePathEntry_of_sound h hs]
    refine ⟨answer_decides _ _ _, fun context' entries' hr he => ?_⟩
    rw [resolvePathEntry_of_sound (hr.proper h) (fun e hm => hr.sound h (hs e (he.mem_iff.mpr hm)))]
    exact (answer_perm (pathCandidates_perm hr h he)).symm
  · intro requested entries hreq hs
    rw [resolveNamedPathEntry_of_sound h hreq hs]
    refine ⟨answer_decides _ _ _, fun context' entries' hr he => ?_⟩
    have hs' : ∀ e ∈ entries', e.Sound context' := by
      intro e hm
      obtain ⟨hname, hsound⟩ := hs e (he.mem_iff.mpr hm)
      exact ⟨hr.limits ▸ hname, hr.sound h hsound⟩
    rw [resolveNamedPathEntry_of_sound (hr.proper h) (hr.limits ▸ hreq) hs']
    exact (answer_perm (namedPathCandidates_perm hr h requested he)).symm

namespace Sample

/-- The base layer, one above it and one that only its owner sees. -/
def layers : List LayerView :=
  [⟨baseLayerName, 0, true⟩, ⟨"Policy".toList, 5, true⟩, ⟨"Draft".toList, 9, false⟩]

def caller : LayerResolutionContext where
  layers := layers
  privateLayers := []
  limits := LcsLimits.default
  nextSequence := 100

/-- A value of the base layer, and one that the layer above it sets later. -/
def values : List ValueEntry :=
  [⟨"BASE".toList, 7, 4, [1#8, 0#8, 0#8, 0#8]⟩, ⟨"policy".toList, 3, 4, [2#8, 0#8, 0#8, 0#8]⟩,
    ⟨"draft".toList, 50, 4, [3#8, 0#8, 0#8, 0#8]⟩]

def blankets : List BlanketTombstoneEntry := [⟨"base".toList, 9⟩]

end Sample

open Sample in
/-- The value of the upper layer is found, although the base layer was written later. -/
theorem resolution_unique_maximum_sample :
    Decides ValueCandidate.tuple ValueCandidate.visible
        (valueCandidates caller values blankets)
        (resolveValue caller values blankets) ∧
      resolveValue caller values blankets =
        .ok (.found ⟨.dword, [2#8, 0#8, 0#8, 0#8], "Policy".toList, 5, 3⟩) := by
  have hcontext : validateLayerResolutionContext caller = .ok () := by decide +kernel
  have hs : ∀ e ∈ values, e.Sound caller := by decide +kernel
  have hb : ∀ b ∈ blankets, b.Sound caller := by decide +kernel
  exact ⟨((resolution_unique_maximum hcontext).1 values blankets hs hb).1, by decide +kernel⟩

open Sample in
/-- A requested name that is no key name is refused, where an absent one would be reported as
such. -/
theorem resolveNamedPathEntry_empty_name :
    validateLayerResolutionContext caller = .ok () ∧
      namedPathCandidates caller [] [] = [] ∧
      resolveNamedPathEntry caller [] [] = .error (.emptyString "key_component") := by
  decide +kernel

end Pkm.Lcs
