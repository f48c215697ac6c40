import Pkm.Lcs.Helpers.Groups
/-!
# Enumeration agrees with lookup

An enumeration that succeeds emits one item for each folded name whose lookup
finds something, with what that lookup finds, and no other. One that fails at a
tie fails at a name whose lookup fails at the same tie.
-/

namespace Pkm.Lcs

open List Outcome

variable {blankets : List BlanketTombstoneEntry} {entries : List NamedValueEntry}

/-- The items of an enumeration over these names: one for each folded name whose lookup, under
any spelling, finds something. -/
structure Enumerates {ι ρ : Type} (names : List Name) (spelling : Name → Prop)
    (lookup : Name → LcsResult (Resolution ρ)) (nameOf : ι → Name) (resultOf : ι → ρ)
    (items : List ι) : Prop where
  distinct : items.Pairwise fun a b => foldName (nameOf a) ≠ foldName (nameOf b)
  named : ∀ item ∈ items, ∃ name ∈ names, foldName name = foldName (nameOf item)
  agrees : ∀ item ∈ items, ∀ name, spelling name → foldName name = foldName (nameOf item) →
    lookup name = .ok (.found (resultOf item))
  complete : ∀ n ∈ names, ∀ name, spelling name → foldName name = foldName n →
    ∀ result, lookup name = .ok (.found result) →
      ∃ item ∈ items, foldName (nameOf item) = foldName n

section

variable {α ι ρ : Type} {entries : List α} {entryName : α → Name} {spelling : Name → Prop}
  {group : Name → LcsResult (Resolution ι)} {lookup : Name → LcsResult (Resolution ρ)}
  {nameOf : ι → Name} {resultOf : ι → ρ} {items : List ι}

/-- What the groups of the entries show, each under its first entry. -/
abbrev showGroups (group : Name → LcsResult (Resolution ι)) (entryName : α → Name)
    (entries : List α) : LcsResult (List ι) :=
  Scan.collect (shown fun e => group (entryName e))
    (Scan.firsts (fun e => foldName (entryName e)) [] entries)

theorem shown_eq_some {g : α} {item : ι} :
    shown (fun e => group (entryName e)) g = .ok (some item) ↔
      group (entryName g) = .ok (.found item) := by
  simp only [shown]
  rcases group (entryName g) with e | ⟨r⟩ | _ <;> simp [Resolution.result?]

/-- The items are what the groups of the entries show. -/
theorem mem_collect_firsts
    (hgroup : ∀ m n, foldName m = foldName n → group m = group n)
    (hitems : showGroups group entryName entries = .ok items) {item : ι} :
    item ∈ items ↔ ∃ e ∈ entries, group (entryName e) = .ok (.found item) := by
  obtain ⟨p, hp, rfl⟩ := Scan.exists_of_collect hitems
  rw [mem_filterMap]
  constructor
  · rintro ⟨g, hg, hpg⟩
    refine ⟨g, (Scan.mem_of_mem_firsts hg).1, shown_eq_some.mp ?_⟩
    rw [hp g hg, hpg]
  · rintro ⟨e, he, hfound⟩
    obtain ⟨g, hg, hcls⟩ := Scan.exists_mem_firsts_nil (fun e => foldName (entryName e)) he
    refine ⟨g, hg, ?_⟩
    have hshown := shown_eq_some.mpr ((hgroup _ _ hcls).trans hfound)
    rw [hp g hg] at hshown
    exact Except.ok.inj hshown

theorem collect_firsts_distinct
    (hname : ∀ n item, group n = .ok (.found item) → foldName (nameOf item) = foldName n)
    (hitems : showGroups group entryName entries = .ok items) :
    items.Pairwise fun a b => foldName (nameOf a) ≠ foldName (nameOf b) := by
  obtain ⟨p, hp, rfl⟩ := Scan.exists_of_collect hitems
  rw [pairwise_filterMap]
  refine (Scan.firsts_pairwise (fun e => foldName (entryName e)) [] entries).imp_of_mem ?_
  intro a b ha hb hab x hx y hy
  have hfound : ∀ g ∈ Scan.firsts (fun e => foldName (entryName e)) [] entries, ∀ z,
      p g = some z → foldName (nameOf z) = foldName (entryName g) := by
    intro g hg z hz
    exact hname _ _ (shown_eq_some.mp ((hp g hg).trans (congrArg _ hz)))
  rw [hfound a ha x hx, hfound b hb y hy]
  exact hab

/-- **Groups that answer as lookups do** make an enumeration. -/
theorem enumerates_of_collect
    (hgroup : ∀ m n, foldName m = foldName n → group m = group n)
    (hname : ∀ n item, group n = .ok (.found item) → foldName (nameOf item) = foldName n)
    (hlookup : ∀ n, spelling n → lookup n = (group n).map (Resolution.map resultOf))
    (hitems : showGroups group entryName entries = .ok items) :
    Enumerates (entries.map entryName) spelling lookup nameOf resultOf items where
  distinct := collect_firsts_distinct hname hitems
  named item hitem := by
    obtain ⟨e, he, hfound⟩ := (mem_collect_firsts hgroup hitems).mp hitem
    exact ⟨entryName e, mem_map_of_mem he, (hname _ _ hfound).symm⟩
  agrees item hitem name hspelling hfold := by
    obtain ⟨e, he, hfound⟩ := (mem_collect_firsts hgroup hitems).mp hitem
    rw [hlookup name hspelling, hgroup name _ (hfold.trans (hname _ _ hfound)), hfound]
    rfl
  complete n hn name hspelling hfold result hfound := by
    obtain ⟨e, he, rfl⟩ := mem_map.mp hn
    rw [hlookup name hspelling, hgroup name _ hfold] at hfound
    rcases hg : group (entryName e) with err | ⟨item⟩ | _ <;> rw [hg] at hfound
    · cases hfound
    · exact ⟨item, (mem_collect_firsts hgroup hitems).mpr ⟨e, he, hg⟩, hname _ _ hg⟩
    · cases hfound

/-- **An enumeration by groups that answer as lookups do.** The checks before the first group raise
no tie, so at a tie they have passed. -/
theorem agrees_of_groups {context : LayerResolutionContext} {σ : Type} {emit : σ → ι → LcsResult σ}
    {s : σ} {check : LcsResult Unit} {run : LcsResult (ℕ × σ)}
    (hrun : run = (do
      validateLayerResolutionContext context
      check
      (Scan.firsts (fun e => foldName (entryName e)) [] entries).foldlM
        (emitGroup (fun e => group (entryName e)) emit) (0, s)))
    (hcheck : Avoids LcsError.IsTie check)
    (hgroup : ∀ m n, foldName m = foldName n → group m = group n)
    (hname : ∀ n item, group n = .ok (.found item) → foldName (nameOf item) = foldName n)
    (hlookup : context.Proper → check = .ok () → ∀ n, spelling n →
      lookup n = (group n).map (Resolution.map resultOf)) :
    (∀ n s', run = .ok (n, s') → ∃ items, items.foldlM emit s = .ok s' ∧ n = items.length ∧
      Enumerates (entries.map entryName) spelling lookup nameOf resultOf items) ∧
    ∀ e : LcsError, e.IsTie → run = .error e →
      (∃ entry ∈ entries, ∀ name, spelling name → foldName name = foldName (entryName entry) →
        lookup name = .error e) ∨ ∃ st item, emit st item = .error e := by
  subst hrun
  refine ⟨fun n s' hok => ?_, fun e htie herr => ?_⟩
  · obtain ⟨_, hcontext, hok⟩ := of_bind hok
    obtain ⟨_, hpassed, hok⟩ := of_bind hok
    have hlookup := hlookup (validateLayerResolutionContext_eq_ok.mp hcontext) hpassed
    obtain ⟨items, hitems, hfold, hn⟩ := foldlM_emitGroup_eq_ok.mp hok
    exact ⟨items, hfold, by omega, enumerates_of_collect hgroup hname hlookup hitems⟩
  · obtain ⟨_, hcontext, herr⟩ :=
      validateLayerResolutionContext_avoids_numbered.of_bind_eq_error (.inl htie) herr
    obtain ⟨_, hpassed, herr⟩ := hcheck.of_bind_eq_error htie herr
    refine (foldlM_emitGroup_eq_error herr).imp_left fun ⟨g, hg, hfails⟩ => ?_
    refine ⟨g, (Scan.mem_of_mem_firsts hg).1, fun name hspelling hfold => ?_⟩
    rw [hlookup (validateLayerResolutionContext_eq_ok.mp hcontext) hpassed name hspelling,
      hgroup name _ hfold, hfails]
    rfl

end

/-! ## Values -/

/-- The entries of one name. -/
def valueClass (entries : List NamedValueEntry) (name : Name) : List ValueEntry :=
  (entries.filter fun e => casefoldEq e.name name).map (·.entry)

def NamedValueCandidate.unnamed (c : NamedValueCandidate) : ValueCandidate :=
  ⟨c.layer, c.sequence, c.payload⟩

theorem NamedValueCandidate.visible_unnamed (c : NamedValueCandidate) :
    c.unnamed.visible = c.visible.map (·.value) := by
  obtain ⟨name, layer, sequence, payload, named⟩ := c
  cases payload <;> rfl

variable {item : EnumeratedValue} {n : Name}

theorem NamedValueCandidate.name_of_visible {c : NamedValueCandidate} (h : c.visible = some item) :
    c.name = some item.name := by
  obtain ⟨name, layer, sequence, payload, named⟩ := c
  cases payload with
  | tombstone => cases h
  | value t d =>
    cases h
    exact (Option.some_get _).symm

variable {context : LayerResolutionContext}

theorem casefoldEq_congr_right {m m' : Name} (h : foldName m = foldName m') :
    casefoldEq n m = casefoldEq n m' := by
  rw [casefoldEq_eq_decide, casefoldEq_eq_decide, h]

theorem valueGroup_congr (m n : Name) (h : foldName m = foldName n) :
    valueGroup context entries blankets m = valueGroup context entries blankets n := by
  unfold valueGroup namedValueCandidates NamedValueEntry.candidate?
  simp only [casefoldEq_congr_right h]

/-- A value that shows is of an entry of the name. -/
theorem exists_entry_of_valueGroup (h : valueGroup context entries blankets n = .ok (.found item)) :
    ∃ e ∈ entries, e.name = item.name ∧ foldName e.name = foldName n ∧
      (e.candidate? context n).isSome := by
  obtain ⟨c, hwins, hvisible⟩ := answer_eq_found.mp h
  have hname := NamedValueCandidate.name_of_visible hvisible
  rcases mem_append.mp hwins.mem with hc | hc
  · obtain ⟨e, he, hc⟩ := mem_filterMap.mp hc
    obtain ⟨hcname, hfold⟩ := NamedValueEntry.name_of_candidate? hc
    exact ⟨e, he, Option.some.inj (hcname.symm.trans hname), hfold, by simp [hc]⟩
  · obtain ⟨b, -, hc⟩ := mem_filterMap.mp hc
    obtain ⟨layer, -, rfl⟩ := Option.map_eq_some_iff.mp hc
    cases hname

theorem valueGroup_name (n : Name) (item : EnumeratedValue)
    (h : valueGroup context entries blankets n = .ok (.found item)) :
    foldName item.name = foldName n := by
  obtain ⟨e, -, hname, hfold, -⟩ := exists_entry_of_valueGroup h
  exact hname ▸ hfold

/-- A group's candidates are those of a lookup in its class, with their names. -/
theorem namedValueCandidates_unnamed (context : LayerResolutionContext) (name : Name)
    (entries : List NamedValueEntry) (blankets : List BlanketTombstoneEntry) :
    (namedValueCandidates context name entries blankets).map NamedValueCandidate.unnamed =
      valueCandidates context (valueClass entries name) blankets := by
  unfold namedValueCandidates valueCandidates valueClass
  rw [map_append, map_filterMap, map_filterMap]
  congr 1
  · induction entries with
    | nil => rfl
    | cons e rest ih =>
      by_cases hn : casefoldEq e.name name = true
      · simp only [filterMap_cons, filter_cons, hn, if_true, NamedValueEntry.candidate?,
          Option.map_map] at ih ⊢
        rw [ih]
        rfl
      · simp only [filterMap_cons, filter_cons, hn,
          NamedValueEntry.candidate?] at ih ⊢
        exact ih
  · refine congrArg (List.filterMap · blankets) (funext fun b => ?_)
    rw [BlanketTombstoneEntry.namedCandidate?, Option.map_map]
    rfl

/-- **A lookup in a class** answers as its group does, without the name. -/
theorem resolveValue_valueClass (h : context.Proper) (hs : ∀ e ∈ entries, e.Sound context)
    (hb : ∀ b ∈ blankets, b.Sound context) (name : Name) :
    resolveValue context (valueClass entries name) blankets =
      (valueGroup context entries blankets name).map (Resolution.map (·.value)) := by
  have hclass : ∀ e ∈ valueClass entries name, e.Sound context := by
    intro e he
    obtain ⟨named, hmem, rfl⟩ := mem_map.mp he
    exact (hs named (mem_filter.mp hmem).1).2
  rw [resolveValue_of_sound h hclass hb, ← namedValueCandidates_unnamed]
  exact answer_map _ _ (fun _ => rfl) NamedValueCandidate.visible_unnamed _

/-! ## Subkeys -/

def EnumeratedSubkey.resolved (item : EnumeratedSubkey) : ResolvedNamedPathEntry :=
  ⟨item.childName, item.path⟩

theorem subkeyGroup_congr {entries : List NamedPathEntry} (m n : Name)
    (h : foldName m = foldName n) :
    subkeyGroup context entries m = subkeyGroup context entries n := by
  unfold subkeyGroup namedPathCandidates NamedPathEntry.candidate?
  simp only [casefoldEq_congr_right h]

theorem NamedPathCandidate.visible_eq (c : NamedPathCandidate) :
    c.visible = c.enumerated.map EnumeratedSubkey.resolved := by
  obtain ⟨name, layer, sequence, target⟩ := c
  cases target <;> rfl

theorem subkeyGroup_name {entries : List NamedPathEntry} (n : Name) (item : EnumeratedSubkey)
    (h : subkeyGroup context entries n = .ok (.found item)) :
    foldName item.childName = foldName n := by
  obtain ⟨c, hwins, hvisible⟩ := answer_eq_found.mp h
  have hname : item.childName = c.name := by
    obtain ⟨name, layer, sequence, target⟩ := c
    cases target with
    | hidden => cases hvisible
    | guid guid =>
      cases hvisible
      rfl
  obtain ⟨e, -, hc⟩ := mem_filterMap.mp hwins.mem
  obtain ⟨hcname, hfold⟩ := NamedPathEntry.name_of_candidate? hc
  rw [hname, hcname, hfold]

/-- **A lookup of a name** answers as its group does. -/
theorem resolveNamedPathEntry_eq_group (h : context.Proper) {entries : List NamedPathEntry}
    (hs : ∀ e ∈ entries, e.Sound context) (name : Name) (hname : KeyLike context.limits name) :
    resolveNamedPathEntry context name entries =
      (subkeyGroup context entries name).map (Resolution.map EnumeratedSubkey.resolved) := by
  rw [resolveNamedPathEntry_of_sound h hname hs]
  have h : answer NamedPathCandidate.tuple NamedPathCandidate.visible
      ((namedPathCandidates context name entries).map id) = _ :=
    answer_map id EnumeratedSubkey.resolved (fun _ => rfl) NamedPathCandidate.visible_eq _
  rwa [map_id] at h

/-! ## Whole enumerations -/

/-- **Enumeration agrees with lookup.** A name is resolved at its first entry, from all entries of
that name, so that later ones have nothing to add. A tie may also come from the callback. -/
theorem enumeration_agrees_with_lookup (context : LayerResolutionContext) :
    (∀ (entries : List NamedValueEntry) (blankets : List BlanketTombstoneEntry) (σ : Type)
        (emit : σ → EnumeratedValue → LcsResult σ) (s : σ),
      (∀ n s', forEachEffectiveValue context entries blankets emit s = .ok (n, s') →
        ∃ items, items.foldlM emit s = .ok s' ∧ n = items.length ∧
          Enumerates (entries.map (·.name)) (fun _ => True)
            (fun name => resolveValue context (valueClass entries name) blankets)
            (·.name) (·.value) items) ∧
      ∀ p q, forEachEffectiveValue context entries blankets emit s =
          .error (.duplicateWinningSequenceTie p q) →
        (∃ e ∈ entries, resolveValue context (valueClass entries e.name) blankets =
            .error (.duplicateWinningSequenceTie p q)) ∨
          ∃ st item, emit st item = .error (.duplicateWinningSequenceTie p q)) ∧
    (∀ (entries : List NamedPathEntry) (σ : Type)
        (emit : σ → EnumeratedSubkey → LcsResult σ) (s : σ),
      (∀ n s', forEachVisibleSubkey context entries emit s = .ok (n, s') →
        ∃ items, items.foldlM emit s = .ok s' ∧ n = items.length ∧
          Enumerates (entries.map (·.childName)) (KeyLike context.limits)
            (fun name => resolveNamedPathEntry context name entries)
            (·.childName) EnumeratedSubkey.resolved items) ∧
      ∀ p q, forEachVisibleSubkey context entries emit s =
          .error (.duplicateWinningSequenceTie p q) →
        (∃ e ∈ entries, ∀ name, KeyLike context.limits name →
            foldName name = foldName e.childName →
            resolveNamedPathEntry context name entries =
              .error (.duplicateWinningSequenceTie p q)) ∨
          ∃ st item, emit st item = .error (.duplicateWinningSequenceTie p q)) := by
  refine ⟨fun entries blankets σ emit s => ?_, fun entries σ emit s => ?_⟩
  · obtain ⟨hok, herr⟩ := agrees_of_groups (forEachEffectiveValue_eq emit s)
      (prevalidateValue_avoids_tie _ _) valueGroup_congr valueGroup_name
      fun h hpassed name (_ : True) => resolveValue_valueClass h
        (sound_of_prevalidateValue h hpassed).1 (sound_of_prevalidateValue h hpassed).2 name
    refine ⟨hok, fun p q h => (herr _ ⟨p, q, rfl⟩ h).imp_left ?_⟩
    rintro ⟨e, he, hfails⟩
    exact ⟨e, he, hfails e.name trivial rfl⟩
  · obtain ⟨hok, herr⟩ := agrees_of_groups (forEachVisibleSubkey_eq emit s)
      (prevalidateSubkey_avoids_tie _) subkeyGroup_congr subkeyGroup_name
      fun h hpassed => resolveNamedPathEntry_eq_group h (sound_of_prevalidateSubkey h hpassed)
    exact ⟨hok, fun p q => herr _ ⟨p, q, rfl⟩⟩

namespace Sample

/-- One value under two spellings, and one that the blanket tombstone deletes. -/
def namedValues : List NamedValueEntry :=
  [⟨"Size".toList, ⟨"base".toList, 7, 4, [1#8]⟩⟩, ⟨"SIZE".toList, ⟨"policy".toList, 3, 4, [2#8]⟩⟩,
    ⟨"Owner".toList, ⟨"base".toList, 2, 1, [3#8]⟩⟩]

end Sample

open Sample in
/-- Of the two names of the sample, one is emitted. -/
theorem enumeration_agrees_with_lookup_sample :
    ∃ items, items.foldlM (fun acc item => .ok (acc ++ [item])) [] =
        (.ok [⟨"SIZE".toList, .dword, [2#8], "Policy".toList, 5, 3⟩] :
          LcsResult (List EnumeratedValue)) ∧
      1 = items.length ∧
      Enumerates (namedValues.map (·.name)) (fun _ => True)
        (fun name => resolveValue caller (valueClass namedValues name) Sample.blankets)
        (·.name) (·.value) items :=
  ((enumeration_agrees_with_lookup caller).1 namedValues Sample.blankets _ _ []).1 _ _
    (by decide +kernel)

end Pkm.Lcs
