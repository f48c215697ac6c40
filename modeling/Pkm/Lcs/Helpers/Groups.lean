import Pkm.Lcs.Helpers.Errors
import Pkm.Lcs.Resolution
/-!
# Enumeration, group by group

An enumeration is a fold over the first entry of each folded name. Each such
entry stands for its group, the entries of that name and all blanket tombstones,
and the group's answer is handed on if it shows something.
-/

namespace Pkm.Lcs

open Bytes List Outcome

/-! ## Handing on what the groups show -/

section

variable {ι ρ σ : Type} {group : ι → LcsResult (Resolution ρ)} {emit : σ → ρ → LcsResult σ}
  {groups : List ι}

def Resolution.result? : Resolution ρ → Option ρ
  | .found result => some result
  | .notFound => none

/-- One group of an enumeration. -/
def emitGroup (group : ι → LcsResult (Resolution ρ)) (emit : σ → ρ → LcsResult σ) (state : ℕ × σ)
    (g : ι) : LcsResult (ℕ × σ) := do
  let resolved ← group g
  emitResolved emit state resolved

/-- What a group shows. -/
def shown (group : ι → LcsResult (Resolution ρ)) (g : ι) : LcsResult (Option ρ) := do
  let resolved ← group g
  .ok resolved.result?

/-- An enumeration succeeds with the items its groups show, in order, if the callback takes
them. -/
theorem foldlM_emitGroup_eq_ok {n n' : ℕ} {s s' : σ} :
    groups.foldlM (emitGroup group emit) (n, s) = .ok (n', s') ↔
      ∃ items, Scan.collect (shown group) groups = .ok items ∧
        items.foldlM emit s = .ok s' ∧ n' = n + items.length := by
  induction groups generalizing n s with
  | nil => simp [Scan.collect, eq_comm, and_comm]
  | cons g rest ih =>
    rw [foldlM_cons, Scan.collect, emitGroup, shown]
    rcases group g with e | ⟨result⟩ | _
    · constructor
      · intro h
        cases h
      · rintro ⟨items, h, -⟩
        cases h
    · -- a group that shows something is handed to the callback, and counted
      simp only [emitResolved, ok_bind, bind_assoc]
      constructor
      · intro h
        obtain ⟨s₁, hs, h⟩ := of_bind h
        obtain ⟨items, hitems, hfold, rfl⟩ := ih.mp h
        refine ⟨result :: items, ?_, ?_, ?_⟩
        · rw [hitems]
          rfl
        · rw [foldlM_cons, hs]
          exact hfold
        · rw [length_cons]
          omega
      · rintro ⟨items, hitems, hfold, rfl⟩
        obtain ⟨rest', hrest, hcons⟩ := of_bind hitems
        cases hcons
        obtain ⟨s₁, hs, hfold⟩ := of_bind hfold
        rw [hs]
        refine ih.mpr ⟨rest', hrest, hfold, ?_⟩
        rw [length_cons]
        omega
    · simp only [Resolution.result?]
      exact ih

/-- An enumeration that fails does so at a group or in the callback. -/
theorem foldlM_emitGroup_eq_error {state : ℕ × σ} {e : LcsError}
    (h : groups.foldlM (emitGroup group emit) state = .error e) :
    (∃ g ∈ groups, group g = .error e) ∨ ∃ s item, emit s item = .error e := by
  obtain ⟨g, hmem, s, hg⟩ := Scan.exists_of_foldlM_error h
  rw [emitGroup] at hg
  rcases hr : group g with e' | ⟨result⟩ | _ <;> rw [hr] at hg
  · exact .inl ⟨g, hmem, hr.trans (congrArg _ (Except.error.inj hg))⟩
  · rcases hs : emit s.2 result with e' | s' <;> simp only [emitResolved, ok_bind, hs] at hg
    · exact .inr ⟨_, _, hs.trans (congrArg _ (Except.error.inj hg))⟩
    · cases hg
  · cases hg

end

/-! ## Groups of values -/

variable (context : LayerResolutionContext)

def NamedValueEntry.candidate? (currentName : Name) (entry : NamedValueEntry) :
    Option NamedValueCandidate :=
  if casefoldEq entry.name currentName then
    (activeLayer? context entry.entry.layer).map fun layer =>
      ⟨some entry.name, layer, entry.entry.sequence, entry.entry.payload, fun _ => rfl⟩
  else none

def BlanketTombstoneEntry.namedCandidate? (blanket : BlanketTombstoneEntry) :
    Option NamedValueCandidate :=
  (activeLayer? context blanket.layer).map fun layer =>
    ⟨none, layer, blanket.sequence, .tombstone, tombstone_named⟩

def namedValueCandidates (name : Name) (entries : List NamedValueEntry)
    (blankets : List BlanketTombstoneEntry) : List NamedValueCandidate :=
  entries.filterMap (·.candidate? context name) ++ blankets.filterMap (·.namedCandidate? context)

/-- What the entries of a name and all blanket tombstones come to. -/
def valueGroup (entries : List NamedValueEntry) (blankets : List BlanketTombstoneEntry)
    (name : Name) : LcsResult (Resolution EnumeratedValue) :=
  answer NamedValueCandidate.tuple NamedValueCandidate.visible
    (namedValueCandidates context name entries blankets)

/-- What the entries of a child name come to. -/
def subkeyGroup (entries : List NamedPathEntry) (name : Name) :
    LcsResult (Resolution EnumeratedSubkey) :=
  answer NamedPathCandidate.tuple NamedPathCandidate.enumerated
    (namedPathCandidates context name entries)

variable {context : LayerResolutionContext} {σ : Type} {blanket : BlanketTombstoneEntry}
  {blankets : List BlanketTombstoneEntry} {entries : List NamedValueEntry}
  {c : Option ValueCandidate} {entry : NamedValueEntry} {name : Name}

theorem NamedValueEntry.name_of_candidate? {c : NamedValueCandidate}
    (h : entry.candidate? context name = some c) :
    c.name = some entry.name ∧ foldName entry.name = foldName name := by
  unfold candidate? at h
  split at h
  · rename_i hfold
    obtain ⟨layer, -, rfl⟩ := Option.map_eq_some_iff.mp h
    exact ⟨rfl, casefoldEq_iff.mp hfold⟩
  · cases h

theorem NamedPathEntry.name_of_candidate? {entry : NamedPathEntry} {c : NamedPathCandidate}
    (h : entry.candidate? context name = some c) :
    c.name = entry.childName ∧ foldName entry.childName = foldName name := by
  unfold candidate? at h
  split at h
  · rename_i hfold
    obtain ⟨layer, -, rfl⟩ := Option.map_eq_some_iff.mp h
    exact ⟨rfl, casefoldEq_iff.mp hfold⟩
  · cases h

theorem namedValueCandidate_eq (h : context.Proper) (hs : entry.Sound context) (name : Name) :
    namedValueCandidate context name entry = .ok (entry.candidate? context name) := by
  unfold namedValueCandidate NamedValueEntry.candidate?
  rw [validateValueNameBytes_of_valueLike hs.1, ok_bind]
  by_cases hn : casefoldEq entry.name name = true
  · rw [if_neg (not_not_intro hn), if_pos hn]
    exact candidateFrom_of_sound h hs.2
  · rw [if_pos hn, if_neg hn]

theorem namedBlanketCandidate_eq (h : context.Proper) (hs : blanket.Sound context) :
    namedBlanketCandidate context blanket = .ok (blanket.namedCandidate? context) :=
  candidateFrom_of_sound h ⟨hs.1, fun ha => ⟨(hs.2 ha).1, rfl⟩⟩

theorem nameSeenBefore_map {α : Type} {nameOf : α → Name} {previous : List α} {a : α}
    {validate : Name → LcsLimits → LcsResult Name}
    (hok : ∀ b ∈ previous, validate (nameOf b) context.limits = .ok (nameOf b)) :
    nameSeenBefore validate context.limits (previous.map nameOf) (nameOf a) =
      .ok (previous.any fun b => foldName (nameOf b) = foldName (nameOf a)) := by
  rw [nameSeenBefore_eq (forall_mem_map.mpr hok), any_map]
  exact congrArg _ (congrArg _ (funext fun b => casefoldEq_eq_decide _ _))

/-! ## The checks before -/

section

variable (h : context.Proper)

include h

theorem pathEntry_sound_of_ok {entry : PathEntry} {c : Option PathCandidate}
    (hc : pathCandidate context entry = .ok c) : entry.Sound context := by
  obtain ⟨hl, hs⟩ := sound_of_candidateFrom h hc
  refine ⟨hl, fun ha => ⟨(hs ha).1, ?_⟩⟩
  obtain ⟨target, ht⟩ := (hs ha).2
  rw [ht, validatePathTarget_eq_self ht]

theorem valueEntry_sound_of_ok {entry : ValueEntry}
    (hc : valueCandidate context entry = .ok c) : entry.Sound context := by
  obtain ⟨hl, hs⟩ := sound_of_candidateFrom h hc
  refine ⟨hl, fun ha => ⟨(hs ha).1, ?_⟩⟩
  obtain ⟨payload, hp⟩ := (hs ha).2
  rw [hp, validateSourceValuePayload_eq_payload hp]

theorem blanket_sound_of_ok (hc : blanketCandidate context blanket = .ok c) :
    blanket.Sound context := by
  obtain ⟨hl, hs⟩ := sound_of_candidateFrom h hc
  exact ⟨hl, fun ha => ⟨(hs ha).1, trivial⟩⟩

theorem sound_of_prevalidateSubkey {entries : List NamedPathEntry}
    (hpre : prevalidateSubkeyEnumerationSource context entries = .ok ()) :
    ∀ e ∈ entries, e.Sound context := by
  intro e he
  obtain ⟨c, hc⟩ := prevalidate_eq_ok.mp hpre e he
  obtain ⟨name, hname, hc⟩ := of_bind hc
  exact ⟨(validateKeyLikeName_eq_ok.mp hname).2, pathEntry_sound_of_ok h hc⟩

theorem sound_of_prevalidateValue
    (hpre : prevalidateValueEnumerationSource context entries blankets = .ok ()) :
    (∀ e ∈ entries, e.Sound context) ∧ ∀ b ∈ blankets, b.Sound context := by
  obtain ⟨_, hentries, hblankets⟩ := of_bind hpre
  refine ⟨fun e he => ?_, fun b hb => ?_⟩
  · obtain ⟨c, hc⟩ := prevalidate_eq_ok.mp hentries e he
    obtain ⟨name, hname, hc⟩ := of_bind hc
    exact ⟨(validateValueNameBytes_eq_ok.mp hname).2, valueEntry_sound_of_ok h hc⟩
  · obtain ⟨c, hc⟩ := prevalidate_eq_ok.mp hblankets b hb
    exact blanket_sound_of_ok h hc

theorem prevalidateValue_of_sound (hs : ∀ e ∈ entries, e.Sound context)
    (hb : ∀ b ∈ blankets, b.Sound context) :
    prevalidateValueEnumerationSource context entries blankets = .ok () := by
  unfold prevalidateValueEnumerationSource
  rw [prevalidate_eq_ok.mpr fun e he => ⟨e.entry.candidate? context, ?_⟩]
  · exact prevalidate_eq_ok.mpr fun b hm => ⟨_, blanketCandidate_eq h (hb b hm)⟩
  · rw [validateValueNameBytes_of_valueLike (hs e he).1, ok_bind, valueCandidate_eq h (hs e he).2]

end

/-! ## The enumerations -/

/-- **The enumeration of values** goes, after its checks, through the first entry of each name. -/
theorem forEachEffectiveValue_eq (emit : σ → EnumeratedValue → LcsResult σ) (s : σ) :
    forEachEffectiveValue context entries blankets emit s = (do
      validateLayerResolutionContext context
      prevalidateValueEnumerationSource context entries blankets
      (Scan.firsts (fun e => foldName e.name) [] entries).foldlM
        (emitGroup (fun e => valueGroup context entries blankets e.name) emit) (0, s)) := by
  refine bind_congr fun _ hcontext => bind_congr fun _ hpre => ?_
  have h := validateLayerResolutionContext_eq_ok.mp hcontext
  obtain ⟨hs, hb⟩ := sound_of_prevalidateValue h hpre
  refine Scan.foldAfter_eq_firsts ?_ (by simp) hs
  intro before state e hbefore he
  unfold effectiveValueRound valueNameSeenBefore
  rw [validateValueNameBytes_of_valueLike he.1, ok_bind, nameSeenBefore_map fun b hb =>
    validateValueNameBytes_of_valueLike (hbefore b hb).1]
  simp only [scanEntries_eq,
    Scan.collect_eq_ok fun e' he' => namedValueCandidate_eq h (hs e' he') e.name,
    Scan.collect_eq_ok fun b hm => namedBlanketCandidate_eq h (hb b hm)]
  rw [emitGroup, valueGroup, answer, namedValueCandidates, foldl_append]
  rfl

/-- **The enumeration of subkeys** goes, after its checks, through the first entry of each name. -/
theorem forEachVisibleSubkey_eq {entries : List NamedPathEntry}
    (emit : σ → EnumeratedSubkey → LcsResult σ) (s : σ) :
    forEachVisibleSubkey context entries emit s = (do
      validateLayerResolutionContext context
      prevalidateSubkeyEnumerationSource context entries
      (Scan.firsts (fun e => foldName e.childName) [] entries).foldlM
        (emitGroup (fun e => subkeyGroup context entries e.childName) emit) (0, s)) := by
  refine bind_congr fun _ hcontext => bind_congr fun _ hpre => ?_
  have h := validateLayerResolutionContext_eq_ok.mp hcontext
  have hs := sound_of_prevalidateSubkey h hpre
  refine Scan.foldAfter_eq_firsts ?_ (by simp) hs
  intro before state e hbefore he
  unfold visibleSubkeyRound childNameSeenBefore
  rw [validateKeyComponentBytes_of_keyLike he.1, ok_bind, nameSeenBefore_map fun b hb =>
    validateKeyComponentBytes_of_keyLike (hbefore b hb).1]
  simp only [scanEntries_eq,
    Scan.collect_eq_ok fun e' he' => namedPathCandidate_eq h (hs e' he') e.childName]
  rfl

end Pkm.Lcs
