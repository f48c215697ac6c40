import Pkm.Lcs.Enumeration
import Pkm.Lcs.Model.Responses
/-!
# Complete metadata

The checks of a response pass exactly when the keys that its path entries lead to are
the keys its records tell of, and each has one record. What layer resolution finds in
such a response is the target of one of its entries, so it has one record too.
-/

namespace Pkm.Lcs

open List Outcome

/-- The targets of the entries are the keys of the records, and each has one record. -/
structure CompleteMetadata (entries : List PathEntry) (metadata : List KeyMetadata) : Prop where
  same : ∀ guid, (∃ e ∈ entries, e.target = .guid guid) ↔ ∃ record ∈ metadata, record.guid = guid
  not_nil : ∀ record ∈ metadata, record.guid ≠ nilGuid
  once : ∀ record ∈ metadata, metadata.countP (·.guid == record.guid) = 1

/-- What a lookup of a name or an enumeration of the children finds has one record. -/
structure ResolvesWithin (entries : List NamedPathEntry) (metadata : List KeyMetadata) : Prop where
  lookup : ∀ context name found, resolveNamedPathEntry context name entries = .ok (.found found) →
    metadata.countP (·.guid == found.path.guid) = 1
  enumeration : ∀ (context : LayerResolutionContext) (σ : Type)
    (emit : σ → EnumeratedSubkey → LcsResult σ) (s s' : σ) (n : ℕ),
    forEachVisibleSubkey context entries emit s = .ok (n, s') →
      ∃ items : List EnumeratedSubkey, items.foldlM emit s = .ok s' ∧ n = items.length ∧
        ∀ item ∈ items, metadata.countP (·.guid == item.path.guid) = 1

theorem validateMetadataCompleteness_eq_ok {entries : List PathEntry}
    {metadata : List KeyMetadata} :
    validateMetadataCompleteness entries metadata = .ok () ↔ CompleteMetadata entries metadata := by
  refine (bind_eq_ok.trans ⟨fun ⟨_, h⟩ => h, fun h => ⟨(), h⟩⟩).trans ?_
  rw [Scan.forM_eq_ok, Scan.forM_eq_ok]
  constructor
  · rintro ⟨hentries, hrecords⟩
    simp only [ite_error_eq_ok, not_not, any_eq_true, beq_iff_eq, and_true] at hrecords
    refine ⟨fun guid => ⟨?_, ?_⟩, fun record hm => (hrecords record hm).1, fun record hm => ?_⟩
    · rintro ⟨e, he, htarget⟩
      simpa [htarget] using hentries e he
    · rintro ⟨record, hm, rfl⟩
      exact (hrecords record hm).2.2
    · have hpos : 0 < metadata.countP (·.guid == record.guid) :=
        countP_pos_iff.mpr ⟨record, hm, beq_self_eq_true _⟩
      have hcount := (hrecords record hm).2.1
      omega
  · intro h
    refine ⟨fun e he => ?_, fun record hm => ?_⟩
    · rcases htarget : e.target with guid | _
      · simpa using (h.same guid).mp ⟨e, he, htarget⟩
      · rfl
    · simp [h.not_nil record hm, h.once record hm, (h.same _).mpr ⟨record, hm, rfl⟩]

section

variable {context : LayerResolutionContext} {entries : List NamedPathEntry} {name : Name}
  {metadata : List KeyMetadata}

theorem exists_target_of_subkeyGroup {item : EnumeratedSubkey}
    (h : subkeyGroup context entries name = .ok (.found item)) :
    ∃ e ∈ entries, e.entry.target = .guid item.path.guid := by
  obtain ⟨c, hwins, hvisible⟩ := answer_eq_found.mp h
  obtain ⟨e, he, hc⟩ := mem_filterMap.mp hwins.mem
  refine ⟨e, he, ?_⟩
  unfold NamedPathEntry.candidate? at hc
  split at hc
  · obtain ⟨layer, -, rfl⟩ := Option.map_eq_some_iff.mp hc
    unfold NamedPathCandidate.enumerated at hvisible
    split at hvisible
    · cases hvisible
      assumption
    · cases hvisible
  · cases hc

/-- **Resolution finds targets of entries**, and each of them has one record. -/
theorem CompleteMetadata.resolvesWithin
    (h : CompleteMetadata (entries.map (·.entry)) metadata) : ResolvesWithin entries metadata := by
  have hgroup (context : LayerResolutionContext) (name : Name) (item : EnumeratedSubkey)
      (hitem : subkeyGroup context entries name = .ok (.found item)) :
      metadata.countP (·.guid == item.path.guid) = 1 := by
    obtain ⟨e, he, htarget⟩ := exists_target_of_subkeyGroup hitem
    obtain ⟨record, hm, hguid⟩ := (h.same item.path.guid).mp ⟨e.entry, mem_map_of_mem he, htarget⟩
    exact hguid ▸ h.once record hm
  constructor
  · intro context name found hfound
    have hok := hfound
    rw [resolveNamedPathEntry_eq] at hok
    obtain ⟨_, hcontext, hok⟩ := of_bind hok
    obtain ⟨_, hname, hok⟩ := of_bind hok
    obtain ⟨_, hpre, hok⟩ := of_bind hok
    have hproper := validateLayerResolutionContext_eq_ok.mp hcontext
    rw [resolveNamedPathEntry_eq_group hproper (sound_of_prevalidateSubkey hproper hpre) name
      (validateKeyLikeName_eq_ok.mp hname).2] at hfound
    rcases hg : subkeyGroup context entries name with err | ⟨item⟩ | _ <;> rw [hg] at hfound
    · cases hfound
    · cases hfound
      exact hgroup context name item hg
    · cases hfound
  · intro context σ emit s s' n hok
    rw [forEachVisibleSubkey_eq] at hok
    obtain ⟨_, -, hok⟩ := of_bind hok
    obtain ⟨_, -, hok⟩ := of_bind hok
    obtain ⟨items, hitems, hfold, hn⟩ := foldlM_emitGroup_eq_ok.mp hok
    refine ⟨items, hfold, by omega, fun item hitem => ?_⟩
    obtain ⟨e, -, hfound⟩ := (mem_collect_firsts subkeyGroup_congr hitems).mp hitem
    exact hgroup context e.childName item hfound

end

/-- **Complete metadata.** A response passes the check of its kind exactly when its metadata is
complete, and then whatever layers are visible, each key found in it has one record. -/
theorem response_metadata_complete :
    (∀ payload, (validateRsiLookupMetadataCompleteness payload = .ok () ↔
        CompleteMetadata payload.entries payload.metadata) ∧
      (validateRsiLookupMetadataCompleteness payload = .ok () →
        ∀ childName, ResolvesWithin (payload.named childName) payload.metadata)) ∧
    ∀ payload, (validateRsiEnumChildrenMetadataCompleteness payload = .ok () ↔
        CompleteMetadata (payload.children.flatMap (·.pathEntries)) payload.metadata) ∧
      (validateRsiEnumChildrenMetadataCompleteness payload = .ok () →
        ResolvesWithin payload.named payload.metadata) := by
  refine ⟨fun payload => ⟨validateMetadataCompleteness_eq_ok, fun hok childName => ?_⟩,
    fun payload => ⟨validateMetadataCompleteness_eq_ok, fun hok => ?_⟩⟩
  · refine CompleteMetadata.resolvesWithin ?_
    rw [LookupPayload.named, map_map]
    simpa [Function.comp_def] using validateMetadataCompleteness_eq_ok.mp hok
  · refine CompleteMetadata.resolvesWithin ?_
    rw [EnumChildrenPayload.named, map_flatMap]
    simpa [Function.comp_def] using validateMetadataCompleteness_eq_ok.mp hok

end Pkm.Lcs
