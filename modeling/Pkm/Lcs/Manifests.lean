import Pkm.Lcs.Model.Manifest
/-!
# A restore without the privilege

The manifests of a backup say which layers it writes to, the layer table how high they
are. Names are compared by folding throughout, so that one layer cannot pass the gate
under another spelling.
-/

namespace Pkm.Lcs

open List Outcome

variable {limits : LcsLimits} {manifests : List BackupLayerManifestPayload}

/-- A reference that is accepted has a manifest. -/
theorem exists_manifest_of_contains {referenced : Name}
    (h : backupManifestContainsLayer limits manifests referenced = .ok true) :
    ∃ manifest ∈ manifests, casefoldEq manifest.name referenced = true := by
  unfold backupManifestContainsLayer at h
  induction manifests with
  | nil => cases h
  | cons manifest rest ih =>
    obtain ⟨found, hfound, h⟩ := of_bind h
    obtain ⟨name, hname, hfound⟩ := of_bind hfound
    obtain ⟨rfl, -⟩ := validateKeyLikeName_eq_ok.mp hname
    cases hfound
    cases heq : casefoldEq manifest.name referenced with
    | true => exact ⟨manifest, mem_cons_self, heq⟩
    | false =>
      rw [heq] at h
      obtain ⟨other, hmem, hother⟩ := ih h
      exact ⟨other, mem_cons_of_mem _ hmem, hother⟩

/-- Where the first cached layer of a name is not raised and names differ, none of that name is. -/
theorem precedence_eq_zero_of_cached {name : Name} {layers : List LayerView}
    (hdistinct : layers.Pairwise fun a b => foldName a.name ≠ foldName b.name)
    (h : cachedLayerAboveZero limits name layers = .ok false) :
    ∀ layer ∈ layers, foldName layer.name = foldName name → layer.precedence = 0 := by
  induction layers with
  | nil => simp
  | cons first rest ih =>
    obtain ⟨hfirst, hrest⟩ := pairwise_cons.mp hdistinct
    obtain ⟨checked, hchecked, h⟩ := of_bind h
    obtain ⟨rfl, -⟩ := validateKeyLikeName_eq_ok.mp hchecked
    intro layer hmem hname
    rw [casefoldEq_eq_decide] at h
    by_cases heq : foldName first.name = foldName name
    · rw [if_pos (decide_eq_true heq)] at h
      rcases mem_cons.mp hmem with rfl | hmem
      · simpa using Except.ok.inj h
      · exact absurd (heq.trans hname.symm) (hfirst layer hmem)
    · rw [if_neg (by simpa using heq)] at h
      rcases mem_cons.mp hmem with rfl | hmem
      · exact absurd hname heq
      · exact ih hrest h layer hmem hname

/-- A gate that opens without the privilege has found no manifest raised and no cached layer. -/
theorem not_raised_of_gate {cached : List LayerView} {required : Bool}
    (h : planBackupRestoreLayerPrecedenceGate limits manifests cached false = .ok required) :
    (cached.Pairwise fun a b => foldName a.name ≠ foldName b.name) ∧
      ∀ manifest ∈ manifests, manifest.precedence = 0 ∧
        cachedLayerAboveZero limits manifest.name cached = .ok false := by
  obtain ⟨_, -, h⟩ := of_bind h
  obtain ⟨⟨⟩, hviews, h⟩ := of_bind h
  obtain ⟨raised, hraised, h⟩ := of_bind h
  obtain ⟨hnone, -⟩ := of_guard h
  obtain rfl : raised = false := by simpa using hnone
  have hproper : LayerResolutionContext.Proper ⟨cached, [], limits, 0⟩ :=
    validateLayerResolutionContext_eq_ok.mp (bind_eq_ok.mpr ⟨(), hviews, rfl⟩)
  refine ⟨hproper.distinct, fun manifest hmem => ?_⟩
  have hfalse := Scan.of_anyM_eq_false hraised manifest hmem
  by_cases hpos : manifest.precedence > 0
  · rw [if_pos hpos] at hfalse
    cases hfalse
  · rw [if_neg hpos] at hfalse
    obtain ⟨checked, hchecked, hcached⟩ := of_bind hfalse
    obtain ⟨rfl, -⟩ := validateKeyLikeName_eq_ok.mp hchecked
    exact ⟨by omega, hcached⟩

/-- **Without the privilege a restore reaches no raised layer.** If the manifests are accepted for
the layers that are referred to and the gate opens, then every such layer has a manifest, and every
manifest and every cached layer of its name has precedence zero. -/
theorem restore_reaches_no_raised_layer {referencedLayers : List Name} {cached : List LayerView}
    {summary : BackupLayerManifestSetSummary} {required : Bool}
    (hset : validateBackupLayerManifestSet limits manifests referencedLayers = .ok summary)
    (hgate : planBackupRestoreLayerPrecedenceGate limits manifests cached false = .ok required) :
    ∀ name ∈ referencedLayers,
      (∃ manifest ∈ manifests, casefoldEq manifest.name name = true) ∧
        (∀ manifest ∈ manifests, casefoldEq manifest.name name = true → manifest.precedence = 0) ∧
        ∀ layer ∈ cached, casefoldEq layer.name name = true → layer.precedence = 0 := by
  intro name hmem
  obtain ⟨⟨⟩, -, hset⟩ := of_bind hset
  obtain ⟨⟨⟩, hrefs, -⟩ := of_bind hset
  obtain ⟨checked, hchecked, href⟩ := of_bind (Scan.forM_eq_ok.mp hrefs name hmem)
  obtain ⟨rfl, -⟩ := validateKeyLikeName_eq_ok.mp hchecked
  obtain ⟨found, hfound, href⟩ := of_bind href
  obtain rfl : found = true := by
    by_contra hne
    rw [if_neg hne] at href
    cases href
  obtain ⟨manifest, hmanifest, hname⟩ := exists_manifest_of_contains hfound
  obtain ⟨hdistinct, hgates⟩ := not_raised_of_gate hgate
  refine ⟨⟨manifest, hmanifest, hname⟩, fun other hother _ => (hgates other hother).1, ?_⟩
  intro layer hlayer heq
  refine precedence_eq_zero_of_cached hdistinct (hgates manifest hmanifest).2 layer hlayer ?_
  rw [casefoldEq_iff.mp heq, casefoldEq_iff.mp hname]

/-- The base layer, referred to in capitals. -/
theorem base_layer_not_raised :
    let manifests := [⟨"base".toList, 0, true, Kacs.Sid.system.bytes⟩]
    (∃ summary, validateBackupLayerManifestSet .default manifests ["BASE".toList] = .ok summary) ∧
      ∀ layer ∈ [(⟨"Base".toList, 0, true⟩ : LayerView)],
        casefoldEq layer.name "BASE".toList = true → layer.precedence = 0 := by
  intro manifests
  obtain ⟨summary, hset⟩ := exists_of_isOk
    (x := validateBackupLayerManifestSet .default manifests ["BASE".toList]) (by decide +kernel)
  obtain ⟨required, hgate⟩ := exists_of_isOk
    (x := planBackupRestoreLayerPrecedenceGate .default manifests
      [⟨"Base".toList, 0, true⟩] false) (by decide +kernel)
  exact ⟨⟨summary, hset⟩, (restore_reaches_no_raised_layer hset hgate _ mem_cons_self).2.2⟩

end Pkm.Lcs
