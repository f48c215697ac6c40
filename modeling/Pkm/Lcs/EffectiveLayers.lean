import Pkm.Lcs.Model.Layers
/-!
# The layers a lookup is given

The layer table is made from a snapshot of metadata by one set of checks and checked again by
another before it is used. What the first lets through the second accepts, as long as the limits
admit the name of the base layer, which is added without a check.
-/

namespace Pkm.Lcs

open List Outcome

variable {limits : LcsLimits} {metadata : List LayerMetadataEntry} {count : ℕ}

/-- A layer with its defaults. -/
def LayerMetadataEntry.view (entry : LayerMetadataEntry) : LayerView :=
  ⟨entry.name, entry.precedence.getD 0, entry.enabled.getD true⟩

/-- The layers of a snapshot. -/
def effectiveLayers (metadata : List LayerMetadataEntry) : List LayerView :=
  baseLayerView :: (metadata.filter fun entry => !isBaseLayerName entry.name).map (·.view)

theorem foldl_count {α : Type} {p : α → Bool} (l : List α) (n : ℕ) :
    l.foldl (fun n a => if p a then n else n + 1) n = n + (l.filter fun a => !p a).length := by
  induction l generalizing n with
  | nil => rfl
  | cons a l ih => cases h : p a <;> simp [ih, h, Nat.add_assoc, Nat.add_comm 1]

theorem validateLayerMetadataEntry_eq_ok {previous : List LayerMetadataEntry} {n n' : ℕ}
    {entry : LayerMetadataEntry} (h : ∀ b ∈ previous, KeyLike limits b.name) :
    validateLayerMetadataEntry limits previous n entry = .ok n' ↔ KeyLike limits entry.name ∧
      (∀ b ∈ previous, foldName b.name ≠ foldName entry.name) ∧
      n' = if isBaseLayerName entry.name then n else n + 1 := by
  refine (checkFresh_eq_ok validateKeyLikeName_eq_ok (forall_mem_map.mpr h)).trans ?_
  rw [forall_mem_map, Except.ok.injEq, eq_comm]

theorem validateLayerMetadataSnapshot_eq_ok :
    validateLayerMetadataSnapshot limits metadata = .ok count ↔
      ((∀ entry ∈ metadata, KeyLike limits entry.name) ∧
      metadata.Pairwise fun a b => foldName a.name ≠ foldName b.name) ∧
      (effectiveLayers metadata).length ≤ limits.maxTotalLayers ∧
      count = (effectiveLayers metadata).length := by
  have hfold := fun n => Scan.foldAfter_nil_eq_ok_iff 0 n metadata
    (V := fun entry => KeyLike limits entry.name)
    (g := fun n entry => if isBaseLayerName entry.name then n else n + 1)
    (fun _ _ _ _ h => validateLayerMetadataEntry_eq_ok h)
  simp only [foldl_count, Nat.zero_add] at hfold
  simp only [validateLayerMetadataSnapshot, bind_eq_ok, hfold, ite_error_eq_ok, Nat.not_lt,
    Except.ok.injEq, effectiveLayers, length_cons, length_map]
  constructor
  · rintro ⟨_, ⟨hnames, hdistinct, rfl⟩, hle, rfl⟩
    exact ⟨⟨hnames, hdistinct⟩, hle, rfl⟩
  · rintro ⟨⟨hnames, hdistinct⟩, hle, rfl⟩
    exact ⟨_, ⟨hnames, hdistinct, rfl⟩, hle, rfl⟩

/-- The layers that are emitted, in order. -/
theorem foldlM_emitLayer (h : ∀ entry ∈ metadata, KeyLike limits entry.name)
    (seen : List LayerView) :
    metadata.foldlM (emitLayer limits fun seen view => .ok (seen ++ [view])) seen =
      .ok (seen ++ (effectiveLayers metadata).tail) := by
  induction metadata generalizing seen with
  | nil => simp [effectiveLayers]
  | cons entry metadata ih =>
    obtain ⟨hname, h⟩ := forall_mem_cons.mp h
    rw [foldlM_cons, emitLayer, validateLayerNameBytes_of_keyLike hname]
    cases hb : isBaseLayerName entry.name <;>
      simp [ih h, effectiveLayers, hb, LayerMetadataEntry.view]

/-- **What the metadata give is a layer table**: its layers fold apart, one of them is the base
layer, they are as many as announced, and a lookup accepts them exactly when the limits admit the
four bytes of the name of the base layer. -/
theorem effective_layers_valid {layers : List LayerView}
    (h : forEachEffectiveLayer limits metadata (fun seen view => .ok (seen ++ [view])) [] =
      .ok (count, layers)) :
    (validateLayerViews limits layers = .ok () ↔ 4 ≤ limits.maxPathComponentLength) ∧
      layers.countP (isBaseLayerName ·.name) = 1 ∧
      layers.Pairwise (fun a b => foldName a.name ≠ foldName b.name) ∧ count = layers.length := by
  obtain ⟨n, hn, h⟩ := of_bind h
  obtain ⟨⟨hnames, hdistinct⟩, hle, rfl⟩ := validateLayerMetadataSnapshot_eq_ok.mp hn
  simp only [foldlM_emitLayer hnames] at h
  obtain ⟨rfl, rfl⟩ := h
  change (validateLayerViews limits (effectiveLayers metadata) = _ ↔ _) ∧
    (effectiveLayers metadata).countP _ = 1 ∧ (effectiveLayers metadata).Pairwise _ ∧ _
  have hbase : isBaseLayerName baseLayerView.name = true := casefoldEq_refl _
  have hrest : ∀ layer ∈ (effectiveLayers metadata).tail,
      KeyLike limits layer.name ∧ isBaseLayerName layer.name = false := by
    simp only [effectiveLayers, tail_cons, forall_mem_map, mem_filter, Bool.not_eq_true']
    exact fun entry hentry => ⟨hnames entry hentry.1, hentry.2⟩
  have hpair : (effectiveLayers metadata).Pairwise fun a b => foldName a.name ≠ foldName b.name :=
    pairwise_cons.mpr ⟨fun layer hlayer heq => Bool.false_ne_true
      ((hrest layer hlayer).2.symm.trans (casefoldEq_iff.mpr heq.symm)),
      pairwise_map.mpr (hdistinct.filter _)⟩
  refine ⟨?_, ?_, hpair, rfl⟩
  · have hfit : KeyLike limits baseLayerName ↔ 4 ≤ limits.maxPathComponentLength := by
      have hlen : utf8Len baseLayerName = 4 := rfl
      rw [KeyLike, hlen, and_iff_right (by decide), and_iff_right (by decide),
        and_iff_left (by decide)]
    rw [validateLayerViews_eq_ok, ← hfit]
    refine ⟨fun hok => (hok.2.1 _ mem_cons_self).1, fun hkey => ⟨hle, ?_, hpair, ?_⟩⟩
    · refine forall_mem_cons.mpr ⟨⟨hkey, fun _ => ⟨rfl, rfl⟩⟩, fun layer hlayer => ?_⟩
      obtain ⟨hname, hne⟩ := hrest layer hlayer
      exact ⟨hname, fun hb => absurd (hne.symm.trans hb) Bool.false_ne_true⟩
    · exact ⟨_, mem_cons_self, hbase⟩
  · have hnone : (effectiveLayers metadata).tail.countP (isBaseLayerName ·.name) = 0 :=
      countP_eq_zero.mpr fun layer hlayer => Bool.eq_false_iff.mp (hrest layer hlayer).2
    rw [effectiveLayers, countP_cons, if_pos hbase]
    exact congrArg (· + 1) hnone

/-- The metadata of the base layer do not count. -/
theorem effective_layers_sample :
    validateLayerViews .default [baseLayerView, ⟨"Policy".toList, 5, true⟩] = .ok () := by
  have h : forEachEffectiveLayer .default
      [⟨"Policy".toList, some 5, none⟩, ⟨"BASE".toList, some 7, some false⟩]
      (fun seen view => .ok (seen ++ [view])) [] =
        .ok (2, [baseLayerView, ⟨"Policy".toList, 5, true⟩]) := by
    decide +kernel
  exact (effective_layers_valid h).1.mpr (by decide)

/-- Under limits that do not admit its name the base layer is emitted all the same. -/
theorem base_layer_too_long :
    let limits := { LcsLimits.default with maxPathComponentLength := 3 }
    forEachEffectiveLayer limits [] (fun seen view => .ok (seen ++ [view])) [] =
        .ok (1, [baseLayerView]) ∧
      validateLayerViews limits [baseLayerView] = .error (.nameTooLong "layer_name" 4 3) := by
  decide +kernel

end Pkm.Lcs
