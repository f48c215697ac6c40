import Pkm.Lcs.Model.Names
import Pkm.Lib.Scan
/-!
# Layers

A layer context is what a lookup sees of the layer table: the published layers
with precedence and enablement, the private layers attached to the caller, the
limits and the next sequence number. It is checked before every lookup: layer
names are well formed and differ by folding, the base layer is there with
precedence zero and enabled, and so are the private layers.
-/

namespace Pkm.Lcs

open Outcome

/-- One published layer. -/
structure LayerView where
  name : Name
  precedence : ℕ
  enabled : Bool
  deriving DecidableEq

/-- What a lookup sees of the layers. -/
structure LayerResolutionContext where
  layers : List LayerView
  privateLayers : List Name
  limits : LcsLimits
  nextSequence : ℕ

/-- Whether a name folds to one of the names before it. -/
def nameSeenBefore (validate : Name → LcsLimits → LcsResult Name) (limits : LcsLimits)
    (previous : List Name) (currentName : Name) : LcsResult Bool :=
  previous.anyM fun name => do
    let previousName ← validate name limits
    .ok (casefoldEq previousName currentName)

variable (limits : LcsLimits)

def layerNameSeenBefore (previous : List LayerView) (currentName : Name) : LcsResult Bool :=
  nameSeenBefore validateLayerNameBytes limits (previous.map (·.name)) currentName

def privateLayerSeenBefore (previous : List Name) (currentName : Name) : LcsResult Bool :=
  nameSeenBefore validateLayerNameBytes limits previous currentName

/-- One round of the check of the layer table, which remembers whether it met the base layer. -/
def validateLayerView (previous : List LayerView) (foundBase : Bool) (layer : LayerView) :
    LcsResult Bool := do
  let name ← validateLayerNameBytes layer.name limits
  if ← layerNameSeenBefore limits previous name then .error .duplicateLayerIdentity
  else if isBaseLayerName name then
    if layer.precedence ≠ 0 ∨ ¬ layer.enabled then
      .error (.invalidBaseLayerProperties layer.precedence layer.enabled)
    else .ok true
  else .ok foundBase

def validateLayerViews (layers : List LayerView) : LcsResult Unit :=
  if layers.length > limits.maxTotalLayers then
    .error (.tooManyLayers layers.length limits.maxTotalLayers)
  else do
    let foundBase ← Scan.foldAfter (validateLayerView limits) [] false layers
    if ¬ foundBase then .error .missingBaseLayer else .ok ()

def validatePrivateLayer (previous : List Name) (_ : Unit) (privateLayer : Name) :
    LcsResult Unit := do
  let name ← validateLayerNameBytes privateLayer limits
  if ← privateLayerSeenBefore limits previous name then .error .duplicatePrivateLayerIdentity
  else .ok ()

def validatePrivateLayerSet (privateLayers : List Name) : LcsResult Unit :=
  if privateLayers.length > limits.maxPrivateLayersPerToken then
    .error (.tooManyPrivateLayers privateLayers.length limits.maxPrivateLayersPerToken)
  else Scan.foldAfter (validatePrivateLayer limits) [] () privateLayers

def validateLayerResolutionContext (context : LayerResolutionContext) : LcsResult Unit := do
  validateLayerViews context.limits context.layers
  validatePrivateLayerSet context.limits context.privateLayers

/-! ## The table of a metadata snapshot -/

/-- What the metadata say of a layer, before defaults. -/
structure LayerMetadataEntry where
  name : Name
  precedence : Option ℕ
  enabled : Option Bool

def baseLayerView : LayerView := ⟨baseLayerName, 0, true⟩

def metadataNameSeenBefore (previous : List LayerMetadataEntry) (currentName : Name) :
    LcsResult Bool :=
  nameSeenBefore validateLayerNameBytes limits (previous.map (·.name)) currentName

/-- One round of the check of the metadata, which counts the layers other than the base. -/
def validateLayerMetadataEntry (previous : List LayerMetadataEntry) (nonBaseCount : ℕ)
    (entry : LayerMetadataEntry) : LcsResult ℕ := do
  let name ← validateLayerNameBytes entry.name limits
  if ← metadataNameSeenBefore limits previous name then .error .duplicateLayerIdentity
  else .ok (if isBaseLayerName name then nonBaseCount else nonBaseCount + 1)

def validateLayerMetadataSnapshot (metadata : List LayerMetadataEntry) : LcsResult ℕ := do
  let nonBaseCount ← Scan.foldAfter (validateLayerMetadataEntry limits) [] 0 metadata
  let count := nonBaseCount + 1
  if count > limits.maxTotalLayers then .error (.tooManyLayers count limits.maxTotalLayers)
  else .ok count

def emitLayer {σ : Type} (limits : LcsLimits) (emit : σ → LayerView → LcsResult σ) (s : σ)
    (entry : LayerMetadataEntry) : LcsResult σ := do
  let name ← validateLayerNameBytes entry.name limits
  if isBaseLayerName name then .ok s
  else emit s ⟨name, entry.precedence.getD 0, entry.enabled.getD true⟩

/-- The base layer first, whatever the metadata say of it, and then the others in order. -/
def forEachEffectiveLayer {σ : Type} (limits : LcsLimits) (metadata : List LayerMetadataEntry)
    (emit : σ → LayerView → LcsResult σ) (s : σ) : LcsResult (ℕ × σ) := do
  let count ← validateLayerMetadataSnapshot limits metadata
  let s ← emit s baseLayerView
  let s ← metadata.foldlM (emitLayer limits emit) s
  .ok (count, s)

/-! ## What the checks say -/

theorem nameSeenBefore_eq {validate : Name → LcsLimits → LcsResult Name} {limits : LcsLimits}
    {previous : List Name} (h : ∀ name ∈ previous, validate name limits = .ok name)
    (currentName : Name) :
    nameSeenBefore validate limits previous currentName =
      .ok (previous.any fun name => casefoldEq name currentName) := by
  refine Scan.anyM_eq_ok fun name hname => ?_
  rw [h name hname]
  rfl

/-- The base layer has precedence zero and is enabled. -/
def LayerView.BaseProper (layer : LayerView) : Prop :=
  isBaseLayerName layer.name = true → layer.precedence = 0 ∧ layer.enabled = true

/-- A context that passes the check. -/
structure LayerResolutionContext.Proper (context : LayerResolutionContext) : Prop where
  layers_le : context.layers.length ≤ context.limits.maxTotalLayers
  layerNames : ∀ layer ∈ context.layers, KeyLike context.limits layer.name
  distinct : context.layers.Pairwise fun a b => foldName a.name ≠ foldName b.name
  base : ∀ layer ∈ context.layers, layer.BaseProper
  exists_base : ∃ layer ∈ context.layers, isBaseLayerName layer.name = true
  privates_le : context.privateLayers.length ≤ context.limits.maxPrivateLayersPerToken
  privateNames : ∀ name ∈ context.privateLayers, KeyLike context.limits name
  privateDistinct : context.privateLayers.Pairwise fun a b => foldName a ≠ foldName b

theorem any_casefoldEq_eq_false {names : List Name} {name : Name} :
    (names.any fun n => casefoldEq n name) = false ↔ ∀ n ∈ names, foldName n ≠ foldName name := by
  simp [casefoldEq_eq_decide]

section

variable {limits : LcsLimits} {name : Name} {previous : List Name}

/-- A name that is well formed and folds to none before it passes on to the rest of a check. -/
theorem checkFresh_eq_ok {β : Type} {validate : Name → LcsLimits → LcsResult Name}
    {Like : Name → Prop} (hlike : ∀ {n c}, validate n limits = .ok c ↔ c = n ∧ Like n)
    (h : ∀ n ∈ previous, Like n) {e : LcsError} {f : Name → LcsResult β} {b : β} :
    (do
      let name ← validate name limits
      if ← nameSeenBefore validate limits previous name then .error e else f name) = .ok b ↔
      Like name ∧ (∀ n ∈ previous, foldName n ≠ foldName name) ∧ f name = .ok b := by
  have hseen : nameSeenBefore validate limits previous name =
      .ok (previous.any fun n => casefoldEq n name) :=
    nameSeenBefore_eq (fun n hn => hlike.mpr ⟨rfl, h n hn⟩) _
  constructor
  · intro hok
    obtain ⟨_, hname, hrest⟩ := of_bind hok
    obtain ⟨rfl, hl⟩ := hlike.mp hname
    rw [hseen, ok_bind, ite_error_eq_ok, Bool.not_eq_true, any_casefoldEq_eq_false] at hrest
    exact ⟨hl, hrest⟩
  · rintro ⟨hl, hfresh, hf⟩
    rw [hlike.mpr ⟨rfl, hl⟩, ok_bind, hseen, any_casefoldEq_eq_false.mpr hfresh]
    exact hf

theorem validateLayerView_eq_ok {previous : List LayerView} {foundBase found : Bool}
    {layer : LayerView} (h : ∀ b ∈ previous, KeyLike limits b.name ∧ b.BaseProper) :
    validateLayerView limits previous foundBase layer = .ok found ↔
      (KeyLike limits layer.name ∧ layer.BaseProper) ∧
        (∀ b ∈ previous, foldName b.name ≠ foldName layer.name) ∧
        found = (foundBase || isBaseLayerName layer.name) := by
  refine (checkFresh_eq_ok validateKeyLikeName_eq_ok
    (List.forall_mem_map.mpr fun b hb => (h b hb).1)).trans ?_
  rw [List.forall_mem_map, LayerView.BaseProper]
  cases isBaseLayerName layer.name with
  | true =>
    simp only [if_true, ite_error_eq_ok, Except.ok.injEq, Bool.or_true]
    tauto
  | false =>
    simp only [Bool.false_eq_true, if_false, Except.ok.injEq, Bool.or_false]
    tauto

theorem foldl_or_any {α : Type} {p : α → Bool} (l : List α) (b : Bool) :
    l.foldl (fun found a => found || p a) b = (b || l.any p) := by
  induction l generalizing b with
  | nil => simp
  | cons a l ih => simp [ih, Bool.or_assoc]

theorem validatePrivateLayer_eq_ok {u v : Unit} (h : ∀ b ∈ previous, KeyLike limits b) :
    validatePrivateLayer limits previous u name = .ok v ↔
      KeyLike limits name ∧ (∀ b ∈ previous, foldName b ≠ foldName name) ∧ v = u :=
  (checkFresh_eq_ok validateKeyLikeName_eq_ok h).trans
    (and_congr_right fun _ => and_congr_right fun _ => iff_of_true rfl rfl)

theorem validateLayerViews_eq_ok {layers : List LayerView} :
    validateLayerViews limits layers = .ok () ↔ layers.length ≤ limits.maxTotalLayers ∧
      (∀ layer ∈ layers, KeyLike limits layer.name ∧ layer.BaseProper) ∧
      layers.Pairwise (fun a b => foldName a.name ≠ foldName b.name) ∧
      ∃ layer ∈ layers, isBaseLayerName layer.name = true := by
  have hfold := fun found => Scan.foldAfter_nil_eq_ok_iff false found layers
    (V := fun layer => KeyLike limits layer.name ∧ layer.BaseProper)
    (g := fun found layer => found || isBaseLayerName layer.name)
    (fun _ _ _ _ h => validateLayerView_eq_ok h)
  simp only [foldl_or_any] at hfold
  simp [validateLayerViews, ite_error_eq_ok, bind_eq_ok, hfold]

theorem validatePrivateLayerSet_eq_ok {privateLayers : List Name} :
    validatePrivateLayerSet limits privateLayers = .ok () ↔
      privateLayers.length ≤ limits.maxPrivateLayersPerToken ∧
      (∀ name ∈ privateLayers, KeyLike limits name) ∧
      privateLayers.Pairwise fun a b => foldName a ≠ foldName b := by
  have hfold := Scan.foldAfter_nil_eq_ok_iff () () privateLayers (V := KeyLike limits)
    (g := fun u _ => u) (fun _ _ _ _ h => validatePrivateLayer_eq_ok h)
  simp [validatePrivateLayerSet, ite_error_eq_ok, hfold]

end

/-- **A context passes the check exactly when it is proper.** -/
theorem validateLayerResolutionContext_eq_ok {context : LayerResolutionContext} :
    validateLayerResolutionContext context = .ok () ↔ context.Proper := by
  constructor
  · intro h
    obtain ⟨_, hlayers, hprivates⟩ := of_bind h
    obtain ⟨hle, hnames, hdistinct, hbase⟩ := validateLayerViews_eq_ok.mp hlayers
    obtain ⟨hple, hpnames, hpdistinct⟩ := validatePrivateLayerSet_eq_ok.mp hprivates
    exact ⟨hle, fun layer hl => (hnames layer hl).1, hdistinct,
      fun layer hl => (hnames layer hl).2, hbase, hple, hpnames, hpdistinct⟩
  · intro h
    exact bind_eq_ok.mpr ⟨(), validateLayerViews_eq_ok.mpr ⟨h.layers_le,
      fun layer hl => ⟨h.layerNames layer hl, h.base layer hl⟩, h.distinct, h.exists_base⟩,
      validatePrivateLayerSet_eq_ok.mpr ⟨h.privates_le, h.privateNames, h.privateDistinct⟩⟩

end Pkm.Lcs
