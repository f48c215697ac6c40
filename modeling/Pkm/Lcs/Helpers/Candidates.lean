import Pkm.Lcs.Model.Resolution
/-!
# Candidates

What the resolver's loops come to. A layer is active if the table has it and it
is enabled or attached, whatever order the table is in. The entries of active
layers are the candidates, and a lookup is `answer` at the list of its
candidates: the verdict of a selection by precedence, then sequence.
-/

namespace Pkm.Lcs

open Bytes List Outcome Select

/-! ## The active layer of a name -/

variable (context : LayerResolutionContext) (entry : ValueEntry)

/-- Whether a layer is enabled or attached to the caller. -/
def LayerView.isActive (layer : LayerView) : Bool :=
  layer.enabled || context.privateLayers.any fun name => casefoldEq name layer.name

/-- The active layer of that name, if there is one. -/
def activeLayer? (name : Name) : Option ActiveLayer :=
  (context.layers.find? fun layer => casefoldEq layer.name name).bind fun layer =>
    if layer.isActive context then some ⟨layer.name, layer.precedence⟩ else none

section

variable {context context' : LayerResolutionContext} {name : Name}

/-- The search keeps the one match it made: another would be a second layer of that name. -/
theorem foldlM_matchLayer {limits : LcsLimits} {layers : List LayerView}
    (hnames : ∀ layer ∈ layers, KeyLike limits layer.name)
    (hdistinct : layers.Pairwise fun a b => foldName a.name ≠ foldName b.name)
    (matched : Option LayerView)
    (hmatched : matched.isSome → ∀ layer ∈ layers, casefoldEq layer.name name = false) :
    layers.foldlM (fun matched layer => do
      let _ ← validateLayerNameBytes layer.name limits
      if casefoldEq layer.name name then
        if matched.isSome then .error .duplicateLayerIdentity else .ok (some layer)
      else .ok matched) matched =
      (.ok (matched.or (layers.find? fun layer => casefoldEq layer.name name)) :
        LcsResult (Option LayerView)) := by
  induction layers generalizing matched with
  | nil => simp
  | cons layer rest ih =>
    obtain ⟨hfirst, hpair⟩ := pairwise_cons.mp hdistinct
    have hrest := (forall_mem_cons.mp hnames).2
    rw [foldlM_cons, validateLayerNameBytes_of_keyLike (hnames layer mem_cons_self), ok_bind]
    by_cases hm : casefoldEq layer.name name = true
    · have hnone : matched = none := by
        rcases matched with _ | m
        · rfl
        · exact absurd hm (by simp [hmatched rfl layer mem_cons_self])
      subst hnone
      rw [if_pos hm, if_neg (by simp), ok_bind, ih hrest hpair]
      · simp [hm]
      · intro _ l hl
        rw [casefoldEq_eq_decide, decide_eq_false_iff_not, ← casefoldEq_iff.mp hm]
        exact fun h => hfirst l hl h.symm
    · rw [if_neg hm, ok_bind, ih hrest hpair _
        fun h l hl => hmatched h l (mem_cons_of_mem _ hl)]
      simp [hm]

theorem privateLayerAttached_eq (h : context.Proper) (name : Name) :
    privateLayerAttached context name =
      .ok (context.privateLayers.any fun p => casefoldEq p name) := by
  refine Scan.anyM_eq_ok fun p hp => ?_
  rw [validateLayerNameBytes_of_keyLike (h.privateNames p hp)]
  rfl

/-- In a proper context the search for an active layer fails for no well-formed name. -/
theorem activeLayerForSourceEntry_eq (h : context.Proper) (hname : KeyLike context.limits name) :
    activeLayerForSourceEntry context name = .ok (activeLayer? context name) := by
  have hmatch : matchLayer context name =
      .ok (context.layers.find? fun layer => casefoldEq layer.name name) :=
    foldlM_matchLayer h.layerNames h.distinct none (by simp)
  unfold activeLayerForSourceEntry activeLayer?
  rw [validateLayerNameBytes_of_keyLike hname, hmatch]
  generalize context.layers.find? (fun layer => casefoldEq layer.name name) = found
  rcases found with _ | layer
  · rfl
  · simp only [privateLayerAttached_eq h, ok_bind, Option.bind_some]
    by_cases he : layer.enabled = true
    · simp [LayerView.isActive, he]
    · have hon : layer.isActive context =
          context.privateLayers.any fun p => casefoldEq p layer.name := by
        simp [LayerView.isActive, he]
      rw [if_neg he, ← hon]
      split <;> rfl

/-- The active layer of a name is the layer of the table with that name, if it is active. -/
theorem activeLayer?_eq_some (h : context.Proper) {active : ActiveLayer} :
    activeLayer? context name = some active ↔
      ∃ layer ∈ context.layers, foldName layer.name = foldName name ∧
        layer.isActive context = true ∧ active = ⟨layer.name, layer.precedence⟩ := by
  have hunique : ∀ a ∈ context.layers, ∀ b ∈ context.layers,
      foldName a.name = foldName b.name → a = b := by
    intro a ha b hb hab
    by_contra hne
    have : Std.Symm fun a b : LayerView => foldName a.name ≠ foldName b.name :=
      ⟨fun _ _ h => h.symm⟩
    exact h.distinct.forall ha hb hne hab
  unfold activeLayer?
  constructor
  · intro hsome
    obtain ⟨layer, hfind, hactive⟩ := Option.bind_eq_some_iff.mp hsome
    split at hactive
    · rename_i hon
      have hmatch := find?_some hfind
      exact ⟨layer, mem_of_find?_eq_some hfind, casefoldEq_iff.mp hmatch, hon,
        (Option.some.inj hactive).symm⟩
    · cases hactive
  · rintro ⟨layer, hmem, hfold, hon, rfl⟩
    have hfind : (context.layers.find? fun l => casefoldEq l.name name) = some layer := by
      rcases hf : context.layers.find? fun l => casefoldEq l.name name with _ | l
      · exact absurd (casefoldEq_iff.mpr hfold) (find?_eq_none.mp hf layer hmem)
      · have hl := find?_some hf
        rw [← hunique l (mem_of_find?_eq_some hf) layer hmem
          ((casefoldEq_iff.mp hl).trans hfold.symm), hf]
    rw [hfind, Option.bind_some, if_pos hon]

/-- Two contexts with the same layers, private layers, limits and next sequence, in any order. -/
structure LayerResolutionContext.Reorders (context context' : LayerResolutionContext) : Prop where
  layers : context.layers.Perm context'.layers
  privateLayers : context.privateLayers.Perm context'.privateLayers
  limits : context.limits = context'.limits
  nextSequence : context.nextSequence = context'.nextSequence

theorem LayerResolutionContext.Reorders.proper (hr : context.Reorders context')
    (h : context.Proper) : context'.Proper where
  layers_le := by rw [← hr.layers.length_eq, ← hr.limits]; exact h.layers_le
  layerNames layer hl := by
    rw [← hr.limits]
    exact h.layerNames layer (hr.layers.mem_iff.mpr hl)
  distinct := hr.layers.pairwise h.distinct fun h => h.symm
  base layer hl := h.base layer (hr.layers.mem_iff.mpr hl)
  exists_base := by
    obtain ⟨layer, hl, hb⟩ := h.exists_base
    exact ⟨layer, hr.layers.mem_iff.mp hl, hb⟩
  privates_le := by rw [← hr.privateLayers.length_eq, ← hr.limits]; exact h.privates_le
  privateNames name hn := by
    rw [← hr.limits]
    exact h.privateNames name (hr.privateLayers.mem_iff.mpr hn)
  privateDistinct := hr.privateLayers.pairwise h.privateDistinct fun h => h.symm

/-- **The order of the table does not matter** to which layer is active. -/
theorem LayerResolutionContext.Reorders.activeLayer?_eq (hr : context.Reorders context')
    (h : context.Proper) (name : Name) :
    activeLayer? context name = activeLayer? context' name := by
  have hactive : ∀ layer : LayerView, layer.isActive context = layer.isActive context' := by
    intro layer
    unfold LayerView.isActive
    rw [hr.privateLayers.any_eq]
  ext active
  rw [activeLayer?_eq_some h, activeLayer?_eq_some (hr.proper h)]
  simp only [hr.layers.mem_iff, hactive]

end

/-! ## From entries to candidates -/

/-- What a source's value entry says, read without its check. -/
def ValueEntry.payload : ValueCandidatePayload :=
  match RegistryValueType.fromCode entry.valueType with
  | some valueType => .value valueType entry.data
  | none => .tombstone

/-- A layer name that is well formed and, if its layer is active, a sequence number that was
given out and a payload that passes. -/
def Sound (layer : Name) (sequence : ℕ) (payload : Prop) : Prop :=
  KeyLike context.limits layer ∧
    (activeLayer? context layer ≠ none → sequence < context.nextSequence ∧ payload)

instance (context : LayerResolutionContext) (layer : Name) (sequence : ℕ) (payload : Prop)
    [Decidable payload] : Decidable (Sound context layer sequence payload) :=
  inferInstanceAs (Decidable (_ ∧ _))

def PathEntry.Sound (entry : PathEntry) : Prop :=
  Lcs.Sound context entry.layer entry.sequence (validatePathTarget entry.target = .ok entry.target)

def ValueEntry.Sound : Prop :=
  Lcs.Sound context entry.layer entry.sequence
    (validateSourceValuePayload entry = .ok entry.payload)

def BlanketTombstoneEntry.Sound (blanket : BlanketTombstoneEntry) : Prop :=
  Lcs.Sound context blanket.layer blanket.sequence True

def NamedPathEntry.Sound (entry : NamedPathEntry) : Prop :=
  KeyLike context.limits entry.childName ∧ entry.entry.Sound context

def NamedValueEntry.Sound (entry : NamedValueEntry) : Prop :=
  ValueLike context.limits entry.name ∧ entry.entry.Sound context

instance (context : LayerResolutionContext) : DecidablePred (ValueEntry.Sound context) :=
  fun _ => inferInstanceAs (Decidable (Lcs.Sound ..))

instance (context : LayerResolutionContext) :
    DecidablePred (BlanketTombstoneEntry.Sound context) :=
  fun _ => inferInstanceAs (Decidable (Lcs.Sound ..))

instance (context : LayerResolutionContext) : DecidablePred (PathEntry.Sound context) :=
  fun _ => inferInstanceAs (Decidable (Lcs.Sound ..))

def PathEntry.candidate? (entry : PathEntry) : Option PathCandidate :=
  (activeLayer? context entry.layer).map fun layer => ⟨layer, entry.sequence, entry.target⟩

def ValueEntry.candidate? : Option ValueCandidate :=
  (activeLayer? context entry.layer).map fun layer => ⟨layer, entry.sequence, entry.payload⟩

def BlanketTombstoneEntry.candidate? (blanket : BlanketTombstoneEntry) : Option ValueCandidate :=
  (activeLayer? context blanket.layer).map fun layer => ⟨layer, blanket.sequence, .tombstone⟩

/-- A candidate for a requested name is one whose name folds to it. -/
def NamedPathEntry.candidate? (requested : Name) (entry : NamedPathEntry) :
    Option NamedPathCandidate :=
  if casefoldEq entry.childName requested then
    (activeLayer? context entry.entry.layer).map fun layer =>
      ⟨entry.childName, layer, entry.entry.sequence, entry.entry.target⟩
  else none

section

variable {context : LayerResolutionContext}

theorem validateSequence_eq_ok {sequence : ℕ} {u : Unit} :
    validateSequence context sequence = .ok u ↔ sequence < context.nextSequence := by
  rw [validateSequence, ite_error_eq_ok, Nat.not_le, and_iff_left rfl]

theorem validateSourceValuePayload_eq_payload {entry : ValueEntry} {payload : ValueCandidatePayload}
    (h : validateSourceValuePayload entry = .ok payload) : payload = entry.payload := by
  unfold validateSourceValuePayload validateValueWriteType at h
  unfold ValueEntry.payload
  by_cases ht : entry.valueType = regTombstone
  · rw [if_pos ht] at h
    obtain ⟨t, hv, hp⟩ := of_bind h
    obtain ⟨-, hv⟩ := of_guard hv
    obtain ⟨-, hv⟩ := of_guard hv
    cases hv
    rw [ht]
    exact (Except.ok.inj hp).symm
  · rw [if_neg ht] at h
    rcases hc : RegistryValueType.fromCode entry.valueType with _ | t
    · simp [hc] at h
    · simp only [hc] at h
      exact (Except.ok.inj h).symm

theorem validatePathTarget_eq_self {target checked : PathTarget}
    (h : validatePathTarget target = .ok checked) : checked = target := by
  rcases target with guid | _
  · exact (Except.ok.inj (of_guard h).2).symm
  · exact (Except.ok.inj h).symm

variable {π α : Type} {layer : Name} {sequence : ℕ} {payload : LcsResult π}
  {build : ActiveLayer → π → α}

section

variable (h : context.Proper)

include h

theorem candidateFrom_of_sound {p : π} (hs : Sound context layer sequence (payload = .ok p)) :
    candidateFrom context layer sequence payload build =
      .ok ((activeLayer? context layer).map fun active => build active p) := by
  unfold candidateFrom
  rw [activeLayerForSourceEntry_eq h hs.1]
  rcases ha : activeLayer? context layer with _ | active
  · rfl
  · obtain ⟨hseq, hp⟩ := hs.2 (by simp [ha])
    have hv : validateSequence context sequence = .ok () := validateSequence_eq_ok.mpr hseq
    simp only [hv, hp, ok_bind, Option.map_some]

/-- An entry of a layer that is not active is passed over, whatever else it says. -/
theorem candidateFrom_of_inactive (hl : KeyLike context.limits layer)
    (ha : activeLayer? context layer = none) :
    candidateFrom context layer sequence payload build = .ok none := by
  unfold candidateFrom
  rw [activeLayerForSourceEntry_eq h hl, ha]
  rfl

/-- An entry that is read at all is sound. -/
theorem sound_of_candidateFrom {c : Option α}
    (hc : candidateFrom context layer sequence payload build = .ok c) :
    Sound context layer sequence (∃ p, payload = .ok p) := by
  obtain ⟨active, hactive, hc⟩ := of_bind hc
  have hl : KeyLike context.limits layer := by
    obtain ⟨_, hname, -⟩ := of_bind hactive
    exact (validateKeyLikeName_eq_ok.mp hname).2
  refine ⟨hl, fun ha => ?_⟩
  rw [activeLayerForSourceEntry_eq h hl] at hactive
  cases hactive
  obtain ⟨active, hactive⟩ := Option.ne_none_iff_exists'.mp ha
  rw [hactive] at hc
  obtain ⟨_, hseq, hc⟩ := of_bind hc
  obtain ⟨p, hp, -⟩ := of_bind hc
  exact ⟨validateSequence_eq_ok.mp hseq, p, hp⟩

theorem pathCandidate_eq {entry : PathEntry} (hs : entry.Sound context) :
    pathCandidate context entry = .ok (entry.candidate? context) :=
  candidateFrom_of_sound h hs

theorem valueCandidate_eq {entry : ValueEntry} (hs : entry.Sound context) :
    valueCandidate context entry = .ok (entry.candidate? context) :=
  candidateFrom_of_sound h hs

theorem blanketCandidate_eq {blanket : BlanketTombstoneEntry} (hs : blanket.Sound context) :
    blanketCandidate context blanket = .ok (blanket.candidate? context) :=
  candidateFrom_of_sound h ⟨hs.1, fun ha => ⟨(hs.2 ha).1, rfl⟩⟩

theorem namedPathCandidate_eq {entry : NamedPathEntry}
    (hs : entry.Sound context) (requested : Name) :
    namedPathCandidate context requested entry = .ok (entry.candidate? context requested) := by
  unfold namedPathCandidate NamedPathEntry.candidate?
  rw [validateKeyComponentBytes_of_keyLike hs.1, ok_bind]
  by_cases hn : casefoldEq entry.childName requested = true
  · rw [if_neg (not_not_intro hn), if_pos hn]
    exact candidateFrom_of_sound h hs.2
  · rw [if_pos hn, if_neg hn]

end

end

/-! ## The answer of a selection -/

/-- Precedence first, then sequence. -/
def rank {α : Type} (tuple : α → ℕ × ℕ) (c : α) : ℕ ×ₗ ℕ := toLex (tuple c)

/-- What the candidates, in this order, come to. -/
def answer {α ρ : Type} (tuple : α → ℕ × ℕ) (visible : α → Option ρ) (candidates : List α) :
    LcsResult (Resolution ρ) :=
  conclude tuple visible (candidates.foldl (updateBest tuple) (none, false))

section

variable {α β ρ τ : Type} {tuple : α → ℕ × ℕ} {visible : α → Option ρ} {candidates : List α}

/-- The comparison of tuples is the lexicographic order. -/
theorem updateBest_eq (tuple : α → ℕ × ℕ) : updateBest tuple = update (rank tuple) := by
  funext ⟨best, dup⟩ c
  unfold updateBest update compareCandidateTuple rank
  rcases best with _ | b
  · rfl
  · simp only [Option.map_some, Prod.Lex.toLex_lt_toLex]
    rcases Nat.lt_trichotomy (tuple c).1 (tuple b).1 with hp | hp | hp
    · rw [Nat.compare_eq_lt.mpr hp, if_neg (by omega), if_pos (.inl hp)]
    · rw [Nat.compare_eq_eq.mpr hp]
      rcases Nat.lt_trichotomy (tuple c).2 (tuple b).2 with hs | hs | hs
      · rw [Nat.compare_eq_lt.mpr hs, if_neg (by omega), if_pos (.inr ⟨hp, hs⟩)]
      · rw [Nat.compare_eq_eq.mpr hs, if_neg (by omega), if_neg (by omega)]
      · rw [Nat.compare_eq_gt.mpr hs, if_pos (.inr ⟨hp.symm, hs⟩)]
    · rw [Nat.compare_eq_gt.mpr hp, if_pos (.inl hp)]

/-- How a verdict is reported. -/
def report (visible : α → Option ρ) : Choice α (ℕ ×ₗ ℕ) → LcsResult (Resolution ρ)
  | .nothing => .ok .notFound
  | .winner c =>
    match visible c with
    | some result => .ok (.found result)
    | none => .ok .notFound
  | .tie k => .error (.duplicateWinningSequenceTie (ofLex k).1 (ofLex k).2)

theorem answer_eq_report :
    answer tuple visible candidates = report visible (Select.choose (rank tuple) candidates) := by
  unfold answer Select.choose
  rw [updateBest_eq]
  rcases candidates.foldl (update (rank tuple)) (none, false) with ⟨_ | c, _ | _⟩ <;> rfl

theorem answer_eq_found {result : ρ} :
    answer tuple visible candidates = .ok (.found result) ↔
      ∃ c, Wins (rank tuple) candidates c ∧ visible c = some result := by
  rw [answer_eq_report]
  simp only [← choose_eq_winner]
  rcases Select.choose (rank tuple) candidates with _ | c | k
  · simp [report]
  · rcases hv : visible c with _ | r <;> simp [report, hv]
  · simp [report]

theorem answer_eq_notFound :
    answer tuple visible candidates = .ok .notFound ↔
      candidates = [] ∨ ∃ c, Wins (rank tuple) candidates c ∧ visible c = none := by
  rw [answer_eq_report, ← choose_eq_nothing (rank tuple)]
  simp only [← choose_eq_winner]
  rcases Select.choose (rank tuple) candidates with _ | c | k
  · simp [report]
  · rcases hv : visible c with _ | r <;> simp [report, hv]
  · simp [report]

/-- The only error of a selection is the tie at its greatest tuple. -/
theorem answer_eq_error {e : LcsError} :
    answer tuple visible candidates = .error e ↔
      ∃ k, Ties (rank tuple) candidates k ∧
        e = .duplicateWinningSequenceTie (ofLex k).1 (ofLex k).2 := by
  rw [answer_eq_report]
  simp only [← choose_eq_tie]
  rcases Select.choose (rank tuple) candidates with _ | c | k
  · simp [report]
  · rcases hv : visible c with _ | r <;> simp [report, hv]
  · simp [report, eq_comm]

theorem answer_eq_tie {precedence sequence : ℕ} :
    answer tuple visible candidates =
        .error (.duplicateWinningSequenceTie precedence sequence) ↔
      Ties (rank tuple) candidates (toLex (precedence, sequence)) := by
  rw [answer_eq_error]
  constructor
  · rintro ⟨k, ht, he⟩
    cases he
    exact ht
  · exact fun ht => ⟨_, ht, rfl⟩

theorem answer_perm {candidates' : List α} (hp : candidates.Perm candidates') :
    answer tuple visible candidates = answer tuple visible candidates' := by
  rw [answer_eq_report, answer_eq_report, choose_perm hp]

def Resolution.map (f : ρ → τ) : Resolution ρ → Resolution τ
  | .found result => .found (f result)
  | .notFound => .notFound

/-- Candidates that carry more than their tuple are resolved alike. -/
theorem answer_map {tuple' : β → ℕ × ℕ} {visible' : β → Option τ} (f : β → α) (g : τ → ρ)
    (htuple : ∀ b, tuple (f b) = tuple' b) (hvisible : ∀ b, visible (f b) = (visible' b).map g)
    (cs : List β) :
    answer tuple visible (cs.map f) = (answer tuple' visible' cs).map (Resolution.map g) := by
  have hrank : rank tuple ∘ f = rank tuple' := by
    funext b
    simp [rank, htuple]
  rw [answer_eq_report, answer_eq_report, choose_map, hrank]
  rcases Select.choose (rank tuple') cs with _ | c | k
  · rfl
  · rcases hv : visible' c with _ | r <;> simp [Choice.map, report, hvisible, hv] <;> rfl
  · rfl

/-- A loop over entries updates the state with their candidates. -/
theorem scanEntries_eq {ι : Type} (candidate : ι → LcsResult (Option α))
    (update : Best α → α → Best α) (state : Best α) (entries : List ι) :
    scanEntries candidate update state entries = (do
      let cs ← Scan.collect candidate entries
      .ok (cs.foldl update state)) :=
  Scan.foldlM_skip update state

end

/-! ## Lookups are answers -/

variable {context : LayerResolutionContext}

theorem resolvePathEntry_eq (context : LayerResolutionContext) (entries : List PathEntry) :
    resolvePathEntry context entries = (do
      validateLayerResolutionContext context
      let cs ← Scan.collect (pathCandidate context) entries
      answer PathCandidate.tuple PathCandidate.visible cs) := by
  unfold resolvePathEntry
  rw [scanEntries_eq]
  simp only [bind_assoc]
  rfl

theorem resolveValue_eq (context : LayerResolutionContext) (entries : List ValueEntry)
    (blankets : List BlanketTombstoneEntry) :
    resolveValue context entries blankets = (do
      validateLayerResolutionContext context
      let cs ← Scan.collect (valueCandidate context) entries
      let bs ← Scan.collect (blanketCandidate context) blankets
      answer ValueCandidate.tuple ValueCandidate.visible (cs ++ bs)) := by
  unfold resolveValue
  simp only [scanEntries_eq, bind_assoc, answer, foldl_append]
  rfl

theorem resolveNamedPathEntry_eq (context : LayerResolutionContext) (requested : Name)
    (entries : List NamedPathEntry) :
    resolveNamedPathEntry context requested entries = (do
      validateLayerResolutionContext context
      let requestedName ← validateKeyComponentBytes requested context.limits
      prevalidateSubkeyEnumerationSource context entries
      let cs ← Scan.collect (namedPathCandidate context requestedName) entries
      answer NamedPathCandidate.tuple NamedPathCandidate.visible cs) := by
  unfold resolveNamedPathEntry
  simp only [scanEntries_eq, bind_assoc]
  rfl

end Pkm.Lcs
