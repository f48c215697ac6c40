import Pkm.Lcs.Enumeration
/-!
# Entries of latent layers

An entry is latent if its names are well formed and its layer is not active.
Adding and removing latent entries changes no lookup and no enumeration of
subkeys. The enumeration of values is where the two runs can part: a latent
entry brings its name in as a group, and that group is resolved against the
blanket tombstones alone. If those share their greatest tuple the group fails,
and with it the whole enumeration, which without the entry may have succeeded.
-/

namespace Pkm.Lcs

open List Outcome

/-! ## Latent entries -/

variable (context : LayerResolutionContext)

/-- A well-formed name of a layer that is not active. -/
def latentLayer (layer : Name) : Bool :=
  decide (KeyLike context.limits layer) && (activeLayer? context layer).isNone

def ValueEntry.latent (entry : ValueEntry) : Bool := latentLayer context entry.layer

def BlanketTombstoneEntry.latent (blanket : BlanketTombstoneEntry) : Bool :=
  latentLayer context blanket.layer

def NamedPathEntry.latent (entry : NamedPathEntry) : Bool :=
  decide (KeyLike context.limits entry.childName) && latentLayer context entry.entry.layer

def NamedValueEntry.latent (entry : NamedValueEntry) : Bool :=
  decide (ValueLike context.limits entry.name) && latentLayer context entry.entry.layer

/-- Two lists that differ by latent elements only. -/
def DifferBy {α : Type} (latent : α → Bool) (l l' : List α) : Prop :=
  (l.filter fun a => !latent a) = l'.filter fun a => !latent a

section

variable {α β : Type} {latent : α → Bool} {l l' : List α}

section

variable (h : DifferBy latent l l')

include h

theorem DifferBy.symm : DifferBy latent l' l := Eq.symm h

theorem DifferBy.mem_of_not_latent {a : α} (ha : a ∈ l) (hlatent : latent a = false) : a ∈ l' := by
  have : a ∈ l.filter fun a => !latent a := mem_filter.mpr ⟨ha, by simp [hlatent]⟩
  rw [h] at this
  exact (mem_filter.mp this).1

theorem DifferBy.filterMap_eq {f : α → Option β}
    (hf : ∀ a, latent a = true → f a = none) : l.filterMap f = l'.filterMap f := by
  have hfilter : ∀ l : List α, (l.filter fun a => !latent a).filterMap f = l.filterMap f := by
    intro l
    induction l with
    | nil => rfl
    | cons a l ih =>
      by_cases hla : latent a = true
      · simp [hla, hf a hla, ih]
      · simp [hla, filterMap_cons, ih]
  rw [← hfilter l, ← hfilter l', h]

theorem DifferBy.collect_eq {ε : Type} {f : α → Except ε (Option β)}
    (hf : ∀ a, latent a = true → f a = .ok none) : Scan.collect f l = Scan.collect f l' := by
  have hfilter : ∀ l : List α, Scan.collect f (l.filter fun a => !latent a) = Scan.collect f l :=
    fun l => Scan.collect_filter fun a _ ha => hf a (by simpa using ha)
  rw [← hfilter l, ← hfilter l', h]

/-- A check of all elements passes over the latent ones. -/
theorem DifferBy.prevalidate_eq {f : α → LcsResult (Option β)}
    (hf : ∀ a, latent a = true → f a = .ok none) : prevalidate f l = prevalidate f l' := by
  rw [prevalidate_eq_collect, prevalidate_eq_collect, h.collect_eq hf]

end

end

section

variable {context : LayerResolutionContext} {blankets blankets' : List BlanketTombstoneEntry}
  {entries entries' : List NamedPathEntry} {layer name : Name} {entry : NamedValueEntry}

theorem latentLayer_eq_true :
    latentLayer context layer = true ↔
      KeyLike context.limits layer ∧ activeLayer? context layer = none := by
  simp [latentLayer]

theorem candidateFrom_of_latent {π α : Type} {sequence : ℕ} {payload : LcsResult π}
    {build : ActiveLayer → π → α} (h : context.Proper) (hl : latentLayer context layer = true) :
    candidateFrom context layer sequence payload build = .ok none :=
  candidateFrom_of_inactive h (latentLayer_eq_true.mp hl).1 (latentLayer_eq_true.mp hl).2

theorem valueCandidate_of_latent (h : context.Proper) (entry : ValueEntry)
    (hl : entry.latent context = true) : valueCandidate context entry = .ok none :=
  candidateFrom_of_latent h hl

theorem blanketCandidate_of_latent (h : context.Proper) (blanket : BlanketTombstoneEntry)
    (hl : blanket.latent context = true) : blanketCandidate context blanket = .ok none :=
  candidateFrom_of_latent h hl

theorem NamedValueEntry.latent_eq_true :
    entry.latent context = true ↔
      ValueLike context.limits entry.name ∧ latentLayer context entry.entry.layer = true := by
  simp [NamedValueEntry.latent]

theorem NamedPathEntry.latent_eq_true {entry : NamedPathEntry} :
    entry.latent context = true ↔
      KeyLike context.limits entry.childName ∧ latentLayer context entry.entry.layer = true := by
  simp [NamedPathEntry.latent]

theorem NamedValueEntry.candidate?_of_latent (h : entry.latent context = true) (name : Name) :
    entry.candidate? context name = none := by
  have hnone := (latentLayer_eq_true.mp (NamedValueEntry.latent_eq_true.mp h).2).2
  simp [NamedValueEntry.candidate?, hnone]

theorem NamedPathEntry.candidate?_of_latent {entry : NamedPathEntry}
    (h : entry.latent context = true) (name : Name) : entry.candidate? context name = none := by
  have hnone := (latentLayer_eq_true.mp (NamedPathEntry.latent_eq_true.mp h).2).2
  simp [NamedPathEntry.candidate?, hnone]

theorem BlanketTombstoneEntry.namedCandidate?_of_latent {blanket : BlanketTombstoneEntry}
    (h : blanket.latent context = true) : blanket.namedCandidate? context = none := by
  rw [namedCandidate?, (latentLayer_eq_true.mp h).2]
  rfl

/-! ## Lookups and groups -/

section Values

variable (hb : DifferBy (BlanketTombstoneEntry.latent context) blankets blankets')

include hb

theorem resolveValue_differBy (h : context.Proper) {entries entries' : List ValueEntry}
    (he : DifferBy (ValueEntry.latent context) entries entries') :
    resolveValue context entries blankets = resolveValue context entries' blankets' := by
  rw [resolveValue_eq, resolveValue_eq, he.collect_eq (valueCandidate_of_latent h),
    hb.collect_eq (blanketCandidate_of_latent h)]

variable {entries entries' : List NamedValueEntry}
  (he : DifferBy (NamedValueEntry.latent context) entries entries')

include he

theorem prevalidateValue_differBy (h : context.Proper) :
    prevalidateValueEnumerationSource context entries blankets =
      prevalidateValueEnumerationSource context entries' blankets' := by
  unfold prevalidateValueEnumerationSource
  rw [he.prevalidate_eq fun e hl => ?_, hb.prevalidate_eq (blanketCandidate_of_latent h)]
  obtain ⟨hname, hlayer⟩ := NamedValueEntry.latent_eq_true.mp hl
  rw [validateValueNameBytes_of_valueLike hname]
  exact candidateFrom_of_latent h hlayer

theorem valueGroup_differBy :
    valueGroup context entries blankets = valueGroup context entries' blankets' := by
  funext name
  unfold valueGroup namedValueCandidates
  rw [he.filterMap_eq fun e hl => NamedValueEntry.candidate?_of_latent hl name,
    hb.filterMap_eq fun b hl => BlanketTombstoneEntry.namedCandidate?_of_latent hl]

/-- A name that shows a value in one list shows it in the other. -/
theorem exists_valueGroup_differBy {item : EnumeratedValue}
    (h : ∃ e ∈ entries, valueGroup context entries blankets e.name = .ok (.found item)) :
    ∃ e ∈ entries', valueGroup context entries' blankets' e.name = .ok (.found item) := by
  obtain ⟨e, -, hitem⟩ := h
  obtain ⟨e', he', -, hfold, hsome⟩ := exists_entry_of_valueGroup hitem
  refine ⟨e', he.mem_of_not_latent he' ?_, ?_⟩
  · by_contra hl
    rw [NamedValueEntry.candidate?_of_latent ((Bool.not_eq_false _).mp hl)] at hsome
    cases hsome
  · rw [← valueGroup_differBy hb he, valueGroup_congr _ _ hfold, hitem]

end Values

section Paths

theorem namedPathCandidate_of_latent (h : context.Proper) (requested : Name)
    (entry : NamedPathEntry) (hl : entry.latent context = true) :
    namedPathCandidate context requested entry = .ok none := by
  obtain ⟨hname, hlayer⟩ := NamedPathEntry.latent_eq_true.mp hl
  unfold namedPathCandidate
  rw [validateKeyComponentBytes_of_keyLike hname, ok_bind]
  split
  · rfl
  · exact candidateFrom_of_latent h hlayer

/-- A name that shows a subkey or fails has an entry that is not latent. -/
theorem exists_not_latent_of_subkeyGroup
    (h : subkeyGroup context entries name ≠ .ok .notFound) :
    ∃ e ∈ entries, e.latent context = false ∧ foldName e.childName = foldName name := by
  have hne : namedPathCandidates context name entries ≠ [] :=
    fun hnil => h (answer_eq_notFound.mpr (.inl hnil))
  obtain ⟨c, hc⟩ := exists_mem_of_ne_nil _ hne
  obtain ⟨e, he, hce⟩ := mem_filterMap.mp hc
  refine ⟨e, he, ?_, (NamedPathEntry.name_of_candidate? hce).2⟩
  by_contra hl
  rw [NamedPathEntry.candidate?_of_latent ((Bool.not_eq_false _).mp hl)] at hce
  cases hce

variable (he : DifferBy (NamedPathEntry.latent context) entries entries')

include he

theorem prevalidateSubkey_differBy (h : context.Proper) :
    prevalidateSubkeyEnumerationSource context entries =
      prevalidateSubkeyEnumerationSource context entries' := by
  refine he.prevalidate_eq fun e hl => ?_
  obtain ⟨hname, hlayer⟩ := NamedPathEntry.latent_eq_true.mp hl
  rw [validateKeyComponentBytes_of_keyLike hname]
  exact candidateFrom_of_latent h hlayer

theorem resolveNamedPathEntry_differBy (h : context.Proper) (requested : Name) :
    resolveNamedPathEntry context requested entries =
      resolveNamedPathEntry context requested entries' := by
  rw [resolveNamedPathEntry_eq, resolveNamedPathEntry_eq, prevalidateSubkey_differBy he h]
  simp only [fun name => he.collect_eq (namedPathCandidate_of_latent h name)]

theorem subkeyGroup_differBy :
    subkeyGroup context entries = subkeyGroup context entries' := by
  funext name
  unfold subkeyGroup namedPathCandidates
  rw [he.filterMap_eq fun e hl => NamedPathEntry.candidate?_of_latent hl name]

/-- What a group of one list comes to, if it does not come out empty, one of the other comes to. -/
theorem exists_subkeyGroup_differBy
    {x : LcsResult (Resolution EnumeratedSubkey)} (hx : x ≠ .ok .notFound)
    (h : ∃ e ∈ entries, subkeyGroup context entries e.childName = x) :
    ∃ e ∈ entries', subkeyGroup context entries' e.childName = x := by
  obtain ⟨e, -, rfl⟩ := h
  obtain ⟨e', hel, hl, hfold⟩ := exists_not_latent_of_subkeyGroup hx
  refine ⟨e', he.mem_of_not_latent hel hl, ?_⟩
  rw [← subkeyGroup_differBy he, subkeyGroup_congr _ _ hfold]

end Paths

end

/-! ## Outcomes of enumerations -/

/-- A callback that takes every item. -/
def collectAll {ρ : Type} (items : List ρ) (item : ρ) : LcsResult (List ρ) := .ok (items ++ [item])

/-- The values an enumeration emits. -/
def effectiveValues (entries : List NamedValueEntry) (blankets : List BlanketTombstoneEntry) :
    LcsResult (List EnumeratedValue) := do
  let emitted ← forEachEffectiveValue context entries blankets collectAll []
  .ok emitted.2

/-- The subkeys an enumeration emits. -/
def visibleSubkeys (entries : List NamedPathEntry) : LcsResult (List EnumeratedSubkey) := do
  let emitted ← forEachVisibleSubkey context entries collectAll []
  .ok emitted.2

/-- Both succeed with the same items in some order, or both fail: for the same reason or both at
a tie. -/
def SameOutcome {ρ : Type} : LcsResult (List ρ) → LcsResult (List ρ) → Prop
  | .ok items, .ok items' => items.Perm items'
  | .error e, .error e' => e = e' ∨ e.IsTie ∧ e'.IsTie
  | _, _ => False

section

variable {α ι : Type} {entries entries' : List α} {entryName : α → Name}
  {group : Name → LcsResult (Resolution ι)} {nameOf : ι → Name} {g : α → LcsResult (Resolution ι)}

theorem foldlM_emitGroup_collectAll (groups : List α) (n : ℕ) (acc : List ι) :
    groups.foldlM (emitGroup g collectAll) (n, acc) = (do
      let items ← Scan.collect (shown g) groups
      .ok (n + items.length, acc ++ items)) := by
  induction groups generalizing n acc with
  | nil => simp [Scan.collect]
  | cons a rest ih =>
    rw [foldlM_cons, Scan.collect, emitGroup, shown]
    rcases g a with e | ⟨r⟩ | _
    · rfl
    · simp [emitResolved, collectAll, Resolution.result?, ih, Nat.add_assoc, Nat.add_comm 1]
    · simp only [emitResolved, ok_bind, Resolution.result?, ih]

/-- No name of the entries has a group that fails. -/
def Resolves (group : Name → LcsResult (Resolution ι)) (names : List Name) : Prop :=
  ∀ name ∈ names, ∀ e, group name ≠ .error e

theorem collect_firsts_ok_iff (hgroup : ∀ m n, foldName m = foldName n → group m = group n) :
    (∃ items, showGroups group entryName entries = .ok items) ↔
      Resolves group (entries.map entryName) := by
  constructor
  · rintro ⟨items, hitems⟩ name hname err herr
    obtain ⟨e, he, rfl⟩ := mem_map.mp hname
    obtain ⟨g, hg, hcls⟩ := Scan.exists_mem_firsts_nil (fun e => foldName (entryName e)) he
    obtain ⟨p, hp, -⟩ := Scan.exists_of_collect hitems
    have := hp g hg
    rw [shown, hgroup _ _ hcls, herr] at this
    cases this
  · intro hall
    rcases hc : showGroups group entryName entries with err | items
    · obtain ⟨g, hg, herr⟩ := Scan.exists_of_collect_error hc
      rcases hgr : group (entryName g) with err' | r
      · exact absurd hgr (hall _ (mem_map_of_mem (Scan.mem_of_mem_firsts hg).1) err')
      · simp [shown, hgr] at herr
    · exact ⟨items, rfl⟩

theorem collect_error_isTie (htie : ∀ a e, g a = .error e → e.IsTie) {groups : List α}
    {e : LcsError} (h : Scan.collect (shown g) groups = .error e) : e.IsTie := by
  obtain ⟨a, -, ha⟩ := Scan.exists_of_collect_error h
  rcases hg : g a with e' | r
  · rw [shown, hg] at ha
    exact Except.error.inj ha ▸ htie a e' hg
  · simp [shown, hg] at ha

/-- **Two enumerations of the same groups** have the same outcome exactly when both or neither
meet a group that fails. -/
theorem sameOutcome_iff (hgroup : ∀ m n, foldName m = foldName n → group m = group n)
    (hname : ∀ n item, group n = .ok (.found item) → foldName (nameOf item) = foldName n)
    (htie : ∀ n e, group n = .error e → e.IsTie)
    (hmem : ∀ item, (∃ e ∈ entries, group (entryName e) = .ok (.found item)) ↔
      ∃ e ∈ entries', group (entryName e) = .ok (.found item)) :
    SameOutcome (showGroups group entryName entries) (showGroups group entryName entries') ↔
      (Resolves group (entries.map entryName) ↔ Resolves group (entries'.map entryName)) := by
  have hnodup : ∀ {entries : List α} {items : List ι},
      showGroups group entryName entries = .ok items → items.Nodup :=
    fun hitems => (collect_firsts_distinct hname hitems).imp
      fun {a b} hne (hab : a = b) => hne (congrArg _ (congrArg nameOf hab))
  rw [← collect_firsts_ok_iff hgroup, ← collect_firsts_ok_iff hgroup]
  rcases hc : showGroups group entryName entries with err | items <;>
    rcases hc' : showGroups group entryName entries' with err' | items'
  · have hties := And.intro (collect_error_isTie (fun a => htie (entryName a)) hc)
      (collect_error_isTie (fun a => htie (entryName a)) hc')
    simp [SameOutcome, hties]
  · simp [SameOutcome]
  · simp [SameOutcome]
  · have hperm : items.Perm items' := by
      refine (perm_ext_iff_of_nodup (hnodup hc) (hnodup hc')).mpr fun item => ?_
      rw [mem_collect_firsts hgroup hc, mem_collect_firsts hgroup hc', hmem]
    simpa [SameOutcome] using hperm

end

/-! ## Enumerating subkeys -/

section

variable {context : LayerResolutionContext} {blankets blankets' : List BlanketTombstoneEntry}
  {entries : List NamedValueEntry} {name : Name}

theorem answer_isTie {α ρ : Type} {tuple : α → ℕ × ℕ} {visible : α → Option ρ}
    {candidates : List α} {e : LcsError} (h : answer tuple visible candidates = .error e) :
    e.IsTie := by
  obtain ⟨k, -, rfl⟩ := answer_eq_error.mp h
  exact ⟨_, _, rfl⟩

theorem visibleSubkeys_eq {entries : List NamedPathEntry} :
    visibleSubkeys context entries = (do
      validateLayerResolutionContext context
      prevalidateSubkeyEnumerationSource context entries
      showGroups (subkeyGroup context entries) (·.childName) entries) := by
  simp [visibleSubkeys, forEachVisibleSubkey_eq, foldlM_emitGroup_collectAll, bind_ok]

/-- **Latent entries do not show** when subkeys are enumerated. -/
theorem visibleSubkeys_differBy (h : context.Proper) {entries entries' : List NamedPathEntry}
    (he : DifferBy (NamedPathEntry.latent context) entries entries') :
    SameOutcome (visibleSubkeys context entries) (visibleSubkeys context entries') := by
  rw [visibleSubkeys_eq, visibleSubkeys_eq, validateLayerResolutionContext_eq_ok.mpr h,
    prevalidateSubkey_differBy he h, ok_bind]
  rcases prevalidateSubkeyEnumerationSource context entries' with e | _
  · exact .inl rfl
  have hiff : ∀ x, x ≠ .ok .notFound →
      ((∃ e ∈ entries, subkeyGroup context entries e.childName = x) ↔
        ∃ e ∈ entries', subkeyGroup context entries e.childName = x) := by
    intro x hx
    refine ⟨fun hl => ?_, fun hr => ?_⟩
    · rw [subkeyGroup_differBy he]
      exact exists_subkeyGroup_differBy he hx hl
    · rw [subkeyGroup_differBy he] at hr
      exact exists_subkeyGroup_differBy he.symm hx hr
  rw [← subkeyGroup_differBy he]
  refine (sameOutcome_iff subkeyGroup_congr subkeyGroup_name (fun _ _ => answer_isTie)
    fun item => hiff _ (by simp)).mpr ?_
  have herror := fun err => not_congr (hiff (.error err) (by simp))
  simp only [not_exists, not_and] at herror
  simp only [Resolves, forall_mem_map]
  exact ⟨fun hall e hm err => (herror err).mp (fun e hm => hall e hm err) e hm,
    fun hall e hm err => (herror err).mpr (fun e hm => hall e hm err) e hm⟩

/-! ## Enumerating values -/

theorem effectiveValues_eq :
    effectiveValues context entries blankets = (do
      validateLayerResolutionContext context
      prevalidateValueEnumerationSource context entries blankets
      showGroups (valueGroup context entries blankets) (·.name) entries) := by
  simp [effectiveValues, forEachEffectiveValue_eq, foldlM_emitGroup_collectAll, bind_ok]

/-- The greatest tuple of a name's entries and the blanket tombstones is shared. -/
def TieAt (context : LayerResolutionContext) (entries : List NamedValueEntry)
    (blankets : List BlanketTombstoneEntry) (name : Name) : Prop :=
  ∃ k, Select.Ties (rank ValueCandidate.tuple)
    (valueCandidates context (valueClass entries name) blankets) k

theorem valueGroup_fails_iff :
    (∃ e, valueGroup context entries blankets name = .error e) ↔
      TieAt context entries blankets name := by
  unfold TieAt
  rw [← namedValueCandidates_unnamed]
  simp only [Select.ties_map]
  constructor
  · rintro ⟨e, he⟩
    obtain ⟨k, hk, -⟩ := answer_eq_error.mp he
    exact ⟨k, hk⟩
  · rintro ⟨k, hk⟩
    exact ⟨_, answer_eq_error.mpr ⟨k, hk, rfl⟩⟩

/-- Some name has latent entries only. -/
def NamesLatent (context : LayerResolutionContext) (entries : List NamedValueEntry) : Prop :=
  ∃ e ∈ entries, ∀ e' ∈ entries, foldName e'.name = foldName e.name → e'.latent context = true

/-- The inputs at which latent entries show: everything is well formed, the blanket tombstones
share their greatest tuple, every name with an entry that is not latent resolves all the same,
and one of the two lists names something by latent entries only. -/
structure Revealing (context : LayerResolutionContext) (entries entries' : List NamedValueEntry)
    (blankets : List BlanketTombstoneEntry) : Prop where
  sound : ∀ e ∈ entries, e.Sound context
  blanketsSound : ∀ b ∈ blankets, b.Sound context
  tie : ∃ k, Select.Ties (rank ValueCandidate.tuple) (valueCandidates context [] blankets) k
  resolves : ∀ e ∈ entries, e.latent context = false → ¬ TieAt context entries blankets e.name
  differ : ¬ (NamesLatent context entries ↔ NamesLatent context entries')

theorem valueClass_latent
    (h : ∀ e ∈ entries, foldName e.name = foldName name → e.latent context = true) :
    valueCandidates context (valueClass entries name) blankets =
      valueCandidates context [] blankets := by
  have hnone : (valueClass entries name).filterMap (·.candidate? context) = [] := by
    rw [filterMap_eq_nil_iff]
    intro e he
    obtain ⟨named, hmem, rfl⟩ := mem_map.mp he
    obtain ⟨hin, hfold⟩ := mem_filter.mp hmem
    have hl := h named hin (casefoldEq_iff.mp hfold)
    rw [ValueEntry.candidate?, (latentLayer_eq_true.mp (NamedValueEntry.latent_eq_true.mp hl).2).2]
    rfl
  rw [valueCandidates, hnone]
  rfl

/-- An enumeration succeeds if the names with an entry that is not latent resolve, and either no
name has latent entries only or the blanket tombstones alone are no tie. -/
theorem resolves_iff :
    Resolves (valueGroup context entries blankets) (entries.map (·.name)) ↔
      (∀ e ∈ entries, e.latent context = false → ¬ TieAt context entries blankets e.name) ∧
        (NamesLatent context entries →
          ¬ ∃ k, Select.Ties (rank ValueCandidate.tuple)
            (valueCandidates context [] blankets) k) := by
  have hiff : Resolves (valueGroup context entries blankets) (entries.map (·.name)) ↔
      ∀ e ∈ entries, ¬ TieAt context entries blankets e.name := by
    unfold Resolves
    simp [← valueGroup_fails_iff, not_exists]
  rw [hiff]
  constructor
  · refine fun hall => ⟨fun e he _ => hall e he, ?_⟩
    rintro ⟨e, he, hlatent⟩
    have := hall e he
    rwa [TieAt, valueClass_latent hlatent] at this
  · rintro ⟨hactive, hlatent⟩ e he htie
    by_cases hex : ∃ e' ∈ entries, foldName e'.name = foldName e.name ∧ e'.latent context = false
    · obtain ⟨e', he', hfold, hl⟩ := hex
      refine hactive e' he' hl (valueGroup_fails_iff.mp ?_)
      rw [valueGroup_congr _ _ hfold]
      exact valueGroup_fails_iff.mpr htie
    · have hall : ∀ e' ∈ entries, foldName e'.name = foldName e.name →
          e'.latent context = true := by
        intro e' he' hfold
        by_contra hl
        exact hex ⟨e', he', hfold, eq_false_of_ne_true hl⟩
      rw [TieAt, valueClass_latent hall] at htie
      exact hlatent ⟨e, he, hall⟩ htie

theorem effectiveValues_differBy_iff (h : context.Proper) {entries' : List NamedValueEntry}
    (he : DifferBy (NamedValueEntry.latent context) entries entries')
    (hb : DifferBy (BlanketTombstoneEntry.latent context) blankets blankets') :
    SameOutcome (effectiveValues context entries blankets)
        (effectiveValues context entries' blankets') ↔
      ¬ Revealing context entries entries' blankets := by
  have hgroup := valueGroup_differBy hb he
  have hmem : ∀ item,
      (∃ e ∈ entries, valueGroup context entries blankets e.name = .ok (.found item)) ↔
        ∃ e ∈ entries', valueGroup context entries blankets e.name = .ok (.found item) := by
    intro item
    refine ⟨fun hl => ?_, fun hr => ?_⟩
    · rw [hgroup]
      exact exists_valueGroup_differBy hb he hl
    · rw [hgroup] at hr
      exact exists_valueGroup_differBy hb.symm he.symm hr
  -- names with an entry that is not latent are the same in both, and resolve alike
  have hactive : (∀ e ∈ entries, e.latent context = false →
        ¬ TieAt context entries blankets e.name) ↔
      ∀ e ∈ entries', e.latent context = false → ¬ TieAt context entries' blankets' e.name := by
    simp only [← valueGroup_fails_iff, hgroup]
    exact ⟨fun hall e hm hl => hall e (he.symm.mem_of_not_latent hm hl) hl,
      fun hall e hm hl => hall e (he.mem_of_not_latent hm hl) hl⟩
  have hblankets : valueCandidates context [] blankets = valueCandidates context [] blankets' := by
    unfold valueCandidates
    rw [hb.filterMap_eq fun b hl => ?_]
    rw [BlanketTombstoneEntry.candidate?, (latentLayer_eq_true.mp hl).2]
    rfl
  rw [effectiveValues_eq, effectiveValues_eq, validateLayerResolutionContext_eq_ok.mpr h,
    ← prevalidateValue_differBy hb he h, ok_bind, ok_bind]
  rcases hpre : prevalidateValueEnumerationSource context entries blankets with e | _
  · -- an entry that is refused is refused in both runs
    refine iff_of_true (.inl rfl) fun hr => ?_
    rw [prevalidateValue_of_sound h hr.sound hr.blanketsSound] at hpre
    cases hpre
  have ⟨hs, hbs⟩ := sound_of_prevalidateValue h hpre
  rw [ok_bind, ok_bind, ← hgroup,
    sameOutcome_iff valueGroup_congr valueGroup_name (fun _ _ => answer_isTie) hmem, resolves_iff,
    hgroup, resolves_iff, ← hactive, ← hblankets]
  have hrevealing : Revealing context entries entries' blankets ↔ _ ∧ _ ∧ _ :=
    ⟨fun hr => ⟨hr.tie, hr.resolves, hr.differ⟩, fun hr => ⟨hs, hbs, hr.1, hr.2.1, hr.2.2⟩⟩
  rw [hrevealing]
  tauto

end

/-! ## All four functions -/

/-- **Latent entries show exactly at revealing inputs.** The lookups and the enumeration of
subkeys agree always, so what decides is the enumeration of values. -/
theorem latent_layers_agree_iff {context : LayerResolutionContext}
    (hcontext : validateLayerResolutionContext context = .ok ())
    {values values' : List ValueEntry} {named named' : List NamedValueEntry}
    {blankets blankets' : List BlanketTombstoneEntry} {paths paths' : List NamedPathEntry}
    (requested : Name) (hvalues : DifferBy (ValueEntry.latent context) values values')
    (hnamed : DifferBy (NamedValueEntry.latent context) named named')
    (hblankets : DifferBy (BlanketTombstoneEntry.latent context) blankets blankets')
    (hpaths : DifferBy (NamedPathEntry.latent context) paths paths') :
    (resolveValue context values blankets = resolveValue context values' blankets' ∧
      resolveNamedPathEntry context requested paths =
        resolveNamedPathEntry context requested paths' ∧
      SameOutcome (effectiveValues context named blankets)
        (effectiveValues context named' blankets') ∧
      SameOutcome (visibleSubkeys context paths) (visibleSubkeys context paths')) ↔
    ¬ Revealing context named named' blankets := by
  have h := validateLayerResolutionContext_eq_ok.mp hcontext
  have hvalue := resolveValue_differBy hblankets h hvalues
  have hpath := resolveNamedPathEntry_differBy hpaths h requested
  have hsubkeys := visibleSubkeys_differBy h hpaths
  rw [← effectiveValues_differBy_iff h hnamed hblankets]
  exact ⟨fun hall => hall.2.2.1, fun hsame => ⟨hvalue, hpath, hsame, hsubkeys⟩⟩

namespace Sample

/-- A value of the layer that is disabled. -/
def draftValue : NamedValueEntry := ⟨"Trial".toList, ⟨"draft".toList, 50, 4, [3#8]⟩⟩

/-- Two blanket tombstones of one tuple. -/
def tiedBlankets : List BlanketTombstoneEntry := [⟨"base".toList, 9⟩, ⟨"Base".toList, 9⟩]

end Sample

open Sample in
/-- With sound blanket tombstones, a value of a disabled layer does not show. -/
theorem latent_layers_agree_iff_sample :
    (resolveValue caller [draftValue.entry] Sample.blankets =
        resolveValue caller [] Sample.blankets ∧
      resolveNamedPathEntry caller "Key".toList [] = resolveNamedPathEntry caller "Key".toList [] ∧
      SameOutcome (effectiveValues caller [draftValue] Sample.blankets)
        (effectiveValues caller [] Sample.blankets) ∧
      SameOutcome (visibleSubkeys caller []) (visibleSubkeys caller [])) ↔
    ¬ Revealing caller [draftValue] [] Sample.blankets := by
  have hcontext : validateLayerResolutionContext caller = .ok () := by decide +kernel
  have hvalue : ValueEntry.latent caller draftValue.entry = true := by decide +kernel
  have hnamed : draftValue.latent caller = true := by decide +kernel
  refine latent_layers_agree_iff hcontext _ ?_ ?_ rfl rfl
  · simp [DifferBy, hvalue]
  · simp [DifferBy, hnamed]

open Sample in
/-- Two tied blanket tombstones hide nothing where there is nothing, until a value of a disabled
layer is there: then the whole enumeration fails. -/
theorem effectiveValues_draft_fails :
    validateLayerResolutionContext caller = .ok () ∧
      draftValue.latent caller = true ∧
      effectiveValues caller [] tiedBlankets = .ok [] ∧
      effectiveValues caller [draftValue] tiedBlankets =
        .error (.duplicateWinningSequenceTie 0 9) := by
  decide +kernel

end Pkm.Lcs
