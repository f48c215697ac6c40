import Pkm.Ntfe.Helpers.Counters
/-!
# Refused publications of counters

A publication that fails half way through leaves the tables it has already migrated as they
are, and the table at which it fails with cells in two layouts under the old list of windows.
Which allocations a publication makes can be read off its views and the store: one for each cell
of a table whose windows change, and one for each table that is not there. So a run keeps what it
should exactly if in none of its publications an allocation fails behind one for a cell
(`runKeeps_iff`).
-/

namespace Pkm.Ntfe

open List

variable {store : CounterStore} {s : TableSpec} {t : CounterTable} {id : TableId} {key : CounterKey}
  {c : CounterCell} {W now n : ℕ} {d : SpecDone}

/-- Every cell has one ring for each window of its table, in their order. -/
def Laid (store : CounterStore) : Prop := ∀ t ∈ store, ∀ c ∈ t.cells, c.Laid t.windows

/-- The table and the cell of a key. -/
def keyCell (store : CounterStore) (id : TableId) (key : CounterKey) :
    Option (CounterTable × CounterCell) :=
  (tableFind store id).bind fun t => (cellFind t key).map fun c => (t, c)

theorem keyCell_eq_some :
    keyCell store id key = some (t, c) ↔ tableFind store id = some t ∧ cellFind t key = some c := by
  simp only [keyCell, Option.bind_eq_some_iff, Option.map_eq_some_iff, Prod.mk.injEq]
  constructor
  · rintro ⟨u, hu, e, he, rfl, rfl⟩
    exact ⟨hu, he⟩
  · rintro ⟨ht, hc⟩
    exact ⟨t, ht, c, hc, rfl, rfl⟩

theorem keyRead_eq (store : CounterStore) (id : TableId) (key : CounterKey) (W now : ℕ) :
    keyRead store id key W now =
      (keyCell store id key).elim .absent fun x => cellRead x.1 x.2 W now := by
  unfold keyRead keyCell
  cases tableFind store id with
  | none => rfl
  | some t =>
    simp only [Option.bind_some]
    cases cellFind t key <;> rfl

theorem keyRead_congr {store' : CounterStore} (h : keyCell store' id key = keyCell store id key) :
    keyRead store' id key W now = keyRead store id key W now := by
  rw [keyRead_eq, keyRead_eq, h]

/-! ## What is promised -/

/-- A publication keeps the answers: all of them if it is refused, and the totals and the rings
of common windows if it is accepted. -/
structure PublicationKeeps (views : List CounterView) (before : CounterStore) (p : Published) :
    Prop where
  refused : ∀ e, p.result = .error e → ∀ id key t c, keyCell before id key = some (t, c) →
    ∀ W now, keyRead p.store id key W now = keyRead before id key W now
  accepted : p.result = .ok () → ∀ v ∈ views, ∀ key t c, keyCell before v.id key = some (t, c) →
    ∃ t' c', keyCell p.store v.id key = some (t', c') ∧ c'.total = c.total ∧
      ∀ W ∈ t.windows, W ∈ t'.windows → ringOf t'.windows c' W = ringOf t.windows c W

/-- What a run from the empty store keeps, at each of its steps. -/
structure RunKeeps (bucket : CounterKey → ℕ) (ops : List CounterOp) : Prop where
  laid : ∀ ops₁, ops₁ <+: ops → Laid (storeAfter bucket ops₁)
  publications : ∀ ops₁ views allocs, ops₁ ++ [.publish views allocs] <+: ops →
    PublicationKeeps views (storeAfter bucket ops₁)
      (countersPublish allocs views (storeAfter bucket ops₁))

/-- Once an allocation for a cell has succeeded, with all those before it, none fails. The first
allocation is the one for the specs, into which the views are folded. -/
def FailsInTime (allocs : ℕ → Bool) (views : List CounterView) (store : CounterStore) : Prop :=
  ∀ specs, allocs 0 = true → foldViews views = .ok specs →
    Replaces allocs 1 (specs.flatMap (allocationsFor store)) →
      Succeeds allocs 1 (specs.flatMap (allocationsFor store))

/-- Every publication of the run fails in time, if it fails. -/
def RunFailsInTime (bucket : CounterKey → ℕ) (ops : List CounterOp) : Prop :=
  ∀ ops₁ views allocs, ops₁ ++ [.publish views allocs] <+: ops →
    FailsInTime allocs views (storeAfter bucket ops₁)

/-! ## Publications that have replaced no cell -/

/-- Tables without cells have no answers to change. -/
theorem SpecStep.keyCell_eq (hd : SpecStep s store d n) (hzero : n = 0) (id : TableId)
    (key : CounterKey) : keyCell d.store id key = keyCell store id key := by
  by_cases hid : s.id = id
  · subst hid
    cases hd with
    | kept | refused => rfl
    | created hfind =>
      have hself : tableFind (store ++ [tableCreate s]) s.id = some (tableCreate s) :=
        tableFind_append_self hfind
      rw [keyCell, keyCell, hfind, hself]
      rfl
    | @migrated t k hfind =>
      have hnil : t.cells = [] := length_eq_zero_iff.mp hzero
      rw [keyCell, keyCell, tableFind_tableReplace_self hfind, hfind]
      simp [cellFind, hnil]
    | @broken t k first rest hfind hequal hcells =>
      obtain rfl : first = [] := length_eq_zero_iff.mp hzero
      have hcells : t.cells = rest := hcells
      rw [keyCell, keyCell, tableFind_tableReplace_self hfind, hfind,
        ← (tableFind_eq_some hfind).2, ← hcells]
      rfl
  · rw [keyCell, keyCell, hd.tableFind_of_ne hid]

theorem Laid.tableReplace (h : Laid store) (ht : ∀ c ∈ t.cells, c.Laid t.windows) :
    Laid (tableReplace t store) := by
  intro u hu
  rcases mem_tableReplace hu with rfl | hu
  · exact ht
  · exact h u hu

theorem SpecStep.laid (hd : SpecStep s store d n) (h : Laid store)
    (hdone : d.complete = true ∨ n = 0) : Laid d.store := by
  cases hd with
  | kept | refused => exact h
  | created hfind =>
    refine forall_mem_append.mpr ⟨h, forall_mem_singleton.mpr fun c hc => ?_⟩
    exact absurd hc not_mem_nil
  | @migrated t k hfind =>
    refine h.tableReplace (forall_mem_map.mpr fun c hc => ?_)
    exact laid_migrateCell _ (h t (tableFind_eq_some hfind).1 c hc)
  | @broken t k first rest hfind hequal hcells =>
    have hnil : first = [] := length_eq_zero_iff.mp (hdone.resolve_left Bool.false_ne_true)
    rw [hnil, nil_append] at hcells
    rw [hnil, map_nil, ← hcells]
    exact h.tableReplace (h t (tableFind_eq_some hfind).1)

section

variable {specs : List TableSpec} {p : Published}

theorem SpecRun.keyCell_eq (hrun : SpecRun specs store p n) (hzero : n = 0) (id : TableId)
    (key : CounterKey) : keyCell p.store id key = keyCell store id key := by
  induction hrun with
  | done => rfl
  | goesOn hstep _ _ ih =>
    obtain ⟨hzero, hrest⟩ := Nat.add_eq_zero_iff.mp hzero
    exact (ih hrest).trans (hstep.keyCell_eq hzero id key)
  | stops hstep => exact hstep.keyCell_eq hzero id key

theorem SpecRun.laid (hrun : SpecRun specs store p n) (h : Laid store)
    (hdone : p.result = .ok () ∨ n = 0) : Laid p.store := by
  induction hrun with
  | done => exact h
  | goesOn hstep hcomplete _ ih =>
    exact ih (hstep.laid h (.inl hcomplete))
      (hdone.imp_right fun hzero => (Nat.add_eq_zero_iff.mp hzero).2)
  | stops hstep => exact hstep.laid h (.inr (hdone.resolve_left nofun))

/-! ## Accepted publications -/

/-- What the cells of a table keep from one store to another. -/
def Carries (before after : Option CounterTable) : Prop :=
  ∀ t key c, before = some t → cellFind t key = some c →
    ∃ t' c', after = some t' ∧ cellFind t' key = some c' ∧ c'.total = c.total ∧
      ∀ W ∈ t.windows, W ∈ t'.windows → ringOf t'.windows c' W = ringOf t.windows c W

theorem carries_refl (before : Option CounterTable) : Carries before before :=
  fun t _ c ht hc => ⟨t, c, ht, hc, rfl, fun _ _ _ => rfl⟩

theorem cellFind_map_migrateCell (old new : List ℕ) :
    cellFind ⟨id, new, t.cells.map (migrateCell old new)⟩ key =
      (cellFind t key).map (migrateCell old new) :=
  find?_map

theorem SpecStep.carries (hd : SpecStep s store d n) (h : Laid store) (hdone : d.complete = true) :
    Carries (tableFind store s.id) (tableFind d.store s.id) := by
  cases hd with
  | kept => exact carries_refl _
  | refused => cases hdone
  | created hfind =>
    intro t key c ht
    rw [hfind] at ht
    cases ht
  | @migrated t k hfind =>
    intro u key c hu hc
    cases hfind.symm.trans hu
    have hlaid := h t (tableFind_eq_some hfind).1 c (mem_of_find?_eq_some hc)
    refine ⟨_, migrateCell t.windows s.windows c,
      tableFind_tableReplace_self hfind, ?_, rfl,
      fun W hold hnew => ringOf_migrateCell hlaid hold hnew⟩
    rw [cellFind_map_migrateCell, hc, Option.map_some]
  | broken => cases hdone

theorem SpecRun.carries (hrun : SpecRun specs store p n) (h : Laid store) (hspecs : SpecsOk specs)
    (hok : p.result = .ok ()) (id : TableId) :
    Carries (tableFind store id) (tableFind p.store id) := by
  induction hrun with
  | done => exact carries_refl _
  | @goesOn s _ _ _ _ _ _ hstep hcomplete hrest ih =>
    by_cases hid : s.id = id
    · -- the other specs leave the table of this one alone
      subst hid
      rw [hrest.tableFind_of_notMem hspecs.head_notMem]
      exact hstep.carries h hcomplete
    · rw [← hstep.tableFind_of_ne hid]
      exact ih (hstep.laid h (.inl hcomplete)) hspecs.tail hok
  | stops => cases hok

/-! ## Publications that have replaced a cell -/

theorem cellRead_absent (hW : W ≠ 0) (h : W ∉ t.windows) : cellRead t c W now = .absent := by
  rw [cellRead, if_neg hW, windowIndex_eq_none h]

theorem cellRead_value (h : c.Laid t.windows) (hmem : W ∈ t.windows) :
    cellRead t c W now ≠ .absent := by
  obtain ⟨i, hindex, -⟩ := exists_windowIndex hmem
  obtain ⟨r, hr, -⟩ := h.ringOf hmem
  rw [ringOf, hindex, Option.bind_some] at hr
  rw [cellRead, hindex]
  split
  · intro hvalue
    cases hvalue
  · simp [hr]

/-- A migrated table answers for another set of windows. -/
theorem SpecStep.changes (hd : SpecStep s store d n) (hw : WellFormed store) (h : Laid store)
    (hs : Distinct s.windows) (hdone : d.complete = true) (hne : n ≠ 0) :
    ∃ t key c W now, keyCell store s.id key = some (t, c) ∧
      keyRead d.store s.id key W now ≠ keyRead store s.id key W now := by
  cases hd with
  | kept | refused | created => exact absurd rfl hne
  | @migrated t k hfind hequal =>
    obtain ⟨hmem, -⟩ := tableFind_eq_some hfind
    obtain ⟨c, cells, hcells⟩ := exists_cons_of_length_pos (Nat.pos_of_ne_zero hne)
    have hc : c ∈ t.cells := by rw [hcells]; exact mem_cons_self
    have hcell : cellFind t c.key = some c := by simp [cellFind, hcells]
    have hlaid := h t hmem c hc
    obtain ⟨W, hW, hdiff⟩ := exists_window_of_not_equal (hw.windows t hmem) hs hequal
    have hbefore : keyCell store s.id c.key = some (t, c) := keyCell_eq_some.mpr ⟨hfind, hcell⟩
    refine ⟨t, c.key, c, W, 0, hbefore, ?_⟩
    have hafter : keyCell (tableReplace
        ⟨s.id, s.windows, t.cells.map (migrateCell t.windows s.windows)⟩ store) s.id c.key =
        some (⟨s.id, s.windows, t.cells.map (migrateCell t.windows s.windows)⟩,
          migrateCell t.windows s.windows c) := by
      refine keyCell_eq_some.mpr ⟨tableFind_tableReplace_self hfind, ?_⟩
      rw [cellFind_map_migrateCell, hcell, Option.map_some]
    rw [keyRead_eq, keyRead_eq, hbefore, hafter, Option.elim_some, Option.elim_some]
    rcases hdiff with ⟨hold, hnew⟩ | ⟨hold, hnew⟩
    · rw [cellRead_absent hW hnew]
      exact (cellRead_value hlaid hold).symm
    · rw [cellRead_absent hW hold]
      exact cellRead_value (laid_migrateCell _ hlaid) hnew
  | broken => cases hdone

/-- A table at which the publication fails has cells in two layouts. -/
theorem SpecStep.not_laid (hd : SpecStep s store d n) (h : Laid store)
    (hstop : ¬ d.complete = true) (hne : n ≠ 0) : ¬ Laid d.store := by
  cases hd with
  | kept | created | migrated => exact absurd rfl hstop
  | refused => exact absurd rfl hne
  | @broken t k first rest hfind hequal hcells =>
    obtain ⟨c, firsts, hfirst⟩ := exists_cons_of_length_pos (Nat.pos_of_ne_zero hne)
    have hc : c ∈ t.cells := by rw [hcells, hfirst]; exact mem_cons_self
    have hlaid := laid_migrateCell s.windows (h t (tableFind_eq_some hfind).1 c hc)
    intro hafter
    have htable := (tableFind_eq_some (tableFind_tableReplace_self (t := ⟨s.id, t.windows,
      first.map (migrateCell t.windows s.windows) ++ rest⟩) hfind)).1
    have hlaid' := hafter _ htable (migrateCell t.windows s.windows c)
      (by rw [hfirst]; exact mem_cons_self)
    have hsame : t.windows = s.windows := hlaid'.symm.trans hlaid
    rw [windowsEqual_refl hsame] at hequal
    cases hequal

/-- **A publication that is refused after it has replaced a cell** has broken the layout or
changed an answer. -/
theorem SpecRun.breaks (hrun : SpecRun specs store p n) (hw : WellFormed store) (h : Laid store)
    (hspecs : SpecsOk specs) {e : PublishError} (herror : p.result = .error e)
    (hne : n ≠ 0) :
    ¬ Laid p.store ∨ ∃ id key t c W now, keyCell store id key = some (t, c) ∧
      keyRead p.store id key W now ≠ keyRead store id key W now := by
  induction hrun with
  | done => cases herror
  | @goesOn s _ _ d _ m _ hstep hcomplete hrest ih =>
    have hs := hspecs.windows s mem_cons_self
    by_cases hzero : m = 0
    · have hkeep := hstep.keyCell_eq hzero
      rcases ih (hstep.wellFormed hw hs) (hstep.laid h (.inl hcomplete)) hspecs.tail herror
        (fun hrest => hne (by rw [hzero, hrest])) with
        hbroken | ⟨id, key, t, c, W, now, hcell, hchange⟩
      · exact .inl hbroken
      · rw [hkeep] at hcell
        rw [keyRead_congr (hkeep id key)] at hchange
        exact .inr ⟨id, key, t, c, W, now, hcell, hchange⟩
    · obtain ⟨t, key, c, W, now, hcell, hchange⟩ := hstep.changes hw h hs hcomplete hzero
      refine .inr ⟨s.id, key, t, c, W, now, hcell, ?_⟩
      rw [keyRead, hrest.tableFind_of_notMem hspecs.head_notMem]
      exact hchange
  | stops hstep hstop => exact .inl (hstep.not_laid h hstop hne)

end

/-! ## Additions -/

section

variable {bucket : CounterKey → ℕ} {views : List CounterView} {allocs : ℕ → Bool} {p : Published}

theorem map_window_addRings (now : ℕ) (amount : U64) (windows : List ℕ)
    (rings : List CounterRing) :
    (addRings now amount windows rings).map CounterRing.window = rings.map CounterRing.window := by
  induction windows generalizing rings with
  | nil => rfl
  | cons window windows ih =>
    cases rings with
    | nil => rfl
    | cons ring rings => simp [addRings, ringAdd, ih]

theorem CounterCell.Laid.add {windows : List ℕ} {amount : U64} (h : c.Laid windows) :
    (c.add windows now amount).Laid windows :=
  (map_window_addRings now amount windows c.rings).trans h

theorem laid_fresh (windows : List ℕ) (key : CounterKey) :
    (CounterCell.fresh windows key).Laid windows := by
  simp [CounterCell.Laid, CounterCell.fresh, CounterRing.fresh, Function.comp_def]

theorem mem_insertCell {e : CounterCell} {cells : List CounterCell}
    (h : e ∈ insertCell bucket c cells) : e = c ∨ e ∈ cells := by
  rw [insertCell, mem_append, mem_cons] at h
  rcases h with h | rfl | h
  · exact .inr (takeWhile_subset _ h)
  · exact .inl rfl
  · exact .inr (dropWhile_subset _ h)

/-- A table keeps its name and its windows while cells come and go, and what comes is laid out
for them. -/
structure Updates (t t' : CounterTable) : Prop where
  id : t'.id = t.id
  windows : t'.windows = t.windows
  laid : (∀ c ∈ t.cells, c.Laid t.windows) → ∀ c ∈ t'.cells, c.Laid t.windows

theorem Updates.refl (t : CounterTable) : Updates t t := ⟨rfl, rfl, fun h => h⟩

theorem Updates.trans {t₁ t₂ t₃ : CounterTable} (h : Updates t₁ t₂) (h' : Updates t₂ t₃) :
    Updates t₁ t₃ where
  id := h'.id.trans h.id
  windows := h'.windows.trans h.windows
  laid := by
    intro hlaid
    have hnext := h'.laid (h.windows.symm ▸ h.laid hlaid)
    rwa [h.windows] at hnext

theorem updates_cellGet (bucket : CounterKey → ℕ) (t : CounterTable) (key : CounterKey) (now : ℕ)
    (alloc : Bool) :
    Updates t (cellGet bucket t key now alloc).1 := by
  unfold cellGet
  split
  · exact .refl t
  · have hreap : Updates t (if t.cells.length ≥ counterMaxKeys then tableReap t now else t) := by
      split
      · exact ⟨rfl, rfl, fun h c hc => h c (mem_of_mem_filter hc)⟩
      · exact .refl t
    refine hreap.trans ?_
    dsimp only
    generalize (if t.cells.length ≥ counterMaxKeys then tableReap t now else t) = u
    split
    · exact .refl u
    · split
      · refine ⟨rfl, rfl, fun h c hc => ?_⟩
        rcases mem_insertCell hc with rfl | hc
        · exact laid_fresh u.windows key
        · exact h c hc
      · exact .refl u

theorem updates_tableAdd (facts : CounterFacts) (hash amount : U64) (now : ℕ) (alloc : Bool)
    (t : CounterTable) : Updates t (tableAdd bucket facts hash amount now alloc t) := by
  unfold tableAdd
  split
  · exact .refl t
  · split
    · exact .refl t
    · rename_i key hkey
      have hget := updates_cellGet bucket t key now alloc
      dsimp only
      split
      · refine hget.trans ⟨rfl, rfl, fun h c hc => ?_⟩
        obtain ⟨e, he, rfl⟩ := mem_map.mp hc
        split
        · exact (h e he).add
        · exact h e he
      · exact hget

theorem mem_counterAdd {facts : CounterFacts} {hash amount : U64}
    (h : t ∈ counterAdd bucket store facts hash amount now allocs) : ∃ u ∈ store, Updates u t := by
  unfold counterAdd at h
  split at h
  · exact ⟨t, h, .refl t⟩
  · obtain ⟨i, hi, rfl⟩ := mem_mapIdx.mp h
    exact ⟨_, getElem_mem hi, updates_tableAdd ..⟩

theorem map_id_counterAdd (facts : CounterFacts) (hash amount : U64) (allocs : ℕ → Bool) :
    (counterAdd bucket store facts hash amount now allocs).map CounterTable.id =
      store.map CounterTable.id := by
  unfold counterAdd
  split
  · rfl
  · refine ext_getElem? fun i => ?_
    simp only [getElem?_map, getElem?_mapIdx, Option.map_map]
    exact Option.map_congr fun t _ => (updates_tableAdd ..).id

/-! ## One publication -/

/-- **A publication by its allocations**: it stops before the tables, stops among them, or goes
through. -/
theorem countersPublish_cases (hp : countersPublish allocs views store = p) :
    ((∃ e, p = ⟨.error e, store⟩) ∧ FailsInTime allocs views store) ∨
      ∃ specs q n, foldViews views = .ok specs ∧ SpecRun specs store q n ∧
        (FailsInTime allocs views store ↔ (n ≠ 0 → q.result = .ok ())) ∧
        ((∃ e, q.result = .error e ∧ p = q) ∨
          q.result = .ok () ∧ p = { q with store := retire specs q.store }) := by
  subst hp
  unfold countersPublish
  by_cases hfirst : allocs 0 = true
  · rw [if_neg (by simp [hfirst])]
    cases hfold : foldViews views with
    | error e =>
      refine .inl ⟨⟨e, rfl⟩, fun specs _ hspecs => ?_⟩
      rw [hfold] at hspecs
      cases hspecs
    | ok specs =>
      obtain ⟨n, hrun, hresult, hn⟩ :=
        publishSpecs_run allocs 1 specs store (foldViews_specsOk hfold)
      refine .inr ⟨specs, _, n, rfl, hrun, ?_, ?_⟩
      · rw [hresult, hn]
        exact ⟨fun h => h specs hfirst hfold, fun h _ _ hspecs => Except.ok.inj
          (hfold.symm.trans hspecs) ▸ h⟩
      · dsimp only
        split
        · rename_i e herror
          exact .inl ⟨e, herror, rfl⟩
        · rename_i hok
          exact .inr ⟨hok, rfl⟩
  · rw [if_pos (by simpa using hfirst)]
    exact .inl ⟨⟨_, rfl⟩, fun _ h => absurd h hfirst⟩

theorem tableFind_retire {specs : List TableSpec} (h : id ∈ specs.map TableSpec.id) :
    tableFind (retire specs store) id = tableFind store id := by
  obtain ⟨s, hs, rfl⟩ := mem_map.mp h
  unfold tableFind retire
  rw [find?_filter]
  congr 1
  funext t
  by_cases ht : t.id = s.id
  · have hwanted : (specs.any fun u => u.id == t.id) = true :=
      any_eq_true.mpr ⟨s, hs, beq_iff_eq.mpr ht.symm⟩
    have hself : (t.id == s.id) = true := beq_iff_eq.mpr ht
    simp [hwanted, hself, decide_true]
  · simp [ht]

theorem wellFormed_countersPublish (h : WellFormed store)
    (hp : countersPublish allocs views store = p) : WellFormed p.store := by
  obtain ⟨⟨e, rfl⟩, -⟩ | ⟨specs, q, n, hspecs, hrun, -, ⟨e, herror, rfl⟩ | ⟨hok, rfl⟩⟩ :=
    countersPublish_cases hp
  · exact h
  · exact hrun.wellFormed h (foldViews_specsOk hspecs)
  · have hpublished := hrun.wellFormed h (foldViews_specsOk hspecs)
    exact ⟨hpublished.ids.sublist (filter_sublist.map _),
      fun t ht => hpublished.windows t (mem_of_mem_filter ht)⟩

/-- What a publication keeps that fails in time. -/
theorem publication_keeps (h : Laid store) (hp : countersPublish allocs views store = p)
    (hintime : FailsInTime allocs views store) :
    Laid p.store ∧ PublicationKeeps views store p := by
  obtain ⟨⟨e, rfl⟩, -⟩ | ⟨specs, q, n, hspecs, hrun, htime, ⟨e, herror, rfl⟩ | ⟨hok, rfl⟩⟩ :=
    countersPublish_cases hp
  · exact ⟨h, fun _ _ _ _ _ _ _ _ _ => rfl, nofun⟩
  · have hzero : n = 0 := by
      by_contra hne
      cases herror.symm.trans (htime.mp hintime hne)
    refine ⟨hrun.laid h (.inr hzero), ?_, ?_⟩
    · intro _ _ id key _ _ _ W now
      exact keyRead_congr (hrun.keyCell_eq hzero id key)
    · intro hok
      rw [herror] at hok
      cases hok
  · refine ⟨?_, ?_, ?_⟩
    · intro t ht
      exact hrun.laid h (.inl hok) t (mem_of_mem_filter ht)
    · intro e herror
      rw [hok] at herror
      cases herror
    · intro _ v hv key t c hcell
      obtain ⟨ht, hc⟩ := keyCell_eq_some.mp hcell
      obtain ⟨t', c', ht', hc', hkept⟩ :=
        hrun.carries h (foldViews_specsOk hspecs) hok v.id t key c ht hc
      refine ⟨t', c', keyCell_eq_some.mpr ⟨?_, hc'⟩, hkept⟩
      rw [tableFind_retire (mem_foldViews hspecs hv)]
      exact ht'

/-- And one that keeps what it should fails in time. -/
theorem failsInTime_of_keeps (hw : WellFormed store) (h : Laid store)
    (hp : countersPublish allocs views store = p) (hlaid : Laid p.store)
    (hkeeps : PublicationKeeps views store p) : FailsInTime allocs views store := by
  obtain ⟨-, htime⟩ | ⟨specs, q, n, hspecs, hrun, htime, ⟨e, herror, rfl⟩ | ⟨hok, -⟩⟩ :=
    countersPublish_cases hp
  · exact htime
  · refine htime.mpr fun hne => ?_
    rcases hrun.breaks hw h (foldViews_specsOk hspecs) herror hne with
      hbroken | ⟨id, key, t, c, W, now, hcell, hchange⟩
    · exact absurd hlaid hbroken
    · exact absurd (hkeeps.refused _ herror id key t c hcell W now) hchange
  · exact htime.mpr fun _ => hok

/-! ## Runs -/

theorem wellFormed_apply (h : WellFormed store) (op : CounterOp) :
    WellFormed (op.apply bucket store) := by
  cases op with
  | add facts hash amount now allocs =>
    refine ⟨?_, fun t ht => ?_⟩
    · rw [CounterOp.apply, map_id_counterAdd]
      exact h.ids
    · obtain ⟨u, hu, hupdates⟩ := mem_counterAdd ht
      exact hupdates.windows ▸ h.windows u hu
  | read => exact h
  | publish views allocs => exact wellFormed_countersPublish h rfl

theorem storeAfter_concat (ops : List CounterOp) (op : CounterOp) :
    storeAfter bucket (ops ++ [op]) = op.apply bucket (storeAfter bucket ops) :=
  foldl_concat ..

theorem wellFormed_storeAfter (ops : List CounterOp) : WellFormed (storeAfter bucket ops) := by
  induction ops using List.reverseRecOn with
  | nil => exact ⟨nodup_nil, fun _ h => absurd h not_mem_nil⟩
  | append_singleton ops op ih =>
    rw [storeAfter_concat]
    exact wellFormed_apply ih op

/-- The step of a run. -/
theorem laid_apply (h : Laid store) (op : CounterOp)
    (hintime : ∀ views allocs, op = .publish views allocs → FailsInTime allocs views store) :
    Laid (op.apply bucket store) := by
  cases op with
  | add facts hash amount now allocs =>
    intro t ht c hc
    obtain ⟨u, hu, hupdates⟩ := mem_counterAdd ht
    rw [hupdates.windows]
    exact hupdates.laid (h u hu) c hc
  | read => exact h
  | publish views allocs => exact (publication_keeps h rfl (hintime views allocs rfl)).1

theorem laid_storeAfter {ops ops₁ : List CounterOp} (hintime : RunFailsInTime bucket ops)
    (hpre : ops₁ <+: ops) : Laid (storeAfter bucket ops₁) := by
  induction ops₁ using List.reverseRecOn with
  | nil => exact fun t ht => absurd ht not_mem_nil
  | append_singleton ops₁ op ih =>
    rw [storeAfter_concat]
    refine laid_apply (ih ((prefix_append ops₁ [op]).trans hpre)) op ?_
    rintro views allocs rfl
    exact hintime ops₁ views allocs hpre

/-- **Refused publications change no answer** over a run, the cells stay laid out and accepted
publications carry them over, exactly if every publication fails in time: its first allocation to
fail comes before the first one for a cell. -/
theorem runKeeps_iff (bucket : CounterKey → ℕ) (ops : List CounterOp) :
    RunKeeps bucket ops ↔ RunFailsInTime bucket ops := by
  constructor
  · intro h ops₁ views allocs hpre
    have hlaid := h.laid ops₁ ((prefix_append ops₁ _).trans hpre)
    have hlaid' := h.laid _ hpre
    rw [storeAfter_concat] at hlaid'
    exact failsInTime_of_keeps (wellFormed_storeAfter ops₁) hlaid rfl hlaid'
      (h.publications ops₁ views allocs hpre)
  · intro h
    refine ⟨fun ops₁ hpre => laid_storeAfter h hpre, fun ops₁ views allocs hpre => ?_⟩
    have hlaid := laid_storeAfter h ((prefix_append ops₁ _).trans hpre)
    exact (publication_keeps hlaid rfl (h ops₁ views allocs hpre)).2

end

/-! ## A publication that fails at the second cell -/

namespace TwoSources

def source (addr : BitVec 128) : CounterFacts := ⟨4, addr, 0, 0⟩

def hits : TableId := ⟨0xabc, Keyspec.srcAddr⟩

/-- A window of eight seconds, and one packet of each of two sources. -/
def before : List CounterOp :=
  [.publish [⟨hits, 8⟩] fun _ => true,
    .add (source 1) 0xabc 1 100 fun _ => true,
    .add (source 2) 0xabc 1 100 fun _ => true]

/-- Sixteen seconds instead; there is no memory for the second cell. -/
def half : CounterOp := .publish [⟨hits, 16⟩] fun k => k != 2

end TwoSources

open TwoSources in
/-- The publication is refused, and the packet of the second source, whose cell is the first in
the table, is not read any more. -/
theorem twoSources_not_runKeeps :
    (countersPublish (fun k => k != 2) [⟨hits, 16⟩] (storeAfter (fun _ => 0) before)).result =
        .error .noMemory ∧
      counterRead (storeAfter (fun _ => 0) before) (source 2) hits 8 100 = .value 1 ∧
      counterRead (storeAfter (fun _ => 0) (before ++ [half])) (source 2) hits 8 100 = .value 0 ∧
      ¬ RunKeeps (fun _ => 0) (before ++ [half]) := by
  refine ⟨by decide +kernel, by decide +kernel, by decide +kernel, fun h => ?_⟩
  have hcell : (keyCell (storeAfter (fun _ => 0) before) hits ⟨4, 0, 2, 0⟩).isSome = true := by
    decide +kernel
  obtain ⟨⟨t, c⟩, hcell⟩ := Option.isSome_iff_exists.mp hcell
  have hkeeps := h.publications before _ _ (prefix_refl (before ++ [half]))
  exact absurd (hkeeps.refused .noMemory (by decide +kernel) hits _ t c hcell 8 100)
    (by decide +kernel)

end Pkm.Ntfe
