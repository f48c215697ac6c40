import Pkm.Lib.Scan
import Pkm.Ntfe.Model.Counters
/-!
# The tables of the counter store

What a publication does for one spec (`SpecStep`), and what every operation keeps: the names
of the tables differ, and so do the windows of a table.
-/

namespace Pkm.Ntfe

open List Outcome

variable {store : CounterStore} {s : TableSpec} {t : CounterTable} {id : TableId} {key : CounterKey}
  {c : CounterCell} {W : ℕ} {v : CounterView} {views : List CounterView}
  {specs specs' : List TableSpec} {old windows : List ℕ} {d : SpecDone} {p : Published} {n : ℕ}

/-! ## Windows -/

theorem windowIndex_eq_some {i : ℕ} (h : windowIndex windows W = some i) :
    windows[i]? = some W := by
  obtain ⟨hlt, heq, -⟩ := findIdx?_eq_some_iff_getElem.mp h
  rw [getElem?_eq_getElem hlt, beq_iff_eq.mp heq]

theorem windowIndex_isSome : (windowIndex windows W).isSome ↔ W ∈ windows := by
  simp [windowIndex]

theorem exists_windowIndex (h : W ∈ windows) :
    ∃ i, windowIndex windows W = some i ∧ windows[i]? = some W := by
  obtain ⟨i, hi⟩ := Option.isSome_iff_exists.mp (windowIndex_isSome.mpr h)
  exact ⟨i, hi, windowIndex_eq_some hi⟩

theorem windowIndex_eq_none (h : W ∉ windows) : windowIndex windows W = none :=
  Option.not_isSome_iff_eq_none.mp (windowIndex_isSome.not.mpr h)

/-- Windows as a spec has them: no window twice, and none of no seconds. -/
structure Distinct (windows : List ℕ) : Prop where
  nodup : windows.Nodup
  pos : 0 ∉ windows

theorem windowsEqual_refl (h : t.windows = s.windows) : windowsEqual t s = true := by
  simp only [windowsEqual, h, beq_self_eq_true, Bool.true_and, all_eq_true]
  exact fun W hW => windowIndex_isSome.mpr hW

/-- Windows that are not taken for the same differ in one of them. -/
theorem exists_window_of_not_equal (ht : Distinct t.windows) (hs : Distinct s.windows)
    (h : windowsEqual t s = false) :
    ∃ W, W ≠ 0 ∧ (W ∈ t.windows ∧ W ∉ s.windows ∨ W ∉ t.windows ∧ W ∈ s.windows) := by
  by_contra hno
  have hsame : ∀ W, W ∈ t.windows ↔ W ∈ s.windows := by
    intro W
    rcases Nat.eq_zero_or_pos W with rfl | hpos
    · exact iff_of_false ht.pos hs.pos
    · have hW := fun h => hno ⟨W, hpos.ne', h⟩
      tauto
  have hperm : t.windows.Perm s.windows := (perm_ext_iff_of_nodup ht.nodup hs.nodup).mpr hsame
  have hall : (s.windows.all fun window => (windowIndex t.windows window).isSome) = true :=
    all_eq_true.mpr fun W hW => windowIndex_isSome.mpr ((hsame W).mpr hW)
  rw [windowsEqual, hperm.length_eq, hall] at h
  simp at h

/-! ## Finding tables -/

theorem tableFind_eq_some (h : tableFind store id = some t) : t ∈ store ∧ t.id = id :=
  ⟨mem_of_find?_eq_some h, by simpa using find?_some h⟩

theorem tableFind_append_self (h : tableFind store t.id = none) :
    tableFind (store ++ [t]) t.id = some t := by
  unfold tableFind at h ⊢
  simp [h]

theorem tableFind_tableReplace_of_ne (h : t.id ≠ id) :
    tableFind (tableReplace t store) id = tableFind store id := by
  induction store with
  | nil => rfl
  | cons u store ih =>
    rw [tableReplace]
    split
    · rename_i hu
      have hne : (u.id == id) = false := beq_eq_false_iff_ne.mpr (hu ▸ h)
      have hne' : (t.id == id) = false := beq_eq_false_iff_ne.mpr h
      simp [tableFind, hne, hne']
    · unfold tableFind at ih ⊢
      simp only [find?_cons, ih]

variable {u : CounterTable}

theorem tableFind_tableReplace_self (h : tableFind store t.id = some u) :
    tableFind (tableReplace t store) t.id = some t := by
  induction store with
  | nil => cases h
  | cons u store ih =>
    rw [tableReplace]
    split
    · simp [tableFind]
    · rename_i hu
      have hne : (u.id == t.id) = false := beq_eq_false_iff_ne.mpr hu
      unfold tableFind at ih h ⊢
      simp only [find?_cons, hne] at h ⊢
      exact ih h

theorem map_id_tableReplace : (tableReplace t store).map CounterTable.id = store.map (·.id) := by
  induction store with
  | nil => rfl
  | cons u store ih =>
    rw [tableReplace]
    split
    · rename_i hu
      simp [hu]
    · simp [ih]

theorem mem_tableReplace (h : u ∈ tableReplace t store) : u = t ∨ u ∈ store := by
  induction store with
  | nil => exact absurd h not_mem_nil
  | cons v store ih =>
    rw [tableReplace] at h
    split at h
    · exact (mem_cons.mp h).imp_right (mem_cons_of_mem v)
    · rcases mem_cons.mp h with rfl | h
      · exact .inr mem_cons_self
      · exact (ih h).imp_right (mem_cons_of_mem v)

/-! ## Migrating cells -/

/-- The ring of a cell for a window. -/
def ringOf (windows : List ℕ) (c : CounterCell) (W : ℕ) : Option CounterRing :=
  (windowIndex windows W).bind fun i => c.rings[i]?

/-- One ring for each window, in their order. -/
def CounterCell.Laid (windows : List ℕ) (c : CounterCell) : Prop :=
  c.rings.map CounterRing.window = windows

theorem CounterCell.Laid.ringOf (h : c.Laid windows) (hW : W ∈ windows) :
    ∃ r, ringOf windows c W = some r ∧ r.window = W := by
  obtain ⟨i, hindex, hi⟩ := exists_windowIndex hW
  rw [← h, getElem?_map, Option.map_eq_some_iff] at hi
  obtain ⟨r, hr, hwindow⟩ := hi
  exact ⟨r, by rw [Ntfe.ringOf, hindex]; exact hr, hwindow⟩

theorem rings_migrateCell (old new : List ℕ) (c : CounterCell) :
    (migrateCell old new c).rings = new.map fun W => (ringOf old c W).getD (.fresh W) := by
  refine map_congr_left fun W _ => ?_
  rw [ringOf]
  cases windowIndex old W <;> rfl

theorem laid_migrateCell (new : List ℕ) (h : c.Laid old) : (migrateCell old new c).Laid new := by
  rw [CounterCell.Laid, rings_migrateCell, map_map]
  conv_rhs => rw [← map_id new]
  refine map_congr_left fun W _ => ?_
  by_cases hW : W ∈ old
  · obtain ⟨r, hr, hwindow⟩ := h.ringOf hW
    simp [hr, hwindow]
  · simp [ringOf, windowIndex_eq_none hW, CounterRing.fresh]

theorem ringOf_migrateCell {new : List ℕ} (h : c.Laid old) (hold : W ∈ old) (hnew : W ∈ new) :
    ringOf new (migrateCell old new c) W = ringOf old c W := by
  obtain ⟨r, hr, -⟩ := h.ringOf hold
  obtain ⟨i, hindex, hi⟩ := exists_windowIndex hnew
  rw [ringOf, hindex, Option.bind_some, rings_migrateCell, getElem?_map, hi,
    Option.map_some, hr, Option.getD_some]

variable (allocs : ℕ → Bool)

/-! ## Which allocations succeed -/

/-- All allocations from the `k`-th on succeed, as many as the plan has. -/
def Succeeds : ℕ → List Bool → Prop
  | _, [] => True
  | k, _ :: plan => allocs k = true ∧ Succeeds (k + 1) plan

/-- An allocation for a cell succeeds, and so do those before it. -/
def Replaces : ℕ → List Bool → Prop
  | _, [] => False
  | k, forCell :: plan => allocs k = true ∧ (forCell = true ∨ Replaces (k + 1) plan)

variable {allocs} {k : ℕ} {plan plan' : List Bool}

theorem succeeds_append :
    Succeeds allocs k (plan ++ plan') ↔
      Succeeds allocs k plan ∧ Succeeds allocs (k + plan.length) plan' := by
  induction plan generalizing k with
  | nil => simp [Succeeds]
  | cons _ plan ih =>
    rw [cons_append, Succeeds, Succeeds, ih, length_cons, and_assoc, Nat.add_right_comm,
      Nat.add_assoc]

theorem replaces_append :
    Replaces allocs k (plan ++ plan') ↔ Replaces allocs k plan ∨
      Succeeds allocs k plan ∧ Replaces allocs (k + plan.length) plan' := by
  induction plan generalizing k with
  | nil => simp [Succeeds, Replaces]
  | cons forCell plan ih =>
    rw [cons_append, Replaces, Replaces, Succeeds, ih, length_cons, Nat.add_right_comm,
      Nat.add_assoc]
    tauto

/-- What the allocations for a spec are for: a cell of a table whose windows change, or a table
that is not there yet. -/
def allocationsFor (store : CounterStore) (s : TableSpec) : List Bool :=
  match tableFind store s.id with
  | none => [false]
  | some t => if windowsEqual t s then [] else t.cells.map fun _ => true

variable (allocs) (k)

/-- A migration replaces the first cells, and if it gets to the end all of them. -/
theorem migrateCells_split (old new : List ℕ) (cells : List CounterCell) :
    ∃ first rest, cells = first ++ rest ∧
      (migrateCells allocs old new k cells).cells = first.map (migrateCell old new) ++ rest ∧
      ((migrateCells allocs old new k cells).complete = true ↔ rest = []) ∧
      (rest = [] → (migrateCells allocs old new k cells).next = k + cells.length) ∧
      (rest = [] ↔ Succeeds allocs k (cells.map fun _ => true)) ∧
      (first ≠ [] ↔ Replaces allocs k (cells.map fun _ => true)) := by
  induction cells generalizing k with
  | nil =>
    exact ⟨[], [], rfl, rfl, iff_of_true rfl rfl, fun _ => rfl, iff_of_true rfl trivial,
      by simp [Replaces]⟩
  | cons c cells ih =>
    rw [migrateCells, map_cons, Succeeds, Replaces]
    split
    · rename_i halloc
      obtain ⟨first, rest, hcells, hnew, hcomplete, hnext, hall, -⟩ := ih (k + 1)
      refine ⟨c :: first, rest, by rw [hcells, cons_append], by simp [hnew], hcomplete,
        fun hrest => ?_, by simp [halloc, hall], by simp [halloc]⟩
      rw [hnext hrest, length_cons]
      omega
    · rename_i halloc
      exact ⟨[], c :: cells, rfl, rfl, by simp, nofun, by simp [halloc], by simp [halloc]⟩

/-! ## One spec -/

/-- What can happen for one spec, with the number of cells that are replaced. -/
inductive SpecStep (s : TableSpec) (store : CounterStore) : SpecDone → ℕ → Prop where
  | kept {t : CounterTable} {k : ℕ} (hfind : tableFind store s.id = some t)
      (hequal : windowsEqual t s = true) : SpecStep s store ⟨store, k, true⟩ 0
  | refused {k : ℕ} (hfind : tableFind store s.id = none) : SpecStep s store ⟨store, k, false⟩ 0
  | created {k : ℕ} (hfind : tableFind store s.id = none) :
      SpecStep s store ⟨store ++ [tableCreate s], k, true⟩ 0
  | migrated {t : CounterTable} {k : ℕ} (hfind : tableFind store s.id = some t)
      (hequal : windowsEqual t s = false) :
      SpecStep s store ⟨tableReplace
        ⟨s.id, s.windows, t.cells.map (migrateCell t.windows s.windows)⟩ store, k, true⟩
        t.cells.length
  | broken {t : CounterTable} {k : ℕ} {first rest : List CounterCell}
      (hfind : tableFind store s.id = some t) (hequal : windowsEqual t s = false)
      (hcells : t.cells = first ++ rest) :
      SpecStep s store ⟨tableReplace
        ⟨s.id, t.windows, first.map (migrateCell t.windows s.windows) ++ rest⟩ store, k, false⟩
        first.length

/-- **What happens for a spec, by its allocations.** -/
theorem publishSpec_step (s : TableSpec) (store : CounterStore) :
    ∃ n, SpecStep s store (publishSpec allocs k s store) n ∧
      ((publishSpec allocs k s store).complete = true ↔
        Succeeds allocs k (allocationsFor store s)) ∧
      ((publishSpec allocs k s store).complete = true →
        (publishSpec allocs k s store).next = k + (allocationsFor store s).length) ∧
      (n ≠ 0 ↔ Replaces allocs k (allocationsFor store s)) := by
  unfold publishSpec allocationsFor
  cases hfind : tableFind store s.id with
  | some t =>
    dsimp only
    by_cases hequal : windowsEqual t s = true
    · rw [if_pos hequal, if_pos hequal]
      exact ⟨0, .kept hfind hequal, by simp [Succeeds], fun _ => rfl, by simp [Replaces]⟩
    · rw [if_neg hequal, if_neg hequal]
      rw [Bool.not_eq_true] at hequal
      obtain ⟨first, rest, hcells, hnew, hcomplete, hnext, hall, hfirst⟩ :=
        migrateCells_split allocs k t.windows s.windows t.cells
      have hid : t.id = s.id := (tableFind_eq_some hfind).2
      refine ⟨first.length, ?_, hcomplete.trans hall, fun h => ?_, by
        rw [← hfirst, ne_eq, length_eq_zero_iff]⟩
      · by_cases hrest : rest = []
        · obtain rfl : t.cells = first := by rw [hcells, hrest, append_nil]
          simp only [tableMigrate, hnew, hcomplete.mpr hrest, hrest, hid, append_nil]
          exact .migrated hfind hequal
        · have hstop := Bool.eq_false_iff.mpr (hcomplete.not.mpr hrest)
          simp only [tableMigrate, hnew, hstop, hid, Bool.false_eq_true]
          exact .broken hfind hequal hcells
      · rw [length_map]
        exact hnext (hcomplete.mp h)
  | none =>
    dsimp only
    rw [Succeeds, Replaces]
    by_cases halloc : allocs k = true
    · rw [if_pos halloc]
      exact ⟨0, .created hfind, by simp [halloc, Succeeds], fun _ => rfl, by simp [Replaces]⟩
    · rw [if_neg halloc]
      exact ⟨0, .refused hfind, by simp [halloc], nofun, by simp [halloc]⟩

/-! ## What is kept whatever fails -/

/-- The names of the tables differ, and so do the windows of each. -/
structure WellFormed (store : CounterStore) : Prop where
  ids : (store.map CounterTable.id).Nodup
  windows : ∀ t ∈ store, Distinct t.windows

theorem WellFormed.tableReplace (h : WellFormed store) (ht : Distinct t.windows) :
    WellFormed (tableReplace t store) where
  ids := by
    rw [map_id_tableReplace]
    exact h.ids
  windows := by
    intro u hu
    rcases mem_tableReplace hu with rfl | hu
    · exact ht
    · exact h.windows u hu

theorem tableFind_eq_none : tableFind store id = none ↔ id ∉ store.map CounterTable.id := by
  simp [tableFind]

theorem SpecStep.wellFormed (hd : SpecStep s store d n) (h : WellFormed store)
    (hs : Distinct s.windows) : WellFormed d.store := by
  cases hd with
  | kept | refused => exact h
  | created hfind =>
    constructor
    · have hnew := h.ids.concat (tableFind_eq_none.mp hfind)
      simpa [tableCreate] using hnew
    · exact forall_mem_append.mpr ⟨h.windows, forall_mem_singleton.mpr hs⟩
  | migrated hfind => exact h.tableReplace hs
  | broken hfind =>
    have hwindows := h.windows _ (tableFind_eq_some hfind).1
    exact h.tableReplace hwindows

/-- The other tables are left alone. -/
theorem SpecStep.tableFind_of_ne (hd : SpecStep s store d n) (h : s.id ≠ id) :
    tableFind d.store id = tableFind store id := by
  cases hd with
  | kept | refused => rfl
  | created => simp [tableFind, tableCreate, h]
  | migrated | broken => exact tableFind_tableReplace_of_ne h

/-- What the specs of a publication are like. -/
structure SpecsOk (specs : List TableSpec) : Prop where
  ids : (specs.map TableSpec.id).Nodup
  windows : ∀ s ∈ specs, Distinct s.windows

theorem SpecsOk.tail (h : SpecsOk (s :: specs)) : SpecsOk specs :=
  ⟨(nodup_cons.mp h.ids).2, (forall_mem_cons.mp h.windows).2⟩

theorem SpecsOk.head_notMem (h : SpecsOk (s :: specs)) :
    s.id ∉ specs.map TableSpec.id := (nodup_cons.mp h.ids).1

/-! ## All specs -/

/-- What can happen for the specs in turn, with the number of cells that are replaced. -/
inductive SpecRun : List TableSpec → CounterStore → Published → ℕ → Prop where
  | done {store : CounterStore} : SpecRun [] store ⟨.ok (), store⟩ 0
  | goesOn {s : TableSpec} {specs : List TableSpec} {store : CounterStore} {d : SpecDone}
      {p : Published} {m n : ℕ} (hstep : SpecStep s store d m) (hcomplete : d.complete = true)
      (hrest : SpecRun specs d.store p n) : SpecRun (s :: specs) store p (m + n)
  | stops {s : TableSpec} {specs : List TableSpec} {store : CounterStore} {d : SpecDone} {n : ℕ}
      (hstep : SpecStep s store d n) (hstop : ¬ d.complete = true) :
      SpecRun (s :: specs) store ⟨.error .noMemory, d.store⟩ n

/-- **What happens for the specs, by their allocations.** The tables that are still to come are
those of the store before. -/
theorem publishSpecs_run (specs : List TableSpec) (store : CounterStore) (h : SpecsOk specs) :
    ∃ n, SpecRun specs store (publishSpecs allocs k specs store) n ∧
      ((publishSpecs allocs k specs store).result = .ok () ↔
        Succeeds allocs k (specs.flatMap (allocationsFor store))) ∧
      (n ≠ 0 ↔ Replaces allocs k (specs.flatMap (allocationsFor store))) := by
  induction specs generalizing k store with
  | nil => exact ⟨0, .done, by simp [publishSpecs, Succeeds], by simp [Replaces]⟩
  | cons s specs ih =>
    obtain ⟨m, hstep, hcomplete, hnext, hm⟩ := publishSpec_step allocs k s store
    rw [publishSpecs, flatMap_cons, succeeds_append, replaces_append, ← hcomplete, ← hm]
    split
    · rename_i hdone
      obtain ⟨n, hrun, hresult, hn⟩ := ih (publishSpec allocs k s store).next
        (publishSpec allocs k s store).store h.tail
      have hsame : specs.flatMap (allocationsFor (publishSpec allocs k s store).store) =
          specs.flatMap (allocationsFor store) := by
        refine flatMap_congr fun s' hs' => ?_
        have hne : s.id ≠ s'.id := fun hid => h.head_notMem (hid ▸ mem_map_of_mem hs')
        rw [allocationsFor, allocationsFor, hstep.tableFind_of_ne hne]
      rw [hsame] at hresult hn
      rw [← hnext hdone]
      refine ⟨m + n, .goesOn hstep hdone hrun, by simp [hdone, hresult], ?_⟩
      rw [← hn, and_iff_right hdone]
      omega
    · rename_i hstop
      exact ⟨m, .stops hstep hstop, by simp [hstop], by simp [hstop]⟩

theorem SpecRun.tableFind_of_notMem (hrun : SpecRun specs store p n)
    (h : id ∉ specs.map TableSpec.id) : tableFind p.store id = tableFind store id := by
  induction hrun with
  | done => rfl
  | goesOn hstep _ _ ih =>
    obtain ⟨hne, hrest⟩ := not_or.mp (mem_cons.not.mp h)
    exact (ih hrest).trans (hstep.tableFind_of_ne (Ne.symm hne))
  | stops hstep => exact hstep.tableFind_of_ne fun hid => h (hid ▸ mem_cons_self)

theorem SpecRun.wellFormed (hrun : SpecRun specs store p n) (h : WellFormed store)
    (hspecs : SpecsOk specs) : WellFormed p.store := by
  induction hrun with
  | done => exact h
  | goesOn hstep _ _ ih =>
    exact ih (hstep.wellFormed h (hspecs.windows _ mem_cons_self)) hspecs.tail
  | stops hstep => exact hstep.wellFormed h (hspecs.windows _ mem_cons_self)

/-! ## Views -/

theorem addWindow_ok {s s' : TableSpec} (h : s.addWindow W = .ok s') :
    s'.id = s.id ∧ (Distinct s.windows → Distinct s'.windows) := by
  rw [TableSpec.addWindow] at h
  split at h
  · cases h
    exact ⟨rfl, fun h => h⟩
  · rename_i hzero
    split at h
    · cases h
      exact ⟨rfl, fun h => h⟩
    · rename_i hnew
      split at h
      · cases h
      · cases h
        refine ⟨rfl, fun hs => ⟨?_, ?_⟩⟩
        · have hnotMem : W ∉ s.windows := fun hmem => hnew (contains_iff_mem.mpr hmem)
          simpa using hs.nodup.concat hnotMem
        · rw [mem_append, mem_singleton]
          rintro (hmem | hself)
          · exact hs.pos hmem
          · exact hzero hself.symm

/-- A view finds its spec or appends one. -/
theorem addView_ok (h : addView v specs = .ok specs') :
    (specs'.map TableSpec.id = specs.map TableSpec.id ∧ v.id ∈ specs.map TableSpec.id ∨
      specs'.map TableSpec.id = specs.map TableSpec.id ++ [v.id] ∧ v.id ∉ specs.map TableSpec.id) ∧
    ((∀ s ∈ specs, Distinct s.windows) → ∀ s ∈ specs', Distinct s.windows) := by
  induction specs generalizing specs' with
  | nil =>
    obtain ⟨s, hs, hok⟩ := of_bind h
    cases hok
    obtain ⟨hid, hwindows⟩ := addWindow_ok hs
    exact ⟨.inr ⟨by simp [hid], not_mem_nil⟩, fun _ => forall_mem_singleton.mpr
      (hwindows ⟨nodup_nil, not_mem_nil⟩)⟩
  | cons s specs ih =>
    rw [addView] at h
    split at h
    · rename_i hid
      obtain ⟨s', hs, hok⟩ := of_bind h
      cases hok
      obtain ⟨hid', hwindows⟩ := addWindow_ok hs
      refine ⟨.inl ⟨by simp [hid'], by simp [hid]⟩, fun hall => ?_⟩
      exact forall_mem_cons.mpr ((forall_mem_cons.mp hall).imp_left hwindows)
    · rename_i hid
      obtain ⟨rest, hrest, hok⟩ := of_bind h
      cases hok
      obtain ⟨hids, hwindows⟩ := ih hrest
      refine ⟨?_, fun hall =>
        forall_mem_cons.mpr ((forall_mem_cons.mp hall).imp_right hwindows)⟩
      · rcases hids with ⟨hids, hmem⟩ | ⟨hids, hmem⟩
        · exact .inl ⟨by simp [hids], mem_cons_of_mem _ hmem⟩
        · refine .inr ⟨by simp [hids], ?_⟩
          rw [map_cons, mem_cons]
          rintro (hself | hmem')
          · exact hid hself.symm
          · exact hmem hmem'

theorem SpecsOk.addView (hspecs : SpecsOk specs) (h : addView v specs = .ok specs') :
    SpecsOk specs' := by
  obtain ⟨hids, hwindows⟩ := addView_ok h
  refine ⟨?_, hwindows hspecs.windows⟩
  rcases hids with ⟨hids, -⟩ | ⟨hids, hmem⟩
  · exact hids ▸ hspecs.ids
  · rw [hids]
    simpa using hspecs.ids.concat hmem

theorem foldViews_specsOk (h : foldViews views = .ok specs) : SpecsOk specs :=
  Scan.foldlM_inv (fun _ _ _ hspecs hok => hspecs.addView hok) ⟨by simp, by simp⟩ h

/-- Every view has its spec. -/
theorem mem_foldViews (h : foldViews views = .ok specs) (hv : v ∈ views) :
    v.id ∈ specs.map TableSpec.id := by
  obtain ⟨before, after, rfl⟩ := append_of_mem hv
  rw [foldViews, foldlM_append] at h
  obtain ⟨mid, -, h⟩ := of_bind h
  obtain ⟨added, hadded, h⟩ := of_bind h
  -- its spec is there once the view has been added, and stays
  refine Scan.foldlM_inv (P := fun specs => v.id ∈ specs.map TableSpec.id)
    (fun _ _ _ hmem hok => ?_) ?_ h
  · rcases (addView_ok hok).1 with ⟨hids, -⟩ | ⟨hids, -⟩
    · exact hids ▸ hmem
    · exact hids ▸ mem_append_left _ hmem
  · rcases (addView_ok hadded).1 with ⟨hids, hmem⟩ | ⟨hids, -⟩
    · exact hids ▸ hmem
    · exact hids ▸ mem_append_right _ (mem_singleton_self _)

end Pkm.Ntfe
