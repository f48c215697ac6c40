import Pkm.Lcs.Model.Topology
import Pkm.Lib.Grown
/-!
# The keys of a restore form a tree

Whatever sections a backup lists, those that are accepted create keys below the root of
the restore and nowhere else: each name of a created key lies in the root or in a key
created before, so that no key is above itself, and a section that is refused leaves the
state as it was (`observeAll_tree`).
-/

namespace Pkm.Lcs

open Bytes List Outcome

variable {state : BackupRestoreTopologyState} {entry : KeySection}

/-! ## The entries of a section -/

/-- The names of a key: the path entries that lead to it, without those that hide a name. -/
def KeySection.names (entry : KeySection) : List BackupPathEntryPayload :=
  entry.pathEntries.filter fun path => path.target != .hidden

/-- The keys in which the names of a key lie, once the root of the backup is moved. -/
def KeySection.parents (roots : RestoreRoots) (entry : KeySection) : List Guid :=
  entry.names.map fun path => roots.remap path.parentGuid

section

variable {roots : RestoreRoots} {keyGuid : Guid} {processed : List Guid}
  {search search' : AnchorSearch} {path : BackupPathEntryPayload}

theorem remapBackupRestorePathEntry_inside {restored : BackupRestorePathEntry}
    (h : remapBackupRestorePathEntry roots path processed = .ok restored) :
    restored.parentGuid = roots.remap path.parentGuid ∧
      (restored.parentGuid = roots.targetRootGuid ∨ restored.parentGuid ∈ processed) := by
  obtain ⟨parent, hparent, h⟩ := of_bind h
  cases h
  exact (remapInside_eq_ok hparent).2.2

/-- What the path entries that were passed have shown. -/
structure AnchorSearch.Passed (roots : RestoreRoots) (processed : List Guid)
    (names : List BackupPathEntryPayload) (search : AnchorSearch) : Prop where
  inside : ∀ path ∈ names, roots.remap path.parentGuid = roots.targetRootGuid ∨
    roots.remap path.parentGuid ∈ processed
  anchor : ∀ index parent name, search.anchor = some (index, parent, name) →
    parent ∈ names.map fun path => roots.remap path.parentGuid

theorem AnchorSearch.Passed.step {names : List BackupPathEntryPayload}
    (hs : search.Passed roots processed names) {index : ℕ}
    (h : search.step roots keyGuid processed index path = .ok search') :
    search'.Passed roots processed (names ++ [path].filter fun path => path.target != .hidden) := by
  unfold AnchorSearch.step at h
  cases htarget : path.target with
  | hidden =>
    have hskip : ([path].filter fun path => path.target != .hidden) = [] := by simp [htarget]
    rw [htarget] at h
    dsimp only at h
    split at h
    · cases h
      rw [hskip, append_nil]
      exact ⟨hs.inside, hs.anchor⟩
    · split at h
      · cases h
      · cases h
  | guid target =>
    have hkeep : ([path].filter fun path => path.target != .hidden) = [path] := by
      simp [htarget]
    rw [htarget] at h
    obtain ⟨restored, hrestored, h⟩ := of_bind h
    obtain ⟨-, h⟩ := of_guard h
    obtain ⟨hparent, hinside⟩ := remapBackupRestorePathEntry_inside hrestored
    rw [hparent] at hinside
    have hall := forall_mem_append.mpr ⟨hs.inside, forall_mem_singleton.mpr hinside⟩
    rw [hkeep]
    split at h
    · cases h
      refine ⟨hall, fun index' parent name heq => ?_⟩
      cases heq
      simp [hparent]
    · cases h
      refine ⟨hall, fun index' parent name heq => ?_⟩
      rw [map_append]
      exact mem_append_left _ (hs.anchor index' parent name heq)

theorem AnchorSearch.Passed.run (names : List BackupPathEntryPayload)
    {entries : List BackupPathEntryPayload} (hs : search.Passed roots processed names) {index : ℕ}
    (h : AnchorSearch.run roots keyGuid processed index search entries = .ok search') :
    search'.Passed roots processed
      (names ++ entries.filter fun path => path.target != .hidden) := by
  induction entries generalizing names search index with
  | nil =>
    cases h
    simpa using hs
  | cons path entries ih =>
    obtain ⟨mid, hmid, h⟩ := of_bind h
    have hrest := ih _ (hs.step hmid) h
    rwa [append_assoc, ← filter_append] at hrest

end

/-! ## The plan of a key -/

/-- What a plan to create a key guarantees. -/
structure Plans (roots : RestoreRoots) (processed : List Guid) (entry : KeySection)
    (plan : BackupRestoreNonRootKeyCreatePlan) : Prop where
  guid : plan.guid = entry.key.guid
  ne_header : plan.guid ≠ roots.headerRootGuid
  ne_target : plan.guid ≠ roots.targetRootGuid
  parent : plan.parentGuid ∈ entry.parents roots
  inside : ∀ p ∈ entry.parents roots, p = roots.targetRootGuid ∨ p ∈ processed

variable {validSd : Bytes → Bool}

theorem planBackupRestoreNonRootKeyCreate_plans {roots : RestoreRoots} {processed : List Guid}
    {plan : BackupRestoreNonRootKeyCreatePlan}
    (h : planBackupRestoreNonRootKeyCreate validSd roots entry.key entry.pathEntries processed =
      .ok plan) : Plans roots processed entry plan := by
  obtain ⟨-, h⟩ := of_guard h
  obtain ⟨hroot, h⟩ := of_guard h
  obtain ⟨hheader, htarget⟩ := not_or.mp hroot
  obtain ⟨-, -, h⟩ := of_bind h
  obtain ⟨search, hsearch, h⟩ := of_bind h
  have hpassed : search.Passed roots processed entry.names :=
    AnchorSearch.Passed.run [] ⟨by simp, by simp⟩ hsearch
  cases hanchor : search.anchor with
  | none =>
    rw [hanchor] at h
    dsimp only at h
    split at h <;> cases h
  | some anchor =>
    rw [hanchor] at h
    cases h
    exact ⟨rfl, hheader, htarget, hpassed.anchor _ _ _ hanchor, forall_mem_map.mpr hpassed.inside⟩

/-! ## One section -/

/-- What observing a section does to the state. -/
inductive Observes (state : BackupRestoreTopologyState) (entry : KeySection) :
    LcsResult BackupRestoreTopologyKeySectionPlan → BackupRestoreTopologyState → Prop where
  | rejected (e : LcsError) : Observes state entry (.error e) state
  | root (hseen : state.rootSeen = false) (hkey : entry.key.guid = state.roots.headerRootGuid) :
    Observes state entry
      (.ok (.root state.roots entry.key.securityDescriptor entry.key.lastWriteTimeNs))
      { state with rootSeen := true }
  | created (plan : BackupRestoreNonRootKeyCreatePlan) (set : BackupRestoreProcessedKeySet)
    (hseen : state.rootSeen = true)
    (hplans : Plans state.roots state.processedNonRootKeyGuids.guids entry plan)
    (hfresh : plan.guid ∉ state.processedNonRootKeyGuids.guids)
    (hset : set.guids = state.processedNonRootKeyGuids.guids ++ [plan.guid]) :
    Observes state entry (.ok (.nonRoot plan)) { state with processedNonRootKeyGuids := set }

theorem markNonRootKeyProcessed_eq_ok {set set' : BackupRestoreProcessedKeySet}
    {target guid : Guid} (h : set.markNonRootKeyProcessed target guid = .ok set') :
    guid ∉ set.guids ∧ set'.guids = set.guids ++ [guid] := by
  obtain ⟨-, h⟩ := of_guard h
  obtain ⟨-, h⟩ := of_guard h
  obtain ⟨hfresh, h⟩ := of_guard h
  split at h
  · cases h
  · cases h
    exact ⟨fun hmem => hfresh (contains_iff_mem.mpr hmem), rfl⟩

theorem run_get_bind {α : Type} (k : BackupRestoreTopologyState → Observing α)
    (state : BackupRestoreTopologyState) : (get >>= k).run state = (k state).run state := rfl

/-- A part that may be refused leaves the state to the rest. -/
theorem Observes.bind {α : Type} {x : LcsResult α}
    {k : α → Observing BackupRestoreTopologyKeySectionPlan}
    (h : ∀ a, x = .ok a → Observes state entry ((k a).run state).1 ((k a).run state).2) :
    Observes state entry ((liftM x >>= k).run state).1 ((liftM x >>= k).run state).2 := by
  cases x with
  | error e => exact .rejected e
  | ok a => exact h a rfl

/-- **Observing a section** either leaves the state or adds the key that was planned. -/
theorem observeKeySection_observes (validSd : Bytes → Bool) (state : BackupRestoreTopologyState)
    (entry : KeySection) :
    Observes state entry
      ((observeKeySection validSd entry.key entry.pathEntries).run state).1
      ((observeKeySection validSd entry.key entry.pathEntries).run state).2 := by
  unfold observeKeySection
  rw [run_get_bind]
  split
  · exact .rejected _
  split
  case isTrue hseen =>
    split
    · exact .rejected _
    · rename_i hkey
      exact .bind fun _ _ => .root (by simpa using hseen) (not_not.mp hkey)
  case isFalse hseen =>
    split
    · exact .rejected _
    split
    · exact .rejected _
    refine .bind fun plan hplan => ?_
    rw [markProcessed, bind_assoc, run_get_bind, bind_assoc]
    refine .bind fun set hset => ?_
    obtain ⟨hfresh, hguids⟩ := markNonRootKeyProcessed_eq_ok hset
    exact .created plan set (by simpa using hseen)
      (planBackupRestoreNonRootKeyCreate_plans hplan) hfresh hguids

/-! ## The tree -/

section Tree

variable (roots : RestoreRoots) (accepted : List (KeySection × BackupRestoreTopologyKeySectionPlan))

/-- The keys that were created, each with the keys in which its names lie. -/
def growth : List (Guid × List Guid) :=
  accepted.filterMap fun x =>
    match x.2 with
    | .nonRoot plan => some (plan.guid, x.1.parents roots)
    | .root .. => none

/-- The keys that were created, in order. -/
def createdGuids : List Guid := (growth roots accepted).map Prod.fst

/-- A created key and a key in which one of its names lies. -/
def NamedIn (guid parent : Guid) : Prop :=
  ∃ entry plan, (entry, .nonRoot plan) ∈ accepted ∧ plan.guid = guid ∧
    ∃ path ∈ entry.pathEntries, path.target ≠ .hidden ∧ roots.remap path.parentGuid = parent

/-- A created key and the key below which it is created. -/
def CreatedBelow (guid parent : Guid) : Prop :=
  ∃ entry plan, (entry, .nonRoot plan) ∈ accepted ∧ plan.guid = guid ∧ plan.parentGuid = parent

/-- The sections that were accepted form a tree below the root of the restore. -/
structure RestoredTree : Prop where
  rootFirst : ∀ x ∈ accepted.head?, x.1.key.guid = roots.headerRootGuid ∧
    x.2 = .root roots x.1.key.securityDescriptor x.1.key.lastWriteTimeNs
  created : ∀ x ∈ accepted.tail, ∃ plan, x.2 = .nonRoot plan ∧ plan.guid = x.1.key.guid
  parents : ∀ before entry plan after, accepted = before ++ (entry, .nonRoot plan) :: after →
    ∀ path ∈ entry.pathEntries, path.target ≠ .hidden →
      roots.remap path.parentGuid = roots.targetRootGuid ∨
        roots.remap path.parentGuid ∈ createdGuids roots before
  distinct : (createdGuids roots accepted).Nodup
  target_notMem : roots.targetRootGuid ∉ createdGuids roots accepted
  header_notMem : roots.headerRootGuid ∉ createdGuids roots accepted
  acyclic : ∀ guid, ¬ Relation.TransGen (NamedIn roots accepted) guid guid
  reaches : ∀ guid ∈ createdGuids roots accepted,
    Relation.TransGen (CreatedBelow accepted) guid roots.targetRootGuid

/-- What holds of the state when some sections have been accepted. -/
structure Restoring (state : BackupRestoreTopologyState) : Prop where
  roots_eq : state.roots = roots
  seen : state.rootSeen = true ↔ accepted ≠ []
  first : ∀ x ∈ accepted.head?, x.1.key.guid = roots.headerRootGuid ∧
    x.2 = .root roots x.1.key.securityDescriptor x.1.key.lastWriteTimeNs
  later : ∀ x ∈ accepted.tail, ∃ plan, x.2 = .nonRoot plan
  planned : ∀ entry plan, (entry, .nonRoot plan) ∈ accepted →
    plan.guid = entry.key.guid ∧ plan.parentGuid ∈ entry.parents roots
  processed : createdGuids roots accepted = state.processedNonRootKeyGuids.guids
  grown : Grown roots.targetRootGuid (growth roots accepted)
  header : roots.headerRootGuid ∉ createdGuids roots accepted

end Tree

variable {roots : RestoreRoots} {accepted : List (KeySection × BackupRestoreTopologyKeySectionPlan)}

theorem growth_append (more : List (KeySection × BackupRestoreTopologyKeySectionPlan)) :
    growth roots (accepted ++ more) = growth roots accepted ++ growth roots more :=
  filterMap_append

theorem mem_growth_iff {x : Guid × List Guid} : x ∈ growth roots accepted ↔
    ∃ entry plan, (entry, .nonRoot plan) ∈ accepted ∧ x = (plan.guid, entry.parents roots) := by
  unfold growth
  rw [mem_filterMap]
  constructor
  · rintro ⟨⟨entry, plan⟩, hmem, hx⟩
    cases plan with
    | root => cases hx
    | nonRoot plan => exact ⟨entry, plan, hmem, (Option.some.inj hx).symm⟩
  · rintro ⟨entry, plan, hmem, rfl⟩
    exact ⟨(entry, .nonRoot plan), hmem, rfl⟩

theorem mem_parents {path : BackupPathEntryPayload} (hpath : path ∈ entry.pathEntries)
    (hname : path.target ≠ .hidden) : roots.remap path.parentGuid ∈ entry.parents roots :=
  mem_map.mpr ⟨path, mem_filter.mpr ⟨hpath, bne_iff_ne.mpr hname⟩, rfl⟩

/-- The section that was accepted, if it was. -/
def acceptedOf (entry : KeySection) :
    LcsResult BackupRestoreTopologyKeySectionPlan →
      List (KeySection × BackupRestoreTopologyKeySectionPlan)
  | .ok plan => [(entry, plan)]
  | .error _ => []

/-- **One section.** -/
theorem Restoring.observe {next : BackupRestoreTopologyState}
    {result : LcsResult BackupRestoreTopologyKeySectionPlan} (h : Restoring roots accepted state)
    (ho : Observes state entry result next) :
    Restoring roots (accepted ++ acceptedOf entry result) next := by
  cases ho with
  | rejected e => simpa [acceptedOf] using h
  | root hseen hkey =>
    -- nothing has been accepted before the root
    obtain rfl : accepted = [] := by
      by_contra hne
      exact Bool.false_ne_true (hseen.symm.trans (h.seen.mpr hne))
    have hroots := h.roots_eq
    refine ⟨hroots, by simp [acceptedOf], ?_, by simp [acceptedOf], by simp [acceptedOf],
      h.processed, .nil, not_mem_nil⟩
    rintro x ⟨⟩
    exact ⟨hkey.trans (by rw [hroots]), by rw [hroots]⟩
  | created plan set hseen hplans hfresh hset =>
    have hne := h.seen.mp hseen
    rw [h.roots_eq] at hplans
    have hgrowth : growth roots (accepted ++ [(entry, .nonRoot plan)]) =
        growth roots accepted ++ [(plan.guid, entry.parents roots)] := growth_append _
    have hguids : createdGuids roots (accepted ++ [(entry, .nonRoot plan)]) =
        createdGuids roots accepted ++ [plan.guid] := by
      rw [createdGuids, hgrowth, map_append]
      rfl
    rw [← h.processed] at hfresh hset
    have hinside : ∀ p ∈ entry.parents roots, p = roots.targetRootGuid ∨
        p ∈ (growth roots accepted).map Prod.fst := by
      intro p hp
      refine (hplans.inside p hp).imp_right fun hmem => ?_
      rwa [← h.processed] at hmem
    refine ⟨h.roots_eq, by simp [acceptedOf, hseen], ?_, ?_, ?_, ?_, ?_, ?_⟩
    · rw [head?_append_of_ne_nil _ hne]
      exact h.first
    · rw [tail_append_of_ne_nil hne]
      exact forall_mem_append.mpr ⟨h.later, forall_mem_singleton.mpr ⟨plan, rfl⟩⟩
    · intro other plan' hmem
      obtain hmem | hmem := mem_append.mp hmem
      · exact h.planned other plan' hmem
      · obtain ⟨rfl, hplan⟩ := Prod.mk.inj (mem_singleton.mp hmem)
        cases hplan
        exact ⟨hplans.guid, hplans.parent⟩
    · exact hguids.trans hset.symm
    · rw [acceptedOf, hgrowth]
      exact h.grown.snoc hplans.ne_target hfresh hinside
    · rw [acceptedOf, hguids, mem_append]
      rintro (hmem | hmem)
      · exact h.header hmem
      · exact hplans.ne_header (mem_singleton.mp hmem).symm

/-- **A whole stream.** -/
theorem Restoring.observeAll (h : Restoring roots accepted state) (stream : List KeySection) :
    Restoring roots (accepted ++ (Lcs.observeAll validSd stream state).1)
      (Lcs.observeAll validSd stream state).2 := by
  induction stream generalizing accepted state with
  | nil => simpa [Lcs.observeAll] using h
  | cons entry stream ih =>
    have hrest := ih (h.observe (observeKeySection_observes validSd state entry))
    rw [Lcs.observeAll]
    generalize (observeKeySection validSd entry.key entry.pathEntries).run state = step at hrest ⊢
    obtain ⟨result, next⟩ := step
    cases result with
    | error e => simpa [acceptedOf] using hrest
    | ok plan => simpa [acceptedOf] using hrest

/-- What was accepted forms a tree. -/
theorem Restoring.tree (h : Restoring roots accepted state) :
    RestoredTree roots accepted where
  rootFirst := h.first
  created := by
    intro x hx
    obtain ⟨plan, hplan⟩ := h.later x hx
    have hmem : (x.1, .nonRoot plan) ∈ accepted := hplan ▸ mem_of_mem_tail hx
    exact ⟨plan, hplan, (h.planned x.1 plan hmem).1⟩
  parents := by
    rintro before entry plan after rfl path hpath hname
    have hsplit : growth roots (before ++ (entry, .nonRoot plan) :: after) =
        growth roots before ++ (plan.guid, entry.parents roots) :: growth roots after :=
      growth_append _
    exact h.grown.parents_before hsplit _ (mem_parents hpath hname)
  distinct := h.grown.nodup
  target_notMem := h.grown.root_notMem
  header_notMem := h.header
  acyclic := by
    intro guid hpath
    refine h.grown.acyclic guid (hpath.lift id ?_)
    rintro child parent ⟨entry, plan, hmem, rfl, path, hpath, hname, rfl⟩
    exact ⟨entry.parents roots, mem_growth_iff.mpr ⟨entry, plan, hmem, rfl⟩,
      mem_parents hpath hname⟩
  reaches := by
    intro guid hguid
    refine h.grown.reaches ?_ hguid
    intro x hx
    obtain ⟨entry, plan, hmem, rfl⟩ := mem_growth_iff.mp hx
    exact ⟨plan.parentGuid, (h.planned entry plan hmem).2, entry, plan, hmem, rfl, rfl⟩

theorem restoring_new {header target : Guid} {capacity : ℕ} {start : BackupRestoreTopologyState}
    (h : BackupRestoreTopologyState.new header target capacity = .ok start) :
    Restoring ⟨header, target⟩ [] start := by
  unfold BackupRestoreTopologyState.new at h
  split at h
  · cases h
  · cases h
    exact ⟨rfl, by simp, by simp, by simp, by simp, rfl, .nil, not_mem_nil⟩

/-- **The topology of a restore.** From a fresh state, whatever sections a stream holds and
whatever storage there is, those that are accepted form a tree below the root of the restore,
and each that is refused leaves the state as it was. -/
theorem observeAll_tree (validSd : Bytes → Bool) {header target : Guid} {capacity : ℕ}
    {start : BackupRestoreTopologyState}
    (hnew : BackupRestoreTopologyState.new header target capacity = .ok start)
    (stream : List KeySection) :
    RestoredTree ⟨header, target⟩ (observeAll validSd stream start).1 ∧
      ∀ (state state' : BackupRestoreTopologyState) (entry : KeySection) (e : LcsError),
        (observeKeySection validSd entry.key entry.pathEntries).run state = (.error e, state') →
          state' = state := by
  refine ⟨((restoring_new hnew).observeAll stream).tree, fun state state' entry e hrun => ?_⟩
  have hobserves := observeKeySection_observes validSd state entry
  rw [hrun] at hobserves
  cases hobserves
  rfl

/-! ## A backup of three keys -/

namespace ThreeKeys

def guid (n : ℕ) : Guid := ⟨List.replicate 16 (BitVec.ofNat 8 n), length_filled n⟩

def key (n : ℕ) : BackupKeyPayload := ⟨guid n, false, false, [], 0⟩

def name (parent n : ℕ) : BackupPathEntryPayload :=
  ⟨guid parent, "Name".toList, .guid (guid n), "base".toList, 0⟩

/-- The root, a key below it, a key that comes too early, and one below both. -/
def stream : List KeySection :=
  [⟨key 1, []⟩, ⟨key 3, [name 1 3]⟩, ⟨key 5, [name 4 5]⟩, ⟨key 4, [name 3 4, name 1 4]⟩]

end ThreeKeys

theorem observeAll_tree_threeKeys : ∃ start,
    BackupRestoreTopologyState.new (ThreeKeys.guid 1) (ThreeKeys.guid 2) 8 = .ok start ∧
      (observeAll (fun _ => true) ThreeKeys.stream start).2.processedNonRootKeyGuids.guids =
        [ThreeKeys.guid 3, ThreeKeys.guid 4] ∧
      RestoredTree ⟨ThreeKeys.guid 1, ThreeKeys.guid 2⟩
        (observeAll (fun _ => true) ThreeKeys.stream start).1 := by
  have hnew : BackupRestoreTopologyState.new (ThreeKeys.guid 1) (ThreeKeys.guid 2) 8 =
      .ok ⟨⟨ThreeKeys.guid 1, ThreeKeys.guid 2⟩, false, .new 8, by decide, by decide⟩ := rfl
  exact ⟨_, hnew, by decide +kernel, (observeAll_tree _ hnew _).1⟩

end Pkm.Lcs
