import Pkm.Lcs.Restore
import Pkm.Lcs.Topology
/-!
# What the records of a restore refer to

Path entries, values and blankets carry the GUID of a key of the backup, and are
accepted if that is moved to the root of the restore or to a key created before.
The GUID of the root of the restore itself passes that test, though no key of the
backup has it. Apart from that a reference is to a key of the backup, and no two
of them are moved to one.
-/

namespace Pkm.Lcs

open Bytes ThreeKeys

/-- A record that names a key, with the remapper as it finds it. -/
inductive KeyReference where
  | pathParent (entry : BackupPathEntryPayload)
  | value (value : BackupValuePayload) (remapper : BackupRestoreSequenceRemapper)
  | blanket (blanket : BackupBlanketTombstonePayload) (remapper : BackupRestoreSequenceRemapper)

namespace KeyReference

/-- The GUID it carries in the backup. -/
def guid : KeyReference → Guid
  | .pathParent entry => entry.parentGuid
  | .value v _ => v.keyGuid
  | .blanket b _ => b.keyGuid

/-- The key it is moved to. -/
def remapped (roots : RestoreRoots) (processed : List Guid) : KeyReference → LcsResult Guid
  | .pathParent entry => (remapBackupRestorePathEntry roots entry processed).map (·.parentGuid)
  | .value v remapper =>
    ((remapBackupRestoreValue roots v processed).run remapper).1.map (·.keyGuid)
  | .blanket b remapper =>
    ((remapBackupRestoreBlanketTombstone roots b processed).run remapper).1.map (·.keyGuid)

variable {key : Guid}

theorem eq_ok_of_run {α : Type} {x : Remapping α} {f : α → Guid} {y : LcsResult Guid}
    (hx : Steps x fun _ a _ => y = .ok (f a)) {remapper : BackupRestoreSequenceRemapper}
    (h : (x.run remapper).1.map f = .ok key) : y = .ok key := by
  rcases hx remapper with ⟨e, hrun⟩ | ⟨a, r, hrun, hy⟩
  · rw [hrun] at h
    cases h
  · rw [hrun] at h
    exact hy.trans h

variable {roots : RestoreRoots} {processed : List Guid}

theorem remapped_eq_ok {ref : KeyReference} (h : ref.remapped roots processed = .ok key) :
    key = roots.remap ref.guid ∧ (key = roots.targetRootGuid ∨ key ∈ processed) := by
  cases ref with
  | pathParent entry =>
    obtain ⟨restored, hrestored, rfl⟩ : ∃ r, remapBackupRestorePathEntry roots entry processed
        = .ok r ∧ r.parentGuid = key := by
      revert h
      simp only [remapped]
      cases remapBackupRestorePathEntry roots entry processed <;> simp [Except.map]
    exact remapBackupRestorePathEntry_inside hrestored
  | value v remapper =>
    have hsteps : Steps (remapBackupRestoreValue roots v processed) fun _ restored _ =>
        validateRestoreRecordKeyGuid roots v.keyGuid processed = .ok restored.keyGuid :=
      Steps.check_record fun _ _ _ _ hkey _ => hkey
    exact (remapInside_eq_ok (eq_ok_of_run hsteps h)).2.2
  | blanket b remapper =>
    have hsteps : Steps (remapBackupRestoreBlanketTombstone roots b processed) fun _ restored _ =>
        validateRestoreRecordKeyGuid roots b.keyGuid processed = .ok restored.keyGuid :=
      Steps.check_record fun _ _ _ _ hkey _ => hkey
    exact (remapInside_eq_ok (eq_ok_of_run hsteps h)).2.2

end KeyReference

/-- A reference and how many sections of the stream come before it. -/
structure PlacedReference where
  place : ℕ
  reference : KeyReference

section

variable (validSd : Bytes → Bool) (start : BackupRestoreTopologyState) (stream : List KeySection)

def PlacedReference.key (a : PlacedReference) : LcsResult Guid :=
  a.reference.remapped start.roots
    (observeAll validSd (stream.take a.place) start).2.processedNonRootKeyGuids.guids

/-- What is asked of the references of a stream. -/
structure FaithfulReferences (refs : List PlacedReference) : Prop where
  distinct : ∀ a ∈ refs, ∀ b ∈ refs, ∀ k l, a.key validSd start stream = .ok k →
    b.key validSd start stream = .ok l → a.reference.guid ≠ b.reference.guid → k ≠ l
  earlier : ∀ a ∈ refs, ∀ k, a.key validSd start stream = .ok k →
    a.reference.guid = start.roots.headerRootGuid ∨ a.reference.guid ∈
      createdGuids start.roots (observeAll validSd (stream.take a.place) start).1

end

/-- **The references of a restore are faithful exactly when none that is accepted carries the GUID
of the root of the restore**, unless that is also the root of the backup. -/
theorem faithfulReferences_iff (validSd : Bytes → Bool) {header target : Guid} {capacity : ℕ}
    {start : BackupRestoreTopologyState}
    (hnew : BackupRestoreTopologyState.new header target capacity = .ok start)
    (stream : List KeySection) (refs : List PlacedReference) :
    FaithfulReferences validSd start stream refs ↔
      ∀ a ∈ refs, ∀ k, a.key validSd start stream = .ok k → a.reference.guid = target →
        header = target := by
  have hroots := (restoring_new hnew).roots_eq
  have htree : ∀ n, Restoring ⟨header, target⟩ (observeAll validSd (stream.take n) start).1
      (observeAll validSd (stream.take n) start).2 :=
    fun n => (restoring_new hnew).observeAll (stream.take n)
  constructor
  · intro h a ha k hk htarget
    rcases h.earlier a ha k hk with heq | hmem
    · rw [hroots] at heq
      exact heq.symm.trans htarget
    · rw [hroots, htarget] at hmem
      exact absurd hmem (htree a.place).tree.target_notMem
  · intro h
    -- an accepted reference is to the root of the backup or to a created key
    have hcases : ∀ a ∈ refs, ∀ k, a.key validSd start stream = .ok k →
        (a.reference.guid = header ∧ k = target) ∨
          (k = a.reference.guid ∧ k ≠ target ∧ a.reference.guid ∈
            createdGuids ⟨header, target⟩ (observeAll validSd (stream.take a.place) start).1) := by
      intro a ha k hk
      obtain ⟨hkey, hin⟩ := KeyReference.remapped_eq_ok hk
      rw [hroots] at hkey hin
      by_cases hheader : a.reference.guid = header
      · exact .inl ⟨hheader, hkey.trans (if_pos hheader)⟩
      · have hsame : k = a.reference.guid := hkey.trans (if_neg hheader)
        have hne : k ≠ target := fun heq =>
          hheader (hsame.symm.trans (heq.trans (h a ha k hk (hsame.symm.trans heq)).symm))
        have hmem := hin.resolve_left hne
        rw [← (htree a.place).processed] at hmem
        exact .inr ⟨hsame, hne, hsame ▸ hmem⟩
    refine ⟨fun a ha b hb k l hk hl hguid heq => ?_, fun a ha k hk => ?_⟩
    · rcases hcases a ha k hk with ⟨ha', hk'⟩ | ⟨hk', hne, -⟩ <;>
        rcases hcases b hb l hl with ⟨hb', hl'⟩ | ⟨hl', hne', -⟩
      · exact hguid (ha'.trans hb'.symm)
      · exact hne' (heq.symm.trans hk')
      · exact hne (heq.trans hl')
      · exact hguid (hk'.symm.trans (heq.trans hl'))
    · rw [hroots]
      exact (hcases a ha k hk).imp And.left fun h => h.2.2

namespace ThreeKeys

/-- The parent of a name, met behind the first section. -/
def parent (n : ℕ) : PlacedReference := ⟨1, .pathParent (name n 3)⟩

end ThreeKeys

/-- The root of the backup has the GUID 1 and is restored at a key with the GUID 2. A reference to
either is accepted and moved to the latter. -/
theorem target_guid_taken_for_root : ∃ start,
    BackupRestoreTopologyState.new (guid 1) (guid 2) 8 = .ok start ∧
      (parent 1).reference.guid ≠ (parent 2).reference.guid ∧
      (parent 1).key (fun _ => true) start stream = .ok (guid 2) ∧
      (parent 2).key (fun _ => true) start stream = .ok (guid 2) :=
  ⟨⟨⟨guid 1, guid 2⟩, false, .new 8, by decide, by decide⟩, rfl, by decide,
    by decide +kernel, by decide +kernel⟩

/-- References to the root, behind the first section, and to the two keys that are accepted, each
behind its own. -/
theorem accepted_references_faithful : ∃ start,
    BackupRestoreTopologyState.new (guid 1) (guid 2) 8 = .ok start ∧
      let refs := [parent 1, ⟨2, .pathParent (name 3 4)⟩, ⟨4, .pathParent (name 4 6)⟩]
      refs.map (·.key (fun _ => true) start stream) = [.ok (guid 2), .ok (guid 3), .ok (guid 4)] ∧
        FaithfulReferences (fun _ => true) start stream refs := by
  have hnew : BackupRestoreTopologyState.new (guid 1) (guid 2) 8 =
      .ok ⟨⟨guid 1, guid 2⟩, false, .new 8, by decide, by decide⟩ := rfl
  refine ⟨_, hnew, by decide +kernel, (faithfulReferences_iff _ hnew _ _).mpr ?_⟩
  intro a ha k _ hguid
  simp only [List.mem_cons, List.not_mem_nil, or_false] at ha
  rcases ha with rfl | rfl | rfl <;> cases hguid

end Pkm.Lcs
