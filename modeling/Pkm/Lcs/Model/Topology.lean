import Pkm.Lcs.Model.Restore
/-!
# The topology of a restore

A backup lists its keys in sections, each with the names under which the key is to be
found. The first section is that of the root; every other key is created below one that
is there already, so that parents come before their children. The state of the restore
remembers the keys that were created, in storage of a fixed size.

Whether a security descriptor is well formed and names an owner is a parameter here.
-/

namespace Pkm.Lcs

open Bytes

structure BackupKeyPayload where
  guid : Guid
  volatile : Bool
  symlink : Bool
  securityDescriptor : Bytes
  lastWriteTimeNs : ℤ

/-- The keys that were created, which fit into the storage. -/
structure BackupRestoreProcessedKeySet where
  guids : List Guid
  capacity : ℕ
  length_le : guids.length ≤ capacity

namespace BackupRestoreProcessedKeySet

def new (capacity : ℕ) : BackupRestoreProcessedKeySet := ⟨[], capacity, Nat.zero_le _⟩

def markNonRootKeyProcessed (set : BackupRestoreProcessedKeySet)
    (targetRootGuid keyGuid : Guid) : LcsResult BackupRestoreProcessedKeySet :=
  if targetRootGuid = nilGuid ∨ keyGuid = nilGuid then .error .nilKeyGuid
  else if keyGuid = targetRootGuid then .error (.backupRestoreRootKeyCreateNotAllowed keyGuid)
  else if set.guids.contains keyGuid then .error (.duplicateBackupKeyGuid keyGuid)
  else if h : set.guids.length = set.capacity then
    .error (.backupRestoreProcessedKeySetFull set.capacity)
  else
    have hlt := Nat.lt_of_le_of_ne set.length_le h
    .ok ⟨set.guids ++ [keyGuid], set.capacity, by rw [List.length_append]; exact hlt⟩

end BackupRestoreProcessedKeySet

/-- The state of the restore, for roots that are not nil. -/
structure BackupRestoreTopologyState where
  roots : RestoreRoots
  rootSeen : Bool
  processedNonRootKeyGuids : BackupRestoreProcessedKeySet
  header_ne_nil : roots.headerRootGuid ≠ nilGuid
  target_ne_nil : roots.targetRootGuid ≠ nilGuid

def BackupRestoreTopologyState.new (headerRootGuid targetRootGuid : Guid) (capacity : ℕ) :
    LcsResult BackupRestoreTopologyState :=
  if h : headerRootGuid = nilGuid ∨ targetRootGuid = nilGuid then .error .nilKeyGuid
  else
    .ok {
      roots := ⟨headerRootGuid, targetRootGuid⟩
      rootSeen := false
      processedNonRootKeyGuids := .new capacity
      header_ne_nil := (not_or.mp h).1
      target_ne_nil := (not_or.mp h).2 }

structure BackupRestoreNonRootKeyCreatePlan where
  guid : Guid
  parentGuid : Guid
  childName : Name
  securityDescriptor : Bytes
  volatile : Bool
  symlink : Bool
  anchorPathEntryIndex : ℕ

inductive BackupRestoreTopologyKeySectionPlan where
  | root (roots : RestoreRoots) (securityDescriptor : Bytes) (lastWriteTimeNs : ℤ)
  | nonRoot (plan : BackupRestoreNonRootKeyCreatePlan)

variable (validSd : Bytes → Bool)

def validateBackupSecurityDescriptor (bytes : Bytes) (field : String) : LcsResult Unit :=
  if validSd bytes then .ok () else .error (.malformedSecurityDescriptor field)

/-! ## Planning the creation of a key -/

/-- What the path entries of a section have shown so far: the first name of the key, with its
place among the entries, and whether the key hides names of its own. -/
structure AnchorSearch where
  anchor : Option (ℕ × Guid × Name)
  sawParentOwnedHidden : Bool

/-- One path entry of the section of a key. -/
def AnchorSearch.step (roots : RestoreRoots) (keyGuid : Guid) (processed : List Guid)
    (index : ℕ) (search : AnchorSearch) (entry : BackupPathEntryPayload) :
    LcsResult AnchorSearch :=
  match entry.target with
  | .hidden =>
    let parentGuid := roots.remap entry.parentGuid
    if parentGuid = keyGuid then .ok { search with sawParentOwnedHidden := true }
    else if parentGuid ≠ roots.targetRootGuid ∧ ¬ processed.contains parentGuid then
      .error (.backupRestoreParentGuidOutsideSubtree parentGuid)
    else .error (.backupRestoreKeyCreateAnchorTargetMismatch keyGuid nilGuid)
  | .guid target => do
    let restored ← remapBackupRestorePathEntry roots entry processed
    let childGuid := roots.remap target
    if childGuid ≠ keyGuid then
      .error (.backupRestoreKeyCreateAnchorTargetMismatch keyGuid childGuid)
    else if search.anchor.isNone then
      .ok { search with anchor := some (index, restored.parentGuid, restored.childName) }
    else .ok search

/-- The path entries of the section of a key, from the `index`-th on. -/
def AnchorSearch.run (roots : RestoreRoots) (keyGuid : Guid) (processed : List Guid) :
    ℕ → AnchorSearch → List BackupPathEntryPayload → LcsResult AnchorSearch
  | _, search, [] => .ok search
  | index, search, entry :: entries => do
    let search ← search.step roots keyGuid processed index entry
    AnchorSearch.run roots keyGuid processed (index + 1) search entries

def planBackupRestoreNonRootKeyCreate (roots : RestoreRoots) (key : BackupKeyPayload)
    (pathEntries : List BackupPathEntryPayload) (processed : List Guid) :
    LcsResult BackupRestoreNonRootKeyCreatePlan :=
  if roots.headerRootGuid = nilGuid ∨ roots.targetRootGuid = nilGuid ∨ key.guid = nilGuid then
    .error .nilKeyGuid
  else if key.guid = roots.headerRootGuid ∨ key.guid = roots.targetRootGuid then
    .error (.backupRestoreRootKeyCreateNotAllowed key.guid)
  else do
    validateBackupSecurityDescriptor validSd key.securityDescriptor "backup_key.sd"
    let search ← AnchorSearch.run roots key.guid processed 0 ⟨none, false⟩ pathEntries
    match search.anchor with
    | none =>
      if search.sawParentOwnedHidden then
        .error (.backupRestoreKeyCreateAnchorTargetMismatch key.guid nilGuid)
      else .error (.backupRestoreKeyCreateAnchorMissing key.guid)
    | some (anchorPathEntryIndex, parentGuid, childName) =>
      .ok {
        guid := key.guid
        parentGuid
        childName
        securityDescriptor := key.securityDescriptor
        volatile := key.volatile
        symlink := key.symlink
        anchorPathEntryIndex }

/-! ## Observing a section -/

/-- A computation that can fail and changes the state of the restore. -/
abbrev Observing := ExceptT LcsError (StateM BackupRestoreTopologyState)

/-- Enters a key into the set of the state. -/
def markProcessed (keyGuid : Guid) : Observing Unit := do
  let self ← get
  let set ← liftM (self.processedNonRootKeyGuids.markNonRootKeyProcessed
    self.roots.targetRootGuid keyGuid)
  modify fun self => { self with processedNonRootKeyGuids := set }

def observeKeySection (key : BackupKeyPayload) (pathEntries : List BackupPathEntryPayload) :
    Observing BackupRestoreTopologyKeySectionPlan := do
  let self ← get
  if key.guid = nilGuid then throw .nilKeyGuid
  else if !self.rootSeen then
    if key.guid ≠ self.roots.headerRootGuid then throw (.backupRestoreFirstKeyNotRoot key.guid)
    else
      let _ ← liftM (validateBackupSecurityDescriptor validSd key.securityDescriptor
        "backup_key.sd")
      modify fun self => { self with rootSeen := true }
      pure (.root self.roots key.securityDescriptor key.lastWriteTimeNs)
  else if key.guid = self.roots.headerRootGuid then throw .backupRestoreRootKeyDuplicate
  else if self.processedNonRootKeyGuids.guids.contains key.guid then
    throw (.duplicateBackupKeyGuid key.guid)
  else
    let plan ← liftM (planBackupRestoreNonRootKeyCreate validSd self.roots key pathEntries
      self.processedNonRootKeyGuids.guids)
    markProcessed plan.guid
    pure (.nonRoot plan)

/-! ## The stream -/

structure KeySection where
  key : BackupKeyPayload
  pathEntries : List BackupPathEntryPayload

/-- The sections of a stream in turn: those that were accepted, with their plans, and the state
after them. -/
def observeAll : List KeySection → BackupRestoreTopologyState →
    List (KeySection × BackupRestoreTopologyKeySectionPlan) × BackupRestoreTopologyState
  | [], state => ([], state)
  | entry :: stream, state =>
    let (result, next) := (observeKeySection validSd entry.key entry.pathEntries).run state
    let (accepted, final) := observeAll stream next
    ((match result with
      | .ok plan => (entry, plan) :: accepted
      | .error _ => accepted), final)

end Pkm.Lcs
