import Pkm.Lcs.Model.Resolution
/-!
# Restoring a backup

The records of a backup carry the sequence numbers of the registry they come from.
A restore adds one offset to all of them, so that they keep their order among each
other and come after everything that was there before, and moves what names the
root of the backup to the key it is restored at. One remapper does this for the
whole stream and remembers the greatest number it gave out.
-/

namespace Pkm.Lcs

open Bytes

/-! ## Records -/

structure BackupPathEntryPayload where
  parentGuid : Guid
  childName : Name
  target : PathTarget
  layerName : Name
  sequence : ℕ

structure BackupRestorePathEntry where
  parentGuid : Guid
  childName : Name
  target : PathTarget
  layerName : Name
  sequence : ℕ

structure BackupValuePayload where
  keyGuid : Guid
  name : Name
  valueType : ValidatedValueType
  data : Bytes
  layerName : Name
  sequence : ℕ

structure BackupRestoreValue where
  keyGuid : Guid
  name : Name
  valueType : ValidatedValueType
  data : Bytes
  layerName : Name
  sequence : ℕ

structure BackupBlanketTombstonePayload where
  keyGuid : Guid
  layerName : Name
  sequence : ℕ

structure BackupRestoreBlanketTombstone where
  keyGuid : Guid
  layerName : Name
  sequence : ℕ

/-! ## The remapper -/

structure BackupRestoreSequenceRemapper where
  restoreSequenceOffset : ℕ
  maxDispatchedSequence : Option ℕ
  dispatchedCount : ℕ

/-- A computation that can fail and changes the remapper. -/
abbrev Remapping := ExceptT LcsError (StateM BackupRestoreSequenceRemapper)

/-- A sum, if it fits into 64 bits. -/
def checkedAdd (a b : ℕ) : LcsResult ℕ :=
  if a + b < 2 ^ 64 then .ok (a + b) else .error .sequenceOverflow

namespace BackupRestoreSequenceRemapper

def new (restoreSequenceOffset : ℕ) : BackupRestoreSequenceRemapper :=
  ⟨restoreSequenceOffset, none, 0⟩

/-- The remapper after it gave out a number. -/
def raiseMax (remapper : BackupRestoreSequenceRemapper) (newSequence : ℕ) :
    BackupRestoreSequenceRemapper :=
  if remapper.maxDispatchedSequence.all fun max => newSequence > max then
    { remapper with maxDispatchedSequence := some newSequence }
  else remapper

/-- The number a record is dispatched with. -/
def recordDispatched (backupSequence : ℕ) : Remapping ℕ := do
  let self ← get
  let newSequence ← liftM (checkedAdd self.restoreSequenceOffset backupSequence)
  let _ ← liftM (checkedAdd newSequence 1)
  let count ← liftM (checkedAdd self.dispatchedCount 1)
  modify fun self => { self with dispatchedCount := count }
  modify fun self => self.raiseMax newSequence
  pure newSequence

/-- The next sequence number of the registry once the restore is over, however it ended. -/
def terminalNextSequence (remapper : BackupRestoreSequenceRemapper) (currentNextSequence : ℕ) :
    LcsResult ℕ :=
  match remapper.maxDispatchedSequence with
  | none => .ok currentNextSequence
  | some maxDispatchedSequence => do
    let requiredNext ← checkedAdd maxDispatchedSequence 1
    .ok (max currentNextSequence requiredNext)

end BackupRestoreSequenceRemapper

open BackupRestoreSequenceRemapper

/-! ## Remapping a record -/

def remapBackupRestoreGuid (guid headerRootGuid targetRootGuid : Guid) : Guid :=
  if guid = headerRootGuid then targetRootGuid else guid

/-- What a record is remapped with: the root of the backup and the key it is restored at. -/
structure RestoreRoots where
  headerRootGuid : Guid
  targetRootGuid : Guid

variable (roots : RestoreRoots) (blanket : BackupBlanketTombstonePayload)
  (value : BackupValuePayload)

def RestoreRoots.remap (guid : Guid) : Guid :=
  remapBackupRestoreGuid guid roots.headerRootGuid roots.targetRootGuid

/-- The check of the key a record belongs to, with the error for one outside of the subtree. -/
def RestoreRoots.remapInside (guid : Guid) (processed : List Guid) (outside : Guid → LcsError) :
    LcsResult Guid :=
  if roots.headerRootGuid = nilGuid ∨ roots.targetRootGuid = nilGuid then .error .nilKeyGuid
  else
    let remapped := roots.remap guid
    if remapped ≠ roots.targetRootGuid ∧ ¬ processed.contains remapped then
      .error (outside remapped)
    else .ok remapped

def validateRestoreRecordKeyGuid (keyGuid : Guid) (processedNonRootKeyGuids : List Guid) :
    LcsResult Guid :=
  roots.remapInside keyGuid processedNonRootKeyGuids .backupRestoreKeyGuidOutsideSubtree

def PathTarget.remap (f : Guid → Guid) : PathTarget → PathTarget
  | .guid target => .guid (f target)
  | .hidden => .hidden

def remapBackupRestorePathEntry (entry : BackupPathEntryPayload)
    (processedNonRootKeyGuids : List Guid) : LcsResult BackupRestorePathEntry := do
  let parentGuid ← roots.remapInside entry.parentGuid processedNonRootKeyGuids
    .backupRestoreParentGuidOutsideSubtree
  .ok {
    parentGuid
    childName := entry.childName
    target := entry.target.remap roots.remap
    layerName := entry.layerName
    sequence := entry.sequence }

def remapBackupRestorePathEntryForDispatch (entry : BackupPathEntryPayload)
    (processedNonRootKeyGuids : List Guid) : Remapping BackupRestorePathEntry := do
  let restored ← liftM (remapBackupRestorePathEntry roots entry processedNonRootKeyGuids)
  let sequence ← recordDispatched entry.sequence
  pure { restored with sequence }

def validateBackupRestorePathEntryTargetInKeySet (target : PathTarget) (targetRootGuid : Guid)
    (remappedNonRootKeyGuids : List Guid) : LcsResult Unit :=
  if targetRootGuid = nilGuid then .error .nilKeyGuid
  else
    match target with
    | .hidden => .ok ()
    | .guid guid =>
      if guid = nilGuid then .error .nilKeyGuid
      else if guid = targetRootGuid ∨ remappedNonRootKeyGuids.contains guid then .ok ()
      else .error (.backupRestoreKeyGuidOutsideSubtree guid)

def remapBackupRestorePathEntryWithKeySet (entry : BackupPathEntryPayload)
    (processedNonRootKeyGuids remappedNonRootKeyGuids : List Guid) :
    LcsResult BackupRestorePathEntry := do
  let restored ← remapBackupRestorePathEntry roots entry processedNonRootKeyGuids
  validateBackupRestorePathEntryTargetInKeySet restored.target roots.targetRootGuid
    remappedNonRootKeyGuids
  .ok restored

def remapBackupRestorePathEntryForDispatchWithKeySet (entry : BackupPathEntryPayload)
    (processedNonRootKeyGuids remappedNonRootKeyGuids : List Guid) :
    Remapping BackupRestorePathEntry := do
  let restored ← liftM (remapBackupRestorePathEntryWithKeySet roots entry
    processedNonRootKeyGuids remappedNonRootKeyGuids)
  let sequence ← recordDispatched entry.sequence
  pure { restored with sequence }

/-- What becomes of a path entry in the section of the root: the names that lead to the root are
not restored. -/
inductive BackupRestoreRootSectionPathEntryPlan where
  | skipIncomingRoot (entry : BackupPathEntryPayload)
  | restoreHidden (entry : BackupRestorePathEntry)

def planBackupRestoreRootSectionPathEntryForDispatch (entry : BackupPathEntryPayload) :
    Remapping BackupRestoreRootSectionPathEntryPlan :=
  if roots.headerRootGuid = nilGuid ∨ roots.targetRootGuid = nilGuid then throw .nilKeyGuid
  else
    match entry.target with
    | .guid childGuid =>
      let childGuid := roots.remap childGuid
      if childGuid ≠ roots.targetRootGuid then
        throw (.backupRestoreKeyCreateAnchorTargetMismatch roots.headerRootGuid childGuid)
      else pure (.skipIncomingRoot entry)
    | .hidden =>
      let parentGuid := roots.remap entry.parentGuid
      if parentGuid ≠ roots.targetRootGuid then
        throw (.backupRestoreParentGuidOutsideSubtree parentGuid)
      else do
        let sequence ← recordDispatched entry.sequence
        pure (.restoreHidden {
          parentGuid
          childName := entry.childName
          target := .hidden
          layerName := entry.layerName
          sequence })

def remapBackupRestoreValue (processedNonRootKeyGuids : List Guid) :
    Remapping BackupRestoreValue := do
  let keyGuid ← liftM (validateRestoreRecordKeyGuid roots value.keyGuid processedNonRootKeyGuids)
  let sequence ← recordDispatched value.sequence
  pure {
    keyGuid
    name := value.name
    valueType := value.valueType
    data := value.data
    layerName := value.layerName
    sequence }

def remapBackupRestoreRootSectionValue : Remapping BackupRestoreValue :=
  remapBackupRestoreValue roots value []

def remapBackupRestoreBlanketTombstone (processedNonRootKeyGuids : List Guid) :
    Remapping BackupRestoreBlanketTombstone := do
  let keyGuid ← liftM (validateRestoreRecordKeyGuid roots blanket.keyGuid processedNonRootKeyGuids)
  let sequence ← recordDispatched blanket.sequence
  pure { keyGuid, layerName := blanket.layerName, sequence }

def remapBackupRestoreRootSectionBlanketTombstone : Remapping BackupRestoreBlanketTombstone :=
  remapBackupRestoreBlanketTombstone roots blanket []

/-- A key that is accepted is the root or one that was created. -/
theorem remapInside_eq_ok {roots : RestoreRoots} {guid remapped : Guid} {processed : List Guid}
    {outside : Guid → LcsError} (h : roots.remapInside guid processed outside = .ok remapped) :
    roots.headerRootGuid ≠ nilGuid ∧ roots.targetRootGuid ≠ nilGuid ∧
      remapped = roots.remap guid ∧ (remapped = roots.targetRootGuid ∨ remapped ∈ processed) := by
  obtain ⟨hnil, h⟩ := Outcome.of_guard h
  obtain ⟨hinside, h⟩ := Outcome.of_guard h
  cases h
  obtain ⟨hheader, htarget⟩ := not_or.mp hnil
  refine ⟨hheader, htarget, rfl, or_iff_not_imp_left.mpr fun hroot => ?_⟩
  by_contra hout
  exact hinside ⟨hroot, fun hmem => hout (List.contains_iff_mem.mp hmem)⟩

/-! ## Entries of a record -/

/-- The type code a value is stored under. -/
def valueTypeCode : ValidatedValueType → ℕ
  | .normal valueType => valueType.code
  | .tombstone => regTombstone

def BackupValuePayload.entry : ValueEntry :=
  ⟨value.layerName, value.sequence, valueTypeCode value.valueType, value.data⟩

def BackupRestoreValue.entry (value : BackupRestoreValue) : ValueEntry :=
  ⟨value.layerName, value.sequence, valueTypeCode value.valueType, value.data⟩

def BackupBlanketTombstonePayload.entry : BlanketTombstoneEntry :=
  ⟨blanket.layerName, blanket.sequence⟩

def BackupRestoreBlanketTombstone.entry (blanket : BackupRestoreBlanketTombstone) :
    BlanketTombstoneEntry :=
  ⟨blanket.layerName, blanket.sequence⟩

def BackupPathEntryPayload.entry (path : BackupPathEntryPayload) : NamedPathEntry :=
  ⟨path.childName, path.layerName, path.sequence, path.target⟩

def BackupRestorePathEntry.entry (path : BackupRestorePathEntry) : NamedPathEntry :=
  ⟨path.childName, path.layerName, path.sequence, path.target⟩

/-! ## The stream -/

/-- A record of the stream, with the keys that were created before it. -/
inductive RestoreRecord where
  | pathEntry (entry : BackupPathEntryPayload) (processed : List Guid)
  | pathEntryWithKeySet (entry : BackupPathEntryPayload) (processed remapped : List Guid)
  | rootSectionPathEntry (entry : BackupPathEntryPayload)
  | value (value : BackupValuePayload) (processed : List Guid)
  | rootSectionValue (value : BackupValuePayload)
  | blanket (blanket : BackupBlanketTombstonePayload) (processed : List Guid)
  | rootSectionBlanket (blanket : BackupBlanketTombstonePayload)

/-- A record that was dispatched, as it was and as it is. -/
inductive Dispatched where
  | pathEntry (original : BackupPathEntryPayload) (restored : BackupRestorePathEntry)
  | value (original : BackupValuePayload) (restored : BackupRestoreValue)
  | blanket (original : BackupBlanketTombstonePayload) (restored : BackupRestoreBlanketTombstone)

/-- The number it was dispatched with. -/
def Dispatched.sequence : Dispatched → ℕ
  | .pathEntry _ restored => restored.sequence
  | .value _ restored => restored.sequence
  | .blanket _ restored => restored.sequence

def RestoreRecord.remap : RestoreRecord → Remapping (Option Dispatched)
  | .pathEntry entry processed => do
    let restored ← remapBackupRestorePathEntryForDispatch roots entry processed
    pure (some (.pathEntry entry restored))
  | .pathEntryWithKeySet entry processed remapped => do
    let restored ← remapBackupRestorePathEntryForDispatchWithKeySet roots entry processed remapped
    pure (some (.pathEntry entry restored))
  | .rootSectionPathEntry entry => do
    match ← planBackupRestoreRootSectionPathEntryForDispatch roots entry with
    | .skipIncomingRoot _ => pure none
    | .restoreHidden restored => pure (some (.pathEntry entry restored))
  | .value payload processed => do
    let restored ← remapBackupRestoreValue roots payload processed
    pure (some (.value payload restored))
  | .rootSectionValue payload => do
    let restored ← remapBackupRestoreRootSectionValue roots payload
    pure (some (.value payload restored))
  | .blanket payload processed => do
    let restored ← remapBackupRestoreBlanketTombstone roots payload processed
    pure (some (.blanket payload restored))
  | .rootSectionBlanket payload => do
    let restored ← remapBackupRestoreRootSectionBlanketTombstone roots payload
    pure (some (.blanket payload restored))

/-- All records through one remapper: those that were dispatched, and the remapper after them. -/
def restore (roots : RestoreRoots) (remapper : BackupRestoreSequenceRemapper) :
    List RestoreRecord → List Dispatched × BackupRestoreSequenceRemapper
  | [] => ([], remapper)
  | record :: records =>
    let (result, next) := (record.remap roots).run remapper
    let (dispatched, final) := restore roots next records
    ((match result with
      | .ok (some d) => d :: dispatched
      | _ => dispatched), final)

end Pkm.Lcs
