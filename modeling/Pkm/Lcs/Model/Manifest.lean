import Pkm.Kacs.Model.Sid
import Pkm.Lcs.Model.Layers
/-!
# The layer manifests of a backup

A backup lists the layers its records are in, each with a precedence and an owner. A
restore checks that no two of the manifests are for one layer and that every layer that
is referred to has one, and asks for a privilege when a layer is raised, in its manifest
or in the layer table as it is cached.
-/

namespace Pkm.Lcs

open Bytes

structure BackupLayerManifestPayload where
  name : Name
  precedence : ℕ
  enabled : Bool
  ownerSid : Bytes

structure BackupLayerManifestSetSummary where
  manifestCount : ℕ
  referencedLayerCount : ℕ

variable (limits : LcsLimits)

def backupManifestSeenBefore (previous : List BackupLayerManifestPayload) (currentName : Name) :
    LcsResult Bool :=
  nameSeenBefore validateLayerNameBytes limits (previous.map (·.name)) currentName

variable (manifests : List BackupLayerManifestPayload)

def backupManifestContainsLayer (referenced : Name) : LcsResult Bool :=
  nameSeenBefore validateLayerNameBytes limits (manifests.map (·.name)) referenced

def validateBackupLayerManifest (previous : List BackupLayerManifestPayload) (_ : Unit)
    (manifest : BackupLayerManifestPayload) : LcsResult Unit := do
  let name ← validateLayerNameBytes manifest.name limits
  if ¬ (Kacs.Sid.parse manifest.ownerSid).isOk then
    .error (.malformedBackupSid "backup_layer.owner")
  else if ← backupManifestSeenBefore limits previous name then .error .duplicateBackupLayerManifest
  else .ok ()

def validateBackupLayerManifestSet (referencedLayers : List Name) :
    LcsResult BackupLayerManifestSetSummary := do
  Scan.foldAfter (validateBackupLayerManifest limits) [] () manifests
  referencedLayers.forM fun layerName => do
    let referenced ← validateLayerNameBytes layerName limits
    if ← backupManifestContainsLayer limits manifests referenced then .ok ()
    else .error .missingBackupLayerManifest
  .ok ⟨manifests.length, referencedLayers.length⟩

/-- The first cached layer of the name decides. -/
def cachedLayerAboveZero (manifestName : Name) : List LayerView → LcsResult Bool
  | [] => .ok false
  | layer :: rest => do
    let layerName ← validateLayerNameBytes layer.name limits
    if casefoldEq layerName manifestName then .ok (decide (layer.precedence > 0))
    else cachedLayerAboveZero manifestName rest

def existingCachedLayerPrecedenceAboveZero (existingCachedLayers : List LayerView)
    (manifestName : Name) : LcsResult Bool := do
  let manifestName ← validateLayerNameBytes manifestName limits
  cachedLayerAboveZero limits manifestName existingCachedLayers

/-- Whether the privilege is required. Without it a restore that requires it is refused. -/
def planBackupRestoreLayerPrecedenceGate (existingCachedLayers : List LayerView)
    (callerHasTcb : Bool) : LcsResult Bool := do
  let _ ← validateBackupLayerManifestSet limits manifests []
  validateLayerViews limits existingCachedLayers
  let tcbRequired ← manifests.anyM fun manifest =>
    if manifest.precedence > 0 then .ok true
    else existingCachedLayerPrecedenceAboveZero limits existingCachedLayers manifest.name
  if tcbRequired ∧ ¬ callerHasTcb then .error .missingLayerPrecedenceTcb else .ok tcbRequired

end Pkm.Lcs
