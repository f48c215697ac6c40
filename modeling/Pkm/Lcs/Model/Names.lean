import Pkm.Lcs.Model.Casefold
import Pkm.Lib.Bytes
import Pkm.Lib.Outcome
/-!
# Names and limits

The limits active for an operation, the errors of the registry core, and the
checks a name passes before it is used. Strings are decoded already, so of the
checks on bytes those for the encoding are left out; lengths are the lengths of
the encoded strings.
-/

namespace Pkm.Lcs

open Bytes Outcome

variable {field : String}

/-- A GUID, as its sixteen bytes. -/
@[ext]
structure Guid where
  bytes : Bytes
  length_eq : bytes.length = 16

instance : DecidableEq Guid := fun _ _ => decidable_of_iff _ Guid.ext_iff.symm

theorem length_filled (n : ℕ) : (List.replicate 16 (BitVec.ofNat 8 n)).length = 16 :=
  List.length_replicate

def nilGuid : Guid := ⟨List.replicate 16 0#8, List.length_replicate⟩

abbrev SourceId := ℕ

/-- The limits active for one operation. -/
structure LcsLimits where
  maxKeyDepth : ℕ
  maxPathComponentLength : ℕ
  maxTotalPathLength : ℕ
  symlinkDepthLimit : ℕ
  maxValueSize : ℕ
  maxTotalLayers : ℕ
  maxBoundTransactionsPerSource : ℕ
  maxRegisteredSources : ℕ
  maxHivesPerSource : ℕ
  maxScopeGuidsPerToken : ℕ
  maxPrivateLayersPerToken : ℕ
  deriving DecidableEq

/-- The limits that are compiled in. -/
def LcsLimits.default : LcsLimits where
  maxKeyDepth := 512
  maxPathComponentLength := 255
  maxTotalPathLength := 16383
  symlinkDepthLimit := 16
  maxValueSize := 1048576
  maxTotalLayers := 1024
  maxBoundTransactionsPerSource := 16
  maxRegisteredSources := 32
  maxHivesPerSource := 64
  maxScopeGuidsPerToken := 8
  maxPrivateLayersPerToken := 16

inductive LcsError where
  | nullByte (field : String)
  | emptyString (field : String)
  | emptyPath
  | emptyPathComponent
  | trailingPathSeparator
  | nameContainsSeparator (field : String)
  | nameTooLong (field : String) (len max : ℕ)
  | pathTooLong (len max : ℕ)
  | keyDepthExceeded (depth max : ℕ)
  | reservedHiveName
  | duplicateLayerIdentity
  | duplicatePrivateLayerIdentity
  | tooManyLayers (count max : ℕ)
  | tooManyPrivateLayers (count max : ℕ)
  | missingBaseLayer
  | invalidBaseLayerProperties (precedence : ℕ) (enabled : Bool)
  | futureSequence (sequence nextSequence : ℕ)
  | duplicateWinningSequenceTie (precedence sequence : ℕ)
  | nilKeyGuid
  | unknownValueType (code : ℕ)
  | tombstoneNotExplicit
  | tombstoneDataMustBeEmpty (len : ℕ)
  | valueDataTooLarge (len max : ℕ)
  | sequenceOverflow
  | nilHiveRootGuid
  | invalidTransactionRuntimeState
  | missingTcbPrivilege
  | zeroHiveCount
  | tooManyHives (count max : ℕ)
  | unknownHiveFlags (flags unknown : BitVec 32)
  | privateHiveHasNilScopeGuid
  | globalHiveHasScopeGuid
  | duplicateHiveIdentity
  | duplicateHiveRootGuid
  | hiveIdentityCollision
  | hiveRootGuidCollision
  | staleSourceHiveIdentity
  | partialSourceResume
  | tooManyRegisteredSources (count max : ℕ)
  | tooManyScopeGuids (count max : ℕ)
  | duplicateScopeGuid
  | backupRestoreParentGuidOutsideSubtree (parentGuid : Guid)
  | backupRestoreKeyGuidOutsideSubtree (keyGuid : Guid)
  | backupRestoreKeyCreateAnchorTargetMismatch (keyGuid childGuid : Guid)
  | backupRestoreKeyCreateAnchorMissing (keyGuid : Guid)
  | backupRestoreFirstKeyNotRoot (keyGuid : Guid)
  | backupRestoreRootKeyDuplicate
  | backupRestoreRootKeyCreateNotAllowed (guid : Guid)
  | backupRestoreProcessedKeySetFull (capacity : ℕ)
  | duplicateBackupKeyGuid (guid : Guid)
  | malformedBackupSid (field : String)
  | duplicateBackupLayerManifest
  | missingBackupLayerManifest
  | missingLayerPrecedenceTcb
  | malformedSecurityDescriptor (field : String)
  deriving DecidableEq

abbrev LcsResult := Except LcsError

/-! ## Checks on names -/

/-- The length of a string in its encoding. -/
def utf8Len (name : Name) : ℕ := (name.map Char.utf8Size).sum

def isSeparator (c : Char) : Bool := c == '\\' || c == '/'

def validateLcsStr (value : Name) (field : String) : LcsResult Name :=
  if value.contains '\x00' then .error (.nullByte field) else .ok value

def validateComponentLen (field : String) (len : ℕ) (limits : LcsLimits) : LcsResult Unit :=
  if len > limits.maxPathComponentLength then
    .error (.nameTooLong field len limits.maxPathComponentLength)
  else .ok ()

/-- The checks of hive, key and layer names, with the field an error names. -/
def validateKeyLikeName (name : Name) (field : String) (limits : LcsLimits) : LcsResult Name := do
  let name ← validateLcsStr name field
  if name.isEmpty then .error (.emptyString field)
  else
    validateComponentLen field (utf8Len name) limits
    if name.any isSeparator then .error (.nameContainsSeparator field) else .ok name

def validateKeyComponentBytes (name : Name) (limits : LcsLimits) : LcsResult Name :=
  validateKeyLikeName name "key_component" limits

def validateLayerNameBytes (name : Name) (limits : LcsLimits) : LcsResult Name :=
  validateKeyLikeName name "layer_name" limits

/-- A value name may be empty, and separators are ordinary characters of it. -/
def validateValueNameBytes (name : Name) (limits : LcsLimits) : LcsResult Name := do
  let name ← validateLcsStr name "value_name"
  validateComponentLen "value_name" (utf8Len name) limits
  .ok name

def currentUserName : Name := "CurrentUser".toList

def baseLayerName : Name := "base".toList

def isReservedCurrentUserName (name : Name) : Bool := casefoldEq name currentUserName

def isBaseLayerName (name : Name) : Bool := casefoldEq name baseLayerName

/-- A hive may not take the name of the alias for the caller's own hive. -/
def validateHiveNameBytes (name : Name) (limits : LcsLimits) : LcsResult Name := do
  let name ← validateKeyLikeName name "hive_name" limits
  if isReservedCurrentUserName name then .error .reservedHiveName else .ok name

/-! ## What the checks say -/

variable (limits : LcsLimits) (name : Name)

/-- What a hive, key or layer name may be. -/
def KeyLike : Prop :=
  name.contains '\x00' = false ∧ name ≠ [] ∧ utf8Len name ≤ limits.maxPathComponentLength ∧
    name.any isSeparator = false

/-- What a hive may be called. -/
def HiveLike : Prop :=
  KeyLike limits name ∧ isReservedCurrentUserName name = false

instance : Decidable (KeyLike limits name) :=
  inferInstanceAs (Decidable (_ ∧ _ ∧ _ ∧ _))

/-- What a value name may be. -/
def ValueLike : Prop :=
  name.contains '\x00' = false ∧ utf8Len name ≤ limits.maxPathComponentLength

instance : Decidable (ValueLike limits name) :=
  inferInstanceAs (Decidable (_ ∧ _))

variable {limits name} {checked : Name}

theorem validateLcsStr_eq_ok :
    validateLcsStr name field = .ok checked ↔ checked = name ∧ name.contains '\x00' = false := by
  rw [validateLcsStr, ite_error_eq_ok, Bool.not_eq_true, Except.ok.injEq, and_comm, eq_comm]

theorem validateComponentLen_eq_ok {len : ℕ} {u : Unit} :
    validateComponentLen field len limits = .ok u ↔ len ≤ limits.maxPathComponentLength := by
  rw [validateComponentLen, ite_error_eq_ok, Nat.not_lt, and_iff_left rfl]

/-- A checked name is the name itself, whichever field an error would name. -/
theorem validateKeyLikeName_eq_ok :
    validateKeyLikeName name field limits = .ok checked ↔ checked = name ∧ KeyLike limits name := by
  unfold validateKeyLikeName
  simp only [bind_eq_ok, ite_error_eq_ok, validateLcsStr_eq_ok,
    validateComponentLen_eq_ok, Except.ok.injEq, List.isEmpty_iff, Bool.not_eq_true]
  constructor
  · rintro ⟨_, ⟨rfl, hnull⟩, hne, _, hlen, hsep, rfl⟩
    exact ⟨rfl, hnull, hne, hlen, hsep⟩
  · rintro ⟨rfl, hnull, hne, hlen, hsep⟩
    exact ⟨_, ⟨rfl, hnull⟩, hne, (), hlen, hsep, rfl⟩

theorem validateValueNameBytes_eq_ok :
    validateValueNameBytes name limits = .ok checked ↔ checked = name ∧ ValueLike limits name := by
  unfold validateValueNameBytes
  simp only [bind_eq_ok, validateLcsStr_eq_ok, validateComponentLen_eq_ok, Except.ok.injEq]
  constructor
  · rintro ⟨_, ⟨rfl, hnull⟩, _, hlen, rfl⟩
    exact ⟨rfl, hnull, hlen⟩
  · rintro ⟨rfl, hnull, hlen⟩
    exact ⟨_, ⟨rfl, hnull⟩, (), hlen, rfl⟩

theorem validateHiveNameBytes_eq_ok :
    validateHiveNameBytes name limits = .ok checked ↔ checked = name ∧ HiveLike limits name := by
  unfold validateHiveNameBytes
  simp only [bind_eq_ok, validateKeyLikeName_eq_ok, ite_error_eq_ok,
    Except.ok.injEq, Bool.not_eq_true]
  constructor
  · rintro ⟨_, ⟨rfl, hlike⟩, hreserved, rfl⟩
    exact ⟨rfl, hlike, hreserved⟩
  · rintro ⟨rfl, hlike, hreserved⟩
    exact ⟨_, ⟨rfl, hlike⟩, hreserved, rfl⟩

theorem validateKeyComponentBytes_of_keyLike (h : KeyLike limits name) :
    validateKeyComponentBytes name limits = .ok name :=
  validateKeyLikeName_eq_ok.mpr ⟨rfl, h⟩

theorem validateLayerNameBytes_of_keyLike (h : KeyLike limits name) :
    validateLayerNameBytes name limits = .ok name :=
  validateKeyLikeName_eq_ok.mpr ⟨rfl, h⟩

theorem validateHiveNameBytes_of_hiveLike (h : HiveLike limits name) :
    validateHiveNameBytes name limits = .ok name :=
  validateHiveNameBytes_eq_ok.mpr ⟨rfl, h⟩

theorem validateValueNameBytes_of_valueLike (h : ValueLike limits name) :
    validateValueNameBytes name limits = .ok name :=
  validateValueNameBytes_eq_ok.mpr ⟨rfl, h⟩

end Pkm.Lcs
