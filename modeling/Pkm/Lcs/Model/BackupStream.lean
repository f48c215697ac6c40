import Pkm.Lib.Outcome
/-!
# The envelope and the order of a backup stream

Two checkers see the kind of each record. One counts the records between the
header and the trailer, the other keeps the records of a key in order. Frames
are parsed before, and the caller computes the checksum.
-/

namespace Pkm.Lcs

inductive BackupRecordKind where
  | header
  | layerManifest
  | key
  | pathEntry
  | value
  | blanketTombstone
  | trailer
  | unknown (code : BitVec 16)
  deriving DecidableEq

def BackupRecordKind.code : BackupRecordKind → BitVec 16
  | .header => 1
  | .layerManifest => 2
  | .key => 3
  | .pathEntry => 4
  | .value => 5
  | .blanketTombstone => 6
  | .trailer => 255
  | .unknown code => code

abbrev BackupChecksum := Vector (BitVec 8) 32

inductive BackupStreamError where
  | recordAfterTrailer (index : ℕ) (recordType : BitVec 16)
  | firstRecordNotHeader (actual : BitVec 16)
  | duplicateHeader (index : ℕ)
  | recordCountOverflow
  | missingHeader
  | missingTrailer
  | recordCountMismatch (declared observed : ℕ)
  | checksumMismatch (declared computed : BackupChecksum)
  | layerManifestAfterKeyData (index : ℕ)
  | recordOutsideKeySection (index : ℕ) (recordType : BitVec 16)
  | pathEntryAfterValueData (index : ℕ)
  | valueAfterBlanketData (index : ℕ)

abbrev BackupStreamResult := Except BackupStreamError

/-- Both checkers number the records in 64 bits. -/
def nextRecord (recordsSeen : ℕ) : BackupStreamResult ℕ :=
  if recordsSeen + 1 < 2 ^ 64 then .ok (recordsSeen + 1) else .error .recordCountOverflow

/-! ## The envelope -/

structure BackupTrailerPayload where
  recordCount : BitVec 64
  checksum : BackupChecksum

structure BackupStreamEnvelopeSummary where
  recordCount : ℕ

structure BackupStreamEnvelopeState where
  recordsSeen : ℕ
  headerSeen : Bool
  trailerSeen : Bool

namespace BackupStreamEnvelopeState

def new : BackupStreamEnvelopeState := ⟨0, false, false⟩

def observeRecord (self : BackupStreamEnvelopeState) (kind : BackupRecordKind) :
    BackupStreamResult BackupStreamEnvelopeState :=
  let index := self.recordsSeen
  if self.trailerSeen then .error (.recordAfterTrailer index kind.code)
  else if index = 0 ∧ kind ≠ .header then .error (.firstRecordNotHeader kind.code)
  else if index ≠ 0 ∧ kind = .header then .error (.duplicateHeader index)
  else do
    let recordsSeen ← nextRecord index
    .ok ⟨recordsSeen, self.headerSeen || kind = .header, self.trailerSeen || kind = .trailer⟩

def finish (self : BackupStreamEnvelopeState) (trailer : BackupTrailerPayload)
    (computedChecksum : BackupChecksum) : BackupStreamResult BackupStreamEnvelopeSummary :=
  if ¬ self.headerSeen then .error .missingHeader
  else if ¬ self.trailerSeen then .error .missingTrailer
  else if trailer.recordCount.toNat ≠ self.recordsSeen then
    .error (.recordCountMismatch trailer.recordCount.toNat self.recordsSeen)
  else if trailer.checksum ≠ computedChecksum then
    .error (.checksumMismatch trailer.checksum computedChecksum)
  else .ok ⟨self.recordsSeen⟩

end BackupStreamEnvelopeState

/-! ## The order -/

inductive BackupStreamOrderingPhase where
  | beforeKeyData
  | pathEntries
  | values
  | blanketTombstones

structure BackupStreamOrderingSummary where
  recordCount : ℕ
  layerManifestCount : ℕ
  keyCount : ℕ
  pathEntryCount : ℕ
  valueCount : ℕ
  blanketTombstoneCount : ℕ
  unknownCount : ℕ

/-- The phase, and the counts as they are summed up. No count is above that of the records, so
that those of the kinds need no check. -/
structure BackupStreamOrderingState where
  phase : BackupStreamOrderingPhase
  summary : BackupStreamOrderingSummary

namespace BackupStreamOrderingState

def new : BackupStreamOrderingState := ⟨.beforeKeyData, ⟨0, 0, 0, 0, 0, 0, 0⟩⟩

def validateOrder (phase : BackupStreamOrderingPhase) (kind : BackupRecordKind) (index : ℕ) :
    BackupStreamResult Unit :=
  match kind, phase with
  | .layerManifest, .beforeKeyData => .ok ()
  | .layerManifest, _ => .error (.layerManifestAfterKeyData index)
  | .pathEntry, .beforeKeyData | .value, .beforeKeyData | .blanketTombstone, .beforeKeyData =>
    .error (.recordOutsideKeySection index kind.code)
  | .pathEntry, .values | .pathEntry, .blanketTombstones => .error (.pathEntryAfterValueData index)
  | .value, .blanketTombstones => .error (.valueAfterBlanketData index)
  | _, _ => .ok ()

/-- The phase and the count of its kind after a record that is in order. -/
def record (self : BackupStreamOrderingState) (kind : BackupRecordKind) (recordsSeen : ℕ) :
    BackupStreamOrderingState :=
  let counts := { self.summary with recordCount := recordsSeen }
  match kind with
  | .layerManifest =>
    ⟨self.phase, { counts with layerManifestCount := counts.layerManifestCount + 1 }⟩
  | .key => ⟨.pathEntries, { counts with keyCount := counts.keyCount + 1 }⟩
  | .pathEntry => ⟨self.phase, { counts with pathEntryCount := counts.pathEntryCount + 1 }⟩
  | .value => ⟨.values, { counts with valueCount := counts.valueCount + 1 }⟩
  | .blanketTombstone => ⟨.blanketTombstones,
    { counts with blanketTombstoneCount := counts.blanketTombstoneCount + 1 }⟩
  | .unknown _ => ⟨self.phase, { counts with unknownCount := counts.unknownCount + 1 }⟩
  | .header | .trailer => ⟨self.phase, counts⟩

def observeRecord (self : BackupStreamOrderingState) (kind : BackupRecordKind) :
    BackupStreamResult BackupStreamOrderingState := do
  validateOrder self.phase kind self.summary.recordCount
  let recordsSeen ← nextRecord self.summary.recordCount
  .ok (self.record kind recordsSeen)

end BackupStreamOrderingState

end Pkm.Lcs
