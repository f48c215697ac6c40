import Pkm.Lcs.Model.Names
/-!
# Values

The value types a caller can see, and the one code beside them that marks a
deletion. A write names its type by code; the tombstone code passes only where
the operation is a deletion and carries no data.
-/

namespace Pkm.Lcs

open Bytes

/-- The value types a caller can see. -/
inductive RegistryValueType where
  | none
  | sz
  | expandSz
  | binary
  | dword
  | dwordBigEndian
  | link
  | multiSz
  | resourceList
  | fullResourceDescriptor
  | resourceRequirementsList
  | qword
  deriving DecidableEq

def RegistryValueType.fromCode : ℕ → Option RegistryValueType
  | 0 => some .none
  | 1 => some .sz
  | 2 => some .expandSz
  | 3 => some .binary
  | 4 => some .dword
  | 5 => some .dwordBigEndian
  | 6 => some .link
  | 7 => some .multiSz
  | 8 => some .resourceList
  | 9 => some .fullResourceDescriptor
  | 10 => some .resourceRequirementsList
  | 11 => some .qword
  | _ => Option.none

def RegistryValueType.code : RegistryValueType → ℕ
  | .none => 0
  | .sz => 1
  | .expandSz => 2
  | .binary => 3
  | .dword => 4
  | .dwordBigEndian => 5
  | .link => 6
  | .multiSz => 7
  | .resourceList => 8
  | .fullResourceDescriptor => 9
  | .resourceRequirementsList => 10
  | .qword => 11

/-- The type code that marks a deletion. -/
def regTombstone : ℕ := 0xFFFF

inductive ValidatedValueType where
  | normal (valueType : RegistryValueType)
  | tombstone

def validateValueWriteType (valueType dataLen : ℕ) (explicitTombstoneOperation : Bool) :
    LcsResult ValidatedValueType :=
  if valueType = regTombstone then
    if ¬ explicitTombstoneOperation then .error .tombstoneNotExplicit
    else if dataLen ≠ 0 then .error (.tombstoneDataMustBeEmpty dataLen)
    else .ok .tombstone
  else
    match RegistryValueType.fromCode valueType with
    | some t => .ok (.normal t)
    | none => .error (.unknownValueType valueType)

def validateValueDataLen (dataLen : ℕ) (limits : LcsLimits) : LcsResult Unit :=
  if dataLen > limits.maxValueSize then .error (.valueDataTooLarge dataLen limits.maxValueSize)
  else .ok ()

def validateValueKeyGuid (guid : Guid) : LcsResult Unit :=
  if guid = nilGuid then .error .nilKeyGuid else .ok ()

/-- A value write as the registry sends it to a source. -/
structure ValueWriteRequest where
  keyGuid : Guid
  name : Name
  layer : Name
  sequence : ℕ
  valueType : ℕ
  data : Bytes
  explicitTombstoneOperation : Bool
  expectedSequence : Option ℕ

structure ValidatedValueWrite where
  keyGuid : Guid
  name : Name
  layer : Name
  sequence : ℕ
  valueType : ValidatedValueType
  data : Bytes
  expectedSequence : Option ℕ

def validateValueWriteRequest (limits : LcsLimits) (request : ValueWriteRequest) :
    LcsResult ValidatedValueWrite := do
  validateValueKeyGuid request.keyGuid
  let name ← validateValueNameBytes request.name limits
  let layer ← validateLayerNameBytes request.layer limits
  validateValueDataLen request.data.length limits
  let valueType ← validateValueWriteType request.valueType request.data.length
    request.explicitTombstoneOperation
  .ok {
    keyGuid := request.keyGuid
    name
    layer
    sequence := request.sequence
    valueType
    data := request.data
    expectedSequence := request.expectedSequence }

/-- Setting a blanket tombstone takes a sequence number, removing one does not. -/
inductive BlanketTombstoneAction where
  | set (sequence : ℕ)
  | remove

structure BlanketTombstoneRequest where
  keyGuid : Guid
  layer : Name
  action : BlanketTombstoneAction

structure ValidatedBlanketTombstone where
  keyGuid : Guid
  layer : Name
  action : BlanketTombstoneAction

def validateBlanketTombstoneRequest (limits : LcsLimits) (request : BlanketTombstoneRequest) :
    LcsResult ValidatedBlanketTombstone := do
  validateValueKeyGuid request.keyGuid
  let layer ← validateLayerNameBytes request.layer limits
  .ok { keyGuid := request.keyGuid, layer, action := request.action }

end Pkm.Lcs
