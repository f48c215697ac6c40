import Pkm.Kacs.Model.BootToken
import Pkm.Kacs.Model.Claims
/-!
# Writing a claim entry

How a claim of a token is written for a query: the header, the offsets of the values,
the name, one slot for each value, and behind them what the slots refer to. Lengths
are unbounded here; where one would not fit the word of the machine it does not fit
32 bits either, and the source has the same error for both.
-/

namespace Pkm.Kacs

open Bytes

def u32Max : ℕ := 0xffffffff

/-- A buffer of `outLen` bytes, and what was written to it. -/
structure QueryWriter where
  outLen : ℕ
  out : Bytes

namespace QueryWriter

variable (self : QueryWriter)

/-- Every write that does not fit is reported as the same error. -/
def writeBytes (bytes : Bytes) : SysResult QueryWriter :=
  if self.out.length + bytes.length > self.outLen then .error .erange
  else .ok { self with out := self.out ++ bytes }

def writeU16 (value : BitVec 16) : SysResult QueryWriter := self.writeBytes (ofU16 value)

def writeU32 (value : BitVec 32) : SysResult QueryWriter := self.writeBytes (ofU32 value)

def writeU64 (value : BitVec 64) : SysResult QueryWriter := self.writeBytes (ofU64 value)

def writeUtf16Cstr (value : Str) : SysResult QueryWriter := do
  let writer ← (encodeUtf16 value).foldlM writeU16 self
  writer.writeU16 0

end QueryWriter

variable (valueType : BitVec 16) (claim : ClaimAttribute)

def claimValueTypeSupported : Bool :=
  [claimTypeInt64, claimTypeUInt64, claimTypeString, claimTypeSid, claimTypeBoolean,
    claimTypeOctet].contains valueType

def utf16CstrLen (value : Str) : ℕ := 2 + 2 * (encodeUtf16 value).length

def claimValueSlotLen : SysResult ℕ :=
  if [claimTypeInt64, claimTypeUInt64, claimTypeBoolean].contains valueType then .ok 8
  else if [claimTypeString, claimTypeSid, claimTypeOctet].contains valueType then .ok 4
  else .error .einval

def claimValueNestedLen (value : ClaimValue) : SysResult ℕ :=
  let checked (supported : BitVec 16) (len : ℕ) : SysResult ℕ :=
    if valueType = supported then .ok len else .error .einval
  match value with
  | .int64 _ => checked claimTypeInt64 0
  | .uint64 _ => checked claimTypeUInt64 0
  | .boolean _ => checked claimTypeBoolean 0
  | .string s => checked claimTypeString (utf16CstrLen s)
  | .sid bytes => checked claimTypeSid bytes.length
  | .octet bytes => checked claimTypeOctet (4 + bytes.length)
  | .composite _ => .error .einval

def claimEntryQueryLen : SysResult ℕ :=
  if claimValueTypeSupported claim.valueType = false then .error .einval
  else do
    let len ← claim.values.foldlM (fun len value => do
      let slot ← claimValueSlotLen claim.valueType
      let nested ← claimValueNestedLen claim.valueType value
      .ok (len + slot + nested)) (16 + claim.values.length * 4 + utf16CstrLen claim.name)
    if len > u32Max then .error .einval else .ok len

/-- The offset of a slot, and where the next slot stands. -/
def writeOffset (state : ℕ × QueryWriter) (_ : ClaimValue) : SysResult (ℕ × QueryWriter) :=
  if state.1 > u32Max then .error .einval
  else do
    let writer ← state.2.writeU32 (.ofNat 32 state.1)
    .ok (state.1 + (← claimValueSlotLen valueType), writer)

/-- A scalar stands in its slot; of another value the slot has the offset. -/
def writeSlot (state : ℕ × QueryWriter) (value : ClaimValue) : SysResult (ℕ × QueryWriter) := do
  let nested ← claimValueNestedLen valueType value
  match value with
  | .int64 x | .uint64 x | .boolean x => .ok (state.1, ← state.2.writeU64 x)
  | _ =>
    if state.1 > u32Max then .error .einval
    else .ok (state.1 + nested, ← state.2.writeU32 (.ofNat 32 state.1))

def writeNested (writer : QueryWriter) (value : ClaimValue) : SysResult QueryWriter := do
  let _ ← claimValueNestedLen valueType value
  match value with
  | .string s => writer.writeUtf16Cstr s
  | .sid bytes => writer.writeBytes bytes
  | .octet bytes =>
    if bytes.length > u32Max then .error .erange
    else do
      let writer ← writer.writeU32 (.ofNat 32 bytes.length)
      writer.writeBytes bytes
  | _ => .ok writer

/-- What is written once the checks are made. -/
def writeClaimParts (nameOffset slotTotalLen : ℕ) (writer : QueryWriter) :
    SysResult QueryWriter := do
  let valueSlotBase := nameOffset + utf16CstrLen claim.name
  let writer ← writer.writeU32 (.ofNat 32 nameOffset)
  let writer ← writer.writeU16 claim.valueType
  let writer ← writer.writeU16 0
  let writer ← writer.writeU32 claim.flags
  let writer ← writer.writeU32 (.ofNat 32 claim.values.length)
  let (_, writer) ← claim.values.foldlM (writeOffset claim.valueType) (valueSlotBase, writer)
  let writer ← writer.writeUtf16Cstr claim.name
  let (_, writer) ← claim.values.foldlM (writeSlot claim.valueType)
    (valueSlotBase + slotTotalLen, writer)
  claim.values.foldlM (writeNested claim.valueType) writer

def writeClaimEntry (writer : QueryWriter) : SysResult QueryWriter :=
  let nameOffset := 16 + claim.values.length * 4
  if claimValueTypeSupported claim.valueType = false then .error .einval
  else do
    let slotTotalLen ← claim.values.foldlM (fun total value => do
      let slot ← claimValueSlotLen claim.valueType
      let _ ← claimValueNestedLen claim.valueType value
      .ok (total + slot)) 0
    if nameOffset > u32Max then .error .einval
    else if claim.values.length > u32Max then .error .einval
    else writeClaimParts claim nameOffset slotTotalLen writer

end Pkm.Kacs
