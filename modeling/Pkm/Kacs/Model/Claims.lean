import Pkm.Kacs.Model.Sid
/-!
# Claim attributes

The claim entries a resource-attribute ACE or a token carries: a name, flags and
typed values, read from a self-relative blob. `parseClaimAttributeEntry` builds
the attribute; `validateClaimAttributeEntry` makes the same checks and builds
nothing, and is what the ACE parser runs.

Strings are lists of characters. The lower-casing of a character is the one of
the Rust standard library, a table that is not part of this repository: it is a
parameter of everything that folds a name.
-/

namespace Pkm.Kacs

open Bytes

/-- The lower-casing table of the standard library: a character's lower-case expansion. -/
class CharCase where
  toLowercase : Char → List Char

/-- A string, as its characters. -/
abbrev Str := List Char

def foldString [CharCase] (value : Str) : Str := value.flatMap CharCase.toLowercase

def claimCaseSensitive : BitVec 32 := 0x00000002#32
def claimUseForDenyOnly : BitVec 32 := 0x00000004#32
def claimDisabled : BitVec 32 := 0x00000010#32

def claimTypeInt64 : BitVec 16 := 1#16
def claimTypeUInt64 : BitVec 16 := 2#16
def claimTypeString : BitVec 16 := 3#16
def claimTypeSid : BitVec 16 := 5#16
def claimTypeBoolean : BitVec 16 := 6#16
def claimTypeOctet : BitVec 16 := 16#16

/-- One claim value. A Boolean keeps its 64-bit wire scalar. -/
inductive ClaimValue where
  | int64 (value : BitVec 64)
  | uint64 (value : BitVec 64)
  | string (value : Str)
  | sid (bytes : Bytes)
  | octet (bytes : Bytes)
  | boolean (value : BitVec 64)
  | composite (values : List ClaimValue)

/-- One claim attribute. -/
structure ClaimAttribute where
  name : Str
  valueType : BitVec 16
  flags : BitVec 32
  values : List ClaimValue

/-! ## UTF-16 -/

def isHighSurrogate (u : BitVec 16) : Bool := 0xD800#16 ≤ u && u ≤ 0xDBFF#16
def isLowSurrogate (u : BitVec 16) : Bool := 0xDC00#16 ≤ u && u ≤ 0xDFFF#16

/-- The characters of a sequence of UTF-16 code units, if it is valid. -/
def decodeUtf16 : List (BitVec 16) → Option Str
  | [] => some []
  | u :: rest =>
    if isHighSurrogate u then
      match rest with
      | v :: rest' =>
        if isLowSurrogate v then
          (decodeUtf16 rest').map
            (Char.ofNat (0x10000 + (u.toNat - 0xD800) * 0x400 + (v.toNat - 0xDC00)) :: ·)
        else none
      | [] => none
    else if isLowSurrogate u then none
    else (decodeUtf16 rest).map (Char.ofNat u.toNat :: ·)

/-- The UTF-16 code units of a string. -/
def encodeUtf16 (value : Str) : List (BitVec 16) :=
  value.flatMap fun c =>
    if c.toNat < 0x10000 then [BitVec.ofNat 16 c.toNat]
    else [BitVec.ofNat 16 (0xD800 + (c.toNat - 0x10000) / 0x400),
      BitVec.ofNat 16 (0xDC00 + (c.toNat - 0x10000) % 0x400)]

/-! ## Reading from a claim blob -/

namespace Claims

variable (bytes : Bytes) (offset : ℕ)

def bytesAt : KacsResult Bytes :=
  if offset ≥ bytes.length then .error (.invalidClaimFormat "claim offset out of bounds")
  else .ok (bytes.drop offset)

/-- The bytes at an offset. Offsets and lengths are 32-bit, so the sum cannot overflow. -/
def readSlice (len : ℕ) : KacsResult Bytes :=
  if offset + len > bytes.length then .error (.invalidClaimFormat "claim slice length")
  else .ok (slice bytes offset (offset + len))

def readU16 : KacsResult (BitVec 16) := do
  let s ← readSlice bytes offset 2
  .ok (u16At s 0)

def readU32 : KacsResult (BitVec 32) := do
  let s ← readSlice bytes offset 4
  .ok (u32At s 0)

def readU64 : KacsResult (BitVec 64) := do
  let s ← readSlice bytes offset 8
  .ok (u64At s 0)

/-- The code units before the terminating zero. -/
def utf16Units : Bytes → KacsResult (List (BitVec 16))
  | b₀ :: b₁ :: rest =>
    if leU16 b₀ b₁ = 0#16 then .ok []
    else do
      let units ← utf16Units rest
      .ok (leU16 b₀ b₁ :: units)
  | _ => .error (.invalidClaimFormat "unterminated utf16 string")

def readUtf16Cstr : KacsResult Str := do
  let input ← bytesAt bytes offset
  let units ← utf16Units input
  match decodeUtf16 units with
  | some output => .ok output
  | none => .error (.invalidClaimFormat "invalid utf16 string")

/-- The scan of a zero-terminated string, with a flag for a high surrogate still to be paired. -/
def validateUtf16Units : Bytes → Bool → KacsResult Unit
  | b₀ :: b₁ :: rest, pendingHighSurrogate =>
    let codeUnit := leU16 b₀ b₁
    if codeUnit = 0#16 then
      if pendingHighSurrogate then .error (.invalidClaimFormat "invalid utf16 string") else .ok ()
    else if isHighSurrogate codeUnit then
      if pendingHighSurrogate then .error (.invalidClaimFormat "invalid utf16 string")
      else validateUtf16Units rest true
    else if isLowSurrogate codeUnit then
      if pendingHighSurrogate then validateUtf16Units rest false
      else .error (.invalidClaimFormat "invalid utf16 string")
    else if pendingHighSurrogate then .error (.invalidClaimFormat "invalid utf16 string")
    else validateUtf16Units rest false
  | _, _ => .error (.invalidClaimFormat "unterminated utf16 string")

def validateUtf16Cstr : KacsResult Unit := do
  let input ← bytesAt bytes offset
  validateUtf16Units input false

/-! ## Values and entries -/

def parseClaimValue (valueType : BitVec 16) (offset : ℕ) : KacsResult ClaimValue :=
  if valueType = claimTypeInt64 then do .ok (.int64 (← readU64 bytes offset))
  else if valueType = claimTypeUInt64 then do .ok (.uint64 (← readU64 bytes offset))
  else if valueType = claimTypeBoolean then do .ok (.boolean (← readU64 bytes offset))
  else if valueType = claimTypeString then do
    let stringOffset ← readU32 bytes offset
    .ok (.string (← readUtf16Cstr bytes stringOffset.toNat))
  else if valueType = claimTypeSid then do
    let sidOffset ← readU32 bytes offset
    let (sid, _) ← Sid.parsePrefix (← bytesAt bytes sidOffset.toNat)
    .ok (.sid sid.bytes)
  else if valueType = claimTypeOctet then do
    let octetOffset ← readU32 bytes offset
    let length ← readU32 bytes octetOffset.toNat
    .ok (.octet (← readSlice bytes (octetOffset.toNat + 4) length.toNat))
  else .error (.invalidClaimType valueType)

def validateClaimValue (valueType : BitVec 16) (offset : ℕ) : KacsResult Unit :=
  if valueType = claimTypeInt64 ∨ valueType = claimTypeUInt64 ∨ valueType = claimTypeBoolean then do
    let _ ← readU64 bytes offset
    .ok ()
  else if valueType = claimTypeString then do
    let stringOffset ← readU32 bytes offset
    validateUtf16Cstr bytes stringOffset.toNat
  else if valueType = claimTypeSid then do
    let sidOffset ← readU32 bytes offset
    let _ ← Sid.parsePrefix (← bytesAt bytes sidOffset.toNat)
    .ok ()
  else if valueType = claimTypeOctet then do
    let octetOffset ← readU32 bytes offset
    let length ← readU32 bytes octetOffset.toNat
    let _ ← readSlice bytes (octetOffset.toNat + 4) length.toNat
    .ok ()
  else .error (.invalidClaimType valueType)

end Claims

open Claims

def parseClaimAttributeEntry (bytes : Bytes) : KacsResult ClaimAttribute :=
  if bytes.length < 16 then .error (.invalidClaimFormat "claim entry header")
  else do
    let nameOffset ← readU32 bytes 0
    let valueType ← readU16 bytes 4
    let flags ← readU32 bytes 8
    let valueCount ← readU32 bytes 12
    if 16 + valueCount.toNat * 4 > bytes.length then
      .error (.invalidClaimFormat "claim value offsets")
    else do
      let name ← readUtf16Cstr bytes nameOffset.toNat
      let values ← (List.range valueCount.toNat).mapM fun index => do
        let offset ← readU32 bytes (16 + index * 4)
        parseClaimValue bytes valueType offset.toNat
      .ok { name, valueType, flags, values }

def validateClaimAttributeEntry (bytes : Bytes) : KacsResult Unit :=
  if bytes.length < 16 then .error (.invalidClaimFormat "claim entry header")
  else do
    let nameOffset ← readU32 bytes 0
    let valueType ← readU16 bytes 4
    let valueCount ← readU32 bytes 12
    if 16 + valueCount.toNat * 4 > bytes.length then
      .error (.invalidClaimFormat "claim value offsets")
    else do
      validateUtf16Cstr bytes nameOffset.toNat
      (List.range valueCount.toNat).forM fun index => do
        let offset ← readU32 bytes (16 + index * 4)
        validateClaimValue bytes valueType offset.toNat

end Pkm.Kacs
