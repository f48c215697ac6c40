import Pkm.Kacs.Model.Claims
/-!
# Access-control entries and lists

`Ace.parsePrefix` takes one entry off the front of a buffer: a four-byte header
(type, flags, size), then a payload whose layout the type decides. An `Ace`
carries the fact that its fields are what its bytes parse to, so an entry is
determined by its bytes and every mask in it has passed validation.

`Acl.parsePrefix` reads the list header and then exactly the announced number of
entries. An `Acl` carries its entries together with the fact that they are the
bytes after the header, so iterating over a parsed list never meets an error.
-/

namespace Pkm.Kacs

open Bytes List

/-! ## Entry types and flags -/

def accessAllowedAceType : Byte := 0#8
def accessDeniedAceType : Byte := 1#8
def systemAuditAceType : Byte := 2#8
def systemAlarmAceType : Byte := 3#8
def accessAllowedObjectAceType : Byte := 5#8
def accessDeniedObjectAceType : Byte := 6#8
def systemAuditObjectAceType : Byte := 7#8
def systemAlarmObjectAceType : Byte := 8#8
def accessAllowedCallbackAceType : Byte := 9#8
def accessDeniedCallbackAceType : Byte := 10#8
def accessAllowedCallbackObjectAceType : Byte := 11#8
def accessDeniedCallbackObjectAceType : Byte := 12#8
def systemAuditCallbackAceType : Byte := 13#8
def systemAlarmCallbackAceType : Byte := 14#8
def systemAuditCallbackObjectAceType : Byte := 15#8
def systemAlarmCallbackObjectAceType : Byte := 16#8
def systemMandatoryLabelAceType : Byte := 17#8
def systemResourceAttributeAceType : Byte := 18#8
def systemScopedPolicyIdAceType : Byte := 19#8
def systemProcessTrustLabelAceType : Byte := 20#8

def objectInheritAce : Byte := 0x01#8
def containerInheritAce : Byte := 0x02#8
def noPropagateInheritAce : Byte := 0x04#8
def inheritOnlyAce : Byte := 0x08#8
def inheritedAce : Byte := 0x10#8

def aceObjectTypePresent : BitVec 32 := 1#32
def aceInheritedObjectTypePresent : BitVec 32 := 2#32

def aclRevision : Byte := 2#8
def aclRevisionDs : Byte := 4#8

/-- The typed payload of an entry. -/
inductive AceKind where
  | singleSid (mask : Mask) (sid : Sid)
  | object (mask : Mask) (flags : BitVec 32) (objectType inheritedObjectType : Option Guid)
      (sid : Sid)
  | callback (mask : Mask) (sid : Sid) (applicationData : Bytes)
  | callbackObject (mask : Mask) (flags : BitVec 32)
      (objectType inheritedObjectType : Option Guid) (sid : Sid) (applicationData : Bytes)
  | resourceAttribute (mask : Mask) (sid : Sid) (applicationData : Bytes)
  | opaqueKind
  deriving DecidableEq

namespace Ace

def headerSize : ℕ := 4
def singleSidPrefixSize : ℕ := 8
def objectPrefixSize : ℕ := 12
def minSingleSidSize : ℕ := 16
def minObjectSize : ℕ := 20

/-! ## Payloads -/

variable (bytes : Bytes)

def readGuid (offset : ℕ) : KacsResult Guid :=
  if h : (slice bytes offset (offset + 16)).length = 16 then
    .ok ⟨slice bytes offset (offset + 16), h⟩
  else .error (.truncated "ace guid")

/-- A GUID that is there when a flag says so, and the offset behind it. -/
def readOptionalGuid (present : Bool) (offset : ℕ) : KacsResult (Option Guid × ℕ) :=
  if present then do
    let guid ← readGuid bytes offset
    .ok (some guid, offset + 16)
  else .ok (none, offset)

/-- The optional GUIDs of an object entry and the offset of its SID. -/
def parseObjectFields (flags : BitVec 32) : KacsResult (Option Guid × Option Guid × ℕ) := do
  let (objectType, offset) ←
    readOptionalGuid bytes (decide (flags &&& aceObjectTypePresent ≠ 0#32)) objectPrefixSize
  let (inheritedObjectType, offset) ←
    readOptionalGuid bytes (decide (flags &&& aceInheritedObjectTypePresent ≠ 0#32)) offset
  if bytes.length < offset + Sid.minSize then
    .error (.invalidObjectAceLayout "missing sid after object fields")
  else .ok (objectType, inheritedObjectType, offset)

def parseSingleSid : KacsResult AceKind :=
  if bytes.length < minSingleSidSize then .error (.truncated "ace single sid")
  else do
    let mask := u32At bytes 4
    validateAceMask mask
    let sid ← Sid.parse (bytes.drop singleSidPrefixSize)
    .ok (.singleSid mask sid)

/-- A label's mask is a policy, not an access mask: it is not validated. -/
def parseMandatoryLabel : KacsResult AceKind :=
  if bytes.length < minSingleSidSize then .error (.truncated "ace mandatory label")
  else do
    let mask := u32At bytes 4
    let sid ← Sid.parse (bytes.drop singleSidPrefixSize)
    .ok (.singleSid mask sid)

def parseObject : KacsResult AceKind :=
  if bytes.length < minObjectSize then .error (.truncated "ace object")
  else do
    let mask := u32At bytes 4
    validateAceMask mask
    let flags := u32At bytes 8
    let (objectType, inheritedObjectType, sidOffset) ← parseObjectFields bytes flags
    let sid ← Sid.parse (bytes.drop sidOffset)
    .ok (.object mask flags objectType inheritedObjectType sid)

def parseCallback : KacsResult AceKind :=
  if bytes.length < minSingleSidSize then .error (.truncated "ace callback")
  else do
    let mask := u32At bytes 4
    validateAceMask mask
    let (sid, consumed) ← Sid.parsePrefix (bytes.drop singleSidPrefixSize)
    .ok (.callback mask sid (bytes.drop (singleSidPrefixSize + consumed)))

def parseCallbackObject : KacsResult AceKind :=
  if bytes.length < minObjectSize then .error (.truncated "ace callback object")
  else do
    let mask := u32At bytes 4
    validateAceMask mask
    let flags := u32At bytes 8
    let (objectType, inheritedObjectType, sidOffset) ← parseObjectFields bytes flags
    let (sid, consumed) ← Sid.parsePrefix (bytes.drop sidOffset)
    .ok (.callbackObject mask flags objectType inheritedObjectType sid
      (bytes.drop (sidOffset + consumed)))

def parseResourceAttribute : KacsResult AceKind :=
  if bytes.length < minSingleSidSize then .error (.truncated "ace resource attribute")
  else do
    let mask := u32At bytes 4
    validateAceMask mask
    let (sid, consumed) ← Sid.parsePrefix (bytes.drop singleSidPrefixSize)
    if sid ≠ Sid.everyone then .error .invalidResourceAttributeSid
    else do
      let applicationData := bytes.drop (singleSidPrefixSize + consumed)
      validateClaimAttributeEntry applicationData
      .ok (.resourceAttribute mask sid applicationData)

/-- The layouts a payload can have. -/
inductive Layout where
  | singleSid | mandatoryLabel | object | callback | callbackObject | resourceAttribute
  | opaqueLayout

/-- The layout each entry type has. -/
def layout (aceType : Byte) : Layout :=
  if aceType ∈ [accessAllowedAceType, accessDeniedAceType, systemAuditAceType,
      systemAlarmAceType, systemScopedPolicyIdAceType, systemProcessTrustLabelAceType] then
    .singleSid
  else if aceType = systemMandatoryLabelAceType then .mandatoryLabel
  else if aceType ∈ [accessAllowedObjectAceType, accessDeniedObjectAceType,
      systemAuditObjectAceType, systemAlarmObjectAceType] then .object
  else if aceType ∈ [accessAllowedCallbackAceType, accessDeniedCallbackAceType,
      systemAuditCallbackAceType, systemAlarmCallbackAceType] then .callback
  else if aceType ∈ [accessAllowedCallbackObjectAceType, accessDeniedCallbackObjectAceType,
      systemAuditCallbackObjectAceType, systemAlarmCallbackObjectAceType] then .callbackObject
  else if aceType = systemResourceAttributeAceType then .resourceAttribute
  else .opaqueLayout

def parseKind (aceType : Byte) (bytes : Bytes) : KacsResult AceKind :=
  match layout aceType with
  | .singleSid => parseSingleSid bytes
  | .mandatoryLabel => parseMandatoryLabel bytes
  | .object => parseObject bytes
  | .callback => parseCallback bytes
  | .callbackObject => parseCallbackObject bytes
  | .resourceAttribute => parseResourceAttribute bytes
  | .opaqueLayout => .ok .opaqueKind

/-- The fields of an entry are those its bytes parse to. -/
def WellFormed (aceType aceFlags : Byte) (aceSize : BitVec 16) (kind : AceKind) : Prop :=
  bytes.length = aceSize.toNat ∧ headerSize ≤ aceSize.toNat ∧ aceSize.toNat % 4 = 0 ∧
    byteAt bytes 0 = aceType ∧ byteAt bytes 1 = aceFlags ∧ u16At bytes 2 = aceSize ∧
    parseKind aceType bytes = .ok kind

end Ace

/-- A parsed entry. -/
structure Ace where
  bytes : Bytes
  aceType : Byte
  aceFlags : Byte
  aceSize : BitVec 16
  kind : AceKind
  wf : Ace.WellFormed bytes aceType aceFlags aceSize kind
  deriving DecidableEq

namespace Ace

variable {a : Ace} {bytes : Bytes}

/-- An entry is determined by its bytes. -/
@[ext]
theorem ext {b : Ace} (h : a.bytes = b.bytes) : a = b := by
  revert h
  obtain ⟨bytes, t, f, n, k, -, -, -, ht, hf, hn, hk⟩ := a
  obtain ⟨bytes', t', f', n', k', -, -, -, ht', hf', hn', hk'⟩ := b
  rintro rfl
  subst ht ht' hf hf' hn hn'
  cases hk.symm.trans hk'
  rfl

/-- Takes one entry off the front of a buffer, with the number of bytes it uses. -/
def parsePrefix (bytes : Bytes) : KacsResult (Ace × ℕ) :=
  if bytes.length < headerSize then .error (.truncated "ace")
  else if hsize : (u16At bytes 2).toNat < headerSize ∨ (u16At bytes 2).toNat % 4 ≠ 0 then
    .error (.invalidAceSize (u16At bytes 2))
  else if hlen : bytes.length < (u16At bytes 2).toNat then .error (.truncated "ace")
  else
    match hkind : parseKind (byteAt bytes 0) (bytes.take (u16At bytes 2).toNat) with
    | .error e => .error e
    | .ok kind =>
      .ok ({ bytes := bytes.take (u16At bytes 2).toNat
             aceType := byteAt bytes 0
             aceFlags := byteAt bytes 1
             aceSize := u16At bytes 2
             kind := kind
             wf := by
               have h4 : headerSize = 4 := rfl
               exact ⟨by rw [length_take]; omega, by omega, by omega,
                 byteAt_take (by omega), byteAt_take (by omega), u16At_take (by omega), hkind⟩ },
        (u16At bytes 2).toNat)

/-- Parses an entry that occupies the whole slice. -/
def parse (bytes : Bytes) : KacsResult Ace := do
  let (ace, consumed) ← parsePrefix bytes
  if consumed ≠ bytes.length then .error (.invalidAceSize ace.aceSize) else .ok ace

/-! ## The parsers and the bytes of an entry -/

/-- A parser of values off the front of a buffer that must use all of it accepts exactly the bytes
of a value. -/
theorem whole_eq_ok {α : Type} {encode : α → Bytes} {read : Bytes → KacsResult (α × ℕ)} {a : α}
    (refusal : α → KacsError) (hread : ∀ {bytes : Bytes} {a : α} {n : ℕ},
      read bytes = .ok (a, n) ↔ ∃ rest, bytes = encode a ++ rest ∧ n = (encode a).length) :
    (read bytes >>= fun p => if p.2 ≠ bytes.length then .error (refusal p.1) else .ok p.1) =
      .ok a ↔ encode a = bytes := by
  constructor
  · intro h
    obtain ⟨⟨b, n⟩, hp, h⟩ := Outcome.of_bind h
    obtain ⟨hn, h⟩ := Outcome.of_guard h
    cases h
    obtain ⟨rest, rfl, rfl⟩ := hread.mp hp
    simp only [length_append, not_not] at hn
    obtain rfl : rest = [] := length_eq_zero_iff.mp (by omega)
    exact (append_nil _).symm
  · rintro rfl
    have hp : read (encode a) = .ok (a, (encode a).length) :=
      hread.mpr ⟨[], (append_nil _).symm, rfl⟩
    simp [hp]

theorem four_le_length (a : Ace) : 4 ≤ a.bytes.length := a.wf.1 ▸ a.wf.2.1

/-- An entry taken off the front of a buffer is the buffer's prefix of its length. -/
theorem parsePrefix_eq_ok {n : ℕ} :
    parsePrefix bytes = .ok (a, n) ↔ ∃ rest, bytes = a.bytes ++ rest ∧ n = a.bytes.length := by
  constructor
  · intro h
    unfold parsePrefix at h
    split_ifs at h with h₀ h₁ h₂
    split at h
    · cases h
    · simp only [Except.ok.injEq] at h
      obtain ⟨rfl, rfl⟩ := h
      refine ⟨bytes.drop _, (take_append_drop _ _).symm, ?_⟩
      simp only [length_take]
      omega
  · rintro ⟨rest, rfl, rfl⟩
    obtain ⟨hlen, h4, hmod, ht, hf, hn, hk⟩ := a.wf
    have h4' : headerSize = 4 := rfl
    have e₀ : byteAt (a.bytes ++ rest) 0 = a.aceType := by
      rw [byteAt_append_left (by omega), ht]
    have e₂ : u16At (a.bytes ++ rest) 2 = a.aceSize := by
      rw [u16At_append_left (by omega), hn]
    have et : (a.bytes ++ rest).take a.aceSize.toNat = a.bytes := by
      rw [← hlen, take_left]
    unfold parsePrefix
    rw [if_neg (by simp only [length_append]; omega),
      dif_neg (by rw [e₂]; omega),
      dif_neg (by rw [e₂]; simp only [length_append]; omega)]
    split
    · rename_i e he
      rw [e₀, e₂, et, hk] at he
      cases he
    · simp only [Except.ok.injEq, Prod.mk.injEq]
      refine ⟨Ace.ext ?_, by rw [e₂, hlen]⟩
      simp only [e₂, et]

/-- The parser accepts exactly the bytes of an entry, as that entry. -/
theorem parse_eq_ok : parse bytes = .ok a ↔ a.bytes = bytes := by
  unfold parse
  exact whole_eq_ok (fun ace : Ace => .invalidAceSize ace.aceSize) parsePrefix_eq_ok

end Ace

end Pkm.Kacs
