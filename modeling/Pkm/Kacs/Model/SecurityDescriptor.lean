import Pkm.Kacs.Model.Acl
/-!
# Self-relative security descriptors

A twenty-byte header with a control word and four offsets, and the components
they point to: owner, group, SACL and DACL. `parseLayout` checks the header, the
components and that no two of them overlap; `fromCachedLayout` reads the
components back from a layout. A `SecurityDescriptor` carries the fact that its
components are what its bytes parse to.

`assemble` lays a header and components out in the order every writer of the
repository uses.
-/

namespace Pkm.Kacs

open Bytes

def maxSecurityDescriptorBytes : ℕ := 65535

/-! ## Control bits -/

def seOwnerDefaulted : BitVec 16 := 0x0001#16
def seGroupDefaulted : BitVec 16 := 0x0002#16
def seDaclPresent : BitVec 16 := 0x0004#16
def seDaclDefaulted : BitVec 16 := 0x0008#16
def seSaclPresent : BitVec 16 := 0x0010#16
def seSaclDefaulted : BitVec 16 := 0x0020#16
def seDaclTrusted : BitVec 16 := 0x0040#16
def seDaclAutoInheritReq : BitVec 16 := 0x0100#16
def seSaclAutoInheritReq : BitVec 16 := 0x0200#16
def seDaclAutoInherited : BitVec 16 := 0x0400#16
def seSaclAutoInherited : BitVec 16 := 0x0800#16
def seDaclProtected : BitVec 16 := 0x1000#16
def seSaclProtected : BitVec 16 := 0x2000#16
def seRmControlValid : BitVec 16 := 0x4000#16
def seSelfRelative : BitVec 16 := 0x8000#16

namespace SecurityDescriptor

def headerSize : ℕ := 20

/-! ## Components -/

/-- A component found at an offset, with the name of the field it is for. -/
structure ComponentRegion where
  field : String
  start : ℕ
  stop : ℕ

/-- A component of a cached layout. -/
structure ComponentLayout where
  offset : ℕ
  len : ℕ

/-- The cached layout of a parsed descriptor. -/
structure Layout where
  control : BitVec 16
  resourceManagerControl : Byte
  owner : Option ComponentLayout
  group : Option ComponentLayout
  sacl : Option ComponentLayout
  dacl : Option ComponentLayout

/-- The components of a descriptor. -/
structure Views where
  control : BitVec 16
  owner : Option Sid
  group : Option Sid
  sacl : Option Acl
  dacl : Option Acl

variable (bytes : Bytes) (field : String)

/-- An offset must point behind the header and inside the buffer. -/
def checkOffset (offset : BitVec 32) : KacsResult Unit :=
  if offset.toNat < headerSize then
    .error (.securityDescriptorOffsetInsideHeader field offset headerSize)
  else if offset.toNat ≥ bytes.length then
    .error (.securityDescriptorOffsetOutOfBounds field offset bytes.length)
  else .ok ()

def parseOptionalSid (offset : BitVec 32) (zeroIsAbsent : Bool) :
    KacsResult (Option Sid × Option ComponentRegion) :=
  if offset = 0#32 ∧ zeroIsAbsent then .ok (none, none)
  else do
    checkOffset bytes field offset
    let (sid, consumed) ← Sid.parsePrefix (bytes.drop offset.toNat)
    .ok (some sid, some ⟨field, offset.toNat, offset.toNat + consumed⟩)

def parseOptionalAcl (present : Bool) (offset : BitVec 32) :
    KacsResult (Option Acl × Option ComponentRegion) :=
  if ¬ present then
    if offset ≠ 0#32 then .error (.inconsistentSecurityDescriptorField field present offset)
    else .ok (none, none)
  else if offset = 0#32 then .error (.inconsistentSecurityDescriptorField field present offset)
  else do
    checkOffset bytes field offset
    let (acl, consumed) ← Acl.parsePrefix (bytes.drop offset.toNat)
    .ok (some acl, some ⟨field, offset.toNat, offset.toNat + consumed⟩)

/-- Compares one component with those after it. -/
def checkOverlap (first : ComponentRegion) : List (Option ComponentRegion) → KacsResult Unit
  | [] => .ok ()
  | none :: rest => checkOverlap first rest
  | some second :: rest =>
    if first.start < second.stop ∧ second.start < first.stop then
      .error (.securityDescriptorComponentsOverlap first.field second.field)
    else checkOverlap first rest

def validateComponentOverlap : List (Option ComponentRegion) → KacsResult Unit
  | [] => .ok ()
  | none :: rest => validateComponentOverlap rest
  | some first :: rest => do
    checkOverlap first rest
    validateComponentOverlap rest

def componentLayout (region : Option ComponentRegion) : Option ComponentLayout :=
  region.map fun region => ⟨region.start, region.stop - region.start⟩

def parseLayout : KacsResult Layout :=
  if bytes.length > maxSecurityDescriptorBytes then
    .error (.securityDescriptorTooLarge bytes.length maxSecurityDescriptorBytes)
  else if bytes.length < headerSize then .error (.truncated "security descriptor")
  else if byteAt bytes 0 ≠ 1#8 then
    .error (.invalidSecurityDescriptorRevision (byteAt bytes 0))
  else if u16At bytes 2 &&& seSelfRelative = 0#16 then
    .error (.missingSelfRelativeControl (u16At bytes 2))
  else do
    let control := u16At bytes 2
    let (_, ownerRegion) ← parseOptionalSid bytes "owner" (u32At bytes 4) true
    let (_, groupRegion) ← parseOptionalSid bytes "group" (u32At bytes 8) true
    let (_, saclRegion) ←
      parseOptionalAcl bytes "sacl" (decide (control &&& seSaclPresent ≠ 0#16)) (u32At bytes 12)
    let (_, daclRegion) ←
      parseOptionalAcl bytes "dacl" (decide (control &&& seDaclPresent ≠ 0#16)) (u32At bytes 16)
    validateComponentOverlap [ownerRegion, groupRegion, saclRegion, daclRegion]
    .ok { control, resourceManagerControl := byteAt bytes 1
          owner := componentLayout ownerRegion
          group := componentLayout groupRegion
          sacl := componentLayout saclRegion
          dacl := componentLayout daclRegion }

def componentSlice (component : ComponentLayout) : KacsResult Bytes :=
  if component.offset + component.len ≤ bytes.length then
    .ok (slice bytes component.offset (component.offset + component.len))
  else
    .error (.securityDescriptorOffsetOutOfBounds field
      (if component.offset < 2 ^ 32 then BitVec.ofNat 32 component.offset else BitVec.allOnes 32)
      bytes.length)

/-- Reads an optional component of a layout back with a parser. -/
def parseFromLayout {α : Type} (parser : Bytes → KacsResult α) (bytes : Bytes) (field : String) :
    Option ComponentLayout → KacsResult (Option α)
  | none => .ok none
  | some component => do
    let part ← componentSlice bytes field component
    let view ← parser part
    .ok (some view)

def fromCachedLayout (layout : Layout) : KacsResult Views :=
  if bytes.length < headerSize then .error (.truncated "security descriptor")
  else if byteAt bytes 0 ≠ 1#8 then
    .error (.invalidSecurityDescriptorRevision (byteAt bytes 0))
  else if layout.control &&& seSelfRelative = 0#16 then
    .error (.missingSelfRelativeControl layout.control)
  else do
    let owner ← parseFromLayout Sid.parse bytes "owner" layout.owner
    let group ← parseFromLayout Sid.parse bytes "group" layout.group
    let sacl ← parseFromLayout Acl.parse bytes "sacl" layout.sacl
    let dacl ← parseFromLayout Acl.parse bytes "dacl" layout.dacl
    .ok { control := layout.control, owner, group, sacl, dacl }

/-- The components of a byte string that is a valid descriptor. -/
def parseViews : KacsResult Views := do
  let layout ← parseLayout bytes
  fromCachedLayout bytes layout

end SecurityDescriptor

/-- A parsed descriptor. -/
structure SecurityDescriptor where
  bytes : Bytes
  control : BitVec 16
  owner : Option Sid
  group : Option Sid
  sacl : Option Acl
  dacl : Option Acl
  wf : SecurityDescriptor.parseViews bytes = .ok ⟨control, owner, group, sacl, dacl⟩

namespace SecurityDescriptor

variable {bytes : Bytes}

def parse (bytes : Bytes) : KacsResult SecurityDescriptor :=
  match h : parseViews bytes with
  | .error e => .error e
  | .ok v => .ok ⟨bytes, v.control, v.owner, v.group, v.sacl, v.dacl, h⟩

def resourceManagerControl (self : SecurityDescriptor) : Byte := byteAt self.bytes 1

/-- A descriptor is determined by its bytes. -/
theorem ext_bytes {a b : SecurityDescriptor} (h : a.bytes = b.bytes) : a = b := by
  revert h
  obtain ⟨bytes, c, o, g, s, d, h⟩ := a
  obtain ⟨bytes', c', o', g', s', d', h'⟩ := b
  rintro rfl
  rw [h] at h'
  cases h'
  rfl

variable {sd : SecurityDescriptor}

/-- The parser accepts exactly the bytes of a descriptor, as that descriptor. -/
theorem parse_eq_ok : parse bytes = .ok sd ↔ sd.bytes = bytes := by
  constructor
  · intro h
    unfold parse at h
    split at h
    · cases h
    · cases h
      rfl
  · rintro rfl
    unfold parse
    split
    · rename_i e he
      rw [sd.wf] at he
      cases he
    · rename_i v hv
      exact congrArg Except.ok (ext_bytes rfl)

/-- What a successful parse returns is what the components' parser returns. -/
theorem parseViews_of_parse (h : parse bytes = .ok sd) :
    parseViews bytes = .ok ⟨sd.control, sd.owner, sd.group, sd.sacl, sd.dacl⟩ :=
  parse_eq_ok.mp h ▸ sd.wf

/-! ## Laying a descriptor out -/

/-- The header's offset field for a component: zero when the component is absent. -/
def offsetField (part : Option Bytes) (offset : ℕ) : BitVec 32 :=
  if part.isSome then BitVec.ofNat 32 offset else 0#32

/-- The header and the components in the order owner, group, SACL, DACL. -/
def assemble (rmControl : Byte) (control : BitVec 16) (owner group sacl dacl : Option Bytes) :
    Bytes :=
  let groupOffset := headerSize + (owner.getD []).length
  let saclOffset := groupOffset + (group.getD []).length
  let daclOffset := saclOffset + (sacl.getD []).length
  [1#8, rmControl] ++ ofU16 control ++ ofU32 (offsetField owner headerSize) ++
    ofU32 (offsetField group groupOffset) ++ ofU32 (offsetField sacl saclOffset) ++
    ofU32 (offsetField dacl daclOffset) ++
    (owner.getD [] ++ group.getD [] ++ sacl.getD [] ++ dacl.getD [])

end SecurityDescriptor

end Pkm.Kacs
