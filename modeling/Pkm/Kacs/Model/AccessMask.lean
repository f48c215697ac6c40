import Pkm.Lib.Bytes
import Pkm.Lib.Outcome
/-!
# Access masks and the generic mapping

The errors the core reports, the access-mask bits, and `GenericMapping`: how a
requested mask with generic bits becomes a mask of object rights. A mask that
carries a reserved bit is refused; a mask in an ACE may not carry
`MAXIMUM_ALLOWED` either.
-/

namespace Pkm.Kacs

open Bits

/-! ## Errors -/

/-- The errors of the core's fallible functions. -/
inductive KacsError where
  | accessDenied
  | invariantViolation (what : String)
  | invalidTokenInvariant (what : String)
  | nullSecurityDescriptor
  | truncated (what : String)
  | invalidClaimFormat (what : String)
  | invalidClaimType (valueType : BitVec 16)
  | invalidSidRevision (revision : Byte)
  | invalidSidSubAuthorityCount (count : Byte)
  | invalidSidLength (expected actual : ℕ)
  | invalidSecurityDescriptorRevision (revision : Byte)
  | securityDescriptorTooLarge (len max : ℕ)
  | missingSelfRelativeControl (control : BitVec 16)
  | missingSecurityDescriptorOwner
  | inconsistentSecurityDescriptorField (field : String) (present : Bool) (offset : BitVec 32)
  | securityDescriptorOffsetOutOfBounds (field : String) (offset : BitVec 32) (bufferLen : ℕ)
  | securityDescriptorOffsetInsideHeader (field : String) (offset : BitVec 32) (headerLen : ℕ)
  | securityDescriptorComponentsOverlap (first second : String)
  | invalidAclSize (size : BitVec 16)
  | aclSizeExceedsBuffer (size : BitVec 16) (bufferLen : ℕ)
  | aclAceCountMismatch (expected actual : BitVec 16)
  | aclTrailingBytes (remaining : ℕ)
  | invalidAceSize (size : BitVec 16)
  | invalidObjectAceLayout (what : String)
  | invalidResourceAttributeSid
  | invalidMandatoryLabelSid
  | invalidProcessTrustLabelSid
  | emptyObjectTypeList
  | invalidObjectTypeRootLevel (level : BitVec 16)
  | multipleObjectTypeRoots
  | objectTypeLevelGap (previous current : BitVec 16)
  | duplicateObjectTypeGuid (guid : Bytes)
  | unsupportedAceInDacl (aceType : Byte) (reason : String)
  | reservedAccessMaskBits (bits : BitVec 32)
  | maximumAllowedInAce (mask : BitVec 32)
  | mappedAccessMaskOutsideObjectRights (bits : BitVec 32)
  deriving DecidableEq

/-- The result of a fallible function of the core. -/
abbrev KacsResult (α : Type) := Except KacsError α

/-! ## The bits of an access mask -/

/-- An access mask. -/
abbrev Mask := BitVec 32

instance lawfulBEqMask : LawfulBEq Mask := inferInstance

def delete : Mask := 0x00010000#32
def readControl : Mask := 0x00020000#32
def writeDac : Mask := 0x00040000#32
def writeOwner : Mask := 0x00080000#32
def synchronize : Mask := 0x00100000#32
def accessSystemSecurity : Mask := 0x01000000#32
def maximumAllowed : Mask := 0x02000000#32
def genericAll : Mask := 0x10000000#32
def genericExecute : Mask := 0x20000000#32
def genericWrite : Mask := 0x40000000#32
def genericRead : Mask := 0x80000000#32

def reservedAccessMaskBits : Mask := 0x0ce00000#32
def genericMask : Mask := genericAll ||| genericExecute ||| genericWrite ||| genericRead

/-- The position of `WRITE_OWNER` in a mask. -/
def writeOwnerBit : Fin 32 := 19

def readControlBit : Fin 32 := 17

@[simp]
theorem bit_writeOwner (i : Fin 32) : bit writeOwner i = decide (i = writeOwnerBit) := by
  revert i; decide

/-- A flag test for `WRITE_OWNER` reads the one bit. -/
theorem and_writeOwner_ne_zero {m : Mask} :
    m &&& writeOwner ≠ 0#32 ↔ bit m writeOwnerBit = true := by
  simp [and_ne_zero_iff]

/-! ## The generic mapping -/

/-- What each generic right stands for on one type of object. -/
structure GenericMapping where
  read : Mask
  write : Mask
  execute : Mask
  all : Mask
  deriving DecidableEq

/-- A requested mask after `MAXIMUM_ALLOWED` is split off and generic rights are mapped. -/
structure NormalizedDesiredAccess where
  requested : Mask
  mapped : Mask
  maximumAllowed : Bool
  deriving DecidableEq

def validateNoReservedBits (mask : Mask) : KacsResult Unit :=
  let reserved := mask &&& reservedAccessMaskBits
  if reserved ≠ 0#32 then .error (.reservedAccessMaskBits reserved) else .ok ()

def validateAceMask (mask : Mask) : KacsResult Unit := do
  validateNoReservedBits mask
  if mask &&& maximumAllowed ≠ 0#32 then .error (.maximumAllowedInAce mask) else .ok ()

namespace GenericMapping

variable (self : GenericMapping)

/-- The bits a mask without reserved bits maps to: its own non-generic bits and, for each
generic bit it carries, that right's rights. -/
def mapBits (mask : Mask) : Mask :=
  let mapped := mask &&& ~~~genericMask
  let mapped := if mask &&& genericRead ≠ 0#32 then mapped ||| self.read else mapped
  let mapped := if mask &&& genericWrite ≠ 0#32 then mapped ||| self.write else mapped
  let mapped := if mask &&& genericExecute ≠ 0#32 then mapped ||| self.execute else mapped
  if mask &&& genericAll ≠ 0#32 then mapped ||| self.all else mapped

def mapMask (mask : Mask) : KacsResult Mask := do
  validateNoReservedBits mask
  .ok (self.mapBits mask)

def normalizeDesiredAccess (requested : Mask) : KacsResult NormalizedDesiredAccess := do
  validateNoReservedBits requested
  let maximumAllowed := decide (requested &&& Kacs.maximumAllowed ≠ 0#32)
  let stripped := requested &&& ~~~Kacs.maximumAllowed
  let mapped ← self.mapMask stripped
  .ok { requested, mapped, maximumAllowed }

variable {mask : Mask}

/-- A mask is mapped exactly when it has no reserved bit. -/
theorem mapMask_of_noReserved (h : validateNoReservedBits mask = .ok ()) :
    self.mapMask mask = .ok (self.mapBits mask) := by
  simp [mapMask, h]

/-- The mask of an ACE that passed validation is always mapped. -/
theorem mapMask_of_validateAceMask (h : validateAceMask mask = .ok ()) :
    self.mapMask mask = .ok (self.mapBits mask) := by
  obtain ⟨u, hu, -⟩ := Outcome.of_bind h
  exact self.mapMask_of_noReserved hu

/-- A generic right maps to the rights that the mapping gives for it. -/
theorem mapBits_generic :
    self.mapBits genericAll = self.all ∧ self.mapBits genericExecute = self.execute ∧
      self.mapBits genericWrite = self.write ∧ self.mapBits genericRead = self.read := by
  simp [mapBits, genericMask, genericAll, genericExecute, genericWrite, genericRead]

theorem mapMask_genericAll : self.mapMask genericAll = .ok self.all := by
  rw [self.mapMask_of_noReserved (by decide), self.mapBits_generic.1]

theorem mapMask_genericExecute : self.mapMask genericExecute = .ok self.execute := by
  rw [self.mapMask_of_noReserved (by decide), self.mapBits_generic.2.1]

theorem mapMask_genericWrite : self.mapMask genericWrite = .ok self.write := by
  rw [self.mapMask_of_noReserved (by decide), self.mapBits_generic.2.2.1]

theorem mapMask_genericRead : self.mapMask genericRead = .ok self.read := by
  rw [self.mapMask_of_noReserved (by decide), self.mapBits_generic.2.2.2]

/-- A mask without generic rights maps to itself. -/
theorem mapMask_eq_ok_of_not_generic {mapped : Mask} (hgeneric : mask &&& genericMask = 0#32)
    (h : self.mapMask mask = .ok mapped) : mapped = mask := by
  obtain ⟨u, -, h⟩ := Outcome.of_bind h
  cases h
  have hnone : ∀ r, r ⊆ genericMask → ¬ (mask &&& r ≠ 0#32) := by
    intro r hr hne
    rw [BitVec.and_comm] at hne hgeneric
    exact and_ne_zero_mono hr hne hgeneric
  unfold mapBits
  rw [if_neg (hnone genericAll (by decide)), if_neg (hnone genericExecute (by decide)),
    if_neg (hnone genericWrite (by decide)), if_neg (hnone genericRead (by decide))]
  refine ext_bit fun i => ?_
  have hi := eq_zero_iff.mp hgeneric i
  rw [bit_and] at hi
  rw [bit_and, bit_not]
  cases hm : bit mask i with
  | false => rfl
  | true =>
    rw [hm, Bool.true_and] at hi
    rw [hi]
    rfl

end GenericMapping

end Pkm.Kacs
