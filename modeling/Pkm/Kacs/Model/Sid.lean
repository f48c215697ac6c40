import Pkm.Kacs.Model.AccessMask
/-!
# Security identifiers

A `Sid` is a byte string that passed the parser, so its revision, its
sub-authority count and its length agree in every value. Both parsers are here:
`parse` takes the whole slice, `parsePrefix` takes a SID off the front of a
larger buffer and says how much it used.
-/

namespace Pkm.Kacs

open Bytes

/-- The bit marking an enabled SID of a token. -/
def seGroupEnabled : BitVec 32 := 0x00000004#32

/-- The bit marking a SID of a token as deny-only. -/
def seGroupUseForDenyOnly : BitVec 32 := 0x00000010#32

/-- A GUID, as its sixteen bytes. -/
structure Guid where
  bytes : Bytes
  length_eq : bytes.length = 16
  deriving DecidableEq

namespace Sid

def minSize : ℕ := 8

def maxSubAuthorities : Byte := 15#8

/-- The length that the sub-authority count announces. -/
def expectedLen (bytes : Bytes) : ℕ := minSize + (byteAt bytes 1).toNat * 4

theorem expectedLen_congr {xs ys : Bytes} (h : byteAt xs 1 = byteAt ys 1) :
    expectedLen xs = expectedLen ys := by
  rw [expectedLen, expectedLen, h]

/-- What the parser checks: the revision is `1`, there are at most fifteen sub-authorities, and
the length is the header and the sub-authorities. -/
def WellFormed (bytes : Bytes) : Prop :=
  minSize ≤ bytes.length ∧ byteAt bytes 0 = 1#8 ∧ byteAt bytes 1 ≤ maxSubAuthorities ∧
    bytes.length = expectedLen bytes

instance (bytes : Bytes) : Decidable (WellFormed bytes) :=
  inferInstanceAs (Decidable (_ ∧ _ ∧ _ ∧ _))

end Sid

/-- A security identifier: a well-formed byte string. -/
structure Sid where
  bytes : Bytes
  wf : Sid.WellFormed bytes
  deriving DecidableEq

namespace Sid

variable {bytes : Bytes} {s : Sid}

@[ext]
theorem ext {t : Sid} (h : s.bytes = t.bytes) : s = t := by
  cases s; cases t; simp_all

/-- The checks on a buffer are the checks on the prefix they delimit. -/
theorem wellFormed_take (h₁ : byteAt bytes 0 = 1#8) (h₂ : byteAt bytes 1 ≤ maxSubAuthorities)
    (hlen : expectedLen bytes ≤ bytes.length) : WellFormed (bytes.take (expectedLen bytes)) := by
  have h8 : 8 ≤ expectedLen bytes := Nat.le_add_right _ _
  have e₀ : byteAt (bytes.take (expectedLen bytes)) 0 = byteAt bytes 0 := byteAt_take (by omega)
  have e₁ : byteAt (bytes.take (expectedLen bytes)) 1 = byteAt bytes 1 := byteAt_take (by omega)
  have el : (bytes.take (expectedLen bytes)).length = expectedLen bytes := by
    rw [List.length_take]; omega
  refine ⟨?_, by rw [e₀, h₁], by rw [e₁]; exact h₂, ?_⟩
  · rw [el]; exact h8
  · exact el.trans (expectedLen_congr e₁.symm)

/-- Parses a SID that occupies the whole slice. -/
def parse (bytes : Bytes) : KacsResult Sid :=
  if h₀ : bytes.length < minSize then .error (.truncated "sid")
  else if h₁ : byteAt bytes 0 ≠ 1#8 then .error (.invalidSidRevision (byteAt bytes 0))
  else if h₂ : byteAt bytes 1 > maxSubAuthorities then
    .error (.invalidSidSubAuthorityCount (byteAt bytes 1))
  else if h₃ : bytes.length ≠ expectedLen bytes then
    .error (.invalidSidLength (expectedLen bytes) bytes.length)
  else .ok ⟨bytes, Nat.not_lt.mp h₀, not_not.mp h₁, BitVec.not_lt.mp h₂, not_not.mp h₃⟩

/-- Takes a SID off the front of a buffer, with the number of bytes it uses. -/
def parsePrefix (bytes : Bytes) : KacsResult (Sid × ℕ) :=
  if bytes.length < minSize then .error (.truncated "sid")
  else if h₁ : byteAt bytes 0 ≠ 1#8 then .error (.invalidSidRevision (byteAt bytes 0))
  else if h₂ : byteAt bytes 1 > maxSubAuthorities then
    .error (.invalidSidSubAuthorityCount (byteAt bytes 1))
  else if h₃ : bytes.length < expectedLen bytes then .error (.truncated "sid")
  else
    .ok (⟨bytes.take (expectedLen bytes),
      wellFormed_take (not_not.mp h₁) (BitVec.not_lt.mp h₂) (Nat.not_lt.mp h₃)⟩, expectedLen bytes)

def subAuthorityCount (self : Sid) : Byte := byteAt self.bytes 1

/-- The six bytes of the identifier authority. -/
def identifierAuthority (self : Sid) : Bytes := slice self.bytes 2 8

def subAuthority (self : Sid) (index : ℕ) : Option (BitVec 32) :=
  if index ≥ self.subAuthorityCount.toNat then none
  else some (u32At self.bytes (minSize + index * 4))

/-! ## Well-known identifiers -/

def ownerRights : Sid := ⟨[1, 1, 0, 0, 0, 0, 0, 3, 4, 0, 0, 0], by decide⟩
def principalSelf : Sid := ⟨[1, 1, 0, 0, 0, 0, 0, 5, 10, 0, 0, 0], by decide⟩
def system : Sid := ⟨[1, 1, 0, 0, 0, 0, 0, 5, 18, 0, 0, 0], by decide⟩
def administrators : Sid := ⟨[1, 2, 0, 0, 0, 0, 0, 5, 32, 0, 0, 0, 32, 2, 0, 0], by decide⟩
def creatorOwner : Sid := ⟨[1, 1, 0, 0, 0, 0, 0, 3, 0, 0, 0, 0], by decide⟩
def creatorGroup : Sid := ⟨[1, 1, 0, 0, 0, 0, 0, 3, 1, 0, 0, 0], by decide⟩
def everyone : Sid := ⟨[1, 1, 0, 0, 0, 0, 0, 1, 0, 0, 0, 0], by decide⟩

/-! ## The parsers and the bytes of a SID -/

theorem length_pos (s : Sid) : minSize ≤ s.bytes.length := s.wf.1

/-- The parser accepts exactly the bytes of a SID, as that SID. -/
theorem parse_eq_ok : parse bytes = .ok s ↔ s.bytes = bytes := by
  constructor
  · intro h
    unfold parse at h
    split_ifs at h
    cases h
    rfl
  · rintro rfl
    obtain ⟨h₀, h₁, h₂, h₃⟩ := s.wf
    unfold parse
    rw [dif_neg (Nat.not_lt.mpr h₀), dif_neg (not_not.mpr h₁), dif_neg (BitVec.not_lt.mpr h₂),
      dif_neg (not_not.mpr h₃)]

@[simp]
theorem parse_bytes (s : Sid) : parse s.bytes = .ok s := parse_eq_ok.mpr rfl

/-- A SID taken off the front of a buffer is the buffer's prefix of its length. -/
theorem parsePrefix_eq_ok {n : ℕ} :
    parsePrefix bytes = .ok (s, n) ↔ ∃ rest, bytes = s.bytes ++ rest ∧ n = s.bytes.length := by
  constructor
  · intro h
    unfold parsePrefix at h
    split_ifs at h with h₀ h₁ h₂ h₃
    obtain ⟨rfl, rfl⟩ := h
    refine ⟨bytes.drop _, (List.take_append_drop _ _).symm, ?_⟩
    simp only [List.length_take]
    omega
  · rintro ⟨rest, rfl, rfl⟩
    obtain ⟨h₀, h₁, h₂, h₃⟩ := s.wf
    have h8 : minSize = 8 := rfl
    have e₀ : byteAt (s.bytes ++ rest) 0 = byteAt s.bytes 0 := byteAt_append_left (by omega)
    have e₁ : byteAt (s.bytes ++ rest) 1 = byteAt s.bytes 1 := byteAt_append_left (by omega)
    have el : expectedLen (s.bytes ++ rest) = s.bytes.length := (expectedLen_congr e₁).trans h₃.symm
    unfold parsePrefix
    rw [if_neg (by simp only [List.length_append]; omega),
      dif_neg (by rw [e₀]; exact not_not.mpr h₁), dif_neg (by rw [e₁]; exact BitVec.not_lt.mpr h₂),
      dif_neg (by rw [el]; simp only [List.length_append]; omega)]
    simp [el]

end Sid

end Pkm.Kacs
