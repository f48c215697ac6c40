import Pkm.Lib.Bits
/-!
# Byte strings and little-endian words

A byte string is a list of 8-bit words. The readers take a position and return
the little-endian word that starts there; the writers produce the bytes of a
word. Reading at a position of a concatenation is reading in one of its parts,
and a word survives being written and read back.
-/

namespace Pkm

open List

/-- One octet. -/
abbrev Byte := BitVec 8

instance lawfulBEqByte : LawfulBEq Byte := inferInstance

/-- A byte string. -/
abbrev Bytes := List Byte

namespace Bytes

variable {i n : ℕ}

/-- The byte at a position, zero past the end. -/
def byteAt (bs : Bytes) (i : ℕ) : Byte := bs.getD i 0

/-- The bytes from `start` up to `stop`. -/
def slice (bs : Bytes) (start stop : ℕ) : Bytes := (bs.drop start).take (stop - start)

/-- The 16-bit word with the given low and high bytes. -/
def leU16 (b₀ b₁ : Byte) : BitVec 16 := BitVec.ofNat 16 (b₀.toNat + 256 * b₁.toNat)

/-- The 32-bit word with the given bytes, lowest first. -/
def leU32 (b₀ b₁ b₂ b₃ : Byte) : BitVec 32 :=
  BitVec.ofNat 32 (b₀.toNat + 256 * b₁.toNat + 65536 * b₂.toNat + 16777216 * b₃.toNat)

/-- The little-endian 16-bit word at a position. -/
def u16At (bs : Bytes) (i : ℕ) : BitVec 16 := leU16 (byteAt bs i) (byteAt bs (i + 1))

/-- The little-endian 32-bit word at a position. -/
def u32At (bs : Bytes) (i : ℕ) : BitVec 32 :=
  leU32 (byteAt bs i) (byteAt bs (i + 1)) (byteAt bs (i + 2)) (byteAt bs (i + 3))

/-- The little-endian 64-bit word at a position. -/
def u64At (bs : Bytes) (i : ℕ) : BitVec 64 := u32At bs (i + 4) ++ u32At bs i

/-- The two bytes of a 16-bit word, lowest first. -/
def ofU16 (x : BitVec 16) : Bytes := [BitVec.ofNat 8 x.toNat, BitVec.ofNat 8 (x.toNat / 256)]

/-- The four bytes of a 32-bit word, lowest first. -/
def ofU32 (x : BitVec 32) : Bytes :=
  [BitVec.ofNat 8 x.toNat, BitVec.ofNat 8 (x.toNat / 256), BitVec.ofNat 8 (x.toNat / 65536),
    BitVec.ofNat 8 (x.toNat / 16777216)]

/-- The eight bytes of a 64-bit word, lowest first. -/
def ofU64 (x : BitVec 64) : Bytes := ofU32 (x.extractLsb' 0 32) ++ ofU32 (x.extractLsb' 32 32)

@[simp]
theorem length_ofU16 (x : BitVec 16) : (ofU16 x).length = 2 := rfl

@[simp]
theorem length_ofU32 (x : BitVec 32) : (ofU32 x).length = 4 := rfl

@[simp]
theorem length_ofU64 (x : BitVec 64) : (ofU64 x).length = 8 := rfl

/-! ## Reading in a concatenation -/

@[simp]
theorem byteAt_cons_zero (b : Byte) (bs : Bytes) : byteAt (b :: bs) 0 = b := rfl

@[simp]
theorem byteAt_cons_succ (b : Byte) (bs : Bytes) (i : ℕ) :
    byteAt (b :: bs) (i + 1) = byteAt bs i := by
  simp [byteAt]

variable {xs ys : Bytes}

theorem byteAt_append_left (h : i < xs.length) : byteAt (xs ++ ys) i = byteAt xs i := by
  simp [byteAt, getElem?_append_left h]

theorem byteAt_take (h : i < n) : byteAt (xs.take n) i = byteAt xs i := by
  simp [byteAt, h]

theorem byteAt_drop (xs : Bytes) (n i : ℕ) : byteAt (xs.drop n) i = byteAt xs (n + i) := by
  simp [byteAt]

theorem u16At_append_left (h : i + 1 < xs.length) : u16At (xs ++ ys) i = u16At xs i := by
  simp only [u16At, byteAt_append_left h, byteAt_append_left (show i < xs.length by omega)]

theorem u16At_take (h : i + 1 < n) : u16At (xs.take n) i = u16At xs i := by
  simp only [u16At, byteAt_take h, byteAt_take (show i < n by omega)]

/-! ## A word survives being written and read back -/

theorem u16At_ofU16 (x : BitVec 16) (bs : Bytes) : u16At (ofU16 x ++ bs) 0 = x := by
  apply BitVec.eq_of_toNat_eq
  simp only [u16At, ofU16, leU16, cons_append, byteAt_cons_zero,
    byteAt_cons_succ, BitVec.toNat_ofNat]
  omega

theorem u32At_ofU32 (x : BitVec 32) (bs : Bytes) : u32At (ofU32 x ++ bs) 0 = x := by
  apply BitVec.eq_of_toNat_eq
  simp only [u32At, ofU32, leU32, cons_append, byteAt_cons_zero,
    byteAt_cons_succ, BitVec.toNat_ofNat]
  omega

/-- The bytes of a word that was read are the bytes it was read from. -/
theorem ofU16_u16At (bs : Bytes) (i : ℕ) :
    ofU16 (u16At bs i) = [byteAt bs i, byteAt bs (i + 1)] := by
  have hn : (u16At bs i).toNat = (byteAt bs i).toNat + 256 * (byteAt bs (i + 1)).toNat := by
    rw [u16At, leU16, BitVec.toNat_ofNat, Nat.mod_eq_of_lt (by omega)]
  have hlow : BitVec.ofNat 8 (u16At bs i).toNat = byteAt bs i := by
    apply BitVec.eq_of_toNat_eq
    rw [BitVec.toNat_ofNat]
    omega
  have hhigh : BitVec.ofNat 8 ((u16At bs i).toNat / 256) = byteAt bs (i + 1) := by
    apply BitVec.eq_of_toNat_eq
    rw [BitVec.toNat_ofNat]
    omega
  rw [ofU16, hlow, hhigh]

theorem ofU32_u32At (bs : Bytes) (i : ℕ) :
    ofU32 (u32At bs i) =
      [byteAt bs i, byteAt bs (i + 1), byteAt bs (i + 2), byteAt bs (i + 3)] := by
  have hn : (u32At bs i).toNat = (byteAt bs i).toNat + 256 * (byteAt bs (i + 1)).toNat +
      65536 * (byteAt bs (i + 2)).toNat + 16777216 * (byteAt bs (i + 3)).toNat := by
    rw [u32At, leU32, BitVec.toNat_ofNat, Nat.mod_eq_of_lt (by omega)]
  have hbyte : ∀ (n : ℕ) (b : Byte), n % 256 = b.toNat → BitVec.ofNat 8 n = b := fun n b h =>
    BitVec.eq_of_toNat_eq (by rw [BitVec.toNat_ofNat]; exact h)
  rw [ofU32, hbyte _ (byteAt bs i) (by omega), hbyte _ (byteAt bs (i + 1)) (by omega),
    hbyte _ (byteAt bs (i + 2)) (by omega), hbyte _ (byteAt bs (i + 3)) (by omega)]

variable {bs : Bytes}

/-- The bytes from a position on begin with the byte there. -/
theorem drop_eq_cons (h : i < bs.length) : bs.drop i = byteAt bs i :: bs.drop (i + 1) := by
  simp [byteAt, h]

theorem drop_eq_ofU16 (h : i + 1 < bs.length) :
    bs.drop i = ofU16 (u16At bs i) ++ bs.drop (i + 2) := by
  rw [drop_eq_cons (by omega), drop_eq_cons h, ofU16_u16At]
  rfl

theorem drop_eq_ofU32 (h : i + 3 < bs.length) :
    bs.drop i = ofU32 (u32At bs i) ++ bs.drop (i + 4) := by
  rw [drop_eq_cons (by omega), drop_eq_cons (show i + 1 < bs.length by omega),
    drop_eq_cons (show i + 2 < bs.length by omega), drop_eq_cons h, ofU32_u32At]
  rfl

/-! ## Bytes at a position -/

/-- The bytes that stand at a position. -/
def Has (bs : Bytes) (i : ℕ) (chunk : Bytes) : Prop := chunk <+: bs.drop i

namespace Has

variable {bs a b : Bytes} {i : ℕ}

theorem self (bs : Bytes) : bs.Has 0 bs := prefix_rfl

theorem left (h : bs.Has i (a ++ b)) : bs.Has i a := (prefix_append a b).trans h

theorem right (h : bs.Has i (a ++ b)) : bs.Has (i + a.length) b := by
  obtain ⟨post, hpost⟩ := h
  refine ⟨post, ?_⟩
  rw [← drop_drop, ← hpost, append_assoc, drop_left]

theorem le (h : bs.Has i a) (hne : a ≠ []) : i + a.length ≤ bs.length := by
  have hlen := List.IsPrefix.length_le h
  have hpos := length_pos_iff.mpr hne
  rw [length_drop] at hlen
  omega

theorem slice_eq (h : bs.Has i a) : slice bs i (i + a.length) = a := by
  rw [slice, Nat.add_sub_cancel_left]
  exact (prefix_iff_eq_take.mp h).symm

theorem byteAt_eq {x : Byte} (h : bs.Has i (x :: a)) : byteAt bs i = x := by
  obtain ⟨post, hpost⟩ := h
  calc byteAt bs i = byteAt (bs.drop i) 0 := by rw [byteAt_drop, Nat.add_zero]
    _ = x := by rw [← hpost, cons_append, byteAt_cons_zero]

theorem u16At_eq {x : BitVec 16} (h : bs.Has i (ofU16 x)) : u16At bs i = x := by
  obtain ⟨post, hpost⟩ := h
  calc u16At bs i = u16At (bs.drop i) 0 := by simp only [u16At, byteAt_drop, Nat.add_zero]
    _ = x := by rw [← hpost, u16At_ofU16]

theorem u32At_eq {x : BitVec 32} (h : bs.Has i (ofU32 x)) : u32At bs i = x := by
  obtain ⟨post, hpost⟩ := h
  calc u32At bs i = u32At (bs.drop i) 0 := by simp only [u32At, byteAt_drop, Nat.add_zero]
    _ = x := by rw [← hpost, u32At_ofU32]

end Has

variable {post pre : Bytes}

/-- A word written behind a prefix is read at the prefix's length. -/
theorem u16At_append_ofU16 {x : BitVec 16} (h : i = pre.length) :
    u16At (pre ++ (ofU16 x ++ post)) i = x :=
  Has.u16At_eq ⟨post, by rw [h, drop_left]⟩

theorem u32At_append_ofU32 {x : BitVec 32} (h : i = pre.length) :
    u32At (pre ++ (ofU32 x ++ post)) i = x :=
  Has.u32At_eq ⟨post, by rw [h, drop_left]⟩

end Bytes

end Pkm
