import Pkm.Kacs.Helpers.ClaimRead
/-!
# How much an entry expands

Every value is reached through offsets, and nothing keeps two values from standing in
the same bytes. A value is not larger than the entry and an entry has no more values
than fit their offsets, so what is read is at most quadratic in the entry. It can be:
with all offsets on one octet string every value is a copy of it.
-/

namespace Pkm.Kacs

open Bytes Claims List

/-- Code units, octets and identifier bytes; a scalar is eight octets. -/
def ClaimValue.size : ClaimValue → ℕ
  | .int64 _ | .uint64 _ | .boolean _ => 8
  | .string s => (encodeUtf16 s).length
  | .sid bytes | .octet bytes => bytes.length
  | .composite _ => 0

def ClaimAttribute.size (claim : ClaimAttribute) : ℕ :=
  (encodeUtf16 claim.name).length + (claim.values.map ClaimValue.size).sum

theorem Claims.Carried.size_le {valueType : BitVec 16} {n : ℕ} {value : ClaimValue}
    (h : Carried valueType n value) : value.size ≤ n := by
  cases value with
  | int64 | uint64 | boolean => exact h.2
  | string | sid => exact h.2.2
  | octet => exact h.2
  | composite => exact h.elim

/-- **At most quadratic**, and at most as many times as large as there are values for 32 bits. -/
theorem size_le_of_parseClaimAttributeEntry {e : Bytes} {claim : ClaimAttribute}
    (h : parseClaimAttributeEntry e = .ok claim) :
    claim.size ≤ 2 ^ 32 * e.length ∧ 4 * claim.size ≤ e.length * e.length := by
  obtain ⟨-, hname, hvalues, hoffsets, hcount⟩ := of_parseClaimAttributeEntry h
  have hsum : (claim.values.map ClaimValue.size).sum ≤ claim.values.length * e.length := by
    have := sum_le_card_nsmul (claim.values.map ClaimValue.size) e.length (by
      simpa using fun value hvalue => (hvalues value hvalue).size_le)
    simpa using this
  constructor
  · calc claim.size ≤ (claim.values.length + 1) * e.length := by
          rw [ClaimAttribute.size, Nat.add_mul]
          omega
      _ ≤ 2 ^ 32 * e.length := Nat.mul_le_mul_right _ hcount
  · calc 4 * claim.size ≤ (16 + claim.values.length * 4) * e.length := by
          rw [ClaimAttribute.size]
          rw [Nat.add_mul, Nat.mul_right_comm]
          omega
      _ ≤ e.length * e.length := Nat.mul_le_mul_right _ hoffsets

/-! ## Shared bytes -/

/-- An octet claim of `m` values that all stand in the same `m` octets. The name is empty and
stands at the end. -/
def sharedEntry (m : ℕ) : Bytes :=
  entryHead (24 + 5 * m) claimTypeOctet 0 (List.replicate m (.ofNat 32 (16 + 4 * m))) ++
    (ofU32 (.ofNat 32 (20 + 4 * m)) ++ ((ofU32 (.ofNat 32 m) ++ List.replicate m 0) ++
      cstrBytes []))

def sharedClaim (m : ℕ) : ClaimAttribute :=
  ⟨[], claimTypeOctet, 0, List.replicate m (.octet (List.replicate m 0))⟩

theorem length_sharedEntry (m : ℕ) : (sharedEntry m).length = 26 + 5 * m := by
  simp [sharedEntry, cstrBytes, encodeUtf16, length_entryHead]
  omega

theorem size_sharedClaim (m : ℕ) : (sharedClaim m).size = m * m := by
  simp [ClaimAttribute.size, sharedClaim, ClaimValue.size, encodeUtf16]

/-- **The same octets are read once for every offset.** -/
theorem parse_sharedEntry {m : ℕ} (h : 26 + 5 * m < 2 ^ 32) :
    parseClaimAttributeEntry (sharedEntry m) = .ok (sharedClaim m) := by
  have hlen := length_sharedEntry m
  have hword : ∀ n, n ≤ 26 + 5 * m → (BitVec.ofNat 32 n).toNat = n := fun n hn => by
    rw [BitVec.toNat_ofNat, Nat.mod_eq_of_lt (by omega)]
  have hself := Has.self (sharedEntry m)
  have hslot := hself.right
  have hoctet := hslot.right
  have hname := hoctet.right
  have hdata := hoctet.left.right
  simp only [length_entryHead, length_append, length_ofU32, length_replicate]
    at hslot hoctet hname hdata
  have hvalue : parseClaimValue (sharedEntry m) claimTypeOctet (16 + 4 * m) =
      .ok (.octet (List.replicate m 0)) := by
    have hplace : readU32 (sharedEntry m) (16 + 4 * m) = .ok (.ofNat 32 (20 + 4 * m)) :=
      readU32_of_has (by convert hslot.left using 1; omega)
    have hlength : readU32 (sharedEntry m) (20 + 4 * m) = .ok (.ofNat 32 m) :=
      readU32_of_has (by convert hoctet.left.left using 1; omega)
    have hat : (sharedEntry m).Has (24 + 4 * m) (List.replicate m 0) := by
      convert hdata using 1
      omega
    have hread := readSlice_of_has hat (by rw [length_replicate]; omega)
    rw [length_replicate] at hread
    rw [parseClaimValue, if_neg (by decide), if_neg (by decide), if_neg (by decide),
      if_neg (by decide), if_neg (by decide), hplace, Outcome.ok_bind,
      hword _ (by omega), hlength, Outcome.ok_bind, hword _ (by omega),
      show 20 + 4 * m + 4 = 24 + 4 * m by omega, hread]
    rfl
  refine parseClaimAttributeEntry_of_has (by omega) hself.left ⟨by decide, rfl⟩ ?_ ?_
  · convert hname using 1
    omega
  · refine forall₂_iff_get.mpr ⟨by simp, fun i _ _ => ?_⟩
    simp only [get_eq_getElem, getElem_replicate, hword _ (by omega : 16 + 4 * m ≤ _)]
    exact hvalue

/-- **Claim parsing in space.** There is a constant that bounds the expansion, since the values are
counted in 32 bits. Below it the expansion is quadratic: what is read from an entry of `n` bytes is
at most `n * n / 4`, and for every `m` whose offsets fit their 32 bits there is an entry of
`5 * m + 26` bytes from which `m * m` octets are read. -/
theorem claim_parsing_space :
    (∃ k, ∀ e claim, parseClaimAttributeEntry e = .ok claim → claim.size ≤ k * e.length) ∧
    (∀ e claim, parseClaimAttributeEntry e = .ok claim → 4 * claim.size ≤ e.length * e.length) ∧
    ∀ m, 26 + 5 * m < 2 ^ 32 → ∃ e claim, parseClaimAttributeEntry e = .ok claim ∧
      e.length = 26 + 5 * m ∧ claim.size = m * m :=
  ⟨⟨2 ^ 32, fun _ _ h => (size_le_of_parseClaimAttributeEntry h).1⟩,
    fun _ _ h => (size_le_of_parseClaimAttributeEntry h).2, fun m hm =>
      ⟨_, _, parse_sharedEntry hm, length_sharedEntry m, size_sharedClaim m⟩⟩

/-- From 36 bytes two values of two octets each, which are the same octets. -/
theorem claim_parsing_space_sample :
    parseClaimAttributeEntry (sharedEntry 2) = .ok (sharedClaim 2) ∧
      4 * (sharedClaim 2).size ≤ 36 * 36 := by
  have h := parse_sharedEntry (m := 2) (by decide)
  exact ⟨h, claim_parsing_space.2.1 _ _ h⟩

end Pkm.Kacs
