import Pkm.Kacs.Model.Claims
import Pkm.Lib.Scan
/-!
# Reading a claim entry

What the reader finds where the parts of an entry stand, and what it says of a value
that it read it: the text of a claim is valid UTF-16 without a zero unit, and its
identifiers are well formed. Such a text is encoded as it was read.
-/

namespace Pkm.Kacs

open Bytes List Outcome

variable {e : Bytes} {offsets : List (BitVec 32)}

/-! ## UTF-16 -/

theorem toNat_ofNat_char {n : ℕ} (h : n < 0xD800 ∨ 0xDFFF < n ∧ n < 0x110000) :
    (Char.ofNat n).toNat = n := by
  have hvalid : n.isValidChar := h
  rw [Char.ofNat, dif_pos hvalid]
  rfl

/-- **Decoding is undone by encoding.** -/
theorem encodeUtf16_of_decodeUtf16 {units : List (BitVec 16)} {s : Str}
    (h : decodeUtf16 units = some s) : encodeUtf16 s = units := by
  fun_induction decodeUtf16 units generalizing s with
  | case1 =>
    cases h
    rfl
  | case2 u hu v rest hv ih =>
    -- a surrogate pair
    obtain ⟨tail, htail, rfl⟩ := Option.map_eq_some_iff.mp h
    simp only [isHighSurrogate, isLowSurrogate, Bool.and_eq_true, decide_eq_true_eq,
      BitVec.le_def, BitVec.toNat_ofNat] at hu hv
    have hchar := toNat_ofNat_char
      (n := 0x10000 + (u.toNat - 0xD800) * 0x400 + (v.toNat - 0xDC00)) (by omega)
    rw [encodeUtf16, flatMap_cons, hchar, if_neg (by omega), ← encodeUtf16, ih htail]
    have hhigh : BitVec.ofNat 16 (0xD800 +
        (0x10000 + (u.toNat - 0xD800) * 0x400 + (v.toNat - 0xDC00) - 0x10000) / 0x400) = u := by
      apply BitVec.eq_of_toNat_eq
      rw [BitVec.toNat_ofNat]
      omega
    have hlow : BitVec.ofNat 16 (0xDC00 +
        (0x10000 + (u.toNat - 0xD800) * 0x400 + (v.toNat - 0xDC00) - 0x10000) % 0x400) = v := by
      apply BitVec.eq_of_toNat_eq
      rw [BitVec.toNat_ofNat]
      omega
    rw [hhigh, hlow]
    rfl
  | case3 | case4 | case5 => cases h
  | case6 u rest hu hv ih =>
    obtain ⟨tail, htail, rfl⟩ := Option.map_eq_some_iff.mp h
    have hlt := u.isLt
    simp only [isHighSurrogate, isLowSurrogate, Bool.and_eq_true, decide_eq_true_eq,
      BitVec.le_def, BitVec.toNat_ofNat] at hu hv
    rw [encodeUtf16, flatMap_cons, toNat_ofNat_char (by omega), if_pos hlt,
      BitVec.ofNat_toNat, ← encodeUtf16, ih htail]
    rfl

/-- A text the reader can give back: code units without a zero that decode to it. -/
def Text (s : Str) : Prop := 0#16 ∉ encodeUtf16 s ∧ decodeUtf16 (encodeUtf16 s) = some s

/-- A text as it stands in an entry. -/
def cstrBytes (s : Str) : Bytes := (encodeUtf16 s).flatMap ofU16 ++ ofU16 0

theorem length_cstrBytes (s : Str) : (cstrBytes s).length = 2 + 2 * (encodeUtf16 s).length := by
  rw [cstrBytes, length_append, length_flatMap]
  simp only [length_ofU16, map_const', sum_replicate_nat]
  omega

namespace Claims

variable {units : List (BitVec 16)}

theorem utf16Units_append (h : 0#16 ∉ units) (rest : Bytes) :
    utf16Units (units.flatMap ofU16 ++ ofU16 0 ++ rest) = .ok units := by
  induction units with
  | nil => rfl
  | cons u units ih =>
    rw [mem_cons, not_or] at h
    have hu : leU16 (BitVec.ofNat 8 u.toNat) (BitVec.ofNat 8 (u.toNat / 256)) = u :=
      u16At_ofU16 u []
    simp only [flatMap_cons, ofU16, cons_append, nil_append, utf16Units, hu, if_neg (Ne.symm h.1)]
    have := ih h.2
    simp only [ofU16] at this ⊢
    rw [this]
    rfl

theorem of_utf16Units {bytes : Bytes} (h : utf16Units bytes = .ok units) :
    0#16 ∉ units ∧ 2 * units.length ≤ bytes.length := by
  fun_induction utf16Units bytes generalizing units with
  | case1 b₀ b₁ rest hzero =>
    cases h
    exact ⟨not_mem_nil, Nat.zero_le _⟩
  | case2 b₀ b₁ rest hzero ih =>
    obtain ⟨tail, htail, h⟩ := of_bind h
    cases h
    obtain ⟨hmem, hlen⟩ := ih htail
    refine ⟨by simpa [hmem] using Ne.symm hzero, ?_⟩
    simp only [length_cons]
    omega
  | case3 => cases h

/-! ## What stands at an offset -/

variable {e : Bytes} {offset : ℕ} {x : BitVec 64} {chunk : Bytes}

theorem readSlice_of_has (h : e.Has offset chunk) (hle : offset + chunk.length ≤ e.length) :
    readSlice e offset chunk.length = .ok chunk := by
  rw [readSlice, if_neg (Nat.not_lt.mpr hle), h.slice_eq]

theorem readU16_of_has {x : BitVec 16} (h : e.Has offset (ofU16 x)) :
    readU16 e offset = .ok x := by
  have hread := readSlice_of_has h (h.le (cons_ne_nil _ _))
  rw [length_ofU16] at hread
  have hword : u16At (ofU16 x) 0 = x := u16At_ofU16 x []
  rw [readU16, hread, ok_bind, hword]

theorem readU32_of_has {x : BitVec 32} (h : e.Has offset (ofU32 x)) :
    readU32 e offset = .ok x := by
  have hread := readSlice_of_has h (h.le (cons_ne_nil _ _))
  rw [length_ofU32] at hread
  have hword : u32At (ofU32 x) 0 = x := u32At_ofU32 x []
  rw [readU32, hread, ok_bind, hword]

theorem readU64_of_has (h : e.Has offset (ofU64 x)) : readU64 e offset = .ok x := by
  have hread := readSlice_of_has h (h.le (cons_ne_nil _ _))
  rw [length_ofU64] at hread
  have hword : u64At (ofU64 x) 0 = x := by
    have hlow := u32At_ofU32 (x.extractLsb' 0 32) (ofU32 (x.extractLsb' 32 32))
    have hhigh : u32At (ofU32 (x.extractLsb' 0 32) ++ ofU32 (x.extractLsb' 32 32)) 4 =
        x.extractLsb' 32 32 := by
      exact u32At_append_ofU32 rfl
    rw [u64At, ofU64, hlow, hhigh, BitVec.extractLsb'_append_extractLsb'_eq_extractLsb' (by rfl)]
    exact BitVec.extractLsb'_eq_self
  rw [readU64, hread, ok_bind, hword]

theorem bytesAt_of_has (h : e.Has offset chunk) (hne : chunk ≠ []) :
    ∃ rest, bytesAt e offset = .ok (chunk ++ rest) := by
  have hle := h.le hne
  have hpos := length_pos_iff.mpr hne
  obtain ⟨rest, hrest⟩ := h
  exact ⟨rest, by rw [bytesAt, if_neg (by omega), hrest]⟩

theorem readUtf16Cstr_of_has {s : Str} (hs : Text s) (h : e.Has offset (cstrBytes s)) :
    readUtf16Cstr e offset = .ok s := by
  obtain ⟨rest, hrest⟩ := bytesAt_of_has h (by simp [cstrBytes, ofU16])
  rw [readUtf16Cstr, hrest, ok_bind, cstrBytes, utf16Units_append hs.1, ok_bind, hs.2]

theorem of_readUtf16Cstr {s : Str} (h : readUtf16Cstr e offset = .ok s) :
    Text s ∧ 2 * (encodeUtf16 s).length ≤ e.length := by
  obtain ⟨input, hat, hread⟩ := of_bind h
  obtain ⟨units, hunits, houtput⟩ := of_bind hread
  obtain ⟨-, hinput⟩ := of_guard hat
  cases hinput
  cases hdecode : decodeUtf16 units with
  | none =>
    rw [hdecode] at houtput
    cases houtput
  | some output =>
    rw [hdecode] at houtput
    cases houtput
    obtain ⟨hzero, hlen⟩ := of_utf16Units hunits
    rw [Text, encodeUtf16_of_decodeUtf16 hdecode]
    rw [length_drop] at hlen
    exact ⟨⟨hzero, hdecode⟩, by omega⟩

/-! ## Values -/

/-- What a value of a type can be that was read from `n` bytes. -/
def Carried (valueType : BitVec 16) (n : ℕ) : ClaimValue → Prop
  | .int64 _ => valueType = claimTypeInt64 ∧ 8 ≤ n
  | .uint64 _ => valueType = claimTypeUInt64 ∧ 8 ≤ n
  | .boolean _ => valueType = claimTypeBoolean ∧ 8 ≤ n
  | .string s => valueType = claimTypeString ∧ Text s ∧ (encodeUtf16 s).length ≤ n
  | .sid bytes => valueType = claimTypeSid ∧ (∃ sid : Sid, sid.bytes = bytes) ∧ bytes.length ≤ n
  | .octet bytes => valueType = claimTypeOctet ∧ bytes.length ≤ n
  | .composite _ => False

theorem of_readSlice {len : ℕ} (h : readSlice e offset len = .ok chunk) :
    chunk.length = len ∧ offset + len ≤ e.length := by
  obtain ⟨hle, h⟩ := of_guard h
  cases h
  rw [slice, length_take, length_drop]
  omega

theorem of_readU64 (h : readU64 e offset = .ok x) : 8 ≤ e.length := by
  obtain ⟨chunk, hchunk, -⟩ := of_bind h
  exact Nat.le_of_add_left_le (of_readSlice hchunk).2

theorem carried_of_parseClaimValue {valueType : BitVec 16} {value : ClaimValue}
    (h : parseClaimValue e valueType offset = .ok value) : Carried valueType e.length value := by
  unfold parseClaimValue at h
  split_ifs at h with hint huint hbool hstring hsid hoctet
  · obtain ⟨x, hx, h⟩ := of_bind h
    cases h
    exact ⟨hint, of_readU64 hx⟩
  · obtain ⟨x, hx, h⟩ := of_bind h
    cases h
    exact ⟨huint, of_readU64 hx⟩
  · obtain ⟨x, hx, h⟩ := of_bind h
    cases h
    exact ⟨hbool, of_readU64 hx⟩
  · obtain ⟨at', -, h⟩ := of_bind h
    obtain ⟨s, hs, h⟩ := of_bind h
    cases h
    obtain ⟨htext, hlen⟩ := of_readUtf16Cstr hs
    exact ⟨hstring, htext, by omega⟩
  · obtain ⟨at', -, h⟩ := of_bind h
    obtain ⟨input, hinput, h⟩ := of_bind h
    obtain ⟨⟨sid, n⟩, hprefix, h⟩ := of_bind h
    cases h
    obtain ⟨-, hinput⟩ := of_guard hinput
    obtain ⟨rest, hrest, -⟩ := Sid.parsePrefix_eq_ok.mp hprefix
    have hlen := congrArg List.length ((Except.ok.inj hinput).trans hrest)
    rw [length_drop, length_append] at hlen
    exact ⟨hsid, ⟨sid, rfl⟩, by omega⟩
  · obtain ⟨at', -, h⟩ := of_bind h
    obtain ⟨len, -, h⟩ := of_bind h
    obtain ⟨data, hdata, h⟩ := of_bind h
    cases h
    obtain ⟨hlen, hle⟩ := of_readSlice hdata
    exact ⟨hoctet, by omega⟩

end Claims

open Claims

/-! ## Entries -/

/-- **What the reader says of an entry** it accepts: the name is a text, the values are of the
type, their offsets stand in the entry, and their number in 32 bits. -/
theorem of_parseClaimAttributeEntry {claim : ClaimAttribute}
    (h : parseClaimAttributeEntry e = .ok claim) :
    Text claim.name ∧ 2 * (encodeUtf16 claim.name).length ≤ e.length ∧
      (∀ value ∈ claim.values, Carried claim.valueType e.length value) ∧
      16 + claim.values.length * 4 ≤ e.length ∧ claim.values.length < 2 ^ 32 := by
  obtain ⟨-, h⟩ := of_guard h
  obtain ⟨nameOffset, -, h⟩ := of_bind h
  obtain ⟨valueType, -, h⟩ := of_bind h
  obtain ⟨flags, -, h⟩ := of_bind h
  obtain ⟨valueCount, -, h⟩ := of_bind h
  obtain ⟨hcount, h⟩ := of_guard h
  obtain ⟨name, hname, h⟩ := of_bind h
  obtain ⟨values, hvalues, h⟩ := of_bind h
  cases h
  have hread := Scan.mapM_eq_ok_iff.mp hvalues
  obtain ⟨htext, hlen⟩ := of_readUtf16Cstr hname
  refine ⟨htext, hlen, fun value hvalue => ?_, ?_⟩
  · obtain ⟨index, rfl⟩ := get_of_mem hvalue
    have hindex := (List.forall₂_iff_get.mp hread).2 index
      (by rw [hread.length_eq]; exact index.2) index.2
    obtain ⟨offset, -, hvalue⟩ := of_bind hindex
    exact carried_of_parseClaimValue hvalue
  · rw [← hread.length_eq, length_range]
    exact ⟨by omega, valueCount.isLt⟩

theorem readU32_offsets {pos : ℕ} (h : e.Has pos (offsets.flatMap ofU32)) (i : ℕ)
    (hi : i < offsets.length) : readU32 e (pos + i * 4) = .ok (offsets.get ⟨i, hi⟩) := by
  induction offsets generalizing pos i with
  | nil => cases hi
  | cons offset rest ih =>
    cases i with
    | zero => exact readU32_of_has h.left
    | succ i =>
      have hstep := ih h.right i (Nat.lt_of_succ_lt_succ hi)
      rw [Nat.succ_mul, Nat.add_comm (i * 4), ← Nat.add_assoc]
      exact hstep

/-- The header of an entry and the offsets of its values. -/
def entryHead (nameOffset : ℕ) (valueType : BitVec 16) (flags : BitVec 32)
    (offsets : List (BitVec 32)) : Bytes :=
  ofU32 (.ofNat 32 nameOffset) ++ (ofU16 valueType ++ (ofU16 0 ++ (ofU32 flags ++
    (ofU32 (.ofNat 32 offsets.length) ++ offsets.flatMap ofU32))))

theorem length_entryHead (nameOffset : ℕ) (valueType : BitVec 16) (flags : BitVec 32)
    (offsets : List (BitVec 32)) :
    (entryHead nameOffset valueType flags offsets).length = 16 + offsets.length * 4 := by
  simp only [entryHead, length_append, length_ofU32, length_ofU16, length_flatMap,
    map_const', sum_replicate_nat]
  omega

/-- **An entry is read back** when its parts stand where the offsets say. -/
theorem parseClaimAttributeEntry_of_has {nameOffset : ℕ} {valueType : BitVec 16}
    {flags : BitVec 32} {name : Str} {values : List ClaimValue} (hlt : e.length < 2 ^ 32)
    (hheader : e.Has 0 (entryHead nameOffset valueType flags offsets)) (htext : Text name)
    (hname : e.Has nameOffset (cstrBytes name)) (hvalues : List.Forall₂ (fun offset value =>
      parseClaimValue e valueType offset.toNat = .ok value) offsets values) :
    parseClaimAttributeEntry e = .ok ⟨name, valueType, flags, values⟩ := by
  have hend := hheader.le (cons_ne_nil _ _)
  have hplace := hname.le (by simp [cstrBytes, ofU16])
  rw [length_entryHead] at hend
  have htype := hheader.right
  have hzero := htype.right
  have hflags := hzero.right
  have hcountAt := hflags.right
  have hoffsets := hcountAt.right
  simp only [length_ofU32, length_ofU16, Nat.reduceAdd] at htype hflags hcountAt hoffsets
  have hlen := hvalues.length_eq
  have hcount : (BitVec.ofNat 32 offsets.length).toNat = offsets.length := by
    rw [BitVec.toNat_ofNat, Nat.mod_eq_of_lt (by omega)]
  have hoffset : (BitVec.ofNat 32 nameOffset).toNat = nameOffset := by
    rw [BitVec.toNat_ofNat, Nat.mod_eq_of_lt (by omega)]
  have hread : (List.range offsets.length).mapM (fun index => do
      let offset ← readU32 e (16 + index * 4)
      parseClaimValue e valueType offset.toNat) = .ok values := by
    rw [Scan.mapM_eq_ok_iff, List.forall₂_iff_get]
    refine ⟨by rw [length_range, hlen], fun i hi hi' => ?_⟩
    rw [get_eq_getElem, getElem_range, readU32_offsets hoffsets i (hlen ▸ hi')]
    exact (List.forall₂_iff_get.mp hvalues).2 i _ hi'
  rw [parseClaimAttributeEntry, if_neg (by omega), readU32_of_has hheader.left,
    readU16_of_has htype.left, readU32_of_has hflags.left, readU32_of_has hcountAt.left]
  simp only [ok_bind]
  rw [hcount, if_neg (by omega), hoffset, readUtf16Cstr_of_has htext hname, hread]
  rfl

end Pkm.Kacs
