import Pkm.Kacs.Helpers.ClaimRead
import Pkm.Kacs.Model.ClaimQuery
/-!
# What is written of a claim is read back

The writer keeps two cursors: where the slots of the values stand, and where what
they refer to. Each is the length of what was written before, so that the offsets it
writes lead the reader to the slots and from there to the values.
-/

namespace Pkm.Kacs

open Bytes Claims List Outcome

/-! ## Writing into a buffer with room -/

namespace QueryWriter

/-- The writer with some more bytes written. -/
def push (w : QueryWriter) (chunk : Bytes) : QueryWriter := { w with out := w.out ++ chunk }

/-- A step appends these bytes wherever they fit. The writer may be part of a larger state. -/
def Writes {σ τ : Type} (f : σ → SysResult τ) (start : QueryWriter → σ) (stop : QueryWriter → τ)
    (chunk : Bytes) : Prop :=
  ∀ w : QueryWriter, w.out.length + chunk.length ≤ w.outLen →
    f (start w) = .ok (stop (w.push chunk))

theorem push_nil (w : QueryWriter) : w.push [] = w := by
  simp [push]

variable {chunk : Bytes} {σ τ : Type}

theorem writeBytes_eq {w : QueryWriter} (h : w.out.length + chunk.length ≤ w.outLen) :
    w.writeBytes chunk = .ok (w.push chunk) :=
  if_neg (Nat.not_lt.mpr h)

theorem writes_bytes (chunk : Bytes) : Writes (·.writeBytes chunk) id id chunk := fun _ h =>
  writeBytes_eq h

variable {f : σ → SysResult τ} {start : QueryWriter → σ}

theorem Writes.bind {υ : Type} {g : τ → SysResult υ} {middle : QueryWriter → τ}
    {stop : QueryWriter → υ} {a b : Bytes} (hf : Writes f start middle a)
    (hg : Writes g middle stop b) : Writes (fun s => f s >>= g) start stop (a ++ b) := by
  intro w hw
  rw [length_append] at hw
  have hroom : (w.push a).out.length + b.length ≤ w.outLen := by
    rw [push, length_append]
    omega
  have hpush : (w.push a).push b = w.push (a ++ b) := by simp [push]
  beta_reduce
  rw [hf w (by omega), ok_bind, hg _ hroom, hpush]

/-- The writer of a larger state, alone. -/
theorem Writes.of_writer {stop : QueryWriter → τ}
    (h : Writes (fun w => f (start w)) id stop chunk) : Writes f start stop chunk := h

theorem writes_foldlM {α : Type} {step : QueryWriter → α → SysResult QueryWriter}
    {chunk : α → Bytes} {l : List α} (h : ∀ x ∈ l, Writes (step · x) id id (chunk x)) :
    Writes (l.foldlM step) id id (l.flatMap chunk) := by
  induction l with
  | nil => exact fun w _ => by rw [flatMap_nil, push_nil]; rfl
  | cons x l ih =>
    rw [forall_mem_cons] at h
    exact h.1.bind (ih h.2)

theorem writes_cstr (s : Str) : Writes (·.writeUtf16Cstr s) id id (cstrBytes s) :=
  (writes_foldlM fun u _ => writes_bytes (ofU16 u)).bind (writes_bytes (ofU16 0))

end QueryWriter

/-! ## The parts of an entry -/

/-- What a slot holds, when what it refers to stands at the cursor. -/
def slotBytes (cursor : ℕ) : ClaimValue → Bytes
  | .int64 x | .uint64 x | .boolean x => ofU64 x
  | _ => ofU32 (.ofNat 32 cursor)

def nestedBytes : ClaimValue → Bytes
  | .string s => cstrBytes s
  | .sid bytes => bytes
  | .octet bytes => ofU32 (.ofNat 32 bytes.length) ++ bytes
  | _ => []

def offsetsFrom (slot : ℕ) : ℕ → List ClaimValue → List (BitVec 32)
  | _, [] => []
  | pos, _ :: rest => .ofNat 32 pos :: offsetsFrom slot (pos + slot) rest

def slotsFrom : ℕ → List ClaimValue → Bytes
  | _, [] => []
  | cursor, value :: rest =>
    slotBytes cursor value ++ slotsFrom (cursor + (nestedBytes value).length) rest

section

variable {valueType : BitVec 16} {n slot : ℕ} {value : ClaimValue} {values : List ClaimValue}

theorem length_offsetsFrom (slot pos : ℕ) (values : List ClaimValue) :
    (offsetsFrom slot pos values).length = values.length := by
  induction values generalizing pos with
  | nil => rfl
  | cons value rest ih => rw [offsetsFrom, length_cons, ih, length_cons]

theorem Claims.Carried.nestedLen (h : Carried valueType n value) :
    claimValueNestedLen valueType value = .ok (nestedBytes value).length := by
  cases value with
  | string s =>
    rw [nestedBytes, length_cstrBytes]
    exact if_pos h.1
  | octet bytes =>
    rw [nestedBytes, length_append]
    exact if_pos h.1
  | sid => exact if_pos h.1
  | int64 | uint64 | boolean => exact if_pos h.1
  | composite => exact h.elim

theorem Claims.Carried.length_slotBytes (h : Carried valueType n value)
    (hslot : claimValueSlotLen valueType = .ok slot) (cursor : ℕ) :
    (slotBytes cursor value).length = slot := by
  cases value with
  | composite => exact h.elim
  | int64 | uint64 | boolean | string | sid | octet =>
    obtain ⟨rfl, -⟩ := h
    exact Except.ok.inj hslot

theorem length_slotsFrom (h : ∀ value ∈ values, Carried valueType n value)
    (hslot : claimValueSlotLen valueType = .ok slot) (cursor : ℕ) :
    (slotsFrom cursor values).length = values.length * slot := by
  induction values generalizing cursor with
  | nil => simp [slotsFrom]
  | cons value rest ih =>
    rw [forall_mem_cons] at h
    rw [slotsFrom, length_append, h.1.length_slotBytes hslot, ih h.2, length_cons,
      Nat.succ_mul, Nat.add_comm]

/-! ## The loops of the writer -/

open QueryWriter

theorem foldlM_total {step : ℕ → ClaimValue → SysResult ℕ} (size : ClaimValue → ℕ)
    (h : ∀ value ∈ values, ∀ len, step len value = .ok (len + size value)) (len : ℕ) :
    values.foldlM step len = .ok (len + (values.map size).sum) := by
  induction values generalizing len with
  | nil => rfl
  | cons value rest ih =>
    rw [forall_mem_cons] at h
    rw [foldlM_cons, h.1, ok_bind, ih h.2, map_cons, sum_cons, Nat.add_assoc]

theorem writes_offsets (hslot : claimValueSlotLen valueType = .ok slot) (pos : ℕ)
    (hpos : pos + values.length * slot ≤ u32Max) :
    Writes (values.foldlM (writeOffset valueType)) (pos, ·) (pos + values.length * slot, ·)
      ((offsetsFrom slot pos values).flatMap ofU32) := by
  induction values generalizing pos with
  | nil => exact fun w _ => by simp [offsetsFrom, push_nil]
  | cons value rest ih =>
    rw [length_cons, Nat.succ_mul] at hpos ⊢
    have hstep : Writes (writeOffset valueType · value) (pos, ·) (pos + slot, ·)
        (ofU32 (.ofNat 32 pos)) := fun w hw => by
      have hfits : ¬ pos > u32Max := by omega
      simp only [writeOffset, if_neg hfits, writeU32, writeBytes_eq hw, ok_bind, hslot]
    have hrest := ih (pos + slot) (by omega)
    rw [show pos + slot + rest.length * slot = pos + (rest.length * slot + slot) by omega] at hrest
    exact hstep.bind hrest

theorem writes_slots (h : ∀ value ∈ values, Carried valueType n value) (cursor : ℕ)
    (hcursor : cursor + (values.flatMap nestedBytes).length ≤ u32Max) :
    Writes (values.foldlM (writeSlot valueType)) (cursor, ·)
      (cursor + (values.flatMap nestedBytes).length, ·) (slotsFrom cursor values) := by
  induction values generalizing cursor with
  | nil => exact fun w _ => by simp [slotsFrom, push_nil]
  | cons value rest ih =>
    rw [forall_mem_cons] at h
    rw [flatMap_cons, length_append] at hcursor ⊢
    have hstep : Writes (writeSlot valueType · value) (cursor, ·)
        (cursor + (nestedBytes value).length, ·) (slotBytes cursor value) := fun w hw => by
      have hfits : ¬ cursor > u32Max := by omega
      simp only [writeSlot, h.1.nestedLen]
      cases value with
      | composite => exact h.1.elim
      | int64 x | uint64 x | boolean x =>
        have hwrite : w.writeU64 x = .ok (w.push (ofU64 x)) := writeBytes_eq hw
        simp only [hwrite]
        rfl
      | string | sid | octet =>
        have hwrite : w.writeU32 (.ofNat 32 cursor) = .ok (w.push (ofU32 (.ofNat 32 cursor))) :=
          writeBytes_eq hw
        simp only [if_neg hfits, hwrite]
        rfl
    have hrest := ih h.2 (cursor + (nestedBytes value).length) (by omega)
    rw [Nat.add_assoc] at hrest
    exact hstep.bind hrest

theorem writes_nested (h : ∀ value ∈ values, Carried valueType n value)
    (hlen : ∀ value ∈ values, (nestedBytes value).length ≤ u32Max) :
    Writes (values.foldlM (writeNested valueType)) id id (values.flatMap nestedBytes) := by
  refine writes_foldlM fun value hvalue w hw => ?_
  have hfits := hlen value hvalue
  simp only [writeNested, (h value hvalue).nestedLen]
  cases value with
  | composite => exact (h _ hvalue).elim
  | int64 | uint64 | boolean => exact congrArg Except.ok (push_nil w).symm
  | string s => exact writes_cstr s w hw
  | sid bytes => exact writes_bytes bytes w hw
  | octet bytes =>
    rw [nestedBytes, length_append] at hfits
    have hfits : ¬ bytes.length > u32Max := by omega
    simp only [if_neg hfits]
    exact (writes_bytes _).bind (writes_bytes bytes) w hw

/-! ## Reading the values -/

variable {cursor pos : ℕ} {e : Bytes}

/-- A value that stands in its slot and behind its cursor is read. -/
theorem Claims.Carried.parseClaimValue (hlt : e.length ≤ u32Max) (h : Carried valueType n value)
    (hslot : e.Has pos (slotBytes cursor value)) (hnested : e.Has cursor (nestedBytes value)) :
    parseClaimValue e valueType pos = .ok value := by
  have hcursor : nestedBytes value ≠ [] → (BitVec.ofNat 32 cursor).toNat = cursor := by
    intro hne
    have := hnested.le hne
    rw [BitVec.toNat_ofNat, Nat.mod_eq_of_lt (by rw [u32Max] at hlt; omega)]
  cases value with
  | composite => exact h.elim
  | int64 | uint64 | boolean =>
    obtain ⟨rfl, -⟩ := h
    simp only [Claims.parseClaimValue, readU64_of_has hslot]
    rfl
  | string s =>
    obtain ⟨rfl, htext, -⟩ := h
    simp only [Claims.parseClaimValue, readU32_of_has hslot, ok_bind,
      hcursor (by simp [nestedBytes, cstrBytes, ofU16]), readUtf16Cstr_of_has htext hnested]
    rfl
  | sid bytes =>
    obtain ⟨rfl, ⟨sid, rfl⟩, -⟩ := h
    have hne : sid.bytes ≠ [] := ne_nil_of_length_pos (Nat.lt_of_lt_of_le (by decide)
      sid.length_pos)
    obtain ⟨rest, hrest⟩ := bytesAt_of_has hnested hne
    have hprefix : Sid.parsePrefix (sid.bytes ++ rest) = .ok (sid, sid.bytes.length) :=
      Sid.parsePrefix_eq_ok.mpr ⟨rest, rfl, rfl⟩
    simp only [Claims.parseClaimValue, readU32_of_has hslot, ok_bind, hcursor hne, hrest,
      nestedBytes, hprefix]
    rfl
  | octet bytes =>
    obtain ⟨rfl, -⟩ := h
    have hle := hnested.le (cons_ne_nil _ _)
    rw [nestedBytes, length_append, length_ofU32] at hle
    have hread := readSlice_of_has hnested.right (by rw [length_ofU32]; omega)
    rw [length_ofU32] at hread
    have hlen : (BitVec.ofNat 32 bytes.length).toNat = bytes.length := by
      rw [BitVec.toNat_ofNat, Nat.mod_eq_of_lt (by rw [u32Max] at hlt; omega)]
    simp only [Claims.parseClaimValue, readU32_of_has hslot, ok_bind,
      hcursor (cons_ne_nil _ _), readU32_of_has hnested.left, hlen, hread]
    rfl

/-- **The offsets lead to the values.** -/
theorem forall₂_parseClaimValue (hlt : e.length ≤ u32Max)
    (h : ∀ value ∈ values, Carried valueType n value)
    (hslot : claimValueSlotLen valueType = .ok slot) (hslots : e.Has pos (slotsFrom cursor values))
    (hnested : e.Has cursor (values.flatMap nestedBytes)) :
    List.Forall₂ (fun offset value => parseClaimValue e valueType offset.toNat = .ok value)
      (offsetsFrom slot pos values) values := by
  induction values generalizing pos cursor with
  | nil => exact .nil
  | cons value rest ih =>
    rw [forall_mem_cons] at h
    refine .cons ?_ (ih h.2 ?_ hnested.right)
    · have hpos := hslots.left.le (by cases value <;> exact cons_ne_nil _ _)
      rw [BitVec.toNat_ofNat, Nat.mod_eq_of_lt (by rw [u32Max] at hlt; omega)]
      exact h.1.parseClaimValue hlt hslots.left hnested.left
    · have := hslots.right
      rwa [h.1.length_slotBytes hslot] at this

end

/-! ## Whole entries -/

def slotBase (claim : ClaimAttribute) : ℕ := 16 + claim.values.length * 4 + utf16CstrLen claim.name

def nestedBase (slot : ℕ) (claim : ClaimAttribute) : ℕ :=
  slotBase claim + claim.values.length * slot

/-- The entry of a claim whose slots have this length. -/
def entryBytes (slot : ℕ) (claim : ClaimAttribute) : Bytes :=
  entryHead (16 + claim.values.length * 4) claim.valueType claim.flags
    (offsetsFrom slot (slotBase claim) claim.values) ++
      (cstrBytes claim.name ++ (slotsFrom (nestedBase slot claim) claim.values ++
        claim.values.flatMap nestedBytes))

theorem exists_claimValueSlotLen {valueType : BitVec 16}
    (h : ¬ claimValueTypeSupported valueType = false) :
    ∃ slot, claimValueSlotLen valueType = .ok slot := by
  simp only [claimValueTypeSupported, Bool.not_eq_false, contains_iff_mem, mem_cons,
    not_mem_nil, or_false] at h
  rcases h with rfl | rfl | rfl | rfl | rfl | rfl <;> exact ⟨_, rfl⟩

section

open QueryWriter

variable {claim : ClaimAttribute} {n slot : ℕ}
  (hvalues : ∀ value ∈ claim.values, Carried claim.valueType n value)
  (hslot : claimValueSlotLen claim.valueType = .ok slot)

include hvalues hslot

theorem length_entryBytes : (entryBytes slot claim).length =
    nestedBase slot claim + (claim.values.flatMap nestedBytes).length := by
  rw [entryBytes, length_append, length_entryHead, length_offsetsFrom, length_append,
    length_append, length_slotsFrom hvalues hslot, length_cstrBytes, nestedBase, slotBase,
    utf16CstrLen]
  omega

/-- The length a query announces is that of the entry. -/
theorem of_claimEntryQueryLen {len : ℕ} (h : claimEntryQueryLen claim = .ok len) :
    (entryBytes slot claim).length = len ∧ len ≤ u32Max := by
  obtain ⟨-, h⟩ := of_guard h
  obtain ⟨total, htotal, h⟩ := of_bind h
  obtain ⟨hfits, h⟩ := of_guard h
  cases h
  have hstep : ∀ value ∈ claim.values, ∀ len, (do
      let slot ← claimValueSlotLen claim.valueType
      let nested ← claimValueNestedLen claim.valueType value
      (.ok (len + slot + nested) : SysResult ℕ)) =
        .ok (len + (slot + (nestedBytes value).length)) := fun value hvalue len => by
    simp only [hslot, (hvalues value hvalue).nestedLen, ok_bind, Nat.add_assoc]
  have hsum := Except.ok.inj (htotal.symm.trans (foldlM_total _ hstep _))
  rw [sum_map_add, map_const', sum_replicate_nat, ← length_flatMap] at hsum
  refine ⟨?_, Nat.not_lt.mp hfits⟩
  rw [length_entryBytes hvalues hslot, nestedBase, slotBase]
  omega

variable (hfits : (entryBytes slot claim).length ≤ u32Max)

include hfits

theorem writes_writeClaimParts : Writes
    (writeClaimParts claim (16 + claim.values.length * 4) (claim.values.length * slot)) id id
      (entryBytes slot claim) := by
  rw [length_entryBytes hvalues hslot] at hfits
  have hbase : nestedBase slot claim = slotBase claim + claim.values.length * slot := rfl
  have hnested : ∀ value ∈ claim.values, (nestedBytes value).length ≤ u32Max := by
    intro value hvalue
    have := (sublist_flatten_of_mem (mem_map_of_mem (f := nestedBytes) hvalue)).length_le
    rw [← flatMap_def] at this
    omega
  simp only [entryBytes, entryHead, length_offsetsFrom]
  refine (writes_bytes _).bind ((writes_bytes _).bind ((writes_bytes _).bind
    ((writes_bytes _).bind ((writes_bytes _).bind ?_))))
  refine Writes.bind (writes_offsets hslot (slotBase claim) (by omega)) (.of_writer ?_)
  refine (writes_cstr claim.name).bind ?_
  exact Writes.bind (writes_slots hvalues (nestedBase slot claim) hfits)
    (.of_writer (writes_nested hvalues hnested))

/-- **The writer writes the entry.** -/
theorem writes_writeClaimEntry (hsupported : ¬ claimValueTypeSupported claim.valueType = false) :
    Writes (writeClaimEntry claim) id id (entryBytes slot claim) := by
  intro w hw
  have htotal : claim.values.foldlM (fun total value => do
      let slot ← claimValueSlotLen claim.valueType
      let _ ← claimValueNestedLen claim.valueType value
      (.ok (total + slot) : SysResult ℕ)) 0 = .ok (claim.values.length * slot) := by
    rw [foldlM_total (fun _ => slot) (fun value hvalue len => by
      simp only [hslot, (hvalues value hvalue).nestedLen, ok_bind]) 0]
    simp
  have hle := hfits
  rw [length_entryBytes hvalues hslot, nestedBase, slotBase] at hle
  rw [writeClaimEntry]
  simp only [if_neg hsupported, htotal, ok_bind]
  rw [if_neg (by omega), if_neg (by omega)]
  exact writes_writeClaimParts hvalues hslot hfits w hw

/-- **The reader reads it back.** -/
theorem parse_entryBytes (htext : Text claim.name) :
    parseClaimAttributeEntry (entryBytes slot claim) = .ok claim := by
  have hself := Has.self (entryBytes slot claim)
  have hname := hself.right
  have hslots := hname.right
  have hnested := hslots.right
  rw [length_entryHead, length_offsetsFrom, Nat.zero_add] at hname hslots hnested
  rw [length_cstrBytes] at hslots hnested
  rw [length_slotsFrom hvalues hslot] at hnested
  exact parseClaimAttributeEntry_of_has (by rw [u32Max] at hfits; omega) hself.left htext
    hname.left (forall₂_parseClaimValue hfits hvalues hslot hslots.left hnested)

end

/-- **What is written of a claim is read back.** Of a claim that was read from an entry and for
which a length is found, exactly so many bytes are written to a buffer that has room for them, and
they are read as the same claim. -/
theorem claim_entry_roundtrip {bytes : Bytes} {claim : ClaimAttribute} {n : ℕ}
    (h : parseClaimAttributeEntry bytes = .ok claim) (hlen : claimEntryQueryLen claim = .ok n)
    (writer : QueryWriter) (hroom : writer.out.length + n ≤ writer.outLen) :
    ∃ entry, writeClaimEntry claim writer = .ok { writer with out := writer.out ++ entry } ∧
      entry.length = n ∧ parseClaimAttributeEntry entry = .ok claim := by
  obtain ⟨htext, -, hvalues, -⟩ := of_parseClaimAttributeEntry h
  have hsupported := (of_guard hlen).1
  obtain ⟨slot, hslot⟩ := exists_claimValueSlotLen hsupported
  obtain ⟨rfl, hfits⟩ := of_claimEntryQueryLen hvalues hslot hlen
  exact ⟨_, writes_writeClaimEntry hvalues hslot hfits hsupported writer hroom, rfl,
    parse_entryBytes hvalues hslot hfits htext⟩

/-- The claim `a` with the one string `b` takes 32 bytes. -/
theorem string_claim_roundtrip :
    ∃ entry, writeClaimEntry ⟨['a'], claimTypeString, 0, [.string ['b']]⟩ ⟨40, []⟩ =
        .ok ⟨40, entry⟩ ∧ entry.length = 32 ∧
      parseClaimAttributeEntry entry = .ok ⟨['a'], claimTypeString, 0, [.string ['b']]⟩ := by
  have hread : parseClaimAttributeEntry ([20, 0, 0, 0, 3, 0, 0, 0, 0, 0, 0, 0, 1, 0, 0, 0, 24, 0,
      0, 0, 97, 0, 0, 0, 28, 0, 0, 0, 98, 0, 0, 0]) =
      .ok ⟨['a'], claimTypeString, 0, [.string ['b']]⟩ := rfl
  exact claim_entry_roundtrip hread rfl ⟨40, []⟩ (by decide)

/-! ## What the validator accepts -/

/-- **The scan of a string** accepts what decodes. A surrogate still to be paired stands before the
units to come. -/
theorem validateUtf16Units_iff (bytes : Bytes) (pending : Option (BitVec 16))
    (hp : ∀ u ∈ pending, isHighSurrogate u = true) :
    validateUtf16Units bytes pending.isSome = .ok () ↔
      ∃ units, utf16Units bytes = .ok units ∧ (decodeUtf16 (pending.toList ++ units)).isSome := by
  fun_induction utf16Units bytes generalizing pending with
  | case1 b₀ b₁ rest h0 =>
    cases pending with
    | none => simp [validateUtf16Units, h0, decodeUtf16]
    | some u => simp [validateUtf16Units, h0, decodeUtf16, hp u rfl]
  | case2 b₀ b₁ rest h0 ih =>
    have hnone := ih none (by simp)
    have hsome := ih (some (leU16 b₀ b₁))
    simp only [validateUtf16Units, if_neg h0, bind_eq_ok, Except.ok.injEq]
    cases hhigh : isHighSurrogate (leU16 b₀ b₁) with
    | true =>
      have hlow : isLowSurrogate (leU16 b₀ b₁) = false := by
        simp [isHighSurrogate, isLowSurrogate] at hhigh ⊢
        bv_omega
      cases pending with
      | none => simpa using hsome (by simpa using hhigh)
      | some u => simp [decodeUtf16, hp u rfl, hlow]
    | false =>
      have hdecode : ∀ units, (decodeUtf16 (leU16 b₀ b₁ :: units)).isSome =
          (!isLowSurrogate (leU16 b₀ b₁) && (decodeUtf16 units).isSome) := by
        intro units
        rw [decodeUtf16.eq_def]
        cases hlow : isLowSurrogate (leU16 b₀ b₁) <;> simp [hhigh, hlow]
      cases hlow : isLowSurrogate (leU16 b₀ b₁) with
      | true =>
        cases pending with
        | none => simp [hdecode, hlow]
        | some u => simpa [decodeUtf16, hp u rfl, hlow] using hnone
      | false =>
        cases pending with
        | none => simpa [hdecode, hlow] using hnone
        | some u => simp [decodeUtf16, hp u rfl, hlow]
  | case3 bytes h =>
    rcases bytes with _ | ⟨b₀, _ | ⟨b₁, rest⟩⟩
    · simp [validateUtf16Units]
    · simp [validateUtf16Units]
    · exact absurd rfl (h _ _ _)

theorem validateUtf16Cstr_together (bytes : Bytes) (offset : ℕ) :
    Together (validateUtf16Cstr bytes offset) (readUtf16Cstr bytes offset) := by
  refine .rest _ fun input => ?_
  have h : validateUtf16Units input false = .ok () ↔ _ :=
    validateUtf16Units_iff input none (by simp)
  rcases hu : utf16Units input with e | units
  · simp [Together, Unique.exists_iff, h, hu]
  · cases hd : decodeUtf16 units <;> simp [Together, Unique.exists_iff, h, hu, hd]

theorem validateClaimValue_together (bytes : Bytes) (valueType : BitVec 16) (offset : ℕ) :
    Together (validateClaimValue bytes valueType offset)
      (parseClaimValue bytes valueType offset) := by
  have hdone : ∀ value,
      Together (.ok () : KacsResult Unit) (.ok value : KacsResult ClaimValue) := by
    simp [Together]
  have hread : ∀ f : BitVec 64 → ClaimValue, Together
      (do let _ ← readU64 bytes offset; .ok () : KacsResult Unit)
      (do .ok (f (← readU64 bytes offset)) : KacsResult ClaimValue) := fun f =>
    .rest _ fun _ => hdone _
  unfold validateClaimValue parseClaimValue
  by_cases h₁ : valueType = claimTypeInt64
  · rw [if_pos (.inl h₁), if_pos h₁]
    exact hread _
  by_cases h₂ : valueType = claimTypeUInt64
  · rw [if_pos (.inr (.inl h₂)), if_neg h₁, if_pos h₂]
    exact hread _
  by_cases h₃ : valueType = claimTypeBoolean
  · rw [if_pos (.inr (.inr h₃)), if_neg h₁, if_neg h₂, if_pos h₃]
    exact hread _
  rw [if_neg (by simp [h₁, h₂, h₃]), if_neg h₁, if_neg h₂, if_neg h₃]
  refine .ite (.rest _ fun o => ?_) (.ite ?_ (.ite ?_ (by simp [Together])))
  · rw [← bind_ok (validateUtf16Cstr _ _)]
    exact (validateUtf16Cstr_together _ _).bind fun _ _ => hdone _
  all_goals exact .rest _ fun _ => .rest _ fun _ => .rest _ fun _ => hdone _

/-- **The validator of a claim entry accepts what the parser does**: the flags, which the parser
alone reads, lie in the header. -/
theorem validateClaimAttributeEntry_iff (bytes : Bytes) :
    (∃ u, validateClaimAttributeEntry bytes = .ok u) ↔
      ∃ claim, parseClaimAttributeEntry bytes = .ok claim := by
  unfold validateClaimAttributeEntry parseClaimAttributeEntry
  split
  · simp
  · rename_i hlen
    have hflags : readU32 bytes 8 = .ok (u32At (slice bytes 8 12) 0) := by
      rw [readU32, readSlice, if_neg (by omega), ok_bind]
    simp only [hflags, ok_bind]
    refine Together.rest _ fun _ => .rest _ fun _ => .rest _ fun _ =>
      .ite (by simp [Together]) ((validateUtf16Cstr_together _ _).bind fun _ _ => ?_)
    rw [← bind_ok (List.forM _ _)]
    refine Iff.symm ((Together.loop (fun _ => ?_) _).bind fun _ _ => by simp [Together])
    exact .rest _ fun _ => (validateClaimValue_together _ _ _).symm

end Pkm.Kacs
