import Pkm.Kacs.Helpers.Assemble
import Pkm.Kacs.Model.Caap
/-!
# Written lists and the descriptor of a rule

A list written from parsed entries is a parsed list again, as long as its size
fits the header. So the SACL of a rule's descriptor is the descriptor's own
without its scoped-policy entries, and the rule's descriptor has the owner, the
group and the labels of the descriptor it was made from.
-/

namespace Pkm.Kacs

open Bytes List Outcome SecurityDescriptor

variable {bytes dacl : Bytes} {base sd : SecurityDescriptor}

namespace Acl

theorem flatten_map_bytes (entries : List Ace) :
    (entries.map Ace.bytes).flatten = entryBytes entries := rfl

/-- Every entry takes four bytes at least. -/
theorem length_entries_le (entries : List Ace) :
    4 * entries.length ≤ (entryBytes entries).length := by
  induction entries with
  | nil => simp
  | cons a rest ih =>
    have := a.four_le_length
    rw [entryBytes_cons, length_append, length_cons]
    omega

theorem length_aclHeaderAndEntries (revision sbz1 : Byte) (sbz2 : BitVec 16)
    (aces : List Bytes) :
    (aclHeaderAndEntries revision sbz1 sbz2 aces).length = 8 + aces.flatten.length := by
  simp [aclHeaderAndEntries]
  omega

/-- The list of some entries, if they fit. -/
def build (revision sbz1 : Byte) (sbz2 : BitVec 16) (entries : List Ace)
    (hfit : 8 + (entryBytes entries).length ≤ 65535) : Acl where
  bytes := aclHeaderAndEntries revision sbz1 sbz2 (entries.map Ace.bytes)
  revision := revision
  sbz1 := sbz1
  size := BitVec.ofNat 16 (8 + (entryBytes entries).length)
  aceCount := BitVec.ofNat 16 entries.length
  sbz2 := sbz2
  entries := entries
  wf := by
    have hcount := length_entries_le entries
    have hsize : (BitVec.ofNat 16 (8 + (entryBytes entries).length)).toNat =
        8 + (entryBytes entries).length := by
      rw [BitVec.toNat_ofNat, Nat.mod_eq_of_lt (by omega)]
    have hnum : (BitVec.ofNat 16 entries.length).toNat = entries.length := by
      rw [BitVec.toNat_ofNat, Nat.mod_eq_of_lt (by omega)]
    have hbytes : aclHeaderAndEntries revision sbz1 sbz2 (entries.map Ace.bytes) =
        [revision, sbz1] ++ (ofU16 (BitVec.ofNat 16 (8 + (entryBytes entries).length)) ++
          (ofU16 (BitVec.ofNat 16 entries.length) ++ (ofU16 sbz2 ++ entryBytes entries))) := by
      simp only [aclHeaderAndEntries, flatten_map_bytes, length_map, append_assoc]
    refine ⟨?_, ?_, ?_, ?_, ?_, ?_, ?_, ?_, ?_⟩
    · rw [length_aclHeaderAndEntries, flatten_map_bytes, hsize]
    · rw [hsize]
      exact Nat.le_add_right _ _
    · rfl
    · rfl
    · rw [hbytes]
      exact u16At_append_ofU16 rfl
    · rw [hbytes, ← append_assoc]
      exact u16At_append_ofU16 rfl
    · rw [hbytes, ← append_assoc, ← append_assoc]
      exact u16At_append_ofU16 rfl
    · exact hnum.symm
    · rw [hbytes]
      rfl

end Acl

theorem Acl.eight_add_length_entryBytes (a : Acl) :
    8 + (Acl.entryBytes a.entries).length = a.bytes.length := by
  obtain ⟨hlen, h8, -, -, -, -, -, -, hdrop⟩ := a.wf
  have h8' : Acl.headerSize = 8 := rfl
  have := congrArg List.length hdrop
  rw [length_drop] at this
  omega

/-- Whether an entry survives in the descriptor of a rule. -/
def keptInRule (ace : Ace) : Bool := decide (ace.aceType ≠ systemScopedPolicyIdAceType)

/-- **The SACL of a rule's descriptor** is the descriptor's own without scoped-policy entries. -/
theorem stripScopedPolicyAces_eq_ok {sacl : Option Acl} {bytes : Option Bytes}
    (h : stripScopedPolicyAces sacl = .ok bytes) :
    ∃ stripped : Option Acl, bytes = stripped.map Acl.bytes ∧
      stripped.map Acl.entries = sacl.map fun acl => acl.entries.filter keptInRule := by
  cases sacl with
  | none =>
    cases h
    exact ⟨none, rfl, rfl⟩
  | some acl =>
    obtain ⟨revision, -, h⟩ := of_bind h
    cases h
    have hfit : 8 + (Acl.entryBytes (acl.entries.filter keptInRule)).length ≤ 65535 := by
      have h₁ : (Acl.entryBytes (acl.entries.filter keptInRule)).length ≤
          (Acl.entryBytes acl.entries).length :=
        (filter_sublist.map Ace.bytes).flatten.length_le
      have h₂ := acl.eight_add_length_entryBytes
      have h₃ := acl.length_le
      omega
    exact ⟨some (Acl.build revision acl.sbz1 acl.sbz2 (acl.entries.filter keptInRule) hfit),
      rfl, rfl⟩

/-! ## The descriptor of a rule -/

/-- The control word of a rule's descriptor. -/
def ruleControl (base : BitVec 16) (saclPresent : Bool) : BitVec 16 :=
  let control := base ||| seSelfRelative ||| seDaclPresent
  if saclPresent then control ||| seSaclPresent else control &&& ~~~seSaclPresent

/-- The control word, bit by bit. -/
theorem bit_ruleControl (base : BitVec 16) (saclPresent : Bool) (i : Fin 16) :
    Bits.bit (ruleControl base saclPresent) i =
      if i = 15 then true else if i = 2 then true else if i = 4 then saclPresent
      else Bits.bit base i := by
  cases saclPresent <;>
    simp only [ruleControl, Bool.false_eq_true, if_false, if_true, Bits.bit_or, Bits.bit_and,
      Bits.bit_not, bit_seSelfRelative, bit_seDaclPresent, bit_seSaclPresent] <;>
    split_ifs <;> simp_all

/-- The control word announces the lists that are there. -/
theorem ruleControl_flags (base : BitVec 16) (saclPresent : Bool) :
    ruleControl base saclPresent &&& seSelfRelative ≠ 0#16 ∧
      ruleControl base saclPresent &&& seDaclPresent ≠ 0#16 ∧
      decide (ruleControl base saclPresent &&& seSaclPresent ≠ 0#16) = saclPresent := by
  simp only [Bits.and_flag_ne_zero_iff bit_seSelfRelative,
    Bits.and_flag_ne_zero_iff bit_seDaclPresent, Bits.and_flag_ne_zero_iff bit_seSaclPresent,
    bit_ruleControl]
  cases saclPresent <;> simp

/-- It is the descriptor's own, with a DACL announced. -/
theorem ruleControl_eq (base : SecurityDescriptor) :
    ruleControl base.control base.sacl.isSome = base.control ||| seDaclPresent := by
  obtain ⟨hself, hsacl, -⟩ := base.bit_control
  apply Bits.ext_bit
  intro i
  rw [bit_ruleControl, Bits.bit_or, bit_seDaclPresent]
  split_ifs <;> simp_all

/-- **What is written for a rule parses back**, whatever follows its DACL. -/
theorem parse_buildSyntheticSdBytes {acl : Acl} {tail : Bytes}
    (h : buildSyntheticSdBytes base (acl.bytes ++ tail) = .ok bytes) :
    ∃ sd, parse bytes = .ok sd ∧ sd.owner = base.owner ∧
      sd.group = base.group ∧ sd.resourceManagerControl = base.resourceManagerControl ∧
      sd.control = base.control ||| seDaclPresent ∧ sd.dacl = some acl ∧
      sd.sacl.map Acl.entries = base.sacl.map fun acl => acl.entries.filter keptInRule := by
  unfold buildSyntheticSdBytes at h
  cases howner : base.owner with
  | none => simp [howner] at h
  | some owner =>
    simp only [howner] at h
    obtain ⟨saclBytes, hsacl, h⟩ := of_bind h
    obtain ⟨stripped, rfl, hentries⟩ := stripScopedPolicyAces_eq_ok hsacl
    obtain ⟨hlen, h⟩ := of_guard h
    have hsome : stripped.isSome = base.sacl.isSome := by
      have := congrArg Option.isSome hentries
      rwa [Option.isSome_map, Option.isSome_map] at this
    have hcontrol : (if (stripped.map Acl.bytes).isSome then
          base.control ||| seSelfRelative ||| seDaclPresent ||| seSaclPresent
        else (base.control ||| seSelfRelative ||| seDaclPresent) &&& ~~~seSaclPresent) =
        base.control ||| seDaclPresent := by
      rw [Option.isSome_map, hsome]
      exact ruleControl_eq base
    rw [hcontrol] at h
    obtain ⟨hself, hdaclBit, hsaclBit⟩ := ruleControl_flags base.control base.sacl.isSome
    rw [ruleControl_eq] at hself hdaclBit hsaclBit
    have hviews := parseViews_assemble base.resourceManagerControl
      (base.control ||| seDaclPresent) (some owner) base.group stripped (some acl) tail hself
      (hsaclBit.trans hsome.symm) (decide_eq_true hdaclBit) (by
        rw [length_assemble]
        exact Nat.not_lt.mp hlen)
    have hbytes := Except.ok.inj h
    simp only [Option.map_some] at hviews
    rw [hbytes] at hviews
    refine ⟨⟨bytes, _, _, _, _, _, hviews⟩, parse_eq_ok.mpr rfl, rfl, rfl, ?_,
      rfl, rfl, hentries⟩
    show byteAt bytes 1 = _
    rw [← hbytes]
    rfl

/-- The DACL of what was written and parses is one, up to what follows it. -/
theorem exists_acl_of_buildSyntheticSdBytes (hbuild : buildSyntheticSdBytes base dacl = .ok bytes)
    (hparse : parse bytes = .ok sd) :
    ∃ (acl : Acl) (tail : Bytes), dacl = acl.bytes ++ tail := by
  have hviews := parseViews_of_parse hparse
  unfold buildSyntheticSdBytes at hbuild
  cases howner : base.owner with
  | none => simp [howner] at hbuild
  | some owner =>
    simp only [howner] at hbuild
    obtain ⟨saclBytes, -, hbuild⟩ := of_bind hbuild
    obtain ⟨hlen, hbuild⟩ := of_guard hbuild
    obtain ⟨_, _, d, hl⟩ := laid_assemble base.resourceManagerControl
      (ruleControl base.control saclBytes.isSome) (some owner.bytes) (base.group.map Sid.bytes)
      saclBytes (some dacl)
    rw [show assemble _ (ruleControl _ _) _ _ _ _ = _ from Except.ok.inj hbuild] at hl
    obtain ⟨hcontrol, -, -, -, hfound⟩ := announced hviews
    rw [hcontrol, hl.control_eq, hl.dacl_eq] at hfound
    obtain ⟨acl, n, hp⟩ := hfound (ruleControl_flags base.control saclBytes.isSome).2.1
    obtain ⟨tail, htail, -⟩ := Acl.parsePrefix_eq_ok.mp hp
    have hd : (offsetField (some dacl) d).toNat = d := by
      have hmax : maxSecurityDescriptorBytes = 65535 := rfl
      have hg : _ = _ + owner.bytes.length := hl.groupAt_eq
      have hs := hl.saclAt_eq
      have hd := hl.daclAt_eq
      exact (BitVec.toNat_ofNat d 32).trans (Nat.mod_eq_of_lt (by omega))
    rw [hd] at htail
    have hlength := hl.length_eq
    have hdrop := List.IsPrefix.eq_of_length hl.dacl_has (by
      rw [length_drop, hlength, Nat.add_sub_cancel_left])
    exact ⟨acl, tail, hdrop.trans htail⟩

/-- The first entry of a type other than a scoped policy is the same in a rule's descriptor. -/
theorem firstOfType_filter (aceType : Byte) (h : aceType ≠ systemScopedPolicyIdAceType)
    (entries : List Ace) :
    firstOfType aceType (entries.filter keptInRule) = firstOfType aceType entries := by
  unfold firstOfType
  rw [find?_filter]
  congr 1
  funext ace
  unfold keptInRule
  by_cases ht : ace.aceType = aceType
  · simp [ht, h]
  · simp [ht]

/-- A descriptor and one with the same SACL entries, scoped policies apart, have the same
labels. -/
theorem labels_of_entries {a b : SecurityDescriptor}
    (h : a.sacl.map Acl.entries = b.sacl.map fun acl => acl.entries.filter keptInRule) :
    resolveMandatoryLabel a = resolveMandatoryLabel b ∧
      resolveProcessTrustLabel a = resolveProcessTrustLabel b := by
  unfold resolveMandatoryLabel resolveProcessTrustLabel
  cases hb : b.sacl with
  | none =>
    rw [hb] at h
    have ha : a.sacl = none := by simpa using h
    rw [ha]
    exact ⟨rfl, rfl⟩
  | some sb =>
    rw [hb] at h
    obtain ⟨sa, ha, hentries⟩ : ∃ sa, a.sacl = some sa ∧ sa.entries = _ := by
      simpa using h
    rw [ha]
    simp only [hentries, firstOfType_filter systemMandatoryLabelAceType (by decide),
      firstOfType_filter systemProcessTrustLabelAceType (by decide)]
    exact ⟨trivial, trivial⟩

end Pkm.Kacs
