import Pkm.Kacs.Model.SecurityDescriptor
/-!
# A laid-out descriptor parses back

`parseViews_assemble`: the bytes that `assemble` lays out for an owner, a group, a
SACL and a DACL parse to exactly those components. The DACL is last, so bytes
behind it are ignored. Each component is found because it is a prefix of what
stands at its offset, and no two overlap because they are laid end to end.
-/

namespace Pkm.Kacs

open List Outcome

namespace SecurityDescriptor

open Bytes

variable {bytes rest : Bytes} {field : String} {offset : ℕ} {rs : List (Option ComponentRegion)}

/-! ## One component -/

/-- The offset of bytes that are there passes its check. -/
theorem offset_of_has {part : Bytes} (hge : headerSize ≤ offset) (hlt : offset < 2 ^ 32)
    (h : bytes.Has offset part) (hpos : 0 < part.length) :
    BitVec.ofNat 32 offset ≠ 0#32 ∧ (BitVec.ofNat 32 offset).toNat = offset ∧
      ∀ field, checkOffset bytes field (BitVec.ofNat 32 offset) = .ok () := by
  have hto : (BitVec.ofNat 32 offset).toNat = offset := by
    rw [BitVec.toNat_ofNat, Nat.mod_eq_of_lt hlt]
  have h20 : headerSize = 20 := rfl
  have hlen := h.le (length_pos_iff.mp hpos)
  refine ⟨fun hzero => ?_, hto, fun field => ?_⟩
  · rw [hzero, BitVec.toNat_zero] at hto
    omega
  · rw [checkOffset, if_neg (by omega), if_neg (by omega)]

/-- The region an optional component of a given length occupies. -/
def regionOf (field : String) (offset : ℕ) (part : Option Bytes) : Option ComponentRegion :=
  part.map fun p => ⟨field, offset, offset + p.length⟩

/-- A SID at its offset is found there. -/
theorem parseOptionalSid_placed (sid : Option Sid) (hge : headerSize ≤ offset)
    (hlt : offset < 2 ^ 32) (h : ∀ s ∈ sid, bytes.Has offset s.bytes) :
    parseOptionalSid bytes field (offsetField (sid.map Sid.bytes) offset) true =
      .ok (sid, regionOf field offset (sid.map Sid.bytes)) := by
  cases sid with
  | none => simp [parseOptionalSid, offsetField, regionOf]
  | some s =>
    have hs := h s rfl
    obtain ⟨hne, hto, hcheck⟩ := offset_of_has hge hlt hs
      (Nat.lt_of_lt_of_le (by decide : 0 < Sid.minSize) s.length_pos)
    have hp : Sid.parsePrefix (bytes.drop offset) = .ok (s, s.bytes.length) :=
      Sid.parsePrefix_eq_ok.mpr (hs.imp fun _ hrest => ⟨hrest.symm, rfl⟩)
    simp [parseOptionalSid, offsetField, if_neg hne, hcheck, hto, hp, regionOf]

/-- A list at its offset is found there, when the control word announces it. -/
theorem parseOptionalAcl_placed (acl : Option Acl) {part : Option Bytes}
    (hsome : part.isSome = acl.isSome) (hge : headerSize ≤ offset) (hlt : offset < 2 ^ 32)
    (h : ∀ a ∈ acl, bytes.Has offset a.bytes) :
    parseOptionalAcl bytes field acl.isSome (offsetField part offset) =
      .ok (acl, regionOf field offset (acl.map Acl.bytes)) := by
  cases acl with
  | none => simp [parseOptionalAcl, offsetField, regionOf, hsome]
  | some a =>
    have ha := h a rfl
    obtain ⟨hne, hto, hcheck⟩ := offset_of_has hge hlt ha
      (Nat.lt_of_lt_of_le (by decide) a.eight_le_length)
    have hp : Acl.parsePrefix (bytes.drop offset) = .ok (a, a.bytes.length) :=
      Acl.parsePrefix_eq_ok.mpr (ha.imp fun _ hrest => ⟨hrest.symm, rfl⟩)
    simp [parseOptionalAcl, offsetField, hsome, if_neg hne, hcheck, hto, hp, regionOf]

/-- A component is read back from the layout of its region. -/
theorem parseFromLayout_placed {α : Type} {toBytes : α → Bytes} {parser : Bytes → KacsResult α}
    (hparse : ∀ x, parser (toBytes x) = .ok x) (x : Option α)
    (h : ∀ a ∈ x, bytes.Has offset (toBytes a)) (hle : offset ≤ bytes.length) :
    parseFromLayout parser bytes field (componentLayout (regionOf field offset (x.map toBytes))) =
      .ok x := by
  cases x with
  | none => rfl
  | some a =>
    have ha := h a rfl
    have hlen : offset + (toBytes a).length ≤ bytes.length := by
      have := List.IsPrefix.length_le ha
      rw [length_drop] at this
      omega
    simp [parseFromLayout, componentLayout, regionOf, componentSlice,
      if_pos hlen, ha.slice_eq, hparse]

/-! ## No overlap -/

/-- Every region of one component ends before every region of another begins. -/
def Before (a b : Option ComponentRegion) : Prop := ∀ x ∈ a, ∀ y ∈ b, x.stop ≤ y.start

theorem checkOverlap_of_before {first : ComponentRegion} (h : ∀ r ∈ rs, Before (some first) r) :
    checkOverlap first rs = .ok () := by
  induction rs with
  | nil => rfl
  | cons r rs ih =>
    have hrs := ih (forall_mem_cons.mp h).2
    cases r with
    | none => exact hrs
    | some second =>
      have hb : first.stop ≤ second.start := h (some second) mem_cons_self _ rfl _ rfl
      rw [checkOverlap, if_neg (by omega), hrs]

theorem validateComponentOverlap_of_pairwise (h : rs.Pairwise Before) :
    validateComponentOverlap rs = .ok () := by
  induction rs with
  | nil => rfl
  | cons r rs ih =>
    obtain ⟨hr, hrs⟩ := pairwise_cons.mp h
    cases r with
    | none => exact ih hrs
    | some first =>
      simp only [validateComponentOverlap, checkOverlap_of_before hr, ok_bind, ih hrs]

theorem before_regionOf {f g : String} {m n : ℕ} {p q : Option Bytes}
    (h : m + (p.getD []).length ≤ n) : Before (regionOf f m p) (regionOf g n q) := by
  rintro x hx y hy
  cases p with
  | none => simp [regionOf] at hx
  | some p =>
    cases q with
    | none => simp [regionOf] at hy
    | some q =>
      simp only [regionOf, Option.map_some, Option.mem_def, Option.some.injEq] at hx hy
      subst hx hy
      exact h

/-! ## The whole descriptor -/

/-- A component that is there stands where the layout has it. -/
theorem has_of_mem {α : Type} {f : α → Bytes} {x : Option α}
    (h : bytes.Has offset ((x.map f).getD [])) : ∀ a ∈ x, bytes.Has offset (f a) := by
  rintro a ⟨⟩
  exact h

/-- The fields of a header and its components, laid end to end behind it. -/
structure Laid (control : BitVec 16) (owner group sacl dacl : Option Bytes)
    (groupAt saclAt daclAt : ℕ) (bytes : Bytes) : Prop where
  revision : byteAt bytes 0 = 1#8
  control_eq : u16At bytes 2 = control
  owner_eq : u32At bytes 4 = offsetField owner headerSize
  group_eq : u32At bytes 8 = offsetField group groupAt
  sacl_eq : u32At bytes 12 = offsetField sacl saclAt
  dacl_eq : u32At bytes 16 = offsetField dacl daclAt
  owner_has : bytes.Has headerSize (owner.getD [])
  group_has : bytes.Has groupAt (group.getD [])
  sacl_has : bytes.Has saclAt (sacl.getD [])
  dacl_has : bytes.Has daclAt (dacl.getD [])
  groupAt_eq : groupAt = headerSize + (owner.getD []).length
  saclAt_eq : saclAt = groupAt + (group.getD []).length
  daclAt_eq : daclAt = saclAt + (sacl.getD []).length
  length_eq : bytes.length = daclAt + (dacl.getD []).length

section Assemble

variable (rmControl : Byte) (control : BitVec 16) (owner group sacl dacl : Option Bytes)

theorem length_assemble :
    (assemble rmControl control owner group sacl dacl).length =
      headerSize + (owner.getD []).length + (group.getD []).length + (sacl.getD []).length +
        (dacl.getD []).length := by
  simp only [assemble, length_append, length_ofU16, length_ofU32, length_cons,
    length_nil, headerSize]
  omega

theorem laid_assemble : ∃ groupAt saclAt daclAt, Laid control owner group sacl dacl groupAt saclAt
    daclAt (assemble rmControl control owner group sacl dacl) := by
  have h₀ := Has.self (assemble rmControl control owner group sacl dacl)
  nth_rewrite 2 [assemble] at h₀
  simp only [append_assoc] at h₀
  have h₂ := h₀.right
  have h₄ := h₂.right
  have h₈ := h₄.right
  have h₁₂ := h₈.right
  have h₁₆ := h₁₂.right
  have howner := h₁₆.right
  have hgroup := howner.right
  exact ⟨_, _, _, rfl, h₂.left.u16At_eq, h₄.left.u32At_eq, h₈.left.u32At_eq, h₁₂.left.u32At_eq,
    h₁₆.left.u32At_eq, howner.left, hgroup.left, hgroup.right.left, hgroup.right.right,
    rfl, rfl, rfl, length_assemble rmControl control owner group sacl dacl⟩

end Assemble

/-- **A laid-out descriptor parses back to its components.** The control word must announce the
lists that are there, and bytes behind the DACL do not matter. -/
theorem parseViews_assemble (rmControl : Byte) (control : BitVec 16) (owner group : Option Sid)
    (sacl dacl : Option Acl) (tail : Bytes)
    (hself : control &&& seSelfRelative ≠ 0#16)
    (hsacl : decide (control &&& seSaclPresent ≠ 0#16) = sacl.isSome)
    (hdacl : decide (control &&& seDaclPresent ≠ 0#16) = dacl.isSome)
    (hlen : (assemble rmControl control (owner.map Sid.bytes) (group.map Sid.bytes)
      (sacl.map Acl.bytes) (dacl.map fun a => a.bytes ++ tail)).length ≤
        maxSecurityDescriptorBytes) :
    parseViews (assemble rmControl control (owner.map Sid.bytes) (group.map Sid.bytes)
      (sacl.map Acl.bytes) (dacl.map fun a => a.bytes ++ tail)) =
      .ok ⟨control, owner, group, sacl, dacl⟩ := by
  obtain ⟨g, s, d, hl⟩ := laid_assemble rmControl control (owner.map Sid.bytes)
    (group.map Sid.bytes) (sacl.map Acl.bytes) (dacl.map fun a => a.bytes ++ tail)
  obtain ⟨hrev, hcontrol, ho, hg, hs, hd, po, pg, ps, pd, eg, es, ed, hlength⟩ := hl
  have hmax : maxSecurityDescriptorBytes = 65535 := rfl
  replace po := has_of_mem po
  replace pg := has_of_mem pg
  replace ps := has_of_mem ps
  replace pd := fun a ha => (has_of_mem pd a ha).left
  have hover : validateComponentOverlap
      [regionOf "owner" headerSize (owner.map Sid.bytes), regionOf "group" g (group.map Sid.bytes),
        regionOf "sacl" s (sacl.map Acl.bytes), regionOf "dacl" d (dacl.map Acl.bytes)] =
      .ok () := by
    apply validateComponentOverlap_of_pairwise
    simp only [pairwise_cons, mem_cons, not_mem_nil, forall_eq_or_imp,
      false_implies, implies_true, List.Pairwise.nil, and_true]
    refine ⟨⟨?_, ?_, ?_⟩, ⟨?_, ?_⟩, ?_⟩ <;> exact before_regionOf (by omega)
  rw [parseViews, parseLayout, if_neg (by omega), if_neg (by omega), if_neg (not_not.mpr hrev),
    hcontrol, if_neg hself, ho, hg, hs, hd, parseOptionalSid_placed owner (by omega) (by omega) po,
    ok_bind]
  dsimp only
  rw [parseOptionalSid_placed group (by omega) (by omega) pg, ok_bind]
  rw [hsacl, hdacl, parseOptionalAcl_placed sacl Option.isSome_map (by omega) (by omega) ps,
    ok_bind]
  rw [parseOptionalAcl_placed dacl Option.isSome_map (by omega) (by omega) pd, ok_bind]
  rw [hover, ok_bind, ok_bind, fromCachedLayout, if_neg (by omega), if_neg (not_not.mpr hrev),
    if_neg hself, parseFromLayout_placed Sid.parse_bytes owner po (by omega), ok_bind,
    parseFromLayout_placed Sid.parse_bytes group pg (by omega), ok_bind,
    parseFromLayout_placed (fun _ => Acl.parse_eq_ok.mpr rfl) sacl ps (by omega), ok_bind,
    parseFromLayout_placed (fun _ => Acl.parse_eq_ok.mpr rfl) dacl pd (by omega), ok_bind]

/-! ## What the control word announces -/

/-- What a descriptor that parses has at the offset of one of its lists. -/
theorem list_of_parse {present : Bool} {offset : BitVec 32} {found view : Option Acl}
    {region : Option ComponentRegion}
    (h : parseOptionalAcl bytes field present offset = .ok (found, region))
    (hview : parseFromLayout Acl.parse bytes field (componentLayout region) = .ok view) :
    view.isSome = present ∧
      (present = true → ∃ acl n, Acl.parsePrefix (bytes.drop offset.toNat) = .ok (acl, n)) := by
  unfold parseOptionalAcl at h
  cases present with
  | false =>
    obtain ⟨-, h⟩ := of_guard h
    cases h
    cases hview
    exact ⟨rfl, Bool.noConfusion⟩
  | true =>
    obtain ⟨-, h⟩ := of_guard h
    obtain ⟨⟨⟩, -, h⟩ := of_bind h
    obtain ⟨⟨acl, consumed⟩, hacl, h⟩ := of_bind h
    cases h
    obtain ⟨part, -, hview⟩ := of_bind hview
    obtain ⟨_, -, hview⟩ := of_bind hview
    cases hview
    exact ⟨rfl, fun _ => ⟨acl, consumed, hacl⟩⟩

/-- **The control word of a descriptor that parses announces the lists that are there.** -/
theorem announced {v : Views} (h : parseViews bytes = .ok v) :
    v.control = u16At bytes 2 ∧ v.control &&& seSelfRelative ≠ 0#16 ∧
      decide (v.control &&& seSaclPresent ≠ 0#16) = v.sacl.isSome ∧
      decide (v.control &&& seDaclPresent ≠ 0#16) = v.dacl.isSome ∧
      (v.control &&& seDaclPresent ≠ 0#16 →
        ∃ acl n, Acl.parsePrefix (bytes.drop (u32At bytes 16).toNat) = .ok (acl, n)) := by
  obtain ⟨layout, hlayout, hviews⟩ := of_bind h
  obtain ⟨-, hlayout⟩ := of_guard hlayout
  obtain ⟨-, hlayout⟩ := of_guard hlayout
  obtain ⟨-, hlayout⟩ := of_guard hlayout
  obtain ⟨-, hlayout⟩ := of_guard hlayout
  obtain ⟨⟨owner, ownerRegion⟩, -, hlayout⟩ := of_bind hlayout
  obtain ⟨⟨group, groupRegion⟩, -, hlayout⟩ := of_bind hlayout
  obtain ⟨⟨sacl, saclRegion⟩, hsacl, hlayout⟩ := of_bind hlayout
  obtain ⟨⟨dacl, daclRegion⟩, hdacl, hlayout⟩ := of_bind hlayout
  obtain ⟨⟨⟩, -, hlayout⟩ := of_bind hlayout
  cases hlayout
  obtain ⟨-, hviews⟩ := of_guard hviews
  obtain ⟨-, hviews⟩ := of_guard hviews
  obtain ⟨hself, hviews⟩ := of_guard hviews
  obtain ⟨owner', -, hviews⟩ := of_bind hviews
  obtain ⟨group', -, hviews⟩ := of_bind hviews
  obtain ⟨sacl', hsacl', hviews⟩ := of_bind hviews
  obtain ⟨dacl', hdacl', hviews⟩ := of_bind hviews
  cases hviews
  obtain ⟨hs, -⟩ := list_of_parse hsacl hsacl'
  obtain ⟨hd, hfound⟩ := list_of_parse hdacl hdacl'
  exact ⟨rfl, hself, hs.symm, hd.symm, fun hpresent => hfound (decide_eq_true hpresent)⟩

end SecurityDescriptor

theorem bit_seSelfRelative : ∀ i, Bits.bit seSelfRelative i = decide (i = 15) := by decide

theorem bit_seDaclPresent : ∀ i, Bits.bit seDaclPresent i = decide (i = 2) := by decide

theorem bit_seSaclPresent : ∀ i, Bits.bit seSaclPresent i = decide (i = 4) := by decide

/-- The lists a descriptor holds are the ones its control word announces. -/
theorem SecurityDescriptor.bit_control (sd : SecurityDescriptor) :
    Bits.bit sd.control 15 = true ∧ Bits.bit sd.control 4 = sd.sacl.isSome ∧
      Bits.bit sd.control 2 = sd.dacl.isSome := by
  obtain ⟨-, h₁, h₂, h₃, -⟩ := SecurityDescriptor.announced sd.wf
  refine ⟨(Bits.and_flag_ne_zero_iff bit_seSelfRelative).mp h₁, ?_, ?_⟩
  · rw [← h₂, Bool.eq_iff_iff, decide_eq_true_iff, Bits.and_flag_ne_zero_iff bit_seSaclPresent]
  · rw [← h₃, Bool.eq_iff_iff, decide_eq_true_iff, Bits.and_flag_ne_zero_iff bit_seDaclPresent]

end Pkm.Kacs
