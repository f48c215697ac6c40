import Pkm.Kacs.Model.RegistryInherit
/-!
# Keys inherit as directories do

Registry keys and directories inherit with code of their own. Where every entry
for objects is also one for containers, the two agree: a new key gets the entries
a new directory of the same parent list would get, byte for byte and in the same
order, and neither gets a list exactly when the other gets none. The lists around
the entries differ: a key's list keeps the parent's revision as a floor and clears
the reserved fields.
-/

namespace Pkm.Kacs

open List Outcome

namespace Registry

open Bytes

variable {flags : Byte} {bytes : Bytes} {input : RewriteInput}

/-! ## Flags -/

/-- An entry for objects is also one for containers. -/
def ForContainers (flags : Byte) : Prop :=
  flags &&& objectInheritAce ≠ 0#8 → flags &&& containerInheritAce ≠ 0#8

instance (flags : Byte) : Decidable (ForContainers flags) := inferInstanceAs (Decidable (_ → _))

/-- Both inherit the entries for containers. -/
theorem aceInheritsToChild_eq (h : ForContainers flags) :
    aceInheritsToChild flags true = decide (flags &&& containerInheritAce ≠ 0#8) := by
  revert flags
  decide +kernel

/-- Both write the same flags, of an entry that applies to the child. -/
theorem inheritedAceFlags_eq (h : ForContainers flags) (hc : flags &&& containerInheritAce ≠ 0#8) :
    inheritedAceFlags flags = Kacs.inheritedAceFlags flags true ∧
      Kacs.inheritedAceFlags flags true &&& inheritOnlyAce = 0#8 := by
  revert flags
  decide +kernel

/-- Flags that no longer propagate have nothing to clear. -/
theorem inheritedAceFlags_resolved (flags : Byte)
    (h : inheritedAceFlags flags &&& (objectInheritAce ||| containerInheritAce) = 0#8)
    (hc : flags &&& containerInheritAce ≠ 0#8) :
    inheritedAceFlags flags &&& ~~~(objectInheritAce ||| containerInheritAce |||
      inheritOnlyAce ||| noPropagateInheritAce) = inheritedAceFlags flags := by
  revert flags
  decide +kernel

/-! ## One entry -/

theorem aceNeedsResolution_eq (ace : Ace) :
    aceNeedsResolution ace = (aceSidNamesCreator ace.kind || aceIsGeneric ace.kind) := by
  unfold aceNeedsResolution aceSidNamesCreator aceIsGeneric
  cases ace.kind.maskAndSid <;> rfl

theorem resolvedCreatorAceSid_eq (sid owner group : Sid) :
    resolvedCreatorAceSid sid owner (some group) true = .ok (substitutedSid sid owner group) := by
  unfold resolvedCreatorAceSid substitutedSid
  rw [if_neg (by decide)]
  split
  · rfl
  · split <;> rfl

/-- What a written entry looks like. -/
theorem writeSidAce_eq_ok {aceType aceFlags : Byte} {mask : Mask} {beforeSid afterSid : Bytes}
    {sid : Sid} (h : writeSidAce input aceType aceFlags mask beforeSid sid afterSid = .ok bytes) :
    ∃ mapped, input.mapping.mapMask mask = .ok mapped ∧
      bytes = Kacs.writeAce aceType aceFlags mapped
        (beforeSid ++ substitutedSid sid input.owner input.group ++ afterSid) := by
  obtain ⟨mapped, hmap, h⟩ := of_bind h
  obtain ⟨_, hmap', hvalid⟩ := of_bind hmap
  obtain ⟨-, hvalid⟩ := of_guard hvalid
  cases hvalid
  obtain ⟨-, h⟩ := of_guard h
  cases h
  refine ⟨mapped, hmap', ?_⟩
  unfold Kacs.writeAce
  have hsize : ∀ payload : Bytes,
      4 + (ofU32 mapped ++ payload).length = 8 + payload.length := by
    intro payload
    rw [length_append, show (ofU32 mapped).length = 4 from rfl]
    omega
  simp only [append_assoc, hsize]

variable {ace : Ace}

/-- An entry of a known type is written from its parts. -/
theorem rewriteAce_eq_ok (h : rewriteAce input ace flags = .ok bytes) :
    ∃ mask sid mapped, ace.kind.maskAndSid = some (mask, sid) ∧
      input.mapping.mapMask mask = .ok mapped ∧
      bytes = Kacs.writeAce ace.aceType flags mapped
        (ace.kind.beforeSid ++ substitutedSid sid input.owner input.group ++
          ace.kind.afterSid) := by
  unfold rewriteAce at h
  cases hkind : ace.kind with
  | singleSid mask sid | object mask objectFlags objectType inheritedObjectType sid
  | callback mask sid data | resourceAttribute mask sid data
  | callbackObject mask objectFlags objectType inheritedObjectType sid data =>
    rw [hkind] at h
    obtain ⟨mapped, hmap, hbytes⟩ := writeSidAce_eq_ok h
    exact ⟨mask, sid, mapped, rfl, hmap, hbytes⟩
  | opaqueKind =>
    rw [hkind] at h
    cases h

/-- **A key's entry is the directory's entry.** -/
theorem buildRewrittenFileAceBytes_of_rewriteAce {owner group : Sid} {valid : Mask}
    (h : rewriteAce ⟨owner, group, fileGenericMapping, valid⟩ ace flags = .ok bytes) :
    buildRewrittenFileAceBytes ace flags owner (some group) true = .ok bytes := by
  obtain ⟨mask, sid, mapped, hkind, hmap, rfl⟩ := rewriteAce_eq_ok h
  have hknown : ace.kind ≠ .opaqueKind := by
    intro hunknown
    rw [hunknown] at hkind
    cases hkind
  have hfile : mapFileAceMask ace.kind = .ok mapped := by
    unfold mapFileAceMask
    rw [hkind]
    simp only [hmap]
    rfl
  unfold buildRewrittenFileAceBytes
  rw [if_neg (by simp [hknown]), hfile]
  simp only [ok_bind, hkind, resolvedCreatorAceSid_eq]

/-! ## The builder -/

/-- The builder has been given these entries. -/
structure AclBuilder.Holds (builder : AclBuilder) (aces : List Bytes) : Prop where
  bytes_eq : builder.bytes = List.replicate 8 0#8 ++ aces.flatten
  aceCount_eq : builder.aceCount.toNat = aces.length

namespace AclBuilder

variable {self next : AclBuilder} {aces : List Bytes}

theorem Holds.pushAce {aceType : Byte} {ace : Bytes} (h : self.Holds aces)
    (hpush : self.pushAce aceType ace = .ok next) : next.Holds (aces ++ [ace]) := by
  obtain ⟨hroom, hpush⟩ := of_guard hpush
  cases hpush
  refine ⟨?_, ?_⟩
  · simp [h.bytes_eq]
  · -- the count does not wrap: the builder refuses a list that is full
    have hsum : (self.aceCount + 1#16).toNat = self.aceCount.toNat + 1 := by bv_omega
    rw [length_append, ← h.aceCount_eq]
    exact hsum

theorem Holds.finish {built : BuiltAcl} (h : self.Holds aces) (hfinish : self.finish = .ok built) :
    built.bytes = aclHeaderAndEntries self.revision 0#8 0#16 aces ∧
      built.aceCount = BitVec.ofNat 16 aces.length := by
  obtain ⟨-, hfinish⟩ := of_guard hfinish
  cases hfinish
  have hcount : self.aceCount = BitVec.ofNat 16 aces.length := by
    rw [← h.aceCount_eq, BitVec.ofNat_toNat, BitVec.setWidth_eq]
  have hlen : self.bytes.length = 8 + aces.flatten.length := by
    rw [h.bytes_eq, length_append, length_replicate]
  have hdrop : self.bytes.drop 8 = aces.flatten := by
    rw [h.bytes_eq]
    rfl
  refine ⟨?_, hcount⟩
  unfold aclHeaderAndEntries
  simp only [hlen, hdrop, hcount]

end AclBuilder

/-! ## One entry of the parent, and all of them -/

section Inherit

variable {owner group : Sid} {valid : Mask} {builder builder' : AclBuilder} {entries : List Ace}
  {aces : List Bytes} {ace : Ace}

/-- **One entry in step**: the builder gets what a directory inherits from the entry. -/
theorem buildInheritedAceBytes_of_inheritAce (hflags : ForContainers ace.aceFlags)
    (h : inheritAce ⟨owner, group, fileGenericMapping, valid⟩ builder ace = .ok builder') :
    ∃ effective propagating,
      buildInheritedAceBytes ace owner (some group) true = .ok (effective, propagating) ∧
      ∀ aces, builder.Holds aces →
        builder'.Holds (aces ++ effective.toList ++ propagating.toList) := by
  unfold inheritAce at h
  unfold buildInheritedAceBytes
  by_cases hc : ace.aceFlags &&& containerInheritAce = 0#8
  · rw [if_pos hc] at h
    cases h
    rw [if_pos (by simp [aceInheritsToChild_eq hflags, hc])]
    exact ⟨none, none, rfl, fun aces hb => by simpa using hb⟩
  · obtain ⟨hsame, happlies⟩ := inheritedAceFlags_eq hflags hc
    rw [if_neg hc] at h
    rw [if_neg (by simp [aceInheritsToChild_eq hflags, hc])]
    simp only [← hsame] at happlies ⊢
    obtain ⟨rewritten, hrewritten, h⟩ := of_bind h
    obtain ⟨builder₁, hpush, h⟩ := of_bind h
    have hfile := buildRewrittenFileAceBytes_of_rewriteAce hrewritten
    have hneeds := aceNeedsResolution_eq ace
    by_cases hrule : aceSidNamesCreator ace.kind = false ∧ aceIsGeneric ace.kind = false
    · -- nothing to resolve: one entry with the inherited flags
      rw [if_pos hrule]
      rw [hrule.1, hrule.2] at hneeds
      simp only [hneeds, Bool.or_self, Bool.false_eq_true, false_and, if_false] at hfile h
      cases h
      rw [hfile]
      exact ⟨some rewritten, none, rfl, fun aces hb => by simpa using hb.pushAce hpush⟩
    · rw [if_neg hrule]
      have hresolves : aceNeedsResolution ace = true := by
        rw [hneeds, Bool.or_eq_true]
        by_contra hnot
        simp only [not_or, Bool.not_eq_true] at hnot
        exact hrule hnot
      unfold buildEffectiveAceBytes buildPropagatingAceBytes
      rw [if_pos happlies]
      simp only [hresolves, true_and] at hfile h ⊢
      by_cases hprop : inheritedAceFlags ace.aceFlags &&&
          (objectInheritAce ||| containerInheritAce) = 0#8
      · -- the flags no longer propagate: the resolved entry alone
        rw [if_neg (not_not.mpr hprop)] at hfile h
        rw [if_neg (not_not.mpr hprop), inheritedAceFlags_resolved _ hprop hc, hfile]
        cases h
        exact ⟨some rewritten, none, rfl, fun aces hb => by simpa using hb.pushAce hpush⟩
      · rw [if_pos hprop] at hfile h
        have hclear : inheritedAceFlags ace.aceFlags &&& ~~~(objectInheritAce |||
            containerInheritAce ||| inheritOnlyAce ||| noPropagateInheritAce) =
            inheritedAceFlags ace.aceFlags &&& ~~~(objectInheritAce ||| containerInheritAce |||
              noPropagateInheritAce ||| inheritOnlyAce) := rfl
        rw [if_pos hprop, hclear, hfile]
        refine ⟨some rewritten,
          some (ace.bytes.set 1 (inheritedAceFlags ace.aceFlags ||| inheritOnlyAce)), rfl,
          fun aces hb => ?_⟩
        exact (hb.pushAce hpush).pushAce h

/-- **All entries in step.** -/
theorem inheritedAces_of_foldlM (hflags : ∀ ace ∈ entries, ForContainers ace.aceFlags)
    (hholds : builder.Holds aces)
    (h : entries.foldlM (inheritAce ⟨owner, group, fileGenericMapping, valid⟩) builder =
      .ok builder') :
    ∃ aces', entries.foldlM (fun inherited ace => do
        let (effective, propagating) ← buildInheritedAceBytes ace owner (some group) true
        .ok (inherited ++ effective.toList ++ propagating.toList)) aces = .ok aces' ∧
      builder'.Holds aces' := by
  induction entries generalizing builder aces with
  | nil =>
    cases h
    exact ⟨aces, rfl, hholds⟩
  | cons ace entries ih =>
    obtain ⟨builder₁, h₁, h⟩ := of_bind h
    obtain ⟨effective, propagating, hfile, hstep⟩ :=
      buildInheritedAceBytes_of_inheritAce (hflags ace mem_cons_self) h₁
    obtain ⟨aces', hrest, hholds'⟩ := ih (forall_mem_cons.mp hflags).2 (hstep aces hholds) h
    refine ⟨aces', ?_, hholds'⟩
    rw [foldlM_cons, hfile]
    exact hrest

/-- An entry a directory inherits nothing from is not for containers. -/
theorem not_container_of_inherits_nothing (hflags : ForContainers ace.aceFlags)
    (h : buildInheritedAceBytes ace owner (some group) true = .ok (none, none)) :
    ace.aceFlags &&& containerInheritAce = 0#8 := by
  by_contra hc
  unfold buildInheritedAceBytes at h
  rw [if_neg (by simp [aceInheritsToChild_eq hflags, hc])] at h
  split at h
  · obtain ⟨bytes, -, h⟩ := of_bind h
    cases h
  · obtain ⟨effective, heffective, h⟩ := of_bind h
    obtain ⟨propagating, -, h⟩ := of_bind h
    cases h
    unfold buildEffectiveAceBytes at heffective
    rw [if_pos (inheritedAceFlags_eq hflags hc).2] at heffective
    obtain ⟨bytes, -, heffective⟩ := of_bind heffective
    cases heffective

/-- A list a directory inherits nothing from has no entry for containers. -/
theorem not_container_of_inheritedAces (hflags : ∀ ace ∈ entries, ForContainers ace.aceFlags)
    (h : entries.foldlM (fun inherited ace => do
        let (effective, propagating) ← buildInheritedAceBytes ace owner (some group) true
        .ok (inherited ++ effective.toList ++ propagating.toList)) aces = .ok []) :
    aces = [] ∧ ∀ ace ∈ entries, ace.aceFlags &&& containerInheritAce = 0#8 := by
  induction entries generalizing aces with
  | nil => exact ⟨Except.ok.inj h, fun ace hace => by cases hace⟩
  | cons ace entries ih =>
    obtain ⟨aces₁, h₁, h⟩ := of_bind h
    obtain ⟨⟨effective, propagating⟩, hfile, h₁⟩ := of_bind h₁
    obtain ⟨hace, hflags⟩ := forall_mem_cons.mp hflags
    obtain ⟨hnil, hrest⟩ := ih hflags h
    cases h₁
    simp only [append_eq_nil_iff, Option.toList_eq_nil_iff] at hnil
    obtain ⟨⟨rfl, rfl⟩, rfl⟩ := hnil
    exact ⟨rfl, forall_mem_cons.mpr ⟨not_container_of_inherits_nothing hace hfile, hrest⟩⟩

/-- Entries that are not for containers leave the builder as it is. -/
theorem foldlM_inheritAce_of_not_container {input : RewriteInput}
    (h : ∀ ace ∈ entries, ace.aceFlags &&& containerInheritAce = 0#8) (builder : AclBuilder) :
    entries.foldlM (inheritAce input) builder = .ok builder := by
  induction entries with
  | nil => rfl
  | cons ace entries ih =>
    have hskip : inheritAce input builder ace = .ok builder := if_pos (h ace mem_cons_self)
    rw [foldlM_cons, hskip]
    exact ih (forall_mem_cons.mp h).2

/-- A builder with no entries is the only one that counts none. -/
theorem AclBuilder.Holds.aceCount_eq_zero (h : builder.Holds aces) :
    builder.aceCount = 0#16 ↔ aces = [] := by
  rw [← length_eq_zero_iff, ← h.aceCount_eq]
  constructor
  · intro hzero
    rw [hzero]
    rfl
  · exact fun hzero => BitVec.eq_of_toNat_eq hzero

/-! ## The two lists -/

/-- **Keys inherit the entries that directories inherit.** From a parent list in which every entry
for objects is one for containers, and for any creator, a key and a directory get one sequence of
entries, each in a list of its own; and one gets no list exactly when the other gets none. -/
theorem buildInheritedAcl_agrees (acl : Option Acl) (owner group : Sid) (valid : Mask)
    (hflags : ∀ parent, acl = some parent → ∀ ace ∈ parent.entries, ForContainers ace.aceFlags) :
    (∀ key file, buildInheritedAcl acl owner group fileGenericMapping valid = .ok (some key) →
      inheritAclFromParent acl owner (some group) true = .ok (some file) →
      ∃ aces revision revision' sbz1 sbz2,
        key.bytes = aclHeaderAndEntries revision 0#8 0#16 aces ∧
        key.aceCount = BitVec.ofNat 16 aces.length ∧
        file = aclHeaderAndEntries revision' sbz1 sbz2 aces) ∧
    (buildInheritedAcl acl owner group fileGenericMapping valid = .ok none ↔
      inheritAclFromParent acl owner (some group) true = .ok none) := by
  cases acl with
  | none =>
    refine ⟨fun key file h => ?_, fun _ => rfl, fun _ => rfl⟩
    cases Except.ok.inj h
  | some parent =>
    have hflags := hflags parent rfl
    have hholds : (AclBuilder.new parent.revision).Holds [] := ⟨rfl, rfl⟩
    refine ⟨fun key file hkey hfile => ?_, fun hkey => ?_, fun hfile => ?_⟩
    · obtain ⟨builder, hbuilder, hkey⟩ := of_bind hkey
      obtain ⟨aces, haces, hholds⟩ := inheritedAces_of_foldlM hflags hholds hbuilder
      obtain ⟨aces', haces', hfile⟩ := of_bind hfile
      cases haces.symm.trans haces'
      split at hkey
      · cases Except.ok.inj hkey
      · obtain ⟨built, hfinish, hkey⟩ := of_bind hkey
        cases Except.ok.inj hkey
        obtain ⟨hbytes, hcount⟩ := hholds.finish hfinish
        unfold buildAclBytesFromAcesWithReserved at hfile
        split at hfile
        · cases Except.ok.inj hfile
        · obtain ⟨revision', -, hfile⟩ := of_bind hfile
          obtain ⟨-, hfile⟩ := of_guard hfile
          cases Except.ok.inj hfile
          exact ⟨aces, builder.revision, revision', parent.sbz1, parent.sbz2, hbytes, hcount, rfl⟩
    · obtain ⟨builder, hbuilder, hkey⟩ := of_bind hkey
      obtain ⟨aces, haces, hholds⟩ := inheritedAces_of_foldlM hflags hholds hbuilder
      split at hkey
      · rename_i hzero
        obtain rfl := hholds.aceCount_eq_zero.mp hzero
        exact bind_eq_ok.mpr ⟨[], haces, rfl⟩
      · obtain ⟨built, -, hkey⟩ := of_bind hkey
        cases Except.ok.inj hkey
    · obtain ⟨aces, haces, hfile⟩ := of_bind hfile
      unfold buildAclBytesFromAcesWithReserved at hfile
      split at hfile
      · rename_i hnil
        subst hnil
        have hnone := (not_container_of_inheritedAces hflags haces).2
        exact bind_eq_ok.mpr ⟨_, foldlM_inheritAce_of_not_container hnone _, rfl⟩
      · obtain ⟨revision', -, hfile⟩ := of_bind hfile
        obtain ⟨-, hfile⟩ := of_guard hfile
        cases Except.ok.inj hfile

end Inherit

/-- A list with a rule for whoever creates something below, and an entry for containers. -/
def parentAcl : Acl :=
  (Acl.parse (aclHeaderAndEntries aclRevision 0#8 0#16
    [basicAce accessAllowedAceType (objectInheritAce ||| containerInheritAce) genericAll
        Sid.creatorOwner,
      basicAce accessAllowedAceType containerInheritAce fileReadData Sid.everyone])).toOption.get
    (by decide)

/-- A key and a directory created by the system inherit three entries: the resolved rule, the rule
and the entry for containers. -/
theorem parentAcl_agrees :
    ∃ key file,
      buildInheritedAcl (some parentAcl) Sid.system Sid.administrators fileGenericMapping
        (BitVec.allOnes 32) = .ok (some key) ∧
      inheritAclFromParent (some parentAcl) Sid.system (some Sid.administrators) true =
        .ok (some file) ∧
      key.aceCount = 3#16 ∧
      ∃ aces revision revision' sbz1 sbz2,
        key.bytes = aclHeaderAndEntries revision 0#8 0#16 aces ∧
        key.aceCount = BitVec.ofNat 16 aces.length ∧
        file = aclHeaderAndEntries revision' sbz1 sbz2 aces := by
  obtain ⟨_, hbuilt, hkey⟩ := exists_of_map (f := Option.map (·.aceCount)) (c := some 3#16)
    (x := buildInheritedAcl (some parentAcl) Sid.system Sid.administrators fileGenericMapping
      (BitVec.allOnes 32)) (by decide +kernel)
  obtain ⟨_, hinherited, hfile⟩ := exists_of_map (f := Option.isSome) (c := true)
    (x := inheritAclFromParent (some parentAcl) Sid.system (some Sid.administrators) true)
    (by decide +kernel)
  obtain ⟨key, rfl, hcount⟩ := Option.map_eq_some_iff.mp hkey
  obtain ⟨file, rfl⟩ := Option.isSome_iff_exists.mp hfile
  have hflags : ∀ parent, some parentAcl = some parent →
      ∀ ace ∈ parent.entries, ForContainers ace.aceFlags := by
    intro parent hparent
    cases hparent
    decide +kernel
  exact ⟨key, file, hbuilt, hinherited, hcount, (buildInheritedAcl_agrees (some parentAcl)
    Sid.system Sid.administrators (BitVec.allOnes 32) hflags).1 key file hbuilt hinherited⟩

end Registry

end Pkm.Kacs
