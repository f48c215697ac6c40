import Pkm.Kacs.Helpers.Written
/-!
# Inheritance does not count generations

What a file or directory inherits is determined by the list at the top and by its
own creator, however many directories lie between. An entry that is passed on keeps
its kind and the flags that matter below; a rule that is resolved for a directory
leaves an entry that goes no further, next to the rule itself. So nothing of the
creators in between reaches the child.
-/

namespace Pkm.Kacs

open Bytes List Outcome

variable {flags newFlags : Byte} {bytes : Bytes} {xs : List Bytes}

/-! ## Flags -/

/-- An inheritable entry is passed on to more than one generation. -/
def Propagates (flags : Byte) : Prop :=
  flags &&& (objectInheritAce ||| containerInheritAce) ≠ 0#8 → flags &&& noPropagateInheritAce = 0#8

instance (flags : Byte) : Decidable (Propagates flags) := inferInstanceAs (Decidable (_ → _))

/-- What a directory does not inherit, nothing below it does. -/
theorem not_inherits_of_container (hp : Propagates flags)
    (h : aceInheritsToChild flags true = false) (isContainer : Bool) :
    aceInheritsToChild flags isContainer = false := by
  revert flags isContainer
  decide +kernel

/-- The flags of a directory's entry mean to its children what the parent's mean to them, with or
without the mark that the entry is not for the directory itself. -/
theorem inheritedAceFlags_container (hp : Propagates flags)
    (h : aceInheritsToChild flags true = true) (isContainer : Bool) (flags' : Byte)
    (hflags' : flags' = inheritedAceFlags flags true ∨
      flags' = inheritedAceFlags flags true ||| inheritOnlyAce) :
    aceInheritsToChild flags' isContainer = aceInheritsToChild flags isContainer ∧
      inheritedAceFlags flags' isContainer = inheritedAceFlags flags isContainer ∧
      Propagates flags' := by
  rcases hflags' with rfl | rfl
  · revert flags isContainer
    decide +kernel
  · revert flags isContainer
    decide +kernel

/-- A rule keeps propagating in a directory. -/
theorem propagates_container (hp : Propagates flags) (h : aceInheritsToChild flags true = true) :
    inheritedAceFlags flags true &&& (objectInheritAce ||| containerInheritAce) ≠ 0#8 := by
  revert flags
  decide +kernel

/-- The flags of a resolved entry. -/
theorem not_inherits_effective (flags : Byte) (isContainer : Bool) :
    aceInheritsToChild (flags &&& ~~~(objectInheritAce ||| containerInheritAce |||
        inheritOnlyAce ||| noPropagateInheritAce)) isContainer = false ∧
      Propagates (flags &&& ~~~(objectInheritAce ||| containerInheritAce ||| inheritOnlyAce |||
        noPropagateInheritAce)) := by
  revert flags isContainer
  decide +kernel

/-! ## Rewriting -/

variable {ownerSid : Sid} {groupSid : Option Sid}

/-- Rewriting depends on the kind of an entry, not on its flags. -/
theorem buildRewrittenFileAceBytes_reflag (ace : Ace) (flags newFlags : Byte) (ownerSid : Sid)
    (groupSid : Option Sid) (substituteCreator : Bool) :
    buildRewrittenFileAceBytes (ace.reflag flags) newFlags ownerSid groupSid substituteCreator =
      buildRewrittenFileAceBytes ace newFlags ownerSid groupSid substituteCreator := by
  have hbytes : (ace.reflag flags).bytes.set 1 newFlags = ace.bytes.set 1 newFlags := set_set ..
  unfold buildRewrittenFileAceBytes
  rw [hbytes]
  rfl

/-- A rewritten entry has the new flags. -/
theorem byteAt_rewritten {ace : Ace} {substituteCreator : Bool}
    (h : buildRewrittenFileAceBytes ace newFlags ownerSid groupSid substituteCreator =
      .ok bytes) : byteAt bytes 1 = newFlags := by
  unfold buildRewrittenFileAceBytes at h
  split at h
  · cases h
    have hlen := ace.four_le_length
    exact byteAt_set_self (by omega)
  · obtain ⟨mask, -, h⟩ := of_bind h
    split at h
    · cases h
    · obtain ⟨sidBytes, -, h⟩ := of_bind h
      cases h
      rfl

/-- An entry with nothing to resolve only gets new flags. -/
theorem rewritten_eq_set {ace : Ace} (hcreator : aceSidNamesCreator ace.kind = false)
    (hgeneric : aceIsGeneric ace.kind = false)
    (h : buildRewrittenFileAceBytes ace newFlags ownerSid groupSid true = .ok bytes) :
    bytes = ace.bytes.set 1 newFlags := by
  unfold buildRewrittenFileAceBytes at h
  split at h
  · exact (Except.ok.inj h).symm
  · obtain ⟨mapped, hmapped, h⟩ := of_bind h
    split at h
    · cases h
    · rename_i mask sid hk
      unfold mapFileAceMask at hmapped
      unfold aceSidNamesCreator at hcreator
      unfold aceIsGeneric at hgeneric
      rw [hk] at hmapped hcreator hgeneric
      -- the SID is no creator's and the mask has no generic right
      have hsid : resolvedCreatorAceSid sid ownerSid groupSid true = .ok sid.bytes := by
        simp only [Bool.or_eq_false_iff, decide_eq_false_iff_not] at hcreator
        simp [resolvedCreatorAceSid, hcreator.1, hcreator.2]
      have hmask : mapped = mask := by
        simp only [decide_eq_false_iff_not, not_not] at hgeneric
        exact fileGenericMapping.mapMask_eq_ok_of_not_generic hgeneric (orErrno_eq_ok.mp hmapped)
      rw [hsid] at h
      cases h
      rw [ace.bytes_eq_writeAce hk, hmask]
      rfl

/-! ## One entry -/

/-- Who creates a file or directory: its owner, and its group if it has one. -/
structure Creator where
  owner : Sid
  group : Option Sid

/-- What an entry passes on to a child's list. -/
def passedOn (ace : Ace) (creator : Creator) (isContainer : Bool) :
    SysResult (List Bytes) := do
  let (effective, propagating) ← buildInheritedAceBytes ace creator.owner creator.group isContainer
  .ok (effective.toList ++ propagating.toList)

/-- What a list of entries passes on to a child's list. -/
def passedOnAll (creator : Creator) (isContainer : Bool) : List Ace → SysResult (List Bytes)
  | [] => .ok []
  | ace :: rest => do
    let first ← passedOn ace creator isContainer
    let others ← passedOnAll creator isContainer rest
    .ok (first ++ others)

variable {creator between : Creator} {isContainer : Bool} {ace : Ace}

theorem passedOn_of_not_inherits
    (h : aceInheritsToChild ace.aceFlags isContainer = false) :
    passedOn ace creator isContainer = .ok [] := by
  simp [passedOn, buildInheritedAceBytes, h]

/-- Flags that mean the same below pass the same on. -/
theorem passedOn_reflag (hinherits : aceInheritsToChild flags isContainer =
      aceInheritsToChild ace.aceFlags isContainer) (hflags : inheritedAceFlags flags isContainer =
      inheritedAceFlags ace.aceFlags isContainer) :
    passedOn (ace.reflag flags) creator isContainer =
      passedOn ace creator isContainer := by
  unfold passedOn buildInheritedAceBytes buildEffectiveAceBytes buildPropagatingAceBytes
  simp [hinherits, hflags, buildRewrittenFileAceBytes_reflag]

theorem passedOnAll_singleton (ace : Ace) :
    passedOnAll creator isContainer [ace] = passedOn ace creator isContainer := by
  simp [passedOnAll]

theorem passedOnAll_cons_of_nil {rest : List Ace}
    (h : passedOn ace creator isContainer = .ok []) :
    passedOnAll creator isContainer (ace :: rest) = passedOnAll creator isContainer rest := by
  simp [passedOnAll, h]

/-- What a plain entry passes on to a directory is the entry with new flags. -/
theorem plain_passedOn (hinherits : aceInheritsToChild ace.aceFlags true = true)
    (hplain : aceSidNamesCreator ace.kind = false ∧ aceIsGeneric ace.kind = false)
    (h : passedOn ace between true = .ok xs) :
    xs = [(ace.reflag (inheritedAceFlags ace.aceFlags true)).bytes] := by
  obtain ⟨⟨effective, propagating⟩, hbuild, h⟩ := of_bind h
  cases h
  unfold buildInheritedAceBytes at hbuild
  rw [if_neg (by simp [hinherits])] at hbuild
  rw [if_pos hplain] at hbuild
  obtain ⟨bytes, hbytes, hbuild⟩ := of_bind hbuild
  cases hbuild
  rw [rewritten_eq_set hplain.1 hplain.2 hbytes]
  rfl

/-- What a rule passes on to a directory: an entry for the directory that nothing inherits, if it
applies to the directory at all, and the rule with new flags. -/
theorem rule_passedOn (hp : Propagates ace.aceFlags)
    (hinherits : aceInheritsToChild ace.aceFlags true = true)
    (hrule : ¬ (aceSidNamesCreator ace.kind = false ∧ aceIsGeneric ace.kind = false))
    (h : passedOn ace between true = .ok xs) :
    ∃ effective : Option Bytes,
      xs = effective.toList ++
        [(ace.reflag (inheritedAceFlags ace.aceFlags true ||| inheritOnlyAce)).bytes] ∧
      ∀ x ∈ effective, ∀ isContainer, aceInheritsToChild (byteAt x 1) isContainer = false ∧
        Propagates (byteAt x 1) := by
  obtain ⟨⟨effective, propagating⟩, hbuild, h⟩ := of_bind h
  cases h
  unfold buildInheritedAceBytes at hbuild
  rw [if_neg (by simp [hinherits])] at hbuild
  rw [if_neg hrule] at hbuild
  obtain ⟨effective', heffective, hbuild⟩ := of_bind hbuild
  obtain ⟨propagating', hpropagating, hbuild⟩ := of_bind hbuild
  cases hbuild
  -- the rule keeps propagating, so it is carried on as it is
  have hcarried : propagating =
      some (ace.reflag (inheritedAceFlags ace.aceFlags true ||| inheritOnlyAce)).bytes := by
    unfold buildPropagatingAceBytes buildRewrittenFileAceBytes at hpropagating
    rw [if_pos ⟨rfl, propagates_container hp hinherits⟩] at hpropagating
    exact (Except.ok.inj hpropagating).symm
  refine ⟨effective, by rw [hcarried]; rfl, ?_⟩
  rintro x rfl isContainer
  unfold buildEffectiveAceBytes at heffective
  split at heffective
  · obtain ⟨bytes, hbytes, heffective⟩ := of_bind heffective
    cases heffective
    rw [byteAt_rewritten hbytes]
    exact not_inherits_effective _ _
  · cases heffective

variable {as : List Ace} {parentAcl : Option Acl}

/-- The entries behind some bytes are determined by them. -/
theorem eq_of_map_bytes {bs : List Ace} (h : as.map Ace.bytes = bs.map Ace.bytes) : as = bs :=
  (map_inj_right fun _ _ => Ace.ext).mp h

/-- **One entry, one generation.** What an entry leaves in a directory's list passes on what the
entry itself does. -/
theorem passedOn_generation (hp : Propagates ace.aceFlags)
    (h : passedOn ace between true = .ok (as.map Ace.bytes)) (creator : Creator)
    (isContainer : Bool) :
    passedOnAll creator isContainer as = passedOn ace creator isContainer ∧
      ∀ a ∈ as, Propagates a.aceFlags := by
  cases hinherits : aceInheritsToChild ace.aceFlags true with
  | false =>
    rw [passedOn_of_not_inherits hinherits] at h
    obtain rfl := map_eq_nil_iff.mp (Except.ok.inj h).symm
    rw [passedOn_of_not_inherits (not_inherits_of_container hp hinherits isContainer)]
    exact ⟨rfl, by simp⟩
  | true =>
    have hsame := inheritedAceFlags_container hp hinherits isContainer
    by_cases hrule : aceSidNamesCreator ace.kind = false ∧ aceIsGeneric ace.kind = false
    · obtain rfl : as = [_] := eq_of_map_bytes (plain_passedOn hinherits hrule h)
      obtain ⟨hinh, hflags, hprop⟩ := hsame _ (.inl rfl)
      rw [passedOnAll_singleton, passedOn_reflag hinh hflags]
      exact ⟨rfl, by simpa using hprop⟩
    · obtain ⟨effective, has, heffective⟩ := rule_passedOn hp hinherits hrule h
      obtain ⟨hinh, hflags, hprop⟩ := hsame _ (.inr rfl)
      cases effective with
      | none =>
        obtain rfl : as = [_] := eq_of_map_bytes has
        rw [passedOnAll_singleton, passedOn_reflag hinh hflags]
        exact ⟨rfl, by simpa using hprop⟩
      | some x =>
        obtain ⟨a, rest, rfl, rfl, hrest⟩ := map_eq_cons_iff.mp has
        obtain rfl : rest = [_] := eq_of_map_bytes hrest
        obtain ⟨hnone, hpa⟩ := heffective _ rfl isContainer
        rw [a.byteAt_one] at hnone hpa
        rw [passedOnAll_cons_of_nil (passedOn_of_not_inherits hnone), passedOnAll_singleton,
          passedOn_reflag hinh hflags]
        exact ⟨rfl, by simpa using ⟨hpa, hprop⟩⟩

/-! ## Lists of entries -/

theorem passedOnAll_append (as bs : List Ace) :
    passedOnAll creator isContainer (as ++ bs) = (do
      let first ← passedOnAll creator isContainer as
      let others ← passedOnAll creator isContainer bs
      .ok (first ++ others)) := by
  induction as with
  | nil => simp [passedOnAll]
  | cons a as ih =>
    rw [cons_append, passedOnAll, passedOnAll, ih]
    simp

/-- **One generation.** A directory's entries pass on what its parent's do. -/
theorem passedOnAll_generation {entries children : List Ace}
    (hp : ∀ ace ∈ entries, Propagates ace.aceFlags)
    (h : passedOnAll between true entries = .ok (children.map Ace.bytes)) (creator : Creator)
    (isContainer : Bool) :
    passedOnAll creator isContainer children = passedOnAll creator isContainer entries ∧
      ∀ ace ∈ children, Propagates ace.aceFlags := by
  induction entries generalizing children with
  | nil =>
    obtain rfl := map_eq_nil_iff.mp (Except.ok.inj h).symm
    exact ⟨rfl, by simp⟩
  | cons ace rest ih =>
    obtain ⟨hpa, hprest⟩ := forall_mem_cons.mp hp
    obtain ⟨first, hfirst, h⟩ := of_bind h
    obtain ⟨others, hothers, h⟩ := of_bind h
    -- the child's entries are those left by the first and those left by the rest
    obtain ⟨as, bs, rfl, rfl, rfl⟩ := map_eq_append_iff.mp (Except.ok.inj h).symm
    obtain ⟨hsame, hpas⟩ := passedOn_generation hpa hfirst creator isContainer
    obtain ⟨hsames, hpbs⟩ := ih hprest hothers
    rw [passedOnAll_append, hsame, hsames]
    exact ⟨rfl, forall_mem_append.mpr ⟨hpas, hpbs⟩⟩

/-! ## Along a chain of directories -/

/-- The list a descriptor holds after it was written. -/
def readAcl : Option Bytes → KacsResult (Option Acl)
  | none => .ok none
  | some bytes => do
    let acl ← Acl.parse bytes
    .ok (some acl)

theorem readAcl_map_bytes (acl : Option Acl) : readAcl (acl.map Acl.bytes) = .ok acl := by
  cases acl with
  | none => rfl
  | some acl =>
    rw [Option.map_some, readAcl, Acl.parse_eq_ok.mpr rfl]
    rfl

/-- The list of the last of some directories, each created in the one before. -/
def inheritAlong (parentAcl : Option Acl) : List Creator → SysResult (Option Acl)
  | [] => .ok parentAcl
  | creator :: rest => do
    let bytes ← inheritAclFromParent parentAcl creator.owner creator.group true
    let acl ← orErrno (readAcl bytes) .einval
    inheritAlong acl rest

theorem inheritedAces_eq (acl : Acl) (creator : Creator) (isContainer : Bool) :
    inheritedAces acl creator.owner creator.group isContainer =
      passedOnAll creator isContainer acl.entries := by
  have hfold : ∀ (entries : List Ace) (start : List Bytes),
      entries.foldlM (fun inherited ace => do
        let (effective, propagating) ←
          buildInheritedAceBytes ace creator.owner creator.group isContainer
        .ok (inherited ++ effective.toList ++ propagating.toList)) start = (do
      let all ← passedOnAll creator isContainer entries
      .ok (start ++ all)) := by
    intro entries
    induction entries with
    | nil => simp [passedOnAll]
    | cons ace rest ih =>
      intro start
      simp only [foldlM_cons, passedOnAll, passedOn, bind_assoc, ok_bind, ih]
      simp
  rw [inheritedAces, hfold]
  simp

/-- What is inherited can be read back: it is what the parent's entries pass on. -/
theorem inheritAclFromParent_eq_ok {bytes : Option Bytes}
    (h : inheritAclFromParent parentAcl creator.owner creator.group isContainer = .ok bytes) :
    ∃ acl : Option Acl, readAcl bytes = .ok acl ∧
      passedOnAll creator isContainer (aclEntries parentAcl) =
        .ok ((aclEntries acl).map Ace.bytes) ∧ ∀ a ∈ acl, a.entries ≠ [] := by
  cases parentAcl with
  | none =>
    cases h
    exact ⟨none, rfl, rfl, by simp⟩
  | some parentAcl =>
    obtain ⟨aces, haces, h⟩ := of_bind h
    obtain ⟨acl, rfl, rfl, hentries⟩ := buildAclBytesFromAcesWithReserved_eq_ok h
    rw [inheritedAces_eq] at haces
    exact ⟨acl, readAcl_map_bytes acl, haces, hentries⟩

/-- **A chain of generations.** The entries at the end of a chain pass on what those at its
beginning do. -/
theorem passedOnAll_inheritAlong {last : Option Acl} {chain : List Creator}
    (hp : ∀ ace ∈ aclEntries parentAcl, Propagates ace.aceFlags)
    (h : inheritAlong parentAcl chain = .ok last) (creator : Creator) (isContainer : Bool) :
    passedOnAll creator isContainer (aclEntries last) =
      passedOnAll creator isContainer (aclEntries parentAcl) := by
  induction chain generalizing parentAcl with
  | nil =>
    cases h
    rfl
  | cons between rest ih =>
    obtain ⟨bytes, hbytes, h⟩ := of_bind h
    obtain ⟨acl, hacl, h⟩ := of_bind h
    obtain ⟨acl', hread, hpassed, -⟩ := inheritAclFromParent_eq_ok hbytes
    cases hread.symm.trans (orErrno_eq_ok.mp hacl)
    obtain ⟨hsame, hprop⟩ := passedOnAll_generation hp hpassed creator isContainer
    exact (ih hprop h).trans hsame

/-- Two lists with the same entries, if an empty one is no list. -/
theorem map_entries_eq {a b : Option Acl} (h : aclEntries a = aclEntries b)
    (ha : ∀ acl ∈ a, acl.entries ≠ []) (hb : ∀ acl ∈ b, acl.entries ≠ []) :
    a.map Acl.entries = b.map Acl.entries := by
  cases a with
  | none =>
    cases b with
    | none => rfl
    | some b => exact absurd h.symm (hb b rfl)
  | some a =>
    cases b with
    | none => exact absurd h (ha a rfl)
    | some b => exact congrArg some h

/-- **Inheritance does not count generations.** Let every inheritable entry of a list propagate.
What is inherited at the end of a chain of directories, whoever created them, has exactly the
entries of what the same creator inherits from the first list directly. -/
theorem inheritAclFromParent_generations {parentAcl : Acl} {chain : List Creator}
    {last : Option Acl} {via direct : Option Bytes} {creator : Creator} {isContainer : Bool}
    (hpropagates : ∀ ace ∈ parentAcl.entries,
      ace.aceFlags &&& (objectInheritAce ||| containerInheritAce) ≠ 0#8 →
        ace.aceFlags &&& noPropagateInheritAce = 0#8)
    (hchain : inheritAlong (some parentAcl) chain = .ok last)
    (hvia : inheritAclFromParent last creator.owner creator.group isContainer = .ok via)
    (hdirect : inheritAclFromParent (some parentAcl) creator.owner creator.group isContainer =
      .ok direct) :
    ∃ viaAcl directAcl : Option Acl, readAcl via = .ok viaAcl ∧ readAcl direct = .ok directAcl ∧
      viaAcl.map Acl.entries = directAcl.map Acl.entries := by
  obtain ⟨viaAcl, hreadVia, hpassedVia, hviaAcl⟩ := inheritAclFromParent_eq_ok hvia
  obtain ⟨directAcl, hreadDirect, hpassedDirect, hdirectAcl⟩ := inheritAclFromParent_eq_ok hdirect
  have hparent : ∀ ace ∈ aclEntries (some parentAcl), Propagates ace.aceFlags := hpropagates
  have hsame := passedOnAll_inheritAlong hparent hchain creator isContainer
  have hentries : aclEntries viaAcl = aclEntries directAcl := by
    apply eq_of_map_bytes
    rw [hpassedVia, hpassedDirect] at hsame
    exact Except.ok.inj hsame
  exact ⟨viaAcl, directAcl, hreadVia, hreadDirect, map_entries_eq hentries hviaAcl hdirectAcl⟩

namespace Sample

/-- A list with a rule for whoever creates something below, and an entry for files only. -/
def inheritableAcl : Acl :=
  (Acl.parse (aclHeaderAndEntries aclRevision 0#8 0#16
    [basicAce accessAllowedAceType (objectInheritAce ||| containerInheritAce) genericAll
        Sid.creatorOwner,
      basicAce accessAllowedAceType objectInheritAce fileReadData Sid.everyone])).toOption.get
    (by decide)

/-- Two directories, one in the other, created by the system and by an administrator. -/
def directories : List Creator := [⟨Sid.system, none⟩, ⟨Sid.administrators, none⟩]

end Sample

open Sample in
/-- A file below two directories inherits what it would without them. -/
theorem inheritAclFromParent_generations_sample :
    ∃ last via direct, inheritAlong (some inheritableAcl) directories = .ok last ∧
      inheritAclFromParent last Sid.everyone none false = .ok via ∧
      inheritAclFromParent (some inheritableAcl) Sid.everyone none false = .ok direct ∧
      ∃ viaAcl directAcl : Option Acl, readAcl via = .ok viaAcl ∧
        readAcl direct = .ok directAcl ∧
        viaAcl.map Acl.entries = directAcl.map Acl.entries := by
  obtain ⟨last, hlast⟩ := exists_of_isOk
    (x := inheritAlong (some inheritableAcl) directories) (by decide +kernel)
  obtain ⟨direct, hdirect⟩ := exists_of_isOk
    (x := inheritAclFromParent (some inheritableAcl) Sid.everyone none false) (by decide +kernel)
  obtain ⟨via, hvia⟩ := exists_of_isOk
    (x := inheritAlong (some inheritableAcl) directories >>= fun last =>
      inheritAclFromParent last Sid.everyone none false) (by decide +kernel)
  rw [hlast, ok_bind] at hvia
  let creator : Creator := ⟨Sid.everyone, none⟩
  have hsame := @inheritAclFromParent_generations inheritableAcl directories last via direct
    creator false (by decide +kernel) hlast hvia hdirect
  exact ⟨last, via, direct, hlast, hvia, hdirect, hsame⟩

end Pkm.Kacs
