import Pkm.Kacs.Helpers.Labels
import Pkm.Kacs.Helpers.Merged
/-!
# Setting the security of an object does not raise its label, with one exception

A subject without the privilege to relabel sets a label no higher than its own
level. But an object without a label counts as medium, and a subject may set a list
without one: where both the object and the subject are below medium, that raises
the object's label. So the label is bounded exactly when the label is not touched,
or a label is given, or medium is within the bound.
-/

namespace Pkm.Kacs

open List Outcome SecurityDescriptor

variable {subject : BootToken} {bytes : Bytes} {level : IntegrityLevel} {found : Option Bytes}
  {inputSd sd : SecurityDescriptor}

/-! ## The label of a list -/

/-- The entry that labels an object: the first label that applies to it. -/
def labelAce (sacl : Option Acl) : Option Ace := (aclEntries sacl).find? isLabelAce

/-- It is the one a check uses. -/
theorem firstOfType_label (entries : List Ace) :
    firstOfType systemMandatoryLabelAceType entries = entries.find? isLabelAce := by
  unfold firstOfType
  congr 1
  funext ace
  exact Bool.and_comm _ _

/-- An object without a label counts as medium. -/
theorem resolveMandatoryLabel_of_none (h : labelAce sd.sacl = none) :
    resolveMandatoryLabel sd = .ok defaultMandatoryLabel := by
  unfold resolveMandatoryLabel
  cases hsacl : sd.sacl with
  | none => rfl
  | some sacl =>
    rw [hsacl] at h
    have hfirst : firstOfType systemMandatoryLabelAceType sacl.entries = none :=
      (firstOfType_label _).trans h
    simp only [hfirst]

variable {ace : Ace} {entries : List Ace} {sacl : Option Acl} {given : Option Ace}

/-- The runtime reads the level of a label as the core does. -/
theorem labelIntegrityFromAce_eq_ok (h : labelIntegrityFromAce ace.bytes = .ok level) :
    ∃ mask sid, ace.kind = .singleSid mask sid ∧ integrityLevelFromSid sid = .ok level := by
  obtain ⟨parsed, hparsed, hlevel⟩ := of_bind h
  obtain rfl : parsed = ace := Ace.ext (Ace.parse_eq_ok.mp (orErrno_eq_ok.mp hparsed))
  split at hlevel
  · rename_i mask sid hkind
    obtain ⟨hsid, hlevel⟩ := of_guard hlevel
    obtain ⟨hauthority, hcount⟩ := not_or.mp hsid
    refine ⟨mask, sid, hkind, ?_⟩
    unfold integrityLevelFromSid
    rw [if_neg hauthority, if_neg hcount]
    cases hsub : sid.subAuthority 0 with
    | none =>
      simp only [hsub] at hlevel
      cases hlevel
    | some sub =>
      simp only [hsub] at hlevel
      exact congrArg Except.ok (Except.ok.inj hlevel)
  · cases hlevel

/-- A label that may be set resolves, to the level it was set with. -/
theorem resolveMandatoryLabel_of_some (h : labelAce sd.sacl = some ace)
    (hlevel : labelIntegrityFromAce ace.bytes = .ok level) :
    ∃ label, resolveMandatoryLabel sd = .ok label ∧ label.integrityLevel = level := by
  obtain ⟨mask, sid, hkind, hfromSid⟩ := labelIntegrityFromAce_eq_ok hlevel
  cases hsacl : sd.sacl with
  | none =>
    rw [hsacl] at h
    cases h
  | some sacl =>
    rw [hsacl] at h
    have hfirst : firstOfType systemMandatoryLabelAceType sacl.entries = some ace :=
      (firstOfType_label _).trans h
    unfold resolveMandatoryLabel
    simp only [hsacl, hfirst, hkind, hfromSid]
    exact ⟨_, rfl, rfl⟩

/-! ## The label that is set -/

/-- Once a label was found, no other may follow. -/
theorem findExplicitLabel_of_some (h : (entries.foldlM (fun found ace =>
      if isLabelAce ace = false then .ok found
      else if found.isSome then .error .einval
      else .ok (some ace.bytes)) (some bytes) : SysResult _) = .ok found) : found = some bytes := by
  induction entries with
  | nil => exact (Except.ok.inj h).symm
  | cons ace rest ih =>
    rw [foldlM_cons] at h
    cases hlabel : isLabelAce ace with
    | false =>
      rw [if_pos hlabel] at h
      exact ih h
    | true =>
      rw [if_neg (by simp [hlabel]), Option.isSome_some] at h
      cases h

/-- The label found in a list is the one a check uses. -/
theorem findExplicitLabelAceBytes_eq_ok (h : findExplicitLabelAceBytes sacl = .ok found) :
    found = (labelAce sacl).map Ace.bytes := by
  cases sacl with
  | none => exact (Except.ok.inj h).symm
  | some sacl =>
    unfold findExplicitLabelAceBytes at h
    unfold labelAce aclEntries
    simp only [Option.map_some, Option.getD_some] at h ⊢
    generalize sacl.entries = entries at h ⊢
    induction entries with
    | nil => exact (Except.ok.inj h).symm
    | cons ace rest ih =>
      rw [foldlM_cons] at h
      rw [find?_cons]
      cases hlabel : isLabelAce ace with
      | false =>
        rw [if_pos hlabel] at h
        exact ih h
      | true =>
        rw [if_neg (by simp [hlabel]), if_neg (by simp)] at h
        exact findExplicitLabel_of_some h

/-- The label that is set alone is the one a check would use of the input. -/
theorem parseLabelSubsetAceBytes_eq_ok (h : parseLabelSubsetAceBytes inputSd = .ok found) :
    found = (labelAce inputSd.sacl).map Ace.bytes := by
  unfold parseLabelSubsetAceBytes at h
  unfold labelAce aclEntries
  split at h
  · rename_i hsacl
    rw [hsacl]
    exact (Except.ok.inj h).symm
  · rename_i sacl hsacl
    rw [hsacl]
    split at h
    · rename_i first hentries
      obtain ⟨hlabel, h⟩ := of_guard h
      simp [hentries, hlabel, ← Except.ok.inj h]
    · cases h

/-- Whether an entry is no label. -/
def notLabel (ace : Ace) : Bool := decide (ace.aceType ≠ systemMandatoryLabelAceType)

/-- A list that was relabelled has the label it was given, and of the old entries the others. -/
theorem relabeledSacl_eq_ok {currentSacl : Option Acl} {bytes : Option Bytes}
    (h : relabeledSacl currentSacl (given.map Ace.bytes) = .ok bytes) :
    ∃ sacl : Option Acl, bytes = sacl.map Acl.bytes ∧
      aclEntries sacl = given.toList ++ (aclEntries currentSacl).filter notLabel := by
  obtain ⟨sacl, rfl, hentries, -⟩ := buildAclBytesFromAcesWithReserved_eq_ok h
  refine ⟨sacl, rfl, (map_inj_right fun _ _ => Ace.ext).mp ?_⟩
  rw [hentries, map_append, Option.toList_map]
  rfl

theorem labelAce_relabeled (hgiven : ∀ ace ∈ given, isLabelAce ace = true)
    (h : aclEntries sacl = given.toList ++ entries.filter notLabel) : labelAce sacl = given := by
  have hnone : (entries.filter notLabel).find? isLabelAce = none := by
    rw [find?_eq_none]
    intro ace hace
    have htype := (mem_filter.mp hace).2
    simp only [notLabel, decide_eq_true_eq] at htype
    simp [isLabelAce, htype]
  rw [labelAce, h]
  cases given with
  | none => simpa using hnone
  | some ace => simp [hgiven ace rfl]

/-- Whether a merge sets the label of the object. -/
def SetsLabel (securityInfo : BitVec 32) : Prop :=
  securityInfo &&& saclSecurityInformation ≠ 0#32 ∨ securityInfo &&& labelSecurityInformation ≠ 0#32

instance (securityInfo : BitVec 32) : Decidable (SetsLabel securityInfo) :=
  inferInstanceAs (Decidable (_ ∨ _))

/-- **The list of a merge.** It is the current one, or its label is the input's and the subject
may assign it. -/
theorem mergedSacl_eq_ok {currentSd : SecurityDescriptor} {securityInfo : BitVec 32}
    {bytes : Option Bytes} (h : mergedSacl subject currentSd inputSd securityInfo = .ok bytes) :
    ∃ sacl : Option Acl, bytes = sacl.map Acl.bytes ∧
      (¬ SetsLabel securityInfo → sacl = currentSd.sacl) ∧
      (SetsLabel securityInfo → labelAce sacl = labelAce inputSd.sacl ∧
        validateLabelAssignment subject ((labelAce inputSd.sacl).map Ace.bytes) = .ok ()) := by
  rcases mergedSacl_cases h with ⟨hset, hbytes, found, hfound, hvalid⟩ |
    ⟨-, hset, found, hfound, hvalid, hrelabel⟩ | ⟨hsacl, hlabel, hbytes⟩
  · rw [findExplicitLabelAceBytes_eq_ok hfound] at hvalid
    exact ⟨inputSd.sacl, hbytes, fun hn => absurd (.inl hset) hn, fun _ => ⟨rfl, hvalid⟩⟩
  · rw [parseLabelSubsetAceBytes_eq_ok hfound] at hvalid hrelabel
    obtain ⟨sacl, hbytes, hentries⟩ := relabeledSacl_eq_ok hrelabel
    have hlabel := labelAce_relabeled (fun _ hace => find?_some hace) hentries
    exact ⟨sacl, hbytes, fun hn => absurd (.inr hset) hn, fun _ => ⟨hlabel, hvalid⟩⟩
  · have hkeeps : ¬ SetsLabel securityInfo := by simp [SetsLabel, hsacl, hlabel]
    exact ⟨currentSd.sacl, hbytes, fun _ => rfl, fun hs => absurd hs hkeeps⟩

/-- Without the privilege to relabel, a label that may be assigned is within the subject's
level. -/
theorem le_of_validateLabelAssignment
    (hprivilege : subject.subjectHasEnabledPrivilege seRelabelPrivilege = false)
    (h : validateLabelAssignment subject (some bytes) = .ok ()) :
    ∃ level, labelIntegrityFromAce bytes = .ok level ∧ level ≤ subject.integrityLevel := by
  obtain ⟨level, hlevel, h⟩ := of_bind h
  refine ⟨level, hlevel, ?_⟩
  by_contra hle
  rw [if_neg hle, hprivilege] at h
  cases h

/-! ## The bound -/

theorem resolveMandatoryLabel_congr {a b : SecurityDescriptor} (h : a.sacl = b.sacl) :
    resolveMandatoryLabel a = resolveMandatoryLabel b := by
  unfold resolveMandatoryLabel
  rw [h]

/-- **When a merge keeps the label in bounds.** For a subject that may not relabel, the label of
the merged descriptor is at most the current one or the subject's level exactly when the merge
does not set the label, or the input has one, or medium, which an object without a label counts
as, is within the bound. -/
theorem mergeSdWithCurrentDescriptor_label_bounded {subject : BootToken}
    {currentSd inputSd : SecurityDescriptor} {securityInfo : BitVec 32}
    {inputSdBytes bytes : Bytes} {allowRestoreOwnerAssignment : Bool} {current : MandatoryLabel}
    (hprivilege : subject.subjectHasEnabledPrivilege seRelabelPrivilege = false)
    (hcurrent : resolveMandatoryLabel currentSd = .ok current)
    (hinput : parse inputSdBytes = .ok inputSd)
    (hmerge : mergeSdWithCurrentDescriptor subject currentSd securityInfo inputSdBytes
      allowRestoreOwnerAssignment = .ok bytes) :
    ∃ sd label, parse bytes = .ok sd ∧
      resolveMandatoryLabel sd = .ok label ∧
      (label.integrityLevel.toNat ≤
          max current.integrityLevel.toNat subject.integrityLevel.toNat ↔
        ¬ SetsLabel securityInfo ∨
          (∃ ace ∈ aclEntries inputSd.sacl, isLabelAce ace = true) ∨
          IntegrityLevel.medium.toNat ≤
            max current.integrityLevel.toNat subject.integrityLevel.toNat) := by
  obtain ⟨inputSd', sd, hinput', hparse, hmerged⟩ := mergeSdWithCurrentDescriptor_eq_ok hmerge
  cases hinput.symm.trans hinput'
  obtain ⟨sacl, hbytes, hkeeps, hsets⟩ := mergedSacl_eq_ok hmerged.sacl_eq
  obtain rfl : sd.sacl = sacl := Option.map_injective (fun _ _ => Acl.ext) hbytes
  by_cases hset : SetsLabel securityInfo
  · obtain ⟨hlabel, hvalid⟩ := hsets hset
    cases hgiven : labelAce inputSd.sacl with
    | none =>
      -- the label is gone, and medium takes its place
      have hno : ¬ ∃ ace ∈ aclEntries inputSd.sacl, isLabelAce ace = true := by
        rintro ⟨ace, hace, hl⟩
        exact find?_eq_none.mp hgiven ace hace hl
      refine ⟨sd, _, hparse, resolveMandatoryLabel_of_none (hlabel.trans hgiven), ?_⟩
      simp only [hset, hno, not_true_eq_false, false_or]
      rfl
    | some ace =>
      rw [hgiven] at hvalid
      obtain ⟨level, hlevel, hle⟩ := le_of_validateLabelAssignment hprivilege hvalid
      obtain ⟨label, hresolve, rfl⟩ := resolveMandatoryLabel_of_some (hlabel.trans hgiven) hlevel
      have hmem : ∃ ace ∈ aclEntries inputSd.sacl, isLabelAce ace = true :=
        ⟨ace, mem_of_find?_eq_some hgiven, find?_some hgiven⟩
      refine ⟨sd, label, hparse, hresolve, iff_of_true ?_ (.inr (.inl hmem))⟩
      exact Nat.le_trans hle (Nat.le_max_right _ _)
  · have hsame := resolveMandatoryLabel_congr (hkeeps hset)
    exact ⟨sd, current, hparse, hsame.trans hcurrent, iff_of_true (Nat.le_max_left _ _) (.inl hset)⟩

/-! ## A label raised by leaving it out -/

namespace Sample

def lowLabel : Sid := ⟨[1, 1, 0, 0, 0, 0, 0, 16, 0, 16, 0, 0], by decide⟩

/-- A subject of low integrity, without privileges. -/
def lowSubject : BootToken where
  userSid := Sid.everyone
  groups := []
  privileges := { present := 0#64, enabled := 0#64, enabledByDefault := 0#64, used := 0#64 }
  integrityLevel := 4096#32
  mandatoryPolicy := tokenMandatoryPolicyNoWriteUp
  tokenType := .primary
  impersonationLevel := .anonymous
  userDenyOnly := false
  writeRestricted := false
  restrictedSids := []
  restrictedDeviceGroups := []
  confinementSid := none
  confinementCapabilities := []
  confinementExempt := false
  auditPolicy := 0#32
  userDenyOnly_of_writeRestricted := by decide

def lowSacl : Bytes :=
  aclHeaderAndEntries aclRevision 0#8 0#16
    [basicAce systemMandatoryLabelAceType 0#8 systemMandatoryLabelNoWriteUp lowLabel]

/-- An object of low integrity. -/
def lowSd : SecurityDescriptor :=
  (parse (assemble 0#8 (seSelfRelative ||| seSaclPresent)
    (some Sid.system.bytes) none (some lowSacl) none)).toOption.get (by decide)

/-- A descriptor without lists. -/
def unlabeledSd : SecurityDescriptor :=
  (parse (assemble 0#8 seSelfRelative
    (some Sid.system.bytes) none none none)).toOption.get (by decide)

end Sample

open Sample in
/-- A subject of low integrity sets the list of an object of low integrity to one without a label.
The object is medium then. -/
theorem mergeSdWithCurrentDescriptor_raises_label :
    lowSubject.subjectHasEnabledPrivilege seRelabelPrivilege = false ∧
      ∃ current bytes sd label, resolveMandatoryLabel lowSd = .ok current ∧
        mergeSdWithCurrentDescriptor lowSubject lowSd saclSecurityInformation unlabeledSd.bytes
          false = .ok bytes ∧
        parse bytes = .ok sd ∧ resolveMandatoryLabel sd = .ok label ∧
        ¬ label.integrityLevel.toNat ≤
          max current.integrityLevel.toNat lowSubject.integrityLevel.toNat := by
  refine ⟨by decide, ⟨4096#32, systemMandatoryLabelNoWriteUp, true⟩, ?_⟩
  obtain ⟨bytes, hbytes⟩ := exists_of_isOk
    (x := mergeSdWithCurrentDescriptor lowSubject lowSd saclSecurityInformation unlabeledSd.bytes
      false) (by decide +kernel)
  have hinput := parse_eq_ok.mpr (rfl : unlabeledSd.bytes = _)
  obtain ⟨inputSd, sd, hinput', hparse, hmerged⟩ := mergeSdWithCurrentDescriptor_eq_ok hbytes
  cases hinput.symm.trans hinput'
  have hnone : mergedSacl lowSubject lowSd unlabeledSd saclSecurityInformation = .ok none := by
    decide +kernel
  have hlabel : sd.sacl = none :=
    Option.map_eq_none_iff.mp (Except.ok.inj (hmerged.sacl_eq.symm.trans hnone))
  refine ⟨bytes, sd, defaultMandatoryLabel, by decide +kernel, hbytes, hparse,
    resolveMandatoryLabel_of_none (by rw [hlabel]; rfl), by decide⟩

open Sample in
/-- Setting the group of the object keeps its label. -/
theorem mergeSdWithCurrentDescriptor_label_bounded_sample :
    ∃ bytes sd label, mergeSdWithCurrentDescriptor lowSubject lowSd groupSecurityInformation
        unlabeledSd.bytes false = .ok bytes ∧
      parse bytes = .ok sd ∧ resolveMandatoryLabel sd = .ok label ∧
      label.integrityLevel.toNat ≤ 4096 := by
  obtain ⟨bytes, hbytes⟩ := exists_of_isOk
    (x := mergeSdWithCurrentDescriptor lowSubject lowSd groupSecurityInformation
      unlabeledSd.bytes false) (by decide +kernel)
  have hcurrent : resolveMandatoryLabel lowSd =
      .ok ⟨4096#32, systemMandatoryLabelNoWriteUp, true⟩ := by decide +kernel
  obtain ⟨sd, label, hparse, hresolve, hiff⟩ :=
    mergeSdWithCurrentDescriptor_label_bounded (by decide) hcurrent (parse_eq_ok.mpr rfl) hbytes
  exact ⟨bytes, sd, label, hbytes, hparse, hresolve, hiff.mpr (.inl (by decide))⟩

end Pkm.Kacs
