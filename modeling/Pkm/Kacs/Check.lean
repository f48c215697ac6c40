import Pkm.Kacs.Policies
/-!
# A whole check, one right at a time

`Checked input out` holds the stages of a successful check: the resolved
evaluation of the descriptor and the narrowing by policies. `grantAt i k` says
whether right `i` is granted at node `k` in the end.
-/

namespace Pkm.Kacs

open Bits Outcome

/-- The stages of a successful check. -/
structure Checked [CharCase] (input : AccessCheckCoreInput) (sd : SecurityDescriptor)
    (out : AccessCheckCoreState) where
  base : EvaluateSecurityDescriptorState
  caap : CaapEvaluationState
  resolved : Resolved (input.baseInput sd)
  base_eq : evaluateSecurityDescriptor (input.baseInput sd) = .ok base
  yields : resolved.Yields base
  caap_eq : evaluateCaap (input.caapInput sd base) = .ok caap
  grants_eq : out.grants = caap.grants
  pipDecided_eq : out.pipDecided = base.pipDecided
  used_eq : out.updatedPrivileges.used = input.token.privileges.used |||
    (evaluatePrivilegeUse (input.privilegeUseInput base caap)).1
  resultList : input.mode = .resultList → input.objectTree.isSome = true

/-- Every successful check has its stages. -/
theorem nonempty_checked [CharCase] {input : AccessCheckCoreInput} {out : AccessCheckCoreState}
    (h : accessCheckCore input = .ok out) :
    ∃ sd, input.sd = some sd ∧ Nonempty (Checked input sd out) := by
  obtain ⟨hmode, h⟩ := of_guard h
  split at h
  · cases h
  · rename_i sd hsd
    obtain ⟨base, hbase, h⟩ := of_bind h
    obtain ⟨caap, hcaap, h⟩ := of_bind h
    cases howner : sd.owner with
    | none => simp [howner] at h
    | some owner =>
      simp only [howner] at h
      obtain ⟨effective, -, h⟩ := of_bind h
      obtain ⟨⟨differs, diagnostics⟩, -, h⟩ := of_bind h
      cases h
      obtain ⟨r, hy⟩ := exists_resolved hbase
      refine ⟨sd, hsd, ⟨⟨base, caap, r, hbase, hy, hcaap, rfl, rfl, rfl, fun hm => ?_⟩⟩⟩
      by_contra hn
      exact hmode ⟨hm, by simpa using hn⟩

namespace Checked

variable [CharCase] {input : AccessCheckCoreInput} {sd : SecurityDescriptor}
  {out : AccessCheckCoreState} (c : Checked input sd out)

/-- Whether every rule that narrows the check grants a right at a node. -/
def rulesAt (i : Fin 32) (k : ℕ) : Bool :=
  (applicableDacls (input.caapInput sd c.base)).all fun dacl =>
    (ruleGrants (input.caapInput sd c.base) dacl).grants.holdsAt i k

/-- **What the check grants.** -/
noncomputable def grantAt (i : Fin 32) (k : ℕ) : Bool := c.resolved.grantAt i k && c.rulesAt i k

theorem presents : out.grants.Presents input.objectTree c.grantAt := by
  rw [c.grants_eq]
  exact presents_evaluateCaap c.caap_eq c.yields.presents

/-- The evaluation reads the descriptor of the check. -/
theorem resolved_sd : c.resolved.sd = sd := (Option.some.inj c.resolved.sd_eq).symm

theorem metadata_eq : extractSaclMetadata sd = .ok c.resolved.metadata := by
  rw [← c.resolved.metadata_eq, c.resolved_sd]

/-- Policies only narrow. -/
theorem base_of_grantAt {i : Fin 32} {k : ℕ} (h : c.grantAt i k = true) :
    c.resolved.grantAt i k = true :=
  (Bool.and_eq_true_iff.mp h).1

/-! ### Two checks compared -/

variable {input' : AccessCheckCoreInput} {out' : AccessCheckCoreState} (c' : Checked input' sd out')

/-- Two checks of one descriptor by one subject under the same policies have the same rules. -/
theorem applicableDacls_eq (hpolicies : input.policies = input'.policies)
    (hsubject : input.token.subject = input'.token.subject)
    (hcontext : input.conditionalContext = input'.conditionalContext) :
    applicableDacls (input.caapInput sd c.base) =
      applicableDacls (input'.caapInput sd c'.base) := by
  have hmeta : c.resolved.metadata = c'.resolved.metadata := (c.resolved.agree c'.resolved rfl).2.1
  refine applicableDacls_congr hpolicies ?_ ?_ hsubject hcontext
  · exact c.yields.policySids.trans ((congrArg _ hmeta).trans c'.yields.policySids.symm)
  · exact c.yields.resourceAttributes.trans
      ((congrArg _ hmeta).trans c'.yields.resourceAttributes.symm)

/-- A rule that can be evaluated for a process can be evaluated in every check by one of its
trust. -/
theorem rule_resolved {a : CaapEvaluationInput} {q : SecurityDescriptor} (hpip : a.pip = input.pip)
    (h : Nonempty (Resolved (ruleInput a q))) :
    Nonempty (Resolved (ruleInput (input.caapInput sd c.base) q)) := by
  obtain ⟨r⟩ := h
  have htrust : TrustApplies r.trustLabel input.pip := hpip ▸ r.trust_applies
  exact r.transfer rfl c.resolved.token_valid c.resolved.not_identification
    c.resolved.normalized_eq htrust

variable {i : Fin 32}

/-- What privileges keep of a base grant carries over with both. -/
theorem privilegeGranted_of
    (hprivilege : c.resolved.privilegeAt i = true → c'.resolved.privilegeAt i = true)
    (hgrant : c.resolved.grantAt i 0 = true → c'.resolved.grantAt i 0 = true)
    (h : bit c.base.privilegeGranted i = true) : bit c'.base.privilegeGranted i = true := by
  rw [c.yields.privilegeGranted, Bool.and_eq_true] at h
  rw [c'.yields.privilegeGranted, hprivilege h.1, hgrant h.2]
  rfl

end Checked

namespace Grants

variable {tree : Option ObjectTypeList} {a : Grants} {g : Fin 32 → ℕ → Bool}

/-- A property of masks holds of every mask of a grant. -/
def Forall (P : Mask → Prop) (a : Grants) : Prop :=
  P a.scalar ∧ ∀ l, a.nodes = some l → ∀ m ∈ l, P m

/-- What holds at every node holds of every mask. -/
theorem Presents.forall {P : Mask → Prop} (ha : a.Presents tree g)
    (h : ∀ k, k < (forestOf tree).size → ∀ m : Mask, (∀ i, bit m i = g i k) → P m) :
    a.Forall P := by
  refine ⟨h 0 (forestOf_size_pos tree) _ ha.scalar, fun l hl m hm => ?_⟩
  obtain ⟨k, hk, rfl⟩ := List.mem_iff_getElem.mp hm
  refine h k (ha.lt_size hl hk) _ fun i => ?_
  rw [← ha.nodes hl hk i, List.getD_eq_getElem _ _ hk]

end Grants

/-! ## A small check

A token of one user without groups or privileges, a mapping with one right per generic right, a
tree of a root with two children, and a descriptor laid out from its parts. -/

namespace Sample

/-- Lower-casing of the ASCII letters. -/
@[reducible]
def asciiCase : CharCase := ⟨fun c => [c.toLower]⟩

def context : ConditionalContext where
  selfSid := none
  principalSelfMatches := none
  callerIsOwner := OwnerMatch.none
  identity := none
  identityMembershipIsPresenceBased := false
  deviceGroups := []
  deviceMembershipUsesVirtualGroups := false
  membershipAllowed := true
  userClaims := []
  deviceClaims := []
  resourceClaims := []
  localClaims := []

def token (user : Sid) : AccessCheckToken where
  subject := { user, userDenyOnly := false, groups := [] }
  tokenType := .primary
  impersonationLevel := .anonymous
  auditPolicy := 0#32
  privileges := { present := 0#64, enabled := 0#64, enabledByDefault := 0#64, used := 0#64 }
  integrityLevel := IntegrityLevel.medium
  mandatoryPolicy := tokenMandatoryPolicyNoWriteUp
  restricted := { restrictedSids := [], restrictedDeviceGroups := [], writeRestricted := false }
  confinement :=
    { confinementSid := none, confinementCapabilities := [], confinementExempt := false }

/-- Holds and enables some privileges. -/
def withPrivileges (token : AccessCheckToken) (mask : BitVec 64) : AccessCheckToken :=
  { token with privileges := { token.privileges with present := mask, enabled := mask } }

def mapping : GenericMapping where
  read := 1#32
  write := 2#32
  execute := 4#32
  all := 7#32 ||| delete ||| readControl ||| writeDac ||| writeOwner ||| synchronize

/-- A GUID of one repeated byte. -/
def guid (b : Byte) : Guid := ⟨List.replicate 16 b, List.length_replicate⟩

def tree : ObjectTypeList where
  nodes := [⟨0#16, guid 0#8⟩, ⟨1#16, guid 1#8⟩, ⟨1#16, guid 2#8⟩]
  parents := [none, some 0, some 0]
  wf := by decide

/-- The list of some entries. -/
def acl (aces : List Bytes) : Bytes := aclHeaderAndEntries aclRevisionDs 0#8 0#16 aces

/-- An entry that grants a mask. -/
def allow (mask : Mask) (sid : Sid) : Bytes := basicAce accessAllowedAceType 0#8 mask sid

/-- An entry that keeps those below high integrity from writing. -/
def highLabel : Bytes :=
  basicAce systemMandatoryLabelAceType 0#8 systemMandatoryLabelNoWriteUp
    ⟨[1, 1, 0, 0, 0, 0, 0, 16, 0, 0x30, 0, 0], by decide⟩

/-- The bytes of a descriptor with an owner and optional lists of entries. -/
def sdBytes (owner : Sid) (sacl dacl : Option (List Bytes)) : Bytes :=
  SecurityDescriptor.assemble 0#8
    (seSelfRelative ||| (if sacl.isSome then seSaclPresent else 0#16) |||
      (if dacl.isSome then seDaclPresent else 0#16)) (some owner.bytes) none (sacl.map acl)
    (dacl.map acl)

def descriptor (owner : Sid) (sacl dacl : Option (List Bytes))
    (h : (SecurityDescriptor.parse (sdBytes owner sacl dacl)).toOption.isSome = true) :
    SecurityDescriptor :=
  (SecurityDescriptor.parse (sdBytes owner sacl dacl)).toOption.get h

/-- A descriptor of the system that grants everyone the right to read. -/
def sd : SecurityDescriptor :=
  descriptor Sid.system none (some [allow 1#32 Sid.everyone]) (by decide)

/-- The owner of the descriptor asks for everything, over the tree. -/
def check : AccessCheckCoreInput where
  sd := some sd
  token := token Sid.system
  pip := { pipType := 0#32, pipTrust := 0#32 }
  desiredAccess := maximumAllowed
  mapping := mapping
  mode := .resultList
  objectTree := some tree
  conditionalContext := context
  objectAuditContext := none
  privilegeIntent := 0#32
  policies := []

end Sample

end Pkm.Kacs
