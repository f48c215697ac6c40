import Pkm.Kacs.Helpers.Synthetic
import Pkm.Kacs.Model.AccessCheck
import Pkm.Kacs.Pipeline
import Pkm.Lib.Meet
/-!
# Central policies as a narrowing

The rules that narrow a check are those of the policies the descriptor names that
apply, and the recovery rule for a policy that is not installed. Whatever a rule
does, it yields one grant over the tree; narrowing never fails once the base grant
fits the tree, and it meets the base grant with the grant of every such rule.
-/

namespace Pkm.Kacs

open Bits List Outcome

variable {nodes : Option (List Mask)}

/-- The grants of a rule. -/
def RuleGrantState.grants (self : RuleGrantState) : Grants where
  scalar := self.granted
  nodes := self.objectGrantedList

/-- The effective grants of a narrowing by policies. -/
def CaapEvaluationState.grants (self : CaapEvaluationState) : Grants where
  scalar := self.granted
  nodes := self.objectGrantedList

/-- The staged grants of a narrowing by policies. -/
def CaapEvaluationState.stagedGrants (self : CaapEvaluationState) : Grants where
  scalar := self.stagedGranted
  nodes := self.stagedObjectGrantedList

/-- The grants of a check. -/
def AccessCheckCoreState.grants (self : AccessCheckCoreState) : Grants where
  scalar := self.granted
  nodes := self.objectGrantedList

/-- The DACL of the recovery policy. -/
def recoveryPolicyDacl : Bytes := aclHeaderAndEntries aclRevision 0#8 0#16 recoveryAces

/-- The rule that stands in for a policy that is not installed. -/
def recoveryRule : CaapRule where
  appliesTo := none
  effectiveDacl := recoveryPolicyDacl
  effectiveSacl := none
  stagedDacl := none
  stagedSacl := none

section Rules

variable [CharCase] (input : CaapEvaluationInput) (policySid : Sid)

/-- The rules a named policy contributes. -/
def policyRules : List CaapRule :=
  match lookupPolicy input.policies policySid with
  | some policy => policy.rules.filter fun rule => ruleApplies input rule.appliesTo
  | none => [recoveryRule]

/-- All rules that narrow the check. -/
def applicableRules : List CaapRule := input.base.policySids.flatMap (policyRules input)

/-- The DACLs of the rules a named policy contributes. -/
def policyDacls : List Bytes := (policyRules input policySid).map (·.effectiveDacl)

/-- The DACLs of all rules that narrow the check. -/
def applicableDacls : List Bytes := input.base.policySids.flatMap (policyDacls input)

theorem applicableDacls_eq :
    applicableDacls input = (applicableRules input).map (·.effectiveDacl) :=
  map_flatMap.symm

/-- What a rule grants by its own DACL. -/
def effectiveGrants (rule : CaapRule) : Grants := (ruleGrants input rule.effectiveDacl).grants

/-- What a rule grants by its staged DACL, which defaults to its own. -/
def stagedGrants (rule : CaapRule) : Grants :=
  (ruleGrants input (rule.stagedDacl.getD rule.effectiveDacl)).grants

/-- The descriptor with a rule's DACL in place of its own, if that can be built. -/
def syntheticSd (sd : SecurityDescriptor) (dacl : Bytes) : Option SecurityDescriptor :=
  (buildSyntheticSdBytes sd dacl).toOption.bind fun bytes =>
    (SecurityDescriptor.parse bytes).toOption

end Rules

/-- The descriptor of a rule: everything but the DACL and the scoped policies is kept. -/
theorem syntheticSd_eq_some {base sd : SecurityDescriptor} {dacl : Bytes}
    (h : syntheticSd base dacl = some sd) :
    sd.owner = base.owner ∧ sd.group = base.group ∧
      sd.sacl.map Acl.entries = (base.sacl.map fun acl => acl.entries.filter keptInRule) ∧
      ∃ acl tail, sd.dacl = some acl ∧ dacl = acl.bytes ++ tail := by
  obtain ⟨bytes, hb, hp⟩ := Option.bind_eq_some_iff.mp h
  have hbuild := eq_ok_of_toOption hb
  obtain ⟨acl, tail, rfl⟩ := exists_acl_of_buildSyntheticSdBytes hbuild (eq_ok_of_toOption hp)
  obtain ⟨sd', hparse, howner, hgroup, -, -, hdacl, hentries⟩ := parse_buildSyntheticSdBytes hbuild
  cases hparse.symm.trans (eq_ok_of_toOption hp)
  exact ⟨howner, hgroup, hentries, acl, tail, hdacl, rfl⟩

/-- A rule that cannot be evaluated grants the same at every node. -/
theorem presents_denyExceptPrivileges (privilegeGranted : Mask) (tree : Option ObjectTypeList) :
    (denyExceptPrivileges privilegeGranted tree).grants.Presents tree
      fun i _ => bit privilegeGranted i := by
  refine ⟨fun i => rfl, ?_, ?_⟩
  · cases tree <;> simp [denyExceptPrivileges, RuleGrantState.grants]
  · intro l hl k hk i
    obtain ⟨t, rfl, rfl⟩ : ∃ t, tree = some t ∧ List.replicate t.len privilegeGranted = l := by
      simpa [denyExceptPrivileges, RuleGrantState.grants] using hl
    rw [getD_eq_getElem _ _ hk, getElem_replicate]

/-- The staged contribution an effective one becomes for want of a staged list. -/
def CaapSaclContribution.restage (self : CaapSaclContribution) : CaapSaclContribution :=
  { self with phase := .staged }

/-! ## The meet of grants -/

namespace Grants

variable {l : List Grants}

/-- The grant has one mask per node of the tree. -/
def Fits (tree : Option ObjectTypeList) (a : Grants) : Prop :=
  a.nodes.map List.length = tree.map ObjectTypeList.len

/-- What both grant, node by node. -/
def inter (a b : Grants) : Grants where
  scalar := a.scalar &&& b.scalar
  nodes := a.nodes.bind fun l => b.nodes.map (List.zipWith (· &&& ·) l)

theorem zipWith_and_assoc (l l' l'' : List Mask) :
    List.zipWith (· &&& ·) (List.zipWith (· &&& ·) l l') l'' =
      List.zipWith (· &&& ·) l (List.zipWith (· &&& ·) l' l'') := by
  refine ext_getElem (by simp [Nat.min_assoc]) fun k hk hk' => ?_
  simp [BitVec.and_assoc]

instance : Std.Commutative inter where
  comm := by
    rintro ⟨m, l⟩ ⟨m', l'⟩
    have hlists : ∀ l l' : List Mask,
        List.zipWith (· &&& ·) l l' = List.zipWith (· &&& ·) l' l := fun l l' =>
      zipWith_comm_of_comm fun a b => BitVec.and_comm a b
    cases l <;> cases l' <;> simp [inter, BitVec.and_comm m m', hlists]

instance : Std.Associative inter where
  assoc := by
    rintro ⟨m, l⟩ ⟨m', l'⟩ ⟨m'', l''⟩
    cases l <;> cases l' <;> cases l'' <;>
      simp [inter, BitVec.and_assoc, zipWith_and_assoc]

instance : Std.IdempotentOp inter where
  idempotent := by
    rintro ⟨m, l⟩
    cases l <;> simp [inter]

variable {tree : Option ObjectTypeList} {a b : Grants}

/-- Grants that fit one tree can be intersected, and fit it still. -/
theorem Fits.intersect (ha : a.Fits tree) (hb : b.Fits tree) :
    intersectObjectGrants a.nodes b.nodes = .ok (inter a b).nodes ∧ (inter a b).Fits tree := by
  obtain ⟨m, l⟩ := a
  obtain ⟨m', l'⟩ := b
  cases tree <;> cases l <;> cases l' <;>
    simp_all [inter, intersectObjectGrants, Fits]

theorem Fits.foldl (ha : a.Fits tree) (hl : ∀ b ∈ l, b.Fits tree) :
    (l.foldl inter a).Fits tree :=
  List.foldlRecOn l inter ha fun _ h b hb => (h.intersect (hl b hb)).2

/-- Meeting two grants over one tree meets them node by node. -/
theorem Presents.inter {g h : Fin 32 → ℕ → Bool} (ha : a.Presents tree g)
    (hb : b.Presents tree h) : (Grants.inter a b).Presents tree fun i k => g i k && h i k := by
  refine ⟨fun i => ?_, (Fits.intersect ha.lengths hb.lengths).2, ?_⟩
  · show bit (a.scalar &&& b.scalar) i = _
    rw [bit_and, ha.scalar, hb.scalar]
  · intro l hl k hk i
    obtain ⟨la, hla, hl⟩ := Option.bind_eq_some_iff.mp hl
    obtain ⟨lb, hlb, rfl⟩ := Option.map_eq_some_iff.mp hl
    have hk' : k < la.length ∧ k < lb.length := by
      rw [length_zipWith] at hk
      omega
    rw [Grants.getD_zipWith _ hk'.1 hk'.2, bit_and, ha.nodes hla hk'.1, hb.nodes hlb hk'.2]

theorem Presents.foldl {g : Fin 32 → ℕ → Bool} (ha : a.Presents tree g)
    (hl : ∀ b ∈ l, b.Presents tree b.holdsAt) :
    (l.foldl Grants.inter a).Presents tree fun i k => g i k && l.all fun b => b.holdsAt i k := by
  induction l generalizing a g with
  | nil => simpa using ha
  | cons b l ih =>
    have hb := ha.inter (hl b mem_cons_self)
    have := ih hb (forall_mem_cons.mp hl).2
    simpa [Bool.and_assoc] using this

end Grants

/-- Both grants of a narrowing fit the tree. -/
structure CaapEvaluationState.Fits (tree : Option ObjectTypeList) (state : CaapEvaluationState) :
    Prop where
  grants : state.grants.Fits tree
  staged : state.stagedGrants.Fits tree

/-- The narrowing before the first rule. -/
def startNarrowing (base : EvaluateSecurityDescriptorState) (nodes : Option (List Mask)) :
    CaapEvaluationState where
  granted := base.granted
  objectGrantedList := nodes
  stagedGranted := base.granted
  stagedObjectGrantedList := nodes
  effectiveSacls := []
  stagedSacls := []

theorem cloneBaseObjectGrants_eq_ok {base : EvaluateSecurityDescriptorState}
    {tree : Option ObjectTypeList} (h : cloneBaseObjectGrants base tree = .ok nodes) :
    (startNarrowing base nodes).Fits tree ∧ nodes = tree.bind fun _ => base.objectGrantedList := by
  suffices hboth : nodes.map List.length = tree.map ObjectTypeList.len ∧ _ from
    ⟨⟨hboth.1, hboth.1⟩, hboth.2⟩
  unfold cloneBaseObjectGrants at h
  cases tree with
  | none =>
    cases h
    exact ⟨rfl, rfl⟩
  | some t =>
    cases hlist : base.objectGrantedList with
    | none => simp [hlist] at h
    | some list =>
      simp only [hlist] at h
      obtain ⟨hlen, h⟩ := of_guard h
      cases h
      exact ⟨by simpa using hlen, rfl⟩

/-- A base grant over the tree is taken as it is. -/
theorem cloneBaseObjectGrants_eq {input : CaapEvaluationInput} {g : Fin 32 → ℕ → Bool}
    (hg : input.base.grants.Presents input.objectTree g)
    (h : cloneBaseObjectGrants input.base input.objectTree = .ok nodes) :
    nodes = input.base.objectGrantedList := by
  rw [(cloneBaseObjectGrants_eq_ok h).2]
  cases htree : input.objectTree with
  | none =>
    rw [htree] at hg
    exact hg.nodes_eq_none.symm
  | some t => rfl

variable [CharCase] {input : CaapEvaluationInput} {a b : CaapEvaluationInput}
  {s : CaapEvaluationState}

/-- A rule is evaluated, or leaves what privileges granted. -/
theorem ruleGrants_cases (input : CaapEvaluationInput) (dacl : Bytes) :
    (∃ sd st, syntheticSd input.sd dacl = some sd ∧
      evaluateSecurityDescriptor (ruleInput input sd) = .ok st ∧
      (ruleGrants input dacl).grants = st.grants) ∨
    ((∀ sd, syntheticSd input.sd dacl = some sd →
        ∀ st, evaluateSecurityDescriptor (ruleInput input sd) ≠ .ok st) ∧
      ruleGrants input dacl =
        denyExceptPrivileges input.base.privilegeGranted input.objectTree) := by
  have hrule : evaluateRuleDacl input dacl = (syntheticSd input.sd dacl).bind fun sd =>
      (evaluateSecurityDescriptor (ruleInput input sd)).toOption.bind fun st =>
        some ⟨st.granted, st.objectGrantedList⟩ := (Option.bind_assoc ..).symm
  rw [ruleGrants, hrule]
  cases syntheticSd input.sd dacl with
  | none => exact .inr ⟨fun _ h => (by cases h), rfl⟩
  | some sd =>
    rw [Option.bind_some]
    cases he : evaluateSecurityDescriptor (ruleInput input sd) with
    | error e =>
      refine .inr ⟨?_, rfl⟩
      rintro _ ⟨⟩ st hst
      cases he.symm.trans hst
    | ok st => exact .inl ⟨sd, st, rfl, he, rfl⟩

/-- **A rule yields one grant over the tree**, evaluated or not. -/
theorem presents_ruleGrants (dacl : Bytes) :
    (ruleGrants input dacl).grants.Presents input.objectTree
      (ruleGrants input dacl).grants.holdsAt := by
  obtain ⟨sd, st, -, hok, heq⟩ | ⟨-, heq⟩ := ruleGrants_cases input dacl
  · obtain ⟨r, hy⟩ := exists_resolved hok
    rw [heq]
    exact hy.presents.congr fun i k hk => (hy.presents.holdsAt_eq hk).symm
  · rw [heq]
    have h := presents_denyExceptPrivileges input.base.privilegeGranted input.objectTree
    exact h.congr fun i k hk => (h.holdsAt_eq hk).symm

/-! ## A narrowing, rule by rule -/

variable (input) in
/-- The second narrowing is the first met with every rule of a list. Rules without staged audit
lists contribute the same lists to both phases. -/
structure Narrowed (rules : List CaapRule) (state state' : CaapEvaluationState) : Prop where
  grants : state'.grants = (rules.map (effectiveGrants input)).foldl Grants.inter state.grants
  staged : state'.stagedGrants =
    (rules.map (stagedGrants input)).foldl Grants.inter state.stagedGrants
  sacls : (∀ rule ∈ rules, rule.stagedSacl = none) →
    ∃ added, state'.effectiveSacls = state.effectiveSacls ++ added ∧
      state'.stagedSacls = state.stagedSacls ++ added.map CaapSaclContribution.restage

theorem Narrowed.refl (s : CaapEvaluationState) : Narrowed input [] s s :=
  ⟨rfl, rfl, fun _ => ⟨[], by simp⟩⟩

theorem Narrowed.append {rules rules' : List CaapRule} {s₁ s₂ : CaapEvaluationState}
    (h : Narrowed input rules s s₁) (h' : Narrowed input rules' s₁ s₂) :
    Narrowed input (rules ++ rules') s s₂ := by
  refine ⟨?_, ?_, fun hnone => ?_⟩
  · rw [map_append, foldl_append, ← h.grants, h'.grants]
  · rw [map_append, foldl_append, ← h.staged, h'.staged]
  · obtain ⟨hnone, hnone'⟩ := forall_mem_append.mp hnone
    obtain ⟨added, he, hs⟩ := h.sacls hnone
    obtain ⟨added', he', hs'⟩ := h'.sacls hnone'
    refine ⟨added ++ added', ?_, ?_⟩
    · rw [he', he, append_assoc]
    · rw [hs', hs, map_append, append_assoc]

theorem Narrowed.fits {rules : List CaapRule} {s' : CaapEvaluationState}
    (h : Narrowed input rules s s') (hs : s.Fits input.objectTree) : s'.Fits input.objectTree := by
  refine ⟨?_, ?_⟩
  · rw [h.grants]
    exact hs.grants.foldl (forall_mem_map.mpr fun _ _ => (presents_ruleGrants _).lengths)
  · rw [h.staged]
    exact hs.staged.foldl (forall_mem_map.mpr fun _ _ => (presents_ruleGrants _).lengths)

variable (policySid : Option Sid) (ruleIndex : BitVec 32) (rule : CaapRule)

variable (input) in
/-- The narrowing after a rule that applies. -/
def afterRule (state : CaapEvaluationState) : CaapEvaluationState where
  granted := (state.grants.inter (effectiveGrants input rule)).scalar
  objectGrantedList := (state.grants.inter (effectiveGrants input rule)).nodes
  stagedGranted := (state.stagedGrants.inter (stagedGrants input rule)).scalar
  stagedObjectGrantedList := (state.stagedGrants.inter (stagedGrants input rule)).nodes
  effectiveSacls := state.effectiveSacls ++
    contributions .effective policySid ruleIndex rule.effectiveSacl
  stagedSacls := state.stagedSacls ++
    contributions .staged policySid ruleIndex (rule.stagedSacl.or rule.effectiveSacl)

/-- A rule never fails: it does nothing or narrows. -/
theorem applyRule_eq (hs : s.Fits input.objectTree) :
    applyRule input policySid ruleIndex rule s =
      .ok (if ruleApplies input rule.appliesTo then afterRule input policySid ruleIndex rule s
        else s) := by
  unfold applyRule
  by_cases happ : ruleApplies input rule.appliesTo = true
  · rw [if_neg (not_not.mpr happ), if_pos happ]
    have hgrants := hs.grants.intersect (presents_ruleGrants rule.effectiveDacl).lengths
    have hstaged := hs.staged.intersect
      (presents_ruleGrants (rule.stagedDacl.getD rule.effectiveDacl)).lengths
    refine bind_eq_ok.mpr ⟨_, hgrants.1, ?_⟩
    -- the staged DACL defaults to the rule's own
    unfold afterRule stagedGrants
    cases hdacl : rule.stagedDacl <;> rw [hdacl] at hstaged <;>
      exact bind_eq_ok.mpr ⟨_, hstaged.1, rfl⟩
  · rw [if_pos happ, if_neg happ]

variable (input) in
theorem narrowed_afterRule (s : CaapEvaluationState) :
    Narrowed input [rule] s (afterRule input policySid ruleIndex rule s) := by
  refine ⟨rfl, rfl, fun hnone => ?_⟩
  have hsacl : rule.stagedSacl = none := hnone rule mem_cons_self
  refine ⟨contributions .effective policySid ruleIndex rule.effectiveSacl, rfl, ?_⟩
  unfold afterRule
  rw [hsacl, Option.none_or]
  unfold contributions
  cases policySid <;> cases rule.effectiveSacl <;> rfl

/-- One rule narrows by what it grants if it applies. -/
theorem applyRule_narrowed (hs : s.Fits input.objectTree) :
    ∃ s', applyRule input policySid ruleIndex rule s = .ok s' ∧
      Narrowed input ([rule].filter fun rule => ruleApplies input rule.appliesTo) s s' := by
  refine ⟨_, applyRule_eq policySid ruleIndex rule hs, ?_⟩
  rw [filter_singleton]
  cases ruleApplies input rule.appliesTo with
  | true => exact narrowed_afterRule input policySid ruleIndex rule s
  | false => exact Narrowed.refl s

/-- Steps that narrow by some rules each narrow by all of them together. -/
theorem foldlM_narrowed {ι : Type*}
    {step : CaapEvaluationState → ι → KacsResult CaapEvaluationState} {rules : ι → List CaapRule}
    (hstep : ∀ x s, s.Fits input.objectTree →
      ∃ s', step s x = .ok s' ∧ Narrowed input (rules x) s s') (l : List ι)
    (hs : s.Fits input.objectTree) :
    ∃ s', l.foldlM step s = .ok s' ∧ Narrowed input (l.flatMap rules) s s' := by
  induction l generalizing s with
  | nil => exact ⟨s, rfl, Narrowed.refl s⟩
  | cons x l ih =>
    obtain ⟨s₁, h₁, hn₁⟩ := hstep x s hs
    obtain ⟨s₂, h₂, hn₂⟩ := ih (hn₁.fits hs)
    refine ⟨s₂, ?_, hn₁.append hn₂⟩
    rw [foldlM_cons, h₁]
    exact h₂

/-- One named policy narrows by every rule it contributes. -/
theorem applyPolicy_narrowed (policySid : Sid) (hs : s.Fits input.objectTree) :
    ∃ s', applyPolicy input s policySid = .ok s' ∧
      Narrowed input (policyRules input policySid) s s' := by
  unfold applyPolicy policyRules
  cases hlookup : lookupPolicy input.policies policySid with
  | some policy =>
    have hrun := foldlM_narrowed
      (fun (x : CaapRule × ℕ) s (hs : s.Fits input.objectTree) =>
        applyRule_narrowed (some policySid) (BitVec.ofNat 32 x.2) x.1 hs)
      policy.rules.zipIdx hs
    have hrules : (policy.rules.zipIdx.flatMap fun x =>
        [x.1].filter fun rule => ruleApplies input rule.appliesTo) =
        policy.rules.filter fun rule => ruleApplies input rule.appliesTo := by
      rw [← filter_flatMap, ← map_eq_flatMap, zipIdx_map_fst]
    rw [hrules] at hrun
    exact hrun
  | none =>
    obtain ⟨s', hs', hn⟩ := applyRule_narrowed none 0#32 recoveryRule hs
    exact ⟨s', bind_eq_ok.mpr ⟨recoveryPolicyDacl, by decide, hs'⟩, hn⟩

/-- **Policies meet the base grant with every rule**, and never fail once it fits the tree. -/
theorem evaluateCaap_narrowed {nodes : Option (List Mask)}
    (h : cloneBaseObjectGrants input.base input.objectTree = .ok nodes) :
    ∃ state, evaluateCaap input = .ok state ∧
      Narrowed input (applicableRules input) (startNarrowing input.base nodes) state := by
  obtain ⟨state, hrun, hn⟩ := foldlM_narrowed (fun sid s hs => applyPolicy_narrowed sid hs)
    input.base.policySids (cloneBaseObjectGrants_eq_ok h).1
  exact ⟨state, bind_eq_ok.mpr ⟨nodes, h, hrun⟩, hn⟩

/-- **What a check grants is what the descriptor and every rule grant.** -/
theorem presents_evaluateCaap {state : CaapEvaluationState} {g : Fin 32 → ℕ → Bool}
    (h : evaluateCaap input = .ok state)
    (hg : input.base.grants.Presents input.objectTree g) :
    state.grants.Presents input.objectTree fun i k =>
      g i k && (applicableDacls input).all fun dacl =>
        (ruleGrants input dacl).grants.holdsAt i k := by
  obtain ⟨nodes, hnodes, -⟩ := of_bind h
  obtain ⟨state', h', hn⟩ := evaluateCaap_narrowed hnodes
  cases h.symm.trans h'
  have hstart : (startNarrowing input.base nodes).grants = input.base.grants := by
    rw [cloneBaseObjectGrants_eq hg hnodes]
    rfl
  rw [hn.grants, hstart]
  have hall := hg.foldl (l := (applicableRules input).map (effectiveGrants input))
    (forall_mem_map.mpr fun rule _ => presents_ruleGrants rule.effectiveDacl)
  refine hall.congr fun i k _ => ?_
  rw [applicableDacls_eq, all_map, all_map]
  rfl

/-! ## Two checks compared -/

/-- Whether a rule applies depends on the subject and the claims only. -/
theorem ruleApplies_congr (hattributes : a.base.resourceAttributes = b.base.resourceAttributes)
    (hsubject : a.token.subject = b.token.subject)
    (hcontext : a.conditionalContext = b.conditionalContext) : ruleApplies a = ruleApplies b := by
  unfold ruleApplies ruleContext
  rw [hsubject, hcontext, hattributes]

/-- Two checks that read the same policies and the same claims have the same rules. -/
theorem applicableDacls_congr (hpolicies : a.policies = b.policies)
    (hsids : a.base.policySids = b.base.policySids)
    (hattributes : a.base.resourceAttributes = b.base.resourceAttributes)
    (hsubject : a.token.subject = b.token.subject)
    (hcontext : a.conditionalContext = b.conditionalContext) :
    applicableDacls a = applicableDacls b := by
  have hdacls : policyDacls a = policyDacls b := by
    unfold policyDacls policyRules
    rw [hpolicies, ruleApplies_congr hattributes hsubject hcontext]
  rw [applicableDacls, applicableDacls, hsids, hdacls]

/-- A rule in two checks: it is evaluated in both, or it leaves what privileges granted in both. -/
theorem ruleGrants_compare {dacl : Bytes} {i : Fin 32} {k : ℕ} {R : Bool → Bool → Prop}
    (hsd : a.sd = b.sd) (htree : a.objectTree = b.objectTree)
    (hk : k < (forestOf a.objectTree).size) (hboth : ∀ sd, syntheticSd a.sd dacl = some sd →
      (Nonempty (Resolved (ruleInput a sd)) ↔ Nonempty (Resolved (ruleInput b sd))))
    (hrule : ∀ sd (r : Resolved (ruleInput a sd)) (r' : Resolved (ruleInput b sd)),
      syntheticSd a.sd dacl = some sd → R (r.grantAt i k) (r'.grantAt i k))
    (hprivilege : R (bit a.base.privilegeGranted i) (bit b.base.privilegeGranted i)) :
    R ((ruleGrants a dacl).grants.holdsAt i k) ((ruleGrants b dacl).grants.holdsAt i k) := by
  have hk' : k < (forestOf b.objectTree).size := htree ▸ hk
  obtain ⟨sd, st, hsynth, hok, heq⟩ | ⟨hno, heq⟩ := ruleGrants_cases a dacl
  · obtain ⟨r, hy⟩ := exists_resolved hok
    obtain ⟨r'⟩ := (hboth sd hsynth).mp ⟨r⟩
    obtain ⟨st', hok', hy'⟩ := r'.evaluate
    obtain ⟨sd', st'', hsynth', hok'', heq'⟩ | ⟨hno', -⟩ := ruleGrants_cases b dacl
    · cases hsynth.symm.trans (hsd ▸ hsynth')
      cases hok'.symm.trans hok''
      rw [heq, heq', hy.presents.holdsAt_eq hk, hy'.presents.holdsAt_eq hk']
      exact hrule sd r r' hsynth
    · exact absurd hok' (hno' sd (hsd ▸ hsynth) st')
  · obtain ⟨sd, st, hsynth, hok, -⟩ | ⟨-, heq'⟩ := ruleGrants_cases b dacl
    · obtain ⟨r', -⟩ := exists_resolved hok
      obtain ⟨r⟩ := (hboth sd (hsd ▸ hsynth)).mpr ⟨r'⟩
      obtain ⟨st', hok', -⟩ := r.evaluate
      exact absurd hok' (hno sd (hsd ▸ hsynth) st')
    · have h₁ := presents_denyExceptPrivileges a.base.privilegeGranted a.objectTree
      have h₂ := presents_denyExceptPrivileges b.base.privilegeGranted b.objectTree
      rw [heq, heq', h₁.holdsAt_eq hk, h₂.holdsAt_eq hk']
      exact hprivilege

end Pkm.Kacs
