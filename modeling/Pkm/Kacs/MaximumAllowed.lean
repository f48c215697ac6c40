import Pkm.Kacs.Check
/-!
# Asking for everything

A check for specific rights and a check for everything there is to grant decide
the specific rights alike. Every stage is computed right by right, and a stage
looks at what was asked for only to see whether it has to look at the right: so
two checks that both ask for a right agree on it, whatever else they ask for. The
walk for specific rights may stop early, but only once every right it looks at is
decided.
-/

namespace Pkm.Kacs

open Bits

/-! ## Normal forms of requests -/

theorem normalizeDesiredAccess_maximumAllowed (mapping : GenericMapping) :
    mapping.normalizeDesiredAccess maximumAllowed = .ok
      { requested := maximumAllowed, mapped := 0#32, maximumAllowed := true } := by
  have hmap : mapping.mapMask (maximumAllowed &&& ~~~maximumAllowed) = .ok 0#32 := by
    have hzero : maximumAllowed &&& ~~~maximumAllowed = 0#32 := by decide
    rw [mapping.mapMask_of_noReserved (by decide)]
    simp [GenericMapping.mapBits]
  rfl

theorem normalizeDesiredAccess_specific {mapping : GenericMapping} {desired mapped : Mask}
    (hspecific : desired &&& maximumAllowed = 0#32)
    (hmapped : mapping.mapMask desired = .ok mapped) :
    mapping.normalizeDesiredAccess desired = .ok
      { requested := desired, mapped := mapped, maximumAllowed := false } := by
  have hstrip : desired &&& ~~~maximumAllowed = desired := by
    refine ext_bit fun i => ?_
    have hbit := congrArg (bit · i) hspecific
    simp only [bit_and, bit_not] at hbit ⊢
    cases hd : bit desired i with
    | false => rfl
    | true => simpa [hd] using hbit
  obtain ⟨⟨⟩, hvalid, -⟩ := Outcome.of_bind hmapped
  simp only [GenericMapping.normalizeDesiredAccess, hvalid, hstrip, hmapped, hspecific]
  rfl

/-! ## Agreement -/

section Agree

variable [CharCase] {i : Fin 32}

/-- A walk depends on the request only through whether it looks at the right. -/
theorem walkCells_normalized {d : DaclStateInput} {normalized : NormalizedDesiredAccess}
    {sidMatches : SidMatches}
    (h : bit (relevantMask { d with normalized }) i = bit (relevantMask d) i) :
    walkCells { d with normalized } sidMatches i = walkCells d sidMatches i := by
  have heffect : ∀ p, projectedEffect { d with normalized } i p = projectedEffect d i p := by
    intro p
    unfold projectedEffect
    rw [bit_and, bit_and, h]
  have hace : aceEffect { d with normalized } sidMatches i = aceEffect d sidMatches i := by
    funext ace
    exact congrArg (Option.bind _) (funext heffect)
  have hdacl : daclEffects { d with normalized } sidMatches i = daclEffects d sidMatches i := by
    unfold daclEffects
    rw [hace]
  unfold walkCells
  rw [hdacl]
  rfl

namespace Resolved

variable {input : EvaluateSecurityDescriptorInput} {desired : Mask}

/-- The evaluation looks at a right. -/
def Asks (r : Resolved input) (i : Fin 32) : Prop :=
  bit (if r.normalized.maximumAllowed then input.mapping.all else r.normalized.mapped) i = true ∧
    (bit r.normalized.mapped i || r.normalized.maximumAllowed) = true

variable (r : Resolved input) (r' : Resolved { input with desiredAccess := desired })

theorem initial_desired : r'.initial = r.initial := by
  obtain ⟨-, -, hlabel, htrust⟩ := r'.agree r rfl
  have hmic : r'.mic = r.mic := by
    unfold mic micIsActive
    rw [hlabel]
    rfl
  have htrust' : r'.trust = r.trust := by
    unfold trust
    rw [htrust]
  unfold initial
  rw [hmic, htrust']
  rfl

theorem pass_desired : r'.pass = { r.pass with normalized := r'.normalized } := by
  obtain ⟨hsd, hmeta, -, -⟩ := r'.agree r rfl
  unfold pass
  rw [hsd, hmeta]

variable {r r'} {i : Fin 32}

section

variable (h : r.Asks i) (h' : r'.Asks i)

include h h'

/-- **Two requests that ask for a right agree on it**, stage by stage. -/
theorem walkAt_desired : r'.walkAt i = r.walkAt i := by
  funext k
  unfold walkAt
  rw [r.initial_desired r', r.pass_desired r']
  exact congrArg (fun v : Cells => (v k).granted)
    (walkCells_normalized (d := r.pass.normalInput r.initial) (h'.1.trans h.1.symm))

theorem restrictedAt_desired : r'.restrictedAt i = r.restrictedAt i := by
  funext k
  unfold restrictedAt
  rw [r.pass_desired r']
  exact congrArg (fun v : Cells => (v k).granted)
    (walkCells_normalized (d := r.pass.restrictedInput) (h'.1.trans h.1.symm))

theorem confinedAt_desired (confinementSid : Sid) :
    r'.confinedAt confinementSid i = r.confinedAt confinementSid i := by
  funext k
  unfold confinedAt
  rw [r.pass_desired r']
  exact congrArg (fun v : Cells => (v k).granted)
    (walkCells_normalized (d := r.pass.confinementInput) (h'.1.trans h.1.symm))

/-- The fallback is asked for by both requests when the right is `WRITE_OWNER`. -/
theorem fallback_desired :
    (r'.fallback && decide (i = writeOwnerBit)) = (r.fallback && decide (i = writeOwnerBit)) := by
  by_cases hi : i = writeOwnerBit
  · subst hi
    obtain ⟨-, -, hlabel, htrust⟩ := r'.agree r rfl
    unfold fallback mic micIsActive trust
    rw [h.2, h'.2, walkAt_desired h h', hlabel, htrust]
    rfl
  · simp [hi]

theorem privilegeAt_desired : r'.privilegeAt i = r.privilegeAt i := by
  unfold privilegeAt
  rw [fallback_desired h h', r.initial_desired r']

theorem grantAt_desired : r'.grantAt i = r.grantAt i := by
  have hnormal : r'.normalAt i = r.normalAt i := by
    unfold normalAt
    rw [fallback_desired h h', walkAt_desired h h']
  have hmerged : r'.mergedAt i = r.mergedAt i := by
    unfold mergedAt
    rw [hnormal, restrictedAt_desired h h', privilegeAt_desired h h']
  unfold grantAt
  rw [hmerged]
  simp only [confinedAt_desired h h']

end

variable {a b : EvaluateSecurityDescriptorInput}

/-- Evaluations of two inputs that differ in the request agree on a right both ask for. -/
theorem agree_of_asks (r : Resolved a) (s : Resolved b)
    (hb : b = { a with desiredAccess := desired }) (h : r.Asks i) (h' : s.Asks i) :
    s.privilegeAt i = r.privilegeAt i ∧ s.grantAt i = r.grantAt i := by
  subst hb
  exact ⟨privilegeAt_desired h h', grantAt_desired h h'⟩

theorem Asks.of_normalized {r : Resolved a} (h : r.Asks i) (s : Resolved b)
    (hmapping : a.mapping = b.mapping) (hn : r.normalized = s.normalized) : s.Asks i := by
  unfold Asks at h ⊢
  rw [← hn, ← hmapping]
  exact h

end Resolved

variable {input : AccessCheckCoreInput} {sd : SecurityDescriptor} {desired : Mask}
  {out out' : AccessCheckCoreState}

/-- The rules of two checks that ask for a right agree on it. -/
theorem rulesAt_desired (c : Checked input sd out)
    (c' : Checked { input with desiredAccess := desired } sd out') {k : ℕ}
    (hk : k < (forestOf input.objectTree).size) (h : c.resolved.Asks i) (h' : c'.resolved.Asks i) :
    c'.rulesAt i k = c.rulesAt i k := by
  obtain ⟨hpriv, hgrant⟩ := c.resolved.agree_of_asks c'.resolved rfl h h'
  have hprivilege : bit c'.base.privilegeGranted i = bit c.base.privilegeGranted i := by
    rw [c'.yields.privilegeGranted, c.yields.privilegeGranted, hpriv, hgrant]
  have hrule : ∀ dacl, (ruleGrants (AccessCheckCoreInput.caapInput
        { input with desiredAccess := desired } sd c'.base) dacl).grants.holdsAt i k =
      (ruleGrants (input.caapInput sd c.base) dacl).grants.holdsAt i k := by
    intro dacl
    refine ruleGrants_compare rfl rfl hk
      (fun sd _ => ⟨c.rule_resolved rfl, c'.rule_resolved rfl⟩) (fun sd q q' _ => ?_) hprivilege
    have hn : c'.resolved.normalized = q.normalized :=
      Except.ok.inj (c'.resolved.normalized_eq.symm.trans q.normalized_eq)
    have hn' : c.resolved.normalized = q'.normalized :=
      Except.ok.inj (c.resolved.normalized_eq.symm.trans q'.normalized_eq)
    have hq := h'.of_normalized q rfl hn
    have hq' := h.of_normalized q' rfl hn'
    exact congrFun (q'.agree_of_asks q rfl hq' hq).2 k
  have hdacls := c'.applicableDacls_eq c rfl rfl rfl
  exact (congrArg (fun l => List.all l _) hdacls).trans (congrArg (List.all _) (funext hrule))

/-- **Asking for specific rights and asking for everything decide those rights alike**, for the
object and at every node of a tree. -/
theorem accessCheckCore_maximumAllowed_agrees (input : AccessCheckCoreInput)
    {desired mapped valid : Mask} {specific maximum : AccessCheckCoreState}
    (hspecific : desired &&& maximumAllowed = 0#32)
    (hmapped : input.mapping.mapMask desired = .ok mapped)
    (hvalid : input.mapping.mapMask genericAll = .ok valid) (hsubset : mapped ⊆ valid)
    (h : accessCheckCore { input with desiredAccess := desired } = .ok specific)
    (hmax : accessCheckCore { input with desiredAccess := maximumAllowed } = .ok maximum) :
    Grants.Rel (fun a b => a &&& mapped = b &&& mapped) specific.grants maximum.grants := by
  obtain ⟨sd, hsd, ⟨c⟩⟩ := nonempty_checked h
  obtain ⟨sd', hsd', ⟨c'⟩⟩ := nonempty_checked hmax
  cases hsd.symm.trans hsd'
  cases input.mapping.mapMask_genericAll.symm.trans hvalid
  have hn : c.resolved.normalized = _ := Except.ok.inj (c.resolved.normalized_eq.symm.trans
    (normalizeDesiredAccess_specific hspecific hmapped))
  have hn' : c'.resolved.normalized = _ := Except.ok.inj (c'.resolved.normalized_eq.symm.trans
    (normalizeDesiredAccess_maximumAllowed input.mapping))
  refine c.presents.rel c'.presents fun k hk m m' hm hm' => ext_bit fun i => ?_
  rw [bit_and, bit_and, hm, hm']
  cases hi : bit mapped i with
  | false => rw [Bool.and_false, Bool.and_false]
  | true =>
    have hasks : c.resolved.Asks i := by
      unfold Resolved.Asks
      rw [hn]
      exact ⟨hi, by rw [hi]; rfl⟩
    have hasks' : c'.resolved.Asks i := by
      unfold Resolved.Asks
      rw [hn']
      exact ⟨bit_of_subset hsubset hi, Bool.or_true _⟩
    have hgrant : c'.resolved.grantAt i k = c.resolved.grantAt i k :=
      congrFun (c.resolved.agree_of_asks c'.resolved rfl hasks hasks').2 k
    have hrules : c'.rulesAt i k = c.rulesAt i k := rulesAt_desired c c' hk hasks hasks'
    rw [Checked.grantAt, Checked.grantAt, hgrant, hrules]

end Agree

attribute [local instance] Sample.asciiCase

open Sample in
theorem accessCheckCore_maximumAllowed_agrees_sample :
    ∃ specific maximum,
      accessCheckCore { check with desiredAccess := genericRead ||| writeOwner } = .ok specific ∧
      accessCheckCore { check with desiredAccess := maximumAllowed } = .ok maximum ∧
      Grants.Rel (fun a b => a &&& (1#32 ||| writeOwner) = b &&& (1#32 ||| writeOwner))
        specific.grants maximum.grants :=
  Outcome.exists_pair_of_isOk (by decide) (by decide) fun _ _ h hmax =>
    accessCheckCore_maximumAllowed_agrees check (by decide)
      (show mapping.mapMask _ = _ by decide) (show mapping.mapMask _ = _ from
        mapping.mapMask_genericAll) (by decide) h hmax

end Pkm.Kacs
