import Pkm.Kacs.Check
/-!
# What a condition cannot see

A condition asks its surroundings two kinds of question: what a claim of some
name is, and whether a SID is among the caller's. Everything else is bytecode and
stack. So an evaluation is fixed by the answers (`SameAnswers.evaluateTokens`), and what
the answers hide the evaluation hides. For an allow entry the value of a claim
that is disabled or for denials only is hidden. For a policy rule's condition
membership is never answered, and the whole identity of the caller is hidden.
-/

namespace Pkm.Kacs

section Evaluate

variable [CharCase]

/-! ## Questions and answers -/

namespace Condition

/-- Two surroundings that answer every question of a condition alike. -/
structure SameAnswers (token token' : TokenView) (context context' : ConditionalContext)
    (forAllow : Bool) : Prop where
  lookup : ∀ tokenType, Option.Rel
    (fun claims claims' => ∀ name,
      lookupAttribute claims name forAllow = lookupAttribute claims' name forAllow)
    (claimsOfToken context tokenType) (claimsOfToken context' tokenType)
  membership : ∀ sid device,
    sidInMembershipSet token context sid forAllow device =
      sidInMembershipSet token' context' sid forAllow device

variable {token token' : TokenView} {context context' : ConditionalContext} {forAllow : Bool}

theorem parseAttributeRef_congr {claims claims' : List ClaimAttribute}
    (h : ∀ name, lookupAttribute claims name forAllow = lookupAttribute claims' name forAllow)
    (bytes : Bytes) (offset : ℕ) :
    parseAttributeRef bytes offset claims forAllow =
      parseAttributeRef bytes offset claims' forAllow := by
  unfold parseAttributeRef
  simp only [h]

namespace SameAnswers

variable (h : SameAnswers token token' context context' forAllow)

include h

theorem unaryMembership (device any : Bool) (stack : Stack) :
    unaryMembership token context forAllow device any stack =
      unaryMembership token' context' forAllow device any stack := by
  unfold Condition.unaryMembership
  simp only [h.membership]

theorem applyOperator (tokenType : Byte) (stack : Stack) :
    applyOperator token context forAllow tokenType stack =
      applyOperator token' context' forAllow tokenType stack := by
  unfold Condition.applyOperator
  simp only [h.unaryMembership]

/-- **One token** has one effect in both surroundings. -/
theorem evaluateToken (bytes : Bytes) (tokenType : Byte) (offset : ℕ) (stack : Stack) :
    evaluateToken bytes token context forAllow tokenType offset stack =
      evaluateToken bytes token' context' forAllow tokenType offset stack := by
  unfold Condition.evaluateToken
  split
  · rfl
  · have hclaims := h.lookup tokenType
    generalize claimsOfToken context tokenType = claims,
      claimsOfToken context' tokenType = claims' at hclaims ⊢
    cases hclaims with
    | none => simp only [h.applyOperator]
    | some hlookup => simp only [parseAttributeRef_congr hlookup]

/-- **A whole run** is the same in both surroundings. -/
theorem evaluateTokens (bytes : Bytes) (fuel offset : ℕ) (stack : Stack) :
    evaluateTokens bytes token context forAllow fuel offset stack =
      evaluateTokens bytes token' context' forAllow fuel offset stack := by
  have hread := funext fun tokenType => funext₂ (h.evaluateToken bytes tokenType)
  rw [Condition.evaluateTokens, hread]
  rfl

/-- A condition has one result in surroundings that answer alike. -/
theorem evaluateConditionalExpression (bytes : Bytes) :
    evaluateConditionalExpression bytes token context forAllow =
      evaluateConditionalExpression bytes token' context' forAllow := by
  unfold Kacs.evaluateConditionalExpression
  rw [h.evaluateTokens]

end SameAnswers

end Condition

/-! ## Claims an allow entry may not use -/

/-- A claim that is disabled, or for denials only. -/
def ClaimAttribute.withheld (self : ClaimAttribute) : Bool :=
  decide (self.flags &&& claimDisabled ≠ 0#32) || decide (self.flags &&& claimUseForDenyOnly ≠ 0#32)

/-- Two claims that differ at most in the values and the type of a withheld one. -/
structure ClaimAttribute.Alike (claim claim' : ClaimAttribute) : Prop where
  name : claim.name = claim'.name
  flags : claim.flags = claim'.flags
  shown : claim.withheld = false → claim = claim'

/-- Two contexts that differ at most in the values and the types of withheld claims. -/
structure ConditionalContext.Alike (context context' : ConditionalContext) : Prop where
  userClaims : List.Forall₂ ClaimAttribute.Alike context.userClaims context'.userClaims
  deviceClaims : List.Forall₂ ClaimAttribute.Alike context.deviceClaims context'.deviceClaims
  resourceClaims : List.Forall₂ ClaimAttribute.Alike context.resourceClaims context'.resourceClaims
  localClaims : List.Forall₂ ClaimAttribute.Alike context.localClaims context'.localClaims
  others : context' =
    { context with
      userClaims := context'.userClaims
      deviceClaims := context'.deviceClaims
      resourceClaims := context'.resourceClaims
      localClaims := context'.localClaims }

namespace Condition

variable {claims claims' : List ClaimAttribute}

/-- Looking a name up finds claims at the same place in both lists. -/
theorem find?_alike (name : Str) (h : List.Forall₂ ClaimAttribute.Alike claims claims') :
    Option.Rel ClaimAttribute.Alike
      (claims.find? fun attr => decide (foldString attr.name = foldString name))
      (claims'.find? fun attr => decide (foldString attr.name = foldString name)) := by
  induction h with
  | nil => exact .none
  | @cons claim claim' rest rest' hclaim _ ih =>
    simp only [List.find?_cons, hclaim.name]
    split
    · exact .some hclaim
    · exact ih

/-- **A withheld claim looks missing to an allow entry.** -/
theorem lookupAttribute_alike (h : List.Forall₂ ClaimAttribute.Alike claims claims') (name : Str) :
    lookupAttribute claims name true = lookupAttribute claims' name true := by
  have hfind := find?_alike name h
  unfold lookupAttribute
  generalize (claims.find? _) = found, (claims'.find? _) = found' at hfind ⊢
  cases hfind with
  | none => rfl
  | @some claim _ halike =>
    by_cases hshown : claim.withheld = false
    · rw [halike.shown hshown]
    · -- one of the two flags is set, on both sides
      simp only [ClaimAttribute.withheld, Bool.or_eq_false_iff, decide_eq_false_iff_not,
        not_and_or, not_not] at hshown
      simp only [halike.flags] at hshown ⊢
      rcases hshown with hdisabled | hdeny
      · simp [hdisabled, ne_eq]
      · simp [hdeny, ne_eq]

theorem sameAnswers_of_alike {context context' : ConditionalContext}
    (h : context.Alike context') (token : TokenView) :
    SameAnswers token token context context' true where
  lookup tokenType := by
    unfold claimsOfToken
    split_ifs
    · exact .some (lookupAttribute_alike h.localClaims)
    · exact .some (lookupAttribute_alike h.userClaims)
    · exact .some (lookupAttribute_alike h.resourceClaims)
    · exact .some (lookupAttribute_alike h.deviceClaims)
    · exact .none
  membership sid device := by
    rw [h.others]
    rfl

/-! ## Conditions without membership -/

/-- Where membership is not answered, only the claims are seen. -/
theorem sameAnswers_of_claims (context context' : ConditionalContext)
    (hallowed : context.membershipAllowed = false) (hallowed' : context'.membershipAllowed = false)
    (huser : context.userClaims = context'.userClaims)
    (hdevice : context.deviceClaims = context'.deviceClaims)
    (hresource : context.resourceClaims = context'.resourceClaims)
    (hlocal : context.localClaims = context'.localClaims)
    (token token' : TokenView) (forAllow : Bool) :
    SameAnswers token token' context context' forAllow where
  lookup tokenType := by
    have hsame : claimsOfToken context tokenType = claimsOfToken context' tokenType := by
      unfold claimsOfToken
      rw [huser, hdevice, hresource, hlocal]
    rw [hsame]
    cases claimsOfToken context' tokenType with
    | none => exact .none
    | some claims => exact .some fun _ => rfl
  membership sid device := by
    simp [sidInMembershipSet, hallowed, hallowed']

end Condition

/-- Two evaluations of policies that see the same claims. -/
structure CaapEvaluationInput.SameClaims (input input' : CaapEvaluationInput) : Prop where
  userClaims : input.conditionalContext.userClaims = input'.conditionalContext.userClaims
  deviceClaims : input.conditionalContext.deviceClaims = input'.conditionalContext.deviceClaims
  localClaims : input.conditionalContext.localClaims = input'.conditionalContext.localClaims
  resourceClaims : input.base.resourceAttributes = input'.base.resourceAttributes

/-- **A rule's condition sees the claims alone.** -/
theorem ruleApplies_of_sameClaims {input input' : CaapEvaluationInput} (h : input.SameClaims input')
    (appliesTo : Option Bytes) : ruleApplies input appliesTo = ruleApplies input' appliesTo := by
  cases appliesTo with
  | none => rfl
  | some bytes =>
    have hanswers : Condition.SameAnswers input.token.subject input'.token.subject
        (ruleContext input) (ruleContext input') false :=
      Condition.sameAnswers_of_claims (ruleContext input) (ruleContext input') rfl rfl h.userClaims
        h.deviceClaims h.resourceClaims h.localClaims _ _ _
    exact congrArg (fun r => decide (r = .true)) (hanswers.evaluateConditionalExpression bytes)

/-- **Noninterference of conditions.** An allow entry's condition does not depend on the values and
types of withheld claims, and whether a rule applies does not depend on who the caller is. -/
theorem condition_noninterference :
    (∀ (bytes : Bytes) (token : TokenView) (context context' : ConditionalContext),
      context.Alike context' →
        evaluateConditionalExpression bytes token context true =
          evaluateConditionalExpression bytes token context' true) ∧
      ∀ (input input' : CaapEvaluationInput) (appliesTo : Option Bytes),
        input.SameClaims input' → ruleApplies input appliesTo = ruleApplies input' appliesTo := by
  refine ⟨?_, ?_⟩
  · intro bytes token context context' h
    exact (Condition.sameAnswers_of_alike h token).evaluateConditionalExpression bytes
  · intro input input' appliesTo h
    exact ruleApplies_of_sameClaims h appliesTo

end Evaluate

namespace Sample

/-- A condition that asks for a user claim named `a`. -/
def existsProgram : Bytes :=
  [0x61#8, 0x72#8, 0x74#8, 0x78#8, 0xf9#8, 2#8, 0#8, 0#8, 0#8, 0x61#8, 0#8, 0x87#8]

/-- A context whose user claim `a` is for denials only. -/
def denyOnlyClaim (valueType : BitVec 16) (values : List ClaimValue) : ConditionalContext :=
  { context with userClaims := [⟨['a'], valueType, claimUseForDenyOnly, values⟩] }

/-- A policy evaluation for a caller. -/
def policyInput (user : Sid) (context : ConditionalContext) : CaapEvaluationInput :=
  { check.caapInput sd
      { decided := 0#32, granted := 1#32, privilegeGranted := 0#32, maxAllowedMode := true
        mappedDesired := 0#32, resourceAttributes := [], policySids := [], pipDecided := 0#32
        micDecided := 0#32, provenance := ⟨0#32, 0#32, 0#32, 0#32, 0#32⟩
        objectGrantedList := none } with
    token := token user, objectTree := none, conditionalContext := context }

end Sample

open Sample in
/-- The claim changes its value and type; the caller of the rule changes from the system, which
owns the object, to everyone, under another self SID. -/
theorem condition_noninterference_sample :
    @evaluateConditionalExpression asciiCase existsProgram
        (token Sid.system).subject (denyOnlyClaim claimTypeInt64 [.int64 1#64]) true =
      @evaluateConditionalExpression asciiCase existsProgram
        (token Sid.system).subject
        (denyOnlyClaim claimTypeString [.string ['x'], .string []]) true ∧
    @ruleApplies asciiCase
        (policyInput Sid.system (denyOnlyClaim claimTypeInt64 [.int64 1#64]))
        (some existsProgram) =
      @ruleApplies asciiCase
        (policyInput Sid.everyone
          { denyOnlyClaim claimTypeInt64 [.int64 1#64] with
            selfSid := some Sid.system, callerIsOwner := OwnerMatch.presence true })
        (some existsProgram) := by
  refine ⟨?_, ?_⟩
  · refine (@condition_noninterference asciiCase).1 _ _ _ _ ⟨?_, .nil, .nil, .nil, rfl⟩
    exact .cons ⟨rfl, rfl, fun h => absurd h (by decide)⟩ .nil
  · exact (@condition_noninterference asciiCase).2 _ _ _ ⟨rfl, rfl, rfl, rfl⟩

end Pkm.Kacs
