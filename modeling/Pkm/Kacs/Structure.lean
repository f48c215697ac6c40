import Pkm.Kacs.Model.Structure
import Pkm.Kacs.Check
/-!
# Validation and evaluation in lockstep

The evaluator and the validator of conditional expressions read the same bytes at
the same positions, and the validator's stack is the evaluator's with the values
forgotten. The evaluator may stop earlier, on a value it cannot use, but never
gets past a token the validator refuses. So an expression that is not well formed
evaluates to unknown against any token and any claims.
-/

namespace Pkm.Kacs

open Option

namespace Condition

variable {tokenType : Byte} {context : ConditionalContext} {rest stack : Stack}

/-! ## The kinds of a stack -/

/-- The kind of an entry. -/
def StackEntry.kind : StackEntry → StructuralEntry
  | .value _ => .value
  | .result _ => .result

/-- A stack with the values forgotten. -/
def kinds (stack : Stack) : StructuralStack := stack.map StackEntry.kind

theorem length_kinds (stack : Stack) : (kinds stack).length = stack.length := List.length_map _

theorem popKind_of_popValue {operand : OperandValue} (h : popValue stack = some (operand, rest)) :
    popKind .value (kinds stack) = some (kinds rest) := by
  cases stack with
  | nil => cases h
  | cons entry stack =>
    cases entry with
    | result r => cases h
    | value v =>
      cases h
      rfl

theorem pop_of_popLogicalOperand {operand : LogicalOperand}
    (h : popLogicalOperand stack = some (operand, rest)) :
    popStructuralOperand (kinds stack) = some (kinds rest) := by
  cases stack with
  | nil => cases h
  | cons entry stack =>
    cases entry with
    | result r | value v =>
      cases h
      rfl

/-! ## Operators -/

section Operators

variable {y : Option StructuralStack}

/-- Where the evaluator goes on, the validator goes on with the same kinds. -/
def Follows (x : Option (ConditionalResult × Stack)) (y : Option StructuralStack) : Prop :=
  ∀ result rest, x = some (result, rest) → y = some (kinds rest)

theorem Follows.ite {p : Prop} [Decidable p] {x x' : Option (ConditionalResult × Stack)}
    (h : p → Follows x y) (h' : Follows x' y) : Follows (if p then x else x') y := by
  by_cases hp : p
  · rw [if_pos hp]
    exact h hp
  · rw [if_neg hp]
    exact h'

/-- Inverting a result leaves the stack. -/
theorem Follows.inverted {x : Option (ConditionalResult × Stack)} (h : Follows x y) :
    Follows (x.map fun (result, stack) => (invertResult result, stack)) y := by
  intro result rest hx
  obtain ⟨⟨result', rest'⟩, hx', ⟨⟩⟩ := map_eq_some_iff.mp hx
  exact h _ _ hx'

variable {tokenType : Byte} (stack : Stack)

/-- The tokens of the comparisons. -/
def compareTokens : List Byte :=
  [0x80#8, 0x81#8, 0x82#8, 0x83#8, 0x84#8, 0x85#8, 0x86#8, 0x88#8, 0x8e#8, 0x8f#8]

/-- A comparison takes two values. -/
theorem follows_binaryCompare (op : OperandValue → OperandValue → ConditionalResult)
    (h : tokenType ∈ compareTokens) :
    Follows (binaryCompare op stack) (structuralOperator tokenType (kinds stack)) := by
  intro result rest hx
  obtain ⟨⟨rhs, stack₁⟩, h₁, hx⟩ := bind_eq_some_iff.mp hx
  obtain ⟨⟨lhs, stack₂⟩, h₂, hx⟩ := bind_eq_some_iff.mp hx
  cases hx
  have hall : ∀ t ∈ compareTokens,
      (0x80#8 ≤ t ∧ t ≤ 0x86#8) ∨ t = 0x88#8 ∨ t = 0x8e#8 ∨ t = 0x8f#8 := by decide +kernel
  unfold structuralOperator
  rw [if_pos (hall _ h), popKind_of_popValue h₁]
  exact popKind_of_popValue h₂

/-- The tokens of the tests of one value. -/
def testTokens : List Byte :=
  [0x87#8, 0x89#8, 0x8a#8, 0x8b#8, 0x8c#8, 0x8d#8, 0x90#8, 0x91#8, 0x92#8, 0x93#8]

theorem structuralOperator_test (h : tokenType ∈ testTokens) (stack : StructuralStack) :
    structuralOperator tokenType stack = popKind .value stack := by
  have hall : ∀ t ∈ testTokens,
      ¬ ((0x80#8 ≤ t ∧ t ≤ 0x86#8) ∨ t = 0x88#8 ∨ t = 0x8e#8 ∨ t = 0x8f#8) ∧
      (t = 0x87#8 ∨ (0x89#8 ≤ t ∧ t ≤ 0x8d#8) ∨ (0x90#8 ≤ t ∧ t ≤ 0x93#8)) := by decide +kernel
  unfold structuralOperator
  rw [if_neg (hall _ h).1, if_pos (hall _ h).2]

/-- An existence test takes one value. -/
theorem follows_unaryExists (h : tokenType ∈ testTokens) :
    Follows (unaryExists stack) (structuralOperator tokenType (kinds stack)) := by
  intro result rest hx
  obtain ⟨⟨operand, stack₁⟩, h₁, hx⟩ := bind_eq_some_iff.mp hx
  rw [structuralOperator_test h, popKind_of_popValue h₁]
  simp only at hx
  split at hx <;> cases hx <;> rfl

/-- A membership test takes one value, which must hold SIDs. -/
theorem follows_unaryMembership (token : TokenView) (context : ConditionalContext)
    (forAllow device any : Bool) (h : tokenType ∈ testTokens) :
    Follows (unaryMembership token context forAllow device any stack)
      (structuralOperator tokenType (kinds stack)) := by
  intro result rest hx
  obtain ⟨⟨operand, stack₁⟩, h₁, hx⟩ := bind_eq_some_iff.mp hx
  obtain ⟨sids, -, hx⟩ := bind_eq_some_iff.mp hx
  cases hx
  rw [structuralOperator_test h, popKind_of_popValue h₁]

/-- A logical connective takes two entries of any kind. -/
theorem follows_binaryLogical (op : ConditionalResult → ConditionalResult → ConditionalResult)
    (h : tokenType = 0xa0#8 ∨ tokenType = 0xa1#8) :
    Follows (binaryLogical op stack) (structuralOperator tokenType (kinds stack)) := by
  intro result rest hx
  obtain ⟨⟨rhs, stack₁⟩, h₁, hx⟩ := bind_eq_some_iff.mp hx
  obtain ⟨⟨lhs, stack₂⟩, h₂, hx⟩ := bind_eq_some_iff.mp hx
  have hop : structuralOperator tokenType (kinds stack) =
      (popStructuralOperand (kinds stack)).bind fun stack => popStructuralOperand stack := by
    obtain rfl | rfl := h <;> rfl
  rw [hop, pop_of_popLogicalOperand h₁, bind_some, pop_of_popLogicalOperand h₂]
  simp only at hx
  split at hx <;> cases hx <;> rfl

/-- A negation takes one entry of any kind. -/
theorem follows_unaryLogicalNot (h : tokenType = 0xa2#8) :
    Follows (unaryLogicalNot stack) (structuralOperator tokenType (kinds stack)) := by
  intro result rest hx
  obtain ⟨⟨operand, stack₁⟩, h₁, hx⟩ := bind_eq_some_iff.mp hx
  have hop : structuralOperator tokenType (kinds stack) = popStructuralOperand (kinds stack) := by
    rw [h]
    rfl
  rw [hop, pop_of_popLogicalOperand h₁]
  simp only at hx
  split at hx <;> cases hx <;> rfl

/-- **An operator takes the kinds the validator expects.** -/
theorem follows_applyOperator (token : TokenView) (context : ConditionalContext)
    (forAllow : Bool) :
    Follows (applyOperator token context forAllow tokenType stack)
      (structuralOperator tokenType (kinds stack)) := by
  have compare := fun {t : Byte} (ht : t ∈ compareTokens) op (h : tokenType = t) =>
    follows_binaryCompare stack op (h ▸ ht)
  have exist := fun {t : Byte} (ht : t ∈ testTokens) (h : tokenType = t) =>
    follows_unaryExists stack (h ▸ ht)
  have member := fun {t : Byte} (ht : t ∈ testTokens) device any (h : tokenType = t) =>
    follows_unaryMembership stack token context forAllow device any (h ▸ ht)
  -- in the order of the source
  iterate 7 refine .ite (compare (by decide) _) ?_
  refine .ite (exist (by decide)) ?_
  refine .ite (compare (by decide) _) ?_
  iterate 4 refine .ite (member (by decide) _ _) ?_
  refine .ite (fun h => (exist (by decide) h).inverted) ?_
  iterate 2 refine .ite (compare (by decide) _) ?_
  iterate 4 refine .ite (fun h => (member (by decide) _ _ h).inverted) ?_
  refine .ite (fun h => follows_binaryLogical stack _ (.inl h)) ?_
  refine .ite (fun h => follows_binaryLogical stack _ (.inr h)) ?_
  refine .ite (follows_unaryLogicalNot stack) ?_
  intro result rest hx
  cases hx

end Operators

/-! ## One token, and a whole run -/

/-- The reference tokens. -/
theorem claimsOfToken_range {claims : List ClaimAttribute}
    (h : claimsOfToken context tokenType = some claims) :
    0xf8#8 ≤ tokenType ∧ tokenType ≤ 0xfb#8 := by
  unfold claimsOfToken at h
  split_ifs at h <;> subst tokenType <;> decide

theorem claimsOfToken_eq_none (h : claimsOfToken context tokenType = none) :
    ¬ (0xf8#8 ≤ tokenType ∧ tokenType ≤ 0xfb#8) := by
  unfold claimsOfToken at h
  split_ifs at h with h₀ h₁ h₂ h₃
  rintro ⟨hlo, hhi⟩
  bv_omega

/-- A final stack that decides has one result. -/
theorem kinds_of_finish (h : finish stack ≠ .unknown) : kinds stack = [.result] := by
  match stack, h with
  | [.result _], _ => rfl

section Run

variable [CharCase] {bytes : Bytes} {token : TokenView} {context : ConditionalContext}
  {forAllow : Bool} {offset offset' : ℕ}

/-- A reference takes the same bytes whatever the claims are. -/
theorem parseAttributeRef_offset {claims : List ClaimAttribute} {operand : OperandValue}
    (h : parseAttributeRef bytes offset claims forAllow = some (operand, offset')) :
    ∃ operand', parseAttributeRef bytes offset [] false = some (operand', offset') := by
  unfold parseAttributeRef at h ⊢
  obtain ⟨⟨len, offset₁⟩, h₁, h⟩ := bind_eq_some_iff.mp h
  simp only at h
  split at h
  · cases h
  · rename_i heven
    obtain ⟨⟨raw, offset₂⟩, h₂, h⟩ := bind_eq_some_iff.mp h
    obtain ⟨name, h₃, h⟩ := bind_eq_some_iff.mp h
    cases h
    refine ⟨lookupAttribute [] name false, ?_⟩
    rw [h₁]
    simp only [bind_eq_bind, bind_some, if_neg heven, h₂, h₃]

/-- **One token in lockstep**: where the evaluator goes on, the validator goes on from the same
position with the same kinds. -/
theorem structuralToken_of_evaluateToken {tokenType : Byte} {stack rest : Stack}
    {entry : StackEntry} (h : evaluateToken bytes token context forAllow tokenType offset stack =
      some (entry, offset', rest)) :
    structuralToken bytes tokenType offset (kinds stack) =
      some (entry.kind, offset', kinds rest) := by
  unfold evaluateToken at h
  unfold structuralToken
  by_cases hliteral : 0x01#8 ≤ tokenType ∧ tokenType ≤ 0x51#8
  · rw [if_pos hliteral] at h ⊢
    obtain ⟨⟨value, offset₁⟩, h₁, h⟩ := bind_eq_some_iff.mp h
    cases h
    rw [h₁]
    rfl
  · rw [if_neg hliteral] at h ⊢
    cases hclaims : claimsOfToken context tokenType with
    | some claims =>
      rw [if_pos (claimsOfToken_range hclaims)]
      simp only [hclaims] at h
      obtain ⟨⟨operand, offset₁⟩, h₁, h⟩ := bind_eq_some_iff.mp h
      cases h
      obtain ⟨operand', h₁'⟩ := parseAttributeRef_offset h₁
      rw [h₁']
      rfl
    | none =>
      rw [if_neg (claimsOfToken_eq_none hclaims)]
      simp only [hclaims] at h
      obtain ⟨⟨result, stack₁⟩, h₁, h⟩ := bind_eq_some_iff.mp h
      cases h
      rw [follows_applyOperator stack token context forAllow _ _ h₁]
      rfl

/-- **A run that decides is a run the validator accepts.** -/
theorem validateTokens_of_evaluateTokens {fuel : ℕ} {stack : Stack} {result : ConditionalResult}
    (h : evaluateTokens bytes token context forAllow fuel offset stack = some result)
    (hdecides : result ≠ .unknown) :
    validateTokens bytes fuel offset (kinds stack) = some true := by
  have hstuck : ∀ {p : Prop}, some .unknown = some result → p := fun h =>
    absurd (Option.some.inj h).symm hdecides
  have hfinish : ∀ {stack}, some (finish stack) = some result →
      some (decide (kinds stack = [.result])) = some true := by
    intro stack h
    rw [← Option.some.inj h] at hdecides
    rw [kinds_of_finish hdecides, decide_eq_true rfl]
  induction fuel generalizing offset stack with
  | zero => cases h
  | succ fuel ih =>
    rw [evaluateTokens, tokenLoop] at h
    rw [validateTokens, tokenLoop]
    by_cases hend : offset ≥ bytes.length
    · rw [if_pos hend] at h ⊢
      exact hfinish h
    rw [if_neg hend] at h ⊢
    rw [length_kinds]
    by_cases hdeep : stack.length > maxStackDepth
    · rw [if_pos hdeep] at h
      exact hstuck h
    rw [if_neg hdeep] at h ⊢
    by_cases hzero : Bytes.byteAt bytes offset = 0x00#8
    · rw [if_pos hzero] at h ⊢
      by_cases hpadding : (bytes.drop (offset + 1)).any (· ≠ 0x00#8) = true
      · rw [if_pos hpadding] at h
        exact hstuck h
      · rw [if_neg hpadding] at h ⊢
        exact hfinish h
    rw [if_neg hzero] at h ⊢
    cases htoken : evaluateToken bytes token context forAllow (Bytes.byteAt bytes offset)
        (offset + 1) stack with
    | none =>
      rw [htoken] at h
      exact hstuck h
    | some next =>
      obtain ⟨entry, offset', rest⟩ := next
      rw [htoken] at h
      rw [structuralToken_of_evaluateToken htoken]
      simp only [List.length_cons, length_kinds] at h ⊢
      by_cases hfull : rest.length + 1 > maxStackDepth
      · rw [if_pos hfull] at h
        exact hstuck h
      · rw [if_neg hfull] at h ⊢
        exact ih h

end Run

/-! ## The loops end

Every token takes at least its own byte, so there are no more rounds than bytes. -/

variable {bytes : Bytes} {offset offset' : ℕ} {tokenType : Byte} {α β : Type}

/-- A reader that starts at the offset does not go back. -/
def Past (offset : ℕ) (x : Option (α × ℕ)) : Prop :=
  ∀ a offset', x = some (a, offset') → offset ≤ offset'

namespace Past

theorem here (a : α) : Past offset (some (a, offset)) := by
  intro a' offset' h
  cases h
  exact Nat.le_refl _

variable {x : Option (α × ℕ)} {parseComposite : ℕ → Option (Value × ℕ)}

theorem bind {f : α × ℕ → Option (β × ℕ)} (hx : Past offset x) (hf : ∀ a o, Past o (f (a, o))) :
    Past offset (x >>= f) := by
  intro b offset' h
  obtain ⟨⟨a, o⟩, ha, h⟩ := bind_eq_some_iff.mp h
  exact Nat.le_trans (hx a o ha) (hf a o b offset' h)

/-- A step that reads nothing. -/
theorem after {y : Option α} {f : α → Option (β × ℕ)} (hf : ∀ a, Past offset (f a)) :
    Past offset (y >>= f) := by
  intro b offset' h
  obtain ⟨a, -, h⟩ := bind_eq_some_iff.mp h
  exact hf a b offset' h

theorem checked {p : Prop} [Decidable p] (h : Past offset x) :
    Past offset (if p then none else x) := by
  split
  · exact nofun
  · exact h

theorem readSlice {len : ℕ} : Past offset (readSlice bytes offset len) := by
  unfold Condition.readSlice
  split
  · intro raw offset' h
    cases h
    exact Nat.le_add_right offset len
  · exact nofun

theorem readU8 : Past offset (readU8 bytes offset) := by
  unfold Condition.readU8
  split
  · intro b offset' h
    cases h
    exact Nat.le_succ offset
  · exact nofun

theorem readU32 : Past offset (readU32 bytes offset) := readSlice.bind fun _ _ => here _

theorem parseIntLiteral : Past offset (parseIntLiteral bytes tokenType offset) :=
  readSlice.bind fun _ _ => readU8.bind fun _ _ => readU8.bind fun _ _ =>
    checked (after fun _ => checked (here _))

theorem parseStringLiteral : Past offset (parseStringLiteral bytes offset) :=
  readU32.bind fun _ _ => checked (readSlice.bind fun _ _ => after fun _ => here _)

theorem parseOctetLiteral : Past offset (parseOctetLiteral bytes offset) :=
  readU32.bind fun _ _ => readSlice.bind fun _ _ => here _

theorem parseSidLiteral : Past offset (parseSidLiteral bytes offset) :=
  readU32.bind fun _ _ => readSlice.bind fun _ _ => after fun _ => here _

theorem parseLiteral (hcomposite : ∀ o, Past o (parseComposite o)) :
    Past offset (parseLiteral bytes parseComposite tokenType offset) := by
  unfold Condition.parseLiteral
  split_ifs
  · exact parseIntLiteral
  · exact parseStringLiteral
  · exact parseOctetLiteral
  · exact hcomposite offset
  · exact parseSidLiteral
  · exact nofun

theorem parseMembers {stop : ℕ} (hcomposite : ∀ o, Past o (parseComposite o)) (fuel : ℕ) :
    Past offset (parseMembers bytes parseComposite stop fuel offset) := by
  induction fuel generalizing offset with
  | zero => exact nofun
  | succ fuel ih =>
    unfold Condition.parseMembers
    split
    · exact here _
    · exact readU8.bind fun _ _ => checked ((parseLiteral hcomposite).bind fun _ _ =>
        ih.bind fun _ _ => here _)

theorem parseCompositeLiteral (depth : ℕ) :
    Past offset (parseCompositeLiteral bytes depth offset) := by
  induction depth generalizing offset with
  | zero => exact nofun
  | succ depth ih =>
    exact readU32.bind fun _ _ => checked ((parseMembers (fun _ => ih) _).bind fun _ _ => here _)

end Past

variable [CharCase]

/-- A token never goes back. -/
theorem le_of_structuralToken {stack rest : StructuralStack} {entry : StructuralEntry}
    (h : structuralToken bytes tokenType offset stack = some (entry, offset', rest)) :
    offset ≤ offset' := by
  unfold structuralToken at h
  split_ifs at h
  · obtain ⟨⟨value, offset₁⟩, h₁, h⟩ := bind_eq_some_iff.mp h
    cases h
    exact Past.parseLiteral (fun _ => Past.parseCompositeLiteral _) _ _ h₁
  · obtain ⟨⟨operand, offset₁⟩, h₁, h⟩ := bind_eq_some_iff.mp h
    cases h
    have hreference : Past offset (parseAttributeRef bytes offset [] false) :=
      Past.readU32.bind fun _ _ => .checked (Past.readSlice.bind fun _ _ => .after fun _ => .here _)
    exact hreference _ _ h₁
  · obtain ⟨stack₁, -, h⟩ := bind_eq_some_iff.mp h
    cases h
    exact Nat.le_refl _

/-- The loop ends if no token goes back. -/
theorem tokenLoop_ends {ε ρ : Type} {read : Byte → ℕ → List ε → Option (ε × ℕ × List ε)}
    {finish : List ε → ρ} {stuck : ρ} (hread : ∀ tokenType offset stack entry offset' rest,
      read tokenType offset stack = some (entry, offset', rest) → offset ≤ offset')
    {fuel : ℕ} (h : bytes.length - offset < fuel) (stack : List ε) :
    (tokenLoop bytes read finish stuck fuel offset stack).isSome = true := by
  induction fuel generalizing offset stack with
  | zero => omega
  | succ fuel ih =>
    unfold tokenLoop
    split
    · rfl
    split
    · rfl
    simp only
    split
    · split <;> rfl
    cases htoken : read (Bytes.byteAt bytes offset) (offset + 1) stack with
    | none => rfl
    | some next =>
      have hpast := hread _ _ _ _ _ _ htoken
      simp only
      split
      · rfl
      · exact ih (by omega) _

/-- **Both loops over an expression end**, within a round for each byte, and what they end with is
what the two functions return. -/
theorem tokens_end (body : Bytes) (token : TokenView) (context : ConditionalContext)
    (forAllow : Bool) :
    let bytes := [0x61#8, 0x72#8, 0x74#8, 0x78#8] ++ body
    validateTokens bytes bytes.length 4 [] =
        some (validateConditionalExpressionStructure bytes) ∧
      evaluateTokens bytes token context forAllow bytes.length 4 [] =
        some (evaluateConditionalExpression bytes token context forAllow) := by
  intro bytes
  have hlength : bytes.length - 4 < bytes.length := Nat.sub_lt (by simp [bytes]) (by decide)
  obtain ⟨verdict, hverdict⟩ : ∃ verdict, validateTokens bytes bytes.length 4 [] = some verdict :=
    isSome_iff_exists.mp (tokenLoop_ends (fun _ _ _ _ _ _ => le_of_structuralToken) hlength [])
  obtain ⟨result, hresult⟩ : ∃ result,
      evaluateTokens bytes token context forAllow bytes.length 4 [] = some result :=
    isSome_iff_exists.mp (tokenLoop_ends (fun _ _ _ _ _ _ hread =>
      le_of_structuralToken (structuralToken_of_evaluateToken hread)) hlength [])
  have hmagic : ¬ (bytes.length < 4 ∨ bytes.take 4 ≠ [0x61#8, 0x72#8, 0x74#8, 0x78#8]) := by
    simp [bytes]
  rw [validateConditionalExpressionStructure, evaluateConditionalExpression, if_neg hmagic,
    if_neg hmagic, hverdict, hresult]
  exact ⟨rfl, rfl⟩

end Condition

open Condition in
/-- **An expression that is not well formed evaluates to unknown**, against any token, any claims
and for both kinds of entries. -/
theorem evaluateConditionalExpression_of_not_valid [CharCase] (bytes : Bytes)
    (h : validateConditionalExpressionStructure bytes = false) (token : TokenView)
    (context : ConditionalContext) (forAllow : Bool) :
    evaluateConditionalExpression bytes token context forAllow = .unknown := by
  unfold validateConditionalExpressionStructure at h
  unfold evaluateConditionalExpression
  by_cases hmagic : bytes.length < 4 ∨ bytes.take 4 ≠ [0x61#8, 0x72#8, 0x74#8, 0x78#8]
  · rw [if_pos hmagic]
  · rw [if_neg hmagic] at h ⊢
    by_contra hdecides
    cases hrun : evaluateTokens bytes token context forAllow bytes.length 4 [] with
    | none => exact hdecides (by rw [hrun]; rfl)
    | some result =>
      rw [hrun] at hdecides
      have hvalid : validateTokens bytes bytes.length 4 [] = some true :=
        validateTokens_of_evaluateTokens hrun hdecides
      rw [hvalid] at h
      cases h

attribute [local instance] Sample.asciiCase

/-- A reference to a user claim with nothing asked of it. -/
def Sample.bareReference : Bytes :=
  [0x61#8, 0x72#8, 0x74#8, 0x78#8, 0xf9#8, 2#8, 0#8, 0#8, 0#8, 0x61#8, 0#8]

open Sample in
/-- A bare reference leaves a value on the stack: it is not well formed, and unknown. -/
theorem bareReference_unknown :
    validateConditionalExpressionStructure bareReference = false ∧
      evaluateConditionalExpression bareReference (token Sid.system).subject context true =
        .unknown := by
  have hvalid : validateConditionalExpressionStructure bareReference = false := by decide
  exact ⟨hvalid, evaluateConditionalExpression_of_not_valid bareReference hvalid _ _ _⟩

end Pkm.Kacs
