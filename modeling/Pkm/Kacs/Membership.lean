import Pkm.Kacs.Check
import Pkm.Kacs.Model.TokenAdjust
/-!
# Groups in entries and in conditions

An entry matches a group SID if any of the token's groups with that SID counts for its polarity. A
condition asks the first of them only. Nothing keeps a token's groups from naming a SID twice, so
the two answers are the same exactly when the first group with a SID speaks for the others.
-/

namespace Pkm.Kacs

open Bytes Condition List

/-! ## The condition -/

/-- The context of the pass for the caller, as the callers of a check build it: with any self SID,
owner, device groups and claims. -/
def ConditionalContext.normal (context : ConditionalContext) : ConditionalContext :=
  { context with
    principalSelfMatches := none
    identity := none
    identityMembershipIsPresenceBased := false
    deviceMembershipUsesVirtualGroups := false
    membershipAllowed := true }

/-- The bytes before the members of a composite literal of one SID. -/
def memberOfHead (sid : Sid) : Bytes :=
  [0x61#8, 0x72#8, 0x74#8, 0x78#8, 0x50#8] ++ ofU32 (BitVec.ofNat 32 (sid.bytes.length + 5))

/-- The expression `Member_of {sid}`. -/
def memberOf (sid : Sid) : Bytes :=
  memberOfHead sid ++ ([0x51#8] ++ (ofU32 (BitVec.ofNat 32 sid.bytes.length) ++
    (sid.bytes ++ [0x89#8])))

theorem Sid.length_le (sid : Sid) : sid.bytes.length ≤ 68 := by
  obtain ⟨-, -, hcount, hlen⟩ := sid.wf
  have hle := BitVec.le_def.mp hcount
  have hmax : Sid.maxSubAuthorities.toNat = 15 := rfl
  rw [hlen, Sid.expectedLen]
  have hmin : Sid.minSize = 8 := rfl
  omega

theorem length_memberOf (sid : Sid) : (memberOf sid).length = sid.bytes.length + 15 := by
  simp only [memberOf, memberOfHead, length_append, length_cons, length_nil, length_ofU32]
  omega

/-- Where membership may be asked, there is an answer. -/
theorem sidInMembershipSet_isSome (token : TokenView) {context : ConditionalContext}
    (forAllow : Bool) (hallowed : context.membershipAllowed = true) (sidBytes : Bytes)
    (device : Bool) :
    (sidInMembershipSet token context sidBytes forAllow device).isSome := by
  unfold sidInMembershipSet
  dsimp only
  split_ifs
  case pos => rfl
  case pos => split <;> rfl
  all_goals rfl

section Reading

variable (sid : Sid)

/-- What stands where in the expression. -/
theorem has_memberOf :
    (memberOf sid).Has 4 [0x50#8] ∧
      (memberOf sid).Has 5 (ofU32 (BitVec.ofNat 32 (sid.bytes.length + 5))) ∧
      (memberOf sid).Has 9 [0x51#8] ∧
      (memberOf sid).Has 10 (ofU32 (BitVec.ofNat 32 sid.bytes.length)) ∧
      (memberOf sid).Has 14 sid.bytes ∧ (memberOf sid).Has (14 + sid.bytes.length) [0x89#8] := by
  have h₀ : (memberOf sid).Has 0 (([0x61#8, 0x72#8, 0x74#8, 0x78#8] ++ [0x50#8]) ++
      (ofU32 (BitVec.ofNat 32 (sid.bytes.length + 5)) ++ ([0x51#8] ++
        (ofU32 (BitVec.ofNat 32 sid.bytes.length) ++ (sid.bytes ++ [0x89#8]))))) := .self _
  have h₅ := h₀.right
  have h₉ := h₅.right
  have h₁₀ := h₉.right
  exact ⟨h₀.left.right, h₅.left, h₉.left, h₁₀.left, h₁₀.right.left, h₁₀.right.right⟩

section Has

variable {bytes part : Bytes} {i : ℕ}

theorem readU8_eq_some {x : Byte} (h : bytes.Has i [x]) : readU8 bytes i = some (x, i + 1) := by
  rw [readU8, if_pos (show i < _ from h.le (cons_ne_nil _ _)), h.byteAt_eq]

theorem readSlice_eq_some (h : bytes.Has i part) (hne : part ≠ []) :
    readSlice bytes i part.length = some (part, i + part.length) := by
  rw [readSlice, if_pos (h.le hne), h.slice_eq]

theorem readU32_eq_some {x : BitVec 32} (h : bytes.Has i (ofU32 x)) :
    readU32 bytes i = some (x, i + 4) := by
  have hslice : readSlice bytes i 4 = some (ofU32 x, i + 4) := readSlice_eq_some h (cons_ne_nil _ _)
  have hread : u32At (ofU32 x) 0 = x := u32At_ofU32 x []
  simp [readU32, hslice, hread]

end Has

/-- The composite literal holds the SID. -/
theorem parseCompositeLiteral_memberOf :
    parseCompositeLiteral (memberOf sid) maxCompositeLiteralDepth 5
      = some (.composite [.sid sid.bytes], 14 + sid.bytes.length) := by
  have hshort := sid.length_le
  have hlen := length_memberOf sid
  have hsize : (BitVec.ofNat 32 (sid.bytes.length + 5)).toNat = sid.bytes.length + 5 := by
    rw [BitVec.toNat_ofNat, Nat.mod_eq_of_lt (by omega)]
  have hmember : (BitVec.ofNat 32 sid.bytes.length).toNat = sid.bytes.length := by
    rw [BitVec.toNat_ofNat, Nat.mod_eq_of_lt (by omega)]
  obtain ⟨-, h₅, h₉, h₁₀, h₁₄, -⟩ := has_memberOf sid
  have hhead := readU32_eq_some h₅
  have htag := readU8_eq_some h₉
  have hinner := readU32_eq_some h₁₀
  have hsid := readSlice_eq_some h₁₄ (ne_nil_of_length_pos
    (Nat.lt_of_lt_of_le (by decide : 0 < Sid.minSize) sid.length_pos))
  have hliteral : ∀ parse, parseLiteral (memberOf sid) parse 0x51#8 10
      = some (.sid sid.bytes, 14 + sid.bytes.length) := by
    intro parse
    have hparse : parseSidLiteral (memberOf sid) 10
        = some (.sid sid.bytes, 14 + sid.bytes.length) := by
      simp [parseSidLiteral, hinner, hmember, hsid]
      rfl
    exact hparse
  -- one member, and then the end of the literal
  have hmembers : ∀ parse, parseMembers (memberOf sid) parse (9 + (sid.bytes.length + 5))
      ((memberOf sid).length + 1) 9 = some ([.sid sid.bytes], 14 + sid.bytes.length) := by
    intro parse
    rw [hlen, parseMembers]
    have hend : parseMembers (memberOf sid) parse (9 + (sid.bytes.length + 5))
        (sid.bytes.length + 15) (14 + sid.bytes.length) = some ([], 14 + sid.bytes.length) := by
      rw [parseMembers, if_pos (by omega)]
    simp [htag, hliteral, hend]
  have hdepth : maxCompositeLiteralDepth = 63 + 1 := rfl
  rw [hdepth, parseCompositeLiteral]
  simp only [hhead, Option.bind_eq_bind, Option.bind_some, hsize, hmembers]
  rw [if_neg (by omega)]

variable [CharCase] (token : TokenView) (context : ConditionalContext) (forAllow : Bool)

/-- One token that pushes an entry. -/
theorem evaluateTokens_step {bytes : Bytes} {fuel offset offset' : ℕ} {stack stack' : Stack}
    {entry : StackEntry} (hlt : offset < bytes.length) (hdepth : stack.length ≤ maxStackDepth)
    (htoken : byteAt bytes offset ≠ 0x00#8)
    (heval : evaluateToken bytes token context forAllow (byteAt bytes offset) (offset + 1) stack
      = some (entry, offset', stack'))
    (hpush : (entry :: stack').length ≤ maxStackDepth) :
    evaluateTokens bytes token context forAllow (fuel + 1) offset stack
      = evaluateTokens bytes token context forAllow fuel offset' (entry :: stack') := by
  rw [evaluateTokens, tokenLoop, if_neg (Nat.not_le.mpr hlt), if_neg (Nat.not_lt.mpr hdepth)]
  simp only [if_neg htoken, heval, if_neg (Nat.not_lt.mpr hpush)]

/-- **The expression asks for the SID.** -/
theorem evaluate_memberOf (hallowed : context.membershipAllowed = true) :
    evaluateConditionalExpression (memberOf sid) token context forAllow
      = ofBool ((sidInMembershipSet token context sid.bytes forAllow false).getD false) := by
  have hlen := length_memberOf sid
  obtain ⟨h₄, -, -, -, -, hend⟩ := has_memberOf sid
  have hfirst := h₄.byteAt_eq
  have hlast := hend.byteAt_eq
  have hliteral : evaluateToken (memberOf sid) token context forAllow
      (byteAt (memberOf sid) 4) (4 + 1) []
      = some (.value ⟨.composite [.sid sid.bytes], .literal, 0#32⟩, 14 + sid.bytes.length, []) := by
    have hparse := parseCompositeLiteral_memberOf sid
    show (parseCompositeLiteral (memberOf sid) maxCompositeLiteralDepth 5).bind
      (fun parsed => some (StackEntry.value ⟨parsed.1, .literal, 0#32⟩, parsed.2, [])) = _
    rw [hparse]
    rfl
  obtain ⟨answer, hanswer⟩ := Option.isSome_iff_exists.mp
    (sidInMembershipSet_isSome token forAllow hallowed sid.bytes false)
  have hoperator : evaluateToken (memberOf sid) token context forAllow
      (byteAt (memberOf sid) (14 + sid.bytes.length)) (14 + sid.bytes.length + 1)
      [.value ⟨.composite [.sid sid.bytes], .literal, 0#32⟩]
      = some (.result (ofBool answer), 15 + sid.bytes.length, []) := by
    have hmembership : unaryMembership token context forAllow false false
        [.value ⟨.composite [.sid sid.bytes], .literal, 0#32⟩] = some (ofBool answer, []) := by
      cases answer <;> simp [unaryMembership, popValue, extractSidValues, extractSids, hanswer,
        ofBool]
    rw [hlast]
    show (unaryMembership token context forAllow false false
        [.value ⟨.composite [.sid sid.bytes], .literal, 0#32⟩]).bind
      (fun popped => some (StackEntry.result popped.1, 14 + sid.bytes.length + 1, popped.2)) = _
    rw [hmembership]
    simp only [Option.bind_eq_bind, Option.bind_some, Option.some.injEq, Prod.mk.injEq, true_and,
      and_true]
    omega
  have hdone : ∀ fuel, evaluateTokens (memberOf sid) token context forAllow (fuel + 1)
      (15 + sid.bytes.length) [.result (ofBool answer)] = some (ofBool answer) := by
    intro fuel
    rw [evaluateTokens, tokenLoop, if_pos (by omega), finish]
  have hone : ∀ entry : StackEntry, [entry].length ≤ maxStackDepth := fun _ => by
    show 1 ≤ 1024
    omega
  have hfuel : sid.bytes.length + 15 = sid.bytes.length + 12 + 1 + 1 + 1 := rfl
  rw [evaluateConditionalExpression, hlen,
    evaluateTokens_step token context forAllow (by omega) (Nat.zero_le _)
      (by rw [hfirst]; decide) hliteral (hone _),
    evaluateTokens_step token context forAllow (by omega) (hone _)
      (by rw [hlast]; decide) hoperator (hone _), hdone, hanswer]
  rfl

end Reading

/-! ## First and any -/

/-- The first group with a SID counts if any does. -/
def FirstSpeaks (groups : List SidAndAttributes) (sid : Sid) (forAllow : Bool) : Prop :=
  (∃ group ∈ groups, group.sid = sid ∧ group.counts forAllow = true) →
    SidAndAttributes.groupMatches groups sid.bytes forAllow = true

section

variable {sid : Sid} {token : TokenView}

/-- What the first group says, some group says. -/
theorem exists_of_groupMatches {groups : List SidAndAttributes} {forAllow : Bool}
    (h : SidAndAttributes.groupMatches groups sid.bytes forAllow = true) :
    ∃ group ∈ groups, group.sid = sid ∧ group.counts forAllow = true := by
  unfold SidAndAttributes.groupMatches at h
  split at h
  · rename_i group hfind
    have hsid := find?_some hfind
    exact ⟨group, mem_of_find?_eq_some hfind, Sid.ext (of_decide_eq_true hsid), h⟩
  · exact absurd h Bool.false_ne_true

/-- A SID that is not the user's is matched through the groups. -/
theorem sidMatchesToken_eq_true (hsid : sid ≠ token.user) (polarity : AcePolarity) :
    sidMatchesToken token sid polarity = true ↔ ∃ group ∈ token.groups, group.sid = sid ∧
      group.counts (decide (polarity = .allow)) = true := by
  unfold sidMatchesToken
  rw [if_neg hsid, any_eq_true]
  simp

/-- The two ways of matching a SID agree where the first group speaks for the others. -/
theorem groupMatches_iff_sidMatchesToken_iff (hsid : sid ≠ token.user) (polarity : AcePolarity) :
    (SidAndAttributes.groupMatches token.groups sid.bytes (decide (polarity = .allow)) = true ↔
      sidMatchesToken token sid polarity = true) ↔
      FirstSpeaks token.groups sid (decide (polarity = .allow)) := by
  rw [sidMatchesToken_eq_true hsid]
  exact ⟨fun h hany => h.mpr hany, fun h => ⟨exists_of_groupMatches, h⟩⟩

/-! ## Entries and conditions -/

/-- The user's own SID is matched alike in any case. -/
theorem matchesIdentityView_user (token : TokenView) (polarity : AcePolarity) :
    matchesIdentityView token.identity token.user (decide (polarity = .allow))
      = sidMatchesToken token token.user polarity := by
  cases polarity <;> simp [matchesIdentityView, TokenView.identity, sidMatchesToken]

theorem matchesIdentityView_of_ne (hsid : sid ≠ token.user) (forAllow : Bool) :
    matchesIdentityView token.identity sid forAllow
      = SidAndAttributes.groupMatches token.groups sid.bytes forAllow := by
  have hne : ¬ token.user = sid := fun h => hsid h.symm
  simp [matchesIdentityView, TokenView.identity, hne]

/-- An entry for PRINCIPAL SELF matches the SID that stands for it. -/
theorem aceMatchesIdentity_self (polarity : AcePolarity) (callerIsOwner : OwnerMatch)
    (selfSid : Option Sid) (ordinary : SidMatches) :
    aceMatchesIdentity Sid.principalSelf polarity callerIsOwner selfSid ordinary = true ↔
      ∃ sid ∈ selfSid, ordinary sid polarity = true := by
  have hor : ¬ Sid.principalSelf = Sid.ownerRights := by decide
  cases selfSid <;> simp [aceMatchesIdentity, hor]

theorem ofBool_eq_true {b : Bool} : ofBool b = .true ↔ b = true := by
  cases b <;> decide

end

section Agreement

variable [CharCase]

/-- A group SID in `Member_of` and in an entry are matched alike, for either polarity. -/
def GroupsAgree (token : TokenView) : Prop :=
  ∀ (sid : Sid), sid ≠ token.user → sid ≠ Sid.ownerRights → sid ≠ Sid.principalSelf →
    ∀ (polarity : AcePolarity) (context : ConditionalContext),
      evaluateConditionalExpression (memberOf sid) token context.normal
          (decide (polarity = .allow)) = .true ↔ sidMatchesToken token sid polarity = true

/-- PRINCIPAL SELF in `Member_of` and in an entry are matched alike, for either polarity. -/
def SelfAgrees (token : TokenView) : Prop :=
  ∀ (polarity : AcePolarity) (context : ConditionalContext),
    evaluateConditionalExpression (memberOf Sid.principalSelf) token context.normal
        (decide (polarity = .allow)) = .true ↔
      aceMatchesIdentity Sid.principalSelf polarity context.callerIsOwner context.selfSid
        (sidMatchesToken token) = true

section Context

variable (context : ConditionalContext) {token : TokenView}

/-- Of the caller's own groups, `Member_of` asks the first with the SID. -/
theorem memberOf_eq_true {sid : Sid} (hor : sid ≠ Sid.ownerRights) (hps : sid ≠ Sid.principalSelf)
    (forAllow : Bool) :
    evaluateConditionalExpression (memberOf sid) token context.normal forAllow = .true ↔
      SidAndAttributes.groupMatches token.groups sid.bytes forAllow = true := by
  have hor' : ¬ sid.bytes = Sid.ownerRights.bytes := fun h => hor (Sid.ext h)
  have hps' : ¬ sid.bytes = Sid.principalSelf.bytes := fun h => hps (Sid.ext h)
  rw [evaluate_memberOf sid token _ forAllow rfl, ofBool_eq_true]
  simp [sidInMembershipSet, ConditionalContext.normal, hor', hps', effectiveIdentityView,
    TokenView.identity]

/-- For PRINCIPAL SELF, `Member_of` asks for the SID that stands for it. -/
theorem memberOf_self_eq_true (forAllow : Bool) :
    evaluateConditionalExpression (memberOf Sid.principalSelf) token context.normal forAllow =
        .true ↔
      ∃ sid ∈ context.selfSid, matchesIdentityView token.identity sid forAllow = true := by
  have hor : ¬ Sid.principalSelf.bytes = Sid.ownerRights.bytes := by decide
  rw [evaluate_memberOf _ token _ forAllow rfl, ofBool_eq_true]
  cases hself : context.selfSid <;>
    simp [sidInMembershipSet, ConditionalContext.normal, hor, effectiveIdentityView, hself]

end Context

/-- **Entries and conditions agree on a token's groups exactly when the first group with a SID
speaks for the others with it.** The user's SID aside, which is matched before the groups. -/
theorem groupsAgree_iff (token : TokenView) :
    GroupsAgree token ∧ SelfAgrees token ↔
      ∀ (sid : Sid), sid ≠ token.user → ∀ polarity : AcePolarity,
        FirstSpeaks token.groups sid (decide (polarity = .allow)) := by
  constructor
  · rintro ⟨-, hself⟩ sid hsid polarity
    have h := hself polarity { Sample.context with selfSid := some sid }
    rw [memberOf_self_eq_true] at h
    simp only [Option.mem_some_iff, exists_eq_left', matchesIdentityView_of_ne hsid] at h
    exact (groupMatches_iff_sidMatchesToken_iff hsid polarity).mp h
  · intro h
    constructor
    · intro sid hsid hor hps polarity context
      rw [memberOf_eq_true context hor hps]
      exact (groupMatches_iff_sidMatchesToken_iff hsid polarity).mpr (h sid hsid polarity)
    · intro polarity context
      rw [memberOf_self_eq_true, aceMatchesIdentity_self]
      refine exists_congr fun sid => and_congr_right fun _ => ?_
      by_cases hsid : sid = token.user
      · rw [hsid, matchesIdentityView_user]
      · rw [matchesIdentityView_of_ne hsid]
        exact (groupMatches_iff_sidMatchesToken_iff hsid polarity).mpr (h sid hsid polarity)

end Agreement

/-! ## A group named twice -/

namespace TwiceNamed

/-- A specification that names the administrators twice, disabled and then enabled. -/
def specGroups : List SidAndAttributes :=
  [⟨Sid.administrators, 0#32⟩, ⟨Sid.administrators, seGroupEnabledByDefault⟩]

def logonSid : Sid := ⟨[1, 3, 0, 0, 0, 0, 0, 5, 5, 0, 0, 0, 0, 0, 0, 0, 1, 0, 0, 0], by decide⟩

/-- The groups of the token it makes. -/
def groups : List SidAndAttributes :=
  [⟨Sid.administrators, 0#32⟩,
    ⟨Sid.administrators, seGroupEnabledByDefault ||| seGroupEnabled⟩,
    ⟨logonSid, logonGroupAttributes⟩]

def token : TokenView := ⟨Sid.system, false, groups⟩

end TwiceNamed

/-- The specification is accepted. An allow entry for the administrators matches the token, and
`Member_of` in an allow entry is not true of it. -/
theorem twiceNamed_disagrees :
    groupsFromSpec TwiceNamed.specGroups TwiceNamed.logonSid = some TwiceNamed.token.groups ∧
      sidMatchesToken TwiceNamed.token Sid.administrators .allow = true ∧
      @evaluateConditionalExpression Sample.asciiCase (memberOf Sid.administrators)
        TwiceNamed.token Sample.context.normal true ≠ .true ∧
      ¬ @GroupsAgree Sample.asciiCase TwiceNamed.token := by
  let _ : CharCase := Sample.asciiCase
  have hmatch : sidMatchesToken TwiceNamed.token Sid.administrators .allow = true := by decide
  have hcondition : evaluateConditionalExpression (memberOf Sid.administrators)
      TwiceNamed.token Sample.context.normal true ≠ .true := by decide
  refine ⟨by decide, hmatch, hcondition, fun h => hcondition ?_⟩
  exact (h Sid.administrators (by decide) (by decide) (by decide) .allow Sample.context).mpr hmatch

end Pkm.Kacs
