import Pkm.Kacs.Model.Dacl
/-!
# Parsed entries always project

The mask of every entry that can grant or deny was validated when the entry was
parsed, and an object entry that announces an object type carries one. So the
fallible steps of a DACL walk never fail on a parsed list.
-/

namespace Pkm.Kacs

open Outcome

namespace Ace

open Bytes

variable {kind : AceKind} {bytes : Bytes}

/-! ## What the payload parsers checked -/

/-- An object entry that announces an object type has one. -/
theorem parseObjectFields_present {flags : BitVec 32} {ot it : Option Guid} {n : ℕ}
    (h : parseObjectFields bytes flags = .ok (ot, it, n)) :
    ∃ target, projectObjectTarget flags ot = .ok target := by
  obtain ⟨⟨ot', n₁⟩, h₁, h⟩ := of_bind h
  obtain ⟨⟨it', n₂⟩, -, h⟩ := of_bind h
  obtain ⟨-, h⟩ := of_guard h
  cases h
  unfold projectObjectTarget
  by_cases hf : flags &&& aceObjectTypePresent = 0#32
  · exact ⟨.global, by rw [if_pos hf]⟩
  · unfold readOptionalGuid at h₁
    rw [if_pos (by simpa using hf)] at h₁
    obtain ⟨guid, -, h₁⟩ := of_bind h₁
    cases h₁
    exact ⟨.object guid, by rw [if_neg hf]⟩

/-- The payloads a layout accepts. -/
inductive Payload (bytes : Bytes) : Layout → AceKind → Prop where
  | singleSid {sid : Sid} (hlen : minSingleSidSize ≤ bytes.length)
      (hmask : validateAceMask (u32At bytes 4) = .ok ())
      (hsid : Sid.parse (bytes.drop singleSidPrefixSize) = .ok sid) :
      Payload bytes .singleSid (.singleSid (u32At bytes 4) sid)
  | mandatoryLabel {sid : Sid} (hlen : minSingleSidSize ≤ bytes.length)
      (hsid : Sid.parse (bytes.drop singleSidPrefixSize) = .ok sid) :
      Payload bytes .mandatoryLabel (.singleSid (u32At bytes 4) sid)
  | object {ot it : Option Guid} {offset : ℕ} {sid : Sid} (hlen : minObjectSize ≤ bytes.length)
      (hmask : validateAceMask (u32At bytes 4) = .ok ())
      (hfields : parseObjectFields bytes (u32At bytes 8) = .ok (ot, it, offset))
      (hsid : Sid.parse (bytes.drop offset) = .ok sid) :
      Payload bytes .object (.object (u32At bytes 4) (u32At bytes 8) ot it sid)
  | callback {sid : Sid} {n : ℕ} (hlen : minSingleSidSize ≤ bytes.length)
      (hmask : validateAceMask (u32At bytes 4) = .ok ())
      (hsid : Sid.parsePrefix (bytes.drop singleSidPrefixSize) = .ok (sid, n)) :
      Payload bytes .callback (.callback (u32At bytes 4) sid (bytes.drop (singleSidPrefixSize + n)))
  | callbackObject {ot it : Option Guid} {offset n : ℕ} {sid : Sid}
      (hlen : minObjectSize ≤ bytes.length) (hmask : validateAceMask (u32At bytes 4) = .ok ())
      (hfields : parseObjectFields bytes (u32At bytes 8) = .ok (ot, it, offset))
      (hsid : Sid.parsePrefix (bytes.drop offset) = .ok (sid, n)) :
      Payload bytes .callbackObject
        (.callbackObject (u32At bytes 4) (u32At bytes 8) ot it sid (bytes.drop (offset + n)))
  | resourceAttribute {sid : Sid} {n : ℕ} (hlen : minSingleSidSize ≤ bytes.length)
      (hsid : Sid.parsePrefix (bytes.drop singleSidPrefixSize) = .ok (sid, n)) :
      Payload bytes .resourceAttribute
        (.resourceAttribute (u32At bytes 4) sid (bytes.drop (singleSidPrefixSize + n)))
  | opaqueLayout : Payload bytes .opaqueLayout .opaqueKind

/-- **What a payload that parses is.** -/
theorem payload_of_parseKind {aceType : Byte} (h : parseKind aceType bytes = .ok kind) :
    Payload bytes (layout aceType) kind := by
  unfold parseKind at h
  split at h
  all_goals rename_i hlayout; rw [hlayout]
  · obtain ⟨hlen, h⟩ := of_guard h
    obtain ⟨_, hmask, h⟩ := of_bind h
    obtain ⟨sid, hsid, h⟩ := of_bind h
    cases h
    exact .singleSid (Nat.not_lt.mp hlen) hmask hsid
  · obtain ⟨hlen, h⟩ := of_guard h
    obtain ⟨sid, hsid, h⟩ := of_bind h
    cases h
    exact .mandatoryLabel (Nat.not_lt.mp hlen) hsid
  · obtain ⟨hlen, h⟩ := of_guard h
    obtain ⟨_, hmask, h⟩ := of_bind h
    obtain ⟨⟨ot, it, offset⟩, hfields, h⟩ := of_bind h
    obtain ⟨sid, hsid, h⟩ := of_bind h
    cases h
    exact .object (Nat.not_lt.mp hlen) hmask hfields hsid
  · obtain ⟨hlen, h⟩ := of_guard h
    obtain ⟨_, hmask, h⟩ := of_bind h
    obtain ⟨⟨sid, n⟩, hsid, h⟩ := of_bind h
    cases h
    exact .callback (Nat.not_lt.mp hlen) hmask hsid
  · obtain ⟨hlen, h⟩ := of_guard h
    obtain ⟨_, hmask, h⟩ := of_bind h
    obtain ⟨⟨ot, it, offset⟩, hfields, h⟩ := of_bind h
    obtain ⟨⟨sid, n⟩, hsid, h⟩ := of_bind h
    cases h
    exact .callbackObject (Nat.not_lt.mp hlen) hmask hfields hsid
  · obtain ⟨hlen, h⟩ := of_guard h
    obtain ⟨_, -, h⟩ := of_bind h
    obtain ⟨⟨sid, n⟩, hsid, h⟩ := of_bind h
    obtain ⟨-, h⟩ := of_guard h
    obtain ⟨_, -, h⟩ := of_bind h
    cases h
    exact .resourceAttribute (Nat.not_lt.mp hlen) hsid
  · cases h
    exact .opaqueLayout

theorem payload (a : Ace) : Payload a.bytes (layout a.aceType) a.kind :=
  payload_of_parseKind a.wf.2.2.2.2.2.2

end Ace

/-! ## Projection -/

theorem polarityOf_mem {allowType denyType aceType : Byte} {p : AcePolarity}
    (h : polarityOf allowType denyType aceType = some p) :
    aceType = allowType ∨ aceType = denyType := by
  unfold polarityOf at h
  split_ifs at h with h₁ h₂
  · exact .inl h₁
  · exact .inr h₂

/-- **An entry of a parsed list always projects.** -/
theorem projectDaclAce_ok (ace : Ace) (mapping : GenericMapping) :
    ∃ projected, projectDaclAce ace mapping = .ok projected := by
  have hk := ace.payload
  -- a label's mask is not validated, but a label has no polarity
  have hlabel : Ace.layout ace.aceType = .mandatoryLabel →
      polarityOf accessAllowedAceType accessDeniedAceType ace.aceType = none := by
    intro hlay
    rcases hpol : polarityOf accessAllowedAceType accessDeniedAceType ace.aceType with _ | p
    · rfl
    · rcases polarityOf_mem hpol with h | h <;> rw [h] at hlay <;> cases hlay
  unfold projectDaclAce
  generalize Ace.layout ace.aceType = lay, ace.kind = kind at hk hlabel ⊢
  cases hk with
  | mandatoryLabel =>
    simp only [hlabel rfl]
    exact ⟨_, rfl⟩
  | object _ hm hfields | callbackObject _ hm hfields =>
    obtain ⟨target, ht⟩ := Ace.parseObjectFields_present hfields
    simp only [mapping.mapMask_of_validateAceMask hm, ht]
    split <;> exact ⟨_, rfl⟩
  | singleSid _ hm | callback _ hm =>
    simp only [mapping.mapMask_of_validateAceMask hm]
    split <;> exact ⟨_, rfl⟩
  | resourceAttribute | opaqueLayout => exact ⟨_, rfl⟩

/-- The entry types that decide access: to allow, to deny, and whether they carry a condition. -/
def accessAceTypes : List (Byte × Byte × Bool) :=
  [(accessAllowedAceType, accessDeniedAceType, false),
    (accessAllowedObjectAceType, accessDeniedObjectAceType, false),
    (accessAllowedCallbackAceType, accessDeniedCallbackAceType, true),
    (accessAllowedCallbackObjectAceType, accessDeniedCallbackObjectAceType, true)]

/-- **What an entry that decides something is.** Its type gives the polarity and whether there is a
condition, and it speaks for its own SID. -/
theorem projectDaclAce_inv {ace : Ace} {mapping : GenericMapping} {projected : ProjectedDaclAce}
    (h : projectDaclAce ace mapping = .ok (some projected)) :
    ∃ types ∈ accessAceTypes,
      polarityOf types.1 types.2.1 ace.aceType = some projected.polarity ∧
      projected.condition.isSome = types.2.2 ∧ ace.kind.accessSid = some projected.sid := by
  unfold projectDaclAce at h
  split at h
  · rename_i mask sid hkind
    split at h
    · cases h
    · rename_i p hpol
      obtain ⟨_, -, h⟩ := of_bind h
      cases Except.ok.inj h
      exact ⟨_, .head _, hpol, rfl, by rw [hkind]; rfl⟩
  · rename_i mask flags objectType inherited sid hkind
    split at h
    · cases h
    · rename_i p hpol
      obtain ⟨_, -, h⟩ := of_bind h
      obtain ⟨_, -, h⟩ := of_bind h
      cases Except.ok.inj h
      exact ⟨_, .tail _ (.head _), hpol, rfl, by rw [hkind]; rfl⟩
  · rename_i mask sid applicationData hkind
    split at h
    · cases h
    · rename_i p hpol
      obtain ⟨_, -, h⟩ := of_bind h
      cases Except.ok.inj h
      exact ⟨_, .tail _ (.tail _ (.head _)), hpol, rfl, by rw [hkind]; rfl⟩
  · rename_i mask flags objectType inherited sid applicationData hkind
    split at h
    · cases h
    · rename_i p hpol
      obtain ⟨_, -, h⟩ := of_bind h
      obtain ⟨_, -, h⟩ := of_bind h
      cases Except.ok.inj h
      exact ⟨_, .tail _ (.tail _ (.tail _ (.head _))), hpol, rfl, by rw [hkind]; rfl⟩
  · cases h
  · cases h

end Pkm.Kacs
