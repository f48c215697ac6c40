import Pkm.Kacs.Model.Claims
import Pkm.Kacs.Model.Token
/-!
# Conditional expressions

The bytecode of a callback ACE: literals, claim references, comparisons,
membership tests and three-valued logic on a stack. Anything malformed, and any
comparison of unlike values, is `unknown`, which grants nothing in an allow ACE
and denies in a deny ACE.

Readers take a position and return the next one. The loops over the bytecode and
over a composite literal count down from the length of the buffer, which bounds
the number of steps because each takes at least one byte; nested composites count
down from the maximal depth.
-/

namespace Pkm.Kacs

open Bytes

inductive ConditionalResult where
  | true
  | false
  | unknown
  deriving DecidableEq

/-- How the caller matches the owner: at all, for an allow ACE, for a deny ACE. -/
structure OwnerMatch where
  present : Bool
  allow : Bool
  deny : Bool

namespace OwnerMatch

def none : OwnerMatch := ⟨false, false, false⟩

def presence (present : Bool) : OwnerMatch := ⟨present, present, present⟩

def forAllow (self : OwnerMatch) (forAllow : Bool) : Bool :=
  if forAllow then self.allow else self.deny

end OwnerMatch

/-- What a condition is evaluated against. -/
structure ConditionalContext where
  selfSid : Option Sid
  principalSelfMatches : Option Bool
  callerIsOwner : OwnerMatch
  identity : Option IdentityView
  identityMembershipIsPresenceBased : Bool
  deviceGroups : List SidAndAttributes
  deviceMembershipUsesVirtualGroups : Bool
  membershipAllowed : Bool
  userClaims : List ClaimAttribute
  deviceClaims : List ClaimAttribute
  resourceClaims : List ClaimAttribute
  localClaims : List ClaimAttribute

namespace Condition

def maxStackDepth : ℕ := 1024

def maxCompositeLiteralDepth : ℕ := 64

/-- A value on the stack. -/
inductive Value where
  | null
  | int64 (value : BitVec 64)
  | uint64 (value : BitVec 64)
  | string (value : Str)
  | octet (bytes : Bytes)
  | sid (bytes : Bytes)
  | composite (values : List Value)

inductive ValueOrigin where
  | literal
  | attributeRef

structure OperandValue where
  value : Value
  origin : ValueOrigin
  flags : BitVec 32

inductive StackEntry where
  | value (operand : OperandValue)
  | result (result : ConditionalResult)

/-- The evaluation stack, top first. -/
abbrev Stack := List StackEntry

/-! ## Readers -/

variable (bytes : Bytes) (offset : ℕ) (token : TokenView) (context : ConditionalContext)

def readU8 : Option (Byte × ℕ) :=
  if offset < bytes.length then some (byteAt bytes offset, offset + 1) else none

def readSlice (len : ℕ) : Option (Bytes × ℕ) :=
  if offset + len ≤ bytes.length then some (slice bytes offset (offset + len), offset + len)
  else none

def readU32 : Option (BitVec 32 × ℕ) := do
  let (s, offset) ← readSlice bytes offset 4
  some (u32At s 0, offset)

/-- The code units of an even number of bytes. -/
def codeUnits : Bytes → List (BitVec 16)
  | b₀ :: b₁ :: rest => leU16 b₀ b₁ :: codeUnits rest
  | _ => []

def decodeUtf16String : Option Str :=
  if bytes.length % 2 ≠ 0 then none else decodeUtf16 (codeUnits bytes)

/-! ## Literals -/

def i64Min : BitVec 64 := 0x8000000000000000#64

def normalizeSignedLiteral (rawValue : BitVec 64) (sign : Byte) : Option (BitVec 64) :=
  if rawValue = i64Min then if sign = 0x02#8 then some i64Min else none
  else
    let magnitude := if rawValue.toInt < 0 then -rawValue else rawValue
    if sign = 0x01#8 ∨ sign = 0x03#8 then some magnitude
    else if sign = 0x02#8 then some (-magnitude)
    else none

def literalFitsDeclaredWidth (value : BitVec 64) (tokenType : Byte) : Bool :=
  if tokenType = 0x01#8 then decide (-0x80 ≤ value.toInt ∧ value.toInt ≤ 0x7f)
  else if tokenType = 0x02#8 then decide (-0x8000 ≤ value.toInt ∧ value.toInt ≤ 0x7fff)
  else if tokenType = 0x03#8 then decide (-0x80000000 ≤ value.toInt ∧ value.toInt ≤ 0x7fffffff)
  else decide (tokenType = 0x04#8)

/-- The literal of the given token type, whose payload starts at the offset. -/
def parseIntLiteral (tokenType : Byte) (offset : ℕ) : Option (Value × ℕ) := do
  let (raw, offset) ← readSlice bytes offset 8
  let (sign, offset) ← readU8 bytes offset
  let (base, offset) ← readU8 bytes offset
  if ¬ (0x01#8 ≤ sign ∧ sign ≤ 0x03#8) ∨ ¬ (0x01#8 ≤ base ∧ base ≤ 0x03#8) then none
  else
    let value ← normalizeSignedLiteral (u64At raw 0) sign
    if ¬ literalFitsDeclaredWidth value tokenType then none
    else some (.int64 value, offset)

def parseStringLiteral : Option (Value × ℕ) := do
  let (len, offset) ← readU32 bytes offset
  if len.toNat % 2 ≠ 0 then none
  else
    let (raw, offset) ← readSlice bytes offset len.toNat
    let string ← decodeUtf16String raw
    some (.string string, offset)

def parseOctetLiteral : Option (Value × ℕ) := do
  let (len, offset) ← readU32 bytes offset
  let (raw, offset) ← readSlice bytes offset len.toNat
  some (.octet raw, offset)

def parseSidLiteral : Option (Value × ℕ) := do
  let (len, offset) ← readU32 bytes offset
  let (raw, offset) ← readSlice bytes offset len.toNat
  let _ ← (Sid.parse raw).toOption
  some (.sid raw, offset)

/-- A literal of the given token type, with a parser for composites. -/
def parseLiteral (parseComposite : ℕ → Option (Value × ℕ)) (tokenType : Byte) (offset : ℕ) :
    Option (Value × ℕ) :=
  if 0x01#8 ≤ tokenType ∧ tokenType ≤ 0x04#8 then parseIntLiteral bytes tokenType offset
  else if tokenType = 0x10#8 then parseStringLiteral bytes offset
  else if tokenType = 0x18#8 then parseOctetLiteral bytes offset
  else if tokenType = 0x50#8 then parseComposite offset
  else if tokenType = 0x51#8 then parseSidLiteral bytes offset
  else none

/-- The members of a composite literal that ends at `stop`. -/
def parseMembers (bytes : Bytes) (parseComposite : ℕ → Option (Value × ℕ)) (stop : ℕ) :
    ℕ → ℕ → Option (List Value × ℕ)
  | 0, _ => none
  | fuel + 1, offset =>
    if offset ≥ stop then some ([], offset)
    else do
      let (tokenType, offset) ← readU8 bytes offset
      if tokenType = 0x00#8 then none
      else
        let (value, offset) ← parseLiteral bytes parseComposite tokenType offset
        let (values, offset) ← parseMembers bytes parseComposite stop fuel offset
        some (value :: values, offset)

/-- A composite literal that may still nest `depth` levels, itself included. -/
def parseCompositeLiteral (bytes : Bytes) : ℕ → ℕ → Option (Value × ℕ)
  | 0, _ => none
  | depth + 1, offset => do
    let (len, offset) ← readU32 bytes offset
    let stop := offset + len.toNat
    if stop > bytes.length then none
    else
      let (values, offset) ←
        parseMembers bytes (parseCompositeLiteral bytes depth) stop (bytes.length + 1) offset
      some (.composite values, offset)

/-! ## Claim references -/

mutual

/-- The stack value of a claim value. -/
def claimValueToValue : ClaimValue → Value
  | .int64 value => .int64 value
  | .uint64 value => .uint64 value
  | .string value => .string value
  | .sid bytes => .sid bytes
  | .octet bytes => .octet bytes
  | .boolean value => .int64 (if value ≠ 0#64 then 1#64 else 0#64)
  | .composite values => .composite (claimValuesToValues values)

def claimValuesToValues : List ClaimValue → List Value
  | [] => []
  | v :: vs => claimValueToValue v :: claimValuesToValues vs

end

def attributeNull : OperandValue := { value := .null, origin := .attributeRef, flags := 0#32 }

section Evaluate

variable [CharCase]

/-- The first attribute of that name, as a value: null when it is missing, disabled, deny-only in
an allow ACE, or without values; a composite when it has several. -/
def lookupAttribute (claims : List ClaimAttribute) (name : Str) (forAllow : Bool) :
    OperandValue :=
  match claims.find? fun attr => decide (foldString attr.name = foldString name) with
  | none => attributeNull
  | some attr =>
    if attr.flags &&& claimDisabled ≠ 0#32 then attributeNull
    else if forAllow ∧ attr.flags &&& claimUseForDenyOnly ≠ 0#32 then attributeNull
    else
      match attr.values with
      | [] => attributeNull
      | [value] =>
        { value := claimValueToValue value, origin := .attributeRef, flags := attr.flags }
      | values =>
        { value := .composite (claimValuesToValues values), origin := .attributeRef
          flags := attr.flags }

def parseAttributeRef (bytes : Bytes) (offset : ℕ) (claims : List ClaimAttribute)
    (forAllow : Bool) : Option (OperandValue × ℕ) := do
  let (len, offset) ← readU32 bytes offset
  if len.toNat % 2 ≠ 0 then none
  else
    let (raw, offset) ← readSlice bytes offset len.toNat
    let name ← decodeUtf16String raw
    some (lookupAttribute claims name forAllow, offset)

end Evaluate

/-! ## Three-valued logic -/

def invertResult : ConditionalResult → ConditionalResult
  | .true => .false
  | .false => .true
  | .unknown => .unknown

def logicalAnd : ConditionalResult → ConditionalResult → ConditionalResult
  | .false, _ | _, .false => .false
  | .unknown, _ | _, .unknown => .unknown
  | .true, .true => .true

def logicalOr : ConditionalResult → ConditionalResult → ConditionalResult
  | .true, _ | _, .true => .true
  | .unknown, _ | _, .unknown => .unknown
  | .false, .false => .false

def combinePair : ConditionalResult → ConditionalResult → ConditionalResult
  | .true, .true => .true
  | .false, _ | _, .false => .false
  | _, _ => .unknown

def ofBool (b : Bool) : ConditionalResult := if b then .true else .false

/-! ## Comparisons -/

def compareInt64UInt64 (lhs rhs : BitVec 64) : Ordering :=
  if lhs.toInt < 0 then .lt else compare lhs.toNat rhs.toNat

/-- Lexicographic comparison of byte strings. -/
def compareBytes : Bytes → Bytes → Ordering
  | [], [] => .eq
  | [], _ :: _ => .lt
  | _ :: _, [] => .gt
  | a :: as, b :: bs => (compare a.toNat b.toNat).then (compareBytes as bs)

def toAsciiLowercase (b : Byte) : Byte :=
  if 0x41#8 ≤ b ∧ b ≤ 0x5a#8 then b + 0x20#8 else b

def compareOctets (lhs rhs : Bytes) (caseSensitive : Bool) : Ordering :=
  if caseSensitive then compareBytes lhs rhs
  else compareBytes (lhs.map toAsciiLowercase) (rhs.map toAsciiLowercase)

def utf16leBytes (value : Str) : Bytes := (encodeUtf16 value).flatMap ofU16

def compareStrings (lhs rhs : Str) (caseSensitive : Bool) : Ordering :=
  compareOctets (utf16leBytes lhs) (utf16leBytes rhs) caseSensitive

def compareScalar (lhs rhs : Value) (caseSensitive : Bool) : Option Ordering :=
  match lhs, rhs with
  | .int64 lhs, .int64 rhs => some (compare lhs.toInt rhs.toInt)
  | .uint64 lhs, .uint64 rhs => some (compare lhs.toNat rhs.toNat)
  | .int64 lhs, .uint64 rhs => some (compareInt64UInt64 lhs rhs)
  | .uint64 lhs, .int64 rhs => some (compareInt64UInt64 rhs lhs).swap
  | .string lhs, .string rhs => some (compareStrings lhs rhs caseSensitive)
  | .octet lhs, .octet rhs => some (compareOctets lhs rhs caseSensitive)
  | _, _ => none

namespace Value

def isComposite : Value → Bool
  | .composite _ => true
  | _ => false

def asSet : Value → List Value
  | .composite values => values
  | v => [v]

def scalarOnly : Value → Option Value
  | .composite [v] => some v
  | .composite _ => none
  | v => some v

mutual

/-- How deep composites nest in a value. -/
def depth : Value → ℕ
  | .composite values => depthOfList values + 1
  | _ => 0

def depthOfList : List Value → ℕ
  | [] => 0
  | v :: vs => max v.depth (depthOfList vs)

end

end Value

/-- Equality of values that are not composites; `none` for unlike or null values. -/
def scalarsEqual (lhs rhs : Value) (caseSensitive : Bool) : Option Bool :=
  match lhs, rhs with
  | .int64 lhs, .int64 rhs => some (decide (lhs = rhs))
  | .uint64 lhs, .uint64 rhs => some (decide (lhs = rhs))
  | .int64 lhs, .uint64 rhs => some (compareInt64UInt64 lhs rhs == .eq)
  | .uint64 lhs, .int64 rhs => some (compareInt64UInt64 rhs lhs == .eq)
  | .string lhs, .string rhs => some (compareStrings lhs rhs caseSensitive == .eq)
  | .octet lhs, .octet rhs => some (compareOctets lhs rhs caseSensitive == .eq)
  | .sid lhs, .sid rhs => some (decide (lhs = rhs))
  | _, _ => none

section Sets

variable (equal : Value → Value → Option Bool)

/-- Looks for `rhs` among the values: whether it was found before the end, and whether some
comparison was undefined until then. -/
def findEqual (rhs : Value) : List Value → Bool → Bool × Bool
  | [], localUnknown => (false, localUnknown)
  | lhs :: rest, localUnknown =>
    match equal lhs rhs with
    | some true => (true, localUnknown)
    | some false => findEqual rhs rest localUnknown
    | none => findEqual rhs rest true

def containsAll (lhs : List Value) : List Value → Bool → ConditionalResult
  | [], sawUnknown => if sawUnknown then .unknown else .true
  | rhs :: rest, sawUnknown =>
    match findEqual equal rhs lhs false with
    | (true, _) => containsAll lhs rest sawUnknown
    | (false, true) => containsAll lhs rest true
    | (false, false) => .false

def containsAny (lhs : List Value) : List Value → Bool → ConditionalResult
  | [], sawUnknown => if sawUnknown then .unknown else .false
  | rhs :: rest, sawUnknown =>
    match findEqual equal rhs lhs sawUnknown with
    | (true, _) => .true
    | (false, sawUnknown) => containsAny lhs rest sawUnknown

end Sets

/-- Equality of values, where composites are compared as sets; the counter bounds the nesting. -/
def valuesEqualWithin (caseSensitive : Bool) : ℕ → Value → Value → Option Bool
  | 0, _, _ => none
  | fuel + 1, lhs, rhs =>
    if lhs.isComposite || rhs.isComposite then
      let equal := valuesEqualWithin caseSensitive fuel
      match combinePair (containsAll equal lhs.asSet rhs.asSet false)
          (containsAll equal rhs.asSet lhs.asSet false) with
      | .true => some true
      | .false => some false
      | .unknown => none
    else scalarsEqual lhs rhs caseSensitive

/-- Equality of values. Each level of comparison enters one composite, so the sum of the depths
bounds the recursion. -/
def valuesEqual (caseSensitive : Bool) (lhs rhs : Value) : Option Bool :=
  valuesEqualWithin caseSensitive (lhs.depth + rhs.depth + 1) lhs rhs

inductive SetRelation where
  | equal
  | contains
  | anyOf

section

variable (lhs rhs : OperandValue)

def caseSensitive : Bool := decide ((lhs.flags ||| rhs.flags) &&& claimCaseSensitive ≠ 0#32)

def compareSetRelation (relation : SetRelation) : ConditionalResult :=
  let equal := valuesEqual (caseSensitive lhs rhs)
  let lhsValues := lhs.value.asSet
  let rhsValues := rhs.value.asSet
  match relation with
  | .equal =>
    if lhsValues.length ≠ rhsValues.length then .false
    else
      combinePair (containsAll equal lhsValues rhsValues false)
        (containsAll equal rhsValues lhsValues false)
  | .contains => containsAll equal lhsValues rhsValues false
  | .anyOf => containsAny equal rhsValues lhsValues false

def compareOrder (predicate : Ordering → Bool) : ConditionalResult :=
  match lhs.value.scalarOnly, rhs.value.scalarOnly with
  | some lhsScalar, some rhsScalar =>
    match compareScalar lhsScalar rhsScalar (caseSensitive lhs rhs) with
    | some ordering => ofBool (predicate ordering)
    | none => .unknown
  | _, _ => .unknown

def compareEq : ConditionalResult := compareSetRelation lhs rhs .equal
def compareNe : ConditionalResult := invertResult (compareEq lhs rhs)
def compareLt : ConditionalResult := compareOrder lhs rhs (· == .lt)
def compareLe : ConditionalResult := compareOrder lhs rhs (· != .gt)
def compareGt : ConditionalResult := compareOrder lhs rhs (· == .gt)
def compareGe : ConditionalResult := compareOrder lhs rhs (· != .lt)
def compareContains : ConditionalResult := compareSetRelation lhs rhs .contains
def compareNotContains : ConditionalResult := invertResult (compareContains lhs rhs)
def compareAnyOf : ConditionalResult := compareSetRelation lhs rhs .anyOf
def compareNotAnyOf : ConditionalResult := invertResult (compareAnyOf lhs rhs)

end

/-! ## Membership -/

def effectiveIdentityView : IdentityView := context.identity.getD token.identity

def matchesIdentityView (identity : IdentityView) (sid : Sid) (forAllow : Bool) : Bool :=
  if identity.user = some sid then if forAllow then !identity.userDenyOnly else true
  else SidAndAttributes.groupMatches identity.groups sid.bytes forAllow

/-- Whether a SID is among the caller's groups, or the device's; `none` where membership may not
be asked. -/
def sidInMembershipSet (sidBytes : Bytes) (forAllow device : Bool) : Option Bool :=
  if ¬ context.membershipAllowed then none
  else
    let virtual := !device || context.deviceMembershipUsesVirtualGroups
    if virtual ∧ sidBytes = Sid.ownerRights.bytes then
      some (context.callerIsOwner.forAllow forAllow)
    else if virtual ∧ sidBytes = Sid.principalSelf.bytes then
      match context.principalSelfMatches, context.selfSid with
      | some selfMatches, _ => some selfMatches
      | none, none => some false
      | none, some selfSid =>
        some (matchesIdentityView (effectiveIdentityView token context) selfSid forAllow)
    else
      let identity := effectiveIdentityView token context
      if ¬ device ∧ context.identityMembershipIsPresenceBased then
        some (identity.user.any (fun user => decide (user.bytes = sidBytes)) ||
          identity.groups.any fun group => decide (group.sid.bytes = sidBytes))
      else
        let groups := if device then context.deviceGroups else identity.groups
        some (SidAndAttributes.groupMatches groups sidBytes forAllow)

def extractSids : List Value → Option (List Bytes)
  | [] => some []
  | .sid bytes :: rest => (extractSids rest).map (bytes :: ·)
  | _ :: _ => none

def extractSidValues : Value → Option (List Bytes)
  | .sid bytes => some [bytes]
  | .composite values => extractSids values
  | _ => none

/-! ## Stack operations -/

def popValue : Stack → Option (OperandValue × Stack)
  | .value operand :: stack => some (operand, stack)
  | _ => none

/-- An operand of a logical operator: a result, or a literal, which makes the operator unknown. -/
inductive LogicalOperand where
  | result (result : ConditionalResult)
  | literalOrigin

def coerceLogicalValue (operand : OperandValue) : LogicalOperand :=
  match operand.origin with
  | .literal => .literalOrigin
  | .attributeRef =>
    .result <| match operand.value with
      | .int64 value => ofBool (value ≠ 0#64)
      | .uint64 value => ofBool (value ≠ 0#64)
      | .string value => ofBool (!value.isEmpty)
      | .null | .octet _ | .sid _ | .composite _ => .unknown

def popLogicalOperand : Stack → Option (LogicalOperand × Stack)
  | .result result :: stack => some (.result result, stack)
  | .value operand :: stack => some (coerceLogicalValue operand, stack)
  | [] => none

def binaryCompare (op : OperandValue → OperandValue → ConditionalResult) (stack : Stack) :
    Option (ConditionalResult × Stack) := do
  let (rhs, stack) ← popValue stack
  let (lhs, stack) ← popValue stack
  some (op lhs rhs, stack)

def unaryExists (stack : Stack) : Option (ConditionalResult × Stack) := do
  let (operand, stack) ← popValue stack
  match operand.origin, operand.value with
  | .literal, _ => some (.unknown, stack)
  | .attributeRef, .null => some (.false, stack)
  | .attributeRef, _ => some (.true, stack)

def unaryMembership (forAllow device any : Bool) (stack : Stack) :
    Option (ConditionalResult × Stack) := do
  let (operand, stack) ← popValue stack
  let sids ← extractSidValues operand.value
  let answers := sids.map fun sid => sidInMembershipSet token context sid forAllow device
  let sawUnknown := answers.any (·.isNone)
  let matchedAny := answers.any (· == some true)
  let result : ConditionalResult :=
    if any then if matchedAny then .true else if sawUnknown then .unknown else .false
    else if sawUnknown then .unknown
    else if matchedAny || sids.isEmpty then ofBool (answers.all (· == some true))
    else .false
  some (result, stack)

def binaryLogical (op : ConditionalResult → ConditionalResult → ConditionalResult)
    (stack : Stack) : Option (ConditionalResult × Stack) := do
  let (rhs, stack) ← popLogicalOperand stack
  let (lhs, stack) ← popLogicalOperand stack
  match lhs, rhs with
  | .result lhs, .result rhs => some (op lhs rhs, stack)
  | _, _ => some (.unknown, stack)

def unaryLogicalNot (stack : Stack) : Option (ConditionalResult × Stack) := do
  let (operand, stack) ← popLogicalOperand stack
  match operand with
  | .literalOrigin => some (.unknown, stack)
  | .result result => some (invertResult result, stack)

/-! ## The evaluator -/

/-- The loop over the tokens of an expression, with the number of rounds it may take; no answer
means that there were too few. The evaluator and the validator have stacks of their own. -/
def tokenLoop {ε ρ : Type} (bytes : Bytes) (read : Byte → ℕ → List ε → Option (ε × ℕ × List ε))
    (finish : List ε → ρ) (stuck : ρ) : ℕ → ℕ → List ε → Option ρ
  | 0, _, _ => none
  | fuel + 1, offset, stack =>
    if offset ≥ bytes.length then some (finish stack)
    else if stack.length > maxStackDepth then some stuck
    else
      let tokenType := byteAt bytes offset
      let offset := offset + 1
      -- a zero token ends the expression and only padding may follow it
      if tokenType = 0x00#8 then
        if (bytes.drop offset).any (· ≠ 0x00#8) then some stuck else some (finish stack)
      else
        match read tokenType offset stack with
        | none => some stuck
        | some (entry, offset, stack) =>
          if (entry :: stack).length > maxStackDepth then some stuck
          else tokenLoop bytes read finish stuck fuel offset (entry :: stack)

variable [CharCase] (bytes : Bytes) (token : TokenView) (context : ConditionalContext)
  (forAllow : Bool) (tokenType : Byte)

/-- An operator token: what it pushes and the stack it leaves. -/
def applyOperator (stack : Stack) : Option (ConditionalResult × Stack) :=
  let membership := unaryMembership token context forAllow
  let inverted := Option.map fun (result, stack) => (invertResult result, stack)
  if tokenType = 0x80#8 then binaryCompare compareEq stack
  else if tokenType = 0x81#8 then binaryCompare compareNe stack
  else if tokenType = 0x82#8 then binaryCompare compareLt stack
  else if tokenType = 0x83#8 then binaryCompare compareLe stack
  else if tokenType = 0x84#8 then binaryCompare compareGt stack
  else if tokenType = 0x85#8 then binaryCompare compareGe stack
  else if tokenType = 0x86#8 then binaryCompare compareContains stack
  else if tokenType = 0x87#8 then unaryExists stack
  else if tokenType = 0x88#8 then binaryCompare compareAnyOf stack
  else if tokenType = 0x89#8 then membership false false stack
  else if tokenType = 0x8a#8 then membership true false stack
  else if tokenType = 0x8b#8 then membership false true stack
  else if tokenType = 0x8c#8 then membership true true stack
  else if tokenType = 0x8d#8 then inverted (unaryExists stack)
  else if tokenType = 0x8e#8 then binaryCompare compareNotContains stack
  else if tokenType = 0x8f#8 then binaryCompare compareNotAnyOf stack
  else if tokenType = 0x90#8 then inverted (membership false false stack)
  else if tokenType = 0x91#8 then inverted (membership true false stack)
  else if tokenType = 0x92#8 then inverted (membership false true stack)
  else if tokenType = 0x93#8 then inverted (membership true true stack)
  else if tokenType = 0xa0#8 then binaryLogical logicalAnd stack
  else if tokenType = 0xa1#8 then binaryLogical logicalOr stack
  else if tokenType = 0xa2#8 then unaryLogicalNot stack
  else none

/-- The claims a reference token names. -/
def claimsOfToken : Option (List ClaimAttribute) :=
  if tokenType = 0xf8#8 then some context.localClaims
  else if tokenType = 0xf9#8 then some context.userClaims
  else if tokenType = 0xfa#8 then some context.resourceClaims
  else if tokenType = 0xfb#8 then some context.deviceClaims
  else none

/-- One token: the entry it pushes, the position behind it and the stack below the entry. -/
def evaluateToken (offset : ℕ) (stack : Stack) : Option (StackEntry × ℕ × Stack) :=
  if 0x01#8 ≤ tokenType ∧ tokenType ≤ 0x51#8 then do
    let (value, offset) ← parseLiteral bytes
      (parseCompositeLiteral bytes maxCompositeLiteralDepth) tokenType offset
    some (.value { value, origin := .literal, flags := 0#32 }, offset, stack)
  else
    match claimsOfToken context tokenType with
    | some claims => do
      let (operand, offset) ← parseAttributeRef bytes offset claims forAllow
      some (.value operand, offset, stack)
    | none => do
      let (result, stack) ← applyOperator token context forAllow tokenType stack
      some (.result result, offset, stack)

/-- The answer a final stack gives. -/
def finish : Stack → ConditionalResult
  | [.result result] => result
  | _ => .unknown

def evaluateTokens : ℕ → ℕ → Stack → Option ConditionalResult :=
  tokenLoop bytes (evaluateToken bytes token context forAllow) finish .unknown

end Condition

/-- Evaluates the bytecode of a callback ACE for an allow or a deny ACE. -/
def evaluateConditionalExpression [CharCase] (bytes : Bytes) (token : TokenView)
    (context : ConditionalContext) (forAllow : Bool) : ConditionalResult :=
  if bytes.length < 4 ∨ bytes.take 4 ≠ [0x61#8, 0x72#8, 0x74#8, 0x78#8] then .unknown
  else (Condition.evaluateTokens bytes token context forAllow bytes.length 4 []).getD .unknown

end Pkm.Kacs
