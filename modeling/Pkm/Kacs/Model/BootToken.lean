import Pkm.Kacs.Model.Token
/-!
# Tokens of the runtime

The runtime keeps a token of its own and hands an access check a view of it.
`restrict` derives a token from another: privileges are deleted, groups become
deny-only, and the restricting SIDs of a restricted token can only be cut down.

A token is created only if being write-restricted comes with a deny-only user, and
every derivation keeps that; the structure carries it.
-/

namespace Pkm.Kacs

/-! ## Errors -/

inductive Errno where
  | eacces
  | einval
  | erange
  | enomem
  deriving DecidableEq

abbrev SysResult := Except Errno

/-- A result of the core, with one errno for all its errors. -/
def orErrno {α : Type} (x : KacsResult α) (e : Errno) : SysResult α := x.mapError fun _ => e

theorem orErrno_eq_ok {α : Type} {x : KacsResult α} {e : Errno} {a : α} :
    orErrno x e = .ok a ↔ x = .ok a := by
  cases x with
  | error _ => simp [orErrno, Except.mapError]
  | ok _ => simp [orErrno, Except.mapError]

/-! ## Tokens -/

def seTcbPrivilege : BitVec 64 := 0x80#64

structure BootToken where
  userSid : Sid
  groups : List SidAndAttributes
  privileges : TokenPrivileges
  integrityLevel : IntegrityLevel
  mandatoryPolicy : BitVec 32
  tokenType : TokenType
  impersonationLevel : ImpersonationLevel
  userDenyOnly : Bool
  writeRestricted : Bool
  restrictedSids : List SidAndAttributes
  restrictedDeviceGroups : List SidAndAttributes
  confinementSid : Option Sid
  confinementCapabilities : List SidAndAttributes
  confinementExempt : Bool
  auditPolicy : BitVec 32
  userDenyOnly_of_writeRestricted : writeRestricted = true → userDenyOnly = true

namespace BootToken

variable (self : BootToken)

/-- The token an access check sees. -/
def withAccessToken : AccessCheckToken where
  subject := { user := self.userSid, userDenyOnly := self.userDenyOnly, groups := self.groups }
  tokenType := self.tokenType
  impersonationLevel := self.impersonationLevel
  auditPolicy := self.auditPolicy
  privileges := self.privileges
  integrityLevel := self.integrityLevel
  mandatoryPolicy := self.mandatoryPolicy
  restricted :=
    { restrictedSids := self.restrictedSids
      restrictedDeviceGroups := self.restrictedDeviceGroups
      writeRestricted := self.writeRestricted }
  confinement :=
    { confinementSid := self.confinementSid
      confinementCapabilities := self.confinementCapabilities
      confinementExempt := self.confinementExempt }

def subjectHasEnabledPrivilege (privilege : BitVec 64) : Bool :=
  decide (self.privileges.present &&& privilege = privilege) &&
    decide (self.privileges.enabled &&& privilege = privilege)

/-- A token of the runtime passes the check's own test of it. -/
theorem validateAccessCheckTokenInvariants_withAccessToken :
    validateAccessCheckTokenInvariants self.withAccessToken = .ok () := by
  have h := self.userDenyOnly_of_writeRestricted
  unfold validateAccessCheckTokenInvariants validateRestrictedInvariants
  rw [if_neg]
  rintro ⟨hw, hd⟩
  exact hd (h hw)

/-! ## Deriving a restricted token -/

def restrictSidListContains (entries : List SidAndAttributes) (sid : Sid) : Bool :=
  entries.any fun entry => decide (entry.sid.bytes = sid.bytes)

def intersectRestrictedSidViews (source provided : List SidAndAttributes) :
    List SidAndAttributes :=
  source.filter fun entry => restrictSidListContains provided entry.sid

def useForDenyOnly (group : SidAndAttributes) : SidAndAttributes :=
  { group with attributes := group.attributes ||| seGroupUseForDenyOnly }

/-- Marks the groups at some indices deny-only. An index past the end, or one that was given
before, is refused. -/
def denyGroups (previous : List (BitVec 32)) :
    List (BitVec 32) → List SidAndAttributes → SysResult (List SidAndAttributes)
  | [], groups => .ok groups
  | index :: rest, groups =>
    if index.toNat ≥ groups.length then .error .einval
    else if index ∈ previous then .error .einval
    else denyGroups (previous ++ [index]) rest (groups.modify index.toNat useForDenyOnly)

/-- The restricting SIDs of the derived token: those given if the source has none, and otherwise
those of the source that are given. -/
def restrictedSidsFor (restrictSids : List SidAndAttributes) : SysResult (List SidAndAttributes) :=
  if self.restrictedSids = [] then .ok restrictSids
  else
    let survivors := intersectRestrictedSidViews self.restrictedSids restrictSids
    if survivors = [] then .error .einval else .ok survivors

def restrict (privsToDelete : BitVec 64) (writeRestrictedRequested : Bool)
    (denyIndices : List (BitVec 32)) (restrictSids : List SidAndAttributes) :
    SysResult BootToken := do
  let restrictedSids ← self.restrictedSidsFor restrictSids
  let groups ← denyGroups [] denyIndices self.groups
  let writeRestricted := writeRestrictedRequested || self.writeRestricted
  .ok
    { self with
      groups
      privileges :=
        { present := self.privileges.present &&& ~~~privsToDelete
          enabled := self.privileges.enabled &&& ~~~privsToDelete
          enabledByDefault := self.privileges.enabledByDefault &&& ~~~privsToDelete
          used := 0#64 }
      writeRestricted
      userDenyOnly := writeRestricted || self.userDenyOnly
      restrictedSids
      userDenyOnly_of_writeRestricted := fun h => by rw [h]; rfl }

end BootToken

end Pkm.Kacs
