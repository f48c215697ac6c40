import Pkm.Kacs.Model.Sid
/-!
# Tokens

What an access check reads of its caller: the identity (a user and groups with
attributes), the privileges, the integrity level and mandatory policy, and the
restricting and confining SIDs that narrow what the identity is granted.

A restricted context of the source also has a field for privilege-granted bits;
the evaluation writes it and nothing reads it, so it is left out.
-/

namespace Pkm.Kacs

/-- A SID of a token with its attribute bits. -/
structure SidAndAttributes where
  sid : Sid
  attributes : BitVec 32
  deriving DecidableEq

namespace SidAndAttributes

variable (self : SidAndAttributes)

def enabled : Bool := decide (self.attributes &&& seGroupEnabled ≠ 0#32)

def denyOnly : Bool := decide (self.attributes &&& seGroupUseForDenyOnly ≠ 0#32)

/-- Whether the SID counts: for an allow ACE it must be enabled and not deny-only, for a deny ACE
either is enough. -/
def counts (forAllow : Bool) : Bool :=
  if forAllow then self.enabled && !self.denyOnly else self.enabled || self.denyOnly

/-- Whether a SID counts among groups: the first group with that SID decides. -/
def groupMatches (groups : List SidAndAttributes) (sidBytes : Bytes) (forAllow : Bool) : Bool :=
  match groups.find? fun group => decide (group.sid.bytes = sidBytes) with
  | some group => group.counts forAllow
  | none => false

end SidAndAttributes

/-- An identity whose user may be missing. -/
structure IdentityView where
  user : Option Sid
  userDenyOnly : Bool
  groups : List SidAndAttributes

/-- The identity of a token. -/
structure TokenView where
  user : Sid
  userDenyOnly : Bool
  groups : List SidAndAttributes

def TokenView.identity (self : TokenView) : IdentityView :=
  { user := some self.user, userDenyOnly := self.userDenyOnly, groups := self.groups }

inductive TokenType where
  | primary
  | impersonation
  deriving DecidableEq

inductive ImpersonationLevel where
  | anonymous
  | identification
  | impersonation
  | delegation
  deriving DecidableEq

/-- A numeric integrity level. -/
abbrev IntegrityLevel := BitVec 32

def IntegrityLevel.medium : IntegrityLevel := 8192#32

/-! ## Privileges -/

def backupIntent : BitVec 32 := 1#32
def restoreIntent : BitVec 32 := 2#32

def seSecurityPrivilege : BitVec 64 := 0x100#64
def seTakeOwnershipPrivilege : BitVec 64 := 0x200#64
def seBackupPrivilege : BitVec 64 := 0x20000#64
def seRestorePrivilege : BitVec 64 := 0x40000#64
def seRelabelPrivilege : BitVec 64 := 0x100000000#64

/-- The privileges of a token: present, enabled, enabled by default, and used so far. -/
structure TokenPrivileges where
  present : BitVec 64
  enabled : BitVec 64
  enabledByDefault : BitVec 64
  used : BitVec 64
  deriving DecidableEq

namespace TokenPrivileges

variable (self : TokenPrivileges)

def enabledMask : BitVec 64 := self.present &&& self.enabled

def privilegeEnabled (privilege : BitVec 64) : Bool :=
  decide (self.enabledMask &&& privilege ≠ 0#64)

/-- The enabled privileges that take part in a check: backup and restore only when the caller
says so. -/
def effectiveAccessCheckMask (privilegeIntent : BitVec 32) : BitVec 64 :=
  let effective := self.enabledMask
  let effective :=
    if privilegeIntent &&& backupIntent = 0#32 then effective &&& ~~~seBackupPrivilege
    else effective
  if privilegeIntent &&& restoreIntent = 0#32 then effective &&& ~~~seRestorePrivilege
  else effective

end TokenPrivileges

/-! ## The token of an access check -/

/-- The SIDs that restrict a token. -/
structure RestrictedTokenContext where
  restrictedSids : List SidAndAttributes
  restrictedDeviceGroups : List SidAndAttributes
  writeRestricted : Bool

/-- The SIDs that confine a token. -/
structure ConfinementTokenContext where
  confinementSid : Option Sid
  confinementCapabilities : List SidAndAttributes
  confinementExempt : Bool

/-- The token an access check runs for. -/
structure AccessCheckToken where
  subject : TokenView
  tokenType : TokenType
  impersonationLevel : ImpersonationLevel
  auditPolicy : BitVec 32
  privileges : TokenPrivileges
  integrityLevel : IntegrityLevel
  mandatoryPolicy : BitVec 32
  restricted : RestrictedTokenContext
  confinement : ConfinementTokenContext

def validateRestrictedInvariants (subject : TokenView) (restricted : RestrictedTokenContext) :
    KacsResult Unit :=
  if restricted.writeRestricted ∧ ¬ subject.userDenyOnly then
    .error (.invalidTokenInvariant "write_restricted requires user_deny_only")
  else .ok ()

def validateAccessCheckTokenInvariants (token : AccessCheckToken) : KacsResult Unit :=
  validateRestrictedInvariants token.subject token.restricted

end Pkm.Kacs
