import Pkm.Kacs.Model.BootToken
/-!
# Making and adjusting a live token

What of a token can change while it is in use: the attributes of its groups, two
copies of them that access checks read, the privilege masks, and a counter of
changes. `adjustGroups` and `adjustPrivileges` take a batch of entries, check it
against the token as it is, and store what comes of it.
-/

namespace Pkm.Kacs

/-! ## The groups of a new token -/

def seGroupMandatory : BitVec 32 := 0x1#32
def seGroupEnabledByDefault : BitVec 32 := 0x2#32
def seGroupLogonId : BitVec 32 := 0xC0000000#32

def maxTokenGroups : ℕ := 1024

def logonGroupAttributes : BitVec 32 :=
  seGroupMandatory ||| seGroupEnabledByDefault ||| seGroupEnabled ||| seGroupLogonId

def normalizeGroupAttributesForCreation (attributes : BitVec 32) : BitVec 32 :=
  if attributes &&& seGroupEnabledByDefault = seGroupEnabledByDefault then
    attributes ||| seGroupEnabled
  else attributes &&& ~~~seGroupEnabled

def normalizeGroupEntriesForCreation (entries : List SidAndAttributes) : List SidAndAttributes :=
  entries.map fun entry =>
    { entry with attributes := normalizeGroupAttributesForCreation entry.attributes }

/-- The groups of a token made from a specification: those it gives, and the session's logon SID.
`none` where the specification is refused. -/
def groupsFromSpec (groups : List SidAndAttributes) (logonSid : Sid) :
    Option (List SidAndAttributes) :=
  let groups := normalizeGroupEntriesForCreation groups
  if groups.length ≥ maxTokenGroups then none
  else if groups.any fun entry => decide (entry.sid = logonSid) then none
  else some (groups ++ [⟨logonSid, logonGroupAttributes⟩])

def privilegesFromSpec (present enabled : BitVec 64) : SysResult TokenPrivileges :=
  if enabled &&& ~~~present ≠ 0#64 then .error .einval
  else .ok { present, enabled, enabledByDefault := enabled, used := 0#64 }

/-! ## Live tokens -/

/-- The part of a token of `n` groups that adjustments read and write. The views are the attributes
as access checks see them. -/
structure LiveToken (n : ℕ) where
  userSid : Sid
  groupSids : Fin n → Sid
  groupAttributes : Fin n → BitVec 32
  groupDefaultAttributes : Fin n → BitVec 32
  groupViews : Fin n → BitVec 32
  groupRuntimeViews : Fin n → BitVec 32
  privileges : TokenPrivileges
  modifiedId : BitVec 64

namespace LiveToken

variable {n : ℕ}

/-- A new token: its views are built from the attributes it starts with. -/
def new (userSid : Sid) (groupSids : Fin n → Sid) (attributes defaults : Fin n → BitVec 32)
    (privileges : TokenPrivileges) (modifiedId : BitVec 64) : LiveToken n where
  userSid
  groupSids
  groupAttributes := attributes
  groupDefaultAttributes := defaults
  groupViews := attributes
  groupRuntimeViews := attributes
  privileges
  modifiedId

variable (self : LiveToken n)

def nextModifiedId : SysResult (BitVec 64) :=
  if self.modifiedId = BitVec.allOnes 64 then .error .erange else .ok (self.modifiedId + 1#64)

/-! ### Groups -/

structure GroupAdjustEntry where
  index : BitVec 32
  enable : BitVec 32

/-- Which groups are enabled. The source packs them into words. -/
def currentGroupEnabledMask : List Bool :=
  List.ofFn fun i => decide (self.groupAttributes i &&& seGroupEnabled = seGroupEnabled)

def syncGroupViews (groupAttributes : Fin n → BitVec 32) : LiveToken n :=
  { self with groupViews := groupAttributes, groupRuntimeViews := groupAttributes }

/-- Whether explicit entries must leave a group alone. -/
def isFixedGroup (attributes : BitVec 32) : Bool :=
  decide (attributes &&& seGroupMandatory = seGroupMandatory) ||
    decide (attributes &&& seGroupUseForDenyOnly = seGroupUseForDenyOnly) ||
    decide (attributes &&& seGroupLogonId = seGroupLogonId)

def validateGroupEntry (previous : List GroupAdjustEntry) (entry : GroupAdjustEntry) :
    SysResult Unit :=
  if h : entry.index.toNat < n then
    let index : Fin n := ⟨entry.index.toNat, h⟩
    if 1#32 < entry.enable then .error .einval
    else if previous.any fun other => decide (other.index = entry.index) then .error .einval
    else if isFixedGroup (self.groupAttributes index) ∨
        entry.enable = 0#32 ∧ (self.groupSids index).bytes = self.userSid.bytes then .error .einval
    else .ok ()
  else .error .einval

def validateGroupEntries (previous : List GroupAdjustEntry) :
    List GroupAdjustEntry → SysResult Unit
  | [] => .ok ()
  | entry :: rest => do
    self.validateGroupEntry previous entry
    validateGroupEntries (previous ++ [entry]) rest

def storeGroupEntry (groupAttributes : Fin n → BitVec 32) (entry : GroupAdjustEntry) :
    Fin n → BitVec 32 := fun index =>
  if index.val = entry.index.toNat then
    if entry.enable = 0#32 then groupAttributes index &&& ~~~seGroupEnabled
    else groupAttributes index ||| seGroupEnabled
  else groupAttributes index

variable (entries : List GroupAdjustEntry)

/-- Whether a batch asks for the defaults. -/
def isGroupReset : Bool := entries.head?.any fun entry => decide (entry.index = BitVec.allOnes 32)

/-- What is checked before anything is stored. -/
def checkGroupEntries : SysResult (BitVec 64) := do
  let nextModifiedId ← self.nextModifiedId
  match entries with
  | [] => .error .einval
  | first :: rest =>
    if isGroupReset entries then
      if rest.length ≠ 0 ∨ first.enable ≠ 0#32 then .error .einval else .ok nextModifiedId
    else do
      self.validateGroupEntries [] entries
      .ok nextModifiedId

/-- `allocates` says whether the copy of the attributes for the views can be had. It is asked for
when the attributes are stored already. -/
def adjustGroups (allocates : Bool) : SysResult (List Bool) × LiveToken n :=
  match self.checkGroupEntries entries with
  | .error e => (.error e, self)
  | .ok nextModifiedId =>
    if isGroupReset entries then
      (.ok self.currentGroupEnabledMask,
        { self.syncGroupViews self.groupDefaultAttributes with
          groupAttributes := self.groupDefaultAttributes
          modifiedId := nextModifiedId })
    else
      let stored : LiveToken n :=
        { self with groupAttributes := entries.foldl storeGroupEntry self.groupAttributes }
      if ¬ allocates then (.error .enomem, stored)
      else
        (.ok self.currentGroupEnabledMask,
          { stored.syncGroupViews stored.groupAttributes with modifiedId := nextModifiedId })

/-! ### Privileges -/

structure PrivilegeAdjustEntry where
  luid : BitVec 32
  attributes : BitVec 32

def sePrivilegeEnabled : BitVec 32 := 0x00000002#32
def sePrivilegeRemoved : BitVec 32 := 0x00000004#32
def privResetAllDefaults : BitVec 32 := 0x80000000#32

namespace PrivilegeAdjustEntry

variable (entry : PrivilegeAdjustEntry)

def mask : BitVec 64 := 1#64 <<< entry.luid.toNat

def validate (present : BitVec 64) (seen : List (BitVec 32)) : SysResult Unit :=
  if entry.luid.toNat > 63 then .error .einval
  else if entry.luid ∈ seen then .error .einval
  else if entry.attributes = 0#32 ∨ entry.attributes = sePrivilegeRemoved then .ok ()
  else if entry.attributes = sePrivilegeEnabled then
    if present &&& entry.mask = 0#64 then .error .einval else .ok ()
  else .error .einval

def apply (privileges : TokenPrivileges) : SysResult TokenPrivileges :=
  if entry.attributes = 0#32 then
    .ok { privileges with enabled := privileges.enabled &&& ~~~entry.mask }
  else if entry.attributes = sePrivilegeEnabled then
    .ok { privileges with enabled := privileges.enabled ||| entry.mask }
  else if entry.attributes = sePrivilegeRemoved then
    .ok { privileges with
          present := privileges.present &&& ~~~entry.mask
          enabled := privileges.enabled &&& ~~~entry.mask
          enabledByDefault := privileges.enabledByDefault &&& ~~~entry.mask }
  else .error .einval

end PrivilegeAdjustEntry

def validatePrivilegeEntries (present : BitVec 64) (seen : List (BitVec 32)) :
    List PrivilegeAdjustEntry → SysResult Unit
  | [] => .ok ()
  | entry :: rest => do
    entry.validate present seen
    validatePrivilegeEntries present (entry.luid :: seen) rest

/-- The masks a batch comes to. -/
def adjustedPrivileges (privileges : TokenPrivileges) :
    List PrivilegeAdjustEntry → SysResult TokenPrivileges
  | [] => .error .einval
  | first :: rest =>
    if first.attributes = privResetAllDefaults then
      if rest.length ≠ 0 ∨ first.luid ≠ 0#32 then .error .einval
      else .ok { privileges with enabled := privileges.enabledByDefault &&& privileges.present }
    else do
      validatePrivilegeEntries privileges.present [] (first :: rest)
      (first :: rest).foldlM (fun privileges entry => entry.apply privileges) privileges

def adjustPrivileges (entries : List PrivilegeAdjustEntry) :
    SysResult (BitVec 64) × LiveToken n :=
  match (do
    let nextModifiedId ← self.nextModifiedId
    let privileges ← adjustedPrivileges self.privileges entries
    .ok (privileges, nextModifiedId) : SysResult (TokenPrivileges × BitVec 64)) with
  | .error e => (.error e, self)
  | .ok (privileges, nextModifiedId) =>
    (.ok self.privileges.enabled, { self with privileges, modifiedId := nextModifiedId })

end LiveToken

end Pkm.Kacs
