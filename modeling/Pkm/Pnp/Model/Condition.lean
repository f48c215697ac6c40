import Pkm.Pnp.Model.Snapshot
/-!
# Conditions

A condition compares one key of a snapshot: a fact of the vocabulary, a flow tag or a
counter view. A condition over a key that the snapshot does not have is false; only
`Present` looks through that. `Condition.nextFlip` is the next moment at which a
condition over the clock would answer otherwise.
-/

namespace Pkm.Pnp

/-! ## Facts -/

/-- The vocabulary. -/
inductive FactId where
  | direction | interface | etherType | srcMac | dstMac | vlan | srcAddr | dstAddr | protocol
  | ttl | dscp | fragment | srcPort | dstPort | tcpFlags | icmpType | icmpCode | length
  | flowState
  | timeYear | timeMonth | timeDayOfMonth | timeDayOfWeek | timeHour | timeMinute | timeSecond
  | related
  | startYear | startMonth | startDayOfMonth | startDayOfWeek | startHour | startMinute
  | startSecond
  | localEnd | localUser | localGroup | localIntegrity | localConfinement | localCapability
  | localService | localProcess
  | remoteEnd | remoteUser | remoteGroup | remoteIntegrity | remoteConfinement
  | remoteCapability | remoteService | remoteProcess
  | interfaceKind | interfaceId | interfaceMac | interfacePath | interfaceDriver
  | networkId | networkName | networkTrust | networkKind
  deriving DecidableEq

/-- How a fact is compared. -/
inductive FactFamily where
  | int
  | str
  | addr
  | mac
  | flags
  | sid
  deriving DecidableEq

namespace FactId

/-- The facts under the names they have in rules. -/
def keys : List (String × FactId) :=
  [("Direction", .direction), ("Interface", .interface), ("EtherType", .etherType),
   ("SrcMac", .srcMac), ("DstMac", .dstMac), ("Vlan", .vlan), ("SrcAddr", .srcAddr),
   ("DstAddr", .dstAddr), ("Protocol", .protocol), ("Ttl", .ttl), ("Dscp", .dscp),
   ("Fragment", .fragment), ("SrcPort", .srcPort), ("DstPort", .dstPort),
   ("TcpFlags", .tcpFlags), ("IcmpType", .icmpType), ("IcmpCode", .icmpCode),
   ("Length", .length), ("FlowState", .flowState), ("Time.Year", .timeYear),
   ("Time.Month", .timeMonth), ("Time.DayOfMonth", .timeDayOfMonth),
   ("Time.DayOfWeek", .timeDayOfWeek), ("Time.Hour", .timeHour), ("Time.Minute", .timeMinute),
   ("Time.Second", .timeSecond), ("Related", .related), ("Start.Year", .startYear),
   ("Start.Month", .startMonth), ("Start.DayOfMonth", .startDayOfMonth),
   ("Start.DayOfWeek", .startDayOfWeek), ("Start.Hour", .startHour),
   ("Start.Minute", .startMinute), ("Start.Second", .startSecond), ("Local", .localEnd),
   ("Local.User", .localUser), ("Local.Group", .localGroup),
   ("Local.Integrity", .localIntegrity), ("Local.Confinement", .localConfinement),
   ("Local.Capability", .localCapability), ("Local.Service", .localService),
   ("Local.Process", .localProcess), ("Remote", .remoteEnd), ("Remote.User", .remoteUser),
   ("Remote.Group", .remoteGroup), ("Remote.Integrity", .remoteIntegrity),
   ("Remote.Confinement", .remoteConfinement), ("Remote.Capability", .remoteCapability),
   ("Remote.Service", .remoteService), ("Remote.Process", .remoteProcess),
   ("Interface.Kind", .interfaceKind), ("Interface.Id", .interfaceId),
   ("Interface.Mac", .interfaceMac), ("Interface.Path", .interfacePath),
   ("Interface.Driver", .interfaceDriver), ("Network.Id", .networkId),
   ("Network.Name", .networkName), ("Network.Trust", .networkTrust),
   ("Network.Kind", .networkKind)]

def fromKey (name : Text) : Option FactId :=
  (keys.find? fun entry => entry.1.toList == name).map Prod.snd

def family : FactId → FactFamily
  | direction | interface | flowState | localEnd | remoteEnd | localProcess | remoteProcess
  | interfaceKind | interfaceId | interfacePath | interfaceDriver | networkId | networkName
  | networkTrust | networkKind => .str
  | srcAddr | dstAddr => .addr
  | srcMac | dstMac | interfaceMac => .mac
  | tcpFlags => .flags
  | localUser | localGroup | localConfinement | localCapability | localService | remoteUser
  | remoteGroup | remoteConfinement | remoteCapability | remoteService => .sid
  | _ => .int

/-- The facts of the interface layer alone. -/
def isInterfaceOnly : FactId → Bool
  | interfaceKind | interfaceId | interfaceMac | interfacePath | interfaceDriver
  | networkKind => true
  | _ => false

/-- Which network an interface stands on, read at every layer. -/
def isNetworkContext : FactId → Bool
  | networkId | networkName | networkTrust => true
  | _ => false

def isAtInterfaceLayer (fact : FactId) : Bool :=
  fact == interface || fact.isInterfaceOnly || fact.isNetworkContext

/-- The facts read from the token of an endpoint. -/
def isIdentity : FactId → Bool
  | localEnd | localUser | localGroup | localIntegrity | localConfinement | localCapability
  | localService | localProcess | remoteEnd | remoteUser | remoteGroup | remoteIntegrity
  | remoteConfinement | remoteCapability | remoteService | remoteProcess => true
  | _ => false

def isRemote : FactId → Bool
  | remoteEnd | remoteUser | remoteGroup | remoteIntegrity | remoteConfinement
  | remoteCapability | remoteService | remoteProcess => true
  | _ => false

/-- The facts of the clock. -/
def isLiveTime : FactId → Bool
  | timeYear | timeMonth | timeDayOfMonth | timeDayOfWeek | timeHour | timeMinute
  | timeSecond => true
  | _ => false

/-- The facts that are the same for all packets of a flow. -/
def isFlowInvariant : FactId → Bool
  | etherType | dstMac | ttl | dscp | fragment | tcpFlags | length | flowState => false
  | _ => true

def isFlowOnly (fact : FactId) : Bool :=
  fact.isIdentity ||
    match fact with
    | related | startYear | startMonth | startDayOfMonth | startDayOfWeek | startHour
    | startMinute | startSecond => true
    | _ => false

end FactId

/-! ## Counter views -/

namespace Keyspec

def srcAddr : ℕ := 1

def dstAddr : ℕ := 2

def interface : ℕ := 4

def fromName (name : Text) : Option ℕ :=
  if name = "SrcAddr".toList then some srcAddr
  else if name = "DstAddr".toList then some dstAddr
  else if name = "Interface".toList then some interface
  else none

end Keyspec

/-- The longest window a view may ask for: one day. -/
def maxWindowSecs : ℕ := 86400

/-- One way of slicing a counter stream. A window of 0 is the total. -/
structure CounterView where
  name : Text
  hash : BitVec 64
  windowSecs : ℕ
  keyspec : ℕ
  deriving DecidableEq

def durationUnit (unit : Char) : Option ℕ :=
  if unit = 's' then some 1
  else if unit = 'm' then some 60
  else if unit = 'h' then some 3600
  else if unit = 'd' then some 86400
  else none

/-- Digits and a unit, within the horizon. The source splits before the last byte and panics inside
a character of several bytes; here such a text is refused. -/
def parseDuration (s : Text) : Option ℕ := do
  let unit ← s.getLast?
  let num := s.dropLast
  if num.isEmpty || !num.all Char.isDigit then none
  else
    let n ← parseUint num
    let mult ← durationUnit unit
    let secs := n * mult
    if secs ≥ 2 ^ 64 then none
    else if secs = 0 ∨ secs > maxWindowSecs then none
    else some secs

/-- The bits of the key facts that are joined by `+`. -/
def parseKeyspec (bits : ℕ) : List Text → Option ℕ
  | [] => some bits
  | part :: parts => do
    let bit ← Keyspec.fromName (trim part)
    if bits &&& bit ≠ 0 then none else parseKeyspec (bits ||| bit) parts

/-- The arguments of a view: at most one duration and at most one key. -/
def parseViewArgs (window keyspec : Option ℕ) : List Text → Option (Option ℕ × Option ℕ)
  | [] => some (window, keyspec)
  | arg :: rest =>
    let arg := trim arg
    if arg.isEmpty then none
    else
      match parseDuration arg with
      | some secs => if window.isSome then none else parseViewArgs (some secs) keyspec rest
      | none => do
        let bits ← parseKeyspec 0 (split '+' arg)
        if keyspec.isSome then none else parseViewArgs window (some bits) rest

/-- The name of a view and its argument list, if it has one. -/
def splitView (spec : Text) : Option (Text × Option Text) :=
  match splitOnce '(' spec with
  | none => some (spec, none)
  | some (name, rest) =>
    match rsplitOnce ')' rest with
    | none => none
    | some (args, after) => if !after.isEmpty then none else some (name, some args)

def CounterView.parse (spec : Text) : Option CounterView := do
  let (name, args) ← splitView spec
  let name := trim name
  if name.isEmpty || name.any (fun c => c == ')' || c == ',' || c == '.') then none
  else
    let (window, keyspec) ← match args with
      | none => some (none, none)
      | some args => parseViewArgs none none (split ',' args)
    some ⟨name, nameHash name, window.getD 0, keyspec.getD 0⟩

/-! ## Operators -/

inductive CondKey where
  | fact (id : FactId)
  | tag (name : Text) (hash : BitVec 64)
  | counter (view : ℕ)
  deriving DecidableEq

inductive IntPattern where
  | exact (x : ℤ)
  | range (a b : ℤ)
  deriving DecidableEq

def IntPattern.matches : IntPattern → ℤ → Bool
  | exact x, v => v == x
  | range a b, v => v ≥ a && v ≤ b

inductive AddrPattern where
  | exact (addr : IpAddr)
  | range (a b : IpAddr)
  | cidr (addr : IpAddr) (bits : ℕ)
  deriving DecidableEq

/-- An address as its family and a number. -/
def addrBits : IpAddr → ℕ × ℕ
  | .v4 bits => (4, bits.toNat)
  | .v6 bits => (6, bits.toNat)

def AddrPattern.matches (p : AddrPattern) (v : IpAddr) : Bool :=
  match p with
  | exact a => a == v
  | range a b =>
    (addrBits a).1 == (addrBits b).1 && (addrBits b).1 == (addrBits v).1 &&
      (addrBits v).2 ≥ (addrBits a).2 && (addrBits v).2 ≤ (addrBits b).2
  | cidr addr bits =>
    (addrBits addr).1 == (addrBits v).1 &&
      let width := if (addrBits addr).1 = 4 then 32 else 128
      if bits = 0 then true
      else if bits > width then false
      else (addrBits addr).2 >>> (width - bits) == (addrBits v).2 >>> (width - bits)

inductive CondOp where
  | equalInt (list : List IntPattern)
  | equalStr (list : List Text)
  | equalAddr (list : List AddrPattern)
  | equalMac (list : List Mac)
  | gt (x : ℤ)
  | lt (x : ℤ)
  | has (mask : BitVec 8)
  | hasnt (mask : BitVec 8)
  | equalSid (list : List Sid)
  | present (want : Bool)
  deriving DecidableEq

/-- One condition of a rule. `never` marks a key that does not exist at the layer of the rule. -/
structure Condition where
  key : CondKey
  op : CondOp
  never : Bool
  deriving DecidableEq

def intOpMatches (op : CondOp) (v : ℤ) : Bool :=
  match op with
  | .equalInt list => list.any fun p => p.matches v
  | .gt x => v > x
  | .lt x => v < x
  | _ => false

/-- A 64-bit number as a signed one. -/
def clampU64 (v : ℕ) : ℤ := if v > 2 ^ 63 - 1 then 2 ^ 63 - 1 else v

/-! ## Reading facts -/

variable (fact : FactId) (snap : Snapshot)

def endpoint : Option Endpoint :=
  if fact.isRemote then snap.remoteEnd else snap.localEnd

def principal : Option Principal := (endpoint fact snap).bind Endpoint.principal

def ofNat? (n : Option ℕ) : Option ℤ := n.map fun n => (n : ℤ)

def ofBool? (b : Option Bool) : Option ℤ := b.map fun b => if b then 1 else 0

open TimeFacts in
def intFact : Option ℤ :=
  match fact with
  | .etherType => ofNat? snap.etherType
  | .vlan => ofNat? snap.vlan
  | .protocol => ofNat? snap.protocol
  | .ttl => ofNat? snap.ttl
  | .dscp => ofNat? snap.dscp
  | .fragment => ofBool? snap.fragment
  | .srcPort => ofNat? snap.srcPort
  | .dstPort => ofNat? snap.dstPort
  | .icmpType => ofNat? snap.icmpType
  | .icmpCode => ofNat? snap.icmpCode
  | .length => ofNat? snap.length
  | .timeYear => snap.time.map year
  | .timeMonth => snap.time.map month
  | .timeDayOfMonth => snap.time.map dayOfMonth
  | .timeDayOfWeek => snap.time.map dayOfWeek
  | .timeHour => snap.time.map hour
  | .timeMinute => snap.time.map minute
  | .timeSecond => snap.time.map second
  | .related => ofBool? snap.related
  | .startYear => snap.start.map year
  | .startMonth => snap.start.map month
  | .startDayOfMonth => snap.start.map dayOfMonth
  | .startDayOfWeek => snap.start.map dayOfWeek
  | .startHour => snap.start.map hour
  | .startMinute => snap.start.map minute
  | .startSecond => snap.start.map second
  | .localIntegrity | .remoteIntegrity => (principal fact snap).map Principal.integrity
  | _ => none

def strFact : Option Text :=
  match fact with
  | .direction => snap.direction.map Direction.asStr
  | .flowState => snap.flowState.map FlowState.asStr
  | .interface => snap.interface
  | .localEnd | .remoteEnd => (endpoint fact snap).map fun e => e.kind.asStr
  | .localProcess | .remoteProcess => (principal fact snap).map Principal.process
  | .interfaceKind => snap.interfaceKind
  | .interfaceId => snap.interfaceId
  | .interfacePath => snap.interfacePath
  | .interfaceDriver => snap.interfaceDriver
  | .networkId => snap.networkId
  | .networkName => snap.networkName
  | .networkTrust => snap.networkTrust
  | .networkKind => snap.networkKind
  | _ => none

def addrFact : Option IpAddr :=
  match fact with
  | .srcAddr => snap.srcAddr
  | .dstAddr => snap.dstAddr
  | _ => none

def macFact : Option Mac :=
  match fact with
  | .srcMac => snap.srcMac
  | .dstMac => snap.dstMac
  | .interfaceMac => snap.interfaceMac
  | _ => none

def sidFactPresent : Bool :=
  match principal fact snap with
  | none => false
  | some p =>
    match fact with
    | .localUser | .remoteUser => true
    | .localGroup | .remoteGroup => true
    | .localConfinement | .remoteConfinement | .localCapability | .remoteCapability =>
      p.confinement.isSome
    | .localService | .remoteService => p.service.isSome
    | _ => false

def sidFactMatches (list : List Sid) : Bool :=
  match principal fact snap with
  | none => false
  | some p =>
    match fact with
    | .localUser | .remoteUser => list.any fun s => s == p.user
    | .localGroup | .remoteGroup => list.any fun s => p.isMember s
    | .localConfinement | .remoteConfinement =>
      match p.confinement with
      | some c => list.any fun s => s == c
      | none => false
    | .localCapability | .remoteCapability =>
      p.confinement.isSome && list.any fun s => p.hasCapability s
    | .localService | .remoteService =>
      match p.service with
      | some service => list.any fun s => s == service
      | none => false
    | _ => false

/-! ## Answers -/

namespace Condition

variable (c : Condition) (snap : Snapshot)

def isLiveTime : Bool :=
  match c.key with
  | .fact f => f.isLiveTime
  | _ => false

/-- Whether the key of the condition exists in the snapshot. -/
def present : Bool :=
  match c.key with
  | .tag _ hash => (snap.tag hash).isSome
  | .counter view => (snap.counterView view).isSome
  | .fact fact =>
    match fact.family with
    | .int => (intFact fact snap).isSome
    | .str => (strFact fact snap).isSome
    | .addr => (addrFact fact snap).isSome
    | .mac => (macFact fact snap).isSome
    | .flags => snap.tcpFlags.isSome
    | .sid => sidFactPresent fact snap

/-- The comparison of a key that is not about its presence. -/
def compares : Bool :=
  match c.key with
  | .tag _ hash =>
    match snap.tag hash with
    | some v => intOpMatches c.op (clampU64 v)
    | none => false
  | .counter view =>
    match snap.counterView view with
    | some v => intOpMatches c.op (clampU64 v)
    | none => false
  | .fact fact =>
    match fact.family with
    | .int =>
      match intFact fact snap with
      | some v => intOpMatches c.op v
      | none => false
    | .str =>
      match strFact fact snap, c.op with
      | some v, .equalStr list => list.any fun p => p == v
      | _, _ => false
    | .addr =>
      match addrFact fact snap, c.op with
      | some v, .equalAddr list => list.any fun p => p.matches v
      | _, _ => false
    | .mac =>
      match macFact fact snap, c.op with
      | some v, .equalMac list => list.any fun p => p == v
      | _, _ => false
    | .flags =>
      match snap.tcpFlags, c.op with
      | some v, .has mask => v &&& mask == mask
      | some v, .hasnt mask => v &&& mask == 0
      | _, _ => false
    | .sid =>
      match c.op with
      | .equalSid list => sidFactMatches fact snap list
      | _ => false

/-- One cycle of a fact of the clock: its value from 0 on, the length of the cycle, the seconds
a value lasts, the moment the current one began, and what the fact adds to the value. -/
structure Cycle where
  current : ℤ
  modulus : ℕ
  step : ℤ
  base : ℤ
  offset : ℤ

/-- The cycle of a fact, for those that have one. -/
def cycleOf (fact : FactId) (time : TimeFacts) (now : ℤ) : Option Cycle :=
  match fact with
  | .timeSecond => some ⟨time.second, 60, 1, now, 0⟩
  | .timeMinute => some ⟨time.minute, 60, 60, now - now % 60, 0⟩
  | .timeHour => some ⟨time.hour, 24, 3600, now - now % 3600, 0⟩
  | .timeDayOfWeek => some ⟨time.dayOfWeek - 1, 7, 86400, now - now % 86400, 1⟩
  | _ => none

/-- The first moment of the next cycle at which the answer of an operator changes. -/
def Cycle.flip (cycle : Cycle) (op : CondOp) : Option ℤ :=
  let truth := intOpMatches op (cycle.current + cycle.offset)
  ((List.range' 1 cycle.modulus).find? fun k : ℕ =>
    intOpMatches op ((cycle.current + (k : ℤ)) % cycle.modulus + cycle.offset) != truth).map
      fun k : ℕ => cycle.base + (k : ℤ) * cycle.step

/-- The next moment at which the answer of the condition would change. -/
def nextFlip : Option ℤ :=
  match c.key with
  | .fact fact =>
    if !fact.isLiveTime then none
    else
      match c.op with
      | .present _ => none
      | op => do
        let now ← snap.nowSecs
        let time ← snap.time
        match cycleOf fact time now with
        | some cycle => cycle.flip op
        | none => some (now - now % 86400 + 86400)
  | _ => none

end Condition

def Condition.matches (c : Condition) (snap : Snapshot) : Bool :=
  if c.never then false
  else
    match c.op with
    | .present want => c.present snap == want
    | _ => c.compares snap

end Pkm.Pnp
