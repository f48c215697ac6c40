import Pkm.Pnp.Model.Text
/-!
# Snapshots

The facts one traversal is judged by. A fact that the packet does not have is absent.
The calendar facts are the decomposition of the clock in UTC, which the kernel computes
with `time64_to_tm` of its time library; `TimeFacts.ofSecs` is that decomposition.
-/

namespace Pkm.Pnp

inductive Direction where
  | incoming
  | outgoing
  deriving DecidableEq

def Direction.asStr : Direction → Text
  | incoming => "in".toList
  | outgoing => "out".toList

inductive FlowState where
  | new
  | established
  | related
  | invalid
  | untracked
  deriving DecidableEq

def FlowState.asStr : FlowState → Text
  | new => "new".toList
  | established => "established".toList
  | related => "related".toList
  | invalid => "invalid".toList
  | untracked => "untracked".toList

inductive EndpointKind where
  | program
  | kernel
  | shared
  | none
  deriving DecidableEq

def EndpointKind.asStr : EndpointKind → Text
  | program => "program".toList
  | kernel => "kernel".toList
  | shared => "shared".toList
  | none => "none".toList

/-- A security identifier, compared byte by byte. -/
structure Sid where
  bytes : List UInt8
  deriving DecidableEq

/-- Who stands behind a program endpoint, as far as the policy may ask. -/
structure Principal where
  user : Sid
  isMember : Sid → Bool
  integrity : ℤ
  confinement : Option Sid
  hasCapability : Sid → Bool
  service : Option Sid
  process : Text

structure Endpoint where
  kind : EndpointKind
  principal : Option Principal

inductive IpAddr where
  | v4 (bits : BitVec 32)
  | v6 (bits : BitVec 128)
  deriving DecidableEq

abbrev Mac := BitVec 48

structure TimeFacts where
  year : ℤ
  month : ℤ
  dayOfMonth : ℤ
  /-- From 1 for Monday to 7 for Sunday. -/
  dayOfWeek : ℤ
  hour : ℤ
  minute : ℤ
  second : ℤ
  deriving DecidableEq

/-- Year, month and day of a day counted from 1 January 1970. The years of the computation
begin in March, so that leap days come last in them. -/
def civilOfDays (days : ℤ) : ℤ × ℤ × ℤ :=
  let z := days + 719468
  let era := z / 146097
  let dayOfEra := z % 146097
  let yearOfEra := (dayOfEra - dayOfEra / 1460 + dayOfEra / 36524 - dayOfEra / 146096) / 365
  let dayOfYear := dayOfEra - (365 * yearOfEra + yearOfEra / 4 - yearOfEra / 100)
  let m := (5 * dayOfYear + 2) / 153
  let month := if m < 10 then m + 3 else m - 9
  let year := yearOfEra + 400 * era + if month ≤ 2 then 1 else 0
  (year, month, dayOfYear - (153 * m + 2) / 5 + 1)

/-- The calendar facts of a moment, given in seconds since the beginning of 1970. -/
def TimeFacts.ofSecs (secs : ℤ) : TimeFacts :=
  let days := secs / 86400
  let date := civilOfDays days
  -- 1 January 1970 was a Thursday; the week of the kernel begins on Sunday with 0
  let weekday := (days + 4) % 7
  { year := date.1
    month := date.2.1
    dayOfMonth := date.2.2
    dayOfWeek := if weekday = 0 then 7 else weekday
    hour := secs / 3600 % 24
    minute := secs / 60 % 60
    second := secs % 60 }

example : TimeFacts.ofSecs 0 = ⟨1970, 1, 1, 4, 0, 0, 0⟩ := by decide

example : TimeFacts.ofSecs 951868799 = ⟨2000, 2, 29, 2, 23, 59, 59⟩ := by decide

/-- The facts of one traversal at its standing seat. -/
structure Snapshot where
  direction : Option Direction := none
  interface : Option Text := none
  etherType : Option ℕ := none
  srcMac : Option Mac := none
  dstMac : Option Mac := none
  vlan : Option ℕ := none
  srcAddr : Option IpAddr := none
  dstAddr : Option IpAddr := none
  protocol : Option ℕ := none
  ttl : Option ℕ := none
  dscp : Option ℕ := none
  fragment : Option Bool := none
  srcPort : Option ℕ := none
  dstPort : Option ℕ := none
  tcpFlags : Option (BitVec 8) := none
  icmpType : Option ℕ := none
  icmpCode : Option ℕ := none
  length : Option ℕ := none
  flowState : Option FlowState := none
  time : Option TimeFacts := none
  /-- The wall clock, in seconds since the beginning of 1970. -/
  nowSecs : Option ℤ := none
  related : Option Bool := none
  start : Option TimeFacts := none
  localEnd : Option Endpoint := none
  remoteEnd : Option Endpoint := none
  tags : List (BitVec 64 × ℕ) := []
  counterViews : List (ℕ × ℕ) := []
  interfaceKind : Option Text := none
  interfaceId : Option Text := none
  interfaceMac : Option Mac := none
  interfacePath : Option Text := none
  interfaceDriver : Option Text := none
  networkId : Option Text := none
  networkName : Option Text := none
  networkTrust : Option Text := none
  networkKind : Option Text := none

namespace Snapshot

variable (snap : Snapshot)

def tag (hash : BitVec 64) : Option ℕ := (snap.tags.find? fun p => p.1 == hash).map Prod.snd

def counterView (view : ℕ) : Option ℕ := (snap.counterViews.find? fun p => p.1 == view).map Prod.snd

/-- The clock and the calendar facts of a snapshot, as `snapshot_time` fills them in. -/
def atTime (now : ℤ) : Snapshot :=
  { snap with nowSecs := some now, time := some (TimeFacts.ofSecs now) }

end Snapshot

end Pkm.Pnp
