import Pkm.Kacs.Model.Condition
import Pkm.Kacs.Model.SecurityDescriptor
/-!
# Port reservations

A table of reservations says which descriptor governs the claim of a port. It is
built from registry values: a selector names protocols and a range of ports, and
one value is the default. `lookup` reads a built table, `lookupValues` the values
themselves.
-/

namespace Pkm.Kacs

open Condition (toAsciiLowercase)

inductive PortError where
  | invalidPortSelector (reason : String)
  | invalidPortReservationSd
  | ambiguousPortReservation
  deriving DecidableEq

def portProtoTcp : BitVec 8 := 1#8
def portProtoUdp : BitVec 8 := 2#8
def portProtoAll : BitVec 8 := 3#8
def portSelectorMaxLen : ℕ := 19

/-- `@`. -/
def portDefaultSelector : Bytes := [0x40#8]

def isDefaultSelector (name : Bytes) : Bool := name.isEmpty || name == portDefaultSelector

inductive PortProtocol where
  | tcp | udp
  deriving DecidableEq

def PortProtocol.bit : PortProtocol → BitVec 8
  | .tcp => portProtoTcp
  | .udp => portProtoUdp

/-! ## Selectors -/

/-- A set of protocols and a range of ports, both ends included. -/
structure PortSelector where
  protocols : BitVec 8
  lo : ℕ
  hi : ℕ
  lo_le_hi : lo ≤ hi
  deriving DecidableEq

def eqIgnoreAsciiCase (a b : Bytes) : Bool := a.map toAsciiLowercase == b.map toAsciiLowercase

/-- One protocol of a selector, added to those before it. -/
def addProtocol (protocols : BitVec 8) (proto : Bytes) : Except PortError (BitVec 8) := do
  let bit ←
    if proto = [0x2a#8] then .ok portProtoAll
    else if eqIgnoreAsciiCase proto [0x74#8, 0x63#8, 0x70#8] then .ok portProtoTcp
    else if eqIgnoreAsciiCase proto [0x75#8, 0x64#8, 0x70#8] then .ok portProtoUdp
    else .error (.invalidPortSelector "protocol")
  if protocols &&& bit ≠ 0#8 then .error (.invalidPortSelector "repeated protocol")
  else .ok (protocols ||| bit)

def addDigit (value : ℕ) (b : Byte) : Except PortError ℕ :=
  if 0x30#8 ≤ b ∧ b ≤ 0x39#8 then .ok (value * 10 + (b - 0x30#8).toNat)
  else .error (.invalidPortSelector "port digits")

def parsePort (digits : Bytes) : Except PortError ℕ :=
  if digits.isEmpty ∨ digits.length > 5 then .error (.invalidPortSelector "port digits")
  else if digits.head? = some 0x30#8 then
    .error (.invalidPortSelector "port zero or leading zero")
  else do
    let value ← digits.foldlM addDigit 0
    if value > 65535 then .error (.invalidPortSelector "port range") else .ok value

def PortSelector.parse (name : Bytes) : Except PortError PortSelector :=
  if name.isEmpty ∨ name.length > portSelectorMaxLen then .error (.invalidPortSelector "length")
  else
    match name.idxOf? 0x3a#8 with
    | none => .error (.invalidPortSelector "missing ':'")
    | some colon => do
      let protocols ← ((name.take colon).splitOnP (· == 0x2c#8)).foldlM addProtocol 0#8
      if protocols = 0#8 then .error (.invalidPortSelector "no protocol")
      else do
        let range := name.drop (colon + 1)
        let (lo, hi) ←
          match range.idxOf? 0x2d#8 with
          | some dash => do
            let lo ← parsePort (range.take dash)
            let hi ← parsePort (range.drop (dash + 1))
            .ok (lo, hi)
          | none => do
            let port ← parsePort range
            .ok (port, port)
        if h : lo > hi then .error (.invalidPortSelector "range order")
        else .ok { protocols, lo, hi, lo_le_hi := Nat.not_lt.mp h }

namespace PortSelector

def contains (self : PortSelector) (protocol : PortProtocol) (port : ℕ) : Bool :=
  self.protocols &&& protocol.bit ≠ 0#8 ∧ port ≥ self.lo ∧ port ≤ self.hi

def width (self : PortSelector) : ℕ := self.hi - self.lo + 1

def overlaps (self other : PortSelector) : Bool :=
  self.protocols &&& other.protocols ≠ 0#8 ∧ self.lo ≤ other.hi ∧ other.lo ≤ self.hi

end PortSelector

/-! ## Tables -/

structure PortReservation where
  selector : PortSelector
  sd : Bytes
  deriving DecidableEq

structure PortReservationTable where
  defaultSd : Bytes
  reservations : List PortReservation

/-- Why a table was refused, and the name of the value at fault when one was. -/
structure PortTableRejection where
  error : PortError
  name : Option Bytes
  deriving DecidableEq

namespace PortReservationTable

/-- One value, with the default and the reservations found so far. -/
def addValue (found : Option Bytes × List PortReservation) (value : Bytes × Bytes) :
    Except PortTableRejection (Option Bytes × List PortReservation) := do
  let (name, sd) := value
  let _ ← (SecurityDescriptor.parse sd).mapError fun _ => ⟨.invalidPortReservationSd, some name⟩
  if isDefaultSelector name then
    if found.1.isSome then .error ⟨.invalidPortSelector "duplicate default", some name⟩
    else .ok (some sd, found.2)
  else do
    let selector ← (PortSelector.parse name).mapError (⟨·, some name⟩)
    if found.2.any fun existing =>
        existing.selector.overlaps selector && existing.selector.width == selector.width then
      .error ⟨.ambiguousPortReservation, some name⟩
    else .ok (found.1, found.2 ++ [⟨selector, sd⟩])

def fromValuesExplained (values : List (Bytes × Bytes)) :
    Except PortTableRejection PortReservationTable := do
  let (defaultSd, reservations) ← values.foldlM addValue (none, [])
  match defaultSd with
  | none => .error ⟨.invalidPortSelector "missing default", none⟩
  | some defaultSd => .ok { defaultSd, reservations }

def fromValues (values : List (Bytes × Bytes)) : Except PortError PortReservationTable :=
  (fromValuesExplained values).mapError (·.error)

/-- The narrower of the best reservation so far and one more. -/
def keepNarrower (protocol : PortProtocol) (port : ℕ) (best : Option PortReservation)
    (reservation : PortReservation) : Option PortReservation :=
  if ¬ reservation.selector.contains protocol port then best
  else
    match best with
    | some current =>
      if current.selector.width ≤ reservation.selector.width then best else some reservation
    | none => some reservation

def lookup (self : PortReservationTable) (protocol : PortProtocol) (port : ℕ) : Bytes :=
  ((self.reservations.foldl (keepNarrower protocol port) none).map (·.sd)).getD self.defaultSd

end PortReservationTable

/-- One value of a streamed lookup, with the default and the best descriptor so far. -/
def lookupValue (protocol : PortProtocol) (port : ℕ)
    (found : Option Bytes × Option (ℕ × Bytes)) (value : Bytes × Bytes) :
    Option Bytes × Option (ℕ × Bytes) :=
  let (name, sd) := value
  if isDefaultSelector name then (some sd, found.2)
  else
    match PortSelector.parse name with
    | .error _ => found
    | .ok selector =>
      if ¬ selector.contains protocol port then found
      else
        match found.2 with
        | some (current, _) =>
          if current ≤ selector.width then found else (found.1, some (selector.width, sd))
        | none => (found.1, some (selector.width, sd))

def lookupValues (values : List (Bytes × Bytes)) (protocol : PortProtocol) (port : ℕ) :
    Option Bytes :=
  let found := values.foldl (lookupValue protocol port) (none, none)
  (found.2.map (·.2)).or found.1

end Pkm.Kacs
