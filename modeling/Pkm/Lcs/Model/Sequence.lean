import Pkm.Lcs.Model.Value
/-!
# Sequence numbers and planned writes

One counter numbers every write of the registry. It is moved past the greatest
number a source reports and never wraps. A planned write is checked first and
takes its number last, so that one that is refused takes none.
-/

namespace Pkm.Lcs

open Bytes

/-- The next sequence number, in 64 bits. -/
structure SequenceCounter where
  nextSequence : ℕ
  lt_max : nextSequence < 2 ^ 64

/-- A computation that can fail and changes the counter. -/
abbrev Counting (ε : Type) := ExceptT ε (StateM SequenceCounter)

/-- The counter at another number, if that fits. -/
def SequenceCounter.at? (n : ℕ) : Option SequenceCounter :=
  if h : n < 2 ^ 64 then some ⟨n, h⟩ else none

/-- The counter above the greatest number a source has persisted. -/
def SequenceCounter.fromHighestPersisted (maxSequence : ℕ) : LcsResult SequenceCounter :=
  match SequenceCounter.at? (maxSequence + 1) with
  | some counter => .ok counter
  | none => .error .sequenceOverflow

namespace Counting

/-- A check that does not look at the counter. -/
def check {ε α : Type} (x : Except ε α) : Counting ε α := ExceptT.mk (pure x)

/-- Takes the next number. -/
def allocate : Counting LcsError ℕ := do
  let counter ← get
  match SequenceCounter.at? (counter.nextSequence + 1) with
  | some next => do
    set next
    pure counter.nextSequence
  | none => throw .sequenceOverflow

/-- Moves the counter past the greatest number a source has. -/
def advancePastSourceMax (sourceMaxSequence : ℕ) : Counting LcsError Unit := do
  let counter ← get
  match SequenceCounter.at? (sourceMaxSequence + 1) with
  | some candidate =>
    if candidate.nextSequence > counter.nextSequence then set candidate else pure ()
  | none => throw .sequenceOverflow

end Counting

/-- A value write as a caller asks for it. -/
structure ValueWriteInput where
  keyGuid : Guid
  name : Name
  layer : Name
  valueType : ℕ
  data : Bytes
  explicitTombstoneOperation : Bool
  expectedSequence : Option ℕ

structure PlannedValueWrite where
  write : ValidatedValueWrite
  updatesLastWriteTime : Bool

def planValueWrite (limits : LcsLimits) (input : ValueWriteInput) :
    Counting LcsError PlannedValueWrite := do
  let preallocationRequest : ValueWriteRequest := {
    keyGuid := input.keyGuid
    name := input.name
    layer := input.layer
    sequence := 0
    valueType := input.valueType
    data := input.data
    explicitTombstoneOperation := input.explicitTombstoneOperation
    expectedSequence := input.expectedSequence }
  let validated ← Counting.check (validateValueWriteRequest limits preallocationRequest)
  let sequence ← Counting.allocate
  pure { write := { validated with sequence }, updatesLastWriteTime := true }

/-- A blanket tombstone to set or to remove. -/
structure BlanketTombstoneInput where
  keyGuid : Guid
  layer : Name
  set : Bool

/-- The action with its number, which only setting takes. -/
def BlanketTombstoneAction.numbered :
    BlanketTombstoneAction → Counting LcsError BlanketTombstoneAction
  | .set _ => do
    let sequence ← Counting.allocate
    pure (.set sequence)
  | .remove => pure .remove

structure PlannedBlanketTombstone where
  blanket : ValidatedBlanketTombstone
  updatesLastWriteTime : Bool
  recomputesEffectiveValueEvents : Bool

def planBlanketTombstone (limits : LcsLimits) (input : BlanketTombstoneInput) :
    Counting LcsError PlannedBlanketTombstone := do
  let preallocationRequest : BlanketTombstoneRequest := {
    keyGuid := input.keyGuid
    layer := input.layer
    action := if input.set then .set 0 else .remove }
  let validated ← Counting.check (validateBlanketTombstoneRequest limits preallocationRequest)
  let action ← validated.action.numbered
  pure {
    blanket := { validated with action }
    updatesLastWriteTime := true
    recomputesEffectiveValueEvents := true }

end Pkm.Lcs
