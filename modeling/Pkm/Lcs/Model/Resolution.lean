import Pkm.Lcs.Model.Layers
import Pkm.Lcs.Model.Value
import Pkm.Lib.Select
/-!
# Resolution over layers

A source returns every layer's entry for a key or a value, and the blanket
tombstones of the key. Entries of layers that are not in the table, or that are
disabled and not attached to the caller, are passed over. Of the others, the
candidates, the one with the greatest precedence and then the greatest sequence
number decides; two candidates that share both are an error.

`forEachEffectiveValue` and `forEachVisibleSubkey` resolve every name of a key at
once. They group the entries by folded name and hand what each group resolves to
to a callback, which here is a function on a state of the caller's.
-/

namespace Pkm.Lcs

open Bytes

/-! ## Entries and results -/

inductive PathTarget where
  | guid (guid : Guid)
  | hidden
  deriving DecidableEq

/-- One layer's entry for one child of one key. -/
structure PathEntry where
  layer : Name
  sequence : ℕ
  target : PathTarget

structure ResolvedPathEntry where
  guid : Guid
  layer : Name
  precedence : ℕ
  sequence : ℕ
  deriving DecidableEq

/-- One layer's entry for one value of one key. -/
structure ValueEntry where
  layer : Name
  sequence : ℕ
  valueType : ℕ
  data : Bytes

/-- One layer's deletion of all values of a key. -/
structure BlanketTombstoneEntry where
  layer : Name
  sequence : ℕ

structure ResolvedValueEntry where
  valueType : RegistryValueType
  data : Bytes
  layer : Name
  precedence : ℕ
  sequence : ℕ
  deriving DecidableEq

structure NamedValueEntry where
  name : Name
  entry : ValueEntry

structure NamedPathEntry where
  childName : Name
  entry : PathEntry

structure EnumeratedValue where
  name : Name
  value : ResolvedValueEntry
  deriving DecidableEq

structure EnumeratedSubkey where
  childName : Name
  path : ResolvedPathEntry
  deriving DecidableEq

structure ResolvedNamedPathEntry where
  childName : Name
  path : ResolvedPathEntry
  deriving DecidableEq

/-- What resolving a set of candidates comes to. -/
inductive Resolution (ρ : Type) where
  | found (result : ρ)
  | notFound
  deriving DecidableEq

abbrev PathResolution := Resolution ResolvedPathEntry
abbrev ValueResolution := Resolution ResolvedValueEntry
abbrev NamedPathResolution := Resolution ResolvedNamedPathEntry

/-! ## Active layers -/

structure ActiveLayer where
  name : Name
  precedence : ℕ
  deriving DecidableEq

variable (context : LayerResolutionContext)

def privateLayerAttached (layerName : Name) : LcsResult Bool :=
  context.privateLayers.anyM fun privateLayer => do
    let _ ← validateLayerNameBytes privateLayer context.limits
    .ok (casefoldEq privateLayer layerName)

/-- The search for the one layer of that name. -/
def matchLayer (sourceLayer : Name) : LcsResult (Option LayerView) :=
  context.layers.foldlM (fun matched layer => do
    let _ ← validateLayerNameBytes layer.name context.limits
    if casefoldEq layer.name sourceLayer then
      if matched.isSome then .error .duplicateLayerIdentity else .ok (some layer)
    else .ok matched) none

def activeLayerForSourceEntry (sourceLayer : Name) : LcsResult (Option ActiveLayer) := do
  let _ ← validateLayerNameBytes sourceLayer context.limits
  match ← matchLayer context sourceLayer with
  | none => .ok none
  | some layer =>
    if layer.enabled then .ok (some ⟨layer.name, layer.precedence⟩)
    else if ← privateLayerAttached context layer.name then
      .ok (some ⟨layer.name, layer.precedence⟩)
    else .ok none

/-! ## Candidates -/

def validateSequence (sequence : ℕ) : LcsResult Unit :=
  if sequence ≥ context.nextSequence then .error (.futureSequence sequence context.nextSequence)
  else .ok ()

def validatePathTarget : PathTarget → LcsResult PathTarget
  | .guid guid => if guid = nilGuid then .error .nilKeyGuid else .ok (.guid guid)
  | .hidden => .ok .hidden

inductive ValueCandidatePayload where
  | value (valueType : RegistryValueType) (data : Bytes)
  | tombstone
  deriving DecidableEq

def validateSourceValuePayload (entry : ValueEntry) : LcsResult ValueCandidatePayload := do
  match ← validateValueWriteType entry.valueType entry.data.length
      (decide (entry.valueType = regTombstone)) with
  | .normal valueType => .ok (.value valueType entry.data)
  | .tombstone => .ok .tombstone

structure PathCandidate where
  layer : ActiveLayer
  sequence : ℕ
  target : PathTarget

structure ValueCandidate where
  layer : ActiveLayer
  sequence : ℕ
  payload : ValueCandidatePayload

structure NamedPathCandidate where
  name : Name
  layer : ActiveLayer
  sequence : ℕ
  target : PathTarget

/-- A candidate of an enumeration. Only a blanket tombstone has no name. -/
structure NamedValueCandidate where
  name : Option Name
  layer : ActiveLayer
  sequence : ℕ
  payload : ValueCandidatePayload
  named : payload ≠ .tombstone → name.isSome

theorem tombstone_named (h : ValueCandidatePayload.tombstone ≠ .tombstone) :
    (none : Option Name).isSome := absurd rfl h

/-- The candidate an entry is, if its layer is active; `payload` checks and reads the rest. -/
def candidateFrom {π α : Type} (context : LayerResolutionContext) (layer : Name) (sequence : ℕ)
    (payload : LcsResult π) (build : ActiveLayer → π → α) : LcsResult (Option α) := do
  match ← activeLayerForSourceEntry context layer with
  | none => .ok none
  | some active => do
    validateSequence context sequence
    let p ← payload
    .ok (some (build active p))

def pathCandidate (entry : PathEntry) : LcsResult (Option PathCandidate) :=
  candidateFrom context entry.layer entry.sequence (validatePathTarget entry.target)
    fun layer target => ⟨layer, entry.sequence, target⟩

def valueCandidate (entry : ValueEntry) : LcsResult (Option ValueCandidate) :=
  candidateFrom context entry.layer entry.sequence (validateSourceValuePayload entry)
    fun layer payload => ⟨layer, entry.sequence, payload⟩

def blanketCandidate (blanket : BlanketTombstoneEntry) : LcsResult (Option ValueCandidate) :=
  candidateFrom context blanket.layer blanket.sequence (.ok ())
    fun layer _ => ⟨layer, blanket.sequence, .tombstone⟩

/-- Entries of other names are passed over before their layer is looked at. -/
def namedPathCandidate (requestedName : Name) (entry : NamedPathEntry) :
    LcsResult (Option NamedPathCandidate) := do
  let candidateName ← validateKeyComponentBytes entry.childName context.limits
  if ¬ casefoldEq candidateName requestedName then .ok none
  else
    candidateFrom context entry.entry.layer entry.entry.sequence
      (validatePathTarget entry.entry.target)
      fun layer target => ⟨candidateName, layer, entry.entry.sequence, target⟩

def namedValueCandidate (currentName : Name) (entry : NamedValueEntry) :
    LcsResult (Option NamedValueCandidate) := do
  let candidateName ← validateValueNameBytes entry.name context.limits
  if ¬ casefoldEq candidateName currentName then .ok none
  else
    candidateFrom context entry.entry.layer entry.entry.sequence
      (validateSourceValuePayload entry.entry)
      fun layer payload => ⟨some candidateName, layer, entry.entry.sequence, payload, fun _ => rfl⟩

def namedBlanketCandidate (blanket : BlanketTombstoneEntry) :
    LcsResult (Option NamedValueCandidate) :=
  candidateFrom context blanket.layer blanket.sequence (.ok ())
    fun layer _ => ⟨none, layer, blanket.sequence, .tombstone, tombstone_named⟩

/-! ## The best candidate -/

inductive CandidateOrdering where
  | first
  | second
  | tie

def compareCandidateTuple (current : Option (ℕ × ℕ)) (precedence sequence : ℕ) :
    CandidateOrdering :=
  match current with
  | none => .second
  | some (currentPrecedence, currentSequence) =>
    match compare precedence currentPrecedence with
    | .gt => .second
    | .lt => .first
    | .eq =>
      match compare sequence currentSequence with
      | .gt => .second
      | .lt => .first
      | .eq => .tie

def PathCandidate.tuple (c : PathCandidate) : ℕ × ℕ := (c.layer.precedence, c.sequence)
def ValueCandidate.tuple (c : ValueCandidate) : ℕ × ℕ := (c.layer.precedence, c.sequence)
variable (c : NamedPathCandidate)

def NamedPathCandidate.tuple : ℕ × ℕ := (c.layer.precedence, c.sequence)
def NamedValueCandidate.tuple (c : NamedValueCandidate) : ℕ × ℕ := (c.layer.precedence, c.sequence)

/-- The best candidate so far and whether another one has its tuple, after one more. -/
def updateBest {α : Type} (tuple : α → ℕ × ℕ) (state : Select.Best α) (candidate : α) :
    Select.Best α :=
  match compareCandidateTuple (state.1.map tuple) (tuple candidate).1 (tuple candidate).2 with
  | .first => state
  | .second => (some candidate, false)
  | .tie => (state.1, true)

def updateBestPath := updateBest PathCandidate.tuple
def updateBestValue := updateBest ValueCandidate.tuple
def updateBestNamedPath := updateBest NamedPathCandidate.tuple
def updateBestNamedValue := updateBest NamedValueCandidate.tuple

/-- One loop over source entries: those that are no candidate are passed over. -/
def scanEntries {ι α : Type} (candidate : ι → LcsResult (Option α))
    (update : Select.Best α → α → Select.Best α) (state : Select.Best α) (entries : List ι) :
    LcsResult (Select.Best α) :=
  entries.foldlM (fun state entry => do
    match ← candidate entry with
    | none => .ok state
    | some c => .ok (update state c)) state

def rejectDuplicateWinningTie (duplicateBest : Bool) (precedence sequence : ℕ) : LcsResult Unit :=
  if duplicateBest then .error (.duplicateWinningSequenceTie precedence sequence) else .ok ()

/-- What the best candidate comes to: a tie is an error, and one that shows nothing is absent. -/
def conclude {α ρ : Type} (tuple : α → ℕ × ℕ) (visible : α → Option ρ) (state : Select.Best α) :
    LcsResult (Resolution ρ) :=
  match state.1 with
  | none => .ok .notFound
  | some best => do
    rejectDuplicateWinningTie state.2 (tuple best).1 (tuple best).2
    match visible best with
    | some result => .ok (.found result)
    | none => .ok .notFound

/-! ## Lookups -/

def PathCandidate.visible (c : PathCandidate) : Option ResolvedPathEntry :=
  match c.target with
  | .guid guid => some ⟨guid, c.layer.name, c.layer.precedence, c.sequence⟩
  | .hidden => none

def ValueCandidate.visible (c : ValueCandidate) : Option ResolvedValueEntry :=
  match c.payload with
  | .value valueType data =>
    some ⟨valueType, data, c.layer.name, c.layer.precedence, c.sequence⟩
  | .tombstone => none

def NamedPathCandidate.visible : Option ResolvedNamedPathEntry :=
  match c.target with
  | .guid guid => some ⟨c.name, guid, c.layer.name, c.layer.precedence, c.sequence⟩
  | .hidden => none

def resolvePathEntry (entries : List PathEntry) : LcsResult PathResolution := do
  validateLayerResolutionContext context
  let best ← scanEntries (pathCandidate context) updateBestPath (none, false) entries
  conclude PathCandidate.tuple PathCandidate.visible best

/-- The check of all entries before any is used. -/
def prevalidate {ι α : Type} (candidate : ι → LcsResult (Option α)) (entries : List ι) :
    LcsResult Unit :=
  entries.foldlM (fun _ entry => do
    let _ ← candidate entry
    .ok ()) ()

def prevalidateSubkeyEnumerationSource (entries : List NamedPathEntry) : LcsResult Unit :=
  prevalidate (fun entry => do
    let _ ← validateKeyComponentBytes entry.childName context.limits
    pathCandidate context entry.entry) entries

def prevalidateValueEnumerationSource (entries : List NamedValueEntry)
    (blankets : List BlanketTombstoneEntry) : LcsResult Unit := do
  prevalidate (fun entry => do
    let _ ← validateValueNameBytes entry.name context.limits
    valueCandidate context entry.entry) entries
  prevalidate (blanketCandidate context) blankets

def resolveNamedPathEntry (requestedChildName : Name) (entries : List NamedPathEntry) :
    LcsResult NamedPathResolution := do
  validateLayerResolutionContext context
  let requestedName ← validateKeyComponentBytes requestedChildName context.limits
  prevalidateSubkeyEnumerationSource context entries
  let best ← scanEntries (namedPathCandidate context requestedName) updateBestNamedPath
    (none, false) entries
  conclude NamedPathCandidate.tuple NamedPathCandidate.visible best

def resolveValue (entries : List ValueEntry) (blankets : List BlanketTombstoneEntry) :
    LcsResult ValueResolution := do
  validateLayerResolutionContext context
  let best ← scanEntries (valueCandidate context) updateBestValue (none, false) entries
  let best ← scanEntries (blanketCandidate context) updateBestValue best blankets
  conclude ValueCandidate.tuple ValueCandidate.visible best

/-! ## Enumeration -/

def valueNameSeenBefore (previous : List NamedValueEntry) (currentName : Name) : LcsResult Bool :=
  nameSeenBefore validateValueNameBytes context.limits (previous.map (·.name)) currentName

def childNameSeenBefore (previous : List NamedPathEntry) (currentName : Name) : LcsResult Bool :=
  nameSeenBefore validateKeyComponentBytes context.limits (previous.map (·.childName)) currentName

/-- A candidate that shows a value has a name, so that the enumeration can report it. -/
def NamedValueCandidate.visible (c : NamedValueCandidate) : Option EnumeratedValue :=
  match h : c.payload with
  | .value valueType data =>
    some ⟨c.name.get (c.named (by rw [h]; simp)),
      valueType, data, c.layer.name, c.layer.precedence, c.sequence⟩
  | .tombstone => none

def NamedPathCandidate.enumerated : Option EnumeratedSubkey :=
  match c.target with
  | .guid guid => some ⟨c.name, guid, c.layer.name, c.layer.precedence, c.sequence⟩
  | .hidden => none

/-- Hands a resolved group to the callback and counts it. -/
def emitResolved {ρ σ : Type} (emit : σ → ρ → LcsResult σ) (state : ℕ × σ) :
    Resolution ρ → LcsResult (ℕ × σ)
  | .notFound => .ok state
  | .found result => do
    let s ← emit state.2 result
    .ok (state.1 + 1, s)

variable {σ : Type} (context : LayerResolutionContext)

section

variable (entries : List NamedValueEntry) (blankets : List BlanketTombstoneEntry)
  (emit : σ → EnumeratedValue → LcsResult σ)

/-- One round of the enumeration: the first entry of a name resolves the whole name. -/
def effectiveValueRound (previous : List NamedValueEntry) (state : ℕ × σ)
    (entry : NamedValueEntry) : LcsResult (ℕ × σ) := do
  let currentName ← validateValueNameBytes entry.name context.limits
  if ← valueNameSeenBefore context previous currentName then .ok state
  else
    let best ← scanEntries (namedValueCandidate context currentName) updateBestNamedValue
      (none, false) entries
    let best ← scanEntries (namedBlanketCandidate context) updateBestNamedValue best blankets
    let group ← conclude NamedValueCandidate.tuple NamedValueCandidate.visible best
    emitResolved emit state group

def forEachEffectiveValue (s : σ) : LcsResult (ℕ × σ) := do
  validateLayerResolutionContext context
  prevalidateValueEnumerationSource context entries blankets
  Scan.foldAfter (effectiveValueRound context entries blankets emit) [] (0, s) entries

end

def visibleSubkeyRound (entries : List NamedPathEntry) (emit : σ → EnumeratedSubkey → LcsResult σ)
    (previous : List NamedPathEntry) (state : ℕ × σ) (entry : NamedPathEntry) :
    LcsResult (ℕ × σ) := do
  let currentName ← validateKeyComponentBytes entry.childName context.limits
  if ← childNameSeenBefore context previous currentName then .ok state
  else
    let best ← scanEntries (namedPathCandidate context currentName) updateBestNamedPath
      (none, false) entries
    let group ← conclude NamedPathCandidate.tuple NamedPathCandidate.enumerated best
    emitResolved emit state group

def forEachVisibleSubkey (entries : List NamedPathEntry) (emit : σ → EnumeratedSubkey → LcsResult σ)
    (s : σ) : LcsResult (ℕ × σ) := do
  validateLayerResolutionContext context
  prevalidateSubkeyEnumerationSource context entries
  Scan.foldAfter (visibleSubkeyRound context entries emit) [] (0, s) entries

end Pkm.Lcs
