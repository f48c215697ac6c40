import Pkm.Kacs.Check
/-!
# The first entry decides

What the loop over a DACL computes, said without the loop: a right that is looked at keeps its
decision if it has one, is granted if the owner's implicit rights hold it, and is otherwise decided
by the first entry that names it and speaks about the caller. With a tree and no entry for an
object type, every node ends so.
-/

namespace Pkm.Kacs

open Bits List

section FirstMatch

variable [CharCase] (input : DaclStateInput) (sidMatches : SidMatches) (i : Fin 32)

/-- The owner's implicit rights hold a right. -/
def ownerImplicit : Bool :=
  input.callerIsOwner.present && !input.skipOwnerImplicit &&
    !(input.sd.dacl.map ownerRightsSuppressed).getD false &&
    bit ((readControl ||| writeDac) &&& input.validRights) i

/-- How an entry decides a right: it is not inherit-only, it matches the caller, its condition
admits it and its mapped mask names the right. -/
def aceDecides (ace : Ace) : Option AcePolarity :=
  (speakingAce input sidMatches ace).bind fun projected =>
    if bit projected.mask i then some projected.polarity else none

/-- A decision on a cell, if there is one. -/
def settledBy (decision : Option AcePolarity) (cell : Cell) : Cell :=
  match decision with
  | none => cell
  | some polarity => cell.settle (decide (polarity = .allow))

/-- The first-match answer for a right. -/
def firstMatch (entries : List Ace) : Cell :=
  let initial := cellOf i input.initialState
  if initial.decided then initial
  else if ownerImplicit input i then initial.settle true
  else settledBy (entries.findSome? (aceDecides input sidMatches i)) initial

end FirstMatch

section Walk

variable [CharCase] {input : DaclStateInput} {sidMatches : SidMatches} {i : Fin 32} {ace : Ace}
  {projected : ProjectedDaclAce}

omit [CharCase] in
theorem settledBy_of_decided {decision : Option AcePolarity} {cell : Cell}
    (h : cell.decided = true) : settledBy decision cell = cell := by
  cases decision with
  | none => rfl
  | some polarity => exact Cell.settle_of_decided h

theorem aceDecides_of_none (h : speakingAce input sidMatches ace = none) :
    aceDecides input sidMatches i ace = none := by
  rw [aceDecides, h]
  rfl

/-- What an entry that speaks does to a right that is looked at. -/
theorem cellOf_speaking (h : speakingAce input sidMatches ace = some projected)
    (hi : bit (relevantMask input) i = true) (state : AccessDecisionState) :
    cellOf i (applyBits (projected.mask &&& relevantMask input) projected.polarity state)
      = settledBy (aceDecides input sidMatches i ace) (cellOf i state) := by
  have hdecides : aceDecides input sidMatches i ace
      = if bit projected.mask i then some projected.polarity else none := by
    rw [aceDecides, h]
    rfl
  rw [cellOf_applyBits, bit_and, hi, Bool.and_true, hdecides]
  split <;> rfl

/-- The first decision of a list of entries, from its head. -/
theorem settledBy_findSome?_cons (ace : Ace) (rest : List Ace) (cell : Cell) :
    settledBy ((ace :: rest).findSome? (aceDecides input sidMatches i)) cell
      = settledBy (rest.findSome? (aceDecides input sidMatches i))
          (settledBy (aceDecides input sidMatches i ace) cell) := by
  rw [findSome?_cons]
  cases aceDecides input sidMatches i ace with
  | none => rfl
  | some polarity => exact (settledBy_of_decided (Cell.settle_decided _ cell)).symm

/-- **The walk without a tree finds the first decision** of every right that is looked at. -/
theorem cellOf_foldl_scalarStep (hi : bit (relevantMask input) i = true) (entries : List Ace)
    (state : AccessDecisionState) :
    cellOf i (entries.foldl (scalarStep input sidMatches) state)
      = settledBy (entries.findSome? (aceDecides input sidMatches i)) (cellOf i state) := by
  induction entries generalizing state with
  | nil => rfl
  | cons ace rest ih =>
    rw [foldl_cons, ih, settledBy_findSome?_cons, scalarStep]
    split
    · rename_i hspeak
      rw [aceDecides_of_none hspeak]
      rfl
    · rename_i hspeak
      rw [cellOf_speaking hspeak hi]

/-- No entry of the list names an object type. -/
def NoObjectTarget (mapping : GenericMapping) (entries : List Ace) : Prop :=
  ∀ ace ∈ entries, ∀ projected, projectDaclAce ace mapping = .ok (some projected) →
    projected.target = .global

/-- **Over a tree every node is walked as if there was none**, if no entry names an object
type. -/
theorem foldl_treeStep {entries : List Ace} (hglobal : NoObjectTarget input.mapping entries)
    (tree : ObjectTypeList) (states : List AccessDecisionState) :
    entries.foldl (treeStep input sidMatches tree) states
      = states.map (entries.foldl (scalarStep input sidMatches)) := by
  induction entries generalizing states with
  | nil => exact (map_id states).symm
  | cons ace rest ih =>
    obtain ⟨hhead, hrest⟩ := forall_mem_cons.mp hglobal
    have hstep : treeStep input sidMatches tree states ace
        = states.map (scalarStep input sidMatches · ace) := by
      unfold treeStep scalarStep
      split
      · exact (map_id states).symm
      · rename_i projected hspeak
        split
        · rename_i hbits
          rw [hbits]
          simp [applyBits_of_decided]
        · rw [applyToTree, hhead projected (projected_of_speakingAce hspeak)]
          rfl
    rw [foldl_cons, hstep, ih hrest, map_map]
    rfl

/-! ## The evaluation -/

omit [CharCase] in
/-- The initial decision and the owner's implicit rights come before the entries. -/
theorem settledBy_startState (decision : Option AcePolarity) :
    settledBy decision (cellOf i (startState input))
      = let initial := cellOf i input.initialState
        if initial.decided then initial
        else if ownerImplicit input i then initial.settle true
        else settledBy decision initial := by
  have hstart : cellOf i (startState input)
      = if ownerImplicit input i then (cellOf i input.initialState).settle true
        else cellOf i input.initialState := by
    unfold startState ownerImplicit
    dsimp only
    split
    · rename_i h
      simp [cellOf_applyBits, h]
    · rename_i h
      rw [if_neg]
      intro himplicit
      simp only [Bool.and_eq_true, Bool.not_eq_true'] at himplicit
      exact h (by simp [himplicit])
  dsimp only
  rw [hstart]
  by_cases hdecided : (cellOf i input.initialState).decided = true
  · rw [if_pos hdecided, Cell.settle_of_decided hdecided, ite_self, settledBy_of_decided hdecided]
  · rw [if_neg hdecided]
    split
    · exact settledBy_of_decided (Cell.settle_decided _ _)
    · rfl

end Walk

/-- **The walk of a DACL is first-match.** Without a tree, every right that is looked at ends as
the first-match answer; and so does every node of a tree if no entry names an object type. -/
theorem evaluateDaclStates_firstMatch [CharCase] (input : DaclStateInput) (sidMatches : SidMatches)
    (dacl : Acl) (hdacl : input.sd.dacl = some dacl) :
    (input.objectTree = none → ∃ root,
      evaluateDaclStates input sidMatches = .ok ⟨root, none⟩ ∧
        ∀ i, bit (relevantMask input) i = true →
          cellOf i root = firstMatch input sidMatches i dacl.entries) ∧
    (∀ tree, input.objectTree = some tree → NoObjectTarget input.mapping dacl.entries →
      ∃ states, evaluateDaclStates input sidMatches = .ok ⟨states.getD 0 default, some states⟩ ∧
        states.length = tree.len ∧
        ∀ state ∈ states, ∀ i, bit (relevantMask input) i = true →
          cellOf i state = firstMatch input sidMatches i dacl.entries) := by
  constructor
  · intro htree
    refine ⟨dacl.entries.foldl (scalarStep input sidMatches) (startState input), ?_, fun i hi => ?_⟩
    · simp [evaluateDaclStates, htree, hdacl, walkScalar_eq]
    · rw [cellOf_foldl_scalarStep hi, settledBy_startState]
      rfl
  · intro tree htree hglobal
    refine ⟨List.replicate tree.len (dacl.entries.foldl (scalarStep input sidMatches)
      (startState input)), ?_, length_replicate, fun state hmem i hi => ?_⟩
    · simp [evaluateDaclStates, htree, hdacl, walkTree_eq, foldl_treeStep hglobal, map_replicate]
    · rw [eq_of_mem_replicate hmem, cellOf_foldl_scalarStep hi, settledBy_startState]
      rfl

/-! ## A mark that stays -/

attribute [local instance] Sample.asciiCase

namespace Sample

/-- A descriptor of the administrators that denies everyone a right. -/
def deniedSd : SecurityDescriptor :=
  descriptor Sid.administrators none
    (some [basicAce accessDeniedAceType 0#8 1#32 Sid.everyone]) (by decide)

/-- The walk of its DACL for everyone, from a given state. -/
def deniedWalk (initialState : AccessDecisionState) : DaclStateInput where
  sd := deniedSd
  token := (token Sid.everyone).subject
  normalized := { requested := 1#32, mapped := 1#32, maximumAllowed := false }
  validRights := 7#32
  mapping := mapping
  skipOwnerImplicit := false
  conditionalContext := context
  objectTree := none
  initialState := initialState
  callerIsOwner := OwnerMatch.none

/-- A state that marks the right as granted without deciding it. -/
def marked : AccessDecisionState := { decided := 0#32, granted := 1#32 }

def blank : AccessDecisionState := { decided := 0#32, granted := 0#32 }

/-- The caller is everyone. -/
def everyoneMatches : SidMatches := sidMatchesToken ⟨Sid.everyone, false, []⟩

/-- The DACL of the descriptor. -/
def deniedDacl : Acl := deniedSd.dacl.get (by decide)

end Sample

open Sample in
/-- A right that the initial state marks as granted and leaves undecided is decided by the denying
entry, and stays marked. -/
theorem granted_mark_survives_denial :
    bit (relevantMask (deniedWalk marked)) 0 = true ∧
      deniedDacl.entries.findSome?
        (aceDecides (deniedWalk marked) everyoneMatches 0)
        = some .deny ∧
      evaluateDaclStates (deniedWalk marked)
        everyoneMatches = .ok ⟨{ decided := 1#32, granted := 1#32 }, none⟩ := by
  decide

namespace Sample

/-- The system is denied two rights, everyone is granted them and then denied one of them. -/
def mixedSd : SecurityDescriptor :=
  descriptor Sid.administrators none
    (some [basicAce accessDeniedAceType 0#8 3#32 Sid.system, allow 3#32 Sid.everyone,
      basicAce accessDeniedAceType 0#8 1#32 Sid.everyone]) (by decide)

def mixedDacl : Acl := mixedSd.dacl.get (by decide)

def mixedWalk (objectTree : Option ObjectTypeList) : DaclStateInput :=
  { deniedWalk blank with sd := mixedSd, normalized := ⟨3#32, 3#32, false⟩, objectTree }

end Sample

open Sample in
/-- Everyone asks for both rights, of the object and of all nodes of a tree. -/
theorem mixedWalk_firstMatch :
    (∃ root, evaluateDaclStates (mixedWalk none) everyoneMatches = .ok ⟨root, none⟩ ∧
      ∀ i, bit (relevantMask (mixedWalk none)) i = true →
        cellOf i root = firstMatch (mixedWalk none) everyoneMatches i mixedDacl.entries) ∧
    ∃ states, evaluateDaclStates (mixedWalk (some tree)) everyoneMatches =
        .ok ⟨states.getD 0 default, some states⟩ ∧ states.length = 3 ∧
      ∀ state ∈ states, ∀ i, bit (relevantMask (mixedWalk (some tree))) i = true →
        cellOf i state =
          firstMatch (mixedWalk (some tree)) everyoneMatches i mixedDacl.entries := by
  have hdacl : mixedSd.dacl = some mixedDacl := (Option.some_get _).symm
  refine ⟨(evaluateDaclStates_firstMatch (mixedWalk none) everyoneMatches mixedDacl hdacl).1 rfl,
    (evaluateDaclStates_firstMatch (mixedWalk (some tree)) everyoneMatches mixedDacl hdacl).2
      tree rfl fun ace hace projected hprojected => ?_⟩
  have hglobal : ∀ ace ∈ mixedDacl.entries,
      ∀ projected ∈ (projectDaclAce ace mapping).toOption.bind id, projected.target = .global := by
    decide
  exact hglobal ace hace projected
    (by rw [show projectDaclAce ace mapping = _ from hprojected]; rfl)

end Pkm.Kacs
