import Pkm.Kacs.Helpers.DaclBits
import Pkm.Kacs.Helpers.Project
/-!
# The DACL walk, one right at a time

For a single right the entries of a DACL are a list of effects: those that apply,
speak about the caller and name the right, each as a grant or a denial with the
scope of its target. `walkCells` runs that list, from the owner's implicit rights
on, and `evaluateDaclStates` computes exactly those cells for every right: with or
without a tree, whatever was asked for, and although the walk without a tree stops
once everything requested is decided.
-/

namespace Pkm.Kacs

open Bits List Outcome

/-- Where the target of an entry acts: a target outside the tree acts nowhere, and without a tree
every entry acts on the whole object. -/
def scopeOf (tree : Option ObjectTypeList) (target : AceTarget) : Option Scope :=
  match tree, target with
  | some tree, .object guid => (tree.find guid).map .sub
  | _, _ => some .all

section Effects

variable [CharCase] (input : DaclStateInput) (sidMatches : SidMatches) (i : Fin 32)

/-- An entry that applies and speaks about the caller, as the walk sees it. -/
def speakingAce (ace : Ace) : Option ProjectedDaclAce :=
  if applies ace then
    match projectDaclAce ace input.mapping with
    | .ok (some projected) => if aceSpeaks input sidMatches projected then some projected else none
    | _ => none
  else none

/-- The effect on one right of an entry that speaks about the caller. -/
def projectedEffect (projected : ProjectedDaclAce) : Option Effect :=
  if bit (projected.mask &&& relevantMask input) i then
    (scopeOf input.objectTree projected.target).map (⟨decide (projected.polarity = .allow), ·⟩)
  else none

/-- The effect of an entry on one right. -/
def aceEffect (ace : Ace) : Option Effect :=
  (speakingAce input sidMatches ace).bind (projectedEffect input i)

/-- The effects of a DACL on one right. A missing DACL grants everything there is to grant. -/
def daclEffects : List Effect :=
  match input.sd.dacl with
  | none => if bit input.validRights i then [⟨true, .all⟩] else []
  | some dacl => dacl.entries.filterMap (aceEffect input sidMatches i)

/-- What a walk decides about one right. -/
noncomputable def walkCells : Cells :=
  (forestOf input.objectTree).walk (daclEffects input sidMatches i)
    ((forestOf input.objectTree).uniform (cellOf i (startState input)))

end Effects

variable [CharCase] {input : DaclStateInput} {sidMatches : SidMatches} {i : Fin 32} {ace : Ace}
  {projected : ProjectedDaclAce}

/-- An entry that speaks is projected. -/
theorem projected_of_speakingAce (h : speakingAce input sidMatches ace = some projected) :
    projectDaclAce ace input.mapping = .ok (some projected) := by
  unfold speakingAce at h
  split at h
  · split at h
    · rename_i p hp
      split at h
      · exact Option.some.inj h ▸ hp
      · cases h
    · cases h
  · cases h

theorem aceEffect_of_none (h : speakingAce input sidMatches ace = none) (i : Fin 32) :
    aceEffect input sidMatches i ace = none := by
  rw [aceEffect, h]
  rfl

theorem aceEffect_of_some (h : speakingAce input sidMatches ace = some projected) (i : Fin 32) :
    aceEffect input sidMatches i ace = projectedEffect input i projected := by
  rw [aceEffect, h]
  rfl

/-- The walk of the effects of a list of entries, one entry at a time. -/
theorem walk_filterMap_cons {F : Forest} {rest : List Ace} {v : Cells} :
    F.walk ((ace :: rest).filterMap (aceEffect input sidMatches i)) v =
      F.walk (rest.filterMap (aceEffect input sidMatches i))
        (F.walk (aceEffect input sidMatches i ace).toList v) := by
  cases h : aceEffect input sidMatches i ace with
  | none => rw [filterMap_cons_none h]; rfl
  | some e => rw [filterMap_cons_some h]; rfl

/-- Either walk acts on the entries that speak and passes over the others. -/
theorem entry_eq {σ : Type} (skip : KacsResult σ) (act : ProjectedDaclAce → KacsResult σ) :
    (if ¬ applies ace then skip
      else do
        match ← projectDaclAce ace input.mapping with
        | none => skip
        | some projected =>
          if ¬ aceSpeaks input sidMatches projected then skip else act projected) =
      match speakingAce input sidMatches ace with
      | none => skip
      | some projected => act projected := by
  obtain ⟨projected, hp⟩ := projectDaclAce_ok ace input.mapping
  rw [speakingAce, hp, ok_bind]
  split_ifs
  · cases projected with
    | none => rfl
    | some projected =>
      dsimp only
      split_ifs <;> rfl
  · rfl

/-! ## With a tree -/

section Tree

variable {tree : ObjectTypeList} {states : List AccessDecisionState}

/-- One entry of a walk over a tree. -/
def treeStep (input : DaclStateInput) (sidMatches : SidMatches) (tree : ObjectTypeList)
    (states : List AccessDecisionState) (ace : Ace) : List AccessDecisionState :=
  match speakingAce input sidMatches ace with
  | none => states
  | some projected =>
    if projected.mask &&& relevantMask input = 0#32 then states
    else applyToTree tree (projected.mask &&& relevantMask input) projected states

theorem walkTree_eq (entries : List Ace) (states : List AccessDecisionState) :
    walkTree input sidMatches tree entries states =
      .ok (entries.foldl (treeStep input sidMatches tree) states) := by
  induction entries generalizing states with
  | nil => rfl
  | cons ace rest ih =>
    rw [foldl_cons, treeStep]
    refine (entry_eq _ _).trans ?_
    split
    · exact ih states
    · split <;> exact ih _

omit [CharCase] in
/-- One entry with a tree is its effect, on every right. -/
theorem cellsOf_applyToTree (htree : input.objectTree = some tree)
    (hlen : states.length = tree.len)
    (hcoh : Forest.Coherent tree.forest (cellsOf i states)) (projected : ProjectedDaclAce) :
    cellsOf i (applyToTree tree (projected.mask &&& relevantMask input) projected states) =
      tree.forest.walk (projectedEffect input i projected).toList (cellsOf i states) := by
  unfold applyToTree projectedEffect
  rw [htree]
  cases projected.target with
  | global =>
    change cellsOf i (applyGlobalToTree _ _ states) = _
    rw [cellsOf_applyGlobalToTree (F := tree.forest) hlen]
    split <;> rfl
  | object guid =>
    simp only [scopeOf]
    cases hfind : tree.find guid with
    | none => simp
    | some index =>
      change cellsOf i (applyObjectAceToTree tree index _ _ states) = _
      rw [cellsOf_applyObjectAceToTree tree hlen (tree.find_lt hfind) hcoh]
      split <;> rfl

omit [CharCase] in
theorem length_applyToTree (hlen : states.length = tree.len) (bits : Mask)
    (projected : ProjectedDaclAce) :
    (applyToTree tree bits projected states).length = tree.len := by
  unfold applyToTree
  split
  · simpa [applyGlobalToTree] using hlen
  · split
    · exact (length_applyObjectAceToTree tree hlen _).trans hlen
    · exact hlen

/-- **The walk over a tree is the walk of the effects**, for every right. -/
theorem walkTree_spec (sidMatches : SidMatches) (htree : input.objectTree = some tree)
    (entries : List Ace) (hlen : states.length = tree.len)
    (hcoh : ∀ i, Forest.Coherent tree.forest (cellsOf i states)) :
    ∃ states', walkTree input sidMatches tree entries states = .ok states' ∧
      states'.length = tree.len ∧
      ∀ i, cellsOf i states' =
        tree.forest.walk (entries.filterMap (aceEffect input sidMatches i)) (cellsOf i states) := by
  refine ⟨_, walkTree_eq entries states, ?_⟩
  induction entries generalizing states with
  | nil => exact ⟨hlen, fun i => rfl⟩
  | cons ace rest ih =>
    have hstep : (treeStep input sidMatches tree states ace).length = tree.len ∧
        ∀ i, cellsOf i (treeStep input sidMatches tree states ace) =
          tree.forest.walk (aceEffect input sidMatches i ace).toList (cellsOf i states) := by
      unfold treeStep
      split
      · rename_i hspeak
        exact ⟨hlen, fun i => by rw [aceEffect_of_none hspeak]; rfl⟩
      · rename_i projected hspeak
        simp only [aceEffect_of_some hspeak]
        split
        · rename_i hbits
          exact ⟨hlen, fun i => by simp [projectedEffect, hbits]⟩
        · exact ⟨length_applyToTree hlen _ projected, fun i =>
            cellsOf_applyToTree htree hlen (hcoh i) projected⟩
    obtain ⟨hlen', hcells⟩ := ih hstep.1 fun i => by rw [hstep.2]; exact (hcoh i).walk _
    exact ⟨hlen', fun i => by rw [foldl_cons, hcells, hstep.2, walk_filterMap_cons]⟩

end Tree

/-! ## Without a tree -/

variable {state : AccessDecisionState}

/-- One entry of a walk without a tree. -/
def scalarStep (input : DaclStateInput) (sidMatches : SidMatches) (state : AccessDecisionState)
    (ace : Ace) : AccessDecisionState :=
  match speakingAce input sidMatches ace with
  | none => state
  | some projected => applyBits (projected.mask &&& relevantMask input) projected.polarity state

variable {bits : Mask} {polarity : AcePolarity}

omit [CharCase] in
/-- Bits that are decided change nothing. -/
theorem applyBits_of_decided (h : bits &&& ~~~state.decided = 0#32) :
    applyBits bits polarity state = state := by
  simp [applyBits, h]

omit [CharCase] in
/-- One entry without a tree settles its bits, and stops the walk only when every right that is
looked at is decided. -/
theorem applyToScalar_eq {state' : AccessDecisionState} {stop : Bool}
    (h : applyToScalar input bits polarity state = (state', stop)) :
    state' = applyBits bits polarity state ∧
      (stop = true → state'.decided &&& relevantMask input = relevantMask input) := by
  unfold applyToScalar at h
  split at h
  · rename_i hbits
    cases h
    exact ⟨(applyBits_of_decided hbits).symm, Bool.noConfusion⟩
  · cases h
    exact ⟨rfl, fun hstop => of_decide_eq_true (Bool.and_eq_true_iff.mp hstop).2⟩

/-- Once every right that is looked at is decided, the remaining entries change nothing. -/
theorem foldl_scalarStep_of_decided
    (h : state.decided &&& relevantMask input = relevantMask input) (entries : List Ace) :
    entries.foldl (scalarStep input sidMatches) state = state := by
  have hbits : ∀ mask : Mask, mask &&& relevantMask input &&& ~~~state.decided = 0#32 := by
    intro mask
    rw [← h]
    refine ext_bit fun i => ?_
    simp only [bit_and, bit_not]
    cases bit state.decided i <;> simp
  induction entries with
  | nil => rfl
  | cons ace rest ih =>
    have hstep : scalarStep input sidMatches state ace = state := by
      unfold scalarStep
      split
      · rfl
      · exact applyBits_of_decided (hbits _)
    rw [foldl_cons, hstep, ih]

/-- Stopping early changes nothing. -/
theorem walkScalar_eq (entries : List Ace) (state : AccessDecisionState) :
    walkScalar input sidMatches entries state =
      .ok (entries.foldl (scalarStep input sidMatches) state) := by
  induction entries generalizing state with
  | nil => rfl
  | cons ace rest ih =>
    rw [foldl_cons, scalarStep]
    refine (entry_eq _ _).trans ?_
    split
    · exact ih state
    · rename_i projected _
      split
      · rename_i hbits
        rw [ih, applyBits_of_decided (by rw [hbits, BitVec.zero_and])]
      · split
        · rename_i heq
          obtain ⟨rfl, hstop⟩ := applyToScalar_eq heq
          rw [foldl_scalarStep_of_decided (hstop rfl)]
        · rename_i heq
          obtain ⟨rfl, -⟩ := applyToScalar_eq heq
          exact ih _

omit [CharCase] in
theorem cellsOf_singleton_applyBits (htree : input.objectTree = none) (i : Fin 32)
    (projected : ProjectedDaclAce) (state : AccessDecisionState) :
    cellsOf i [applyBits (projected.mask &&& relevantMask input) projected.polarity state] =
      scalarForest.walk (projectedEffect input i projected).toList (cellsOf i [state]) := by
  have hglobal : cellsOf i (applyGlobalToTree (projected.mask &&& relevantMask input)
      projected.polarity [state]) = _ := cellsOf_applyGlobalToTree (F := scalarForest) rfl
  refine hglobal.trans ?_
  unfold projectedEffect
  rw [htree]
  split <;> rfl

/-- **The walk without a tree is the walk of the effects**, for every right. -/
theorem walkScalar_spec (sidMatches : SidMatches) (htree : input.objectTree = none)
    (entries : List Ace) (state : AccessDecisionState) :
    ∃ state', walkScalar input sidMatches entries state = .ok state' ∧
      ∀ i, cellsOf i [state'] =
        scalarForest.walk (entries.filterMap (aceEffect input sidMatches i))
          (cellsOf i [state]) := by
  refine ⟨_, walkScalar_eq entries state, fun i => ?_⟩
  induction entries generalizing state with
  | nil => rfl
  | cons ace rest ih =>
    rw [foldl_cons, ih, walk_filterMap_cons, scalarStep]
    split
    · rename_i hspeak
      rw [aceEffect_of_none hspeak]
      rfl
    · rename_i projected hspeak
      rw [aceEffect_of_some hspeak, cellsOf_singleton_applyBits htree]

end Pkm.Kacs
