import Pkm.Kacs.FirstMatch
import Pkm.Lib.Denial
/-!
# A denying entry anywhere in a DACL

One more denying entry, at any place of a DACL and for any SID but OWNER RIGHTS, leaves every right
at every node as it was or denies it. It may name an object type, carry a condition, or not apply
at all. An entry for OWNER RIGHTS also takes the owner's implicit rights away, which is another
matter.
-/

namespace Pkm.Kacs

open Bits

/-- The second descriptor's DACL is the first's with a denying entry inserted, which does not speak
for OWNER RIGHTS. -/
structure InsertsDeny (ace : Ace) (sd sd' : SecurityDescriptor) : Prop where
  dacl : ∃ dacl dacl' before after, sd.dacl = some dacl ∧ sd'.dacl = some dacl' ∧
    dacl.entries = before ++ after ∧ dacl'.entries = before ++ ace :: after
  denies : ace.aceType ∈ [accessDeniedAceType, accessDeniedObjectAceType,
    accessDeniedCallbackAceType, accessDeniedCallbackObjectAceType]
  not_ownerRights : ace.kind.accessSid ≠ some Sid.ownerRights

/-- The states of an evaluation: of the object, or of every node of the tree. -/
def InternalDaclEvaluation.states (self : InternalDaclEvaluation) : List AccessDecisionState :=
  self.objectStates.getD [self.root]

/-- A denying entry projects to a denial. -/
theorem projectDaclAce_deny {ace : Ace} {mapping : GenericMapping} {projected : ProjectedDaclAce}
    (hdeny : ace.aceType ∈ [accessDeniedAceType, accessDeniedObjectAceType,
      accessDeniedCallbackAceType, accessDeniedCallbackObjectAceType])
    (h : projectDaclAce ace mapping = .ok (some projected)) : projected.polarity = .deny := by
  obtain ⟨types, hmem, hpolarity, -, -⟩ := projectDaclAce_inv h
  have hallow : ∀ types ∈ accessAceTypes, types.1 ∉ [accessDeniedAceType,
      accessDeniedObjectAceType, accessDeniedCallbackAceType,
      accessDeniedCallbackObjectAceType] := List.forall_iff_forall_mem.mp (by decide)
  have hne : ace.aceType ≠ types.1 := fun heq => hallow types hmem (heq ▸ hdeny)
  rw [polarityOf, if_neg hne] at hpolarity
  split at hpolarity
  · exact (Option.some.inj hpolarity).symm
  · cases hpolarity

section Walk

variable [CharCase] {ace : Ace} {sd sd' : SecurityDescriptor} (h : InsertsDeny ace sd sd')
include h

omit [CharCase] in
theorem InsertsDeny.ownerRightsSuppressed :
    sd'.dacl.map Kacs.ownerRightsSuppressed = sd.dacl.map Kacs.ownerRightsSuppressed := by
  obtain ⟨dacl, dacl', before, after, hd, hd', hentries, hentries'⟩ := h.dacl
  rw [hd, hd']
  simp [Kacs.ownerRightsSuppressed, hentries, hentries', h.not_ownerRights]

omit [CharCase] in
theorem InsertsDeny.startState (input : DaclStateInput) (hsd : input.sd = sd) :
    Kacs.startState { input with sd := sd' } = Kacs.startState input := by
  unfold Kacs.startState
  rw [hsd, h.ownerRightsSuppressed]

/-- The effect of the entry, if it has one, is a denial. -/
theorem InsertsDeny.effect_denies {input : DaclStateInput} {sidMatches : SidMatches} {i : Fin 32} :
    ∀ effect ∈ aceEffect input sidMatches i ace, effect.allow = false := by
  intro effect heffect
  obtain ⟨projected, hspeak, heffect⟩ := Option.bind_eq_some_iff.mp heffect
  have hpolarity : projected.polarity = .deny :=
    projectDaclAce_deny h.denies (projected_of_speakingAce hspeak)
  unfold projectedEffect at heffect
  split at heffect
  · obtain ⟨scope, -, rfl⟩ := Option.map_eq_some_iff.mp heffect
    simp [hpolarity]
  · cases heffect

/-- **At every node and for every right the walk ends as before or denied.** -/
theorem InsertsDeny.walkCells (input : DaclStateInput) (hsd : input.sd = sd)
    (hstart : (Kacs.startState input).granted ⊆ (Kacs.startState input).decided)
    (sidMatches : SidMatches) (i : Fin 32) :
    Forest.DeniesMore (Kacs.walkCells input sidMatches i)
      (Kacs.walkCells { input with sd := sd' } sidMatches i) := by
  obtain ⟨dacl, dacl', before, after, hd, hd', hentries, hentries'⟩ := h.dacl
  unfold Kacs.walkCells
  rw [h.startState input hsd]
  simp only [daclEffects, hsd, hd, hd', hentries, hentries', List.filterMap_eq_flatMap_toList,
    List.flatMap_append]
  exact Forest.deniesMore_insert (Forest.Coherent.uniform fun hg => bit_of_subset hstart hg)
    h.effect_denies _ _

end Walk

attribute [local instance] Sample.asciiCase

namespace Sample

/-- An entry that denies rights at one object type. -/
def denyAt (type : Byte) (mask : Mask) (sid : Sid) : Bytes :=
  [accessDeniedObjectAceType, 0#8] ++ Bytes.ofU16 (.ofNat 16 (28 + sid.bytes.length)) ++
    Bytes.ofU32 mask ++ Bytes.ofU32 1#32 ++ (guid type).bytes ++ sid.bytes

/-- Two entries grant everyone a right each. -/
def grantsSd : SecurityDescriptor :=
  descriptor Sid.administrators none (some [allow 1#32 Sid.everyone, allow 2#32 Sid.everyone])
    (by decide)

/-- Between them all three rights are denied at the first child. -/
def deniedBetweenSd : SecurityDescriptor :=
  descriptor Sid.administrators none
    (some [allow 1#32 Sid.everyone, denyAt 1#8 7#32 Sid.everyone, allow 2#32 Sid.everyone])
    (by decide +kernel)

def denyAce : Ace := (Ace.parse (denyAt 1#8 7#32 Sid.everyone)).toOption.get (by decide)

theorem insertsDeny_denyAce : InsertsDeny denyAce grantsSd deniedBetweenSd where
  dacl := ⟨grantsSd.dacl.get (by decide), deniedBetweenSd.dacl.get (by decide),
    [(Ace.parse (allow 1#32 Sid.everyone)).toOption.get (by decide)],
    [(Ace.parse (allow 2#32 Sid.everyone)).toOption.get (by decide)],
    (Option.some_get _).symm, (Option.some_get _).symm, by decide, by decide⟩
  denies := by decide
  not_ownerRights := by decide

/-- Everyone asks for both rights and a third one, over a root with two children. -/
def grantsWalk (initialState : AccessDecisionState) : DaclStateInput :=
  { deniedWalk initialState with
    sd := grantsSd, normalized := ⟨7#32, 7#32, false⟩, objectTree := some tree }

/-- A state in which the third right is granted. -/
def thirdGranted : AccessDecisionState := { decided := 4#32, granted := 4#32 }

/-- A state that marks the third right as granted without deciding it. -/
def thirdMarked : AccessDecisionState := { decided := 0#32, granted := 4#32 }

end Sample

end Pkm.Kacs
