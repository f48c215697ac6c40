import Pkm.Lcs.Model.Resolution
/-!
# Errors of a lookup

The checks on names, layers and payloads raise no error that tells a sequence
number; those on an entry do for a number of the future. A tie is raised only
where candidates are compared.
-/

namespace Pkm.Lcs

/-- The error of a shared greatest tuple. -/
def LcsError.IsTie (e : LcsError) : Prop := ∃ p s, e = .duplicateWinningSequenceTie p s

/-- An error that tells a sequence number. -/
def LcsError.IsNumbered (e : LcsError) : Prop := e.IsTie ∨ ∃ s n, e = .futureSequence s n

attribute [local simp] LcsError.IsTie LcsError.IsNumbered

open LcsError Outcome

variable {limits : LcsLimits} {context : LayerResolutionContext} (name : Name) (field : String)

theorem validateLcsStr_avoids_numbered : Avoids IsNumbered (validateLcsStr name field) :=
  .ite (by simp) (avoids_ok _)

theorem validateComponentLen_avoids_numbered (len : ℕ) :
    Avoids IsNumbered (validateComponentLen field len limits) :=
  .ite (by simp) (avoids_ok _)

theorem validateKeyLikeName_avoids_numbered :
    Avoids IsNumbered (validateKeyLikeName name field limits) :=
  (validateLcsStr_avoids_numbered _ _).bind fun _ =>
    .ite (by simp) <|
      (validateComponentLen_avoids_numbered _ _).bind fun _ =>
        .ite (by simp) (avoids_ok _)

theorem validateValueNameBytes_avoids_numbered :
    Avoids IsNumbered (validateValueNameBytes name limits) :=
  (validateLcsStr_avoids_numbered _ _).bind fun _ =>
    (validateComponentLen_avoids_numbered _ _).bind fun _ => avoids_ok _

theorem nameSeenBefore_avoids_numbered {validate : Name → LcsLimits → LcsResult Name}
    (hv : ∀ name, Avoids IsNumbered (validate name limits)) (previous : List Name)
    (name : Name) : Avoids IsNumbered (nameSeenBefore validate limits previous name) :=
  Scan.anyM_avoids fun n => (hv n).bind fun _ => avoids_ok _

theorem validateLayerResolutionContext_avoids_numbered :
    Avoids IsNumbered (validateLayerResolutionContext context) := by
  have hseen : ∀ previous name, Avoids IsNumbered
      (nameSeenBefore validateLayerNameBytes context.limits previous name) :=
    nameSeenBefore_avoids_numbered fun name => validateKeyLikeName_avoids_numbered name _
  refine Avoids.bind (.ite (by simp) ?_) fun _ =>
    .ite (by simp) ?_
  · refine (Scan.foldAfter_avoids fun previous found layer => ?_).bind fun _ =>
      .ite (by simp) (avoids_ok _)
    refine (validateKeyLikeName_avoids_numbered _ _).bind fun _ => (hseen _ _).bind fun _ =>
      .ite (by simp) <| .ite (.ite (by simp) (avoids_ok _)) (avoids_ok _)
  · refine Scan.foldAfter_avoids fun previous _ name => ?_
    exact (validateKeyLikeName_avoids_numbered _ _).bind fun _ => (hseen _ _).bind fun _ =>
      .ite (by simp) (avoids_ok _)

theorem activeLayerForSourceEntry_avoids_numbered :
    Avoids IsNumbered (activeLayerForSourceEntry context name) := by
  refine (validateKeyLikeName_avoids_numbered _ _).bind fun _ => Avoids.bind ?_ fun matched => ?_
  · refine Scan.foldlM_avoids (fun matched layer => ?_) _
    exact (validateKeyLikeName_avoids_numbered _ _).bind fun _ =>
      .ite (.ite (by simp) (avoids_ok _)) (avoids_ok _)
  · rcases matched with _ | layer
    · exact avoids_ok _
    · refine .ite (avoids_ok _) (Avoids.bind (Scan.anyM_avoids fun p => ?_) fun _ =>
        .ite (avoids_ok _) (avoids_ok _))
      exact (validateKeyLikeName_avoids_numbered _ _).bind fun _ => avoids_ok _

theorem validatePathTarget_avoids_numbered (target : PathTarget) :
    Avoids IsNumbered (validatePathTarget target) := by
  rcases target with guid | _
  · exact .ite (by simp) (avoids_ok _)
  · exact avoids_ok _

theorem validateSourceValuePayload_avoids_numbered (entry : ValueEntry) :
    Avoids IsNumbered (validateSourceValuePayload entry) := by
  refine Avoids.bind (.ite ?_ ?_) fun t => ?_
  · exact .ite (by simp) (.ite (by simp) (avoids_ok _))
  · split
    · exact avoids_ok _
    · simp
  · cases t <;> exact avoids_ok _

theorem candidateFrom_avoids_tie {π α : Type} {payload : LcsResult π}
    (hp : Avoids IsTie payload) (layer : Name) (sequence : ℕ)
    (build : ActiveLayer → π → α) :
    Avoids IsTie (candidateFrom context layer sequence payload build) := by
  refine ((activeLayerForSourceEntry_avoids_numbered _).mono fun _ => .inl).bind fun active => ?_
  rcases active with _ | active
  · exact avoids_ok _
  · exact Avoids.bind (.ite (by simp) (avoids_ok _)) fun _ =>
      hp.bind fun _ => avoids_ok _

theorem prevalidate_avoids_tie {ι α : Type} {candidate : ι → LcsResult (Option α)}
    (h : ∀ e, Avoids IsTie (candidate e)) (entries : List ι) :
    Avoids IsTie (prevalidate candidate entries) :=
  Scan.foldlM_avoids (fun _ e => (h e).bind fun _ => avoids_ok _) _

theorem prevalidateSubkey_avoids_tie (entries : List NamedPathEntry) :
    Avoids IsTie (prevalidateSubkeyEnumerationSource context entries) :=
  prevalidate_avoids_tie
    (fun _ => ((validateKeyLikeName_avoids_numbered _ _).mono fun _ => .inl).bind fun _ =>
      candidateFrom_avoids_tie ((validatePathTarget_avoids_numbered _).mono fun _ => .inl) _ _ _) _

theorem prevalidateValue_avoids_tie (entries : List NamedValueEntry)
    (blankets : List BlanketTombstoneEntry) :
    Avoids IsTie (prevalidateValueEnumerationSource context entries blankets) :=
  (prevalidate_avoids_tie
    (fun _ => ((validateValueNameBytes_avoids_numbered _).mono fun _ => .inl).bind fun _ =>
      candidateFrom_avoids_tie ((validateSourceValuePayload_avoids_numbered _).mono fun _ => .inl)
        _ _ _) _).bind fun _ =>
      prevalidate_avoids_tie (fun _ => candidateFrom_avoids_tie (avoids_ok _) _ _ _) _

end Pkm.Lcs
