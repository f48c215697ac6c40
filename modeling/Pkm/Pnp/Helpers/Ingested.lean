import Pkm.Lib.Scan
import Pkm.Pnp.Model.Ingest
/-!
# What ingestion guarantees

Every rule of a forest that is accepted has been looked at: its conditions are marked if
their key never exists at the layer, and its actions are ones that `placeAction` lets
through. `buildForest_ingested` says so for all rules of the forest.
-/

namespace Pkm.Pnp

open List Outcome Rose

/-- A notation of patterns without addresses and identifiers. -/
@[reducible]
def PatternText.bare : PatternText := ⟨fun _ => none, fun _ => none, fun _ => ⟨[]⟩, fun _ => none⟩

/-- A condition that the lint has passed. -/
structure Condition.Ingested (layer : Layer) (c : Condition) : Prop where
  never : c.never = neverAt layer c.key
  isFact : layer.isInterface = true → c.key.fact?.isSome = true

/-- An action in a form that its layer accepts. -/
def Action.Placed (layer : Layer) : Action → Prop
  | .null | .report _ => True
  | .verdict v => v.isInterface = layer.isInterface
  | .join _ => False
  | .prompt _ (some inner) => layer.isInterface = false ∧ inner.isInterfaceVerdict = false
  | .prompt _ none | .tag _ _ | .count _ _ => layer.isInterface = false

/-- A rule that ingestion has passed. -/
structure RuleBody.Ingested (layer : Layer) (rule : RuleBody) : Prop where
  conditions : ∀ c ∈ rule.conditions, c.Ingested layer
  actions : ∀ a ∈ rule.actions, a.Placed layer

/-- The values of a rule that have been read so far. -/
structure Draft.Ingested (layer : Layer) (draft : Draft) : Prop where
  conditions : ∀ c ∈ draft.conditions, c.Ingested layer
  timeConditions : ∀ c ∈ draft.timeConditions, c.Ingested layer
  actions : ∀ a ∈ draft.actions, a.Placed layer

variable {layer : Layer} {path : Text}

theorem placeAction_placed {action placed : Action} {collector collector' : Collector}
    (h : placeAction layer action path collector = .ok (placed, collector')) :
    placed.Placed layer := by
  unfold placeAction at h
  cases hlayer : layer.isInterface with
  | true =>
    rw [hlayer] at h
    cases action with
    | null | report =>
      cases h
      trivial
    | verdict v =>
      cases hv : v.isInterface with
      | true =>
        simp only [hv] at h
        cases h
        exact hv.trans hlayer.symm
      | false => simp [hv] at h
    | join profile =>
      cases h
      exact hlayer.symm
    | _ => cases h
  | false =>
    rw [hlayer] at h
    cases action with
    | null | report =>
      cases h
      trivial
    | tag | count =>
      cases h
      exact hlayer
    | verdict v =>
      cases hv : v.isInterface with
      | true => simp [hv] at h
      | false =>
        simp only [hv] at h
        cases h
        exact hv.trans hlayer.symm
    | join profile => cases h
    | prompt handler fallback =>
      cases fallback with
      | none =>
        cases h
        exact hlayer
      | some inner =>
        cases hinner : inner.isInterfaceVerdict with
        | true => simp [hinner] at h
        | false =>
          simp only [hinner] at h
          cases h
          exact ⟨hlayer, hinner⟩

theorem lintCondition_ingested {c : Condition} {key : Text} {never : Bool}
    {lints lints' : List LintWarning}
    (h : lintCondition layer c path key lints = .ok (never, lints')) :
    { c with never }.Ingested layer := by
  obtain ⟨hfact, h⟩ := of_guard h
  refine ⟨?_, fun hlayer => ?_⟩
  · cases hnever : neverAt layer c.key with
    | true =>
      rw [hnever] at h
      obtain ⟨-, h⟩ := of_guard h
      exact (Prod.mk.inj (Except.ok.inj h)).1.symm
    | false =>
      rw [hnever] at h
      exact (Prod.mk.inj (Except.ok.inj h)).1.symm
  · rw [hlayer] at hfact
    exact Option.isSome_iff_ne_none.mpr fun hnone => hfact (Option.isNone_iff_eq_none.mpr hnone)

theorem addAction_ingested {s s' : Draft × Building} {item : RegValue}
    (hs : s.1.Ingested layer) (h : addAction layer path s item = .ok s') :
    s'.1.Ingested layer := by
  unfold addAction at h
  split at h
  · cases h
  · obtain ⟨action, -, h⟩ := of_bind h
    obtain ⟨⟨placed, collector⟩, hplace, h⟩ := of_bind h
    cases h
    refine ⟨hs.conditions, hs.timeConditions, ?_⟩
    exact forall_mem_append.mpr ⟨hs.actions, forall_mem_singleton.mpr (placeAction_placed hplace)⟩

variable [PatternText] {building building' : Building} {s s' : Draft × Building}
  {inputs : List RuleInput} {parentPath : Text} {parentPriority : ℤ}

theorem addCondition_ingested {key : Text} {value : RegValue} (hs : s.1.Ingested layer)
    (h : addCondition layer path key s value = .ok s') : s'.1.Ingested layer := by
  obtain ⟨⟨condition, collector⟩, -, h⟩ := of_bind h
  obtain ⟨⟨never, lints⟩, hlint, h⟩ := of_bind h
  cases h
  have hc := lintCondition_ingested hlint
  split
  · exact ⟨hs.conditions, forall_mem_append.mpr
      ⟨hs.timeConditions, forall_mem_singleton.mpr hc⟩, hs.actions⟩
  · exact ⟨forall_mem_append.mpr ⟨hs.conditions, forall_mem_singleton.mpr hc⟩,
      hs.timeConditions, hs.actions⟩

/-- **Each value keeps the draft ingested.** -/
theorem addValue_ingested {entry : Text × RegValue} (hs : s.1.Ingested layer)
    (h : addValue layer path s entry = .ok s') : s'.1.Ingested layer := by
  unfold addValue at h
  split at h
  · unfold addPriority at h
    split at h
    · cases h
      exact ⟨hs.conditions, hs.timeConditions, hs.actions⟩
    · cases h
  split at h
  · unfold addEnabled at h
    split at h
    · cases h
      exact ⟨hs.conditions, hs.timeConditions, hs.actions⟩
    · cases h
      exact ⟨hs.conditions, hs.timeConditions, hs.actions⟩
    · cases h
  split at h
  · unfold addActions at h
    split at h
    · exact Scan.foldlM_inv (P := fun s : Draft × Building => s.1.Ingested layer)
        (fun s item s' hs h => addAction_ingested hs h) hs h
    · cases h
  · exact addCondition_ingested hs h

theorem buildNode_ingested {input : KeyInput} {body : RuleBody}
    (h : buildNode layer input path parentPriority building = .ok (body, building')) :
    body.Ingested layer := by
  obtain ⟨-, h⟩ := of_guard h
  obtain ⟨⟨draft, after⟩, hfold, h⟩ := of_bind h
  cases h
  have hdraft : draft.Ingested layer :=
    Scan.foldlM_inv (P := fun s : Draft × Building => s.1.Ingested layer)
      (fun s entry s' hs h => addValue_ingested hs h) ⟨by simp, by simp, by simp⟩ hfold
  exact ⟨forall_mem_append.mpr ⟨hdraft.conditions, hdraft.timeConditions⟩, hdraft.actions⟩

/-- The rules of some keys, given that those of each key are ingested. -/
theorem buildRules_ingested_of
    (hrule : ∀ input ∈ inputs, ∀ parentPath parentPriority building rule building',
      buildRule layer parentPath parentPriority input building = .ok (rule, building') →
      ∀ body ∈ rule.members, body.Ingested layer) {rules : List Rule}
    (h : buildRules layer parentPath parentPriority inputs building = .ok (rules, building')) :
    ∀ body ∈ membersAll rules, body.Ingested layer := by
  induction inputs generalizing building building' rules with
  | nil =>
    cases h
    simp [membersAll]
  | cons input inputs ih =>
    obtain ⟨⟨rule, mid⟩, hfirst, h⟩ := of_bind h
    obtain ⟨⟨rest, after⟩, hrest, h⟩ := of_bind h
    cases h
    exact forall_mem_append.mpr
      ⟨hrule input mem_cons_self _ _ _ _ _ hfirst, ih (forall_mem_cons.mp hrule).2 hrest⟩

theorem buildRule_ingested (input : RuleInput) {rule : Rule}
    (h : buildRule layer parentPath parentPriority input building = .ok (rule, building')) :
    ∀ body ∈ rule.members, body.Ingested layer := by
  induction input using Rose.induction generalizing parentPath parentPriority building rule
    building' with
  | node input children ih =>
    obtain ⟨⟨body, mid⟩, hnode, h⟩ := of_bind h
    obtain ⟨⟨rules, after⟩, hrules, h⟩ := of_bind h
    cases h
    refine forall_mem_cons.mpr ⟨buildNode_ingested hnode, ?_⟩
    exact buildRules_ingested_of (fun child hchild _ _ _ _ _ h => ih child hchild h) hrules

/-- **Every rule of an accepted forest is ingested**, at the layer of the forest. -/
theorem buildForest_ingested {out : BuildOutput} (h : buildForest layer inputs = .ok out) :
    out.forest.layer = layer ∧ ∀ body ∈ membersAll out.forest.roots, body.Ingested layer := by
  obtain ⟨⟨rules, building⟩, hrules, h⟩ := of_bind h
  obtain ⟨-, -, h⟩ := of_bind h
  obtain ⟨-, -, h⟩ := of_bind h
  cases h
  exact ⟨rfl, buildRules_ingested_of (fun input _ _ _ _ _ _ h => buildRule_ingested input h) hrules⟩

end Pkm.Pnp
