import Pkm.Pnp.Helpers.Executed
import Pkm.Pnp.Helpers.Ingested
/-!
# The verdicts of a layer

The interface layer speaks JOIN, IGNORE and DOWN, the other layers PASS, REJECT and DROP.
Ingestion refuses an action of another layer, and a prompt whose fallback is one. It does
not look into the fallback of a fallback, while evaluation follows fallbacks to any depth
that can be written. So an evaluation keeps to the verdicts of its layer exactly as long as
no rule that is executed yields a verdict it has buried there (`evaluate_vocabulary_iff`).
-/

namespace Pkm.Pnp

open List Rose

variable {layer : Layer} {rule : RuleBody} {v : Verdict}

/-- A verdict of the layer. -/
def Layer.Speaks (layer : Layer) (v : Verdict) : Prop := v.isInterface = layer.isInterface

/-- An evaluation keeps to the verdicts of its layer, and outside of the interface layer
reports no conflict. -/
structure InVocabulary (layer : Layer) (e : Evaluation) : Prop where
  verdict : layer.Speaks e.verdict
  candidates : ∀ c ∈ e.candidates, layer.Speaks c.verdict
  conflict : layer ≠ .interface → e.conflict = false

/-- A verdict of the interface layer in the fallback of a prompt that is itself a fallback. -/
def RuleBody.Buries (rule : RuleBody) (v : Verdict) : Prop :=
  v.isInterface = true ∧ ∃ outer inner fallback,
    .prompt outer (some (.prompt inner (some fallback))) ∈ rule.actions ∧
      .verdict v ∈ fallback.chain 2

/-- No rule that is executed yields a verdict it has buried. -/
def NothingBuried (forest : Forest) (snap : Snapshot) : Prop :=
  ∀ l, Executed forest snap l → ∀ x ∈ l.head?, ∀ v, x.2.value.Buries v → x.2.value.yields ≠ some v

/-! ## Where a verdict stands -/

theorem mem_verdicts_iff :
    v ∈ rule.verdicts ↔ ∃ a ∈ rule.actions, Action.verdict v ∈ a.chain 0 := by
  unfold RuleBody.verdicts
  rw [mem_filterMap]
  constructor
  · rintro ⟨step, hstep, hv⟩
    obtain ⟨a, ha, hchain⟩ := mem_flatMap.mp hstep
    cases step with
    | verdict w =>
      cases hv
      exact ⟨a, ha, hchain⟩
    | _ => cases hv
  · rintro ⟨a, ha, hchain⟩
    exact ⟨.verdict v, mem_flatMap.mpr ⟨a, ha, hchain⟩, rfl⟩

/-- A verdict among the steps of an accepted action is one of the layer, unless it stands in
the fallback of a fallback. -/
theorem speaks_or_buried {a : Action} (hplaced : a.Placed layer) (hv : .verdict v ∈ a.chain 0) :
    layer.Speaks v ∨ layer.isInterface = false ∧
      ∃ outer inner fallback, a = .prompt outer (some (.prompt inner (some fallback))) ∧
        .verdict v ∈ fallback.chain 2 := by
  cases a with
  | verdict w =>
    obtain rfl := Action.verdict.inj (mem_singleton.mp hv)
    exact .inl hplaced
  | prompt outer fallback =>
    cases fallback with
    | none => exact absurd hv (by simp [Action.chain])
    | some b =>
      obtain ⟨hlayer, hb⟩ := hplaced
      have hv : .verdict v ∈ b.chain 1 := by simpa [Action.chain, maxPromptChain] using hv
      cases b with
      | verdict w =>
        obtain rfl := Action.verdict.inj (mem_singleton.mp hv)
        exact .inl (Eq.trans hb hlayer.symm)
      | prompt inner fallback =>
        cases fallback with
        | none => exact absurd hv (by simp [Action.chain])
        | some c =>
          have hv : .verdict v ∈ c.chain 2 := by simpa [Action.chain, maxPromptChain] using hv
          exact .inr ⟨hlayer, outer, inner, c, rfl, hv⟩
      | _ => exact absurd hv (by simp [Action.chain])
  | _ => exact absurd hv (by simp [Action.chain])

theorem speaks_of_yields (hrule : rule.Ingested layer) (hv : rule.yields = some v)
    (hburied : rule.Buries v → rule.yields ≠ some v) : layer.Speaks v := by
  obtain ⟨a, ha, hchain⟩ := mem_verdicts_iff.mp (strictestOf_eq_some hv).1
  obtain hspeaks | ⟨hlayer, outer, inner, fallback, rfl, hdeep⟩ :=
    speaks_or_buried (hrule.actions a ha) hchain
  · exact hspeaks
  · cases hinterface : v.isInterface with
    | false => exact hinterface.trans hlayer.symm
    | true => exact absurd hv (hburied ⟨hinterface, outer, inner, fallback, ha, hdeep⟩)

/-- The interface layer has no prompts. -/
theorem not_buries_of_interface (hrule : rule.Ingested layer) (hlayer : layer.isInterface = true) :
    ¬ rule.Buries v := by
  rintro ⟨-, outer, inner, fallback, ha, -⟩
  have hplaced := (hrule.actions _ ha).1
  rw [hlayer] at hplaced
  exact Bool.false_ne_true hplaced.symm

/-! ## The vocabulary of an evaluation -/

theorem backstop_speaks (layer : Layer) : layer.Speaks layer.backstop := by
  cases layer <;> rfl

/-- Outside of the interface layer the strictness tells verdicts apart. -/
theorem strictness_inj {w : Verdict} (hv : v.isInterface = false) (hw : w.isInterface = false)
    (h : v.strictness = w.strictness) : v = w := by
  cases v with
  | pass | drop =>
    cases w with
    | reject kind => cases kind <;> cases h
    | pass | drop => first | rfl | cases h
    | _ => cases hw
  | reject kind =>
    cases w with
    | reject kind' => cases kind <;> cases kind' <;> first | rfl | cases h
    | pass | drop => cases kind <;> cases h
    | _ => cases hw
  | _ => cases hv

/-- Candidates of the layer make an evaluation of the layer. -/
theorem inVocabulary_of_candidates {st : WalkState}
    (hcands : ∀ c ∈ (collate layer st).candidates, layer.Speaks c.verdict) :
    InVocabulary layer (collate layer st) := by
  by_cases hnil : (collate layer st).candidates = []
  · obtain ⟨hverdict, -, hconflict⟩ := collate_of_nil layer hnil
    exact ⟨hverdict ▸ backstop_speaks layer, hcands, fun _ => hconflict⟩
  · obtain ⟨top, htop⟩ := exists_elects layer hnil
    have hspeaks := hcands top htop.leads.mem
    refine ⟨htop.verdict ▸ hspeaks, hcands, fun hlayer => ?_⟩
    have hfalse : layer.isInterface = false := by
      cases layer <;> first | rfl | exact absurd rfl hlayer
    by_contra hconflict
    obtain ⟨c, hc, hrank, hne⟩ := htop.conflict.mp (Bool.eq_true_of_not_eq_false hconflict)
    exact hne (strictness_inj (Eq.trans (hcands c hc) hfalse) (Eq.trans hspeaks hfalse)
      (rank_eq_iff.mp hrank).2)

/-- **The vocabulary of a layer.** The evaluation of an accepted forest keeps to the verdicts of
its layer if and only if no rule that is executed yields a verdict it has buried. -/
theorem evaluate_vocabulary_iff [PatternText] {layer : Layer} {inputs : List RuleInput}
    {out : BuildOutput} (hbuild : buildForest layer inputs = .ok out) (snap : Snapshot)
    (ctx : EvalContext) :
    InVocabulary layer (evaluate out.forest snap ctx) ↔ NothingBuried out.forest snap := by
  obtain ⟨rfl, hrules⟩ := buildForest_ingested hbuild
  constructor
  · intro h l hl x hx v hburies hyields
    cases l with
    | nil => cases hx
    | cons y above =>
      cases hx
      have hrule := hrules _ (hl.mem_members _ mem_cons_self)
      have hcand : candidateOf (Lineage.values (_ :: above)) = some _ :=
        congrArg (Option.map _) hyields
      have hspeaks := h.candidates _ (mem_candidates_iff.mpr ⟨_, hl, hcand⟩)
      exact not_buries_of_interface hrule (hspeaks.symm.trans hburies.1) hburies
  · refine fun h => inVocabulary_of_candidates fun c hc => ?_
    obtain ⟨l, hl, hcand⟩ := mem_candidates_iff.mp hc
    cases l with
    | nil => exact absurd rfl hl.ne_nil
    | cons x above =>
      obtain ⟨v, hv, rfl⟩ := Option.map_eq_some_iff.mp hcand
      exact speaks_of_yields (hrules _ (hl.mem_members x mem_cons_self)) hv (h _ hl x rfl v)

/-! ## A buried verdict -/

def actionKey (name : String) (actions : List String) : RuleInput :=
  .node ⟨name.toList, [("Actions".toList, .list (actions.map (.str ·.toList)))]⟩ []

def buriedPrompt : String := "PROMPT(a, PROMPT(b, IGNORE))"

def buriedIgnore : List RuleInput :=
  [actionKey "ask" [buriedPrompt], actionKey "refuse" ["REJECT(PROHIBITED)"]]

/-- A rule that buries IGNORE, but yields DROP. -/
theorem overruledPrompt_vocabulary : ∃ out,
    @buildForest PatternText.bare .packet [actionKey "ask" [buriedPrompt, "DROP"]] = .ok out ∧
      (evaluate out.forest {} ⟨1⟩).verdict = .drop ∧
      (InVocabulary .packet (evaluate out.forest {} ⟨1⟩) ↔ NothingBuried out.forest {}) := by
  obtain ⟨out, hbuild, hdrop⟩ := Outcome.exists_of_map (c := Verdict.drop)
    (x := @buildForest PatternText.bare .packet [actionKey "ask" [buriedPrompt, "DROP"]])
    (f := fun out => (evaluate out.forest {} ⟨1⟩).verdict) (by decide +kernel)
  exact ⟨out, hbuild, hdrop, @evaluate_vocabulary_iff PatternText.bare _ _ _ hbuild {} ⟨1⟩⟩

/-- At the packet layer a forest is accepted that answers IGNORE and reports a conflict. -/
theorem buriedIgnore_not_inVocabulary : ∃ out,
    @buildForest PatternText.bare .packet buriedIgnore = .ok out ∧
      (evaluate out.forest {} ⟨1⟩).verdict = .ignore ∧
      (evaluate out.forest {} ⟨1⟩).conflict = true ∧
      ¬ InVocabulary .packet (evaluate out.forest {} ⟨1⟩) := by
  obtain ⟨out, hbuild, heval⟩ := Outcome.exists_of_map (c := (.ignore, true))
    (x := @buildForest PatternText.bare .packet buriedIgnore) (f := fun out =>
      ((evaluate out.forest {} ⟨1⟩).verdict, (evaluate out.forest {} ⟨1⟩).conflict))
    (by decide +kernel)
  obtain ⟨hverdict, hconflict⟩ := Prod.mk.inj heval
  refine ⟨out, hbuild, hverdict, hconflict, fun h => ?_⟩
  have hno := h.conflict (by decide)
  exact Bool.false_ne_true (hno.symm.trans hconflict)

end Pkm.Pnp
