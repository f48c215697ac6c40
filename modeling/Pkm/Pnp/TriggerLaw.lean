import Pkm.Pnp.Helpers.Executed
/-!
# The trigger law

Which rules an evaluation executes, and what comes of it, stated on the forest alone. A
rule triggers if it and all rules above it match and none of its exceptions does. A rule
that triggers without yielding a verdict has the nearest rule above it that has a direct
verdict speak in its place. These rules are executed, each once.
-/

namespace Pkm.Pnp

open List Rose

variable {ctx : EvalContext} {best : Option ℕ} {path : Text}

/-! ## Reports -/

def Effect.isReport : Effect → Bool
  | .report _ _ => true
  | _ => false

variable {e : Effect}

theorem effect?_isReport {snap : Snapshot} {action : Action}
    (h : action.effect? path snap = some e) : e.isReport = false := by
  cases action with
  | tag | count | prompt =>
    cases h
    rfl
  | _ => cases h

theorem isReport_of_mem_reportOf (h : e ∈ reportOf path ctx best) : e.isReport = true := by
  obtain ⟨level, -, rfl⟩ := mem_map.mp h
  rfl

theorem report_mem_reportOf {p : Text} {level : ℕ} :
    Effect.report p level ∈ reportOf path ctx best ↔
      p = path ∧ best = some level ∧ level ≥ ctx.reportingLevel := by
  unfold reportOf
  rw [mem_map]
  constructor
  · rintro ⟨l, hl, heq⟩
    cases heq
    obtain ⟨hbest, hlevel⟩ := Option.filter_eq_some_iff.mp (Option.mem_toList.mp hl)
    exact ⟨rfl, hbest, of_decide_eq_true hlevel⟩
  · rintro ⟨rfl, hbest, hlevel⟩
    refine ⟨level, Option.mem_toList.mpr (Option.filter_eq_some_iff.mpr ⟨hbest, ?_⟩), rfl⟩
    exact decide_eq_true hlevel

theorem length_reportOf_le (path : Text) (ctx : EvalContext) (best : Option ℕ) :
    (reportOf path ctx best).length ≤ 1 := by
  unfold reportOf
  rw [length_map]
  exact Option.length_toList_le

/-- What a rule reports: the highest of its levels, if that reaches the threshold. -/
structure ReportsOnce (ctx : EvalContext) (rule : RuleBody) (path : Text)
    (effects : List Effect) : Prop where
  atMostOne : (effects.filter Effect.isReport).length ≤ 1
  highest : ∀ p level, Effect.report p level ∈ effects ↔
    p = path ∧ level ∈ rule.levels ∧ (∀ l ∈ rule.levels, l ≤ level) ∧ level ≥ ctx.reportingLevel

theorem effectsOf_reportsOnce (snap : Snapshot) (ctx : EvalContext) (rule : RuleBody)
    (above : List RuleBody) :
    ReportsOnce ctx rule (pathOf (rule :: above)) (effectsOf snap ctx (rule :: above)) := by
  have hsteps : ∀ e ∈ rule.steps.filterMap (Action.effect? (pathOf (rule :: above)) snap),
      e.isReport = false := by
    intro e he
    obtain ⟨action, -, haction⟩ := mem_filterMap.mp he
    exact effect?_isReport haction
  constructor
  · rw [effectsOf, filter_append, filter_eq_nil_iff.mpr fun e he => by simp [hsteps e he],
      filter_eq_self.mpr fun e he => isReport_of_mem_reportOf he]
    exact length_reportOf_le _ _ _
  · intro p level
    rw [effectsOf, mem_append]
    constructor
    · rintro (h | h)
      · exact absurd (hsteps _ h) (by simp [Effect.isReport])
      · obtain ⟨hp, hbest, hlevel⟩ := report_mem_reportOf.mp h
        obtain ⟨hmem, hmax⟩ := highestOf_eq_some_iff.mp hbest
        exact ⟨hp, hmem, hmax, hlevel⟩
    · rintro ⟨hp, hmem, hmax, hlevel⟩
      exact .inr (report_mem_reportOf.mpr ⟨hp, highestOf_eq_some_iff.mpr ⟨hmem, hmax⟩, hlevel⟩)

/-! ## The law -/

/-- **The trigger law**: what the evaluation of a snapshot does, given the rules that are
executed, in order. -/
structure TriggerLaw (forest : Forest) (snap : Snapshot) (ctx : EvalContext)
    (ran : List (Lineage RuleBody)) : Prop where
  executed : (forest.walked snap ctx).ran = ran.map standings
  exactly : ∀ l, l ∈ ran ↔ Triggers forest snap l ∨ ∃ asking, SpeaksFor forest snap asking l
  once : ran.Nodup
  /-- The effects of all of them, one rule after the other. -/
  effects : (evaluate forest snap ctx).effects =
    ran.flatMap fun l => effectsOf snap ctx (Lineage.values l)
  reports : ∀ l ∈ ran, ∀ rule above, Lineage.values l = rule :: above →
    ReportsOnce ctx rule (pathOf (rule :: above)) (effectsOf snap ctx (rule :: above))
  /-- The candidates are the verdicts of those that yield one. -/
  candidates : (evaluate forest snap ctx).candidates =
    ran.filterMap fun l => candidateOf (Lineage.values l)
  strictest : ∀ l ∈ ran, ∀ c, candidateOf (Lineage.values l) = some c →
    ∃ rule above, Lineage.values l = rule :: above ∧ c.verdict ∈ rule.verdicts ∧
      (∀ v ∈ rule.verdicts, v.strictness ≤ c.verdict.strictness) ∧
      c.priority = rule.priority ∧ c.rule = pathOf (rule :: above)
  backstop : (evaluate forest snap ctx).backstop = true ↔
    ∀ l ∈ ran, ∀ x ∈ l.head?, x.2.value.verdicts = []
  unanswered : (evaluate forest snap ctx).backstop = true →
    (evaluate forest snap ctx).verdict = forest.layer.backstop
  answered : (evaluate forest snap ctx).backstop = false →
    ∃ top, Leads (evaluate forest snap ctx).candidates top ∧
      (evaluate forest snap ctx).verdict = top.verdict ∧
      (evaluate forest snap ctx).attributedTo = top.rule

theorem candidateOf_eq_none_iff {x : ℕ × Rule} {above : Lineage RuleBody} :
    candidateOf (Lineage.values (x :: above)) = none ↔ x.2.value.verdicts = [] := by
  rw [← yields_eq_none_iff]
  exact Option.map_eq_none_iff

/-- **An evaluation implements the trigger law**, for every forest and snapshot. -/
theorem evaluate_triggerLaw (forest : Forest) (snap : Snapshot) (ctx : EvalContext) :
    ∃ ran, TriggerLaw forest snap ctx ran := by
  have hcands := evaluate_candidates snap ctx forest
  rw [filterMap_map] at hcands
  refine ⟨(forest.ledger snap).ran, ?_⟩
  constructor
  case executed => rw [walked_eq]; rfl
  case exactly => exact fun l => mem_ledger_iff
  case once => exact Delegation.descendAll_nodup forest.roots
  case effects =>
    rw [evaluate_effects, flatMap_map]
  case reports => exact fun l _ rule above _ => effectsOf_reportsOnce snap ctx rule above
  case candidates => exact hcands
  case strictest =>
    intro l hl c hc
    cases l with
    | nil => exact absurd rfl (mem_ledger_iff.mp hl).ne_nil
    | cons x above =>
      obtain ⟨verdict, hyields, rfl⟩ := Option.map_eq_some_iff.mp hc
      obtain ⟨hmem, hmax⟩ := strictestOf_eq_some hyields
      exact ⟨x.2.value, Lineage.values above, rfl, hmem, hmax, rfl, rfl⟩
  case backstop =>
    rw [evaluate, collate_backstop_iff, ← evaluate, hcands, filterMap_eq_nil_iff]
    refine forall₂_congr fun l hl => ?_
    cases l with
    | nil => exact absurd rfl (mem_ledger_iff.mp hl).ne_nil
    | cons x above =>
      rw [Function.comp_apply, candidateOf_eq_none_iff]
      exact ⟨fun h y hy => Option.some.inj hy ▸ h, fun h => h x rfl⟩
  case unanswered =>
    intro h
    exact (collate_of_nil _ (collate_backstop_iff.mp h)).1
  case answered =>
    intro h
    have hne : (evaluate forest snap ctx).candidates ≠ [] := by
      intro hnil
      have hback := (collate_of_nil forest.layer hnil).2.1
      exact Bool.false_ne_true (h.symm.trans hback)
    obtain ⟨top, htop⟩ := exists_elects forest.layer hne
    exact ⟨top, htop.leads, htop.verdict, htop.attributedTo⟩

end Pkm.Pnp
