import Pkm.Pnp.Model.Eval
/-!
# What the actions of a rule come to

The actions of a rule, with the fallbacks of its prompts in their places, are one list of
steps (`RuleBody.steps`). Executing the rule collects the effects of the steps in order,
the strictest of their verdicts and the highest of their report levels
(`resolveRule_eq`). Which verdict it yields depends on the rule alone.
-/

namespace Pkm.Pnp

open List

/-! ## Steps -/

/-- An action and the fallbacks that are applied after it, at a depth of prompts around it. -/
def Action.chain : ℕ → Action → List Action
  | depth, .prompt handler (some inner) =>
    .prompt handler (some inner) ::
      if depth < maxPromptChain then Action.chain (depth + 1) inner else []
  | _, action => [action]

variable (path : Text) (snap : Snapshot)

/-- The effect of a single step. -/
def Action.effect? : Action → Option Effect
  | .tag name op => some (.tag name (nameHash name) op)
  | .count name amount => some (.count name (nameHash name) (amount.resolve snap))
  | .prompt handler _ => some (.promptIssued path handler)
  | _ => none

def Action.verdict? : Action → Option Verdict
  | .verdict v => some v
  | _ => none

def Action.level? : Action → Option ℕ
  | .report level => some level
  | _ => none

/-- The strictest of some verdicts; of equally strict ones the first. -/
def strictestOf (vs : List Verdict) : Option Verdict := vs.foldl overVerdict none

/-- The highest of some levels. -/
def highestOf (levels : List ℕ) : Option ℕ := levels.foldl overLevel none

namespace RuleBody

variable (rule : RuleBody)

def steps : List Action := rule.actions.flatMap (Action.chain 0)

/-- All verdicts among the steps of a rule. -/
def verdicts : List Verdict := rule.steps.filterMap Action.verdict?

/-- All report levels among the steps of a rule. -/
def levels : List ℕ := rule.steps.filterMap Action.level?

/-- The verdict that a rule yields. -/
def yields : Option Verdict := strictestOf rule.verdicts

end RuleBody

/-- The report of a rule, if its highest level reaches the threshold. -/
def reportOf (ctx : EvalContext) (best : Option ℕ) : List Effect :=
  (best.filter (· ≥ ctx.reportingLevel)).toList.map (.report path)

/-! ## Executing the steps -/

/-- One step, without its fallback. -/
def resolveStep (r : Resolving) (action : Action) : Resolving :=
  match action with
  | .prompt handler _ => r.push (.promptIssued path handler)
  | other => resolveAction path snap 0 other r

theorem resolveAction_eq (action : Action) :
    ∀ depth r, resolveAction path snap depth action r =
      (action.chain depth).foldl (resolveStep path snap) r
  | depth, r => by
    match action with
    | .null | .join _ | .verdict _ | .tag _ _ | .count _ _ | .report _ => rfl
    | .prompt handler none => rfl
    | .prompt handler (some inner) =>
      rw [resolveAction, Action.chain, foldl_cons]
      split
      · exact resolveAction_eq inner (depth + 1) _
      · rfl

/-- What some steps add. -/
structure Resolving.Adds (path : Text) (snap : Snapshot) (steps : List Action)
    (r r' : Resolving) : Prop where
  effects : r'.effects = r.effects ++ steps.filterMap (Action.effect? path snap)
  verdict : r'.verdict = (steps.filterMap Action.verdict?).foldl overVerdict r.verdict
  bestReport : r'.bestReport = (steps.filterMap Action.level?).foldl overLevel r.bestReport

theorem Resolving.Adds.trans {path : Text} {snap : Snapshot} {steps steps' : List Action}
    {r r' r'' : Resolving} (h : Adds path snap steps r r') (h' : Adds path snap steps' r' r'') :
    Adds path snap (steps ++ steps') r r'' where
  effects := by rw [h'.effects, h.effects, filterMap_append, append_assoc]
  verdict := by rw [h'.verdict, h.verdict, filterMap_append, foldl_append]
  bestReport := by rw [h'.bestReport, h.bestReport, filterMap_append, foldl_append]

theorem resolveStep_adds (action : Action) (r : Resolving) :
    r.Adds path snap [action] (resolveStep path snap r action) := by
  cases action
  case tag | count | prompt => exact ⟨rfl, rfl, rfl⟩
  all_goals exact ⟨(append_nil _).symm, rfl, rfl⟩

theorem foldl_resolveStep_adds (steps : List Action) (r : Resolving) :
    r.Adds path snap steps (steps.foldl (resolveStep path snap) r) := by
  induction steps generalizing r with
  | nil => exact ⟨(append_nil _).symm, rfl, rfl⟩
  | cons action steps ih => exact (resolveStep_adds path snap action r).trans (ih _)

theorem foldl_resolveAction (actions : List Action) (r : Resolving) :
    actions.foldl (fun r action => resolveAction path snap 0 action r) r =
      (actions.flatMap (Action.chain 0)).foldl (resolveStep path snap) r := by
  induction actions generalizing r with
  | nil => rfl
  | cons action actions ih =>
    rw [foldl_cons, flatMap_cons, foldl_append, ih, resolveAction_eq]

/-- **What executing a rule comes to.** -/
theorem resolveRule_eq (rule : RuleBody) (path : Text) (snap : Snapshot) (ctx : EvalContext) :
    resolveRule rule path snap ctx =
      (rule.steps.filterMap (Action.effect? path snap) ++
        reportOf path ctx (highestOf rule.levels), rule.yields) := by
  have hadds := foldl_resolveStep_adds path snap rule.steps ⟨[], none, none⟩
  rw [RuleBody.steps, ← foldl_resolveAction, ← RuleBody.steps] at hadds
  unfold resolveRule
  generalize rule.actions.foldl (fun r action => resolveAction path snap 0 action r)
    ⟨[], none, none⟩ = r at hadds ⊢
  obtain ⟨effects, verdict, best⟩ := r
  obtain rfl : effects = [] ++ _ := hadds.effects
  obtain rfl : verdict = rule.yields := hadds.verdict
  obtain rfl : best = highestOf rule.levels := hadds.bestReport
  cases highestOf rule.levels with
  | none => simp [reportOf]
  | some level =>
    by_cases hlevel : level ≥ ctx.reportingLevel
    · simp [reportOf, hlevel, Option.filter]
    · simp [reportOf, hlevel, Option.filter]

/-! ## The strictest verdict -/

/-- A fold that keeps one of the two, and the higher, ends with the highest. -/
theorem foldl_pick {α : Type} {pick : Option α → α → Option α} {rank : α → ℕ}
    (hpick : ∀ a b, ∃ c, pick (some a) b = some c ∧ (c = a ∨ c = b) ∧ rank a ≤ rank c ∧
      rank b ≤ rank c) (a : α) (l : List α) :
    ∃ w, l.foldl pick (some a) = some w ∧ w ∈ a :: l ∧ ∀ u ∈ a :: l, rank u ≤ rank w := by
  induction l generalizing a with
  | nil => exact ⟨a, rfl, by simp, by simp⟩
  | cons b l ih =>
    obtain ⟨c, hc, hmem, ha, hb⟩ := hpick a b
    obtain ⟨w, hw, hin, hle⟩ := ih c
    obtain ⟨hcw, hle⟩ := forall_mem_cons.mp hle
    refine ⟨w, by rw [foldl_cons, hc, hw], ?_, forall_mem_cons.mpr
      ⟨Nat.le_trans ha hcw, forall_mem_cons.mpr ⟨Nat.le_trans hb hcw, hle⟩⟩⟩
    obtain rfl | hin := mem_cons.mp hin
    · simpa [or_assoc] using Or.inl hmem
    · simp [hin]

theorem exists_strictestOf (v : Verdict) (vs : List Verdict) :
    ∃ w, strictestOf (v :: vs) = some w ∧ w ∈ v :: vs ∧
      ∀ u ∈ v :: vs, u.strictness ≤ w.strictness := by
  refine foldl_pick (fun a b => ⟨a.strictest b, rfl, ?_⟩) v vs
  unfold Verdict.strictest
  split
  · exact ⟨.inr rfl, by omega, Nat.le_refl _⟩
  · exact ⟨.inl rfl, Nat.le_refl _, by omega⟩

variable {vs : List Verdict}

theorem strictestOf_eq_none_iff : strictestOf vs = none ↔ vs = [] := by
  cases vs with
  | nil => simp [strictestOf]
  | cons v vs =>
    obtain ⟨w, hw, -⟩ := exists_strictestOf v vs
    simp [hw]

/-- **The verdict of a rule** is one of those among its steps, and none of them is stricter. -/
theorem strictestOf_eq_some {w : Verdict} (h : strictestOf vs = some w) :
    w ∈ vs ∧ ∀ u ∈ vs, u.strictness ≤ w.strictness := by
  cases vs with
  | nil => cases h
  | cons v vs =>
    obtain ⟨_, hw, hspec⟩ := exists_strictestOf v vs
    cases hw.symm.trans h
    exact hspec

/-! ## The highest level -/

theorem exists_highestOf (level : ℕ) (levels : List ℕ) :
    ∃ best, highestOf (level :: levels) = some best ∧ best ∈ level :: levels ∧
      ∀ l ∈ level :: levels, l ≤ best := by
  refine foldl_pick (fun a b => ⟨if a ≥ b then a else b, rfl, ?_⟩) level levels
  split <;> omega

theorem highestOf_eq_some_iff {levels : List ℕ} {best : ℕ} :
    highestOf levels = some best ↔ best ∈ levels ∧ ∀ l ∈ levels, l ≤ best := by
  cases levels with
  | nil => simp [highestOf]
  | cons level levels =>
    obtain ⟨highest, hhighest, hmem, hmax⟩ := exists_highestOf level levels
    rw [hhighest, Option.some.injEq]
    constructor
    · rintro rfl
      exact ⟨hmem, hmax⟩
    · rintro ⟨hmem', hmax'⟩
      exact Nat.le_antisymm (hmax' _ hmem) (hmax _ hmem')

end Pkm.Pnp
