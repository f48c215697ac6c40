import Pkm.Pnp.Helpers.Walk
/-!
# Order and priority

The order of the roots and of the exceptions of a rule carries no meaning: in another
order the same rules are executed, if not in the same order, and the same conditions are
consulted. Priorities decide between the candidates and do nothing else: the walk does
not look at them.
-/

namespace Pkm.Pnp

open List Rose RuleBody

variable {forest : Forest} {roots : List Rule}

/-! ## What does not depend on the order -/

/-- The moments are noted in any order. -/
instance : RightCommutative MatchTrace.note where
  right_comm trace a b := by
    simp only [note_eq]
    cases trace.expiresAt with
    | none => simp [min_comm]
    | some cur => simp [min_assoc, min_comm a b]

/-- Two evaluations that differ at most in the order of what they list. -/
structure SameUpToOrder (e e' : Evaluation) : Prop where
  backstop : e.backstop = e'.backstop
  conflict : e.conflict = e'.conflict
  expiresAt : e.expiresAt = e'.expiresAt
  effects : e.effects.Perm e'.effects
  candidates : e.candidates.Perm e'.candidates
  verdict : e.conflict = false → e.verdict = e'.verdict

theorem evaluate_shuffle (h : ShuffleAll forest.roots roots) (snap : Snapshot) (ctx : EvalContext) :
    SameUpToOrder (evaluate forest snap ctx) (evaluate { forest with roots } snap ctx) := by
  have hran : ((forest.ledger snap).ran.map Lineage.values).Perm
      ((Forest.ledger { forest with roots } snap).ran.map Lineage.values) :=
    (Delegation.map_values_ran forest.roots).trans
      ((Delegation.deedsAll_shuffle h []).trans (Delegation.map_values_ran roots).symm)
  have hcands : (evaluate forest snap ctx).candidates.Perm
      (evaluate { forest with roots } snap ctx).candidates := by
    rw [evaluate_candidates, evaluate_candidates]
    exact hran.filterMap candidateOf
  have hflips : (flipsOf snap (forest.consulted snap)).Perm
      (flipsOf snap (Forest.consulted { forest with roots } snap)) :=
    (Delegation.consultedAll_shuffle h).flatMap_right _
  obtain ⟨hback, hconf, hverdict⟩ := collate_perm forest.layer hcands
  refine ⟨hback, hconf, ?_, ?_, hcands, hverdict⟩
  · rw [evaluate_expiresAt, evaluate_expiresAt]
    exact congrArg MatchTrace.expiresAt (hflips.foldl_eq MatchTrace.empty)
  · rw [evaluate_effects, evaluate_effects]
    exact hran.flatMap_right _

/-! ## What does not depend on the priorities -/

/-- A rule without its priority. -/
def RuleBody.unranked (rule : RuleBody) : RuleBody := { rule with priority := 0 }

/-- Two evaluations that differ at most in priorities and in what is decided by them. -/
structure SameUpToPriority (e e' : Evaluation) : Prop where
  effects : e.effects = e'.effects
  expiresAt : e.expiresAt = e'.expiresAt
  candidates : e.candidates.map (fun c => (c.verdict, c.rule)) =
    e'.candidates.map fun c => (c.verdict, c.rule)

theorem alike_unranked (snap : Snapshot) :
    Delegation.Alike (delegation snap) (delegation snap) unranked :=
  ⟨fun _ => rfl, fun _ => rfl, fun _ => rfl⟩

variable {f : RuleBody → RuleBody}

theorem pathOf_map (hf : ∀ rule, (f rule).name = rule.name) (l : List RuleBody) :
    pathOf (l.map f) = pathOf l := by
  induction l with
  | nil => rfl
  | cons rule above ih => rw [map_cons, pathOf, pathOf, ih, hf]

theorem effectsOf_unranked (snap : Snapshot) (ctx : EvalContext) (l : List RuleBody) :
    effectsOf snap ctx (l.map unranked) = effectsOf snap ctx l := by
  cases l with
  | nil => rfl
  | cons rule above =>
    have hpath := pathOf_map (f := unranked) (fun _ => rfl) (rule :: above)
    rw [map_cons] at hpath ⊢
    rw [effectsOf, hpath]
    rfl

/-- What a candidate says, without its priority. -/
def spokenOf (l : List RuleBody) : Option (Verdict × Text) :=
  (candidateOf l).map fun c => (c.verdict, c.rule)

theorem spokenOf_unranked (l : List RuleBody) :
    spokenOf (l.map unranked) = spokenOf l := by
  cases l with
  | nil => rfl
  | cons rule above =>
    have hpath := pathOf_map (f := unranked) (fun _ => rfl) (rule :: above)
    rw [map_cons] at hpath ⊢
    rw [spokenOf, spokenOf, candidateOf, candidateOf, Option.map_map, Option.map_map, hpath]
    rfl

/-- The same rules act in forests that differ only in what `f` forgets. -/
theorem map_ran_eq {snap : Snapshot} (hf : Delegation.Alike (delegation snap) (delegation snap) f)
    (h : mapAll f roots = mapAll f forest.roots) :
    (Forest.ledger { forest with roots } snap).ran.map (fun l => (Lineage.values l).map f) =
      (forest.ledger snap).ran.map fun l => (Lineage.values l).map f := by
  have hroots := hf.descendAll_map roots
  rw [h, hf.descendAll_map forest.roots] at hroots
  have hran := congrArg (fun t : Ledger RuleBody => t.ran.map Lineage.values) hroots
  simp only [Ledger.map, map_map, Function.comp_def, Lineage.values_map] at hran
  exact hran.symm

/-- What depends on the rules that act without their priorities only. -/
theorem map_ran_congr {β : Type} {g : List RuleBody → β}
    (hg : ∀ l, g (l.map unranked) = g l) (snap : Snapshot)
    (h : mapAll unranked roots = mapAll unranked forest.roots) :
    (Forest.ledger { forest with roots } snap).ran.map (fun l => g (Lineage.values l)) =
      (forest.ledger snap).ran.map fun l => g (Lineage.values l) := by
  have hran := congrArg (List.map g) (map_ran_eq (alike_unranked snap) h)
  simpa only [map_map, Function.comp_def, hg] using hran

theorem evaluate_reprioritised
    (h : mapAll unranked roots = mapAll unranked forest.roots) (snap : Snapshot)
    (ctx : EvalContext) :
    SameUpToPriority (evaluate forest snap ctx) (evaluate { forest with roots } snap ctx) := by
  have hconsulted : (Forest.consulted { forest with roots } snap).map unranked =
      (forest.consulted snap).map unranked := by
    have hroots := (alike_unranked snap).consultedAll_map roots
    rw [h, (alike_unranked snap).consultedAll_map forest.roots] at hroots
    exact hroots.symm
  refine ⟨?_, ?_, ?_⟩
  · have heffects := map_ran_congr (effectsOf_unranked snap ctx) snap h
    rw [evaluate_effects, evaluate_effects, flatMap_map, flatMap_map]
    simpa only [flatMap_def] using congrArg List.flatten heffects.symm
  · have hflips := congrArg (fun rules => rules.flatMap (flips snap)) hconsulted
    simp only [flatMap_map] at hflips
    rw [evaluate_expiresAt, evaluate_expiresAt]
    exact congrArg (fun flips => (MatchTrace.empty.noteAll flips).expiresAt) hflips.symm
  · have hspoken := congrArg (List.filterMap id) (map_ran_congr spokenOf_unranked snap h)
    rw [filterMap_map, filterMap_map] at hspoken
    rw [evaluate_candidates, evaluate_candidates, map_filterMap, map_filterMap, filterMap_map,
      filterMap_map]
    exact hspoken.symm

/-! ## Neither carries a hidden meaning -/

/-- **Tree order and priority.** Reordering the roots and the exceptions of any rules changes
the order of what is listed only, and which of the conflicting verdicts is taken. Changing
the priorities of any rules changes the choice between the candidates only. -/
theorem evaluate_order_and_priority (forest : Forest) (snap : Snapshot) (ctx : EvalContext) :
    (∀ roots, ShuffleAll forest.roots roots →
      SameUpToOrder (evaluate forest snap ctx) (evaluate { forest with roots } snap ctx)) ∧
    (∀ roots, mapAll unranked roots = mapAll unranked forest.roots →
      SameUpToPriority (evaluate forest snap ctx) (evaluate { forest with roots } snap ctx)) :=
  ⟨fun _ h => evaluate_shuffle h snap ctx, fun _ h => evaluate_reprioritised h snap ctx⟩

/-- A rule without conditions that yields a verdict. -/
def plainRule (name : String) (priority : ℤ) (verdict : Verdict) (exceptions : List Rule) : Rule :=
  .node ⟨name.toList, [], priority, true, [.verdict verdict]⟩ exceptions

def plainForest (roots : List Rule) : Forest := ⟨⟨[], [], [], [], [], [], []⟩, .flow, roots⟩

/-- A rule with two exceptions beside another rule. -/
theorem plainForest_order_and_priority :
    let a := plainRule "a" 0 .drop []
    let b := plainRule "b" 0 .pass []
    let forest := plainForest [plainRule "r" 0 .pass [a, b], b]
    SameUpToOrder (evaluate forest {} ⟨1⟩)
      (evaluate (plainForest [b, plainRule "r" 0 .pass [b, a]]) {} ⟨1⟩) ∧
    SameUpToPriority (evaluate forest {} ⟨1⟩)
      (evaluate (plainForest [plainRule "r" 0 .pass [a, plainRule "b" 7 .pass []], b]) {} ⟨1⟩) := by
  intro a b forest
  have ha : Shuffle a a := .node _ .nil .nil
  have hb : Shuffle b b := .node _ .nil .nil
  have h := evaluate_order_and_priority forest {} ⟨1⟩
  have hr : Shuffle (plainRule "r" 0 .pass [a, b]) (plainRule "r" 0 .pass [b, a]) :=
    .node _ (.cons ha (.cons hb .nil)) (.swap ..)
  exact ⟨h.1 _ ⟨_, .cons hr (.cons hb .nil), .swap ..⟩, h.2 _ rfl⟩

end Pkm.Pnp
