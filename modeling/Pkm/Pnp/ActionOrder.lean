import Pkm.Pnp.Helpers.Executed
import Pkm.Pnp.Helpers.Ingested
import Pkm.Pnp.Order
/-!
# The order of the actions

In whichever order the actions of the rules are written, the same rules are executed with
the same effects, and each yields the strictest of its verdicts. Of two that are equally
strict it yields the first, and that is no conflict: conflicts are between rules. So the
verdicts are the same as long as no rule that is executed has two strictest ones.
-/

namespace Pkm.Pnp

open List Rose RuleBody

variable {rule : RuleBody} {forest : Forest} {roots : List Rule} {snap : Snapshot}

/-- A rule with its actions in an order that is not the one they are written in, but the same
for all of these. -/
noncomputable def RuleBody.unordered (rule : RuleBody) : RuleBody :=
  { rule with actions := (rule.actions : Multiset Action).toList }

/-- A rule has one strictest verdict at most. -/
def RuleBody.Settled (rule : RuleBody) : Prop :=
  ∀ v ∈ rule.verdicts, ∀ w ∈ rule.verdicts,
    (∀ u ∈ rule.verdicts, u.strictness ≤ v.strictness) →
      (∀ u ∈ rule.verdicts, u.strictness ≤ w.strictness) → v = w

theorem actions_unordered (rule : RuleBody) : rule.unordered.actions.Perm rule.actions :=
  Multiset.coe_eq_coe.mp (Multiset.coe_toList _)

theorem steps_unordered (rule : RuleBody) : rule.unordered.steps.Perm rule.steps :=
  (actions_unordered rule).flatMap_right _

theorem mem_verdicts_unordered {v : Verdict} : v ∈ rule.unordered.verdicts ↔ v ∈ rule.verdicts :=
  ((steps_unordered rule).filterMap _).mem_iff

theorem isSome_yields_unordered (rule : RuleBody) :
    rule.unordered.yields.isSome = rule.yields.isSome := by
  rw [Bool.eq_iff_iff]
  simp only [Option.isSome_iff_ne_none, ne_eq, yields_eq_none_iff,
    eq_nil_iff_forall_not_mem, mem_verdicts_unordered]

theorem settled_unordered : rule.unordered.Settled ↔ rule.Settled := by
  simp only [RuleBody.Settled, mem_verdicts_unordered]

/-- What a rule yields is as strict in any order, and the same if it has one strictest verdict. -/
theorem yields_unordered (rule : RuleBody) :
    rule.unordered.yields.map Verdict.strictness = rule.yields.map Verdict.strictness ∧
      (rule.unordered.Settled → rule.unordered.yields = rule.yields) := by
  have hsome := isSome_yields_unordered rule
  cases hv : rule.yields with
  | none =>
    have hnone : rule.unordered.yields = none := by simpa [hv] using hsome
    simp [hnone]
  | some v =>
    obtain ⟨w, hw⟩ := Option.isSome_iff_exists.mp (hsome.trans (by simp [hv]))
    obtain ⟨hmem, hmax⟩ := strictestOf_eq_some hv
    obtain ⟨hmem', hmax'⟩ := strictestOf_eq_some hw
    simp only [mem_verdicts_unordered] at hmem' hmax'
    rw [hw, settled_unordered]
    exact ⟨congrArg some (le_antisymm (hmax w hmem') (hmax' v hmem)),
      fun h => congrArg some (h w hmem' v hmem hmax' hmax)⟩

theorem alike_unordered (snap : Snapshot) :
    Delegation.Alike (delegation snap) (delegation snap) unordered :=
  ⟨fun _ => rfl, isSome_yields_unordered, fun rule => (actions_unordered rule).any_eq⟩

theorem effectsOf_unordered (ctx : EvalContext) (l : List RuleBody) :
    (effectsOf snap ctx l).Perm (effectsOf snap ctx (l.map unordered)) := by
  cases l with
  | nil => exact .nil
  | cons rule above =>
    have hpath := pathOf_map (f := unordered) (fun _ => rfl) (rule :: above)
    have hlevels : highestOf rule.unordered.levels = highestOf rule.levels := by
      refine Option.ext fun level => ?_
      rw [highestOf_eq_some_iff, highestOf_eq_some_iff]
      simp only [levels, ((steps_unordered rule).filterMap _).mem_iff]
    rw [map_cons] at hpath ⊢
    rw [effectsOf, effectsOf, hpath, hlevels]
    exact ((steps_unordered rule).filterMap _).symm.append_right _

/-- The rules that act, with those above them and without the order of their actions. -/
noncomputable def Forest.actors (forest : Forest) (snap : Snapshot) : List (List RuleBody) :=
  (forest.ledger snap).ran.map fun l => (Lineage.values l).map unordered

theorem effects_perm_actors (forest : Forest) (snap : Snapshot) (ctx : EvalContext) :
    (evaluate forest snap ctx).effects.Perm
      ((forest.actors snap).flatMap (effectsOf snap ctx)) := by
  rw [evaluate_effects, Forest.actors, flatMap_map, flatMap_map]
  exact List.Perm.flatMap_left _ fun l _ => effectsOf_unordered ctx _

theorem candidateOf_unordered (l : List RuleBody) :
    (candidateOf (l.map unordered)).map (·.rank) = (candidateOf l).map (·.rank) ∧
      ((∀ rule ∈ (l.map unordered).head?, rule.Settled) →
        candidateOf (l.map unordered) = candidateOf l) := by
  cases l with
  | nil => exact ⟨rfl, fun _ => rfl⟩
  | cons rule above =>
    obtain ⟨hstrict, hsame⟩ := yields_unordered rule
    have hpath := pathOf_map (f := unordered) (fun _ => rfl) (rule :: above)
    rw [map_cons] at hpath ⊢
    rw [candidateOf, candidateOf, hpath]
    constructor
    · have hrank := congrArg (Option.map fun s => toLex (rule.priority, s)) hstrict
      rw [Option.map_map, Option.map_map] at hrank ⊢
      exact hrank
    · intro h
      rw [hsame (h _ rfl)]
      rfl

theorem candidates_eq_actors (ctx : EvalContext)
    (h : ∀ l ∈ forest.actors snap, ∀ rule ∈ l.head?, rule.Settled) :
    (evaluate forest snap ctx).candidates = (forest.actors snap).filterMap candidateOf := by
  rw [evaluate_candidates, Forest.actors, filterMap_map, filterMap_map]
  exact filterMap_congr fun l hl => ((candidateOf_unordered _).2 (h _ (mem_map_of_mem hl))).symm

theorem settled_actor {l : Lineage RuleBody} (h : ∀ x ∈ l.head?, x.2.value.Settled) :
    ∀ rule ∈ ((Lineage.values l).map unordered).head?, rule.Settled := by
  cases l with
  | nil => exact fun _ hrule => absurd hrule (Option.not_mem_none _)
  | cons x above =>
    rintro rule ⟨⟩
    exact settled_unordered.mpr (h x rfl)

/-- The rules whose candidates no other outranks have one strictest verdict each. -/
def LeadersSettled (forest : Forest) (snap : Snapshot) (ctx : EvalContext) : Prop :=
  ∀ l, Executed forest snap l → ∀ c, candidateOf (Lineage.values l) = some c →
    Leads (evaluate forest snap ctx).candidates c → ∀ x ∈ l.head?, x.2.value.Settled

/-- The rule of a candidate has one of the same rank in the other order, and the same one if it has
one strictest verdict. -/
theorem exists_candidateOf {forest' : Forest} (hactors : forest'.actors snap = forest.actors snap)
    {ctx : EvalContext} {c : VerdictCandidate} (hc : c ∈ (evaluate forest snap ctx).candidates) :
    ∃ l, Executed forest' snap l ∧ ∃ d, candidateOf (Lineage.values l) = some d ∧
      d ∈ (evaluate forest' snap ctx).candidates ∧ d.rank = c.rank ∧
        ((∀ x ∈ l.head?, x.2.value.Settled) → d = c) := by
  obtain ⟨l', hl', hc⟩ := mem_candidates_iff.mp hc
  have hmem : (Lineage.values l').map unordered ∈ forest.actors snap :=
    mem_map_of_mem (mem_ledger_iff.mpr hl')
  obtain ⟨l, hl, halike⟩ := mem_map.mp (hactors ▸ hmem)
  obtain ⟨hranks, hsame⟩ := candidateOf_unordered (Lineage.values l)
  obtain ⟨hranks', hsame'⟩ := candidateOf_unordered (Lineage.values l')
  rw [halike] at hranks hsame
  obtain ⟨d, hd, hrank⟩ := Option.map_eq_some_iff.mp
    (hranks.symm.trans (hranks'.trans (congrArg _ hc)))
  have hl := mem_ledger_iff.mp hl
  refine ⟨l, hl, d, hd, mem_candidates_iff.mpr ⟨l, hl, hd⟩, hrank, fun h => ?_⟩
  have hsettled := halike ▸ settled_actor h
  exact Option.some.inj (hd.symm.trans ((hsame hsettled).symm.trans ((hsame' hsettled).trans hc)))

/-- **The order of the actions carries no meaning**, except between the strictest verdicts of one
rule. The effects are the same, if not in the same order. If no rule that is executed has two
strictest verdicts, then all that is said of the verdict is the same too. Without a conflict only
the rules in the lead count: the ranks do not depend on the order, so the winner leads in both. -/
theorem evaluate_actions_reordered
    (h : mapAll unordered roots = mapAll unordered forest.roots)
    (snap : Snapshot) (ctx : EvalContext) :
    (evaluate forest snap ctx).effects.Perm (evaluate { forest with roots } snap ctx).effects ∧
      ((∀ l, Executed forest snap l → ∀ x ∈ l.head?, x.2.value.Settled) →
        SameVerdict (evaluate forest snap ctx) (evaluate { forest with roots } snap ctx)) ∧
      ((evaluate forest snap ctx).conflict = false → LeadersSettled forest snap ctx →
        (evaluate { forest with roots } snap ctx).verdict = (evaluate forest snap ctx).verdict) := by
  have hactors : Forest.actors { forest with roots } snap = forest.actors snap :=
    map_ran_eq (alike_unordered snap) h
  refine ⟨?_, fun hsettled => collate_sameVerdict forest.layer ?_, fun hno hleaders => ?_⟩
  · have heffects := effects_perm_actors { forest with roots } snap ctx
    rw [hactors] at heffects
    exact (effects_perm_actors forest snap ctx).trans heffects.symm
  · have hall : ∀ l ∈ forest.actors snap, ∀ rule ∈ l.head?, rule.Settled := by
      intro l hl
      obtain ⟨l, hran, rfl⟩ := mem_map.mp hl
      exact settled_actor (hsettled l (mem_ledger_iff.mp hran))
    exact (candidates_eq_actors ctx hall).trans
      (hactors ▸ candidates_eq_actors ctx (hactors ▸ hall)).symm
  · by_cases hnil : (evaluate { forest with roots } snap ctx).candidates = []
    · have hnone : (evaluate forest snap ctx).candidates = [] := by
        refine eq_nil_iff_forall_not_mem.mpr fun c hc => ?_
        obtain ⟨-, -, d, -, hd, -⟩ := exists_candidateOf hactors hc
        exact not_mem_nil (hnil ▸ hd)
      exact (collate_of_nil _ hnil).1.trans (collate_of_nil _ hnone).1.symm
    obtain ⟨top, he⟩ := exists_elects forest.layer hnil
    -- the rule that wins was in the lead before, with the same candidate
    obtain ⟨l, hl, d, hd, hmem, hrank, hsame⟩ := exists_candidateOf hactors.symm he.leads.mem
    have hleads : Leads (evaluate forest snap ctx).candidates d := by
      refine ⟨hmem, fun c hc => ?_⟩
      obtain ⟨-, -, d', -, hd', hrank', -⟩ := exists_candidateOf hactors hc
      rw [hrank, ← hrank']
      exact he.leads.max d' hd'
    obtain rfl := hsame (hleaders l hl d hd hleads)
    exact he.verdict.trans (verdict_of_leads hno hleads)

/-! ## Actions read backwards -/

def RuleBody.reversed (rule : RuleBody) : RuleBody := { rule with actions := rule.actions.reverse }

theorem unordered_reversed (rule : RuleBody) : rule.reversed.unordered = rule.unordered := by
  simp [unordered, reversed]

mutual

theorem map_unordered_reversed :
    ∀ t : Rule, (t.map reversed).map unordered = t.map unordered
  | .node rule cs => by rw [Rose.map, Rose.map, Rose.map, unordered_reversed,
      mapAll_unordered_reversed cs]

theorem mapAll_unordered_reversed : ∀ roots : List Rule,
    mapAll unordered (mapAll reversed roots) = mapAll unordered roots
  | [] => rfl
  | t :: roots => by rw [mapAll, mapAll, mapAll, map_unordered_reversed t,
      mapAll_unordered_reversed roots]

end

/-- A rule that yields its stricter verdict in either order. -/
def dropAndPass : Forest :=
  plainForest [.node ⟨"a".toList, [], 0, true, [.verdict .drop, .verdict .pass]⟩ []]

theorem dropAndPass_reordered : SameVerdict (evaluate dropAndPass {} ⟨1⟩)
    (evaluate { dropAndPass with roots := mapAll reversed dropAndPass.roots } {} ⟨1⟩) := by
  refine (evaluate_actions_reordered (mapAll_unordered_reversed _) {} ⟨1⟩).2.1 fun l hl x hx => ?_
  have hmem := hl.mem_members x (mem_of_mem_head? hx)
  rw [mem_singleton.mp hmem]
  unfold RuleBody.Settled
  decide

/-- A key whose rule joins one network and another. -/
def twoJoins : List RuleInput :=
  [.node ⟨"uplink".toList, [("Actions".toList,
    .list [.str "JOIN(home)".toList, .str "JOIN(work)".toList])]⟩ []]

/-- The first network counts, and no conflict is reported. -/
theorem twoJoins_order_matters : ∃ out roots,
    @buildForest PatternText.bare .interface twoJoins = .ok out ∧
      mapAll unordered roots = mapAll unordered out.forest.roots ∧
      (evaluate out.forest {} ⟨1⟩).conflict = false ∧
      (evaluate { out.forest with roots } {} ⟨1⟩).conflict = false ∧
      (evaluate out.forest {} ⟨1⟩).verdict = .join 0 ∧
      (evaluate { out.forest with roots } {} ⟨1⟩).verdict = .join 1 := by
  obtain ⟨out, hbuild, heval⟩ := Outcome.exists_of_map (c := (false, false, .join 0, .join 1))
    (x := @buildForest PatternText.bare .interface twoJoins) (f := fun out =>
      let e := evaluate out.forest {} ⟨1⟩
      let e' := evaluate { out.forest with roots := mapAll reversed out.forest.roots } {} ⟨1⟩
      (e.conflict, e'.conflict, e.verdict, e'.verdict)) (by decide +kernel)
  simp only [Prod.mk.injEq] at heval
  exact ⟨out, _, hbuild, mapAll_unordered_reversed _, heval⟩

end Pkm.Pnp
