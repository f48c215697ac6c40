import Pkm.Pnp.Helpers.Walk
/-!
# The rules that are executed

Read off the forest and the snapshot: the rules that trigger, and the rules that speak for
those that trigger without yielding a verdict. They are the ones in the ledger of the walk
(`mem_ledger_iff`).
-/

namespace Pkm.Pnp

open Rose

variable {forest : Forest} {l : Lineage RuleBody} {rule : RuleBody} {snap : Snapshot}

/-- A rule of the forest that matches, as do all rules above it, while none of its exceptions
matches. -/
structure Triggers (forest : Forest) (snap : Snapshot) (l : Lineage RuleBody) : Prop where
  isRule : l ≠ []
  rooted : Lineage.Rooted forest.roots l
  matched : ∀ x ∈ l, x.2.value.matches snap = true
  unshadowed : ∀ c ∈ Lineage.below forest.roots l, c.value.matches snap = false

/-- The nearest rule with a direct verdict above a rule that triggers and yields none. -/
structure SpeaksFor (forest : Forest) (snap : Snapshot) (l q : Lineage RuleBody) : Prop where
  triggers : Triggers forest snap l
  silent : ∀ x ∈ l.head?, x.2.value.verdicts = []
  above : ∃ between, l.tail = between ++ q ∧ ∀ x ∈ between, x.2.value.hasDirectVerdict = false
  direct : ∃ x ∈ q.head?, x.2.value.hasDirectVerdict = true

theorem triggered_iff : (delegation snap).Triggered forest.roots l ↔ Triggers forest snap l :=
  ⟨fun h => ⟨h.ne_nil, h.rooted, h.admitted, h.quiet⟩,
    fun h => ⟨h.isRule, h.rooted, h.matched, h.unshadowed⟩⟩

theorem yields_eq_none_iff : rule.yields = none ↔ rule.verdicts = [] := strictestOf_eq_none_iff

theorem answers_eq_false_iff : (delegation snap).answers rule = false ↔ rule.verdicts = [] := by
  rw [← yields_eq_none_iff]
  exact Option.isSome_eq_false_iff.trans Option.isNone_iff_eq_none

theorem speaksFor_iff {q : Lineage RuleBody} :
    (delegation snap).SpeaksFor forest.roots q ↔ ∃ l, SpeaksFor forest snap l q := by
  constructor
  · rintro ⟨x, above, htrig, hans, hspeaker⟩
    obtain ⟨between, y, rest, hsplit, rfl, hy, hbetween⟩ :=
      Delegation.speaker_eq_some_iff.mp hspeaker
    refine ⟨x :: above, triggered_iff.mp htrig, ?_, ⟨between, hsplit, hbetween⟩, y, rfl, hy⟩
    rintro z ⟨⟩
    exact answers_eq_false_iff.mp hans
  · rintro ⟨l, htrig, hsilent, ⟨between, hsplit, hbetween⟩, y, hy, hdirect⟩
    cases l with
    | nil => exact absurd rfl htrig.isRule
    | cons x above =>
      cases q with
      | nil => cases hy
      | cons z rest =>
        cases hy
        exact ⟨x, above, triggered_iff.mpr htrig, answers_eq_false_iff.mpr (hsilent x rfl),
          Delegation.speaker_eq_some_iff.mpr ⟨between, _, rest, hsplit, rfl, hdirect, hbetween⟩⟩

/-- The rules that are executed. -/
def Executed (forest : Forest) (snap : Snapshot) (l : Lineage RuleBody) : Prop :=
  Triggers forest snap l ∨ ∃ asking, SpeaksFor forest snap asking l

theorem Executed.ne_nil (h : Executed forest snap l) : l ≠ [] := by
  obtain h | ⟨_, h⟩ := h
  · exact h.isRule
  · rintro rfl
    obtain ⟨x, hx, -⟩ := h.direct
    cases hx

/-- **The ledger holds the rules that are executed.** -/
theorem mem_ledger_iff : l ∈ (forest.ledger snap).ran ↔ Executed forest snap l := by
  rw [Forest.ledger, (Delegation.descendAll_ran forest.roots).mem_iff,
    Delegation.mem_runsAll_iff, triggered_iff, speaksFor_iff]
  rfl

/-- A rule that speaks stands above one that triggers. -/
theorem Executed.mem_members (h : Executed forest snap l) :
    ∀ x ∈ l, x.2.value ∈ membersAll forest.roots := by
  intro x hx
  have hrooted : ∃ m, Lineage.Rooted forest.roots m ∧ x ∈ m := by
    obtain h | ⟨asking, h⟩ := h
    · exact ⟨l, h.rooted, hx⟩
    · obtain ⟨between, hsplit, -⟩ := h.above
      refine ⟨asking, h.triggers.rooted, List.mem_of_mem_tail ?_⟩
      rw [hsplit]
      exact List.mem_append_right between hx
  obtain ⟨m, hm, hxm⟩ := hrooted
  exact hm.members_subset x hxm x.2.value_mem_members

theorem mem_candidates_iff {ctx : EvalContext} {c : VerdictCandidate} :
    c ∈ (evaluate forest snap ctx).candidates ↔
      ∃ l, Executed forest snap l ∧ candidateOf (Lineage.values l) = some c := by
  rw [evaluate_candidates, List.filterMap_map, List.mem_filterMap]
  simp only [mem_ledger_iff, Function.comp_apply]

end Pkm.Pnp
