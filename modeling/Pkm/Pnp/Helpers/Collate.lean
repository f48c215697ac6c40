import Pkm.Pnp.Model.Eval
/-!
# The candidate that wins

Candidates are ranked by priority and then by strictness. The winner is one that no other
outranks; a conflict is a candidate of its rank with another verdict. Neither the conflict
nor, without one, the verdict depends on the order of the candidates.
-/

namespace Pkm.Pnp

open List

variable {cs : List VerdictCandidate} {c top top' : VerdictCandidate} {st st' : WalkState}

/-- Priority first, then strictness. -/
def VerdictCandidate.rank (c : VerdictCandidate) : ℤ ×ₗ ℕ :=
  toLex (c.priority, c.verdict.strictness)

theorem better_iff {cur : VerdictCandidate} : c.better cur = true ↔ cur.rank < c.rank := by
  unfold VerdictCandidate.better VerdictCandidate.rank
  rw [Prod.Lex.toLex_lt_toLex]
  simp only [Bool.or_eq_true, Bool.and_eq_true, decide_eq_true_eq, beq_iff_eq]
  exact or_congr_right (and_congr_left' eq_comm)

theorem rank_eq_iff {d : VerdictCandidate} : c.rank = d.rank ↔
    c.priority = d.priority ∧ c.verdict.strictness = d.verdict.strictness := by
  unfold VerdictCandidate.rank
  rw [toLex_inj, Prod.mk.injEq]

/-- No candidate outranks one of them. -/
structure Leads (cs : List VerdictCandidate) (top : VerdictCandidate) : Prop where
  mem : top ∈ cs
  max : ∀ c ∈ cs, c.rank ≤ top.rank

theorem Leads.rank_eq {cs' : List VerdictCandidate} (h : Leads cs top) (h' : Leads cs' top')
    (hperm : cs.Perm cs') : top.rank = top'.rank :=
  le_antisymm (h'.max top (hperm.mem_iff.mp h.mem)) (h.max top' (hperm.mem_iff.mpr h'.mem))

/-- The search, with a winner so far: it ends with that one or with one of the rest. -/
theorem winnerFrom_spec (cs : List VerdictCandidate) (i w₀ : ℕ) (c₀ : VerdictCandidate) :
    ∃ w top, winnerFrom i (some (w₀, c₀)) cs = some (w, top) ∧
      (w = w₀ ∧ top = c₀ ∨ ∃ j, w = i + j ∧ cs[j]? = some top) ∧
      c₀.rank ≤ top.rank ∧ ∀ c ∈ cs, c.rank ≤ top.rank := by
  induction cs generalizing i w₀ c₀ with
  | nil => exact ⟨w₀, c₀, rfl, .inl ⟨rfl, rfl⟩, le_rfl, by simp⟩
  | cons c cs ih =>
    by_cases hc : c.better c₀ = true
    · obtain ⟨w, top, heq, hwhere, hle, hall⟩ := ih (i + 1) i c
      refine ⟨w, top, ?_, .inr ?_, (better_iff.mp hc).le.trans hle, forall_mem_cons.mpr ⟨hle, hall⟩⟩
      · rw [winnerFrom]
        simp only [hc]
        exact heq
      · obtain ⟨rfl, rfl⟩ | ⟨j, rfl, hj⟩ := hwhere
        · exact ⟨0, rfl, rfl⟩
        · exact ⟨j + 1, by omega, hj⟩
    · obtain ⟨w, top, heq, hwhere, hle, hall⟩ := ih (i + 1) w₀ c₀
      have hc₀ : c.rank ≤ c₀.rank := not_lt.mp fun hlt => hc (better_iff.mpr hlt)
      refine ⟨w, top, ?_, ?_, hle, forall_mem_cons.mpr ⟨hc₀.trans hle, hall⟩⟩
      · rw [winnerFrom]
        simp only [hc]
        exact heq
      · obtain hfirst | ⟨j, rfl, hj⟩ := hwhere
        · exact .inl hfirst
        · exact .inr ⟨j + 1, by omega, hj⟩

theorem exists_winner (h : cs ≠ []) :
    ∃ w top, winnerFrom 0 none cs = some (w, top) ∧ cs[w]? = some top ∧ Leads cs top := by
  cases cs with
  | nil => exact absurd rfl h
  | cons c cs =>
    obtain ⟨w, top, heq, hwhere, hle, hall⟩ := winnerFrom_spec cs 1 0 c
    have hat : (c :: cs)[w]? = some top := by
      obtain ⟨rfl, rfl⟩ | ⟨j, rfl, hj⟩ := hwhere
      · rfl
      · rw [Nat.add_comm]
        exact hj
    exact ⟨w, top, heq, hat, mem_of_getElem? hat, forall_mem_cons.mpr ⟨hle, hall⟩⟩

/-- The winner is not in conflict with itself, so that its place need not be excepted. -/
theorem conflicts_iff {w : ℕ} (hw : cs[w]? = some top) : conflicts w top cs = true ↔
      ∃ c ∈ cs, c.rank = top.rank ∧ c.verdict ≠ top.verdict := by
  unfold conflicts
  rw [any_eq_true]
  simp only [Bool.and_eq_true, bne_iff_ne, beq_iff_eq, rank_eq_iff]
  constructor
  · rintro ⟨⟨c, i⟩, hmem, ⟨⟨-, hp⟩, hs⟩, hne⟩
    exact ⟨c, fst_mem_of_mem_zipIdx hmem, ⟨hp, hs⟩, hne⟩
  · rintro ⟨c, hmem, ⟨hp, hs⟩, hne⟩
    obtain ⟨i, hi⟩ := mem_iff_getElem?.mp hmem
    refine ⟨(c, i), mk_mem_zipIdx_iff_getElem?.mpr hi, ⟨⟨?_, hp⟩, hs⟩, hne⟩
    rintro rfl
    rw [hi] at hw
    exact hne (congrArg VerdictCandidate.verdict (Option.some.inj hw))

/-- What an evaluation says if there are candidates, with the one that wins. -/
structure Elects (e : Evaluation) (top : VerdictCandidate) : Prop where
  leads : Leads e.candidates top
  verdict : e.verdict = top.verdict
  attributedTo : e.attributedTo = top.rule
  backstop : e.backstop = false
  conflict : e.conflict = true ↔ ∃ c ∈ e.candidates, c.rank = top.rank ∧ c.verdict ≠ top.verdict

/-- Two winners with different verdicts are in conflict in either order. -/
theorem Elects.conflict_perm {e e' : Evaluation} (h : Elects e top) (h' : Elects e' top')
    (hperm : e.candidates.Perm e'.candidates) (hc : e.conflict = true) : e'.conflict = true := by
  have hrank := h.leads.rank_eq h'.leads hperm
  obtain ⟨c, hmem, hr, hne⟩ := h.conflict.mp hc
  rw [h'.conflict]
  by_cases htop : c.verdict = top'.verdict
  · exact ⟨top, hperm.mem_iff.mp h.leads.mem, hrank, fun heq => hne (htop.trans heq.symm)⟩
  · exact ⟨c, hperm.mem_iff.mp hmem, hr.trans hrank, htop⟩

variable (layer : Layer)

theorem collate_effects (st : WalkState) : (collate layer st).effects = st.effects := by
  unfold collate
  split <;> rfl

theorem collate_candidates (st : WalkState) : (collate layer st).candidates = st.candidates := by
  unfold collate
  split <;> rfl

theorem collate_expiresAt (st : WalkState) : (collate layer st).expiresAt = st.trace.expiresAt := by
  unfold collate
  split <;> rfl

/-- **With candidates** one of them wins. -/
theorem exists_elects (h : (collate layer st).candidates ≠ []) :
    ∃ top, Elects (collate layer st) top := by
  rw [collate_candidates] at h
  obtain ⟨w, top, heq, hat, hleads⟩ := exists_winner h
  refine ⟨top, ?_⟩
  unfold collate
  rw [heq]
  exact ⟨hleads, rfl, rfl, rfl, conflicts_iff hat⟩

/-- Without a conflict all candidates in the lead have the verdict of the winner. -/
theorem verdict_of_leads {layer : Layer} (hno : (collate layer st).conflict = false)
    (hc : Leads (collate layer st).candidates c) : c.verdict = (collate layer st).verdict := by
  obtain ⟨top, he⟩ := exists_elects layer (ne_nil_of_mem hc.mem)
  rw [he.verdict]
  by_contra hne
  exact Bool.false_ne_true (hno.symm.trans
    (he.conflict.mpr ⟨c, hc.mem, hc.rank_eq he.leads (.refl _), hne⟩))

/-- **Without candidates** the layer's backstop answers. -/
theorem collate_of_nil (h : (collate layer st).candidates = []) :
    (collate layer st).verdict = layer.backstop ∧ (collate layer st).backstop = true ∧
      (collate layer st).conflict = false := by
  rw [collate_candidates] at h
  unfold collate
  rw [h]
  exact ⟨rfl, rfl, rfl⟩

theorem collate_backstop_iff {layer : Layer} :
    (collate layer st).backstop = true ↔ (collate layer st).candidates = [] := by
  by_cases h : (collate layer st).candidates = []
  · exact ⟨fun _ => h, fun _ => (collate_of_nil layer h).2.1⟩
  · obtain ⟨top, htop⟩ := exists_elects layer h
    refine ⟨fun hback => absurd hback ?_, fun hnil => absurd hnil h⟩
    rw [htop.backstop]
    exact Bool.false_ne_true

/-- What two evaluations have in common that have the same candidates. -/
structure SameVerdict (e e' : Evaluation) : Prop where
  verdict : e.verdict = e'.verdict
  attributedTo : e.attributedTo = e'.attributedTo
  backstop : e.backstop = e'.backstop
  candidates : e.candidates = e'.candidates
  conflict : e.conflict = e'.conflict

theorem collate_sameVerdict (h : (collate layer st).candidates = (collate layer st').candidates) :
    SameVerdict (collate layer st) (collate layer st') := by
  rw [collate_candidates, collate_candidates] at h
  unfold collate
  rw [h]
  cases winnerFrom 0 none st'.candidates with
  | none => exact ⟨rfl, rfl, rfl, rfl, rfl⟩
  | some winner => exact ⟨rfl, rfl, rfl, rfl, rfl⟩

/-- **The order of the candidates does not matter**, except for which of the conflicting
verdicts is taken. -/
theorem collate_perm (hperm : (collate layer st).candidates.Perm (collate layer st').candidates) :
    (collate layer st).backstop = (collate layer st').backstop ∧
      (collate layer st).conflict = (collate layer st').conflict ∧
      ((collate layer st).conflict = false →
        (collate layer st).verdict = (collate layer st').verdict) := by
  by_cases h : (collate layer st).candidates = []
  · have h' : (collate layer st').candidates = [] := nil_perm.mp (h ▸ hperm)
    obtain ⟨hv, hb, hc⟩ := collate_of_nil layer h
    obtain ⟨hv', hb', hc'⟩ := collate_of_nil layer h'
    exact ⟨hb.trans hb'.symm, hc.trans hc'.symm, fun _ => hv.trans hv'.symm⟩
  · have h' : (collate layer st').candidates ≠ [] := fun hnil => h (perm_nil.mp (hnil ▸ hperm))
    obtain ⟨top, he⟩ := exists_elects layer h
    obtain ⟨top', he'⟩ := exists_elects layer h'
    have hconf : (collate layer st).conflict = true ↔ (collate layer st').conflict = true :=
      ⟨he.conflict_perm he' hperm, he'.conflict_perm he hperm.symm⟩
    refine ⟨he.backstop.trans he'.backstop.symm, Bool.eq_iff_iff.mpr hconf, fun hno => ?_⟩
    have hleads : Leads (collate layer st).candidates top' :=
      ⟨hperm.mem_iff.mpr he'.leads.mem, fun c hc => he'.leads.max c (hperm.mem_iff.mp hc)⟩
    exact (verdict_of_leads hno hleads).symm.trans he'.verdict.symm

end Pkm.Pnp
