import Pkm.Pnp.Helpers.Walk
/-!
# Until when an evaluation holds

An evaluation notes, for each condition that it consults, the next moment at which the
condition would answer otherwise, and reports the earliest of them. Up to that moment the
same conditions are consulted with the same answers (`evaluate_until_expiry`). The facts
of the clock either run through a cycle, of which the next one is searched, or do not
change before midnight.
-/

namespace Pkm.Pnp

open Condition List Rose TimeFacts

variable {c : Condition} {fact : FactId} {snap : Snapshot} {now now' v : ℤ}

/-! ## Cycles -/

section Cycles

variable {cycle : Cycle} {op : CondOp}

/-- The answer of an operator `k` values after the current one. -/
def Condition.Cycle.answer (cycle : Cycle) (op : CondOp) (k : ℕ) : Bool :=
  intOpMatches op ((cycle.current + k) % cycle.modulus + cycle.offset)

theorem Cycle.flip_eq_none (h : cycle.flip op = none) {k : ℕ} (hk : 1 ≤ k)
    (hle : k ≤ cycle.modulus) :
    cycle.answer op k = intOpMatches op (cycle.current + cycle.offset) := by
  have hall := find?_range'_eq_none.mp (Option.map_eq_none_iff.mp h) k hk (by omega)
  simpa [Cycle.answer] using hall

theorem Cycle.flip_eq_some {x : ℤ} (h : cycle.flip op = some x) :
    ∃ j : ℕ, x = cycle.base + j * cycle.step ∧ ∀ k : ℕ, 1 ≤ k → k < j →
      cycle.answer op k = intOpMatches op (cycle.current + cycle.offset) := by
  obtain ⟨j, hfind, rfl⟩ := Option.map_eq_some_iff.mp h
  obtain ⟨-, -, hbefore⟩ := find?_range'_eq_some.mp hfind
  refine ⟨j, rfl, fun k hk hlt => ?_⟩
  simpa [Cycle.answer] using hbefore k hk hlt

/-- Within the cycle after the current value every answer is met. -/
theorem Cycle.answer_eq_within (op : CondOp) (hmod : 0 < cycle.modulus) (k : ℕ) :
    ∃ r, 1 ≤ r ∧ r ≤ cycle.modulus ∧ cycle.answer op k = cycle.answer op r := by
  have hlt := Nat.mod_lt (k + cycle.modulus - 1) hmod
  have hdiv := Nat.div_add_mod (k + cycle.modulus - 1) cycle.modulus
  generalize (k + cycle.modulus - 1) % cycle.modulus = r at hlt hdiv
  generalize (k + cycle.modulus - 1) / cycle.modulus = q at hdiv
  refine ⟨r + 1, by omega, by omega, ?_⟩
  have hsum : cycle.current + k =
      cycle.current + (r + 1 : ℕ) + cycle.modulus * ((q : ℤ) - 1) := by
    rw [mul_sub]
    omega
  rw [Cycle.answer, Cycle.answer, hsum, Int.add_mul_emod_self_left]

/-- **A cycle does not flip before the moment it names.** -/
theorem Cycle.flip_sound (op : CondOp) (cycle : Cycle) (k : ℕ)
    (hmod : 0 < cycle.modulus) (hstep : 0 < cycle.step)
    (hcur : cycle.current % cycle.modulus = cycle.current)
    (hbefore : ∀ x, cycle.flip op = some x → cycle.base + k * cycle.step < x) :
    cycle.answer op k = intOpMatches op (cycle.current + cycle.offset) := by
  cases hflip : cycle.flip op with
  | none =>
    obtain ⟨r, hr, hle, heq⟩ := Cycle.answer_eq_within op hmod k
    rw [heq]
    exact Cycle.flip_eq_none hflip hr hle
  | some x =>
    obtain ⟨j, hx, hj⟩ := Cycle.flip_eq_some hflip
    have hlt := hbefore x hflip
    have hkj : (k : ℤ) < j := by
      by_contra hge
      have hmul := mul_le_mul_of_nonneg_right (not_lt.mp hge) hstep.le
      omega
    rcases Nat.eq_zero_or_pos k with rfl | hk
    · simp [Cycle.answer, hcur]
    · exact hj k hk (by omega)

end Cycles

/-! ## The facts of the clock -/

/-- A fact whose value goes up by one every `step` seconds, modulo `modulus`. -/
structure Cyclic (fact : FactId) (modulus : ℕ) (step phase offset : ℤ) : Prop where
  modulus_pos : 0 < modulus
  step_pos : 0 < step
  value : ∀ (snap : Snapshot) (t : ℤ),
    intFact fact (snap.atTime t) = some ((t / step + phase) % modulus + offset)
  cycle : ∀ t, cycleOf fact (ofSecs t) t =
    some ⟨(t / step + phase) % modulus, modulus, step, t - t % step, offset⟩

theorem cyclic_timeOfDay : Cyclic .timeSecond 60 1 0 0 ∧ Cyclic .timeMinute 60 60 0 0 ∧
    Cyclic .timeHour 24 3600 0 0 := by
  refine ⟨⟨by decide, by decide, ?_, ?_⟩, ⟨by decide, by decide, ?_, ?_⟩,
    ⟨by decide, by decide, ?_, ?_⟩⟩
  all_goals simp [intFact, Snapshot.atTime, cycleOf, ofSecs]

/-- The day of the week runs from 1 to 7, Monday being the fourth day before a day 0. -/
theorem dayOfWeek_ofSecs (t : ℤ) :
    (ofSecs t).dayOfWeek = (t / 86400 + 3) % 7 + 1 := by
  simp only [ofSecs]
  split <;> omega

theorem cyclic_dayOfWeek : Cyclic .timeDayOfWeek 7 86400 3 1 where
  modulus_pos := by decide
  step_pos := by decide
  value snap t := congrArg some (dayOfWeek_ofSecs t)
  cycle t := by
    simp only [cycleOf, dayOfWeek_ofSecs]
    simp

variable {op : CondOp}

/-- **A cyclic fact answers alike** until the moment its cycle names. -/
theorem Cyclic.compares_eq {modulus : ℕ} {step phase offset : ℤ}
    (h : Cyclic fact modulus step phase offset) (hle : now ≤ now')
    (hbefore : ∀ cycle, cycleOf fact (ofSecs now) now = some cycle →
      ∀ x, cycle.flip op = some x → now' < x) :
    intOpMatches op ((now' / step + phase) % modulus + offset) =
      intOpMatches op ((now / step + phase) % modulus + offset) := by
  have hstep := h.step_pos
  have hdiv : now / step ≤ now' / step := Int.ediv_le_ediv hstep hle
  obtain ⟨k, hk⟩ := Int.eq_ofNat_of_zero_le (Int.sub_nonneg_of_le hdiv)
  have hcur : (now / step + phase) % modulus % modulus = (now / step + phase) % modulus :=
    Int.emod_emod_of_dvd _ (dvd_refl _)
  have hsound := Cycle.flip_sound op
    ⟨(now / step + phase) % modulus, modulus, step, now - now % step, offset⟩ k
    h.modulus_pos hstep hcur ?_
  · rw [Cycle.answer] at hsound
    rw [← hsound, Int.emod_add_emod, show now / step + phase + k = now' / step + phase by omega]
  · intro x hx
    have hlt := hbefore _ (h.cycle now) x hx
    have hnow := Int.mul_ediv_add_emod now step
    have hnow' := Int.mul_ediv_add_emod now' step
    have hpos := Int.emod_nonneg now' hstep.ne'
    have hmul : (k : ℤ) * step = step * (now' / step) - step * (now / step) := by
      rw [← hk, mul_comm, mul_sub]
    show now - now % step + k * step < x
    omega

/-! ## Conditions -/

/-- What a condition over anything but the clock reads is the same at any time. -/
theorem intFact_atTime (h : fact.isLiveTime = false) (snap : Snapshot) (t : ℤ) :
    intFact fact (snap.atTime t) = intFact fact snap := by
  cases fact <;> first | rfl | cases h

theorem matches_atTime_of_not_live (h : c.isLiveTime = false) (snap : Snapshot) (t : ℤ) :
    c.matches (snap.atTime t) = c.matches snap := by
  obtain ⟨key, op, never⟩ := c
  cases key with
  | tag | counter => rfl
  | fact fact =>
    have hfact : fact.isLiveTime = false := h
    unfold Condition.matches present compares
    simp only [intFact_atTime hfact]
    rfl

theorem family_of_live (h : fact.isLiveTime = true) : fact.family = .int := by
  cases fact <;> first | rfl | cases h

/-- The value that a fact of the clock has at a moment. -/
theorem exists_intFact_of_live (h : fact.isLiveTime = true) (snap : Snapshot) (t : ℤ) :
    ∃ v, intFact fact (snap.atTime t) = some v := by
  cases fact <;> first | exact ⟨_, rfl⟩ | cases h

/-- **An operator over the clock answers alike** until the moment that is noted for it. -/
theorem intOp_until_flip (hlive : fact.isLiveTime = true) {v' : ℤ} (hle : now ≤ now')
    (hcycle : ∀ cycle, cycleOf fact (ofSecs now) now = some cycle →
      ∀ x, cycle.flip op = some x → now' < x)
    (hmidnight : cycleOf fact (ofSecs now) now = none →
      now' < now - now % 86400 + 86400) (hv : intFact fact (snap.atTime now) = some v)
    (hv' : intFact fact (snap.atTime now') = some v') : intOpMatches op v' = intOpMatches op v := by
  have hcyclic : ∀ {modulus : ℕ} {step phase offset : ℤ},
      Cyclic fact modulus step phase offset → intOpMatches op v' = intOpMatches op v := by
    intro modulus step phase offset h
    rw [h.value] at hv hv'
    rw [← Option.some.inj hv, ← Option.some.inj hv']
    exact h.compares_eq hle hcycle
  cases fact with
  | timeSecond => exact hcyclic cyclic_timeOfDay.1
  | timeMinute => exact hcyclic cyclic_timeOfDay.2.1
  | timeHour => exact hcyclic cyclic_timeOfDay.2.2
  | timeDayOfWeek => exact hcyclic cyclic_dayOfWeek
  | timeYear | timeMonth | timeDayOfMonth =>
    -- the date does not change before midnight
    have hlt := hmidnight rfl
    have hdays : now' / 86400 = now / 86400 := by omega
    rw [← Option.some.inj hv, ← Option.some.inj hv']
    simp only [ofSecs, hdays]
  | _ => cases hlive

section NotPresent

variable {c : Condition} (hop : ∀ want, c.op ≠ .present want)

include hop

theorem matches_of_not_present (snap : Snapshot) :
    c.matches snap = (!c.never && c.compares snap) := by
  obtain ⟨key, op, never⟩ := c
  cases never with
  | true => rfl
  | false =>
    cases op with
    | present want => exact absurd rfl (hop want)
    | _ => rfl

theorem nextFlip_of_live {fact : FactId} (hkey : c.key = .fact fact)
    (hlive : fact.isLiveTime = true) (snap : Snapshot) (t : ℤ) :
    c.nextFlip (snap.atTime t) =
      match cycleOf fact (ofSecs t) t with
      | some cycle => cycle.flip c.op
      | none => some (t - t % 86400 + 86400) := by
  obtain ⟨key, op, never⟩ := c
  obtain rfl : key = _ := hkey
  unfold nextFlip
  simp only [hlive]
  cases op with
  | _ => rfl

end NotPresent

theorem compares_of_int (hkey : c.key = .fact fact) (hfamily : fact.family = .int)
    (hv : intFact fact snap = some v) : c.compares snap = intOpMatches c.op v := by
  unfold compares
  rw [hkey]
  simp only [hfamily, hv]

/-- **A condition answers alike** until the moment that is noted for it. -/
theorem matches_until_flip (hle : now ≤ now')
    (hflip : ∀ x, c.nextFlip (snap.atTime now) = some x → now' < x) :
    c.matches (snap.atTime now') = c.matches (snap.atTime now) := by
  cases hlive : c.isLiveTime with
  | false => rw [matches_atTime_of_not_live hlive, matches_atTime_of_not_live hlive]
  | true =>
    obtain ⟨fact, hkey⟩ : ∃ fact, c.key = .fact fact := by
      unfold isLiveTime at hlive
      cases hk : c.key with
      | fact fact => exact ⟨fact, rfl⟩
      | _ => exact absurd hlive (by simp [hk])
    have hfact : fact.isLiveTime = true := by
      rwa [isLiveTime, hkey] at hlive
    obtain ⟨v, hv⟩ := exists_intFact_of_live hfact snap now
    obtain ⟨v', hv'⟩ := exists_intFact_of_live hfact snap now'
    have hfamily := family_of_live hfact
    by_cases hop : ∀ want, c.op ≠ .present want
    · rw [nextFlip_of_live hop hkey hfact] at hflip
      rw [matches_of_not_present hop, matches_of_not_present hop, compares_of_int hkey hfamily hv,
        compares_of_int hkey hfamily hv']
      refine congrArg _ (intOp_until_flip hfact hle (fun cycle hcycle x hx => hflip x ?_)
        (fun hnone => hflip _ ?_) hv hv')
      · rw [hcycle]
        exact hx
      · rw [hnone]
    · -- the clock is there at any time
      obtain ⟨want, hwant⟩ := not_forall_not.mp hop
      unfold Condition.matches present
      simp [hwant, hkey, hfamily, hv, hv']

/-! ## Rules -/

theorem all_congr_of_reached {snap' : Snapshot} {cs : List Condition}
    (h : ∀ c ∈ reached snap cs, c.matches snap' = c.matches snap) :
    (cs.all fun c => c.matches snap') = cs.all fun c => c.matches snap := by
  induction cs with
  | nil => rfl
  | cons c cs ih =>
    have hc := h c mem_cons_self
    rw [all_cons, all_cons, hc]
    cases hm : c.matches snap with
    | false => rfl
    | true =>
      rw [ih fun d hd => h d ?_]
      rw [reached, hm]
      exact mem_cons_of_mem c hd

theorem rule_until_flips {rule : RuleBody} (hle : now ≤ now')
    (hflips : ∀ x ∈ rule.flips (snap.atTime now), now' < x) :
    rule.matches (snap.atTime now') = rule.matches (snap.atTime now) := by
  rw [matches_eq, matches_eq]
  cases henabled : rule.enabled with
  | false => rfl
  | true =>
    rw [RuleBody.flips, if_pos henabled] at hflips
    refine all_congr_of_reached fun c hc => matches_until_flip hle fun x hx => ?_
    exact hflips x (mem_filterMap.mpr ⟨c, hc, hx⟩)

/-! ## Evaluations -/

/-- What is reported is not later than any moment that was noted. -/
theorem noteAll_le {flips : List ℤ} (trace : MatchTrace) {bound : ℤ}
    (h : ∀ x, (trace.noteAll flips).expiresAt = some x → bound < x) :
    (∀ x, trace.expiresAt = some x → bound < x) ∧ ∀ x ∈ flips, bound < x := by
  induction flips generalizing trace with
  | nil => exact ⟨h, by simp⟩
  | cons flip flips ih =>
    obtain ⟨hnote, hrest⟩ := ih _ h
    rw [note_eq] at hnote
    have hlt := hnote _ rfl
    cases hexp : trace.expiresAt with
    | none =>
      rw [hexp] at hlt
      exact ⟨fun x hx => absurd hx (by simp), forall_mem_cons.mpr ⟨hlt, hrest⟩⟩
    | some cur =>
      rw [hexp] at hlt
      obtain ⟨hcur, hflip⟩ := lt_min_iff.mp (show bound < min cur flip from hlt)
      exact ⟨fun x hx => Option.some.inj hx ▸ hcur, forall_mem_cons.mpr ⟨hflip, hrest⟩⟩

/-- Two evaluations that give the same answer, whenever it expires. -/
structure SameAnswer (e e' : Evaluation) : Prop extends SameVerdict e e' where
  effects : e.effects = e'.effects

theorem effectsOf_atTime (snap : Snapshot) (ctx : EvalContext) (t : ℤ) (l : List RuleBody) :
    effectsOf (snap.atTime t) ctx l = effectsOf snap ctx l := by
  cases l with
  | nil => rfl
  | cons rule above =>
    have heffect : Action.effect? (pathOf (rule :: above)) (snap.atTime t) =
        Action.effect? (pathOf (rule :: above)) snap := by
      funext action
      cases action with
      | _ => rfl
    rw [effectsOf, effectsOf, heffect]

/-- **An evaluation holds until it expires.** As long as the clock has not reached the moment
that is reported, if one is, evaluating the same snapshot again gives the same answer. -/
theorem evaluate_until_expiry (forest : Forest) (snap : Snapshot) (ctx : EvalContext)
    {now now' : ℤ} (hle : now ≤ now')
    (hexpiry : ∀ x, (evaluate forest (snap.atTime now) ctx).expiresAt = some x → now' < x) :
    SameAnswer (evaluate forest (snap.atTime now) ctx)
      (evaluate forest (snap.atTime now') ctx) := by
  have hflips : ∀ x ∈ flipsOf (snap.atTime now) (forest.consulted (snap.atTime now)),
      now' < x := by
    refine (noteAll_le .empty fun x hx => hexpiry x ?_).2
    rwa [evaluate_expiresAt]
  have hvoices : Delegation.SameVoices (delegation (snap.atTime now))
      (delegation (snap.atTime now')) := ⟨fun _ => rfl, fun _ => rfl⟩
  have hmatches : ∀ rule ∈ forest.consulted (snap.atTime now),
      rule.matches (snap.atTime now') = rule.matches (snap.atTime now) := fun rule hrule =>
    rule_until_flips hle fun x hx => hflips x (mem_flatMap.mpr ⟨rule, hrule, hx⟩)
  have hledger : forest.ledger (snap.atTime now') = forest.ledger (snap.atTime now) :=
    Delegation.descendAll_congr hvoices hmatches ⟨[], []⟩
  have hcands : (evaluate forest (snap.atTime now) ctx).candidates =
      (evaluate forest (snap.atTime now') ctx).candidates := by
    rw [evaluate_candidates, evaluate_candidates, hledger]
  refine ⟨collate_sameVerdict _ hcands, ?_⟩
  · rw [evaluate_effects, evaluate_effects, hledger]
    rw [funext (effectsOf_atTime snap ctx now), funext (effectsOf_atTime snap ctx now')]

/-- A rule that drops everything before six in the morning. -/
def nightForest : Forest :=
  ⟨⟨[], [], [], [], [], [], []⟩, .flow,
    [.node ⟨"night".toList, [⟨.fact .timeHour, .lt 6, false⟩], 0, true, [.verdict .drop]⟩ []]⟩

theorem nightForest_until_six :
    SameAnswer (evaluate nightForest (({} : Snapshot).atTime 0) ⟨1⟩)
      (evaluate nightForest (({} : Snapshot).atTime 21599) ⟨1⟩) := by
  refine evaluate_until_expiry nightForest {} ⟨1⟩ (by decide) fun x hx => ?_
  cases hx
  decide

end Pkm.Pnp
