import Pkm.Pnp.Helpers.Executed
import Pkm.Pnp.Helpers.Ingested
/-!
# What a layer can see

A forest of a layer reads the keys that can exist at that layer and no others: a condition
over another key stays in its rule, but it is marked and answers false. Two snapshots that
agree on the keys of the layer are judged alike (`evaluate_visibility`). The one thing that
an effect reads besides is the length of the packet, for a COUNT of it.
-/

namespace Pkm.Pnp

open Condition List Rose

variable {c : Condition} {f : FactId} {layer : Layer} {rule : RuleBody} {snap snap' : Snapshot}

/-! ## Agreement -/

/-- Whether a key can exist at a layer. Tags exist at the packet and the flow layer, counters
everywhere but at the interface layer. -/
def CanExist : Layer → CondKey → Prop
  | layer, .fact f => neverAt layer (.fact f) = false
  | layer, .tag _ _ => layer ≠ .interface ∧ layer ≠ .rawPacket
  | layer, .counter _ => layer ≠ .interface

/-- The two snapshots have the same fact. -/
def SameFact (snap snap' : Snapshot) (f : FactId) : Prop :=
  match f.family with
  | .int => intFact f snap = intFact f snap'
  | .str => strFact f snap = strFact f snap'
  | .addr => addrFact f snap = addrFact f snap'
  | .mac => macFact f snap = macFact f snap'
  | .flags => snap.tcpFlags = snap'.tcpFlags
  | .sid => sidFactPresent f snap = sidFactPresent f snap' ∧
    ∀ list, sidFactMatches f snap list = sidFactMatches f snap' list

/-- The two snapshots have the same under a key; under a fact of the clock, the same clock. -/
def SameReading (snap snap' : Snapshot) : CondKey → Prop
  | .tag _ hash => snap.tag hash = snap'.tag hash
  | .counter view => snap.counterView view = snap'.counterView view
  | .fact f => SameFact snap snap' f ∧ (f.isLiveTime = true → snap.nowSecs = snap'.nowSecs)

/-- Two snapshots that agree on all keys that can exist at a layer. -/
def AgreeAt (layer : Layer) (snap snap' : Snapshot) : Prop :=
  ∀ key, CanExist layer key → SameReading snap snap' key

/-! ## Conditions -/

theorem present_congr (h : SameReading snap snap' c.key) : c.present snap = c.present snap' := by
  obtain ⟨key, op, never⟩ := c
  cases key with
  | tag _ hash => exact congrArg Option.isSome h
  | counter view => exact congrArg Option.isSome h
  | fact f =>
    obtain ⟨hfact, -⟩ := h
    unfold SameFact at hfact
    unfold present
    dsimp only
    cases hfamily : f.family with
    | _ =>
      simp only [hfamily] at hfact
      simp only [hfact]

theorem compares_congr (h : SameReading snap snap' c.key) : c.compares snap = c.compares snap' := by
  obtain ⟨key, op, never⟩ := c
  cases key with
  | tag _ hash =>
    have htag : snap.tag hash = snap'.tag hash := h
    simp only [compares, htag]
  | counter view =>
    have hview : snap.counterView view = snap'.counterView view := h
    simp only [compares, hview]
  | fact f =>
    obtain ⟨hfact, -⟩ := h
    unfold SameFact at hfact
    unfold compares
    dsimp only
    cases hfamily : f.family with
    | _ =>
      simp only [hfamily] at hfact
      simp only [hfact]

theorem matches_congr (h : SameReading snap snap' c.key) : c.matches snap = c.matches snap' := by
  unfold Condition.matches
  rw [present_congr h, compares_congr h]

/-- A condition that has been ingested answers alike. -/
theorem Condition.Ingested.matches_eq (hc : c.Ingested layer) (h : AgreeAt layer snap snap') :
    c.matches snap = c.matches snap' := by
  cases hnever : c.never with
  | true => simp only [Condition.matches, hnever, if_true]
  | false =>
    have hexists : neverAt layer c.key = false := hc.never ▸ hnever
    refine matches_congr (h c.key ?_)
    obtain ⟨key, op, never⟩ := c
    have hfact := hc.isFact
    cases key with
    | fact f => exact hexists
    | tag _ _ =>
      refine ⟨?_, ?_⟩
      · rintro rfl
        exact absurd (hfact rfl) Bool.false_ne_true
      · rintro rfl
        exact absurd hexists (by simp [neverAt])
    | counter _ =>
      rintro rfl
      exact absurd (hfact rfl) Bool.false_ne_true

/-! ## Flips -/

/-- The facts of the clock exist at every layer but the interface layer. -/
theorem canExist_of_live (hlayer : layer ≠ .interface) (hlive : f.isLiveTime = true) :
    CanExist layer (.fact f) := by
  cases f with
  | timeYear | timeMonth | timeDayOfMonth | timeDayOfWeek | timeHour | timeMinute | timeSecond =>
    cases layer with
    | interface => exact absurd rfl hlayer
    | _ => rfl
  | _ => exact absurd hlive (by decide)

/-- What a flip reads of the calendar facts is whether they exist and the fact itself. -/
theorem cycle_congr (hlive : f.isLiveTime = true) (h : intFact f snap = intFact f snap') (now : ℤ)
    (flip : Option Condition.Cycle → Option ℤ) :
    (snap.time.bind fun time => flip (cycleOf f time now)) =
      snap'.time.bind fun time => flip (cycleOf f time now) := by
  cases hs : snap.time with
  | none =>
    cases hs' : snap'.time with
    | none => rfl
    | some time' =>
      cases f <;> first
        | exact absurd hlive (by decide)
        | exact absurd h (by simp [intFact, hs, hs'])
  | some time =>
    cases hs' : snap'.time with
    | none =>
      cases f <;> first
        | exact absurd hlive (by decide)
        | exact absurd h (by simp [intFact, hs, hs'])
    | some time' =>
      cases f <;> first
        | (simp only [intFact, hs, hs', Option.map_some, Option.some.injEq] at h
           simp [cycleOf, h])

/-- The flip of a fact with the cycle, or the next midnight. -/
def flipOf (op : CondOp) (now : ℤ) : Option Condition.Cycle → Option ℤ
  | some cycle => cycle.flip op
  | none => some (now - now % 86400 + 86400)

theorem nextFlip_congr (hlayer : layer ≠ .interface) (h : AgreeAt layer snap snap')
    (c : Condition) : c.nextFlip snap = c.nextFlip snap' := by
  obtain ⟨key, op, never⟩ := c
  cases key with
  | tag | counter => rfl
  | fact f =>
    unfold nextFlip
    dsimp only
    cases hlive : f.isLiveTime with
    | false => rfl
    | true =>
      obtain ⟨hfact, hclock⟩ := h (.fact f) (canExist_of_live hlayer hlive)
      have hint : intFact f snap = intFact f snap' := by
        cases f <;> first | exact absurd hlive (by decide) | exact hfact
      rw [hclock hlive]
      cases op with
      | present want => rfl
      | _ =>
        exact congrArg snap'.nowSecs.bind
          (funext fun now => cycle_congr hlive hint now (flipOf _ now))

/-! ## Rules -/

theorem RuleBody.Ingested.matches_eq (hrule : rule.Ingested layer) (h : AgreeAt layer snap snap') :
    rule.matches snap' = rule.matches snap := by
  have hall : (rule.conditions.all fun c => c.matches snap') =
      rule.conditions.all fun c => c.matches snap := by
    rw [Bool.eq_iff_iff, all_eq_true, all_eq_true]
    exact forall₂_congr fun c hc => by rw [(hrule.conditions c hc).matches_eq h]
  rw [Pnp.matches_eq, Pnp.matches_eq, hall]

theorem reached_congr {cs : List Condition} (h : ∀ c ∈ cs, c.matches snap = c.matches snap') :
    reached snap cs = reached snap' cs := by
  induction cs with
  | nil => rfl
  | cons c cs ih =>
    rw [reached, reached, h c mem_cons_self, ih (forall_mem_cons.mp h).2]

theorem RuleBody.Ingested.flips_eq (hlayer : layer ≠ .interface) (hrule : rule.Ingested layer)
    (h : AgreeAt layer snap snap') : rule.flips snap' = rule.flips snap := by
  have hreached := reached_congr fun c hc => (hrule.conditions c hc).matches_eq h
  unfold RuleBody.flips
  rw [hreached, funext (nextFlip_congr hlayer h)]

/-! ## Effects -/

/-- The same effect, or a COUNT of the lengths of the two packets under one name. -/
def SameEffect (snap snap' : Snapshot) (e e' : Effect) : Prop :=
  e = e' ∨ ∃ name, e = .count name (nameHash name) (snap.length.getD 0) ∧
    e' = .count name (nameHash name) (snap'.length.getD 0)

theorem forall₂_flatMap {α β : Type} {R : β → β → Prop} {f g : α → List β}
    (h : ∀ a, List.Forall₂ R (f a) (g a)) (l : List α) :
    List.Forall₂ R (l.flatMap f) (l.flatMap g) :=
  rel_flatMap (forall₂_same.mpr fun _ _ => rfl) fun a _ (hab : a = _) => hab ▸ h a

theorem sameEffect_step (snap snap' : Snapshot) (path : Text) (action : Action) :
    List.Forall₂ (SameEffect snap snap') (action.effect? path snap).toList
      (action.effect? path snap').toList := by
  cases action with
  | count name amount =>
    cases amount with
    | literal n => exact .cons (.inl rfl) .nil
    | length => exact .cons (.inr ⟨name, rfl, rfl⟩) .nil
  | tag | prompt => exact .cons (.inl rfl) .nil
  | _ => exact .nil

theorem sameEffect_effectsOf (snap snap' : Snapshot) (ctx : EvalContext) (l : List RuleBody) :
    List.Forall₂ (SameEffect snap snap') (effectsOf snap ctx l) (effectsOf snap' ctx l) := by
  cases l with
  | nil => exact .nil
  | cons rule above =>
    rw [effectsOf, effectsOf, filterMap_eq_flatMap_toList, filterMap_eq_flatMap_toList]
    exact rel_append (forall₂_flatMap (sameEffect_step snap snap' _) _)
      (forall₂_same.mpr fun _ _ => .inl rfl)

/-! ## Evaluations -/

/-- Two evaluations of one forest that cannot be told apart, but for the lengths of packets
that are counted. -/
structure SameSight (layer : Layer) (snap snap' : Snapshot) (st st' : WalkState)
    (e e' : Evaluation) : Prop extends SameVerdict e e' where
  executed : st.ran = st'.ran
  effects : List.Forall₂ (SameEffect snap snap') e.effects e'.effects
  expiresAt : layer ≠ .interface → e.expiresAt = e'.expiresAt

/-- **A layer sees its own keys only.** Two snapshots that agree on the keys that can exist at
the layer of an accepted forest are judged alike. -/
theorem evaluate_visibility [PatternText] {layer : Layer} {inputs : List RuleInput}
    {out : BuildOutput} (hbuild : buildForest layer inputs = .ok out) {snap snap' : Snapshot}
    (hagree : AgreeAt layer snap snap') (ctx : EvalContext) :
    SameSight layer snap snap' (out.forest.walked snap ctx) (out.forest.walked snap' ctx)
      (evaluate out.forest snap ctx) (evaluate out.forest snap' ctx) := by
  obtain ⟨-, hrules⟩ := buildForest_ingested hbuild
  have hconsulted : ∀ rule ∈ out.forest.consulted snap, rule.Ingested layer := fun rule hrule =>
    hrules rule (Delegation.consultedAll_subset out.forest.roots hrule)
  have hmatches : ∀ rule ∈ out.forest.consulted snap,
      (delegation snap').admits rule = (delegation snap).admits rule := fun rule hrule =>
    (hconsulted rule hrule).matches_eq hagree
  have hvoices : Delegation.SameVoices (delegation snap) (delegation snap') :=
    ⟨fun _ => rfl, fun _ => rfl⟩
  have hledger : out.forest.ledger snap' = out.forest.ledger snap :=
    Delegation.descendAll_congr hvoices hmatches ⟨[], []⟩
  have hasked : out.forest.consulted snap' = out.forest.consulted snap :=
    Delegation.consultedAll_congr hmatches
  have hcands : (evaluate out.forest snap ctx).candidates =
      (evaluate out.forest snap' ctx).candidates := by
    rw [evaluate_candidates, evaluate_candidates, hledger]
  refine ⟨collate_sameVerdict out.forest.layer hcands, ?_, ?_, fun hlayer => ?_⟩
  · rw [walked_eq, walked_eq, hledger]
    simp only [conclude]
  · rw [evaluate_effects, evaluate_effects, hledger]
    exact forall₂_flatMap (sameEffect_effectsOf snap snap' ctx) _
  · have hflips : flipsOf snap' (out.forest.consulted snap') =
        flipsOf snap (out.forest.consulted snap) := by
      rw [hasked]
      exact flatMap_congr fun rule hrule => (hconsulted rule hrule).flips_eq hlayer hagree
    rw [evaluate_expiresAt, evaluate_expiresAt, hflips]

/-- A rule of the flow layer over a fact of single packets. -/
def hopLimitKey : RuleInput :=
  .node ⟨"hops".toList, [("Ttl.LessThan".toList, .int 5),
    ("Actions".toList, .list [.str "DROP".toList])]⟩ []

theorem hopLimitKey_visibility : ∃ out,
    @buildForest PatternText.bare .flow [hopLimitKey] = .ok out ∧
      AgreeAt .flow { ttl := some 3 } { ttl := some 64 } ∧
      SameSight .flow { ttl := some 3 } { ttl := some 64 }
        (out.forest.walked { ttl := some 3 } ⟨1⟩) (out.forest.walked { ttl := some 64 } ⟨1⟩)
        (evaluate out.forest { ttl := some 3 } ⟨1⟩)
        (evaluate out.forest { ttl := some 64 } ⟨1⟩) := by
  obtain ⟨out, hbuild⟩ := Outcome.exists_of_isOk
    (x := @buildForest PatternText.bare .flow [hopLimitKey]) (by decide +kernel)
  have hagree : AgreeAt .flow { ttl := some 3 } { ttl := some 64 } := by
    intro key hkey
    cases key with
    | tag | counter => rfl
    | fact f =>
      cases f <;> first
        | exact ⟨rfl, fun _ => rfl⟩
        | exact ⟨⟨rfl, fun _ => rfl⟩, fun _ => rfl⟩
        | cases hkey
  exact ⟨out, hbuild, hagree, @evaluate_visibility PatternText.bare _ _ _ hbuild _ _ hagree ⟨1⟩⟩

end Pkm.Pnp
