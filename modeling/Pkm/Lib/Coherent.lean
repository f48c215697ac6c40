import Pkm.Lib.Forest
/-!
# What a walk keeps

The step lemmas and the run lemmas of `Forest.apply` and `Forest.walk`: a decided
cell never changes, a granted cell stays granted, coherence is kept, and grants
are monotone in the effects when there are no denials.
-/

namespace Pkm.Forest

open List

variable {F : Forest} {allow : Bool} {v w : Cells} {e : Effect} {es : List Effect} {k : ℕ}
  {p : ℕ → Bool}

/-! ## Stability -/

section

variable (h : (v k).decided = true)

include h

theorem settleWhere_decided : settleWhere p allow v k = v k := by
  unfold settleWhere
  split
  · exact Cell.settle_of_decided h
  · rfl

theorem climb_decided : F.climb v k = v k := by
  rw [climb_eq]
  split
  · exact Cell.settle_of_decided h
  · rfl

theorem raiseDenials_decided {new : ℕ → Prop} :
    F.raiseDenials new v k = v k := by
  unfold raiseDenials
  split
  · exact Cell.settle_of_decided h
  · rfl

/-- **A decided cell is not touched by an effect.** -/
theorem apply_decided : F.apply e v k = v k := by
  obtain ⟨allow, scope⟩ := e
  cases scope with
  | all => exact settleWhere_decided h
  | sub i =>
    cases allow with
    | true =>
      have hs : settleWhere (F.within i) true v k = v k := settleWhere_decided h
      exact (climb_decided (by rw [hs, h])).trans hs
    | false =>
      have hs : settleWhere (F.within i) false v k = v k := settleWhere_decided h
      exact (raiseDenials_decided (by rw [hs, h])).trans hs

/-- A decided cell keeps its answer through a whole walk. -/
theorem walk_decided : F.walk es v k = v k := by
  induction es generalizing v with
  | nil => rfl
  | cons e es ih =>
    have he := apply_decided (F := F) (e := e) h
    rw [walk_cons, ih (by rw [he, h]), he]

end

theorem granted_settleWhere (h : (v k).granted = true) :
    (settleWhere p allow v k).granted = true := by
  unfold settleWhere
  split
  · exact Cell.granted_settle h
  · exact h

theorem granted_climb (h : (v k).granted = true) : (F.climb v k).granted = true := by
  rw [climb_eq]
  split
  · exact Cell.granted_settle h
  · exact h

@[simp]
theorem granted_raiseDenials {new : ℕ → Prop} :
    (F.raiseDenials new v k).granted = (v k).granted := by
  unfold raiseDenials
  split <;> simp

@[simp]
theorem granted_settleWhere_false : (settleWhere p false v k).granted = (v k).granted := by
  unfold settleWhere
  split <;> simp

/-- **A granted cell stays granted.** -/
theorem granted_apply (h : (v k).granted = true) : (F.apply e v k).granted = true := by
  obtain ⟨allow, scope⟩ := e
  cases scope with
  | all => exact granted_settleWhere h
  | sub i =>
    cases allow with
    | true => exact granted_climb (granted_settleWhere h)
    | false =>
      change (F.raiseDenials _ _ k).granted = true
      rw [granted_raiseDenials, granted_settleWhere_false, h]

/-- A denial grants nothing. -/
theorem granted_apply_deny (he : e.allow = false) : (F.apply e v k).granted = (v k).granted := by
  obtain ⟨allow, scope⟩ := e
  obtain rfl : allow = false := he
  cases scope with
  | all => exact granted_settleWhere_false
  | sub i => exact granted_raiseDenials.trans granted_settleWhere_false

theorem granted_walk (h : (v k).granted = true) : (F.walk es v k).granted = true := by
  induction es generalizing v with
  | nil => exact h
  | cons e es ih => exact ih (granted_apply h)

/-! ## Coherence -/

/-- The invariant of a walk. -/
structure Coherent (F : Forest) (v : Cells) : Prop where
  granted_decided : ∀ {k}, (v k).granted = true → (v k).decided = true
  granted_down : ∀ {c p}, F.parent c = some p → (v p).granted = true → (v c).granted = true
  denied_up : ∀ {c p}, F.parent c = some p → (v c).decided = true → (v c).granted = false →
    (v p).decided = true
  closed : ∀ {k}, F.AllChildrenGranted v k → (v k).decided = true

/-- All nodes with the same cell. -/
def uniform (F : Forest) (c : Cell) : Cells := fun k => if k < F.size then c else ⟨false, false⟩

variable {c : Cell}

theorem uniform_of_lt (h : k < F.size) : F.uniform c k = c := if_pos h

theorem Coherent.uniform (h : c.granted = true → c.decided = true) : Coherent F (F.uniform c) := by
  have hlt : ∀ {c p}, F.parent c = some p → c < F.size ∧ p < F.size := fun hc =>
    ⟨F.child_lt hc, Nat.lt_trans (F.parent_lt hc) (F.child_lt hc)⟩
  refine ⟨?_, ?_, ?_, ?_⟩
  · intro k
    unfold Forest.uniform
    split
    · exact h
    · simp
  · intro ch p hp hg
    obtain ⟨hc, hp'⟩ := hlt hp
    rw [uniform_of_lt hp'] at hg
    rw [uniform_of_lt hc, hg]
  · intro ch p hp hd _
    obtain ⟨hc, hp'⟩ := hlt hp
    rw [uniform_of_lt hc] at hd
    rw [uniform_of_lt hp', hd]
  · rintro k ⟨⟨ch, hp⟩, hall⟩
    obtain ⟨hc, hp'⟩ := hlt hp
    have hg := hall ch hp
    rw [uniform_of_lt hc] at hg
    rw [uniform_of_lt hp']
    exact h hg

namespace Coherent

variable {v : Cells} {allow : Bool} (hv : Coherent F v)

include hv

/-- Settling a set that contains the children of its members keeps coherence, closure apart. -/
theorem settleWhere_down {p : ℕ → Bool}
    (hp : ∀ {c q}, F.parent c = some q → p q = true → p c = true) {c q : ℕ}
    (hc : F.parent c = some q) (hg : (settleWhere p allow v q).granted = true) :
    (settleWhere p allow v c).granted = true := by
  by_cases hq : (v q).granted = true
  · exact granted_settleWhere (hv.granted_down hc hq)
  · -- the parent is newly granted, so it was undecided and the child was not denied
    have hpq : p q = true := by
      by_contra hn
      rw [settleWhere, if_neg hn] at hg
      exact hq hg
    have hdq : (v q).decided = false := by
      by_contra hn
      rw [settleWhere_decided (Bool.not_eq_false _ ▸ hn)] at hg
      exact hq hg
    have hallow : allow = true := by
      cases allow with
      | true => rfl
      | false => exact absurd (granted_settleWhere_false ▸ hg) hq
    subst hallow
    rw [settleWhere, if_pos (hp hc hpq)]
    refine Cell.granted_settle_true_iff.mpr ?_
    cases hgc : (v c).granted with
    | true => exact .inl rfl
    | false =>
      by_contra hn
      rw [hv.denied_up hc (by simpa using hn) hgc] at hdq
      cases hdq

theorem settleWhere_granted_decided {p : ℕ → Bool} {k : ℕ}
    (hg : (settleWhere p allow v k).granted = true) : (settleWhere p allow v k).decided = true := by
  unfold settleWhere at *
  split_ifs at hg ⊢
  · exact Cell.settle_decided _ _
  · exact hv.granted_decided hg

theorem all (allow : Bool) : Coherent F (settleWhere F.nodes allow v) := by
  have hnode : ∀ {c q}, F.parent c = some q → F.nodes c = true ∧ F.nodes q = true := by
    intro c q hc
    have h₁ := F.child_lt hc
    have h₂ := F.parent_lt hc
    exact ⟨decide_eq_true h₁, decide_eq_true (by omega)⟩
  have hdec : ∀ {k}, F.nodes k = true → (settleWhere F.nodes allow v k).decided = true := by
    intro k hk
    rw [settleWhere, if_pos hk]
    exact Cell.settle_decided _ _
  refine ⟨hv.settleWhere_granted_decided, ?_, ?_, ?_⟩
  · exact fun hc hg => hv.settleWhere_down (fun hc' _ => (hnode hc').1) hc hg
  · exact fun hc _ _ => hdec (hnode hc).2
  · rintro k ⟨⟨c, hc⟩, -⟩
    exact hdec (hnode hc).2

theorem allow_sub (i : ℕ) :
    Coherent F (F.climb (settleWhere (F.within i) true v)) := by
  set u := settleWhere (F.within i) true v with hu
  have hdown : ∀ {c q}, F.parent c = some q → (u q).granted = true → (u c).granted = true :=
    fun hc hg => hv.settleWhere_down (fun hc' hw => F.within_child hc' hw) hc hg
  refine ⟨?_, ?_, ?_, ?_⟩
  · intro k hg
    rw [climb_eq] at hg ⊢
    split_ifs at hg ⊢
    · exact Cell.settle_decided _ _
    · exact hv.settleWhere_granted_decided hg
  · intro c q hc hg
    rw [climb_eq] at hg
    split at hg
    · rename_i hall
      exact hall.2 c hc
    · exact granted_climb (hdown hc hg)
  · intro c q hc hd hg
    -- a cell that ends decided and not granted was denied before the grant
    have huc : (u c).decided = true ∧ (u c).granted = false := by
      rw [climb_eq] at hd hg
      split_ifs at hd hg
      · exact Cell.denied_of_settle hg
      · exact ⟨hd, hg⟩
    have hvc : (v c).decided = true ∧ (v c).granted = false := by
      rw [hu] at huc
      unfold settleWhere at huc
      split_ifs at huc
      · exact Cell.denied_of_settle huc.2
      · exact huc
    have hvq := hv.denied_up hc hvc.1 hvc.2
    have huq : u q = v q := settleWhere_decided hvq
    rw [climb_decided (by rw [huq, hvq]), huq, hvq]
  · intro k hall
    rw [climb_eq, if_pos hall]
    exact Cell.settle_decided _ _

theorem deny_sub (i : ℕ) :
    Coherent F (F.raiseDenials (fun m => F.within i m = true ∧ (v m).decided = false)
      (settleWhere (F.within i) false v)) := by
  set u := settleWhere (F.within i) false v with hu
  set new := fun m => F.within i m = true ∧ (v m).decided = false with hnew
  have hgr : ∀ k, (F.raiseDenials new u k).granted = (v k).granted := fun k => by
    rw [granted_raiseDenials, granted_settleWhere_false]
  have hkeep : ∀ {k}, (v k).decided = true → (F.raiseDenials new u k).decided = true := by
    intro k hk
    have huk : u k = v k := settleWhere_decided hk
    rw [raiseDenials_decided (by rw [huk, hk]), huk, hk]
  refine ⟨?_, ?_, ?_, ?_⟩
  · intro k hg
    exact hkeep (hv.granted_decided (hgr k ▸ hg))
  · intro c q hc hg
    rw [hgr] at hg ⊢
    exact hv.granted_down hc hg
  · intro c q hc hd hg
    rw [hgr] at hg
    by_cases hvc : (v c).decided = true
    · exact hkeep (hv.denied_up hc hvc hg)
    · -- `c` is newly denied, or an ancestor of a newly denied node: so is `q` an ancestor
      have hq : ∃ m, new m ∧ F.Above q m := by
        unfold raiseDenials at hd
        split at hd
        · rename_i hex
          obtain ⟨m, hm, hab⟩ := hex
          exact ⟨m, hm, Relation.TransGen.head hc hab⟩
        · rw [hu] at hd
          unfold settleWhere at hd
          split at hd
          · rename_i hw
            exact ⟨c, ⟨hw, by simpa using hvc⟩, Relation.TransGen.single hc⟩
          · exact absurd hd hvc
      unfold raiseDenials
      rw [if_pos hq]
      exact Cell.settle_decided _ _
  · rintro k ⟨hex, hall⟩
    exact hkeep (hv.closed ⟨hex, fun c hc => hgr c ▸ hall c hc⟩)

/-- **Every effect keeps coherence.** -/
theorem apply (e : Effect) : Coherent F (F.apply e v) := by
  obtain ⟨allow, scope⟩ := e
  cases scope with
  | all => exact hv.all allow
  | sub i =>
    cases allow with
    | true => exact hv.allow_sub i
    | false => exact hv.deny_sub i

/-- Every walk keeps coherence. -/
theorem walk (es : List Effect) : Coherent F (F.walk es v) := by
  induction es generalizing v with
  | nil => exact hv
  | cons e es ih => exact ih (hv.apply e)

/-- Climbing does nothing to coherent cells. -/
theorem climb_eq_self : F.climb v = v := by
  funext k
  refine induction_children (F := F) (P := fun k => F.climb v k = v k) (fun k ih => ?_) k
  rw [climb_eq]
  split
  · rename_i hall
    refine Cell.settle_of_decided (hv.closed ⟨hall.1, fun c hc => ?_⟩)
    rw [← ih c hc]
    exact hall.2 c hc
  · rfl

end Coherent

/-- What goes down from the node that everything hangs from is everywhere. -/
theorem forall_of_root {P : ℕ → Prop} (hdown : ∀ c p, F.parent c = some p → P p → P c)
    (htree : ∀ k, k < F.size → k ≠ 0 → ∃ p, F.parent k = some p) (hroot : P 0) (hk : k < F.size) :
    P k := by
  induction k using Nat.strongRecOn with
  | ind k ih =>
    by_cases h0 : k = 0
    · rw [h0]
      exact hroot
    · obtain ⟨p, hp⟩ := htree k hk h0
      have hlt := F.parent_lt hp
      exact hdown k p hp (ih p hlt (by omega))

/-! ## Walks without denials -/

/-- Every decided cell is granted. -/
def Open (v : Cells) : Prop := ∀ k, (v k).decided = true → (v k).granted = true

/-- Granted cells of one are granted in the other. -/
def GrantsLe (v w : Cells) : Prop := ∀ k, (v k).granted = true → (w k).granted = true

theorem GrantsLe.trans {u : Cells} (h : GrantsLe u v) (h' : GrantsLe v w) : GrantsLe u w :=
  fun k hk => h' k (h k hk)

theorem Open.granted_settle (hv : Open v) (k : ℕ) : ((v k).settle true).granted = true := by
  refine Cell.granted_settle_true_iff.mpr ?_
  cases hd : (v k).decided with
  | true => exact .inl (hv k hd)
  | false => exact .inr rfl

theorem Open.settleWhere (hv : Open v) (p : ℕ → Bool) : Open (settleWhere p true v) := by
  intro k hd
  unfold Forest.settleWhere at *
  split_ifs at hd ⊢
  · exact hv.granted_settle k
  · exact hv k hd

theorem Open.climb (hv : Open v) : Open (F.climb v) := by
  intro k hd
  rw [climb_eq] at hd ⊢
  split_ifs at hd ⊢
  · exact hv.granted_settle k
  · exact hv k hd

theorem Open.apply (hv : Open v) (he : e.allow = true) : Open (F.apply e v) := by
  obtain ⟨allow, scope⟩ := e
  obtain rfl : allow = true := he
  cases scope with
  | all => exact hv.settleWhere _
  | sub i => exact (hv.settleWhere _).climb

theorem Open.walk (hallow : ∀ e ∈ es, e.allow = true) (hv : Open v) : Open (F.walk es v) := by
  induction es generalizing v with
  | nil => exact hv
  | cons e es ih =>
    have he := hallow e mem_cons_self
    exact ih (forall_mem_cons.mp hallow).2 (hv.apply he)

theorem GrantsLe.settleWhere (hw : Open w) (h : GrantsLe v w) (p : ℕ → Bool) :
    GrantsLe (settleWhere p true v) (settleWhere p true w) := by
  intro k hg
  unfold Forest.settleWhere at *
  split
  · exact hw.granted_settle k
  · rw [if_neg ‹_›] at hg
    exact h k hg

theorem GrantsLe.climb (hw : Open w) (h : GrantsLe v w) : GrantsLe (F.climb v) (F.climb w) := by
  intro k
  refine induction_children (F := F)
    (P := fun k => (F.climb v k).granted = true → (F.climb w k).granted = true)
    (fun k ih hg => ?_) k
  rw [climb_eq] at hg
  split at hg
  · rename_i hall
    rw [climb_eq, if_pos ⟨hall.1, fun c hc => ih c hc (hall.2 c hc)⟩]
    exact hw.granted_settle k
  · exact granted_climb (h k hg)

/-- A grant is monotone in the cells it acts on. -/
theorem GrantsLe.apply (hw : Open w) (h : GrantsLe v w) (he : e.allow = true) :
    GrantsLe (F.apply e v) (F.apply e w) := by
  obtain ⟨allow, scope⟩ := e
  obtain rfl : allow = true := he
  cases scope with
  | all => exact h.settleWhere hw _
  | sub i => exact (h.settleWhere hw _).climb (hw.settleWhere _)

/-- **More grants grant more.** Without denials, a walk over more effects from cells with more
grants ends with more grants. -/
theorem GrantsLe.walk {es' : List Effect} (hsub : es.Sublist es')
    (hallow : ∀ e ∈ es', e.allow = true) (hw : Open w) (h : GrantsLe v w) :
    GrantsLe (F.walk es v) (F.walk es' w) := by
  induction hsub generalizing v w with
  | slnil => exact h
  | cons e _ ih =>
    have he := hallow e mem_cons_self
    exact ih (forall_mem_cons.mp hallow).2 (hw.apply he) (h.trans fun _ hk => granted_apply hk)
  | cons_cons e _ ih =>
    have he := hallow e mem_cons_self
    exact ih (forall_mem_cons.mp hallow).2 (hw.apply he) (h.apply hw he)

/-! ## Where effects act -/

/-- Whether an effect acts at a node. -/
def reaches (F : Forest) (e : Effect) (k : ℕ) : Bool :=
  match e.scope with
  | .all => F.nodes k
  | .sub i => F.within i k

/-- A grant that acts at a node is granted there, if nothing was denied. -/
theorem Open.granted_apply (hv : Open v) (he : e.allow = true) (hk : F.reaches e k = true) :
    (F.apply e v k).granted = true := by
  obtain ⟨allow, scope⟩ := e
  obtain rfl : allow = true := he
  have hsettle : ∀ p : ℕ → Bool, p k = true → (Forest.settleWhere p true v k).granted = true := by
    intro p hp
    rw [Forest.settleWhere, if_pos hp]
    exact hv.granted_settle k
  cases scope with
  | all => exact hsettle _ hk
  | sub i => exact granted_climb (hsettle _ hk)

theorem Open.granted_walk (hallow : ∀ e ∈ es, e.allow = true) (hv : Open v) (he : e ∈ es)
    (hk : F.reaches e k = true) : (F.walk es v k).granted = true := by
  induction es generalizing v with
  | nil => cases he
  | cons e' es ih =>
    have he' := hallow e' mem_cons_self
    rcases mem_cons.mp he with rfl | hmem
    · rw [walk_cons]
      exact Forest.granted_walk (hv.granted_apply he' hk)
    · exact ih (forall_mem_cons.mp hallow).2 (hv.apply he') hmem

/-- A grant elsewhere does not touch a leaf. -/
theorem apply_of_leaf (hleaf : ∀ c, F.parent c ≠ some k) (he : e.allow = true)
    (hk : F.reaches e k = false) (v : Cells) : F.apply e v k = v k := by
  obtain ⟨allow, scope⟩ := e
  obtain rfl : allow = true := he
  have hkeep : ∀ p : ℕ → Bool, p k = false → settleWhere p true v k = v k := by
    intro p hp
    rw [settleWhere, hp, if_neg Bool.false_ne_true]
  cases scope with
  | all => exact hkeep _ hk
  | sub i =>
    change F.climb (settleWhere (F.within i) true v) k = v k
    rw [climb_eq, if_neg fun h => hleaf _ h.1.choose_spec]
    exact hkeep _ hk

theorem walk_of_leaf (hleaf : ∀ c, F.parent c ≠ some k)
    (hes : ∀ e ∈ es, e.allow = true ∧ F.reaches e k = false) (v : Cells) : F.walk es v k = v k := by
  induction es generalizing v with
  | nil => rfl
  | cons e es ih =>
    obtain ⟨he, hk⟩ := hes e mem_cons_self
    rw [walk_cons, ih (forall_mem_cons.mp hes).2, apply_of_leaf hleaf he hk]

end Pkm.Forest
