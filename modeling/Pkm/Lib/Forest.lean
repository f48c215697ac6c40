import Mathlib
/-!
# Decisions over a forest

One right is decided over the nodes of a forest by a sequence of effects. A cell
holds whether the right is decided at a node and whether it is granted there; an
effect settles undecided cells, either everywhere or in one subtree. A grant in a
subtree climbs to a node once all its children are granted; a denial climbs to
every ancestor of a newly denied node that is still undecided.

The forest is given by its parent function and its subtrees. `Coherent` is the
invariant every effect keeps: a grant holds at the children, a denial has decided
the parent, and a node whose children are all granted is decided. `walk` runs a
list of effects; what is decided stays, what is granted stays granted, and a walk
of grants only is monotone in its effects.
-/

namespace Pkm

/-- A forest on the nodes below `size`, in an order that puts parents before children. -/
structure Forest where
  size : ℕ
  parent : ℕ → Option ℕ
  /-- `within i k` holds of the nodes `k` of the subtree at `i`. -/
  within : ℕ → ℕ → Bool
  parent_lt : ∀ {c p}, parent c = some p → p < c
  child_lt : ∀ {c p}, parent c = some p → c < size
  within_lt : ∀ {i k}, within i k = true → k < size
  within_child : ∀ {i c p}, parent c = some p → within i p = true → within i c = true
  within_parent : ∀ {i c}, within i c = true → c ≠ i → ∃ p, parent c = some p ∧ within i p = true

/-- One right at one node: decided or not, granted or not. -/
structure Cell where
  decided : Bool
  granted : Bool
  deriving DecidableEq

namespace Cell

variable {allow : Bool}

/-- Decides an undecided cell, as a grant or as a denial. -/
def settle (allow : Bool) (c : Cell) : Cell :=
  if c.decided then c else ⟨true, c.granted || allow⟩

@[simp]
theorem settle_decided (allow : Bool) (c : Cell) : (c.settle allow).decided = true := by
  unfold settle
  split
  · assumption
  · rfl

variable {c : Cell}

theorem settle_of_decided (h : c.decided = true) : c.settle allow = c := by
  rw [settle, if_pos h]

@[simp]
theorem settle_false_granted (c : Cell) : (c.settle false).granted = c.granted := by
  unfold settle
  split <;> simp

theorem granted_settle (h : c.granted = true) : (c.settle allow).granted = true := by
  unfold settle
  split <;> simp [h]

/-- A cell that is granted after a grant was granted or undecided before. -/
theorem granted_settle_true_iff :
    (c.settle true).granted = true ↔ c.granted = true ∨ c.decided = false := by
  unfold settle
  cases c.decided <;> simp

/-- A cell that a grant leaves without the right was denied before. -/
theorem denied_of_settle (h : (c.settle true).granted = false) :
    c.decided = true ∧ c.granted = false := by
  rw [← Bool.not_eq_true, granted_settle_true_iff, not_or] at h
  exact ⟨by simpa using h.2, by simpa using h.1⟩

end Cell

/-- One right over all nodes. -/
abbrev Cells := ℕ → Cell

/-- Where an effect acts. -/
inductive Scope where
  | all
  | sub (i : ℕ)

/-- A grant or a denial with its scope. -/
structure Effect where
  allow : Bool
  scope : Scope

namespace Forest

variable (F : Forest) {c j k m n p : ℕ}

/-- Settles the cells of a set of nodes. -/
def settleWhere (p : ℕ → Bool) (allow : Bool) (v : Cells) : Cells :=
  fun k => if p k then (v k).settle allow else v k

/-- The nodes of the forest. -/
def nodes (k : ℕ) : Bool := decide (k < F.size)

variable (v : Cells)

/-- `k` has a child and all its children are granted. -/
def AllChildrenGranted (k : ℕ) : Prop :=
  (∃ c, F.parent c = some k) ∧ ∀ c, F.parent c = some k → (v c).granted = true

open Classical in
/-- Grants `k` if all its children are granted. -/
noncomputable def climbAt (k : ℕ) (v : Cells) : Cells :=
  if F.AllChildrenGranted v k then Function.update v k ((v k).settle true) else v

/-- Lets grants climb to the nodes below `n`, from the last to the first. -/
noncomputable def climbBelow : ℕ → Cells → Cells
  | 0, v => v
  | n + 1, v => climbBelow n (F.climbAt n v)

/-- Lets grants climb through the whole forest. -/
noncomputable def climb : Cells := F.climbBelow F.size v

/-- `k` is a proper ancestor of `m`. -/
def Above (k m : ℕ) : Prop := Relation.TransGen (fun p c => F.parent c = some p) k m

open Classical in
/-- Decides, without granting, every ancestor of a node in a set. -/
noncomputable def raiseDenials (new : ℕ → Prop) (v : Cells) : Cells :=
  fun k => if ∃ m, new m ∧ F.Above k m then (v k).settle false else v k

/-- One effect on one right. -/
noncomputable def apply (e : Effect) (v : Cells) : Cells :=
  match e.scope, e.allow with
  | .all, allow => settleWhere F.nodes allow v
  | .sub i, true => F.climb (settleWhere (F.within i) true v)
  | .sub i, false =>
    F.raiseDenials (fun m => F.within i m = true ∧ (v m).decided = false)
      (settleWhere (F.within i) false v)

/-- A sequence of effects. -/
noncomputable def walk (es : List Effect) (v : Cells) : Cells := es.foldl (fun v e => F.apply e v) v

@[simp]
theorem walk_nil : F.walk [] v = v := rfl

@[simp]
theorem walk_cons (e : Effect) (es : List Effect) (v : Cells) :
    F.walk (e :: es) v = F.walk es (F.apply e v) := rfl

theorem walk_append (es es' : List Effect) (v : Cells) :
    F.walk (es ++ es') v = F.walk es' (F.walk es v) := List.foldl_append

/-! ## Climbing -/

variable {F}

theorem climbAt_ne (h : j ≠ k) : F.climbAt k v j = v j := by
  unfold climbAt
  split
  · exact Function.update_of_ne h _ _
  · rfl

theorem climbBelow_ge (h : n ≤ j) : F.climbBelow n v j = v j := by
  induction n generalizing v with
  | zero => rfl
  | succ n ih => rw [climbBelow, ih _ (by omega), climbAt_ne v (by omega)]

open Classical in
/-- Climbing below `n` settles exactly the nodes whose children end up granted. -/
theorem climbBelow_eq (h : k < n) :
    F.climbBelow n v k =
      if F.AllChildrenGranted (F.climbBelow n v) k then (v k).settle true else v k := by
  induction n generalizing v with
  | zero => omega
  | succ n ih =>
    rw [climbBelow]
    by_cases hk : k = n
    · subst hk
      -- the children of `k` come later, so they already have their final values
      have hchild : F.AllChildrenGranted (F.climbBelow k (F.climbAt k v)) k ↔
          F.AllChildrenGranted v k := by
        unfold AllChildrenGranted
        refine and_congr_right fun _ => forall_congr' fun c => imp_congr_right fun hc => ?_
        have hlt := F.parent_lt hc
        rw [climbBelow_ge _ (by omega), climbAt_ne _ (by omega)]
      rw [climbBelow_ge _ (Nat.le_refl k)]
      simp only [hchild]
      by_cases hg : F.AllChildrenGranted v k
      · rw [if_pos hg, climbAt, if_pos hg, Function.update_self]
      · rw [if_neg hg, climbAt, if_neg hg]
    · rw [ih (F.climbAt n v) (by omega), climbAt_ne v hk]

open Classical in
/-- **What climbing does.** A node is settled as granted exactly when, in the end, it has children
and all of them are granted. -/
theorem climb_eq (k : ℕ) :
    F.climb v k = if F.AllChildrenGranted (F.climb v) k then (v k).settle true else v k := by
  by_cases hk : k < F.size
  · exact climbBelow_eq v hk
  · have hn : ¬ F.AllChildrenGranted (F.climb v) k := by
      rintro ⟨⟨c, hc⟩, -⟩
      have h₁ := F.child_lt hc
      have h₂ := F.parent_lt hc
      omega
    rw [if_neg hn]
    exact climbBelow_ge v (Nat.not_lt.mp hk)

/-! ## Ancestors -/

theorem above_lt (h : F.Above k m) : k < m := by
  induction h with
  | single h => exact F.parent_lt h
  | tail _ h ih => exact Nat.lt_trans ih (F.parent_lt h)

/-- The ancestors of a node are its parent and the ancestors of its parent. -/
theorem above_iff (h : F.parent c = some p) : F.Above k c ↔ k = p ∨ F.Above k p := by
  constructor
  · intro hab
    cases hab with
    | single h' => exact .inl (Option.some.inj (h'.symm.trans h))
    | tail hab h' =>
      cases h'.symm.trans h
      exact .inr hab
  · rintro (rfl | hab)
    · exact Relation.TransGen.single h
    · exact Relation.TransGen.tail hab h

theorem not_above (h : F.parent c = none) : ¬ F.Above k c := by
  intro hab
  cases hab with
  | single h' => rw [h] at h'; cases h'
  | tail _ h' => rw [h] at h'; cases h'

theorem raiseDenials_neg {S : ℕ → Prop} {v : Cells} (h : ∀ m, S m → ¬ F.Above k m) :
    F.raiseDenials S v k = v k :=
  if_neg fun ⟨m, hm, hab⟩ => h m hm hab

open Classical in
/-- Raising denials from two sets of nodes is raising them from both. -/
theorem raiseDenials_raiseDenials (S T : ℕ → Prop) (v : Cells) :
    F.raiseDenials T (F.raiseDenials S v) = F.raiseDenials (fun m => S m ∨ T m) v := by
  funext k
  simp only [raiseDenials, or_and_right, exists_or]
  by_cases hS : ∃ m, S m ∧ F.Above k m
  · rw [if_pos hS, Cell.settle_of_decided (Cell.settle_decided _ _), ite_self, if_pos (.inl hS)]
  · simp only [hS, if_false, false_or]

theorem raiseDenials_root (h : F.parent c = none) (v : Cells) : F.raiseDenials (· = c) v = v :=
  funext fun _ => raiseDenials_neg fun _ hm => hm ▸ not_above h

open Classical in
/-- Raising the denial of a child settles its parent and raises the parent's denial. -/
theorem raiseDenials_child (h : F.parent c = some p) (v : Cells) :
    F.raiseDenials (· = p) (Function.update v p ((v p).settle false)) =
      F.raiseDenials (· = c) v := by
  funext k
  simp only [raiseDenials, exists_eq_left, above_iff h]
  by_cases hk : k = p
  · subst hk
    rw [if_neg fun hab => Nat.lt_irrefl _ (above_lt hab), if_pos (.inl rfl), Function.update_self]
  · simp only [hk, false_or, Function.update_of_ne hk]

/-! ## Induction over the forest -/

/-- Induction from the last node to the first: a property of a node may use it at the children. -/
theorem induction_children {P : ℕ → Prop} (h : ∀ k, (∀ c, F.parent c = some k → P c) → P k) :
    ∀ k, P k := by
  intro k
  induction hd : F.size - k using Nat.strongRecOn generalizing k with
  | ind d ih =>
    refine h k fun c hc => ih (F.size - c) ?_ c rfl
    have h₁ := F.child_lt hc
    have h₂ := F.parent_lt hc
    omega

end Forest

end Pkm
