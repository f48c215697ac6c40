import Pkm.Lib.Coherent
/-!
# One more denial

Two walks over one forest, the second with one more denial somewhere. At every node the second ends
as the first or denied. The relation is kept because a denial is never hidden: in a coherent
state every node above a denied one is denied too, so at a node that is still undecided everything
below looks the same in both walks.
-/

namespace Pkm.Forest

variable {F : Forest} {v w : Cells}

/-- Decided against. -/
def Denied (c : Cell) : Prop := c.decided = true ∧ c.granted = false

/-- The second state is the first, or denied, at every node. -/
def DeniesMore (v w : Cells) : Prop := ∀ k, w k = v k ∨ Denied (w k)

theorem DeniesMore.refl (v : Cells) : DeniesMore v v := fun _ => .inl rfl

/-- Above a denied node everything is denied. -/
theorem Coherent.denied_above (hw : Coherent F w) {k m : ℕ} (hm : Denied (w m))
    (h : F.Above k m) : Denied (w k) := by
  -- a decided parent of a denied node is not granted, or the node would be granted with it
  have hparent : ∀ {c p}, F.parent c = some p → Denied (w c) → Denied (w p) := by
    intro c p hc hden
    refine ⟨hw.denied_up hc hden.1 hden.2, ?_⟩
    by_contra hg
    have hgranted := hw.granted_down hc (Bool.not_eq_false _ ▸ hg)
    rw [hden.2] at hgranted
    cases hgranted
  induction h with
  | single hc => exact hparent hc hm
  | tail _ hc ih => exact ih (hparent hc hm)

/-- Where the second state is undecided, so is the first. -/
theorem DeniesMore.eq_of_undecided (h : DeniesMore v w) {k : ℕ} (hk : (w k).decided = false) :
    w k = v k := by
  rcases h k with heq | ⟨hd, -⟩
  · exact heq
  · rw [hk] at hd
    cases hd

/-- It is enough to look at the nodes that the second state leaves undecided. -/
theorem DeniesMore.of_undecided {v' w' : Cells} (h : DeniesMore v w)
    (hv : ∀ k, (v k).decided = true → v' k = v k) (hw : ∀ k, (w k).decided = true → w' k = w k)
    (hundecided : ∀ k, (w k).decided = false → w' k = v' k) : DeniesMore v' w' := by
  intro k
  by_cases hk : (w k).decided = true
  · rcases h k with heq | hden
    · exact .inl ((hw k hk).trans (heq.trans (hv k (heq ▸ hk)).symm))
    · exact .inr ((hw k hk).symm ▸ hden)
  · exact .inl (hundecided k (Bool.not_eq_true _ ▸ hk))

theorem settleWhere_congr {p : ℕ → Bool} {allow : Bool} {k : ℕ} (h : w k = v k) :
    settleWhere p allow w k = settleWhere p allow v k := by
  rw [settleWhere, settleWhere, h]

section

variable (h : DeniesMore v w)

include h

/-- A child of an undecided node is the same in both states. -/
theorem DeniesMore.child_eq (hw : Coherent F w) {c k : ℕ}
    (hc : F.parent c = some k) (hk : (w k).decided = false) : w c = v c := by
  rcases h c with heq | ⟨hd, hg⟩
  · exact heq
  · rw [hw.denied_up hc hd hg] at hk
    cases hk

/-- At a node that is undecided, grants climb alike in both states. -/
theorem DeniesMore.climb_eq (hw : Coherent F w) (i k : ℕ) (hk : (w k).decided = false) :
    F.climb (settleWhere (F.within i) true w) k = F.climb (settleWhere (F.within i) true v) k := by
  refine induction_children (F := F) (P := fun k => (w k).decided = false →
    F.climb (settleWhere (F.within i) true w) k = F.climb (settleWhere (F.within i) true v) k)
    (fun k ih hk => ?_) k hk
  have hchild : ∀ c, F.parent c = some k → F.climb (settleWhere (F.within i) true w) c
      = F.climb (settleWhere (F.within i) true v) c := by
    intro c hc
    have heq := h.child_eq hw hc hk
    by_cases hd : (w c).decided = true
    · -- a decided child keeps its cell
      have hsw : settleWhere (F.within i) true w c = w c := settleWhere_decided hd
      have hsv : settleWhere (F.within i) true v c = v c := settleWhere_decided (heq ▸ hd)
      rw [climb_decided (by rw [hsw, hd]), climb_decided (by rw [hsv, ← heq, hd]), hsw, hsv, heq]
    · exact ih c hc (Bool.not_eq_true _ ▸ hd)
  have hall : F.AllChildrenGranted (F.climb (settleWhere (F.within i) true w)) k ↔
      F.AllChildrenGranted (F.climb (settleWhere (F.within i) true v)) k :=
    and_congr_right fun _ => forall_congr' fun c => imp_congr_right fun hc => by rw [hchild c hc]
  rw [Forest.climb_eq, Forest.climb_eq (settleWhere (F.within i) true v),
    settleWhere_congr (h.eq_of_undecided hk)]
  classical exact if_congr hall rfl rfl

/-- Below a node that is undecided, the same nodes are newly denied in both states. -/
theorem DeniesMore.newly_iff (hw : Coherent F w) {i k m : ℕ}
    (hk : (w k).decided = false) (hm : F.Above k m) :
    (F.within i m = true ∧ (w m).decided = false) ↔
      (F.within i m = true ∧ (v m).decided = false) := by
  refine and_congr_right fun _ => ?_
  rcases h m with heq | hden
  · rw [heq]
  · have habove := (hw.denied_above hden hm).1
    rw [hk] at habove
    cases habove

/-- **The same effect on both keeps the relation.** -/
theorem DeniesMore.apply (hw : Coherent F w) (e : Effect) :
    DeniesMore (F.apply e v) (F.apply e w) := by
  refine h.of_undecided (fun k => apply_decided) (fun k => apply_decided) fun k hk => ?_
  have heq := h.eq_of_undecided hk
  obtain ⟨allow, scope⟩ := e
  cases scope with
  | all => exact settleWhere_congr heq
  | sub i =>
    cases allow with
    | true => exact h.climb_eq hw i k hk
    | false =>
      show F.raiseDenials _ _ k = F.raiseDenials _ _ k
      have hnew : (∃ m, (F.within i m = true ∧ (w m).decided = false) ∧ F.Above k m) ↔
          ∃ m, (F.within i m = true ∧ (v m).decided = false) ∧ F.Above k m :=
        exists_congr fun m => and_congr_left fun hm => h.newly_iff hw hk hm
      unfold raiseDenials
      rw [settleWhere_congr heq]
      classical exact if_congr hnew rfl rfl

/-- So does a whole walk. -/
theorem DeniesMore.walk (hw : Coherent F w) (es : List Effect) :
    DeniesMore (F.walk es v) (F.walk es w) := by
  induction es generalizing v w with
  | nil => exact h
  | cons e es ih => exact ih (h.apply hw e) (hw.apply e)

end

/-- A denial on one of two equal states. -/
theorem DeniesMore.of_deny (hv : Coherent F v) {e : Effect} (he : e.allow = false) :
    DeniesMore v (F.apply e v) := by
  intro k
  by_cases hk : (v k).decided = true
  · exact .inl (apply_decided hk)
  · -- an undecided node is not granted, and a denial grants nothing
    have hgranted : (F.apply e v k).granted = false := by
      rw [granted_apply_deny he]
      by_contra hg
      exact hk (hv.granted_decided (Bool.not_eq_false _ ▸ hg))
    by_cases hd : (F.apply e v k).decided = true
    · exact .inr ⟨hd, hgranted⟩
    · have hcell : ∀ c : Cell, c.decided = false → c.granted = false → c = ⟨false, false⟩ := by
        rintro ⟨_, _⟩ rfl rfl
        rfl
      have hgv : (v k).granted = false := granted_apply_deny he ▸ hgranted
      rw [hcell _ (Bool.not_eq_true _ ▸ hd) hgranted, hcell _ (Bool.not_eq_true _ ▸ hk) hgv]
      exact .inl rfl

/-- **One more denial, anywhere in a walk, changes nothing or denies.** -/
theorem deniesMore_insert (hv : Coherent F v) {e : Option Effect}
    (he : ∀ d ∈ e, d.allow = false) (es es' : List Effect) :
    DeniesMore (F.walk (es ++ es') v) (F.walk (es ++ (e.toList ++ es')) v) := by
  rw [walk_append, walk_append]
  have hmid := hv.walk es
  cases e with
  | none => exact .refl _
  | some d => exact (DeniesMore.of_deny hmid (he d rfl)).walk (hmid.apply d) es'

end Pkm.Forest
