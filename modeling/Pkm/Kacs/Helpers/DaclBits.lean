import Pkm.Kacs.Helpers.Tree
import Pkm.Kacs.Model.Dacl
/-!
# Decision states, one right at a time

A list of decision states holds, for each of the thirty-two rights, one cell per
node. Every operation of the DACL walk on the states is, for a single right, an
operation of `Forest` on the cells: settling bits, settling a subtree, moving
grants up and moving denials up. An object entry is therefore one effect on each
right its bits name, and nothing on the others as long as their cells are
coherent.
-/

namespace Pkm.Kacs

open Bits List

variable {states : List AccessDecisionState}

/-- The cell of one right in a decision state. -/
def cellOf (i : Fin 32) (state : AccessDecisionState) : Cell :=
  ⟨bit state.decided i, bit state.granted i⟩

/-- The cells of one right in a list of decision states. -/
def cellsOf (i : Fin 32) (states : List AccessDecisionState) : Cells :=
  fun k => cellOf i (states.getD k default)

variable {i : Fin 32} {bits : Mask} {polarity : AcePolarity}

@[simp]
theorem cellOf_default : cellOf i default = ⟨false, false⟩ := by
  have hd : (default : AccessDecisionState) = ⟨0#32, 0#32⟩ := rfl
  simp [cellOf, hd]

/-- **Settling bits settles the cells they name.** -/
theorem cellOf_applyBits (state : AccessDecisionState) :
    cellOf i (applyBits bits polarity state) =
      if bit bits i then (cellOf i state).settle (decide (polarity = .allow))
      else cellOf i state := by
  unfold cellOf applyBits Cell.settle
  cases polarity <;> cases hb : bit bits i <;> cases hd : bit state.decided i <;>
    simp [hb, hd]

theorem cellsOf_of_length_le {k : ℕ} (h : states.length ≤ k) :
    cellsOf i states k = ⟨false, false⟩ := by
  rw [cellsOf, getD_eq_default _ _ h, cellOf_default]

theorem cellsOf_of_lt {k : ℕ} (h : k < states.length) :
    cellsOf i states k = cellOf i states[k] := by
  rw [cellsOf, getD_eq_getElem _ _ h]

theorem cellsOf_modify {index : ℕ} (h : index < states.length)
    (f : AccessDecisionState → AccessDecisionState) :
    cellsOf i (states.modify index f) =
      Function.update (cellsOf i states) index (cellOf i (f (states.getD index default))) := by
  funext k
  by_cases hk : k = index
  · subst hk
    rw [Function.update_self, cellsOf_of_lt (by simpa using h), getElem_modify_eq,
      getD_eq_getElem _ _ h]
  · rw [Function.update_of_ne hk]
    by_cases hlt : k < states.length
    · rw [cellsOf_of_lt (by simpa using hlt), cellsOf_of_lt hlt,
        getElem_modify, if_neg (Ne.symm hk)]
    · rw [cellsOf_of_length_le (by simpa using hlt), cellsOf_of_length_le (by simpa using hlt)]

/-! ## Settling -/

variable (tree : ObjectTypeList) {states : List AccessDecisionState} {index : ℕ}

/-- States that took the bits at a set of nodes are the cells settled there. -/
theorem cellsOf_of_settled {states' : List AccessDecisionState} {p : ℕ → Bool}
    (hlen : states'.length = states.length) (hp : ∀ k, p k = true → k < states.length)
    (hstate : ∀ k (_ : k < states.length),
      states'[k] = if p k then applyBits bits polarity states[k] else states[k]) :
    cellsOf i states' =
      if bit bits i then Forest.settleWhere p (decide (polarity = .allow)) (cellsOf i states)
      else cellsOf i states := by
  funext k
  by_cases hk : k < states.length
  · rw [cellsOf_of_lt (hlen ▸ hk), hstate k hk, apply_ite (cellOf i), cellOf_applyBits,
      ← cellsOf_of_lt hk, ite_apply, Forest.settleWhere]
    split_ifs <;> rfl
  · rw [cellsOf_of_length_le (by omega), ite_apply, Forest.settleWhere, if_neg fun h => hk (hp k h),
      ite_self, cellsOf_of_length_le (by omega)]

/-- An entry for the whole object settles every node. -/
theorem cellsOf_applyGlobalToTree {F : Forest} (hlen : states.length = F.size) :
    cellsOf i (applyGlobalToTree bits polarity states) =
      if bit bits i then
        Forest.settleWhere F.nodes (decide (polarity = .allow)) (cellsOf i states)
      else cellsOf i states := by
  refine cellsOf_of_settled (length_map _) (fun k hk => hlen ▸ of_decide_eq_true hk) ?_
  intro k hk
  rw [Forest.nodes, if_pos (decide_eq_true (hlen ▸ hk))]
  exact getElem_map _

theorem forest_within {k : ℕ} (h : index < tree.len) :
    tree.forest.within index k = tree.inSubtree index k := by
  simp [ObjectTypeList.forest, h]

/-- An entry for a subtree settles its nodes. -/
theorem cellsOf_applyToSubtree (hlen : states.length = tree.len) (hidx : index < tree.len) :
    cellsOf i (applyToSubtree tree index bits polarity states) =
      if bit bits i then
        Forest.settleWhere (tree.forest.within index) (decide (polarity = .allow))
          (cellsOf i states)
      else cellsOf i states := by
  refine cellsOf_of_settled length_mapIdx (fun k hk => hlen ▸ tree.forest.within_lt hk) ?_
  intro k hk
  rw [forest_within tree hidx]
  exact getElem_mapIdx

/-! ## Moving grants up -/

theorem mem_directChildren {c : ℕ} :
    c ∈ tree.directChildren index ↔ tree.forest.parent c = some index := by
  have hdef : tree.forest.parent c = tree.parentOf c := rfl
  simp only [ObjectTypeList.directChildren, mem_filter, mem_range, decide_eq_true_eq]
  constructor
  · exact fun h => h.2
  · intro h
    exact ⟨tree.length_parents ▸ (tree.parentOf_eq_some h).1, h⟩

/-- The bits common to a first word and a list of others. -/
theorem bit_foldl_and {α : Type} (f : α → Mask) (l : List α) (m : Mask) :
    bit (l.foldl (fun common x => common &&& f x) m) i = true ↔
      bit m i = true ∧ ∀ x ∈ l, bit (f x) i = true := by
  induction l generalizing m with
  | nil => simp
  | cons x l ih =>
    rw [foldl_cons, ih, bit_and, Bool.and_eq_true, forall_mem_cons, and_assoc]

theorem length_propagateGrantAt (states : List AccessDecisionState) (index : ℕ) :
    (propagateGrantAt tree index states).length = states.length := by
  unfold propagateGrantAt
  split <;> simp

section

variable (hlen : states.length = tree.len)

include hlen

theorem cellsOf_propagateGrantAt (hidx : index < tree.len) :
    cellsOf i (propagateGrantAt tree index states) =
      tree.forest.climbAt index (cellsOf i states) := by
  unfold propagateGrantAt Forest.climbAt
  split
  · rename_i hnil
    rw [if_neg]
    rintro ⟨⟨c, hc⟩, -⟩
    have := (mem_directChildren tree).mpr hc
    rw [hnil] at this
    cases this
  · rename_i first children hcons
    have hall : bit (children.foldl
          (fun common child => common &&& (states.getD child default).granted)
          (states.getD first default).granted) i = true ↔
        tree.forest.AllChildrenGranted (cellsOf i states) index := by
      rw [bit_foldl_and fun child => (states.getD child default).granted]
      unfold Forest.AllChildrenGranted
      simp only [← mem_directChildren, hcons, forall_mem_cons]
      exact ⟨fun h => ⟨⟨first, mem_cons_self⟩, h⟩, fun h => h.2⟩
    rw [cellsOf_modify (hlen ▸ hidx), cellOf_applyBits]
    split
    · rw [if_pos (hall.mp ‹_›)]
      rfl
    · rw [if_neg fun h => ‹¬ _› (hall.mpr h)]
      exact Function.update_eq_self _ _

/-- Moving grants up from the nodes below `n`. -/
theorem cellsOf_foldr_propagateGrantAt {n : ℕ} (hn : n ≤ tree.len) :
    ((List.range n).foldr (fun index states => propagateGrantAt tree index states)
        states).length = states.length ∧
      cellsOf i ((List.range n).foldr (fun index states => propagateGrantAt tree index states)
        states) = tree.forest.climbBelow n (cellsOf i states) := by
  induction n generalizing states with
  | zero => exact ⟨rfl, rfl⟩
  | succ n ih =>
    rw [range_succ, foldr_append]
    have hlen' := length_propagateGrantAt tree states n
    obtain ⟨h₁, h₂⟩ := ih (hlen'.trans hlen) (by omega)
    refine ⟨h₁.trans hlen', h₂.trans ?_⟩
    rw [cellsOf_propagateGrantAt tree hlen (by omega), Forest.climbBelow]

theorem length_propagateGrantsUp :
    (propagateGrantsUp tree states).length = states.length :=
  (cellsOf_foldr_propagateGrantAt (i := 0) tree hlen (Nat.le_of_eq hlen)).1

/-- Moving grants up is climbing, for every right. -/
theorem cellsOf_propagateGrantsUp :
    cellsOf i (propagateGrantsUp tree states) = tree.forest.climb (cellsOf i states) := by
  unfold propagateGrantsUp
  rw [(cellsOf_foldr_propagateGrantAt tree hlen (Nat.le_of_eq hlen)).2, hlen]
  rfl

end

/-! ## Moving denials up -/

theorem length_propagateDenialsUp (bits : Mask) (fuel : ℕ) (start : Option ℕ)
    (states : List AccessDecisionState) :
    (propagateDenialsUp tree bits fuel start states).length = states.length := by
  induction fuel generalizing start states with
  | zero => rfl
  | succ fuel ih =>
    cases start with
    | none => rfl
    | some index => rw [propagateDenialsUp, ih, length_modify]

/-- Moving denied bits up from a node settles its ancestors; the counter is large enough because
parents come before children. -/
theorem cellsOf_propagateDenialsUp (hlen : states.length = tree.len) {fuel node : ℕ}
    (hfuel : node ≤ fuel) :
    cellsOf i (propagateDenialsUp tree bits fuel (tree.parentOf node) states) =
      if bit bits i then tree.forest.raiseDenials (· = node) (cellsOf i states)
      else cellsOf i states := by
  induction fuel generalizing node states with
  | zero =>
    obtain rfl : node = 0 := by omega
    rw [Forest.raiseDenials_root tree.parentOf_zero, ite_self]
    rfl
  | succ fuel ih =>
    cases hp : tree.parentOf node with
    | none =>
      rw [Forest.raiseDenials_root hp, ite_self]
      rfl
    | some p =>
      obtain ⟨hnode, hlt, -⟩ := tree.parentOf_eq_some hp
      rw [propagateDenialsUp, ih (by rw [length_modify, hlen]) (by omega),
        cellsOf_modify (by omega), cellOf_applyBits]
      split
      · exact Forest.raiseDenials_child hp _
      · exact Function.update_eq_self _ _

/-- The nodes of a subtree with the bits newly denied there. -/
theorem cellsOf_foldl_propagateDenialsUp (hlen : states.length = tree.len)
    (newlyDenied : List (ℕ × Mask)) :
    let result := newlyDenied.foldl (fun states (node, denied) =>
      propagateDenialsUp tree denied (node + 1) (tree.parentOf node) states) states
    result.length = states.length ∧
      cellsOf i result = tree.forest.raiseDenials
        (fun m => ∃ denied, (m, denied) ∈ newlyDenied ∧ bit denied i = true)
        (cellsOf i states) := by
  induction newlyDenied generalizing states with
  | nil =>
    refine ⟨rfl, ?_⟩
    funext k
    exact (Forest.raiseDenials_neg fun m ⟨_, hm, _⟩ => absurd hm not_mem_nil).symm
  | cons entry rest ih =>
    obtain ⟨node, denied⟩ := entry
    have hlen' := length_propagateDenialsUp tree denied (node + 1) (tree.parentOf node) states
    obtain ⟨h₁, h₂⟩ := ih (hlen'.trans hlen)
    refine ⟨h₁.trans hlen', h₂.trans ?_⟩
    have hcons : ∀ m, (∃ d, (m, d) ∈ (node, denied) :: rest ∧ bit d i = true) ↔
        (m = node ∧ bit denied i = true) ∨ ∃ d, (m, d) ∈ rest ∧ bit d i = true := fun m => by
      simp [or_and_right, exists_or, exists_eq_left]
    rw [cellsOf_propagateDenialsUp tree hlen (Nat.le_succ node)]
    simp only [hcons]
    split
    · rename_i hbit
      simp only [hbit, and_true]
      exact Forest.raiseDenials_raiseDenials ..
    · rename_i hbit
      simp [hbit, false_or]

/-! ## Object entries -/

theorem length_applyToSubtree (index : ℕ) (bits : Mask) (polarity : AcePolarity)
    (states : List AccessDecisionState) :
    (applyToSubtree tree index bits polarity states).length = states.length := by
  simp [applyToSubtree]

theorem length_applyObjectAceToTree (hlen : states.length = tree.len) (index : ℕ) :
    (applyObjectAceToTree tree index bits polarity states).length = states.length := by
  have hsub := fun polarity => length_applyToSubtree tree index bits polarity states
  cases polarity with
  | allow =>
    exact (length_propagateGrantsUp tree ((hsub _).trans hlen)).trans (hsub _)
  | deny =>
    exact (cellsOf_foldl_propagateDenialsUp (i := 0) tree ((hsub _).trans hlen) _).1.trans (hsub _)

/-- **An object entry is one effect on every right its bits name**, and leaves the coherent cells
of the others alone. -/
theorem cellsOf_applyObjectAceToTree (hlen : states.length = tree.len) (hidx : index < tree.len)
    (hcoh : Forest.Coherent tree.forest (cellsOf i states)) :
    cellsOf i (applyObjectAceToTree tree index bits polarity states) =
      if bit bits i then
        tree.forest.apply ⟨decide (polarity = .allow), .sub index⟩ (cellsOf i states)
      else cellsOf i states := by
  have hsub := fun polarity => (length_applyToSubtree tree index bits polarity states).trans hlen
  cases polarity with
  | allow =>
    change cellsOf i (propagateGrantsUp tree (applyToSubtree tree index bits .allow states)) = _
    rw [cellsOf_propagateGrantsUp tree (hsub _), cellsOf_applyToSubtree tree hlen hidx]
    split
    · rfl
    · exact hcoh.climb_eq_self
  | deny =>
    refine (cellsOf_foldl_propagateDenialsUp tree (hsub _) _).2.trans ?_
    rw [cellsOf_applyToSubtree tree hlen hidx]
    have hnew : ∀ m, (∃ denied, (m, denied) ∈ (List.range states.length).filterMap (fun node =>
          let denied := bits &&& ~~~(states.getD node default).decided
          if tree.inSubtree index node ∧ denied ≠ 0#32 then some (node, denied) else none) ∧
          bit denied i = true) ↔
        bit bits i = true ∧ tree.forest.within index m = true ∧
          (cellsOf i states m).decided = false := by
      intro m
      simp only [mem_filterMap, mem_range]
      constructor
      · rintro ⟨d, ⟨node, -, hif⟩, hb⟩
        split at hif
        · rename_i hcond
          cases hif
          rw [bit_and, bit_not, Bool.and_eq_true, Bool.not_eq_true'] at hb
          exact ⟨hb.1, (forest_within tree hidx).trans hcond.1, hb.2⟩
        · cases hif
      · rintro ⟨hb, hw, hd⟩
        have hdenied : bit (bits &&& ~~~(states.getD m default).decided) i = true := by
          rw [bit_and, bit_not, hb, Bool.true_and, Bool.not_eq_true']
          exact hd
        refine ⟨_, ⟨m, hlen ▸ tree.forest.within_lt hw, if_pos ⟨?_, ?_⟩⟩, hdenied⟩
        · rw [← forest_within tree hidx, hw]
        · exact ne_zero_iff.mpr ⟨i, hdenied⟩
    simp only [hnew]
    split
    · rename_i hbit
      simp only [hbit, true_and]
      rfl
    · rename_i hbit
      funext k
      exact Forest.raiseDenials_neg fun m hm => absurd hm.1 hbit

end Pkm.Kacs
