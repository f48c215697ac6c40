import Pkm.Kacs.Model.ObjectTree
import Pkm.Lib.Coherent
/-!
# The forest of an object-type tree

The constructor's stack is the path to the last node, one entry a level. From
that, the parent of a node is the nearest earlier node of a smaller level, the
range of a subtree is the run of deeper nodes behind its root, and the two agree:
an accepted list is a `Forest` with a single root.
-/

namespace Pkm.Kacs

open List

namespace ObjectTypeList

variable {nodes : List ObjectTypeNode} {s : List (Option ℕ) × List ℕ} {c i k n : ℕ}

/-- The stack holds one node a level, and everything behind a node on it is deeper. -/
structure StackInv (nodes : List ObjectTypeNode) (n : ℕ) (parents : List (Option ℕ))
    (stack : List ℕ) : Prop where
  length_parents : parents.length = n
  length_stack : 0 < n → stack.length = (levelAt nodes (n - 1)).toNat + 1
  entry : ∀ {j e}, stack[j]? = some e → e < n ∧ (levelAt nodes e).toNat = j ∧
    ∀ m, e < m → m < n → j < (levelAt nodes m).toNat
  root : 0 < n → parents[0]? = some none
  parent : ∀ {c}, 0 < c → c < n → ∃ p, parents[c]? = some (some p) ∧ p < c ∧
    (levelAt nodes p).toNat < (levelAt nodes c).toNat ∧
    ∀ m, p < m → m < c → (levelAt nodes c).toNat ≤ (levelAt nodes m).toNat

theorem StackInv.zero : StackInv nodes 0 [] [] := ⟨rfl, by omega, by simp, by omega, by omega⟩

/-- Placing a node keeps the invariant. -/
theorem StackInv.step {parents : List (Option ℕ)} {stack : List ℕ}
    (hroot : levelAt nodes 0 = 0#16) (hn : n < nodes.length) (h : StackInv nodes n parents stack)
    (hs : placeNode nodes (parents, stack) n = .ok s) : StackInv nodes (n + 1) s.1 s.2 := by
  have hlevel : levelAt nodes n = nodes[n].level := by simp [levelAt, hn]
  unfold placeNode at hs
  simp only [getElem?_eq_getElem hn] at hs
  split_ifs at hs with hdup h0 hz hgap
  · -- the root
    subst h0
    cases hs
    obtain ⟨hp, -, hentry, -, -⟩ := h
    have hpe : parents = [] := length_eq_zero_iff.mp hp
    have hse : stack = [] := by
      cases hst : stack with
      | nil => rfl
      | cons e es =>
        have := (hentry (j := 0) (e := e) (by simp [hst])).1
        omega
    subst hpe hse
    refine ⟨rfl, fun _ => by simp [hroot], ?_, fun _ => rfl, by omega⟩
    intro j e he
    obtain ⟨rfl, rfl⟩ : j = 0 ∧ e = 0 := by
      cases j with
      | zero => simpa using he.symm
      | succ j => simp at he
    exact ⟨by omega, by simp [hroot], by omega⟩
  · have hpos : 0 < n := Nat.pos_of_ne_zero h0
    have hlen := h.length_stack hpos
    have hge : (nodes[n].level).toNat ≤ stack.length := by
      have hle := BitVec.not_lt.mp hgap
      rw [BitVec.le_def, BitVec.toNat_add] at hle
      simp only [BitVec.toNat_ofNat] at hle
      omega
    have hlpos : 0 < (nodes[n].level).toNat :=
      Nat.pos_of_ne_zero fun h' => hz (BitVec.eq_of_toNat_eq h')
    split at hs
    · cases hs
    · rename_i p hp
      cases hs
      have hplast : stack[(nodes[n].level).toNat - 1]? = some p := by
        rw [getLast?_eq_getElem?, length_take, Nat.min_eq_left hge, getElem?_take] at hp
        rw [if_pos (by omega)] at hp
        exact hp
      obtain ⟨hpn, hpl, hpm⟩ := h.entry hplast
      refine ⟨by simp [h.length_parents], fun _ => ?_, ?_, ?_, ?_⟩
      · simp [Nat.min_eq_left hge, hlevel]
      · intro j e he
        rcases Nat.lt_or_ge j (nodes[n].level).toNat with hj | hj
        · rw [getElem?_append_left (by rw [length_take]; omega),
            getElem?_take, if_pos hj] at he
          obtain ⟨he₁, he₂, he₃⟩ := h.entry he
          refine ⟨by omega, he₂, fun m hm hmn => ?_⟩
          rcases Nat.lt_or_ge m n with hm' | hm'
          · exact he₃ m hm hm'
          · obtain rfl : m = n := by omega
            rw [hlevel]
            exact hj
        · rw [getElem?_append_right (by rw [length_take]; omega), length_take,
            Nat.min_eq_left hge] at he
          obtain ⟨hj', rfl⟩ : j = (nodes[n].level).toNat ∧ n = e := by
            cases hk : j - (nodes[n].level).toNat with
            | zero =>
              rw [hk] at he
              exact ⟨by omega, by simpa using he⟩
            | succ k => rw [hk] at he; simp at he
          exact ⟨by omega, by rw [hlevel, hj'], by omega⟩
      · intro _
        rw [getElem?_append_left (by rw [h.length_parents]; exact hpos)]
        exact h.root hpos
      · intro c hc hcn
        rcases Nat.lt_or_ge c n with hc' | hc'
        · obtain ⟨q, hq, hrest⟩ := h.parent hc hc'
          exact ⟨q, by rw [getElem?_append_left (by rw [h.length_parents]; exact hc'), hq], hrest⟩
        · obtain rfl : c = n := by omega
          refine ⟨p, ?_, hpn, ?_, ?_⟩
          · rw [getElem?_append_right (Nat.le_of_eq h.length_parents),
              h.length_parents]
            simp
          · rw [hlevel]; omega
          · intro m hm hmc
            have := hpm m hm hmc
            rw [hlevel]; omega

/-- The whole construction keeps the invariant. -/
theorem StackInv.run (hroot : levelAt nodes 0 = 0#16) (hn : n ≤ nodes.length)
    (hs : (List.range n).foldlM (placeNode nodes) ([], []) = .ok s) : StackInv nodes n s.1 s.2 := by
  induction n generalizing s with
  | zero =>
    cases hs
    exact StackInv.zero
  | succ n ih =>
    rw [range_succ, foldlM_append] at hs
    obtain ⟨t, ht, hs⟩ := Outcome.of_bind hs
    obtain ⟨u, hu, hs⟩ := Outcome.of_bind hs
    cases hs
    exact (ih (by omega) ht).step hroot (by omega) hu

variable (self : ObjectTypeList)

/-- The invariant of an accepted list. -/
theorem stackInv : ∃ stack, StackInv self.nodes self.len self.parents stack := by
  have h := self.wf
  unfold computeParents at h
  split_ifs at h with he hr
  obtain ⟨s, hs, hp⟩ := Outcome.of_bind h
  rw [← Except.ok.inj hp]
  exact ⟨s.2, StackInv.run (by simpa using hr) (Nat.le_refl _) hs⟩

theorem len_pos : 0 < self.len := by
  have h := self.wf
  unfold computeParents at h
  split_ifs at h with he
  rw [List.isEmpty_iff] at he
  exact length_pos_iff.mpr he

theorem length_parents : self.parents.length = self.len := by
  obtain ⟨_, h⟩ := self.stackInv
  exact h.length_parents

/-- The level of a node, as a number. -/
def level (index : ℕ) : ℕ := (levelAt self.nodes index).toNat

theorem parentOf_zero : self.parentOf 0 = none := by
  obtain ⟨_, h⟩ := self.stackInv
  simp [parentOf, h.root self.len_pos]

/-- Every node but the root has a parent: the nearest earlier node of a smaller level. -/
theorem exists_parentOf (h0 : 0 < c) (hc : c < self.len) :
    ∃ p, self.parentOf c = some p ∧ p < c ∧ self.level p < self.level c ∧
      ∀ m, p < m → m < c → self.level c ≤ self.level m := by
  obtain ⟨_, h⟩ := self.stackInv
  obtain ⟨p, hp, hrest⟩ := h.parent h0 hc
  exact ⟨p, by simp [parentOf, hp], hrest⟩

theorem parentOf_of_le (hc : self.len ≤ c) : self.parentOf c = none := by
  rw [parentOf, getD_eq_getElem?_getD, getElem?_eq_none (by rw [self.length_parents]; exact hc)]
  rfl

theorem parentOf_eq_some {p : ℕ} (h : self.parentOf c = some p) :
    c < self.len ∧ p < c ∧ self.level p < self.level c ∧
      ∀ m, p < m → m < c → self.level c ≤ self.level m := by
  have hc : c < self.len := by
    by_contra hn
    rw [self.parentOf_of_le (Nat.not_lt.mp hn)] at h
    cases h
  have h0 : 0 < c := by
    refine Nat.pos_of_ne_zero fun h0 => ?_
    rw [h0, self.parentOf_zero] at h
    cases h
  obtain ⟨q, hq, hrest⟩ := self.exists_parentOf h0 hc
  cases hq.symm.trans h
  exact ⟨hc, hrest⟩

/-! ## Subtrees -/

/-- The range of a subtree is the run of deeper nodes behind its root. -/
theorem lt_subtreeEnd (hik : i < k) :
    k < self.subtreeEnd i ↔ k < self.len ∧ ∀ m, i < m → m ≤ k → self.level i < self.level m := by
  have hk : k < self.subtreeEnd i ↔ k - (i + 1) < (self.nodes.drop (i + 1)).findIdx fun node =>
      !decide (node.level > levelAt self.nodes i) := by
    rw [subtreeEnd, takeWhile_eq_take_findIdx_not, length_take, Nat.min_eq_left findIdx_le_length]
    omega
  have hdeeper : ∀ (j : ℕ) (hj : j < (self.nodes.drop (i + 1)).length),
      (!decide ((self.nodes.drop (i + 1))[j].level > levelAt self.nodes i)) = false ↔
        self.level i < self.level (i + 1 + j) := by
    intro j hj
    rw [length_drop] at hj
    simp [level, levelAt, getElem?_eq_getElem (show i + 1 + j < self.nodes.length by omega),
      BitVec.lt_def]
  rw [hk, lt_findIdx_iff]
  constructor
  · rintro ⟨hlt, h⟩
    have hlt' := hlt
    rw [length_drop] at hlt'
    refine ⟨show k < self.nodes.length by omega, fun m hm hmk => ?_⟩
    have hm' := (hdeeper (m - (i + 1)) (by omega)).mp (h _ (by omega))
    rwa [show i + 1 + (m - (i + 1)) = m by omega] at hm'
  · rintro ⟨hlen, h⟩
    have hlt : k - (i + 1) < (self.nodes.drop (i + 1)).length := by
      rw [length_drop]
      exact Nat.sub_lt_sub_right hik hlen
    exact ⟨hlt, fun j hj => (hdeeper j (by omega)).mpr (h _ (by omega) (by omega))⟩

/-- A node lies in a subtree when everything between is deeper than the root of the subtree. -/
theorem inSubtree_iff (hi : i < self.len) :
    self.inSubtree i k = true ↔
      i ≤ k ∧ k < self.len ∧ ∀ m, i < m → m ≤ k → self.level i < self.level m := by
  unfold inSubtree
  rw [decide_eq_true_iff]
  rcases Nat.lt_trichotomy i k with hik | rfl | hki
  · rw [self.lt_subtreeEnd hik]
  · have : i < self.subtreeEnd i := by unfold subtreeEnd; omega
    exact ⟨fun _ => ⟨Nat.le_refl _, hi, by omega⟩, fun _ => ⟨Nat.le_refl _, this⟩⟩
  · exact ⟨fun h => by omega, fun h => by omega⟩

/-! ## The forest -/

/-- The forest of an accepted list. -/
def forest : Forest where
  size := self.len
  parent := self.parentOf
  within i k := decide (i < self.len) && self.inSubtree i k
  parent_lt h := (self.parentOf_eq_some h).2.1
  child_lt h := (self.parentOf_eq_some h).1
  within_lt := by
    intro i k h
    rw [Bool.and_eq_true, decide_eq_true_iff] at h
    exact ((self.inSubtree_iff h.1).mp h.2).2.1
  within_child := by
    intro i c p hc h
    rw [Bool.and_eq_true, decide_eq_true_iff] at h ⊢
    obtain ⟨hi, h⟩ := h
    obtain ⟨hip, -, hm⟩ := (self.inSubtree_iff hi).mp h
    obtain ⟨hclen, hpc, hlev, hbetween⟩ := self.parentOf_eq_some hc
    have hpi : self.level i ≤ self.level p := by
      rcases Nat.eq_or_lt_of_le hip with rfl | hlt
      · exact Nat.le_refl _
      · exact Nat.le_of_lt (hm p hlt (Nat.le_refl _))
    refine ⟨hi, (self.inSubtree_iff hi).mpr ⟨by omega, hclen, fun m him hmc => ?_⟩⟩
    rcases Nat.lt_or_ge p m with hpm | hmp
    · rcases Nat.eq_or_lt_of_le hmc with rfl | hlt
      · omega
      · have := hbetween m hpm hlt
        omega
    · exact hm m him hmp
  within_parent := by
    intro i c h hne
    simp only [Bool.and_eq_true, decide_eq_true_iff] at h ⊢
    obtain ⟨hi, h⟩ := h
    obtain ⟨hic, hclen, hm⟩ := (self.inSubtree_iff hi).mp h
    have hlt : i < c := by omega
    obtain ⟨p, hp, hpc, hlev, hbetween⟩ := self.exists_parentOf (by omega) hclen
    have hlc := hm c hlt (Nat.le_refl _)
    -- the root of the subtree is an earlier node of a smaller level, so the parent is not before it
    have hip : i ≤ p := by
      by_contra hn
      have := hbetween i (by omega) hlt
      omega
    exact ⟨p, hp, hi, (self.inSubtree_iff hi).mpr
      ⟨hip, by omega, fun m him hmp => hm m him (by omega)⟩⟩

/-- The tree has a single root. -/
theorem forest_single_root : ∀ k, k < self.forest.size → k ≠ 0 →
    ∃ p, self.forest.parent k = some p := by
  intro k hk h0
  obtain ⟨p, hp, -⟩ := self.exists_parentOf (Nat.pos_of_ne_zero h0) hk
  exact ⟨p, hp⟩

theorem find_lt {guid : Guid} (h : self.find guid = some i) : i < self.len := by
  obtain ⟨hi, -⟩ := findIdx?_eq_some_iff_getElem.mp h
  exact hi

end ObjectTypeList

/-- The one-node forest of a check without a tree. -/
def scalarForest : Forest where
  size := 1
  parent _ := none
  within _ _ := false
  parent_lt h := by cases h
  child_lt h := by cases h
  within_lt h := by cases h
  within_child h _ := by cases h
  within_parent h _ := by cases h

/-- The forest a check decides over. -/
def forestOf : Option ObjectTypeList → Forest
  | some tree => tree.forest
  | none => scalarForest

theorem forestOf_size_pos (tree : Option ObjectTypeList) : 0 < (forestOf tree).size := by
  cases tree with
  | none => exact Nat.one_pos
  | some tree => exact tree.len_pos

theorem forestOf_single_root (tree : Option ObjectTypeList) :
    ∀ k, k < (forestOf tree).size → k ≠ 0 → ∃ p, (forestOf tree).parent k = some p := by
  cases tree with
  | none =>
    intro k hk h0
    have : k < 1 := hk
    omega
  | some tree => exact tree.forest_single_root

end Pkm.Kacs
