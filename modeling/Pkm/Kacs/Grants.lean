import Pkm.Kacs.Helpers.DaclWalk
/-!
# Grants

What a check grants: a mask for the object and, with an object tree, a mask for
every node. Two grants over one tree are compared mask by mask. A grant is
presented by a function `g`, where `g i k` says whether right `i` is granted at
node `k`: the results of a check are computed on masks and compared through the
functions they are presented by.
-/

namespace Pkm.Kacs

open Bits List

variable {states : List AccessDecisionState}

/-- The scalar mask and the masks of the nodes. -/
structure Grants where
  scalar : Mask
  nodes : Option (List Mask)

namespace Grants

/-- Two grants over one tree, related mask by mask. -/
def Rel (R : Mask → Mask → Prop) (a b : Grants) : Prop :=
  R a.scalar b.scalar ∧ Option.Rel (List.Forall₂ R) a.nodes b.nodes

/-- Everything granted by the first is granted by the second, at every node. -/
instance : HasSubset Grants := ⟨Rel (· ⊆ ·)⟩

/-- Two scalar grants tell. -/
theorem not_subset {a b : Grants} {m m' : Mask} (ha : a.scalar = m) (hb : b.scalar = m')
    (h : ¬ m ⊆ m') : ¬ a ⊆ b := by
  subst ha hb
  exact fun hsub => h hsub.1

/-- `g` says of every right and every node of the tree whether the grant holds it. -/
structure Presents (tree : Option ObjectTypeList) (a : Grants) (g : Fin 32 → ℕ → Bool) :
    Prop where
  scalar : ∀ i, bit a.scalar i = g i 0
  lengths : a.nodes.map List.length = tree.map ObjectTypeList.len
  nodes : ∀ {l}, a.nodes = some l → ∀ {k}, k < l.length → ∀ i, bit (l.getD k 0#32) i = g i k

variable {tree : Option ObjectTypeList} {a b : Grants} {g h : Fin 32 → ℕ → Bool}

theorem forall₂_of_getD {R : Mask → Mask → Prop} {l l' : List Mask}
    (hlen : l.length = l'.length)
    (hR : ∀ k, k < l.length → R (l.getD k 0#32) (l'.getD k 0#32)) : List.Forall₂ R l l' := by
  refine List.forall₂_iff_get.mpr ⟨hlen, fun k hk hk' => ?_⟩
  have := hR k hk
  rwa [getD_eq_getElem _ _ hk, getD_eq_getElem _ _ hk'] at this

namespace Presents

/-- The list of a grant over a tree has one mask per node. -/
theorem exists_nodes {t : ObjectTypeList} (ha : Presents (some t) a g) :
    ∃ l, a.nodes = some l ∧ l.length = t.len := by
  have h := ha.lengths
  cases hl : a.nodes with
  | none => rw [hl] at h; cases h
  | some l => rw [hl] at h; exact ⟨l, rfl, Option.some.inj h⟩

theorem nodes_eq_none (ha : Presents none a g) : a.nodes = none := by
  have h := ha.lengths
  cases hl : a.nodes with
  | none => rfl
  | some l => rw [hl] at h; cases h

/-- **Grants are compared through what presents them.** -/
theorem rel {R : Mask → Mask → Prop} (ha : Presents tree a g) (hb : Presents tree b h)
    (hR : ∀ k, k < (forestOf tree).size → ∀ m m' : Mask, (∀ i, bit m i = g i k) →
      (∀ i, bit m' i = h i k) → R m m') : Rel R a b := by
  refine ⟨hR 0 (forestOf_size_pos tree) _ _ ha.scalar hb.scalar, ?_⟩
  cases tree with
  | none =>
    rw [ha.nodes_eq_none, hb.nodes_eq_none]
    exact .none
  | some t =>
    obtain ⟨l, hl, hlen⟩ := ha.exists_nodes
    obtain ⟨l', hl', hlen'⟩ := hb.exists_nodes
    rw [hl, hl']
    refine .some (forall₂_of_getD (hlen.trans hlen'.symm) fun k hk => ?_)
    exact hR k (Nat.lt_of_lt_of_eq hk hlen) _ _ (ha.nodes hl hk) (hb.nodes hl' (by omega))

/-- Inclusion of grants is inclusion right by right. -/
theorem subset (ha : Presents tree a g) (hb : Presents tree b h)
    (hgh : ∀ i k, k < (forestOf tree).size → g i k = true → h i k = true) : a ⊆ b :=
  ha.rel hb fun k hk m m' hm hm' => subset_iff.mpr fun i hi => by
    rw [hm'] ; exact hgh i k hk (hm i ▸ hi)

theorem le_of_subset (ha : Presents tree a g) (hb : Presents tree b h) (hab : a ⊆ b) {i : Fin 32}
    {k : ℕ} (hk : k < (forestOf tree).size) (hg : g i k = true) : h i k = true := by
  obtain ⟨hscalar, hnodes⟩ : Rel (· ⊆ ·) a b := hab
  cases tree with
  | none =>
    obtain rfl : k = 0 := Nat.lt_one_iff.mp hk
    rw [← ha.scalar] at hg
    rw [← hb.scalar]
    exact bit_of_subset hscalar hg
  | some t =>
    obtain ⟨l, hl, hlen⟩ := ha.exists_nodes
    obtain ⟨l', hl', hlen'⟩ := hb.exists_nodes
    have hkl : k < l.length := hlen ▸ hk
    have hkl' : k < l'.length := hlen' ▸ hk
    rw [hl, hl'] at hnodes
    cases hnodes with
    | some hall =>
      have hmask := hall.get hkl hkl'
      rw [← ha.nodes hl hkl, getD_eq_getElem _ _ hkl] at hg
      rw [← hb.nodes hl' hkl', getD_eq_getElem _ _ hkl']
      exact bit_of_subset hmask hg

/-- The masks of a grant are those of nodes of the tree. -/
theorem lt_size (ha : Presents tree a g) {l : List Mask} (hl : a.nodes = some l) {k : ℕ}
    (hk : k < l.length) : k < (forestOf tree).size := by
  cases tree with
  | none => rw [ha.nodes_eq_none] at hl; cases hl
  | some t =>
    obtain ⟨l', hl', hlen⟩ := ha.exists_nodes
    cases hl.symm.trans hl'
    exact Nat.lt_of_lt_of_eq hk hlen

theorem congr (ha : Presents tree a g)
    (hgh : ∀ i k, k < (forestOf tree).size → g i k = h i k) : Presents tree a h :=
  ⟨fun i => (ha.scalar i).trans (hgh i 0 (forestOf_size_pos tree)), ha.lengths,
    fun hl _ hk i => (ha.nodes hl hk i).trans (hgh i _ (ha.lt_size hl hk))⟩

end Presents

/-- Whether a right is granted at a node. -/
def holdsAt (a : Grants) (i : Fin 32) (k : ℕ) : Bool :=
  match a.nodes with
  | some l => bit (l.getD k 0#32) i
  | none => bit a.scalar i

variable {i : Fin 32} {k : ℕ}

/-- What presents a grant is what the grant holds. -/
theorem Presents.holdsAt_eq (ha : Presents tree a g) (hk : k < (forestOf tree).size) :
    a.holdsAt i k = g i k := by
  unfold holdsAt
  cases tree with
  | none =>
    obtain rfl : k = 0 := Nat.lt_one_iff.mp hk
    rw [ha.nodes_eq_none]
    exact ha.scalar i
  | some t =>
    obtain ⟨l, hl, hlen⟩ := ha.exists_nodes
    rw [hl]
    exact ha.nodes hl (hlen ▸ hk) i

/-- Over a tree, nothing is granted outside it. -/
theorem Presents.lt_of_holdsAt {t : ObjectTypeList} (ha : Presents (some t) a g)
    (h : a.holdsAt i k = true) : k < t.len := by
  obtain ⟨l, hl, hlen⟩ := ha.exists_nodes
  by_contra hge
  have hdefault : l.getD k 0#32 = 0#32 := getD_eq_default _ _ (by omega)
  simp only [holdsAt, hl, hdefault, bit_zero, Bool.false_eq_true] at h

end Grants

/-! ## What an evaluation of a DACL grants -/

/-- The grants of a DACL evaluation. -/
def InternalDaclEvaluation.grants (self : InternalDaclEvaluation) : Grants where
  scalar := self.root.granted
  nodes := self.objectStates.map (·.map (·.granted))

theorem presents_of_states {tree : ObjectTypeList} (hlen : states.length = tree.len) :
    Grants.Presents (some tree)
      (InternalDaclEvaluation.grants { root := states.getD 0 default, objectStates := some states })
      fun i k => (cellsOf i states k).granted := by
  refine ⟨fun i => rfl, by simp [InternalDaclEvaluation.grants, hlen], ?_⟩
  intro l hl k hk i
  cases hl
  rw [getD_eq_getElem _ _ hk, getElem_map, cellsOf_of_lt (by simpa using hk)]
  rfl

theorem presents_of_state (state : AccessDecisionState) :
    Grants.Presents none
      (InternalDaclEvaluation.grants { root := state, objectStates := none })
      fun i k => (cellsOf i [state] k).granted := by
  refine ⟨fun i => rfl, rfl, ?_⟩
  intro l hl
  cases hl

variable {F : Forest}

/-- Equal states at every node are the same cell at every node. -/
theorem cellsOf_replicate {n : ℕ} (hn : n = F.size) (i : Fin 32) (state : AccessDecisionState) :
    cellsOf i (List.replicate n state) = F.uniform (cellOf i state) := by
  funext k
  unfold Forest.uniform
  by_cases hk : k < F.size
  · rw [if_pos hk, cellsOf_of_lt (by simpa [hn] using hk), getElem_replicate]
  · rw [if_neg hk, cellsOf_of_length_le (by simpa [hn] using hk)]

/-- Granting bits everywhere is one effect on the rights they name. -/
theorem cellsOf_applyGlobalToTree_allow (hlen : states.length = F.size) (i : Fin 32) (bits : Mask) :
    cellsOf i (applyGlobalToTree bits .allow states) =
      F.walk (if bit bits i then [⟨true, .all⟩] else []) (cellsOf i states) := by
  rw [cellsOf_applyGlobalToTree hlen]
  split <;> rfl

variable [CharCase] (input : DaclStateInput) (sidMatches : SidMatches)

/-- **A DACL is always evaluated, to the cells of the walk of its effects.** -/
theorem evaluateDaclStates_cells
    (hstart : (startState input).granted ⊆ (startState input).decided) :
    ∃ states, evaluateDaclStates input sidMatches
        = .ok ⟨states.getD 0 default, input.objectTree.map fun _ => states⟩ ∧
      states.length = (forestOf input.objectTree).size ∧
      ∀ i, cellsOf i states = walkCells input sidMatches i := by
  unfold evaluateDaclStates walkCells daclEffects
  cases htree : input.objectTree with
  | none =>
    have huniform := fun i => cellsOf_replicate (F := scalarForest) rfl i (startState input)
    cases hdacl : input.sd.dacl with
    | none =>
      refine ⟨[applyBits input.validRights .allow (startState input)], rfl, rfl, fun i => ?_⟩
      have hcells := cellsOf_applyGlobalToTree_allow (F := scalarForest)
        (length_replicate (a := startState input)) i input.validRights
      exact hcells.trans (congrArg _ (huniform i))
    | some dacl =>
      obtain ⟨state, hok, hcells⟩ := walkScalar_spec sidMatches htree dacl.entries
        (startState input)
      exact ⟨[state], by simp only [hok]; rfl, rfl, fun i =>
        (hcells i).trans (congrArg _ (huniform i))⟩
  | some tree =>
    have huniform := fun i =>
      cellsOf_replicate (F := tree.forest) (n := tree.len) rfl i (startState input)
    have hlen : (List.replicate tree.len (startState input)).length = tree.len := length_replicate
    cases hdacl : input.sd.dacl with
    | none =>
      refine ⟨applyGlobalToTree input.validRights .allow
        (List.replicate tree.len (startState input)), rfl, ?_, fun i => ?_⟩
      · rw [applyGlobalToTree, length_map]
        exact hlen
      · have hcells := cellsOf_applyGlobalToTree_allow (F := tree.forest) hlen i input.validRights
        exact hcells.trans (congrArg _ (huniform i))
    | some dacl =>
      obtain ⟨states, hok, hlen', hcells⟩ := walkTree_spec sidMatches htree
        dacl.entries hlen fun i => by
          rw [huniform]
          exact Forest.Coherent.uniform fun hg => bit_of_subset hstart hg
      exact ⟨states, by simp only [hok]; rfl, hlen', fun i =>
        (hcells i).trans (congrArg _ (huniform i))⟩

/-- So it grants what the walk grants. -/
theorem evaluateDaclStates_spec
    (hstart : (startState input).granted ⊆ (startState input).decided) :
    ∃ ev, evaluateDaclStates input sidMatches = .ok ev ∧
      Grants.Presents input.objectTree ev.grants
        fun i k => (walkCells input sidMatches i k).granted := by
  obtain ⟨states, hok, hlen, hcells⟩ := evaluateDaclStates_cells input sidMatches hstart
  refine ⟨_, hok, ?_⟩
  simp only [← hcells]
  cases htree : input.objectTree with
  | none =>
    rw [htree] at hlen
    obtain ⟨state, rfl⟩ := length_eq_one_iff.mp hlen
    exact presents_of_state state
  | some tree =>
    rw [htree] at hlen
    exact presents_of_states hlen

end Pkm.Kacs
