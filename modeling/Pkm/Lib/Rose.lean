import Mathlib
/-!
# Rose trees

Finitely branching trees with a value at every node, and the places of a forest of
them. A place is given by its lineage: the node, its parent and so on up to the root,
each with its index among its siblings. Nodes are told apart by where they stand, so
two equal trees at two places are two nodes; the indices of a lineage are the address
of its node. The empty lineage stands for the forest itself, whose children are the
roots.
-/

namespace Pkm

/-- A finitely branching tree with a value at every node. -/
inductive Rose (α : Type*) where
  | node (value : α) (children : List (Rose α))

namespace Rose

variable {α β : Type*}

def value : Rose α → α
  | node v _ => v

def children : Rose α → List (Rose α)
  | node _ cs => cs

@[simp]
theorem value_node (v : α) (cs : List (Rose α)) : (node v cs).value = v := rfl

@[simp]
theorem children_node (v : α) (cs : List (Rose α)) : (node v cs).children = cs := rfl

mutual

variable {P : Rose α → Prop}

/-- **Induction over a tree**, with the hypothesis at every child. -/
@[elab_as_elim]
theorem induction (node : ∀ v cs, (∀ c ∈ cs, P c) → P (node v cs)) :
    ∀ t : Rose α, P t
  | .node v cs => node v cs (induction_all node cs)

theorem induction_all (node : ∀ v cs, (∀ c ∈ cs, P c) → P (.node v cs)) :
    ∀ cs : List (Rose α), ∀ c ∈ cs, P c
  | [] => by simp
  | t :: ts => List.forall_mem_cons.mpr ⟨induction node t, induction_all node ts⟩

end

mutual

/-- The number of nodes. -/
def size : Rose α → ℕ
  | node _ cs => sizeAll cs + 1

/-- The number of nodes of a forest. -/
def sizeAll : List (Rose α) → ℕ
  | [] => 0
  | t :: ts => t.size + sizeAll ts

end

mutual

/-- The tree of the same shape with the values changed. -/
def map (f : α → β) : Rose α → Rose β
  | node v cs => node (f v) (mapAll f cs)

def mapAll (f : α → β) : List (Rose α) → List (Rose β)
  | [] => []
  | t :: ts => t.map f :: mapAll f ts

end

@[simp]
theorem value_map (f : α → β) (t : Rose α) : (t.map f).value = f t.value := by
  cases t
  simp only [map, value]

mutual

/-- The values of all nodes. -/
def members : Rose α → List α
  | node v cs => v :: membersAll cs

/-- The values of all nodes of a forest. -/
def membersAll : List (Rose α) → List α
  | [] => []
  | t :: ts => t.members ++ membersAll ts

end

theorem mem_membersAll {ts : List (Rose α)} {v : α} :
    v ∈ membersAll ts ↔ ∃ t ∈ ts, v ∈ t.members := by
  induction ts with
  | nil => simp [membersAll]
  | cons t ts ih => simp [membersAll, ih]

theorem value_mem_members (t : Rose α) : t.value ∈ t.members := by
  cases t
  simp [members]

theorem members_children_subset {t c : Rose α} (hc : c ∈ t.children) : c.members ⊆ t.members := by
  cases t
  exact fun _ hv => List.mem_cons_of_mem _ (mem_membersAll.mpr ⟨c, hc, hv⟩)

/-- The same tree with the children of any nodes in another order. -/
inductive Shuffle : Rose α → Rose α → Prop where
  | node (v : α) {cs mid cs' : List (Rose α)} :
    List.Forall₂ Shuffle cs mid → mid.Perm cs' → Shuffle (node v cs) (node v cs')

theorem Shuffle.value_eq {t t' : Rose α} (h : Shuffle t t') : t.value = t'.value := by
  cases h
  rfl

/-- The same forest with the roots and the children of any nodes in another order. -/
def ShuffleAll (ts ts' : List (Rose α)) : Prop := ∃ mid, List.Forall₂ Shuffle ts mid ∧ mid.Perm ts'

/-! ## Places -/

/-- A node and the nodes above it, nearest first, each with its index among its siblings. -/
abbrev Lineage (α : Type*) := List (ℕ × Rose α)

namespace Lineage

/-- The address of a node. -/
def address (l : Lineage α) : List ℕ := l.map Prod.fst

/-- The values from a node up to its root. -/
def values (l : Lineage α) : List α := l.map fun x => x.2.value

variable (f : α → β) (l : Lineage α) (x : ℕ × Rose α)

/-- The lineage of the same node with the values changed. -/
def map : Lineage β := List.map (fun x => (x.1, x.2.map f)) l

/-- The nodes right below a place. -/
def below (roots : List (Rose α)) : Lineage α → List (Rose α)
  | [] => roots
  | x :: _ => x.2.children

/-- A lineage that exists in a forest. -/
inductive Rooted (roots : List (Rose α)) : Lineage α → Prop where
  | nil : Rooted roots []
  | cons {l : Lineage α} {i : ℕ} {c : Rose α} :
    Rooted roots l → (below roots l)[i]? = some c → Rooted roots ((i, c) :: l)

@[simp]
theorem address_nil : address ([] : Lineage α) = [] := rfl

@[simp]
theorem address_cons (l : Lineage α) : address (x :: l) = x.1 :: address l := rfl

@[simp]
theorem length_address : (address l).length = l.length := List.length_map ..

@[simp]
theorem values_cons (l : Lineage α) : values (x :: l) = x.2.value :: values l :=
  rfl

@[simp]
theorem map_cons (l : Lineage α) : map f (x :: l) = (x.1, x.2.map f) :: map f l := rfl

@[simp]
theorem address_map : address (map f l) = address l := by
  simp [address, map]

@[simp]
theorem values_map : values (map f l) = (values l).map f := by
  simp [values, map]

/-- The nodes of a lineage are nodes of the forest. -/
theorem Rooted.members_subset {roots : List (Rose α)} {l : Lineage α} (h : Rooted roots l) :
    ∀ x ∈ l, x.2.members ⊆ membersAll roots := by
  induction h with
  | nil => simp
  | @cons l i c hl hc ih =>
    refine List.forall_mem_cons.mpr ⟨?_, ih⟩
    have hmem : c ∈ Lineage.below roots l := List.mem_of_getElem? hc
    cases l with
    | nil => exact fun _ hv => mem_membersAll.mpr ⟨c, hmem, hv⟩
    | cons x l => exact List.Subset.trans (members_children_subset hmem) (ih x List.mem_cons_self)

end Lineage

end Rose

end Pkm
