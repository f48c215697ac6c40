import Mathlib
/-!
# Structures that grow from a root

Nodes are added one by one, each with its parents, which are the root or nodes added
before. What has grown so has no cycle (`Grown.acyclic`), and every node leads to the root
along its parents, whichever of them are followed (`Grown.reaches`).
-/

namespace Pkm

open List

variable {α : Type*}

/-- The nodes, each with its parents, in the order in which they were added. -/
inductive Grown (root : α) : List (α × List α) → Prop where
  | nil : Grown root []
  | snoc {l : List (α × List α)} {a : α} {parents : List α} : Grown root l → a ≠ root →
    a ∉ l.map Prod.fst → (∀ p ∈ parents, p = root ∨ p ∈ l.map Prod.fst) →
    Grown root (l ++ [(a, parents)])

namespace Grown

/-- A node and one of its parents. -/
def Edge (l : List (α × List α)) (a p : α) : Prop := ∃ parents, (a, parents) ∈ l ∧ p ∈ parents

variable {root : α} {l : List (α × List α)} (h : Grown root l)

include h

theorem nodup : (l.map Prod.fst).Nodup := by
  induction h with
  | nil => exact nodup_nil
  | snoc _ _ hfresh _ ih =>
    rw [map_append, nodup_append]
    refine ⟨ih, nodup_singleton _, ?_⟩
    rintro b hb c hc rfl
    obtain rfl := mem_singleton.mp hc
    exact hfresh hb

theorem root_notMem : root ∉ l.map Prod.fst := by
  induction h with
  | nil => exact not_mem_nil
  | snoc _ hne _ _ ih =>
    rw [map_append, mem_append]
    rintro (hmem | hmem)
    · exact ih hmem
    · exact hne (mem_singleton.mp hmem).symm

variable {a : α} {parents : List α}

/-- The parents of a node are the root or were added before it. -/
theorem parents_before {before after : List (α × List α)}
    (hsplit : l = before ++ (a, parents) :: after) :
    ∀ p ∈ parents, p = root ∨ p ∈ before.map Prod.fst := by
  induction h generalizing after with
  | nil => exact absurd hsplit (by simp)
  | @snoc l b bs _ _ _ hparents ih =>
    rcases eq_nil_or_concat after with rfl | ⟨rest, last, rfl⟩
    · obtain ⟨rfl, hlast⟩ := append_inj' hsplit rfl
      obtain ⟨rfl, rfl⟩ := Prod.mk.inj (List.cons.inj hlast).1
      exact hparents
    · have hsplit : l ++ [(b, bs)] = (before ++ (a, parents) :: rest) ++ [last] := by
        simpa using hsplit
      exact ih (append_inj' hsplit rfl).1

theorem mem_of_edge {p : α} (he : Edge l a p) : p = root ∨ p ∈ l.map Prod.fst := by
  obtain ⟨parents, hmem, hp⟩ := he
  obtain ⟨before, after, hsplit⟩ := append_of_mem hmem
  refine (h.parents_before hsplit p hp).imp_right fun hin => ?_
  rw [hsplit, map_append]
  exact mem_append_left _ hin

/-- A path that does not start at the last node stays among the others. -/
theorem transGen_of_ne {b c : α} (hroot : a ≠ root) (hfresh : a ∉ l.map Prod.fst)
    (hparents : ∀ p ∈ parents, p = root ∨ p ∈ l.map Prod.fst)
    (hpath : Relation.TransGen (Edge (l ++ [(a, parents)])) b c) :
    c ≠ a ∧ (b ≠ a → Relation.TransGen (Edge l) b c) := by
  -- an edge from another node is an old one, and no edge leads to the last node
  have hedge : ∀ {x y}, Edge (l ++ [(a, parents)]) x y → y ≠ a ∧ (x ≠ a → Edge l x y) := by
    rintro x y ⟨ps, hmem, hy⟩
    obtain hmem | hmem := mem_append.mp hmem
    · have hold : Edge l x y := ⟨ps, hmem, hy⟩
      refine ⟨?_, fun _ => hold⟩
      rintro rfl
      exact (h.mem_of_edge hold).elim hroot hfresh
    · cases (mem_singleton.mp hmem)
      refine ⟨?_, fun hne => absurd rfl hne⟩
      rintro rfl
      exact (hparents y hy).elim hroot hfresh
  induction hpath with
  | single he => exact ⟨(hedge he).1, fun hne => .single ((hedge he).2 hne)⟩
  | tail _ he ih =>
    obtain ⟨hmid, hpath⟩ := ih
    exact ⟨(hedge he).1, fun hne => (hpath hne).tail ((hedge he).2 hmid)⟩

/-- **No node is its own ancestor.** -/
theorem acyclic (a : α) : ¬ Relation.TransGen (Edge l) a a := by
  induction h with
  | nil =>
    intro hpath
    obtain ⟨_, ⟨_, hmem, _⟩, -⟩ := Relation.TransGen.head'_iff.mp hpath
    exact absurd hmem not_mem_nil
  | snoc hl hroot hfresh hparents ih =>
    intro hpath
    obtain ⟨hne, hold⟩ := hl.transGen_of_ne hroot hfresh hparents hpath
    exact ih (hold hne)

/-- **Every node leads to the root** along any relation that leads from each node to one of its
parents. -/
theorem reaches {R : α → α → Prop} (hR : ∀ x ∈ l, ∃ p ∈ x.2, R x.1 p) (ha : a ∈ l.map Prod.fst) :
    Relation.TransGen R a root := by
  induction h generalizing a with
  | nil => exact absurd ha not_mem_nil
  | @snoc l b parents _ _ _ hparents ih =>
    have ih := fun {c} => ih (a := c) fun x hx => hR x (mem_append_left _ hx)
    rw [map_append, mem_append] at ha
    obtain ha | ha := ha
    · exact ih ha
    · obtain rfl := mem_singleton.mp ha
      obtain ⟨p, hp, hRp⟩ := hR (a, parents) (by simp)
      obtain rfl | hin := hparents p hp
      · exact .single hRp
      · exact .head hRp (ih hin)

end Grown

end Pkm
