import Mathlib
/-!
# Folding a meet

An operation that is commutative, associative and idempotent absorbs what it has
already met, so folding it over a list depends only on which elements the list
holds: not on their order and not on how often they occur.
-/

namespace Pkm.Meet

open List

variable {α : Type*} {f : α → α → α} [Std.Commutative f] [Std.Associative f] {l l' : List α}

/-- Meeting one more element after a fold or before it is the same. -/
theorem foldl_right (l : List α) (a x : α) : f (l.foldl f a) x = l.foldl f (f a x) := by
  induction l generalizing a with
  | nil => rfl
  | cons y l ih =>
    have hswap : f (f a y) x = f (f a x) y := by ac_rfl
    rw [foldl_cons, ih, hswap, foldl_cons]

/-- Two folds after each other can be exchanged. -/
theorem foldl_foldl_comm (l l' : List α) (a : α) :
    l'.foldl f (l.foldl f a) = l.foldl f (l'.foldl f a) := by
  induction l' generalizing a with
  | nil => rfl
  | cons x l' ih => rw [foldl_cons, foldl_right (f := f), ih, foldl_cons]

variable [Std.IdempotentOp f]

/-- A fold has met every element of its list. -/
theorem foldl_absorb {x : α} (hx : x ∈ l) (a : α) : f (l.foldl f a) x = l.foldl f a := by
  induction l generalizing a with
  | nil => cases hx
  | cons y l ih =>
    obtain rfl | hx := mem_cons.mp hx
    · have hself : f x x = x := Std.IdempotentOp.idempotent x
      have htwice : f (f a x) x = f a (f x x) := Std.Associative.assoc a x x
      rw [foldl_cons, foldl_right (f := f), htwice, hself]
    · exact ih hx _

/-- Elements already met change nothing. -/
theorem foldl_of_subset (h : ∀ x ∈ l', x ∈ l) (a : α) :
    l'.foldl f (l.foldl f a) = l.foldl f a := by
  induction l' with
  | nil => rfl
  | cons x l' ih =>
    rw [foldl_cons, foldl_absorb (f := f) (h x mem_cons_self)]
    exact ih (forall_mem_cons.mp h).2

/-- **The fold of a meet depends on the elements only.** -/
theorem foldl_congr_mem (h : ∀ x, x ∈ l ↔ x ∈ l') (a : α) : l.foldl f a = l'.foldl f a := by
  rw [← foldl_of_subset (fun x hx => (h x).mpr hx) a, foldl_foldl_comm,
    foldl_of_subset (fun x hx => (h x).mp hx) a]

end Pkm.Meet
