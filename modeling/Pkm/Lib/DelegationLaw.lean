import Pkm.Lib.Delegation
/-!
# Which nodes of a forest act

The walk of `Delegation`, read off the forest alone. A node acts if it is triggered, or
if it is the nearest node that can speak above a triggered node without an answer
(`mem_runsAll_iff`). Subtrees are followed downwards by `Under`; a question that is
left open in a subtree is `Open` there, which is what `asks` computes.
-/

namespace Pkm

open List Rose

namespace Delegation

variable {α : Type*} {D : Delegation α} {above base l q : Lineage α}

section Law

variable (D) (roots : List (Rose α))

/-- None of the nodes right below admits the question. -/
def Quiet (l : Lineage α) : Prop := ∀ c ∈ Lineage.below roots l, D.admits c.value = false

/-- A node that admits the question, as do all nodes above it, but no node right below. -/
structure Triggered (l : Lineage α) : Prop where
  ne_nil : l ≠ []
  rooted : Lineage.Rooted roots l
  admitted : ∀ x ∈ l, D.admits x.2.value = true
  quiet : D.Quiet roots l

/-- The nearest node that can speak above a triggered node without an answer. -/
def SpeaksFor (q : Lineage α) : Prop :=
  ∃ x above, D.Triggered roots (x :: above) ∧ D.answers x.2.value = false ∧ D.speaker above = some q

/-- What is reached from a place through nodes that admit the question. -/
inductive Under (base : Lineage α) : Lineage α → Prop where
  | self : Under base base
  | child {l : Lineage α} {i : ℕ} {c : Rose α} : Under base l →
    (Lineage.below roots l)[i]? = some c → D.admits c.value = true → Under base ((i, c) :: l)

/-- A triggered node under `base` leaves its question to `q` or to a node above `q`. -/
def Open (base q : Lineage α) : Prop :=
  ∃ x mid, D.Under roots base (x :: (mid ++ q)) ∧ D.Quiet roots (x :: (mid ++ q)) ∧
    D.answers x.2.value = false ∧ ∀ y ∈ mid, D.speaks y.2.value = false

end Law

variable {roots : List (Rose α)}

theorem Under.suffix (h : D.Under roots base l) : base <:+ l := by
  induction h with
  | self => exact suffix_refl _
  | child _ _ _ ih => exact ih.trans (suffix_cons _ _)

theorem Under.trans {a b c : Lineage α} (h : D.Under roots a b) (h' : D.Under roots b c) :
    D.Under roots a c := by
  induction h' with
  | self => exact h
  | child _ hc hadm ih => exact .child ih hc hadm

/-- **The first step down.** -/
theorem under_iff :
    D.Under roots base l ↔ l = base ∨ ∃ i c, (Lineage.below roots base)[i]? = some c ∧
      D.admits c.value = true ∧ D.Under roots ((i, c) :: base) l := by
  constructor
  · intro h
    induction h with
    | self => exact .inl rfl
    | child _ hc hadm ih =>
      obtain rfl | ⟨j, d, hd, hadm', hu⟩ := ih
      · exact .inr ⟨_, _, hc, hadm, .self⟩
      · exact .inr ⟨j, d, hd, hadm', .child hu hc hadm⟩
  · rintro (rfl | ⟨i, c, hc, hadm, hu⟩)
    · exact .self
    · exact (Under.child .self hc hadm).trans hu

/-- What lies between is reached on the way. -/
theorem Under.split {m : Lineage α} (h : D.Under roots base l) (hbase : base <:+ m) (hm : m <:+ l) :
    D.Under roots base m ∧ D.Under roots m l := by
  induction h with
  | self =>
    obtain rfl := hm.eq_of_length_le hbase.length_le
    exact ⟨.self, .self⟩
  | child hu hc hadm ih =>
    obtain rfl | hm := suffix_cons_iff.mp hm
    · exact ⟨.child hu hc hadm, .self⟩
    · exact ⟨(ih hm).1, .child (ih hm).2 hc hadm⟩

theorem under_nil_iff :
    D.Under roots [] l ↔ Lineage.Rooted roots l ∧ ∀ x ∈ l, D.admits x.2.value = true := by
  constructor
  · intro h
    induction h with
    | self => exact ⟨.nil, by simp⟩
    | child _ hc hadm ih =>
      exact ⟨.cons ih.1 hc, forall_mem_cons.mpr ⟨hadm, ih.2⟩⟩
  · rintro ⟨hr, hall⟩
    induction hr with
    | nil => exact .self
    | cons _ hc ih =>
      obtain ⟨hadm, hall⟩ := forall_mem_cons.mp hall
      exact .child (ih hall) hc hadm

theorem quiet_iff :
    D.Quiet roots l ↔ ((Lineage.below roots l).any fun c => D.admits c.value) = false := by
  rw [Quiet]
  simp

theorem eq_of_under_of_quiet (hq : D.Quiet roots base) (h : D.Under roots base l) : l = base := by
  obtain h | ⟨i, c, hc, hadm, -⟩ := under_iff.mp h
  · exact h
  · exact absurd hadm (by simp [hq c (mem_of_getElem? hc)])

theorem speaker_eq_some_iff :
    D.speaker l = some q ↔ ∃ mid y rest, l = mid ++ q ∧ q = y :: rest ∧
      D.speaks y.2.value = true ∧ ∀ z ∈ mid, D.speaks z.2.value = false := by
  induction l with
  | nil =>
    constructor
    · intro h
      cases h
    · rintro ⟨mid, y, rest, hl, rfl, -, -⟩
      exact absurd hl (by simp)
  | cons x l ih =>
    cases hx : D.speaks x.2.value with
    | true =>
      rw [speaker, if_pos hx]
      constructor
      · intro h
        cases h
        exact ⟨[], x, l, rfl, rfl, hx, by simp⟩
      · rintro ⟨mid, y, rest, hl, rfl, -, hmid⟩
        cases mid with
        | nil => rw [hl]; rfl
        | cons z mid =>
          cases hl
          exact absurd hx (by simp [hmid x mem_cons_self])
    | false =>
      rw [speaker, if_neg (by simp [hx]), ih]
      constructor
      · rintro ⟨mid, y, rest, rfl, hq, hy, hmid⟩
        exact ⟨x :: mid, y, rest, rfl, hq, hy, forall_mem_cons.mpr ⟨hx, hmid⟩⟩
      · rintro ⟨mid, y, rest, hl, rfl, hy, hmid⟩
        cases mid with
        | nil =>
          cases hl
          exact absurd hx (by simp [hy])
        | cons z mid =>
          exact ⟨mid, y, rest, (List.cons.inj hl).2, rfl, hy, (forall_mem_cons.mp hmid).2⟩

/-- A question left below a child is left below its parent, past the parent if it cannot speak. -/
theorem open_child_iff {x y : ℕ × Rose α} :
    D.Open roots (y :: x :: above) above ↔
      D.Open roots (y :: x :: above) (x :: above) ∧ D.speaks x.2.value = false := by
  constructor
  · rintro ⟨z, mid, hu, hq, hans, hmid⟩
    -- the lineage passes through `x`, which is the last of those between
    obtain ⟨pre, hpre⟩ := hu.suffix
    have happ : (pre ++ [y, x]) ++ above = (z :: mid) ++ above := by simpa using hpre
    have hsplit : pre ++ [y, x] = z :: mid := append_cancel_right happ
    cases pre with
    | nil =>
      obtain ⟨rfl, rfl⟩ : y = z ∧ [x] = mid := by simpa using hsplit
      exact ⟨⟨y, [], hu, hq, hans, by simp⟩, hmid x mem_cons_self⟩
    | cons w pre =>
      obtain ⟨rfl, rfl⟩ : w = z ∧ pre ++ [y, x] = mid := by simpa using hsplit
      refine ⟨⟨w, pre ++ [y], ?_, ?_, hans, fun v hv => hmid v ?_⟩, hmid x (by simp)⟩
      · simpa using hu
      · simpa using hq
      · simp only [mem_append, mem_cons] at hv ⊢
        tauto
  · rintro ⟨⟨z, mid, hu, hq, hans, hmid⟩, hx⟩
    exact ⟨z, mid ++ [x], by simpa using hu, by simpa using hq, hans,
      forall_mem_append.mpr ⟨hmid, forall_mem_singleton.mpr hx⟩⟩

theorem open_iff_of_not_quiet (hnot : ¬ D.Quiet roots base) :
    D.Open roots base q ↔ ∃ i c, (Lineage.below roots base)[i]? = some c ∧
      D.admits c.value = true ∧ D.Open roots ((i, c) :: base) q := by
  constructor
  · rintro ⟨x, mid, hu, hq, hrest⟩
    obtain heq | ⟨i, c, hc, hadm, hu⟩ := under_iff.mp hu
    · exact absurd (heq ▸ hq) hnot
    · exact ⟨i, c, hc, hadm, x, mid, hu, hq, hrest⟩
  · rintro ⟨i, c, hc, hadm, x, mid, hu, hrest⟩
    exact ⟨x, mid, under_iff.mpr (.inr ⟨i, c, hc, hadm, hu⟩), hrest⟩

theorem asksAll_iff {cs : List (Rose α)} :
    D.asksAll cs = true ↔
      ∃ (i : ℕ) (c : Rose α), cs[i]? = some c ∧ D.admits c.value = true ∧ D.asks c = true := by
  induction cs with
  | nil => simp [asksAll]
  | cons c cs ih =>
    rw [asksAll, Bool.or_eq_true, Bool.and_eq_true, ih]
    constructor
    · rintro (⟨hadm, hask⟩ | ⟨i, d, hd, h⟩)
      · exact ⟨0, c, rfl, hadm, hask⟩
      · exact ⟨i + 1, d, hd, h⟩
    · rintro ⟨i, d, hd, h⟩
      cases i with
      | zero => exact .inl (Option.some.inj hd ▸ h)
      | succ i => exact .inr ⟨i, d, hd, h⟩

/-- **A subtree asks** when a triggered node in it is left without an answer in it. -/
theorem asks_iff (t : Rose α) {i : ℕ} : D.asks t = true ↔ D.Open roots ((i, t) :: above) above := by
  induction t using Rose.induction generalizing above i with
  | node v cs ih =>
    rw [asks]
    cases hany : cs.any fun c => D.admits c.value with
    | false =>
      have hq : D.Quiet roots ((i, .node v cs) :: above) := quiet_iff.mpr hany
      simp only [Bool.false_eq_true, if_false, Bool.not_eq_true']
      constructor
      · intro hans
        exact ⟨(i, .node v cs), [], .self, hq, hans, by simp⟩
      · rintro ⟨x, mid, hu, -, hans, -⟩
        obtain ⟨rfl, -⟩ := List.cons.inj (eq_of_under_of_quiet hq hu)
        exact hans
    | true =>
      have hnot : ¬ D.Quiet roots ((i, .node v cs) :: above) := by
        intro h
        exact absurd (quiet_iff.mp h) (by simp [Lineage.below, hany])
      rw [if_pos rfl, Bool.and_eq_true, Bool.not_eq_true', asksAll_iff, open_iff_of_not_quiet hnot]
      constructor
      · rintro ⟨hv, j, c, hc, hadm, hask⟩
        have hmem : c ∈ cs := mem_of_getElem? hc
        exact ⟨j, c, hc, hadm, open_child_iff.mpr ⟨(ih c hmem).mp hask, hv⟩⟩
      · rintro ⟨j, c, hc, hadm, hopen⟩
        obtain ⟨hopen, hv⟩ := open_child_iff.mp hopen
        exact ⟨hv, j, c, hc, hadm, (ih c (mem_of_getElem? hc)).mpr hopen⟩

/-- **Who acts in a subtree**: its triggered nodes, and those that a question under them is
left to. -/
theorem mem_runs_iff (t : Rose α) {i : ℕ} :
    q ∈ D.runs above i t ↔ D.Under roots ((i, t) :: above) q ∧
      (D.Quiet roots q ∨ D.Open roots q q ∧ ∃ y rest, q = y :: rest ∧
        D.speaks y.2.value = true) := by
  induction t using Rose.induction generalizing above i with
  | node v cs ih =>
    rw [runs]
    cases hany : cs.any fun c => D.admits c.value with
    | false =>
      have hq : D.Quiet roots ((i, .node v cs) :: above) := quiet_iff.mpr hany
      simp only [Bool.false_eq_true, if_false, mem_singleton]
      constructor
      · rintro rfl
        exact ⟨.self, .inl hq⟩
      · rintro ⟨hu, -⟩
        exact eq_of_under_of_quiet hq hu
    | true =>
      have hnot : ¬ D.Quiet roots ((i, .node v cs) :: above) := by
        intro h
        exact absurd (quiet_iff.mp h) (by simp [Lineage.below, hany])
      have hself : D.asksAll cs = true ↔
          D.Open roots ((i, .node v cs) :: above) ((i, .node v cs) :: above) := by
        rw [asksAll_iff, open_iff_of_not_quiet hnot]
        constructor
        · rintro ⟨j, c, hc, hadm, hask⟩
          exact ⟨j, c, hc, hadm, (asks_iff c).mp hask⟩
        · rintro ⟨j, c, hc, hadm, hopen⟩
          exact ⟨j, c, hc, hadm, (asks_iff c).mpr hopen⟩
      rw [if_pos rfl, mem_append, mem_runsAll, under_iff]
      constructor
      · rintro (⟨j, c, hc, hadm, hq⟩ | hq)
        · rw [Nat.zero_add] at hq
          obtain ⟨hu, hq⟩ := (ih c (mem_of_getElem? hc)).mp hq
          exact ⟨.inr ⟨j, c, hc, hadm, hu⟩, hq⟩
        · cases hboth : (D.speaks v && D.asksAll cs) with
          | false => simp [hboth] at hq
          | true =>
            obtain ⟨hv, hask⟩ := Bool.and_eq_true_iff.mp hboth
            rw [if_pos hboth, mem_singleton] at hq
            subst hq
            exact ⟨.inl rfl, .inr ⟨hself.mp hask, _, _, rfl, hv⟩⟩
      · rintro ⟨rfl | ⟨j, c, hc, hadm, hu⟩, hq⟩
        · obtain hq | ⟨hopen, y, rest, heq, hy⟩ := hq
          · exact absurd hq hnot
          · cases heq
            have hv : D.speaks v = true := hy
            refine .inr ?_
            rw [if_pos (Bool.and_eq_true_iff.mpr ⟨hv, hself.mpr hopen⟩)]
            exact mem_singleton.mpr rfl
        · refine .inl ⟨j, c, hc, hadm, ?_⟩
          rw [Nat.zero_add]
          exact (ih c (mem_of_getElem? hc)).mpr ⟨hu, hq⟩

/-- **The nodes that act** are the triggered nodes and those that speak for one. -/
theorem mem_runsAll_iff : q ∈ D.runsAll [] 0 roots ↔ D.Triggered roots q ∨ D.SpeaksFor roots q := by
  have hmem : q ∈ D.runsAll [] 0 roots ↔ q ≠ [] ∧ D.Under roots [] q ∧
      (D.Quiet roots q ∨ D.Open roots q q ∧ ∃ y rest, q = y :: rest ∧
        D.speaks y.2.value = true) := by
    rw [mem_runsAll]
    constructor
    · rintro ⟨j, c, hc, hadm, hq⟩
      rw [Nat.zero_add] at hq
      have hq : D.Under roots _ q ∧ _ := (mem_runs_iff c).mp hq
      obtain ⟨hu, hq⟩ := hq
      refine ⟨?_, under_iff.mpr (.inr ⟨j, c, hc, hadm, hu⟩), hq⟩
      rintro rfl
      exact absurd hu.suffix.length_le (by simp)
    · rintro ⟨hne, hu, hq⟩
      obtain heq | ⟨j, c, hc, hadm, hu⟩ := under_iff.mp hu
      · exact absurd heq hne
      · exact ⟨j, c, hc, hadm, by rw [Nat.zero_add]; exact (mem_runs_iff c).mpr ⟨hu, hq⟩⟩
  rw [hmem]
  constructor
  · rintro ⟨hne, hu, hq | ⟨⟨x, mid, hx, hquiet, hans, hmid⟩, y, rest, rfl, hy⟩⟩
    · obtain ⟨hr, hadm⟩ := under_nil_iff.mp hu
      exact .inl ⟨hne, hr, hadm, hq⟩
    · obtain ⟨hr, hadm⟩ := under_nil_iff.mp (hu.trans hx)
      exact .inr ⟨x, mid ++ y :: rest, ⟨cons_ne_nil _ _, hr, hadm, hquiet⟩, hans,
        speaker_eq_some_iff.mpr ⟨mid, y, rest, rfl, rfl, hy, hmid⟩⟩
  · rintro (⟨hne, hr, hadm, hquiet⟩ | ⟨x, above, ⟨-, hr, hadm, hquiet⟩, hans, hsp⟩)
    · exact ⟨hne, under_nil_iff.mpr ⟨hr, hadm⟩, .inl hquiet⟩
    · obtain ⟨mid, y, rest, rfl, rfl, hy, hmid⟩ := speaker_eq_some_iff.mp hsp
      have hsuf : (y :: rest) <:+ (x :: (mid ++ y :: rest)) := ⟨x :: mid, rfl⟩
      obtain ⟨hq, hx⟩ := (under_nil_iff.mpr ⟨hr, hadm⟩).split nil_suffix hsuf
      exact ⟨cons_ne_nil _ _, hq, .inr ⟨⟨x, mid, hx, hquiet, hans, hmid⟩, y, rest, rfl, hy⟩⟩

end Delegation

end Pkm
