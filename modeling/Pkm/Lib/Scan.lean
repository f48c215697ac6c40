import Pkm.Lib.Outcome
/-!
# Loops over lists that can fail

Three shapes of loop. `foldAfter` visits the elements in turn with those before
the current one in view, as a search for duplicates does; where it passes over
elements of a class it has met, it is a fold over the first of each class.
`List.anyM` asks earlier elements one by one. `collect` keeps what each element
yields, if it yields anything, and is what a fold that skips elements comes to.
-/

namespace Pkm.Scan

open List Outcome

variable {ε : Type*} {α β σ : Type} {p : α → Except ε Bool}

/-! ## Loops with the earlier elements in view -/

/-- Visits the elements in turn; the step sees the elements before the current one. -/
def foldAfter (step : List α → σ → α → Except ε σ) : List α → σ → List α → Except ε σ
  | _, s, [] => .ok s
  | before, s, a :: rest => do
    let s ← step before s a
    foldAfter step (before ++ [a]) s rest

variable {step : List α → σ → α → Except ε σ} {before l : List α} {s s' : σ} {R : α → α → Prop}
  {V : α → Prop} {q : α → Bool} {g : σ → α → Except ε σ} {e : ε} {bs : List β} {a : α} {b : β}

/-- A loop whose steps check an element alone and against each earlier one. -/
theorem foldAfter_eq_ok_iff {g : σ → α → σ} (hstep : ∀ before s a s', (∀ b ∈ before, V b) →
      (step before s a = .ok s' ↔ V a ∧ (∀ b ∈ before, R b a) ∧ s' = g s a))
    (hbefore : ∀ b ∈ before, V b) :
    foldAfter step before s l = .ok s' ↔
      (∀ a ∈ l, V a) ∧ l.Pairwise R ∧ (∀ b ∈ before, ∀ a ∈ l, R b a) ∧ s' = l.foldl g s := by
  induction l generalizing before s with
  | nil => simp [foldAfter, eq_comm]
  | cons a rest ih =>
    have hnext : V a → ∀ b ∈ before ++ [a], V b := fun ha =>
      forall_mem_append.mpr ⟨hbefore, forall_mem_singleton.mpr ha⟩
    simp only [foldAfter, bind_eq_ok]
    constructor
    · rintro ⟨s₁, hs, hrest⟩
      obtain ⟨hV, hR, rfl⟩ := (hstep before s a s₁ hbefore).mp hs
      obtain ⟨hVs, hpair, hcross, rfl⟩ := (ih (hnext hV)).mp hrest
      obtain ⟨hcross, ha⟩ := forall_mem_append.mp hcross
      exact ⟨forall_mem_cons.mpr ⟨hV, hVs⟩,
        pairwise_cons.mpr ⟨ha a mem_cons_self, hpair⟩,
        fun b hb => forall_mem_cons.mpr ⟨hR b hb, hcross b hb⟩, rfl⟩
    · rintro ⟨hV, hpair, hcross, rfl⟩
      obtain ⟨hfirst, hpair⟩ := pairwise_cons.mp hpair
      obtain ⟨hVa, hV⟩ := forall_mem_cons.mp hV
      refine ⟨g s a, (hstep before s a _ hbefore).mpr
        ⟨hVa, fun b hb => hcross b hb a mem_cons_self, rfl⟩, ?_⟩
      refine (ih (hnext hVa)).mpr ⟨hV, hpair, forall_mem_append.mpr ⟨?_, ?_⟩, rfl⟩
      · exact fun b hb => (forall_mem_cons.mp (hcross b hb)).2
      · exact forall_mem_singleton.mpr hfirst

/-- The same loop from the start. -/
theorem foldAfter_nil_eq_ok_iff {g : σ → α → σ} (s s' : σ) (l : List α)
    (hstep : ∀ before s a s', (∀ b ∈ before, V b) →
      (step before s a = .ok s' ↔ V a ∧ (∀ b ∈ before, R b a) ∧ s' = g s a)) :
    foldAfter step [] s l = .ok s' ↔ (∀ a ∈ l, V a) ∧ l.Pairwise R ∧ s' = l.foldl g s := by
  rw [foldAfter_eq_ok_iff hstep (by simp)]
  simp

/-! ## The first of each class -/

section Firsts

variable {φ : Type} [DecidableEq φ] {cls : α → φ} {a b : α}

/-- The elements that are the first of their class, given the elements before. -/
def firsts (cls : α → φ) : List α → List α → List α
  | _, [] => []
  | before, a :: rest =>
    if before.any fun b => cls b = cls a then firsts cls (before ++ [a]) rest
    else a :: firsts cls (before ++ [a]) rest

/-- **A loop that passes over known classes** is a fold over the first of each. -/
theorem foldAfter_eq_firsts {V : α → Prop} {g : σ → α → Except ε σ}
    (hstep : ∀ before s a, (∀ b ∈ before, V b) → V a →
      step before s a = if before.any fun b => cls b = cls a then .ok s else g s a)
    (hbefore : ∀ b ∈ before, V b) (hl : ∀ a ∈ l, V a) :
    foldAfter step before s l = (firsts cls before l).foldlM g s := by
  induction l generalizing before s with
  | nil => rfl
  | cons a rest ih =>
    obtain ⟨ha, hl⟩ := forall_mem_cons.mp hl
    have ih' := fun s => ih (s := s)
      (forall_mem_append.mpr ⟨hbefore, forall_mem_singleton.mpr ha⟩) hl
    rw [foldAfter, firsts, hstep before s a hbefore ha]
    split
    · rw [ok_bind, ih']
    · simp [ih']

theorem mem_of_mem_firsts (h : a ∈ firsts cls before l) :
    a ∈ l ∧ ∀ b ∈ before, cls b ≠ cls a := by
  induction l generalizing before with
  | nil => simp [firsts] at h
  | cons c rest ih =>
    have hrest : a ∈ firsts cls (before ++ [c]) rest →
        a ∈ c :: rest ∧ ∀ b ∈ before, cls b ≠ cls a :=
      fun h => ⟨mem_cons_of_mem _ (ih h).1, fun b hb => (ih h).2 b (mem_append_left _ hb)⟩
    rw [firsts] at h
    split at h
    · exact hrest h
    · rename_i hnew
      rcases mem_cons.mp h with rfl | h
      · exact ⟨mem_cons_self, by simpa using hnew⟩
      · exact hrest h

/-- No two elements of one class. -/
theorem firsts_pairwise (cls : α → φ) (before l : List α) :
    (firsts cls before l).Pairwise fun a b => cls a ≠ cls b := by
  induction l generalizing before with
  | nil => exact List.Pairwise.nil
  | cons c rest ih =>
    rw [firsts]
    split
    · exact ih _
    · refine pairwise_cons.mpr ⟨fun a ha => ?_, ih _⟩
      exact (mem_of_mem_firsts ha).2 c (by simp)

/-- Every class that was not met before has its first element. -/
theorem exists_mem_firsts (h : a ∈ l) (hnew : ∀ b ∈ before, cls b ≠ cls a) :
    ∃ r ∈ firsts cls before l, cls r = cls a := by
  induction l generalizing before with
  | nil => simp at h
  | cons c rest ih =>
    by_cases hc : cls c = cls a
    · refine ⟨c, ?_, hc⟩
      rw [firsts, if_neg (by simpa [hc] using hnew)]
      exact mem_cons_self
    · have ha : a ∈ rest := mem_of_ne_of_mem (fun heq => hc (congrArg cls heq.symm)) h
      obtain ⟨r, hr, hcls⟩ := ih ha (forall_mem_append.mpr ⟨hnew, forall_mem_singleton.mpr hc⟩)
      refine ⟨r, ?_, hcls⟩
      rw [firsts]
      split
      · exact hr
      · exact mem_cons_of_mem _ hr

theorem exists_mem_firsts_nil (cls : α → φ) (h : a ∈ l) : ∃ r ∈ firsts cls [] l, cls r = cls a :=
  exists_mem_firsts h (by simp)

end Firsts

/-! ## Searches -/

theorem anyM_eq_ok (h : ∀ a ∈ l, p a = .ok (q a)) : l.anyM p = .ok (l.any q) := by
  induction l with
  | nil => rfl
  | cons a rest ih =>
    obtain ⟨ha, hrest⟩ := forall_mem_cons.mp h
    rw [List.anyM, ha]
    cases hq : q a with
    | true => simp [hq]
    | false => simp [hq, ih hrest]

/-- A search that finds nothing has looked at everything. -/
theorem of_anyM_eq_false (h : l.anyM p = .ok false) : ∀ a ∈ l, p a = .ok false := by
  induction l with
  | nil => simp
  | cons a rest ih =>
    obtain ⟨found, hfound, h⟩ := of_bind h
    cases found with
    | true => cases h
    | false => exact forall_mem_cons.mpr ⟨hfound, ih h⟩

theorem allM_eq_ok (h : ∀ a ∈ l, p a = .ok (q a)) : l.allM p = .ok (l.all q) := by
  induction l with
  | nil => rfl
  | cons a rest ih =>
    obtain ⟨ha, hrest⟩ := forall_mem_cons.mp h
    rw [List.allM, ha]
    cases hq : q a with
    | true => simp [hq, ih hrest]
    | false => simp [hq]

/-! ## Loops over all elements -/

theorem forM_eq_ok {g : α → Except ε Unit} : l.forM g = .ok () ↔ ∀ a ∈ l, g a = .ok () := by
  induction l with
  | nil => simp [List.forM]
  | cons a rest ih =>
    rw [List.forM, bind_eq_ok, forall_mem_cons, ← ih]
    constructor
    · rintro ⟨_, ha, hrest⟩
      exact ⟨ha, hrest⟩
    · rintro ⟨ha, hrest⟩
      exact ⟨(), ha, hrest⟩

theorem mapM_eq_ok_iff {g : α → Except ε β} {r : List β} :
    l.mapM g = .ok r ↔ List.Forall₂ (fun a b => g a = .ok b) l r := by
  induction l generalizing r with
  | nil =>
    rw [mapM_nil, List.forall₂_nil_left_iff, pure_eq_ok, Except.ok.injEq, eq_comm]
  | cons a rest ih =>
    rw [mapM_cons, List.forall₂_cons_left_iff, bind_eq_ok]
    refine exists_congr fun b => ?_
    rw [bind_eq_ok, exists_and_left]
    refine and_congr_right fun _ => exists_congr fun t => and_congr ih ?_
    rw [pure_eq_ok, Except.ok.injEq, eq_comm]

theorem mapM_eq_ok {g : α → Except ε β} {q : α → β} (h : ∀ a ∈ l, g a = .ok (q a)) :
    l.mapM g = .ok (l.map q) :=
  mapM_eq_ok_iff.mpr (List.forall₂_map_right_iff.mpr (List.forall₂_same.mpr h))

/-! ## Loops that skip elements -/

/-- What the elements yield, in order. -/
def collect (f : α → Except ε (Option β)) : List α → Except ε (List β)
  | [] => .ok []
  | a :: rest => do
    match ← f a with
    | none => collect f rest
    | some b => do
      let bs ← collect f rest
      .ok (b :: bs)

/-- **Invariant rule** for a fold. -/
theorem foldlM_inv {P : σ → Prop} (hstep : ∀ s a s', P s → g s a = .ok s' → P s') (h : P s)
    (hok : l.foldlM g s = .ok s') : P s' := by
  induction l generalizing s with
  | nil => exact Except.ok.inj hok ▸ h
  | cons a rest ih =>
    obtain ⟨s₁, hs, hok⟩ := of_bind hok
    exact ih (hstep s a s₁ h hs) hok

/-- A fold that fails does so at one of its steps. -/
theorem exists_of_foldlM_error (h : l.foldlM g s = .error e) : ∃ a ∈ l, ∃ s, g s a = .error e := by
  induction l generalizing s with
  | nil => cases h
  | cons a rest ih =>
    rw [foldlM_cons] at h
    rcases ha : g s a with e' | s' <;> rw [ha] at h
    · exact ⟨a, mem_cons_self, s, ha.trans (congrArg _ (Except.error.inj h))⟩
    · obtain ⟨b, hb, hs⟩ := ih h
      exact ⟨b, mem_cons_of_mem _ hb, hs⟩

variable {f : α → Except ε (Option β)}

/-- **A fold that skips elements** folds what the others yield. -/
theorem foldlM_skip (g : σ → β → σ) (s : σ) :
    l.foldlM (fun s a => do
      match ← f a with
      | none => .ok s
      | some b => .ok (g s b)) s = (do
        let bs ← collect f l
        .ok (bs.foldl g s)) := by
  induction l generalizing s with
  | nil => rfl
  | cons a rest ih =>
    rw [foldlM_cons, collect]
    rcases f a with e | ⟨_ | b⟩
    · rfl
    · simp only [ok_bind, ih]
    · simp [ih, foldl_cons]

theorem collect_eq_ok {p : α → Option β} (h : ∀ a ∈ l, f a = .ok (p a)) :
    collect f l = .ok (l.filterMap p) := by
  induction l with
  | nil => rfl
  | cons a rest ih =>
    obtain ⟨ha, hrest⟩ := forall_mem_cons.mp h
    rw [collect, ha]
    cases hp : p a <;> simp [hp, ih hrest]

/-- A collection that succeeds read every element. -/
theorem exists_of_collect (h : collect f l = .ok bs) :
    ∃ p : α → Option β, (∀ a ∈ l, f a = .ok (p a)) ∧ bs = l.filterMap p := by
  have hall : ∀ a ∈ l, f a = .ok (f a).toOption.join := by
    induction l generalizing bs with
    | nil => simp
    | cons a rest ih =>
      obtain ⟨o, ho, h⟩ := of_bind h
      have hrest : ∃ bs', collect f rest = .ok bs' := by
        rcases o with _ | b
        · exact ⟨bs, h⟩
        · obtain ⟨bs', hbs, -⟩ := of_bind h
          exact ⟨bs', hbs⟩
      obtain ⟨bs', hbs⟩ := hrest
      refine forall_mem_cons.mpr ⟨?_, ih hbs⟩
      rw [ho]
      rfl
  refine ⟨_, hall, ?_⟩
  rw [collect_eq_ok hall] at h
  exact (Except.ok.inj h).symm

theorem exists_of_collect_error (h : collect f l = .error e) : ∃ a ∈ l, f a = .error e := by
  have hfold := foldlM_skip (f := f) (l := l) (fun s _ => s) ()
  rw [h] at hfold
  obtain ⟨a, ha, s, hs⟩ := exists_of_foldlM_error hfold
  refine ⟨a, ha, ?_⟩
  rcases hf : f a with e' | ⟨_ | b⟩ <;> rw [hf] at hs <;> cases hs
  rfl

/-- Elements that yield nothing do not show. -/
theorem collect_filter {p : α → Bool} (h : ∀ a ∈ l, p a = false → f a = .ok none) :
    collect f (l.filter p) = collect f l := by
  induction l with
  | nil => rfl
  | cons a rest ih =>
    obtain ⟨ha, hrest⟩ := forall_mem_cons.mp h
    cases hp : p a with
    | true => simp only [filter_cons, hp, if_true, collect, ih hrest]
    | false => rw [filter_cons_of_neg (by simp [hp]), collect, ha hp, ok_bind, ih hrest]

/-- Elements that yield corresponding things. -/
theorem collect_map {α' β' ε' : Type} {f' : α' → Except ε' (Option β')} {m : α → α'} {g : β → β'}
    {φ : ε → ε'} (h : ∀ a ∈ l, f' (m a) = Outcome.bimap φ (Option.map g) (f a)) :
    collect f' (l.map m) = Outcome.bimap φ (List.map g) (collect f l) := by
  induction l with
  | nil => rfl
  | cons a rest ih =>
    obtain ⟨ha, hrest⟩ := forall_mem_cons.mp h
    rw [map_cons, collect, ha]
    refine bimap_bind fun o _ => ?_
    cases o with
    | none => exact ih hrest
    | some b =>
      simp only [ih hrest]
      exact bimap_bind fun _ _ => rfl

theorem collect_append (l' : List α) : collect f (l ++ l') = (do
    let bs ← collect f l
    let bs' ← collect f l'
    .ok (bs ++ bs')) := by
  induction l with
  | nil => simp [collect]
  | cons a rest ih =>
    rw [cons_append, collect, collect]
    rcases f a with e | ⟨_ | b⟩
    · rfl
    · simpa using ih
    · simp [ih, cons_append]

/-- One more element does not show if what it yields makes no difference to the rest. -/
theorem collect_insert {γ : Type} {l' : List α} {k : List β → Except ε γ} (ha : f a = .ok (some b))
    (h : ∀ bs bs', collect f (l ++ l') = .ok (bs ++ bs') → k (bs ++ b :: bs') = k (bs ++ bs')) :
    collect f (l ++ a :: l') >>= k = collect f (l ++ l') >>= k := by
  rw [collect_append] at h
  rw [collect_append, collect_append, collect, ha]
  rcases hl : collect f l with _ | bs
  · rfl
  rcases hl' : collect f l' with _ | bs'
  · rfl
  exact h bs bs' (by rw [hl, hl']; rfl)

theorem mem_of_collect (h : collect f l = .ok bs) (ha : a ∈ l) (hb : f a = .ok (some b)) :
    b ∈ bs := by
  obtain ⟨p, hp, rfl⟩ := exists_of_collect h
  refine mem_filterMap.mpr ⟨a, ha, ?_⟩
  exact Except.ok.inj ((hp a ha).symm.trans hb)

/-! ## Errors of a loop -/

variable {P : ε → Prop}

theorem foldlM_avoids {g : σ → α → Except ε σ} (h : ∀ s a, Avoids P (g s a)) (s : σ) :
    Avoids P (l.foldlM g s) := by
  induction l generalizing s with
  | nil => exact avoids_ok _
  | cons a rest ih => exact (h s a).bind ih

theorem foldAfter_avoids (h : ∀ before s a, Avoids P (step before s a)) :
    Avoids P (foldAfter step before s l) := by
  induction l generalizing before s with
  | nil => exact avoids_ok _
  | cons a rest ih => exact (h before s a).bind fun _ => ih

theorem anyM_avoids {p : α → Except ε Bool} (h : ∀ a, Avoids P (p a)) :
    Avoids P (l.anyM p) := by
  induction l with
  | nil => exact avoids_ok _
  | cons a rest ih =>
    refine (h a).bind fun b => ?_
    cases b with
    | true => exact avoids_ok _
    | false => exact ih

end Pkm.Scan
