import Mathlib
/-!
# Peeling fallible computations apart

A computation in `Except` that returns a value returned one at each of its
steps. The lemmas here turn the success of a sequence, of a guard and of a
traversal into the success of its parts.
-/

namespace Pkm.Outcome

variable {ε : Type*} {α β : Type} {x y : Except ε α} {p : Prop} {a : α} {f g : α → Except ε β}

/-- A sequence succeeds exactly when its first part does and the rest does from there. -/
theorem bind_eq_ok {b : β} : (x >>= f) = .ok b ↔ ∃ a, x = .ok a ∧ f a = .ok b := by
  cases x with
  | error e => simp [bind, Except.bind]
  | ok a => simp [bind, Except.bind]

/-- The steps of a run that succeeds. -/
theorem of_bind {b : β} (h : (x >>= f) = .ok b) : ∃ a, x = .ok a ∧ f a = .ok b := bind_eq_ok.mp h

@[simp]
theorem ok_bind (a : α) (f : α → Except ε β) : ((Except.ok a : Except ε α) >>= f) = f a := rfl

@[simp]
theorem error_bind (e : ε) (f : α → Except ε β) :
    ((Except.error e : Except ε α) >>= f) = .error e := rfl

@[simp]
theorem pure_eq_ok (a : α) : (pure a : Except ε α) = .ok a := rfl

@[simp]
theorem bind_ok (x : Except ε α) : (x >>= Except.ok) = x := by
  cases x <;> rfl

/-- Two sequences with the same first part agree if they do on what it returns. -/
theorem bind_congr (h : ∀ a, x = .ok a → f a = g a) : (x >>= f) = (x >>= g) := by
  cases x with
  | error e => rfl
  | ok a => exact h a rfl

/-- A guarded computation that succeeds passed its guard. -/
theorem ite_error_eq_ok [Decidable p] {e : ε} :
    (if p then .error e else x) = .ok a ↔ ¬ p ∧ x = .ok a := by
  by_cases h : p <;> simp [h]

theorem of_guard [Decidable p] {e : ε} (h : (if p then .error e else x) = .ok a) :
    ¬ p ∧ x = .ok a := ite_error_eq_ok.mp h

theorem mapError_eq_ok {ε' : Type*} {f : ε → ε'} : x.mapError f = .ok a ↔ x = .ok a := by
  cases x <;> simp [Except.mapError]

/-- A computation whose success can be tested has a result. -/
theorem exists_of_isOk (h : x.isOk = true) : ∃ a, x = .ok a := by
  cases x with
  | error e => simp [Except.toBool] at h
  | ok a => exact ⟨a, rfl⟩

/-- Two computations whose success can be tested, with what follows from their results. -/
theorem exists_pair_of_isOk {ε' : Type*} {y : Except ε' β} {P : α → β → Prop}
    (hx : x.isOk = true) (hy : y.isOk = true) (h : ∀ a b, x = .ok a → y = .ok b → P a b) :
    ∃ a b, x = .ok a ∧ y = .ok b ∧ P a b := by
  obtain ⟨a, ha⟩ := exists_of_isOk hx
  obtain ⟨b, hb⟩ := exists_of_isOk hy
  exact ⟨a, b, ha, hb, h a b ha hb⟩

theorem eq_ok_of_toOption (h : x.toOption = some a) : x = .ok a := by
  cases x with
  | error e => cases h
  | ok b => rw [Option.some.inj h]

/-- A computation of whose result a part can be seen has a result with that part. -/
theorem exists_of_map {γ : Type*} {f : α → γ} {c : γ} (h : x.toOption.map f = some c) :
    ∃ a, x = .ok a ∧ f a = c := by
  obtain ⟨a, ha, hf⟩ := Option.map_eq_some_iff.mp h
  exact ⟨a, eq_ok_of_toOption ha, hf⟩

/-- With a state besides: the first part runs, and the rest from where that leaves the state. -/
theorem run_bind {ε σ α β : Type} (x : ExceptT ε (StateM σ) α) (f : α → ExceptT ε (StateM σ) β)
    (s : σ) :
    (x >>= f).run s =
      match x.run s with
      | (.ok a, s') => (f a).run s'
      | (.error e, s') => (.error e, s') := by
  change (ExceptT.bindCont f (x.run s).1) (x.run s).2 = _
  rcases x.run s with ⟨_ | a, s'⟩ <;> rfl

/-! ## Errors a computation does not raise -/

/-- No error of that kind comes out. -/
def Avoids (P : ε → Prop) (x : Except ε α) : Prop := ∀ e, x = .error e → ¬ P e

variable {P : ε → Prop}

@[simp]
theorem avoids_ok (a : α) : Avoids P (.ok a : Except ε α) := fun _ h => by cases h

@[simp]
theorem avoids_error {e : ε} : Avoids P (.error e : Except ε α) ↔ ¬ P e :=
  ⟨fun h => h e rfl, fun h _ he => Except.error.inj he ▸ h⟩

theorem Avoids.bind (hx : Avoids P x) (hf : ∀ a, Avoids P (f a)) : Avoids P (x >>= f) := by
  cases x with
  | error e => exact avoids_error.mpr (avoids_error.mp hx)
  | ok a => exact hf a

/-- Behind a part that raises no such error, the rest raised it. -/
theorem Avoids.of_bind_eq_error {e : ε} (hx : Avoids P x) (he : P e) (h : (x >>= f) = .error e) :
    ∃ a, x = .ok a ∧ f a = .error e := by
  cases x with
  | error e' => exact absurd (Except.error.inj h ▸ he) (hx e' rfl)
  | ok a => exact ⟨a, rfl, h⟩

theorem Avoids.ite [Decidable p] (hx : Avoids P x) (hy : Avoids P y) :
    Avoids P (if p then x else y) := by
  split
  · exact hx
  · exact hy

theorem Avoids.mono {Q : ε → Prop} (h : Avoids P x) (hQ : ∀ e, Q e → P e) : Avoids Q x :=
  fun e he hq => h e he (hQ e hq)

/-! ## Computations that return at least as much -/

/-- What the first computation returns, the second does. -/
def Within (x y : Except ε α) : Prop := ∀ a, x = .ok a → y = .ok a

@[refl]
theorem Within.refl : Within x x := fun _ h => h

theorem Within.bind (hxy : Within x y) (hfg : ∀ a, x = .ok a → Within (f a) (g a)) :
    Within (x >>= f) (y >>= g) := by
  intro b hb
  obtain ⟨a, ha, hb⟩ := of_bind hb
  rw [hxy a ha]
  exact hfg a ha b hb

/-! ## Computations that succeed together -/

section

variable {γ δ : Type} {y : Except ε β}

/-- Each of the two succeeds where the other does. -/
def Together (x : Except ε α) (y : Except ε β) : Prop := (∃ a, x = .ok a) ↔ ∃ b, y = .ok b

theorem Together.rest (x : Except ε α) {f : α → Except ε γ} {g : α → Except ε δ}
    (h : ∀ a, Together (f a) (g a)) : Together (x >>= f) (x >>= g) := by
  cases x with
  | error e => simp [Together]
  | ok a => exact h a

theorem Together.bind {f : α → Except ε γ} {g : β → Except ε δ} (h : Together x y)
    (hfg : ∀ a b, Together (f a) (g b)) : Together (x >>= f) (y >>= g) := by
  rcases x with e | a <;> rcases y with e' | b
  · simp [Together]
  · simp [Together] at h
  · simp [Together] at h
  · exact hfg a b

theorem Together.ite [Decidable p] {x' : Except ε α} {y' : Except ε β} (h : Together x y)
    (h' : Together x' y') : Together (if p then x else x') (if p then y else y') := by
  split
  · exact h
  · exact h'

theorem Together.loop {ι : Type} {f : ι → Except ε α} {g : ι → Except ε Unit}
    (h : ∀ i, Together (f i) (g i)) (l : List ι) : Together (l.mapM f) (l.forM g) := by
  induction l with
  | nil => simp [Together, List.forM]
  | cons i rest ih =>
    rw [List.mapM_cons, List.forM, ← bind_ok (rest.forM g)]
    exact (h i).bind fun _ _ => ih.bind fun _ _ => by simp [Together]

end

/-! ## Changing errors and results -/

variable {ε' : Type*} {γ δ : Type} {x : Except ε α}

def bimap (f : ε → ε') (g : α → β) : Except ε α → Except ε' β
  | .error e => .error (f e)
  | .ok a => .ok (g a)

/-- Two computations that correspond step by step. -/
theorem bimap_bind {f : ε → ε'} {g : α → β} {g' : γ → δ} {k : α → Except ε γ}
    {k' : β → Except ε' δ} (h : ∀ a, x = .ok a → k' (g a) = bimap f g' (k a)) :
    bimap f g x >>= k' = bimap f g' (x >>= k) := by
  cases x with
  | error e => rfl
  | ok a => exact h a rfl

/-- A change of errors that do not occur. -/
theorem bimap_of_avoids {f : ε → ε} {g : α → β} (h : Avoids P x) (hf : ∀ e, ¬ P e → f e = e) :
    bimap f g x = x.map g := by
  cases x with
  | error e => exact congrArg Except.error (hf e (h e rfl))
  | ok a => rfl

end Pkm.Outcome
