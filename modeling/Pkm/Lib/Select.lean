import Mathlib
/-!
# Selecting the element with the greatest key

A scan that keeps the best element so far and a flag for a tie with it. The flag
is set by an equal key and dropped when a greater one comes. What the scan ends
with is a property of the list as a multiset: nothing, the only element with the
greatest key (`Wins`), or a greatest key that several elements share (`Ties`).
-/

namespace Pkm.Select

open List

variable {α β κ : Type} [LinearOrder κ] (key : α → κ)

/-- The best element so far, and whether another one ties with it. -/
abbrev Best (α : Type) := Option α × Bool

def update (state : Best α) (a : α) : Best α :=
  match state.1 with
  | none => (some a, false)
  | some best =>
    if key best < key a then (some a, false)
    else if key a < key best then state
    else (some best, true)

/-- What a scan comes to. -/
inductive Choice (α κ : Type) where
  | nothing
  | winner (a : α)
  | tie (k : κ)

def verdict : Best α → Choice α κ
  | (none, _) => .nothing
  | (some a, false) => .winner a
  | (some a, true) => .tie (key a)

/-- The element a scan selects. -/
def choose (l : List α) : Choice α κ := verdict key (l.foldl (update key) (none, false))

/-! ## What is selected -/

/-- How often a key occurs. -/
def occurrences (l : List α) (k : κ) : ℕ := l.countP fun b => decide (key b = k)

/-- The only element with the greatest key. -/
structure Wins (l : List α) (a : α) : Prop where
  mem : a ∈ l
  le : ∀ b ∈ l, key b ≤ key a
  once : occurrences key l (key a) = 1

/-- The greatest key, which several elements have. -/
structure Ties (l : List α) (k : κ) : Prop where
  le : ∀ b ∈ l, key b ≤ k
  shared : 2 ≤ occurrences key l k

variable {key} {l l' : List α} {a b : α} {k : κ}

theorem occurrences_pos_iff : 0 < occurrences key l k ↔ ∃ b ∈ l, key b = k := by
  simp [occurrences]

theorem occurrences_eq_zero (h : ∀ b ∈ l, key b < k) : occurrences key l k = 0 := by
  rw [occurrences, countP_eq_zero]
  intro b hb
  simpa using ne_of_lt (h b hb)

@[simp]
theorem occurrences_append :
    occurrences key (l ++ l') k = occurrences key l k + occurrences key l' k :=
  countP_append

theorem occurrences_singleton :
    occurrences key [a] k = if key a = k then 1 else 0 := by
  simp [occurrences]

theorem Ties.exists_mem (h : Ties key l k) : ∃ b ∈ l, key b = k :=
  occurrences_pos_iff.mp (Nat.lt_of_lt_of_le Nat.zero_lt_two h.shared)

/-- Two winners are the same element. -/
theorem Wins.unique (ha : Wins key l a) (hb : Wins key l b) : a = b := by
  have hkey : key b = key a := le_antisymm (ha.le b hb.mem) (hb.le a ha.mem)
  have hlen : (l.filter fun c => decide (key c = key a)).length = 1 := by
    rw [← countP_eq_length_filter]
    exact ha.once
  obtain ⟨c, hc⟩ := length_eq_one_iff.mp hlen
  have hmem : ∀ d ∈ l, key d = key a → d = c := by
    intro d hd hk
    have : d ∈ l.filter fun c => decide (key c = key a) := by simp [hd, hk]
    rw [hc] at this
    exact mem_singleton.mp this
  rw [hmem a ha.mem rfl, hmem b hb.mem hkey]

theorem Wins.not_ties (ha : Wins key l a) : ¬ Ties key l k := by
  intro ht
  obtain ⟨b, hb, rfl⟩ := ht.exists_mem
  have hkey : key b = key a := le_antisymm (ha.le b hb) (ht.le a ha.mem)
  have := ht.shared
  rw [hkey, ha.once] at this
  omega

theorem Ties.unique {k' : κ} (h : Ties key l k) (h' : Ties key l k') : k = k' := by
  obtain ⟨b, hb, rfl⟩ := h.exists_mem
  obtain ⟨b', hb', rfl⟩ := h'.exists_mem
  exact le_antisymm (h'.le b hb) (h.le b' hb')

/-! ## The scan -/

/-- What a scan knows of the elements it has seen. -/
def Tracks (key : α → κ) (l : List α) : Best α → Prop
  | (none, dup) => l = [] ∧ dup = false
  | (some a, false) => Wins key l a
  | (some a, true) => Ties key l (key a)

variable {state : Best α} {c : Choice α κ}

/-- **One more element** keeps what the scan knows. -/
theorem Tracks.update (h : Tracks key l state) (a : α) :
    Tracks key (l ++ [a]) (update key state a) := by
  obtain ⟨_ | best, dup⟩ := state
  · obtain ⟨rfl, rfl⟩ := h
    exact ⟨by simp, by simp, by simp [occurrences_singleton]⟩
  · have hle : ∀ b ∈ l, key b ≤ key best := by
      cases dup with
      | false => exact Wins.le h
      | true => exact Ties.le h
    unfold Select.update
    simp only
    rcases lt_trichotomy (key best) (key a) with hlt | heq | hgt
    · -- a greater key: everything before it is below
      rw [if_pos hlt]
      have hbelow : ∀ b ∈ l, key b < key a := fun b hb => lt_of_le_of_lt (hle b hb) hlt
      exact ⟨by simp, forall_mem_append.mpr ⟨fun b hb => le_of_lt (hbelow b hb), by simp⟩,
        by simp [occurrences_eq_zero hbelow, occurrences_singleton]⟩
    · -- an equal key: the best one is shared
      rw [if_neg (le_of_eq heq.symm).not_gt, if_neg (le_of_eq heq).not_gt]
      refine ⟨forall_mem_append.mpr ⟨hle, by simp [heq]⟩, ?_⟩
      have hold : 1 ≤ occurrences key l (key best) := by
        cases dup with
        | false => exact Nat.le_of_eq (Wins.once h).symm
        | true => exact Nat.le_of_succ_le (Ties.shared h)
      rw [occurrences_append, occurrences_singleton, if_pos heq.symm]
      omega
    · -- a smaller key changes nothing
      rw [if_neg (not_lt_of_gt hgt), if_pos hgt]
      have hle' : ∀ b ∈ l ++ [a], key b ≤ key best :=
        forall_mem_append.mpr ⟨hle, forall_mem_singleton.mpr (le_of_lt hgt)⟩
      have hsame : occurrences key (l ++ [a]) (key best) = occurrences key l (key best) := by
        rw [occurrences_append, occurrences_singleton, if_neg (ne_of_lt hgt), Nat.add_zero]
      cases dup with
      | false =>
        exact ⟨mem_append_left _ (Wins.mem h), hle', hsame.trans (Wins.once h)⟩
      | true => exact ⟨hle', hsame ▸ Ties.shared h⟩

/-- **A whole scan** knows the list it has seen. -/
theorem Tracks.foldl (h : Tracks key l state) (rest : List α) :
    Tracks key (l ++ rest) (rest.foldl (Select.update key) state) := by
  induction rest generalizing l state with
  | nil => simpa using h
  | cons a rest ih => simpa using ih (h.update a)

theorem tracks_foldl (key : α → κ) (l : List α) :
    Tracks key l (l.foldl (update key) (none, false)) := by
  have hstart : Tracks key [] (none, false) := ⟨rfl, rfl⟩
  simpa using hstart.foldl l

/-! ## The verdict -/

/-- What a verdict says of the list. -/
def Choice.Fits (key : α → κ) (l : List α) : Choice α κ → Prop
  | .nothing => l = []
  | .winner a => Wins key l a
  | .tie k => Ties key l k

/-- Only one verdict fits a list. -/
theorem Choice.Fits.unique {c' : Choice α κ} (h : c.Fits key l) (h' : c'.Fits key l) : c = c' := by
  have hwins : ∀ {a}, ¬ Wins key [] a := fun hw => not_mem_nil hw.mem
  have hties : ∀ {k}, ¬ Ties key [] k := fun ht => by simpa using ht.exists_mem
  rcases c with _ | a | k <;> rcases c' with _ | a' | k'
  · rfl
  · exact absurd (h ▸ h') hwins
  · exact absurd (h ▸ h') hties
  · exact absurd (h' ▸ h) hwins
  · exact congrArg _ (Wins.unique h h')
  · exact absurd h' (Wins.not_ties h)
  · exact absurd (h' ▸ h) hties
  · exact absurd h (Wins.not_ties h')
  · exact congrArg _ (Ties.unique h h')

theorem choose_fits (key : α → κ) (l : List α) : (choose key l).Fits key l := by
  have h := tracks_foldl key l
  unfold choose
  rcases hs : l.foldl (update key) (none, false) with ⟨_ | a, _ | _⟩ <;> rw [hs] at h
  · exact h.1
  · exact h.1
  · exact h
  · exact h

theorem choose_eq_iff : choose key l = c ↔ c.Fits key l :=
  ⟨fun h => h ▸ choose_fits key l, (choose_fits key l).unique⟩

theorem choose_eq_nothing (key : α → κ) : choose key l = .nothing ↔ l = [] := choose_eq_iff

/-- **The scan selects the winner.** -/
theorem choose_eq_winner : choose key l = .winner a ↔ Wins key l a := choose_eq_iff

/-- **The scan reports a tie** exactly when the greatest key is shared. -/
theorem choose_eq_tie : choose key l = .tie k ↔ Ties key l k := choose_eq_iff

/-! ## One more element -/

/-- An element above all others is selected. -/
theorem choose_cons_of_forall_lt (h : ∀ b ∈ l, key b < key a) :
    choose key (a :: l) = .winner a := by
  refine choose_eq_winner.mpr ⟨mem_cons_self,
    forall_mem_cons.mpr ⟨le_rfl, fun b hb => le_of_lt (h b hb)⟩, ?_⟩
  have hnone := occurrences_eq_zero h
  simp only [occurrences] at hnone ⊢
  simp [hnone]

/-- An element below another one changes nothing. -/
theorem choose_cons_of_lt (hb : b ∈ l) (h : key a < key b) :
    choose key (a :: l) = choose key l := by
  have hocc : ∀ k, key b ≤ k → occurrences key (a :: l) k = occurrences key l k := by
    intro k hk
    have hne : key a ≠ k := ne_of_lt (lt_of_lt_of_le h hk)
    simp [occurrences, hne]
  have hle : ∀ {k}, (∀ d ∈ l, key d ≤ k) → ∀ d ∈ a :: l, key d ≤ k := fun hall =>
    forall_mem_cons.mpr ⟨le_trans (le_of_lt h) (hall b hb), hall⟩
  have hfits := choose_fits key l
  refine choose_eq_iff.mpr ?_
  rcases hc : choose key l with _ | c | k <;> rw [hc] at hfits
  · exact absurd hb (by simp [show l = [] from hfits])
  · exact ⟨mem_cons_of_mem _ hfits.mem, hle hfits.le, (hocc _ (hfits.le b hb)).trans hfits.once⟩
  · exact ⟨hle hfits.le, hocc _ (hfits.le b hb) ▸ hfits.shared⟩

/-! ## Renaming the elements and the keys -/

/-- A verdict with another key. -/
def Choice.mapKey {κ' : Type} (f : κ → κ') : Choice α κ → Choice α κ'
  | .nothing => .nothing
  | .winner a => .winner a
  | .tie k => .tie (f k)

/-- A scan sees of the keys their order only. -/
theorem choose_mapKey {κ' : Type} [LinearOrder κ'] {f : κ → κ'} (hf : ∀ a b, f a < f b ↔ a < b)
    (key : α → κ) (l : List α) : choose (f ∘ key) l = (choose key l).mapKey f := by
  have hupdate : update (f ∘ key) = update key := by
    funext state a
    rcases state with ⟨_ | best, dup⟩
    · rfl
    · simp [update, hf]
  unfold choose
  rw [hupdate]
  rcases l.foldl (update key) (none, false) with ⟨_ | a, _ | _⟩ <;> rfl

def Choice.map (f : β → α) : Choice β κ → Choice α κ
  | .nothing => .nothing
  | .winner b => .winner (f b)
  | .tie k => .tie k

/-- A scan sees of an element its key only. -/
theorem choose_map (key : α → κ) (f : β → α) (l : List β) :
    choose key (l.map f) = (choose (key ∘ f) l).map f := by
  have hfold : ∀ state : Best β, (l.map f).foldl (update key) (state.1.map f, state.2) =
      ((l.foldl (update (key ∘ f)) state).1.map f, (l.foldl (update (key ∘ f)) state).2) := by
    induction l with
    | nil => exact fun _ => rfl
    | cons b l ih =>
      intro state
      have hstep : update key (state.1.map f, state.2) (f b) =
          ((update (key ∘ f) state b).1.map f, (update (key ∘ f) state b).2) := by
        rcases state with ⟨_ | best, dup⟩
        · rfl
        · simp only [update, Option.map_some, Function.comp_apply]
          split_ifs <;> rfl
      rw [map_cons, foldl_cons, hstep]
      exact ih _
  unfold choose
  have h := hfold (none, false)
  simp only [Option.map_none] at h
  rw [h]
  rcases l.foldl (update (key ∘ f)) (none, false) with ⟨_ | b, _ | _⟩ <;> rfl

theorem ties_map (key : α → κ) (f : β → α) {l : List β} :
    Ties key (l.map f) k ↔ Ties (key ∘ f) l k := by
  have hocc : occurrences key (l.map f) k = occurrences (key ∘ f) l k := countP_map
  constructor
  · exact fun h => ⟨fun b hb => h.le (f b) (mem_map_of_mem hb), hocc ▸ h.shared⟩
  · refine fun h => ⟨fun a ha => ?_, hocc ▸ h.shared⟩
    obtain ⟨b, hb, rfl⟩ := mem_map.mp ha
    exact h.le b hb

/-! ## Order does not matter -/

/-- **The verdict is the same in every order.** -/
theorem choose_perm (hp : l.Perm l') : choose key l = choose key l' := by
  have hocc : ∀ k, occurrences key l k = occurrences key l' k := fun _ => hp.countP_eq _
  have hfits := choose_fits key l'
  refine choose_eq_iff.mpr ?_
  rcases hc : choose key l' with _ | a | k <;> rw [hc] at hfits
  · exact List.Perm.eq_nil ((show l' = [] from hfits) ▸ hp)
  · exact ⟨hp.mem_iff.mpr hfits.mem, fun b hb => hfits.le b (hp.mem_iff.mp hb),
      (hocc _).trans hfits.once⟩
  · exact ⟨fun b hb => hfits.le b (hp.mem_iff.mp hb), hocc _ ▸ hfits.shared⟩

end Pkm.Select
