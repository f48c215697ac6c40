import Pkm.Lib.Rose
/-!
# Delegation in a forest

A question is put to a forest. It is handed down from the roots to every child that
admits it; an admitted node none of whose children admits it is *triggered* and acts.
A triggered node that gives no answer leaves the question to the nearest node above it
that can speak for its region, which acts once, however many nodes leave it a question.

`descend` is the depth-first walk that acts on the way and keeps a list of those that
have spoken. `runs` says which nodes act, region by region and without that list.
`descendAll_ran` relates the two, and no node acts twice (`descendAll_nodup`).
-/

namespace Pkm

open List Rose Lineage

/-- What a node does with a question: it admits it, answers it, can speak for its region. -/
structure Delegation (α : Type*) where
  admits : α → Bool
  answers : α → Bool
  speaks : α → Bool

/-- The nodes that acted, in order, and the addresses of those that spoke for others. -/
structure Ledger (α : Type*) where
  ran : List (Lineage α)
  spoken : List (List ℕ)

/-- The ledger of the same walk with the values changed. -/
def Ledger.map {α β : Type*} (f : α → β) (s : Ledger α) : Ledger β :=
  ⟨s.ran.map (Lineage.map f), s.spoken⟩

@[simp]
theorem Ledger.map_spoken {α β : Type*} (f : α → β) (s : Ledger α) :
    (s.map f).spoken = s.spoken := rfl

namespace Delegation

variable {α : Type*} (D : Delegation α) {above l q : Lineage α} {cs : List (Rose α)}
  {region region' : List ℕ → Prop} {i : ℕ}

/-! ## The walk -/

/-- The nearest node of a lineage that speaks. -/
def speaker : Lineage α → Option (Lineage α)
  | [] => none
  | x :: l => if D.speaks x.2.value then some (x :: l) else speaker l

/-- A speaker acts unless it has spoken. -/
def speak (q : Lineage α) (s : Ledger α) : Ledger α :=
  if s.spoken.contains (address q) then s
  else ⟨s.ran ++ [q], s.spoken ++ [address q]⟩

/-- A triggered node acts, and where it gives no answer its speaker does. -/
def trigger (x : ℕ × Rose α) (above : Lineage α) (s : Ledger α) : Ledger α :=
  let s := { s with ran := s.ran ++ [x :: above] }
  if D.answers x.2.value then s
  else
    match D.speaker above with
    | none => s
    | some q => speak q s

mutual

/-- The walk from an admitted node. -/
def descend (above : Lineage α) (i : ℕ) : Rose α → Ledger α → Ledger α
  | .node v cs, s =>
    if cs.any fun c => D.admits c.value then descendAll ((i, .node v cs) :: above) 0 cs s
    else D.trigger (i, .node v cs) above s

/-- The walk from those of the children of a node that admit the question. -/
def descendAll (above : Lineage α) (i : ℕ) : List (Rose α) → Ledger α → Ledger α
  | [], s => s
  | c :: cs, s =>
    descendAll above (i + 1) cs (if D.admits c.value then descend above i c s else s)

end

/-! ## Region by region -/

mutual

/-- Whether an admitted node leaves a question to the nodes above it. -/
def asks : Rose α → Bool
  | .node v cs =>
    if cs.any fun c => D.admits c.value then !D.speaks v && asksAll cs else !D.answers v

def asksAll : List (Rose α) → Bool
  | [] => false
  | c :: cs => D.admits c.value && asks c || asksAll cs

end

mutual

/-- The nodes of the subtree of an admitted node that act. -/
def runs (above : Lineage α) (i : ℕ) : Rose α → List (Lineage α)
  | .node v cs =>
    if cs.any fun c => D.admits c.value then
      runsAll ((i, .node v cs) :: above) 0 cs ++
        if D.speaks v && D.asksAll cs then [(i, .node v cs) :: above] else []
    else [(i, .node v cs) :: above]

def runsAll (above : Lineage α) (i : ℕ) : List (Rose α) → List (Lineage α)
  | [] => []
  | c :: cs => (if D.admits c.value then runs above i c else []) ++ runsAll above (i + 1) cs

end

/-! ## The walk keeps to the regions -/

/-- A speaker, unless it has spoken. -/
def unspoken (s : Ledger α) (above : Lineage α) : List (Lineage α) :=
  (D.speaker above).toList.filter fun q => !s.spoken.contains (address q)

/-- What a walk does to the ledger: the nodes of its region act, and where it leaves a question
above, so does the speaker there, if it had not yet. -/
structure Settles (s s' : Ledger α) (region : List ℕ → Prop) (own : List (Lineage α))
    (asked : Bool) (above : Lineage α) : Prop where
  ran : s'.ran.Perm (s.ran ++ own ++ if asked then D.unspoken s above else [])
  mono : s.spoken ⊆ s'.spoken
  heard : asked = true → ∀ q, D.speaker above = some q → address q ∈ s'.spoken
  fresh : ∀ a ∈ s'.spoken, a ∈ s.spoken ∨ region a ∨
    (asked = true ∧ ∃ q, D.speaker above = some q ∧ a = address q)

variable {D}

theorem suffix_of_speaker (h : D.speaker l = some q) : q <:+ l := by
  induction l with
  | nil => cases h
  | cons x l ih =>
    by_cases hx : D.speaks x.2.value = true
    · rw [speaker, if_pos hx] at h
      rw [Option.some.inj h]
    · rw [speaker, if_neg hx] at h
      exact (ih h).trans (suffix_cons x l)

/-- The address of a speaker is not below its lineage. -/
theorem not_suffix_of_speaker (h : D.speaker l = some q) :
    ¬ (i :: address l) <:+ address q := by
  intro hsuf
  have hle := hsuf.length_le
  have hq := (suffix_of_speaker h).length_le
  simp only [length_cons, length_address] at hle
  omega

theorem eq_of_suffix_cons {j : ℕ} {l a : List ℕ} (hi : (i :: l) <:+ a) (hj : (j :: l) <:+ a) :
    i = j := by
  have h := suffix_of_suffix_length_le hi hj (by simp)
  exact (List.cons.inj (List.IsSuffix.eq_of_length h (by simp))).1

variable {s : Ledger α}

theorem Settles.refl :
    D.Settles s s region [] false above where
  ran := by simp
  mono := fun _ h => h
  heard := fun h => absurd h Bool.false_ne_true
  fresh := fun _ h => .inl h

theorem unspoken_eq_nil (h : ∀ q, D.speaker above = some q → address q ∈ s.spoken) :
    D.unspoken s above = [] := by
  cases hq : D.speaker above with
  | none => simp [unspoken, hq]
  | some q => simp [unspoken, hq, h q hq]

variable {s' : Ledger α}

theorem unspoken_congr (h : ∀ q, D.speaker above = some q →
      (address q ∈ s'.spoken ↔ address q ∈ s.spoken)) :
    D.unspoken s' above = D.unspoken s above := by
  cases hq : D.speaker above with
  | none => simp [unspoken, hq]
  | some q => simp [unspoken, hq, filter_cons, h q hq]

/-- **Two walks below one place.** The second finds what the first asked already answered. -/
theorem Settles.trans {s₁ s₂ : Ledger α} {own own' : List (Lineage α)} {asked asked' : Bool}
    (hout : ∀ q, D.speaker above = some q → ¬ region (address q))
    (h : D.Settles s s₁ region own asked above) (h' : D.Settles s₁ s₂ region' own' asked' above) :
    D.Settles s s₂ (fun a => region a ∨ region' a) (own ++ own') (asked || asked') above where
  ran := by
    refine h'.ran.trans (((h.ran.append_right own').append_right _).trans ?_)
    cases asked with
    | true =>
      have hnil : D.unspoken s₁ above = [] := unspoken_eq_nil (h.heard rfl)
      have hlast : (if asked' then D.unspoken s₁ above else []) = [] := by
        cases asked' <;> simp [hnil]
      rw [hlast]
      simp only [append_nil, append_assoc]
      exact ((perm_append_comm.append_left own)).append_left s.ran
    | false =>
      have hsame : D.unspoken s₁ above = D.unspoken s above := by
        refine unspoken_congr fun q hq => ⟨fun hin => ?_, fun hin => h.mono hin⟩
        obtain hin | hin | ⟨hno, -⟩ := h.fresh _ hin
        · exact hin
        · exact absurd hin (hout q hq)
        · exact absurd hno Bool.false_ne_true
      rw [hsame]
      simp
  mono := fun a ha => h'.mono (h.mono ha)
  heard := by
    intro hasked q hq
    obtain hasked | hasked := Bool.or_eq_true_iff.mp hasked
    · exact h'.mono (h.heard hasked q hq)
    · exact h'.heard hasked q hq
  fresh := by
    intro a ha
    obtain ha | ha | ⟨hasked, hq⟩ := h'.fresh a ha
    · obtain ha | ha | ⟨hasked, hq⟩ := h.fresh a ha
      · exact .inl ha
      · exact .inr (.inl (.inl ha))
      · exact .inr (.inr ⟨by simp [hasked], hq⟩)
    · exact .inr (.inl (.inr ha))
    · exact .inr (.inr ⟨by simp [hasked], hq⟩)

theorem Settles.weaken {own : List (Lineage α)} {asked : Bool} (hsub : ∀ a, region a → region' a)
    (h : D.Settles s s' region own asked above) : D.Settles s s' region' own asked above :=
  ⟨h.ran, h.mono, h.heard, fun a ha => (h.fresh a ha).imp_right (Or.imp_left (hsub a))⟩

theorem speak_settles (hq : D.speaker above = some q) :
    D.Settles s (speak q s) region [] true above := by
  by_cases hin : address q ∈ s.spoken
  · have hc : s.spoken.contains (address q) = true := by simpa using hin
    have hsame : speak q s = s := by rw [speak, if_pos hc]
    rw [hsame]
    have hnil : D.unspoken s above = [] := unspoken_eq_nil fun q' hq' => by
      rw [hq] at hq'
      exact Option.some.inj hq' ▸ hin
    refine ⟨by simp [hnil], fun _ h => h, fun _ q' hq' => ?_, fun _ h => .inl h⟩
    rw [hq] at hq'
    exact Option.some.inj hq' ▸ hin
  · have hc : ¬ s.spoken.contains (address q) = true := by simpa using hin
    have hnew : speak q s = ⟨s.ran ++ [q], s.spoken ++ [address q]⟩ := by
      rw [speak, if_neg hc]
    rw [hnew]
    refine ⟨by simp [unspoken, hq, hin], fun a h => mem_append_left _ h, ?_, ?_⟩
    · intro _ q' hq'
      rw [hq] at hq'
      simp [Option.some.inj hq']
    · intro a ha
      obtain ha | ha := mem_append.mp ha
      · exact .inl ha
      · exact .inr (.inr ⟨rfl, q, hq, mem_singleton.mp ha⟩)

theorem trigger_settles {x : ℕ × Rose α} :
    D.Settles s (D.trigger x above s) region [x :: above] (!D.answers x.2.value) above := by
  have hact : D.Settles s { s with ran := s.ran ++ [x :: above] } (fun _ => False)
      [x :: above] false above :=
    ⟨by simp, fun _ h => h, fun h => absurd h Bool.false_ne_true, fun _ h => .inl h⟩
  unfold trigger
  cases hans : D.answers x.2.value with
  | true => exact hact.weaken fun _ => False.elim
  | false =>
    cases hq : D.speaker above with
    | none =>
      refine ⟨by simp [unspoken, hq], fun _ h => h, ?_, fun _ h => .inl h⟩
      intro _ q hq'
      exact absurd (hq.symm.trans hq') (by simp)
    | some q =>
      have hspeak : D.Settles _ (speak q { s with ran := s.ran ++ [x :: above] })
          (fun _ => False) [] true above := speak_settles hq
      exact (Settles.trans (fun _ _ h => h) hact hspeak).weaken fun _ h => (h.elim id id).elim

/-- The addresses below the children of a place from the `i`-th on. -/
def Below (above : Lineage α) (i : ℕ) (a : List ℕ) : Prop := ∃ j, i ≤ j ∧ (j :: address above) <:+ a

theorem descendAll_of_none (h : (cs.any fun c => D.admits c.value) = false) :
    D.descendAll above i cs s = s := by
  induction cs generalizing i with
  | nil => rfl
  | cons c cs ih =>
    rw [any_cons, Bool.or_eq_false_iff] at h
    rw [descendAll, if_neg (by simp [h.1])]
    exact ih h.2

/-- The children, given what the walk from each of them does. -/
theorem descendAll_settles
    (hwalk : ∀ c ∈ cs, ∀ i s, (∀ a ∈ s.spoken, ¬ (i :: address above) <:+ a) →
      D.Settles s (D.descend above i c s) (fun a => (i :: address above) <:+ a)
        (D.runs above i c) (D.asks c) above) (i : ℕ) (s : Ledger α)
    (hfresh : ∀ a ∈ s.spoken, ¬ Below above i a) :
    D.Settles s (D.descendAll above i cs s) (Below above i) (D.runsAll above i cs)
      (D.asksAll cs) above := by
  induction cs generalizing i s with
  | nil => exact Settles.refl
  | cons c cs ih =>
    have hrest := fun s => ih (forall_mem_cons.mp hwalk).2 (i + 1) s
    have hnot : ∀ q, D.speaker above = some q →
        ¬ (i :: address above) <:+ address q :=
      fun q hq => not_suffix_of_speaker hq
    rw [descendAll, runsAll, asksAll]
    cases hadm : D.admits c.value with
    | false =>
      have hcs := hrest s fun a ha hb =>
        hfresh a ha (hb.imp fun _ hj => ⟨by omega, hj.2⟩)
      have hwide : ∀ a, Below above (i + 1) a → Below above i a :=
        fun a hb => hb.imp fun _ hj => ⟨by omega, hj.2⟩
      simpa using hcs.weaken hwide
    | true =>
      have hc := hwalk c mem_cons_self i s fun a ha hsuf =>
        hfresh a ha ⟨i, le_rfl, hsuf⟩
      -- nothing spoken in the subtree of `c` or above it lies below a later sibling
      have hfresh' : ∀ a ∈ (D.descend above i c s).spoken, ¬ Below above (i + 1) a := by
        rintro a ha ⟨j, hj, hsuf⟩
        obtain ha | ha | ⟨-, q, hq, rfl⟩ := hc.fresh a ha
        · exact hfresh a ha ⟨j, by omega, hsuf⟩
        · exact absurd (eq_of_suffix_cons ha hsuf) (by omega)
        · exact not_suffix_of_speaker hq hsuf
      have hboth := Settles.trans hnot hc (hrest _ hfresh')
      refine hboth.weaken fun a ha => ?_
      obtain ha | ⟨j, hj, hsuf⟩ := ha
      · exact ⟨i, le_rfl, ha⟩
      · exact ⟨j, by omega, hsuf⟩

/-- **The walk from an admitted node**, whatever was spoken outside its subtree. -/
theorem descend_settles (t : Rose α) (above : Lineage α) (i : ℕ) (s : Ledger α)
    (hfresh : ∀ a ∈ s.spoken, ¬ (i :: address above) <:+ a) :
    D.Settles s (D.descend above i t s) (fun a => (i :: address above) <:+ a)
      (D.runs above i t) (D.asks t) above := by
  induction t using Rose.induction generalizing above i s with
  | node v cs ih =>
    rw [descend, runs, asks]
    cases hany : cs.any fun c => D.admits c.value with
    | false => exact trigger_settles
    | true =>
      have hreg : ∀ a, Below ((i, .node v cs) :: above) 0 a →
          (i :: address above) <:+ a := by
        rintro a ⟨j, -, hsuf⟩
        exact (suffix_cons j _).trans hsuf
      have hall := descendAll_settles (fun c hc j s hs => ih c hc ((i, .node v cs) :: above) j s hs)
        0 s fun a ha hb => hfresh a ha (hreg a hb)
      cases hv : D.speaks v with
      | false =>
        have hsp : D.speaker ((i, .node v cs) :: above) = D.speaker above := by
          rw [speaker, if_neg (by simp [hv])]
        refine ⟨?_, hall.mono, fun h q hq => hall.heard (by simpa using h) q (hsp ▸ hq), ?_⟩
        · simpa [unspoken, hsp] using hall.ran
        · intro a ha
          obtain ha | ha | ⟨hasked, q, hq, rfl⟩ := hall.fresh a ha
          · exact .inl ha
          · exact .inr (.inl (hreg a ha))
          · exact .inr (.inr ⟨by simpa using hasked, q, hsp ▸ hq, rfl⟩)
      | true =>
        have hsp : D.speaker ((i, .node v cs) :: above) = some ((i, .node v cs) :: above) := by
          rw [speaker, if_pos (by simp [hv])]
        have hhere : i :: address above ∉ s.spoken := fun h => hfresh _ h (suffix_refl _)
        refine ⟨?_, hall.mono, fun h => absurd h (by simp), ?_⟩
        · have hran := hall.ran
          cases hask : D.asksAll cs with
          | false => simpa [hask] using hran
          | true => simpa [hask, unspoken, hsp, hhere] using hran
        · intro a ha
          obtain ha | ha | ⟨-, q, hq, rfl⟩ := hall.fresh a ha
          · exact .inl ha
          · exact .inr (.inl (hreg a ha))
          · rw [hsp] at hq
            exact .inr (.inl (by simp [← Option.some.inj hq]))

/-- **The walk over a forest** makes the nodes act that `runs` names. -/
theorem descendAll_ran (roots : List (Rose α)) :
    (D.descendAll [] 0 roots ⟨[], []⟩).ran.Perm (D.runsAll [] 0 roots) := by
  have hwalk := fun c (_ : c ∈ roots) i s hs => descend_settles (D := D) c [] i s hs
  have h := descendAll_settles hwalk 0 ⟨[], []⟩ (by simp)
  simpa [unspoken, speaker] using h.ran

/-! ## No node acts twice -/

theorem mem_runsAll :
    q ∈ D.runsAll above i cs ↔
      ∃ j c, cs[j]? = some c ∧ D.admits c.value = true ∧ q ∈ D.runs above (i + j) c := by
  induction cs generalizing i with
  | nil => simp [runsAll]
  | cons c cs ih =>
    rw [runsAll, mem_append, ih]
    constructor
    · rintro (h | ⟨j, d, hd, hadm, hq⟩)
      · cases hadm : D.admits c.value with
        | false => simp [hadm] at h
        | true => exact ⟨0, c, rfl, hadm, by simpa [hadm] using h⟩
      · exact ⟨j + 1, d, hd, hadm, by rwa [Nat.add_comm j 1, ← Nat.add_assoc]⟩
    · rintro ⟨j, d, hd, hadm, hq⟩
      cases j with
      | zero =>
        cases hd
        exact .inl (by simpa [hadm] using hq)
      | succ j => exact .inr ⟨j, d, hd, hadm, by rwa [Nat.add_assoc, Nat.add_comm 1 j]⟩

theorem suffix_of_mem_runs (t : Rose α) (h : q ∈ D.runs above i t) : ((i, t) :: above) <:+ q := by
  induction t using Rose.induction generalizing above i with
  | node v cs ih =>
    rw [runs] at h
    cases hany : cs.any fun c => D.admits c.value with
    | false =>
      rw [hany] at h
      simp only [Bool.false_eq_true, if_false, mem_singleton] at h
      exact h ▸ suffix_refl _
    | true =>
      rw [hany, if_pos rfl, mem_append] at h
      obtain h | h := h
      · obtain ⟨j, c, hc, -, hq⟩ := mem_runsAll.mp h
        exact (suffix_cons _ _).trans (ih c (mem_of_getElem? hc) hq)
      · split at h
        · exact mem_singleton.mp h ▸ suffix_refl _
        · exact absurd h not_mem_nil

theorem runsAll_nodup (hruns : ∀ c ∈ cs, ∀ i, (D.runs above i c).Nodup) (i : ℕ) :
    (D.runsAll above i cs).Nodup := by
  induction cs generalizing i with
  | nil => exact nodup_nil
  | cons c cs ih =>
    have hcs := ih (forall_mem_cons.mp hruns).2 (i + 1)
    rw [runsAll, nodup_append]
    refine ⟨?_, hcs, ?_⟩
    · split
      · exact hruns c mem_cons_self i
      · exact nodup_nil
    · rintro q hq q' hq' rfl
      obtain ⟨j, d, -, -, hq'⟩ := mem_runsAll.mp hq'
      split at hq
      · have hc := suffix_of_mem_runs c hq
        have hd := suffix_of_mem_runs d hq'
        have heq := List.IsSuffix.eq_of_length
          (suffix_of_suffix_length_le hc hd (by simp)) (by simp)
        have hi : i = i + 1 + j := (Prod.mk.inj (List.cons.inj heq).1).1
        omega
      · exact absurd hq not_mem_nil

theorem runs_nodup (t : Rose α) (above : Lineage α) (i : ℕ) : (D.runs above i t).Nodup := by
  induction t using Rose.induction generalizing above i with
  | node v cs ih =>
    rw [runs]
    split
    · rw [nodup_append]
      refine ⟨runsAll_nodup (fun c hc j => ih c hc _ j) 0, ?_, ?_⟩
      · split <;> simp
      · rintro q hq q' hq' rfl
        split at hq'
        · -- the nodes below are longer lineages than the node itself
          obtain ⟨j, c, -, -, hq⟩ := mem_runsAll.mp hq
          have hlen := (suffix_of_mem_runs c hq).length_le
          rw [mem_singleton.mp hq'] at hlen
          simp only [length_cons] at hlen
          omega
        · exact absurd hq' not_mem_nil
    · exact nodup_singleton _

/-- **Each node that acts acts once.** -/
theorem descendAll_nodup (roots : List (Rose α)) :
    (D.descendAll [] 0 roots ⟨[], []⟩).ran.Nodup :=
  (descendAll_ran roots).nodup_iff.mpr (runsAll_nodup (fun c _ i => runs_nodup c [] i) 0)

end Delegation

end Pkm
