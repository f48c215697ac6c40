import Pkm.Lib.Delegation
/-!
# What a delegation does not depend on

Which nodes act depends on the values along their lineages only (`map_values_ran`), so
it does not depend on the order of the roots and of the children (`deedsAll_shuffle`).
The walk itself depends on the nodes that are asked only (`descendAll_congr`) and on
nothing in their values that a map may forget (`Alike.descendAll_map`).
-/

namespace Pkm

open List Rose

namespace Delegation

variable {α : Type*} {D : Delegation α} {above : Lineage α} {cs cs' roots : List (Rose α)}
  {t t' : Rose α}

/-! ## What is asked, and what is done with the values alone -/

section Values

variable (D)

mutual

/-- The values that are asked whether they admit the question, below an admitted node. -/
def consulted : Rose α → List α
  | .node _ cs => consultedAll cs

def consultedAll : List (Rose α) → List α
  | [] => []
  | c :: cs => c.value :: (if D.admits c.value then consulted c else []) ++ consultedAll cs

end

mutual

/-- The values of the nodes that act and of those above them, given the values above. -/
def deeds (above : List α) : Rose α → List (List α)
  | .node v cs =>
    if cs.any fun c => D.admits c.value then
      deedsAll (v :: above) cs ++ if D.speaks v && D.asksAll cs then [v :: above] else []
    else [v :: above]

def deedsAll (above : List α) : List (Rose α) → List (List α)
  | [] => []
  | c :: cs => (if D.admits c.value then deeds above c else []) ++ deedsAll above cs

end

end Values

theorem map_values_runsAll (hruns : ∀ c ∈ cs, ∀ i, (D.runs above i c).map Lineage.values =
      D.deeds (Lineage.values above) c) (i : ℕ) :
    (D.runsAll above i cs).map Lineage.values = D.deedsAll (Lineage.values above) cs := by
  induction cs generalizing i with
  | nil => rfl
  | cons c cs ih =>
    rw [runsAll, map_append, ih (forall_mem_cons.mp hruns).2]
    congr 1
    split
    · exact hruns c mem_cons_self i
    · rfl

theorem map_values_runs (t : Rose α) (above : Lineage α) (i : ℕ) :
    (D.runs above i t).map Lineage.values = D.deeds (Lineage.values above) t := by
  induction t using Rose.induction generalizing above i with
  | node v cs ih =>
    rw [runs, deeds]
    split
    · rw [map_append, map_values_runsAll (fun c hc j => ih c hc _ j) 0]
      split <;> rfl
    · rfl

/-- **The values of those that acted**, in any order. -/
theorem map_values_ran (roots : List (Rose α)) :
    ((D.descendAll [] 0 roots ⟨[], []⟩).ran.map Lineage.values).Perm (D.deedsAll [] roots) := by
  have h := (descendAll_ran (D := D) roots).map Lineage.values
  rwa [map_values_runsAll (fun c _ i => map_values_runs c [] i) 0] at h

/-! ## Reordering -/

theorem asksAll_eq_any (cs : List (Rose α)) :
    D.asksAll cs = cs.any fun c => D.admits c.value && D.asks c := by
  induction cs with
  | nil => rfl
  | cons c cs ih => rw [asksAll, any_cons, ih]

theorem consultedAll_eq_flatMap (cs : List (Rose α)) :
    D.consultedAll cs =
      cs.flatMap fun c => c.value :: if D.admits c.value then D.consulted c else [] := by
  induction cs with
  | nil => rfl
  | cons c cs ih => rw [consultedAll, flatMap_cons, ih]

theorem consultedAll_subset_of (h : ∀ c ∈ cs, D.consulted c ⊆ c.members) :
    D.consultedAll cs ⊆ membersAll cs := by
  intro v hv
  rw [consultedAll_eq_flatMap] at hv
  obtain ⟨c, hc, hv⟩ := mem_flatMap.mp hv
  refine mem_membersAll.mpr ⟨c, hc, ?_⟩
  obtain rfl | hv := mem_cons.mp hv
  · exact c.value_mem_members
  · split at hv
    · exact h c hc hv
    · exact absurd hv not_mem_nil

theorem consulted_subset (t : Rose α) : D.consulted t ⊆ t.members := by
  induction t using Rose.induction with
  | node v cs ih =>
    exact List.Subset.trans (consultedAll_subset_of ih) (subset_cons_self v _)

/-- Only nodes of the forest are asked. -/
theorem consultedAll_subset (roots : List (Rose α)) : D.consultedAll roots ⊆ membersAll roots :=
  consultedAll_subset_of fun c _ => consulted_subset c

theorem deedsAll_eq_flatMap (above : List α) (cs : List (Rose α)) :
    D.deedsAll above cs = cs.flatMap fun c => if D.admits c.value then D.deeds above c else [] := by
  induction cs with
  | nil => rfl
  | cons c cs ih => rw [deedsAll, flatMap_cons, ih]

/-- A property of the children that neither depends on their order nor on that below them. -/
theorem any_shuffle {p : Rose α → Bool} (hp : ∀ c ∈ cs, ∀ c', Shuffle c c' → p c = p c')
    (h : ShuffleAll cs cs') : cs.any p = cs'.any p := by
  obtain ⟨mid, hf, hperm⟩ := h
  rw [← hperm.any_eq]
  clear hperm
  induction hf with
  | nil => rfl
  | cons hc _ ih =>
    rw [any_cons, any_cons, hp _ mem_cons_self _ hc, ih (forall_mem_cons.mp hp).2]

theorem flatMap_shuffle {β : Type*} {f : Rose α → List β}
    (hf : ∀ c ∈ cs, ∀ c', Shuffle c c' → (f c).Perm (f c')) (h : ShuffleAll cs cs') :
    (cs.flatMap f).Perm (cs'.flatMap f) := by
  obtain ⟨mid, hmid, hperm⟩ := h
  refine List.Perm.trans ?_ (hperm.flatMap_right f)
  clear hperm
  induction hmid with
  | nil => exact List.Perm.nil
  | cons hc _ ih =>
    exact (hf _ mem_cons_self _ hc).append (ih (forall_mem_cons.mp hf).2)

theorem any_admits_shuffle (h : ShuffleAll cs cs') :
    (cs.any fun c => D.admits c.value) = cs'.any fun c => D.admits c.value :=
  any_shuffle (fun _ _ _ hc => by rw [hc.value_eq]) h

theorem asks_shuffle (h : Shuffle t t') : D.asks t = D.asks t' := by
  induction t using Rose.induction generalizing t' with
  | node v cs ih =>
    cases h with
    | node _ hf hperm =>
      have hall : ShuffleAll cs _ := ⟨_, hf, hperm⟩
      rw [asks, asks, any_admits_shuffle hall, asksAll_eq_any, asksAll_eq_any,
        any_shuffle (fun c hc c' hcc' => by rw [hcc'.value_eq, ih c hc hcc']) hall]

theorem asksAll_shuffle (h : ShuffleAll cs cs') : D.asksAll cs = D.asksAll cs' := by
  rw [asksAll_eq_any, asksAll_eq_any]
  exact any_shuffle (fun _ _ _ hc => by rw [hc.value_eq, asks_shuffle hc]) h

theorem consultedAll_shuffle_of
    (hsub : ∀ c ∈ cs, ∀ c', Shuffle c c' → (D.consulted c).Perm (D.consulted c'))
    (h : ShuffleAll cs cs') : (D.consultedAll cs).Perm (D.consultedAll cs') := by
  rw [consultedAll_eq_flatMap, consultedAll_eq_flatMap]
  refine flatMap_shuffle (fun c hc c' hcc' => ?_) h
  rw [hcc'.value_eq]
  split
  · exact (hsub c hc c' hcc').cons _
  · exact List.Perm.refl _

theorem consulted_shuffle (h : Shuffle t t') : (D.consulted t).Perm (D.consulted t') := by
  induction t using Rose.induction generalizing t' with
  | node v cs ih =>
    cases h with
    | node _ hf hperm => exact consultedAll_shuffle_of (fun c hc _ => ih c hc) ⟨_, hf, hperm⟩

/-- **Reordering asks the same nodes.** -/
theorem consultedAll_shuffle (h : ShuffleAll cs cs') :
    (D.consultedAll cs).Perm (D.consultedAll cs') :=
  consultedAll_shuffle_of (fun _ _ _ => consulted_shuffle) h

theorem deedsAll_shuffle_of {above : List α}
    (hsub : ∀ c ∈ cs, ∀ c', Shuffle c c' → (D.deeds above c).Perm (D.deeds above c'))
    (h : ShuffleAll cs cs') : (D.deedsAll above cs).Perm (D.deedsAll above cs') := by
  rw [deedsAll_eq_flatMap, deedsAll_eq_flatMap]
  refine flatMap_shuffle (fun c hc c' hcc' => ?_) h
  rw [hcc'.value_eq]
  split
  · exact hsub c hc c' hcc'
  · exact List.Perm.refl _

theorem deeds_shuffle (h : Shuffle t t') (above : List α) :
    (D.deeds above t).Perm (D.deeds above t') := by
  induction t using Rose.induction generalizing t' above with
  | node v cs ih =>
    cases h with
    | node _ hf hperm =>
      have hall : ShuffleAll cs _ := ⟨_, hf, hperm⟩
      rw [deeds, deeds, any_admits_shuffle hall, asksAll_shuffle hall]
      split
      · exact (deedsAll_shuffle_of (fun c hc _ h => ih c hc h _) hall).append_right _
      · exact List.Perm.refl _

/-- **Reordering makes the same nodes act.** -/
theorem deedsAll_shuffle (h : ShuffleAll cs cs') (above : List α) :
    (D.deedsAll above cs).Perm (D.deedsAll above cs') :=
  deedsAll_shuffle_of (fun _ _ _ h => deeds_shuffle h above) h

/-! ## Another question -/

/-- Two questions that the same nodes answer and speak for. -/
structure SameVoices (D D' : Delegation α) : Prop where
  answers : ∀ v, D'.answers v = D.answers v
  speaks : ∀ v, D'.speaks v = D.speaks v

variable {D' : Delegation α}

theorem SameVoices.speaker_eq (h : SameVoices D D') (l : Lineage α) :
    D'.speaker l = D.speaker l := by
  induction l with
  | nil => rfl
  | cons x l ih => rw [speaker, speaker, h.speaks, ih]

theorem any_admits_congr (h : ∀ v ∈ D.consultedAll cs, D'.admits v = D.admits v) :
    (cs.any fun c => D'.admits c.value) = cs.any fun c => D.admits c.value := by
  induction cs with
  | nil => rfl
  | cons c cs ih =>
    rw [consultedAll] at h
    rw [any_cons, any_cons, h c.value (by simp), ih fun v hv => h v (mem_append_right _ hv)]

/-- The children, given the walk from each of them. -/
theorem descendAll_congr_of (hwalk : ∀ c ∈ cs, (∀ v ∈ D.consulted c, D'.admits v = D.admits v) →
      ∀ i s, D'.descend above i c s = D.descend above i c s)
    (h : ∀ v ∈ D.consultedAll cs, D'.admits v = D.admits v) (i : ℕ) (s : Ledger α) :
    D'.descendAll above i cs s = D.descendAll above i cs s := by
  induction cs generalizing i s with
  | nil => rfl
  | cons c cs ih =>
    rw [consultedAll] at h
    have hc := h c.value (by simp)
    have hcs := ih (forall_mem_cons.mp hwalk).2 fun v hv => h v (mem_append_right _ hv)
    rw [descendAll, descendAll, hc, hcs]
    cases hadm : D.admits c.value with
    | false => rfl
    | true =>
      have hsub : ∀ v ∈ D.consulted c, D'.admits v = D.admits v := fun v hv =>
        h v (by simp [hadm, hv])
      simp only [hwalk c mem_cons_self hsub i s]

theorem descend_congr (hv : SameVoices D D') (t : Rose α) (above : Lineage α) (i : ℕ)
    (s : Ledger α) (h : ∀ v ∈ D.consulted t, D'.admits v = D.admits v) :
    D'.descend above i t s = D.descend above i t s := by
  induction t using Rose.induction generalizing above i s with
  | node v cs ih =>
    rw [descend, descend, any_admits_congr h, trigger, trigger, hv.answers, hv.speaker_eq,
      descendAll_congr_of (fun c hc hsub j s => ih c hc _ j s hsub) h]

/-- **Only the nodes that are asked matter.** -/
theorem descendAll_congr (hv : SameVoices D D')
    (h : ∀ v ∈ D.consultedAll roots, D'.admits v = D.admits v) (s : Ledger α) :
    D'.descendAll [] 0 roots s = D.descendAll [] 0 roots s :=
  descendAll_congr_of (fun c _ hsub i s => descend_congr hv c [] i s hsub) h 0 s

theorem consultedAll_congr_of (hsub : ∀ c ∈ cs, (∀ v ∈ D.consulted c, D'.admits v = D.admits v) →
      D'.consulted c = D.consulted c) (h : ∀ v ∈ D.consultedAll cs, D'.admits v = D.admits v) :
    D'.consultedAll cs = D.consultedAll cs := by
  rw [consultedAll_eq_flatMap] at h
  rw [consultedAll_eq_flatMap, consultedAll_eq_flatMap]
  refine flatMap_congr fun c hc => ?_
  have hasked := forall_mem_flatMap.mp h c hc
  rw [forall_mem_cons] at hasked
  rw [hasked.1]
  split
  · rw [hsub c hc (by simpa [*] using hasked.2)]
  · rfl

theorem consulted_congr (t : Rose α) (h : ∀ v ∈ D.consulted t, D'.admits v = D.admits v) :
    D'.consulted t = D.consulted t := by
  induction t using Rose.induction with
  | node v cs ih =>
    exact consultedAll_congr_of ih h

/-- The nodes that are asked depend on their answers only. -/
theorem consultedAll_congr (h : ∀ v ∈ D.consultedAll roots, D'.admits v = D.admits v) :
    D'.consultedAll roots = D.consultedAll roots :=
  consultedAll_congr_of (fun c _ => consulted_congr c) h

/-! ## Other values -/

variable {β : Type*} {E : Delegation β} {f : α → β} {cs : List (Rose α)}

/-- Two questions that values and their images treat alike. -/
structure Alike (D : Delegation α) (E : Delegation β) (f : α → β) : Prop where
  admits : ∀ v, E.admits (f v) = D.admits v
  answers : ∀ v, E.answers (f v) = D.answers v
  speaks : ∀ v, E.speaks (f v) = D.speaks v

theorem Alike.speaker_map (h : Alike D E f) (l : Lineage α) :
    E.speaker (Lineage.map f l) = (D.speaker l).map (Lineage.map f) := by
  induction l with
  | nil => rfl
  | cons x l ih =>
    rw [Lineage.map_cons, speaker, speaker, value_map, h.speaks, ih]
    split <;> rfl

theorem speak_map (q : Lineage α) (s : Ledger α) :
    speak (Lineage.map f q) (s.map f) = (speak q s).map f := by
  rw [speak, speak, Lineage.address_map, Ledger.map_spoken]
  split
  · rfl
  · simp [Ledger.map]

variable (h : Alike D E f)

include h

theorem Alike.trigger_map (x : ℕ × Rose α) (above : Lineage α) (s : Ledger α) :
    E.trigger (x.1, x.2.map f) (Lineage.map f above) (s.map f) = (D.trigger x above s).map f := by
  have hact : (⟨(s.map f).ran ++ [(x.1, x.2.map f) :: Lineage.map f above], (s.map f).spoken⟩ :
      Ledger β) = (Ledger.mk (s.ran ++ [x :: above]) s.spoken).map f := by
    simp [Ledger.map]
  rw [trigger, trigger, value_map, h.answers, h.speaker_map]
  simp only [hact]
  split
  · rfl
  · cases D.speaker above with
    | none => rfl
    | some q => exact speak_map q _

theorem Alike.any_map (cs : List (Rose α)) :
    ((mapAll f cs).any fun c => E.admits c.value) = cs.any fun c => D.admits c.value := by
  induction cs with
  | nil => rfl
  | cons c cs ih => rw [mapAll, any_cons, any_cons, value_map, h.admits, ih]

theorem Alike.descendAll_map_of {above : Lineage α}
    (hwalk : ∀ c ∈ cs, ∀ i s, E.descend (Lineage.map f above) i (c.map f) (s.map f) =
      (D.descend above i c s).map f) (i : ℕ) (s : Ledger α) :
    E.descendAll (Lineage.map f above) i (mapAll f cs) (s.map f) =
      (D.descendAll above i cs s).map f := by
  induction cs generalizing i s with
  | nil => rfl
  | cons c cs ih =>
    have hcs := ih (forall_mem_cons.mp hwalk).2
    rw [mapAll, descendAll, descendAll, value_map, h.admits]
    cases D.admits c.value with
    | false => exact hcs (i + 1) s
    | true =>
      simp only [hwalk c mem_cons_self i s]
      exact hcs (i + 1) _

theorem Alike.descend_map (t : Rose α) (above : Lineage α) (i : ℕ) (s : Ledger α) :
    E.descend (Lineage.map f above) i (t.map f) (s.map f) = (D.descend above i t s).map f := by
  induction t using Rose.induction generalizing above i s with
  | node v cs ih =>
    rw [Rose.map, descend, descend, h.any_map]
    split
    · exact h.descendAll_map_of (fun c hc j s => ih c hc ((i, .node v cs) :: above) j s) 0 s
    · exact h.trigger_map (i, .node v cs) above s

/-- **The walk does not look at what `f` forgets.** -/
theorem Alike.descendAll_map (roots : List (Rose α)) :
    E.descendAll [] 0 (mapAll f roots) ⟨[], []⟩ = (D.descendAll [] 0 roots ⟨[], []⟩).map f :=
  h.descendAll_map_of (fun c _ i s => h.descend_map c [] i s) 0 ⟨[], []⟩

theorem Alike.consultedAll_map_of (hsub : ∀ c ∈ cs, E.consulted (c.map f) = (D.consulted c).map f) :
    E.consultedAll (mapAll f cs) = (D.consultedAll cs).map f := by
  induction cs with
  | nil => rfl
  | cons c cs ih =>
    rw [mapAll, consultedAll, consultedAll, value_map, h.admits,
      ih (forall_mem_cons.mp hsub).2, hsub c mem_cons_self]
    cases D.admits c.value <;> simp

theorem Alike.consulted_map (t : Rose α) :
    E.consulted (t.map f) = (D.consulted t).map f := by
  induction t using Rose.induction with
  | node v cs ih =>
    exact h.consultedAll_map_of ih

theorem Alike.consultedAll_map (roots : List (Rose α)) :
    E.consultedAll (mapAll f roots) = (D.consultedAll roots).map f :=
  h.consultedAll_map_of fun c _ => h.consulted_map c

end Delegation

end Pkm
