import Pkm.Kacs.Model.TokenAdjust
/-!
# Runs of adjustments

A batch of group entries is stored before the copy for the views is allocated. So
a run of them is all or nothing exactly as long as no batch that changes a group
meets a failed allocation. Batches of privilege entries store nothing before they
succeed, and what they store only takes privileges away.
-/

namespace Pkm.Kacs

open List Outcome

namespace LiveToken

variable {n : ℕ}

/-! ## Groups -/

section Groups

variable {i : Fin n} {entries previous : List GroupAdjustEntry}

/-- A call, and whether the allocation it makes succeeds. -/
structure GroupCall where
  entries : List GroupAdjustEntry
  allocates : Bool

variable (self : LiveToken n) (call : GroupCall)

def answer : SysResult (List Bool) := (self.adjustGroups call.entries call.allocates).1

def after : LiveToken n := (self.adjustGroups call.entries call.allocates).2

/-- The views are the attributes. -/
def Synced : Prop :=
  self.groupViews = self.groupAttributes ∧ self.groupRuntimeViews = self.groupAttributes

/-- What is asked of one call. -/
structure Keeps (token : LiveToken n) (call : GroupCall) : Prop where
  unchanged_of_error : ∀ e, token.answer call = .error e →
    (token.after call).groupAttributes = token.groupAttributes ∧
      (token.after call).groupViews = token.groupViews ∧
      (token.after call).groupRuntimeViews = token.groupRuntimeViews ∧
      (token.after call).modifiedId = token.modifiedId
  synced : (token.after call).Synced
  fixed : isGroupReset call.entries = false → ∀ i, isFixedGroup (token.groupAttributes i) = true →
    (token.after call).groupAttributes i = token.groupAttributes i

/-- Every call of a run keeps what is asked of it. -/
def AllOrNothing : LiveToken n → List GroupCall → Prop
  | _, [] => True
  | self, call :: rest => self.Keeps call ∧ (self.after call).AllOrNothing rest

/-- A batch that was accepted and changes a group, and then finds no room for the copy. -/
def Torn : Prop :=
  call.allocates = false ∧ (self.checkGroupEntries call.entries).isOk = true ∧
    isGroupReset call.entries = false ∧
    call.entries.foldl storeGroupEntry self.groupAttributes ≠ self.groupAttributes

def NoneTorn : LiveToken n → List GroupCall → Prop
  | _, [] => True
  | self, call :: rest => ¬ self.Torn call ∧ (self.after call).NoneTorn rest

variable {self call}

/-- An accepted entry is for a group that is not fixed. -/
theorem not_fixed_of_validateGroupEntry {entry : GroupAdjustEntry}
    (h : self.validateGroupEntry previous entry = .ok ()) (hi : i.val = entry.index.toNat) :
    isFixedGroup (self.groupAttributes i) = false := by
  have hlt : entry.index.toNat < n := hi ▸ i.isLt
  unfold validateGroupEntry at h
  rw [dif_pos hlt] at h
  obtain ⟨-, h⟩ := of_guard h
  obtain ⟨-, h⟩ := of_guard h
  obtain ⟨hfree, -⟩ := of_guard h
  obtain rfl : i = ⟨entry.index.toNat, hlt⟩ := Fin.ext hi
  simpa using fun hfixed => hfree (.inl hfixed)

theorem not_fixed_of_validateGroupEntries
    (h : self.validateGroupEntries previous entries = .ok ()) :
    ∀ entry ∈ entries, ∀ i : Fin n, i.val = entry.index.toNat →
      isFixedGroup (self.groupAttributes i) = false := by
  induction entries generalizing previous with
  | nil => simp
  | cons entry rest ih =>
    obtain ⟨⟨⟩, hentry, hrest⟩ := of_bind h
    exact forall_mem_cons.mpr ⟨fun _ => not_fixed_of_validateGroupEntry hentry, ih hrest⟩

/-- A group no entry is for keeps its attributes. -/
theorem foldl_storeGroupEntry (h : ∀ entry ∈ entries, i.val ≠ entry.index.toNat)
    (attributes : Fin n → BitVec 32) :
    entries.foldl storeGroupEntry attributes i = attributes i := by
  induction entries generalizing attributes with
  | nil => rfl
  | cons entry rest ih =>
    rw [foldl_cons, ih (forall_mem_cons.mp h).2]
    exact if_neg (h entry mem_cons_self)

/-- Explicit entries that are accepted leave the fixed groups alone. -/
theorem stored_fixed {next : BitVec 64} (h : self.checkGroupEntries entries = .ok next)
    (hreset : isGroupReset entries = false) (hi : isFixedGroup (self.groupAttributes i) = true) :
    entries.foldl storeGroupEntry self.groupAttributes i = self.groupAttributes i := by
  obtain ⟨next', -, h⟩ := of_bind h
  cases entries with
  | nil => rfl
  | cons first rest =>
    simp only [hreset] at h
    obtain ⟨⟨⟩, hvalid, -⟩ := of_bind h
    refine foldl_storeGroupEntry (fun entry he heq => ?_) _
    rw [not_fixed_of_validateGroupEntries hvalid entry he i heq] at hi
    cases hi

theorem keeps_of_after_eq (hsynced : self.Synced) (h : self.after call = self) :
    self.Keeps call where
  unchanged_of_error _ _ := by
    rw [h]
    exact ⟨rfl, rfl, rfl, rfl⟩
  synced := by rwa [h]
  fixed _ _ _ := by rw [h]

/-- **One call** of a token whose views are right keeps all that is asked, unless it is torn. -/
theorem keeps_iff (hsynced : self.Synced) : self.Keeps call ↔ ¬ self.Torn call := by
  cases hcheck : self.checkGroupEntries call.entries with
  | error e =>
    exact iff_of_true (keeps_of_after_eq hsynced (by rw [after, adjustGroups, hcheck]))
      (by simp [Torn, hcheck, Except.toBool])
  | ok next =>
    cases hreset : isGroupReset call.entries with
    | true =>
      refine iff_of_true ⟨fun e he => ?_, ?_, fun h => absurd h (by simp [hreset])⟩
        (by simp [Torn, hreset])
      · simp [answer, adjustGroups, hcheck, hreset] at he
      · simp [after, adjustGroups, hcheck, hreset, Synced, syncGroupViews]
    | false =>
      cases hallocates : call.allocates with
      | true =>
        refine iff_of_true ⟨fun e he => ?_, ?_, fun _ i hi => ?_⟩ (by simp [Torn, hallocates])
        · simp [answer, adjustGroups, hcheck, hreset, hallocates] at he
        · simp [after, adjustGroups, hcheck, hreset, hallocates, Synced, syncGroupViews]
        · simpa [after, adjustGroups, hcheck, hreset, hallocates, syncGroupViews] using
            stored_fixed hcheck hreset hi
      | false =>
        have hcall : self.adjustGroups call.entries call.allocates = (.error .enomem,
            { self with
              groupAttributes := call.entries.foldl storeGroupEntry self.groupAttributes }) := by
          simp [adjustGroups, hcheck, hreset, hallocates]
        have hanswer : self.answer call = .error .enomem := congrArg Prod.fst hcall
        have hafter := congrArg Prod.snd hcall
        constructor
        · rintro h ⟨-, -, -, hchanged⟩
          have hsame := (h.unchanged_of_error .enomem hanswer).1
          rw [after, hafter] at hsame
          exact hchanged hsame
        · intro h
          have hsame : call.entries.foldl storeGroupEntry self.groupAttributes =
              self.groupAttributes := by
            by_contra hchanged
            exact h ⟨hallocates, by rw [hcheck]; rfl, hreset, hchanged⟩
          rw [hsame] at hafter
          exact keeps_of_after_eq hsynced hafter

/-- **A run of adjustments of groups is all or nothing exactly when no call of it is torn.** -/
theorem allOrNothing_iff (userSid : Sid) (groupSids : Fin n → Sid)
    (attributes defaults : Fin n → BitVec 32) (privileges : TokenPrivileges)
    (modifiedId : BitVec 64) (calls : List GroupCall) :
    (new userSid groupSids attributes defaults privileges modifiedId).AllOrNothing calls ↔
      (new userSid groupSids attributes defaults privileges modifiedId).NoneTorn calls := by
  have hrun : ∀ token : LiveToken n, token.Synced →
      (token.AllOrNothing calls ↔ token.NoneTorn calls) := by
    induction calls with
    | nil => exact fun _ _ => Iff.rfl
    | cons call rest ih =>
      intro token hsynced
      rw [NoneTorn, ← keeps_iff hsynced]
      exact and_congr_right fun hkeeps => ih _ hkeeps.synced
  exact hrun _ ⟨rfl, rfl⟩

/-- A disabled group is enabled and the copy cannot be had. The call fails, the group is enabled
and no access check sees it. -/
theorem adjustGroups_tears :
    let token : LiveToken 1 := new Sid.system (fun _ => Sid.everyone) (fun _ => 0#32)
      (fun _ => 0#32) ⟨0#64, 0#64, 0#64, 0#64⟩ 1#64
    let call : GroupCall := ⟨[⟨0#32, 1#32⟩], false⟩
    token.answer call = .error .enomem ∧ (token.after call).groupAttributes 0 = seGroupEnabled ∧
      token.groupAttributes 0 = 0#32 ∧ (token.after call).groupViews 0 = 0#32 := by
  decide

end Groups

/-! ## Privileges -/

open Bits

variable {entries : List PrivilegeAdjustEntry} {p p' : TokenPrivileges}

theorem PrivilegeAdjustEntry.bit_mask (entry : PrivilegeAdjustEntry) (i : Fin 64) :
    bit entry.mask i = decide (i.val = entry.luid.toNat) := by
  simp only [bit, mask]
  grind

/-- The masks after an entry, bit by bit. -/
theorem PrivilegeAdjustEntry.bit_apply {entry : PrivilegeAdjustEntry} (h : entry.apply p = .ok p')
    (i : Fin 64) :
    bit p'.present i =
        (bit p.present i &&
          !decide (i.val = entry.luid.toNat ∧ entry.attributes = sePrivilegeRemoved)) ∧
      bit p'.enabled i =
        if i.val = entry.luid.toNat then decide (entry.attributes = sePrivilegeEnabled)
        else bit p.enabled i := by
  have hne : sePrivilegeEnabled ≠ 0#32 ∧ sePrivilegeRemoved ≠ 0#32 ∧
      sePrivilegeRemoved ≠ sePrivilegeEnabled := by decide
  unfold apply at h
  split_ifs at h with h₀ h₁ h₂ <;> obtain rfl := Except.ok.inj h <;>
    simp only [bit_and, bit_or, bit_not, bit_mask, *] <;>
    by_cases hi : i.val = entry.luid.toNat <;> simp [hi, hne.1.symm, hne.2.1.symm, hne.2.2.symm]

/-- What a batch does to the masks: privileges are only taken away, those removed are gone, and
what is enabled stays present. -/
structure Lowers (p : TokenPrivileges) (entries : List PrivilegeAdjustEntry)
    (p' : TokenPrivileges) : Prop where
  present_subset : p'.present ⊆ p.present
  enabled_subset : p'.enabled ⊆ p'.present
  removed : ∀ entry ∈ entries, entry.attributes = sePrivilegeRemoved →
    ∀ i : Fin 64, i.val = entry.luid.toNat → bit p'.present i = false

/-- The loop that applies accepted entries. The privileges not seen yet are those the entries were
checked against, so that an entry never enables what an earlier one has removed. -/
theorem lowers_foldlM {present : BitVec 64} {seen : List (BitVec 32)}
    (hvalid : validatePrivilegeEntries present seen entries = .ok ())
    (hpresent : ∀ i : Fin 64, (∀ luid ∈ seen, i.val ≠ luid.toNat) →
      bit p.present i = bit present i) (henabled : p.enabled ⊆ p.present)
    (h : entries.foldlM (fun privileges entry => entry.apply privileges) p = .ok p') :
    Lowers p entries p' := by
  induction entries generalizing seen p with
  | nil =>
    cases h
    exact ⟨subset_refl _, henabled, by simp⟩
  | cons entry rest ih =>
    obtain ⟨⟨⟩, hentry, hrest⟩ := of_bind hvalid
    obtain ⟨p₁, happly, h⟩ := of_bind h
    obtain ⟨hluid, hentry⟩ := of_guard hentry
    obtain ⟨hseen, hentry⟩ := of_guard hentry
    have hbits := PrivilegeAdjustEntry.bit_apply happly
    have hshrinks : p₁.present ⊆ p.present :=
      subset_iff.mpr fun i hi => by
        rw [(hbits i).1, Bool.and_eq_true] at hi
        exact hi.1
    have hlowers := ih hrest (fun i hi => ?_) (subset_iff.mpr fun i hi => ?_) h
    · refine ⟨subset_trans hlowers.present_subset hshrinks, hlowers.enabled_subset,
        forall_mem_cons.mpr ⟨fun hremoved i hi => ?_, hlowers.removed⟩⟩
      exact bit_eq_false_of_subset hlowers.present_subset (by simp [(hbits i).1, hi, hremoved])
    · have hne : i.val ≠ entry.luid.toNat := hi _ mem_cons_self
      rw [(hbits i).1, hpresent i (forall_mem_cons.mp hi).2]
      simp [hne]
    · rw [(hbits i).2] at hi
      rw [(hbits i).1]
      split_ifs at hi with hluid'
      · -- the entry enables this privilege, which was present when the batch was checked
        have hattr : entry.attributes = sePrivilegeEnabled := of_decide_eq_true hi
        have hne : sePrivilegeEnabled ≠ 0#32 ∧ sePrivilegeEnabled ≠ sePrivilegeRemoved := by decide
        rw [hattr, if_pos rfl] at hentry
        obtain ⟨hmask, -⟩ := of_guard hentry
        obtain ⟨j, hj, hjmask⟩ := and_ne_zero_iff.mp hmask
        rw [PrivilegeAdjustEntry.bit_mask, decide_eq_true_iff] at hjmask
        obtain rfl : j = i := Fin.ext (hjmask.trans hluid'.symm)
        have hfresh : ∀ luid ∈ seen, j.val ≠ luid.toNat := fun luid hl heq =>
          hseen (BitVec.eq_of_toNat_eq (hjmask.symm.trans heq) ▸ hl)
        rw [hpresent j hfresh, hj, hattr]
        simp [hne.2]
      · rw [bit_of_subset henabled hi]
        simp [hluid']

theorem lowers_adjustedPrivileges (henabled : p.enabled ⊆ p.present)
    (h : adjustedPrivileges p entries = .ok p') : Lowers p entries p' := by
  cases entries with
  | nil => cases h
  | cons first rest =>
    dsimp only [adjustedPrivileges] at h
    split_ifs at h with hreset hform
    · cases h
      obtain rfl : rest = [] := eq_nil_of_length_eq_zero (by simpa using (not_or.mp hform).1)
      refine ⟨subset_refl _, subset_iff.mpr fun i hi => ?_, fun entry he hremoved => ?_⟩
      · rw [bit_and, Bool.and_eq_true] at hi
        exact hi.2
      · obtain rfl := mem_singleton.mp he
        rw [hreset] at hremoved
        cases hremoved
    · obtain ⟨⟨⟩, hvalid, h⟩ := of_bind h
      exact lowers_foldlM hvalid (fun _ _ => rfl) henabled h

variable {self : LiveToken n}

/-- **One call**: it fails and changes nothing, or it lowers the masks and counts itself. -/
theorem adjustPrivileges_cases (henabled : self.privileges.enabled ⊆ self.privileges.present)
    (entries : List PrivilegeAdjustEntry) :
    (∃ e, self.adjustPrivileges entries = (.error e, self)) ∨
      ∃ p, Lowers self.privileges entries p ∧ self.modifiedId.toNat + 1 < 2 ^ 64 ∧
        self.adjustPrivileges entries = (.ok self.privileges.enabled,
          { self with privileges := p, modifiedId := self.modifiedId + 1#64 }) := by
  unfold adjustPrivileges nextModifiedId
  by_cases hmax : self.modifiedId = BitVec.allOnes 64
  · rw [if_pos hmax]
    exact .inl ⟨.erange, rfl⟩
  · rw [if_neg hmax]
    cases h : adjustedPrivileges self.privileges entries with
    | error e => exact .inl ⟨e, rfl⟩
    | ok p =>
      refine .inr ⟨p, lowers_adjustedPrivileges henabled h, ?_, rfl⟩
      rw [BitVec.toNat_eq, BitVec.toNat_allOnes] at hmax
      omega

def runPrivileges (self : LiveToken n) (calls : List (List PrivilegeAdjustEntry)) : LiveToken n :=
  calls.foldl (fun token entries => (token.adjustPrivileges entries).2) self

/-- A run keeps what is enabled present, and presents nothing new. -/
theorem runPrivileges_subset (self : LiveToken n)
    (henabled : self.privileges.enabled ⊆ self.privileges.present)
    (calls : List (List PrivilegeAdjustEntry)) :
    (self.runPrivileges calls).privileges.enabled ⊆ (self.runPrivileges calls).privileges.present ∧
      (self.runPrivileges calls).privileges.present ⊆ self.privileges.present := by
  induction calls generalizing self with
  | nil => exact ⟨henabled, subset_refl _⟩
  | cons entries rest ih =>
    obtain ⟨e, hcall⟩ | ⟨p, hlowers, -, hcall⟩ := adjustPrivileges_cases henabled entries
    · simpa [runPrivileges, hcall] using ih self henabled
    · have hrest := ih (self.adjustPrivileges entries).2 (by
        rw [hcall]
        exact hlowers.enabled_subset)
      refine ⟨hrest.1, subset_trans hrest.2 ?_⟩
      rw [hcall]
      exact hlowers.present_subset

/-- **Privileges are only ever taken away.** At any point of a run that starts from the masks of a
specification, what is enabled is present. The next call presents nothing new. If it fails it
changes no mask and does not count, and if it succeeds it counts once. What it removes is neither
present nor enabled after any later calls. -/
theorem adjustPrivileges_run (self : LiveToken n) {present enabled : BitVec 64}
    (hspec : privilegesFromSpec present enabled = .ok self.privileges)
    (calls : List (List PrivilegeAdjustEntry)) (entries : List PrivilegeAdjustEntry)
    (later : List (List PrivilegeAdjustEntry)) :
    let before := self.runPrivileges calls
    let after := (before.adjustPrivileges entries).2
    before.privileges.enabled ⊆ before.privileges.present ∧
      after.privileges.present ⊆ before.privileges.present ∧
      (∀ e, (before.adjustPrivileges entries).1 = .error e →
        after.privileges = before.privileges ∧ after.modifiedId = before.modifiedId) ∧
      ∀ previous, (before.adjustPrivileges entries).1 = .ok previous →
        after.modifiedId.toNat = before.modifiedId.toNat + 1 ∧
          ∀ entry ∈ entries, entry.attributes = sePrivilegeRemoved →
            ∀ i : Fin 64, i.val = entry.luid.toNat →
              bit (after.runPrivileges later).privileges.present i = false ∧
                bit (after.runPrivileges later).privileges.enabled i = false := by
  intro before after
  obtain ⟨hsubset, hprivileges⟩ := of_guard hspec
  have hstart : self.privileges.enabled ⊆ self.privileges.present := by
    rw [← Except.ok.inj hprivileges]
    exact not_not.mp hsubset
  have hbefore := (runPrivileges_subset self hstart calls).1
  refine ⟨hbefore, ?_⟩
  obtain ⟨e, hcall⟩ | ⟨p, hlowers, hroom, hcall⟩ := adjustPrivileges_cases hbefore entries
  · have hafter : after = before := congrArg Prod.snd hcall
    rw [hafter, hcall]
    exact ⟨subset_refl _, fun _ _ => ⟨rfl, rfl⟩, fun _ h => by cases h⟩
  · have hafter : after = { before with
        privileges := p, modifiedId := before.modifiedId + 1#64 } := congrArg Prod.snd hcall
    have hlater := runPrivileges_subset after (by
      rw [hafter]
      exact hlowers.enabled_subset) later
    rw [hcall]
    refine ⟨by rw [hafter]; exact hlowers.present_subset, (by rintro _ ⟨⟩), fun _ _ => ⟨?_, ?_⟩⟩
    · rw [hafter]
      exact BitVec.toNat_add_of_lt hroom
    · intro entry he hremoved i hi
      have hgone := bit_eq_false_of_subset hlater.2 (by
        rw [hafter]
        exact hlowers.removed entry he hremoved i hi)
      exact ⟨hgone, bit_eq_false_of_subset hlater.1 hgone⟩

/-- A removed privilege does not come back with the defaults. -/
theorem removed_not_reset :
    let token : LiveToken 0 := new Sid.system Fin.elim0 Fin.elim0 Fin.elim0
      ⟨1#64, 1#64, 1#64, 0#64⟩ 1#64
    let removed := (token.adjustPrivileges [⟨0#32, sePrivilegeRemoved⟩]).2
    privilegesFromSpec 1#64 1#64 = .ok token.privileges ∧
      bit (removed.runPrivileges [[⟨0#32, privResetAllDefaults⟩]]).privileges.enabled 0 =
        false := by
  intro token removed
  refine ⟨rfl, ?_⟩
  have hrun := adjustPrivileges_run token (rfl : privilegesFromSpec 1#64 1#64 = _) []
    [⟨0#32, sePrivilegeRemoved⟩] [[⟨0#32, privResetAllDefaults⟩]]
  exact ((hrun.2.2.2 1#64 rfl).2 _ (mem_singleton_self _) rfl 0 rfl).2

end LiveToken

end Pkm.Kacs
