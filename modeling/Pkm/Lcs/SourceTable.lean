import Pkm.Lcs.Model.Source
/-!
# The table of sources stays valid

A registration is checked against the table as it is, by searches of its own for
each kind of clash. `HivesValid` says what the check of the table asks for: slots
with hives, names and roots that may be there, and no two hives of a name in one
scope or of one root. The searches together leave nothing else for a new slot, and
a slot that resumes keeps its hives, so every table that comes about passes.
-/

namespace Pkm.Lcs

open List Outcome

variable {limits : LcsLimits}

/-! ## What the checks ask for -/

namespace RegisteredHiveIdentity

variable {a b : RegisteredHiveIdentity}

/-- Two hives that do not get in each other's way. -/
def Apart (a b : RegisteredHiveIdentity) : Prop :=
  ¬ (a.scope = b.scope ∧ foldName a.name = foldName b.name) ∧ a.rootGuid ≠ b.rootGuid

theorem Apart.symm (h : Apart a b) : Apart b a := ⟨fun hs => h.1 ⟨hs.1.symm, hs.2.symm⟩, h.2.symm⟩

/-- What a hive is known by. -/
def key (hive : RegisteredHiveIdentity) : HiveScope × Name × Guid :=
  (hive.scope, foldName hive.name, hive.rootGuid)

theorem Apart.key_ne (h : Apart a b) : a.key ≠ b.key := by
  intro heq
  exact h.2 (congrArg (·.2.2) heq)

/-- A hive that may be there. -/
def Proper (limits : LcsLimits) (hive : RegisteredHiveIdentity) : Prop :=
  HiveLike limits hive.name ∧ hive.rootGuid ≠ nilGuid

end RegisteredHiveIdentity

open RegisteredHiveIdentity

/-- The hives of slots that pass the check of the table. -/
structure HivesValid (limits : LcsLimits) (slots : List (List RegisteredHiveIdentity)) : Prop where
  nonempty : ∀ hives ∈ slots, hives ≠ []
  proper : ∀ hive ∈ slots.flatten, hive.Proper limits
  apart : slots.flatten.Pairwise Apart

theorem HivesValid.proper_of_mem {slots : List SourceSlotView}
    (h : HivesValid limits (slots.map (·.hives))) :
    ∀ slot ∈ slots, ∀ hive ∈ slot.hives, hive.Proper limits :=
  fun _ hs hive hm => h.proper hive (mem_flatten.mpr ⟨_, mem_map_of_mem hs, hm⟩)

/-- There is one hive of a name in a scope, and one of a root. -/
theorem HivesValid.unique {slots : List SourceSlotView} {slot slot' : SourceSlotView}
    {hive hive' : RegisteredHiveIdentity} (h : HivesValid limits (slots.map (·.hives)))
    (hslot : slot ∈ slots) (hhive : hive ∈ slot.hives) (hslot' : slot' ∈ slots)
    (hhive' : hive' ∈ slot'.hives) (hsame : ¬ hive.Apart hive') : slot = slot' ∧ hive = hive' := by
  obtain ⟨hinner, houter⟩ := pairwise_flatMap.mp h.apart
  have hslots : slot = slot' := by
    by_contra hne
    have : Std.Symm fun a b : SourceSlotView => ∀ x ∈ a.hives, ∀ y ∈ b.hives, x.Apart y :=
      ⟨fun _ _ h y hy x hx => (h x hx y hy).symm⟩
    exact hsame (houter.forall hslot hslot' hne hive hhive hive' hhive')
  subst hslots
  refine ⟨rfl, by_contra fun hne => hsame ?_⟩
  have : Std.Symm RegisteredHiveIdentity.Apart := ⟨fun _ _ h => h.symm⟩
  exact (hinner slot hslot).forall hhive hhive' hne

theorem sameHiveNamespace_iff {leftName rightName : Name} {leftScope rightScope : HiveScope} :
    sameHiveNamespace leftName leftScope rightName rightScope = true ↔
      leftScope = rightScope ∧ foldName leftName = foldName rightName := by
  simp [sameHiveNamespace, casefoldEq_iff]

section

variable {limits : LcsLimits} {slots slots' : List SourceSlotView}
  {previous : List RegisteredHiveIdentity} {hives : List SourceRegistrationHive}
  {previousSlots : List SourceSlotView} {current : RegisteredHiveIdentity} {sourceId : SourceId}
  {hive : SourceRegistrationHive} {plan : SourceRegistrationPlan}
  {request : SourceRegistrationRequest} {new old : SourceSlotStatus} {u v : Unit}

/-! ## The check of the table -/

theorem existingHiveSeen_eq (h : ∀ b ∈ previous, HiveLike limits b.name)
    (hc : HiveLike limits current.name) :
    existingHiveSeen limits previous current =
      .ok (previous.any fun b => sameHiveNamespace b.name b.scope current.name current.scope) := by
  unfold existingHiveSeen
  rw [validateHiveNameBytes_of_hiveLike hc]
  refine Scan.anyM_eq_ok fun b hb => ?_
  rw [validateHiveNameBytes_of_hiveLike (h b hb)]
  rfl

/-- The two searches among earlier hives find nothing. -/
theorem notSeen_iff :
    ((previous.any fun b => sameHiveNamespace b.name b.scope current.name current.scope) = false ∧
        existingRootGuidSeenBefore previous current.rootGuid = false) ↔
      ∀ b ∈ previous, b.Apart current := by
  unfold existingRootGuidSeenBefore
  rw [any_eq_false, any_eq_false]
  constructor
  · rintro ⟨hnames, hroots⟩ b hb
    refine ⟨fun hs => hnames b hb (sameHiveNamespace_iff.mpr hs), fun hr => hroots b hb ?_⟩
    simpa using hr
  · intro h
    refine ⟨fun b hb hs => (h b hb).1 (sameHiveNamespace_iff.mp hs), fun b hb hr => ?_⟩
    exact (h b hb).2 (by simpa using hr)

theorem validateExistingHive_eq_ok {hive : RegisteredHiveIdentity}
    (hslots : ∀ b ∈ previousSlots.flatMap (·.hives), HiveLike limits b.name)
    (h : ∀ b ∈ previous, HiveLike limits b.name) :
    validateExistingHive limits previousSlots previous u hive = .ok v ↔
      (hive.Proper limits ∧ ∀ b ∈ previousSlots.flatMap (·.hives), b.Apart hive) ∧
        (∀ b ∈ previous, b.Apart hive) ∧ v = u := by
  unfold validateExistingHive existingHiveSeenBefore existingHiveSeenInPriorSlot
  rw [← notSeen_iff, ← notSeen_iff]
  by_cases hlike : HiveLike limits hive.name
  · simp only [validateHiveNameBytes_of_hiveLike hlike, existingHiveSeen_eq h hlike,
      existingHiveSeen_eq hslots hlike, ok_bind, ite_error_eq_ok, Proper, Bool.not_eq_true]
    tauto
  · refine iff_of_false (fun hok => ?_) fun hproper => hlike hproper.1.1.1
    obtain ⟨name, hname, -⟩ := of_bind hok
    exact hlike (validateHiveNameBytes_eq_ok.mp hname).2

/-- The hives of one slot. -/
def SourceSlotView.Proper (limits : LcsLimits) (slot : SourceSlotView) : Prop :=
  slot.hives ≠ [] ∧ (∀ hive ∈ slot.hives, hive.Proper limits) ∧ slot.hives.Pairwise Apart

/-- The hives of two slots. -/
def SourceSlotView.Apart (a b : SourceSlotView) : Prop := ∀ x ∈ a.hives, ∀ y ∈ b.hives, x.Apart y

theorem validateExistingSourceSlot_eq_ok {slot : SourceSlotView}
    (h : ∀ s ∈ previousSlots, s.Proper limits) :
    validateExistingSourceSlot limits previousSlots u slot = .ok v ↔
      slot.Proper limits ∧ (∀ s ∈ previousSlots, s.Apart slot) ∧ v = u := by
  have hnames : ∀ b ∈ previousSlots.flatMap (·.hives), HiveLike limits b.name := by
    intro b hb
    obtain ⟨s, hs, hb⟩ := mem_flatMap.mp hb
    exact ((h s hs).2.1 b hb).1
  have hfold := Scan.foldAfter_nil_eq_ok_iff () v slot.hives (g := fun u _ => u)
    (V := fun hive : RegisteredHiveIdentity => hive.Proper limits ∧
      ∀ b ∈ previousSlots.flatMap (·.hives), b.Apart hive)
    (fun _ _ _ _ hb => validateExistingHive_eq_ok hnames fun b hm => (hb b hm).1.1)
  unfold validateExistingSourceSlot
  rw [ite_error_eq_ok, List.isEmpty_iff, hfold]
  constructor
  · rintro ⟨hne, hall, hpair, -⟩
    refine ⟨⟨hne, fun hive hm => (hall hive hm).1, hpair⟩, fun s hs x hx y hy => ?_, rfl⟩
    exact (hall y hy).2 x (mem_flatMap.mpr ⟨s, hs, hx⟩)
  · rintro ⟨⟨hne, hproper, hpair⟩, hapart, -⟩
    refine ⟨hne, fun hive hm => ⟨hproper hive hm, fun b hb => ?_⟩, hpair, rfl⟩
    obtain ⟨s, hs, hb⟩ := mem_flatMap.mp hb
    exact hapart s hs b hb hive hm

/-- **The check of the table.** -/
theorem validateSourceSlots_eq_ok :
    validateSourceSlots limits slots = .ok () ↔ HivesValid limits (slots.map (·.hives)) := by
  have hfold := Scan.foldAfter_nil_eq_ok_iff () () slots (g := fun u _ => u)
    (V := SourceSlotView.Proper limits)
    (fun _ _ _ _ h => validateExistingSourceSlot_eq_ok h)
  unfold validateSourceSlots validateExistingSourceSlots
  rw [hfold]
  have hflat : (slots.map (·.hives)).flatten = slots.flatMap (·.hives) := rfl
  constructor
  · rintro ⟨hproper, hapart, -⟩
    refine ⟨forall_mem_map.mpr fun slot hs => (hproper slot hs).1, ?_, ?_⟩ <;> rw [hflat]
    · intro hive hm
      obtain ⟨slot, hs, hm⟩ := mem_flatMap.mp hm
      exact (hproper slot hs).2.1 hive hm
    · exact pairwise_flatMap.mpr ⟨fun slot hs => (hproper slot hs).2.2, hapart⟩
  · rintro ⟨hne, hproper, hapart⟩
    obtain ⟨hinner, houter⟩ := pairwise_flatMap.mp hapart
    refine ⟨fun slot hs => ⟨forall_mem_map.mp hne slot hs, fun hive hm => ?_, hinner slot hs⟩,
      houter, by simp⟩
    exact hproper hive (mem_flatMap.mpr ⟨slot, hs, hm⟩)

/-! ## The check of a request -/

/-- What a slot would keep of the hive. -/
def SourceRegistrationHive.identity (hive : SourceRegistrationHive) : RegisteredHiveIdentity :=
  ⟨hive.name, hive.rootGuid, (sourceRegistrationHiveScope hive).toOption.getD .global⟩

/-- A hive that may be registered. -/
def SourceRegistrationHive.Proper (limits : LcsLimits) (hive : SourceRegistrationHive) : Prop :=
  sourceRegistrationHiveScope hive = .ok hive.identity.scope ∧ HiveLike limits hive.name ∧
    hive.rootGuid ≠ nilGuid

theorem registeredHiveIdentity_eq (h : hive.Proper limits) :
    registeredHiveIdentity hive = .ok hive.identity := by
  rw [registeredHiveIdentity, h.1]
  rfl

theorem validateRegistrationHive_eq_ok :
    validateRegistrationHive limits hive = .ok u ↔ hive.Proper limits := by
  unfold validateRegistrationHive
  constructor
  · intro h
    obtain ⟨name, hname, h⟩ := of_bind h
    obtain ⟨rfl, hlike⟩ := validateHiveNameBytes_eq_ok.mp hname
    obtain ⟨scope, hscope, h⟩ := of_bind h
    obtain ⟨hnil, -⟩ := of_guard h
    exact ⟨by rw [SourceRegistrationHive.identity, hscope]; rfl, hlike, hnil⟩
  · rintro ⟨hscope, hlike, hnil⟩
    rw [validateHiveNameBytes_of_hiveLike hlike, hscope]
    exact if_neg hnil

theorem validateSourceRegistrationHive_eq_ok {previous : List SourceRegistrationHive}
    (h : ∀ b ∈ previous, b.Proper limits) :
    validateSourceRegistrationHive limits previous u hive = .ok v ↔
      hive.Proper limits ∧ (∀ b ∈ previous, b.identity.Apart hive.identity) ∧ v = u := by
  have hseen : hive.Proper limits → registrationHiveSeenBefore limits previous hive =
      .ok ((previous.map (·.identity)).any fun b =>
        sameHiveNamespace b.name b.scope hive.name hive.identity.scope) := by
    rintro ⟨hscope, hlike, -⟩
    unfold registrationHiveSeenBefore
    rw [validateHiveNameBytes_of_hiveLike hlike, hscope, any_map]
    refine Scan.anyM_eq_ok fun b hb => ?_
    rw [validateHiveNameBytes_of_hiveLike (h b hb).2.1, (h b hb).1]
    rfl
  have hroot : rootGuidSeenBefore previous hive.rootGuid =
      existingRootGuidSeenBefore (previous.map (·.identity)) hive.identity.rootGuid := by
    rw [existingRootGuidSeenBefore, any_map]
    rfl
  have hapart : (∀ b ∈ previous, b.identity.Apart hive.identity) ↔
      ∀ b ∈ previous.map (·.identity), b.Apart hive.identity := by simp
  unfold validateSourceRegistrationHive
  rw [hapart, ← notSeen_iff, hroot]
  by_cases hproper : hive.Proper limits
  · have hvalid : validateRegistrationHive limits hive = .ok () :=
      validateRegistrationHive_eq_ok.mpr hproper
    rw [hvalid, ok_bind, hseen hproper, ok_bind, ite_error_eq_ok, ite_error_eq_ok,
      Bool.not_eq_true, Bool.not_eq_true, and_assoc]
    exact ⟨fun ⟨hnames, hroots, _⟩ => ⟨hproper, hnames, hroots, rfl⟩,
      fun ⟨_, hnames, hroots, _⟩ => ⟨hnames, hroots, rfl⟩⟩
  · refine iff_of_false (fun hok => hproper ?_) fun h => hproper h.1
    obtain ⟨_, hok, -⟩ := of_bind hok
    exact validateRegistrationHive_eq_ok.mp hok

/-- The hives of a request that passes its check. -/
structure RequestValid (limits : LcsLimits) (hives : List SourceRegistrationHive) : Prop where
  nonempty : hives ≠ []
  proper : ∀ hive ∈ hives, hive.Proper limits
  apart : (hives.map (·.identity)).Pairwise Apart

theorem requestValid_of_ok (h : validateSourceRegistrationHives limits hives = .ok ()) :
    RequestValid limits hives := by
  obtain ⟨hne, h⟩ := of_guard h
  obtain ⟨-, h⟩ := of_guard h
  have hfold := Scan.foldAfter_nil_eq_ok_iff () () hives (g := fun u _ => u)
    (V := SourceRegistrationHive.Proper limits)
    (fun _ _ _ _ h => validateSourceRegistrationHive_eq_ok h)
  obtain ⟨hproper, hpair, -⟩ := hfold.mp h
  exact ⟨by simpa using hne, hproper, pairwise_map.mpr hpair⟩

/-! ## A request against the table -/

theorem sameRequestedAndExistingNamespace_eq {requested : SourceRegistrationHive}
    {existing : RegisteredHiveIdentity} (hr : requested.Proper limits)
    (he : existing.Proper limits) :
    sameRequestedAndExistingNamespace limits requested existing =
      .ok (sameHiveNamespace requested.name requested.identity.scope existing.name
        existing.scope) := by
  unfold sameRequestedAndExistingNamespace
  rw [validateHiveNameBytes_of_hiveLike hr.2.1, hr.1, validateHiveNameBytes_of_hiveLike he.1]
  rfl

theorem rejectPairs_eq_ok {looksAt : SourceSlotView → Bool}
    {reject : RegisteredHiveIdentity → SourceRegistrationHive → LcsResult Unit}
    (h : rejectPairs slots looksAt hives reject = .ok ()) :
    ∀ slot ∈ slots, looksAt slot = true → ∀ existing ∈ slot.hives, ∀ requested ∈ hives,
      reject existing requested = .ok () := by
  intro slot hs hlooks existing he requested hr
  have hslot := Scan.forM_eq_ok.mp h slot hs
  rw [if_neg (not_not.mpr hlooks)] at hslot
  exact Scan.forM_eq_ok.mp (Scan.forM_eq_ok.mp hslot existing he) requested hr

/-- **Nothing else is left**: what passes the three refusals gets in no hive's way. -/
theorem apart_of_not_rejected (hvalid : HivesValid limits (slots.map (·.hives)))
    (hrequest : RequestValid limits hives)
    (hactive : rejectActiveCollisions limits slots hives = .ok ())
    (hdown : rejectInexactDownSlotResume limits slots hives = .ok ())
    (hroots : rejectRootGuidCollisions limits slots hives = .ok ()) :
    ∀ slot ∈ slots, ∀ existing ∈ slot.hives, ∀ requested ∈ hives,
      existing.Apart requested.identity := by
  intro slot hs existing he requested hr
  have hsame := sameRequestedAndExistingNamespace_eq (hrequest.proper requested hr)
    (hvalid.proper_of_mem slot hs existing he)
  have hspace : sameHiveNamespace requested.name requested.identity.scope existing.name
      existing.scope = false := by
    cases hstatus : slot.status with
    | active =>
      have := rejectPairs_eq_ok hactive slot hs (by simp [hstatus]) existing he requested hr
      rw [hsame] at this
      exact eq_false_of_ne_true (of_guard this).1
    | down =>
      have := rejectPairs_eq_ok hdown slot hs (by simp [hstatus]) existing he requested hr
      rw [hsame, ok_bind] at this
      by_contra hne
      rw [if_neg (by simpa using hne)] at this
      split at this <;> cases this
  refine ⟨fun h => ?_, fun hroot => ?_⟩
  · have hsame' : requested.identity.scope = existing.scope ∧
        foldName requested.name = foldName existing.name := ⟨h.1.symm, h.2.symm⟩
    simp [sameHiveNamespace_iff.mpr hsame'] at hspace
  · have hroot' : requested.rootGuid = existing.rootGuid := hroot.symm
    have := rejectPairs_eq_ok hroots slot hs rfl existing he requested hr
    rw [if_neg (not_not.mpr hroot'), hsame, ok_bind, hspace] at this
    cases this

/-- The slot a request resumes: down, with as many hives, each of which the request has. -/
theorem exactDownSlotMatch_eq_some
    (hproper : ∀ slot ∈ slots, ∀ existing ∈ slot.hives, existing.Proper limits)
    (hrequest : RequestValid limits hives)
    (h : exactDownSlotMatch limits hives slots = .ok (some sourceId)) :
    ∃ slot ∈ slots, slot.sourceId = sourceId ∧ slot.status = .down ∧
      slot.hives.length = hives.length ∧
      ∀ existing ∈ slot.hives, ∃ requested ∈ hives, requested.identity.key = existing.key := by
  induction slots with
  | nil => cases h
  | cons slot rest ih =>
    have hrest := fun h => exists_mem_cons_of_exists (a := slot)
      (ih (forall_mem_cons.mp hproper).2 h)
    have hcontains : ∀ existing ∈ slot.hives, requestContainsExactHive limits hives existing =
        .ok (hives.any fun r => sameHiveNamespace r.name r.identity.scope existing.name
          existing.scope && r.rootGuid == existing.rootGuid) := by
      intro existing he
      refine Scan.anyM_eq_ok fun r hr => ?_
      rw [sameRequestedAndExistingNamespace_eq (hrequest.proper r hr)
        (hproper slot mem_cons_self existing he)]
      rfl
    rw [exactDownSlotMatch] at h
    split at h
    · exact hrest h
    · rename_i hslot
      rw [not_or, not_not, not_not] at hslot
      rw [Scan.allM_eq_ok hcontains, ok_bind] at h
      split at h
      · rename_i hall
        refine ⟨slot, mem_cons_self, Option.some.inj (Except.ok.inj h), hslot.1, hslot.2,
          fun existing he => ?_⟩
        obtain ⟨r, hr, hsame⟩ := any_eq_true.mp (all_eq_true.mp hall existing he)
        rw [Bool.and_eq_true, sameHiveNamespace_iff, beq_iff_eq] at hsame
        obtain ⟨⟨hscope, hname⟩, hroot⟩ := hsame
        exact ⟨r, hr, Prod.ext hscope (Prod.ext hname hroot)⟩
      · exact hrest h

/-- Two sets of hives of one size, none twice, one of them within the other: they are the
same. -/
theorem keys_perm {existing requested : List RegisteredHiveIdentity}
    (hexisting : existing.Pairwise Apart) (hlength : existing.length = requested.length)
    (hsub : ∀ e ∈ existing, ∃ r ∈ requested, r.key = e.key) :
    (existing.map key).Perm (requested.map key) := by
  have hnodup : (existing.map key).Nodup := pairwise_map.mpr (hexisting.imp fun h => h.key_ne)
  have hsubset : existing.map key ⊆ requested.map key := by
    intro k hk
    obtain ⟨e, he, rfl⟩ := mem_map.mp hk
    obtain ⟨r, hr, heq⟩ := hsub e he
    exact heq ▸ mem_map_of_mem hr
  exact (subperm_of_subset hnodup hsubset).perm_of_length_le (by simp [hlength])

/-- What an accepted registration decides. -/
theorem validateSourceRegistration_eq_ok
    (h : validateSourceRegistration limits slots request = .ok plan) :
    RequestValid limits request.hives ∧ HivesValid limits (slots.map (·.hives)) ∧
      ((∃ sourceId, plan.decision = .resumeDownSlot sourceId ∧
          exactDownSlotMatch limits request.hives slots = .ok (some sourceId)) ∨
        plan.decision = .newSlot ∧ ∀ slot ∈ slots, ∀ existing ∈ slot.hives,
          ∀ requested ∈ request.hives, existing.Apart requested.identity) := by
  obtain ⟨-, h⟩ := of_guard h
  obtain ⟨_, hrequest, h⟩ := of_bind h
  obtain ⟨_, hslots, h⟩ := of_bind h
  obtain ⟨counter, -, h⟩ := of_bind h
  obtain ⟨found, hfound, h⟩ := of_bind h
  have hrequest := requestValid_of_ok hrequest
  have hvalid := validateSourceSlots_eq_ok.mp hslots
  refine ⟨hrequest, hvalid, ?_⟩
  cases found with
  | some sourceId =>
    cases h
    exact .inl ⟨sourceId, rfl, hfound⟩
  | none =>
    obtain ⟨_, hactive, h⟩ := of_bind h
    obtain ⟨_, hdown, h⟩ := of_bind h
    obtain ⟨_, hroots, h⟩ := of_bind h
    obtain ⟨-, h⟩ := of_guard h
    cases h
    exact .inr ⟨rfl, apart_of_not_rejected hvalid hrequest hactive hdown hroots⟩

/-! ## Steps of the table -/

/-- What holds of every table: it passes its check, and slots are numbered by their place. -/
structure TableClosed (limits : LcsLimits) (slots : List SourceSlotView) : Prop where
  valid : HivesValid limits (slots.map (·.hives))
  numbered : slots.map (·.sourceId) = (List.range slots.length).map (· + 1)

/-- A slot that moves keeps its number and its hives. -/
theorem moveSlot_keeps (h : moveSlot sourceId old new slots = some slots') :
    slots'.map (·.sourceId) = slots.map (·.sourceId) ∧
      slots'.map (·.hives) = slots.map (·.hives) := by
  induction slots generalizing slots' with
  | nil => cases h
  | cons slot rest ih =>
    rw [moveSlot] at h
    split at h
    · split at h
      · cases h
        exact ⟨rfl, rfl⟩
      · cases h
    · obtain ⟨rest', hrest, rfl⟩ := Option.map_eq_some_iff.mp h
      obtain ⟨hids, hhives⟩ := ih hrest
      exact ⟨by simp [hids], by simp [hhives]⟩

section

variable (h : TableClosed limits slots)

include h

theorem TableClosed.move
    (hmove : moveSlot sourceId old new slots = some slots') : TableClosed limits slots' := by
  obtain ⟨hids, hhives⟩ := moveSlot_keeps hmove
  have hlength : slots'.length = slots.length := by
    simpa using congrArg List.length hids
  exact ⟨hhives ▸ h.valid, by rw [hids, hlength]; exact h.numbered⟩

/-- A new slot with hives that get in no other's way. -/
theorem TableClosed.append (hrequest : RequestValid limits hives)
    (hapart : ∀ slot ∈ slots, ∀ existing ∈ slot.hives, ∀ requested ∈ hives,
      existing.Apart requested.identity) :
    TableClosed limits (slots ++ [⟨slots.length + 1, .active, hives.map (·.identity)⟩]) := by
  refine ⟨?_, by simp [h.numbered, range_succ]⟩
  rw [map_append, map_singleton]
  refine ⟨forall_mem_append.mpr ⟨h.valid.nonempty, by simpa using hrequest.nonempty⟩, ?_, ?_⟩
  · rw [flatten_append, flatten_singleton]
    exact forall_mem_append.mpr
      ⟨h.valid.proper, forall_mem_map.mpr fun r hr => (hrequest.proper r hr).2⟩
  · rw [flatten_append, pairwise_append]
    refine ⟨h.valid.apart, by simpa using hrequest.apart, fun e he r hr => ?_⟩
    obtain ⟨requested, hrequested, rfl⟩ := mem_map.mp (by simpa using hr)
    obtain ⟨_, hm, he⟩ := mem_flatten.mp he
    obtain ⟨slot, hs, rfl⟩ := mem_map.mp hm
    exact hapart slot hs e he requested hrequested

theorem TableClosed.nodup : (slots.map (·.sourceId)).Nodup := by
  rw [h.numbered]
  exact nodup_range.map fun _ _ hab => Nat.succ.inj hab

theorem TableClosed.eq_of_sourceId {a b : SourceSlotView}
    (ha : a ∈ slots) (hb : b ∈ slots) (hid : a.sourceId = b.sourceId) : a = b :=
  inj_on_of_nodup_map h.nodup ha hb hid

end

/-- A slot of that status can move. -/
theorem exists_moveSlot (old new : SourceSlotStatus)
    (hunique : ∀ slot ∈ slots, slot.sourceId = sourceId → slot.status = old)
    (hex : ∃ slot ∈ slots, slot.sourceId = sourceId) :
    ∃ slots', moveSlot sourceId old new slots = some slots' := by
  induction slots with
  | nil =>
    obtain ⟨_, hs, -⟩ := hex
    cases hs
  | cons slot rest ih =>
    rw [moveSlot]
    by_cases hid : slot.sourceId = sourceId
    · rw [if_pos hid, if_pos (hunique slot mem_cons_self hid)]
      exact ⟨_, rfl⟩
    · rw [if_neg hid]
      obtain ⟨found, hs, hfound⟩ := hex
      have hrest : found ∈ rest := mem_of_ne_of_mem (by rintro rfl; exact hid hfound) hs
      obtain ⟨rest', hrest'⟩ := ih (forall_mem_cons.mp hunique).2 ⟨found, hrest, hfound⟩
      exact ⟨slot :: rest', by rw [hrest']; rfl⟩

/-- **A registration that is accepted is carried out**, and the table stays closed. -/
theorem register_step (h : TableClosed limits slots)
    (hplan : validateSourceRegistration limits slots request = .ok plan) :
    ∃ slots', sourceTableStep limits slots (.register request) = some slots' ∧
      TableClosed limits slots' := by
  obtain ⟨hrequest, hvalid, hdecision⟩ := validateSourceRegistration_eq_ok hplan
  rw [sourceTableStep, hplan, Except.toOption, Option.bind_eq_bind, Option.bind_some]
  rcases hdecision with ⟨sourceId, hresume, hfound⟩ | ⟨hnew, hapart⟩
  · simp only [hresume]
    obtain ⟨slot, hs, rfl, hdown, -, -⟩ :=
      exactDownSlotMatch_eq_some hvalid.proper_of_mem hrequest hfound
    obtain ⟨slots', hmove⟩ := exists_moveSlot .down .active
      (fun s hm hid => h.eq_of_sourceId hm hs hid ▸ hdown) ⟨slot, hs, rfl⟩
    exact ⟨slots', hmove, h.move hmove⟩
  · have hhives : request.hives.mapM registeredHiveIdentity =
        .ok (request.hives.map (·.identity)) :=
      Scan.mapM_eq_ok fun r hr => registeredHiveIdentity_eq (hrequest.proper r hr)
    simp only [hnew, hhives]
    exact ⟨_, rfl, h.append hrequest hapart⟩

/-- **One step.** -/
theorem TableClosed.step (h : TableClosed limits slots) {event : SourceEvent}
    (hstep : sourceTableStep limits slots event = some slots') : TableClosed limits slots' := by
  cases event with
  | disconnect sourceId => exact h.move hstep
  | register request =>
    rcases hplan : validateSourceRegistration limits slots request with e | plan
    · rw [sourceTableStep, hplan] at hstep
      cases hstep
    · obtain ⟨next, hnext, hclosed⟩ := register_step h hplan
      rw [hnext] at hstep
      exact Option.some.inj hstep ▸ hclosed

end

/-! ## Runs -/

/-- A table that registrations and disconnections lead to from the empty one. -/
def SourceTableReachable (limits : LcsLimits) : List SourceSlotView → Prop :=
  Relation.ReflTransGen
    (fun slots slots' => ∃ event, sourceTableStep limits slots event = some slots') []

theorem SourceTableReachable.closed {slots : List SourceSlotView}
    (h : SourceTableReachable limits slots) : TableClosed limits slots := by
  induction h with
  | refl => exact ⟨⟨by simp, by simp, by simp⟩, rfl⟩
  | tail _ hstep ih =>
    obtain ⟨_, hstep⟩ := hstep
    exact ih.step hstep

/-- **The table is closed.** Every table that registrations and disconnections lead to passes the
check that the next registration runs on it; no two hives in it share their scope and folded name,
or their root; a registration that is accepted is carried out; and one that resumes a slot resumes
the slot of that number, which is down and has the hives of the request. -/
theorem source_table_closed {limits : LcsLimits} {slots : List SourceSlotView}
    (h : SourceTableReachable limits slots) :
    validateSourceSlots limits slots = .ok () ∧
    (slots.flatMap (·.hives)).Pairwise (fun a b =>
      ¬ (a.scope = b.scope ∧ foldName a.name = foldName b.name) ∧ a.rootGuid ≠ b.rootGuid) ∧
    ∀ request plan, validateSourceRegistration limits slots request = .ok plan →
      (∃ slots', sourceTableStep limits slots (.register request) = some slots') ∧
      ∀ sourceId, plan.decision = .resumeDownSlot sourceId →
        ∃ slot ∈ slots, slot.sourceId = sourceId ∧ slot.status = .down ∧
          (∀ other ∈ slots, other.sourceId = sourceId → other = slot) ∧
          ∃ hives, request.hives.mapM registeredHiveIdentity = .ok hives ∧
            ∀ k, k ∈ slot.hives.map RegisteredHiveIdentity.key ↔
              k ∈ hives.map RegisteredHiveIdentity.key := by
  have hclosed := h.closed
  refine ⟨validateSourceSlots_eq_ok.mpr hclosed.valid, hclosed.valid.apart,
    fun request plan hplan => ⟨?_, fun sourceId hresume => ?_⟩⟩
  · obtain ⟨slots', hstep, -⟩ := register_step hclosed hplan
    exact ⟨slots', hstep⟩
  · obtain ⟨hrequest, hvalid, hdecision⟩ := validateSourceRegistration_eq_ok hplan
    rcases hdecision with ⟨found, hfound, hmatch⟩ | ⟨hnew, -⟩
    · obtain rfl : found = sourceId :=
        SourceRegistrationDecision.resumeDownSlot.inj (hfound.symm.trans hresume)
      obtain ⟨slot, hs, rfl, hdown, hlength, hsub⟩ :=
        exactDownSlotMatch_eq_some hvalid.proper_of_mem hrequest hmatch
      have hpair : slot.hives.Pairwise Apart := (pairwise_flatMap.mp hclosed.valid.apart).1 slot hs
      have hperm : (slot.hives.map key).Perm ((request.hives.map (·.identity)).map key) := by
        refine keys_perm hpair (by simpa using hlength) fun e he => ?_
        obtain ⟨r, hr, hkey⟩ := hsub e he
        exact ⟨r.identity, mem_map_of_mem hr, hkey⟩
      exact ⟨slot, hs, rfl, hdown, fun other ho hid => hclosed.eq_of_sourceId ho hs hid,
        request.hives.map (·.identity),
        Scan.mapM_eq_ok fun r hr => registeredHiveIdentity_eq (hrequest.proper r hr),
        fun k => hperm.mem_iff⟩
    · rw [hnew] at hresume
      cases hresume

/-! ## A source that comes back -/

namespace Sample

def root (n : ℕ) : Guid := ⟨List.replicate 16 (BitVec.ofNat 8 n), length_filled n⟩

/-- A source with two hives, as it names them the second time. -/
def returning : SourceRegistrationRequest where
  hives := [⟨"USERS".toList, root 2, 0, nilGuid⟩, ⟨"machine".toList, root 1, 0, nilGuid⟩]
  maxSequence := 40
  callerHasTcb := true

def sourceEvents : List SourceEvent :=
  [.register ⟨[⟨"Machine".toList, root 1, 0, nilGuid⟩, ⟨"Users".toList, root 2, 0, nilGuid⟩], 7,
      true⟩,
    .register ⟨[⟨"Machine".toList, root 3, 1, root 9⟩], 0, true⟩,
    .disconnect 1]

/-- The table with the first source gone. -/
def slots : List SourceSlotView :=
  [⟨1, .down, [⟨"Machine".toList, root 1, .global⟩, ⟨"Users".toList, root 2, .global⟩]⟩,
    ⟨2, .active, [⟨"Machine".toList, root 3, .privateTo (root 9)⟩]⟩]

end Sample

theorem sourceTableReachable_of_run {slots slots' : List SourceSlotView}
    (events : List SourceEvent) (h : SourceTableReachable limits slots)
    (hrun : events.foldlM (sourceTableStep limits) slots = some slots') :
    SourceTableReachable limits slots' := by
  induction events generalizing slots with
  | nil => exact Option.some.inj hrun ▸ h
  | cons event events ih =>
    obtain ⟨next, hnext, hrun⟩ := Option.bind_eq_some_iff.mp hrun
    exact ih (h.tail ⟨event, hnext⟩) hrun

open Sample in
/-- The source comes back with its hives in another order and spelled otherwise, and resumes its
slot. -/
theorem source_table_closed_sample :
    SourceTableReachable .default slots ∧
      validateSourceRegistration .default slots returning = .ok ⟨.resumeDownSlot 1, 2, 41⟩ ∧
      ∃ slots', sourceTableStep .default slots (.register returning) =
        some slots' := by
  have hreach : SourceTableReachable .default slots :=
    sourceTableReachable_of_run sourceEvents .refl (by decide +kernel)
  have hplan : validateSourceRegistration .default slots returning =
      .ok ⟨.resumeDownSlot 1, 2, 41⟩ := by decide +kernel
  exact ⟨hreach, hplan, ((source_table_closed hreach).2.2 _ _ hplan).1⟩

end Pkm.Lcs
