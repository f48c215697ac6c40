import Pkm.Lcs.Helpers.Renumber
/-!
# A restore keeps what is effective

What the remapper gives out is the number of the backup plus one offset, whatever
was remapped before. So lookups over restored entries come to what they came to
over the entries of the backup, and against entries from before the restore the
restored ones win at their precedence.
-/

namespace Pkm.Lcs

open BackupRestoreSequenceRemapper List Outcome

/-! ## The remapper -/

/-- The remapper after a number was given out. -/
def BackupRestoreSequenceRemapper.dispatch (remapper : BackupRestoreSequenceRemapper)
    (newSequence : ℕ) : BackupRestoreSequenceRemapper :=
  { remapper with dispatchedCount := remapper.dispatchedCount + 1 }.raiseMax newSequence

section

variable {remapper remapper' : BackupRestoreSequenceRemapper} {α β : Type}

@[simp]
theorem dispatch_offset (n : ℕ) :
    (remapper.dispatch n).restoreSequenceOffset = remapper.restoreSequenceOffset := by
  unfold BackupRestoreSequenceRemapper.dispatch raiseMax
  split <;> rfl

/-- The greatest number covers the new one and the old ones, and is one of them. -/
theorem dispatch_max (remapper : BackupRestoreSequenceRemapper) (n : ℕ) :
    ∃ m, (remapper.dispatch n).maxDispatchedSequence = some m ∧ n ≤ m ∧
    (∀ old, remapper.maxDispatchedSequence = some old → old ≤ m) ∧
    (m = n ∨ remapper.maxDispatchedSequence = some m) := by
  unfold BackupRestoreSequenceRemapper.dispatch raiseMax
  rcases hmax : remapper.maxDispatchedSequence with _ | old
  · exact ⟨n, by simp, le_refl n, by simp, .inl rfl⟩
  · by_cases hn : n > old
    · exact ⟨n, by simp [hn], le_refl n, by simpa using Nat.le_of_lt hn, .inl rfl⟩
    · exact ⟨old, by simp [hn], Nat.not_lt.mp hn, by simp, .inr rfl⟩

/-- A check before the rest leaves the remapper. -/
theorem run_check_bind (x : LcsResult α) (k : α → Remapping β) :
    ((liftM x : Remapping α) >>= k).run remapper =
      match x with
      | .ok a => (k a).run remapper
      | .error e => (.error e, remapper) := by
  cases x <;> rfl

theorem recordDispatched_run (backupSequence : ℕ) (remapper : BackupRestoreSequenceRemapper) :
    (recordDispatched backupSequence).run remapper =
      if remapper.restoreSequenceOffset + backupSequence + 1 < 2 ^ 64 ∧
          remapper.dispatchedCount + 1 < 2 ^ 64 then
        (.ok (remapper.restoreSequenceOffset + backupSequence),
          remapper.dispatch (remapper.restoreSequenceOffset + backupSequence))
      else (.error .sequenceOverflow, remapper) := by
  change ((liftM (checkedAdd _ _) : Remapping ℕ) >>= _).run remapper = _
  -- three sums are checked, and nothing is written before the last of them
  by_cases hsum : remapper.restoreSequenceOffset + backupSequence < 2 ^ 64
  · simp only [run_check_bind, checkedAdd, if_pos hsum]
    split_ifs <;> first | rfl | omega
  · rw [if_neg (by omega)]
    simp only [run_check_bind, checkedAdd, if_neg hsum]

/-! ## One record -/

/-- A computation fails and leaves the remapper, or succeeds as `Q` says. -/
def Steps {α : Type} (x : Remapping α)
    (Q : BackupRestoreSequenceRemapper → α → BackupRestoreSequenceRemapper → Prop) : Prop :=
  ∀ remapper, (∃ e, x.run remapper = (.error e, remapper)) ∨
    ∃ a remapper', x.run remapper = (.ok a, remapper') ∧ Q remapper a remapper'

/-- A number was given out that fits. -/
structure Numbers (backupSequence : ℕ) (remapper : BackupRestoreSequenceRemapper)
    (newSequence : ℕ) (remapper' : BackupRestoreSequenceRemapper) : Prop where
  eq : newSequence = remapper.restoreSequenceOffset + backupSequence
  fits : newSequence + 1 < 2 ^ 64
  dispatch : remapper' = remapper.dispatch newSequence

theorem recordDispatched_steps (backupSequence : ℕ) :
    Steps (recordDispatched backupSequence) (Numbers backupSequence) := by
  intro remapper
  rw [recordDispatched_run]
  split
  · rename_i h
    exact .inr ⟨_, _, rfl, rfl, h.1, rfl⟩
  · exact .inl ⟨_, rfl⟩

/-- A check, then a number: the shape of every record that is dispatched. -/
theorem Steps.check_record {x : LcsResult α} {s : ℕ} {k : α → ℕ → β}
    {Q : BackupRestoreSequenceRemapper → β → BackupRestoreSequenceRemapper → Prop}
    (h : ∀ a n r r', x = .ok a → Numbers s r n r' → Q r (k a n) r') :
    Steps (do
      let a ← (liftM x : Remapping α)
      let n ← recordDispatched s
      pure (k a n)) Q := by
  intro remapper
  rw [run_check_bind]
  rcases hx : x with e | a
  · exact .inl ⟨e, rfl⟩
  · rcases recordDispatched_steps s remapper with ⟨e, he⟩ | ⟨n, r', hn, hQ⟩
    · exact .inl ⟨e, by simp only [run_bind, he]⟩
    · exact .inr ⟨k a n, r', by simp only [run_bind, hn]; rfl, h a n remapper r' hx hQ⟩

variable {Q : BackupRestoreSequenceRemapper → α → BackupRestoreSequenceRemapper → Prop}

theorem Steps.map {x : Remapping α} {k : α → β}
    {Q' : BackupRestoreSequenceRemapper → β → BackupRestoreSequenceRemapper → Prop} (hx : Steps x Q)
    (h : ∀ r a r', Q r a r' → Q' r (k a) r') :
    Steps (do
      let a ← x
      pure (k a)) Q' := by
  intro remapper
  rcases hx remapper with ⟨e, he⟩ | ⟨a, r', ha, hQ⟩
  · exact .inl ⟨e, by rw [run_bind, he]⟩
  · exact .inr ⟨k a, r', by rw [run_bind, ha]; rfl, h remapper a r' hQ⟩

theorem Steps.throw {e : LcsError} : Steps (throw e : Remapping α) Q := fun _ => .inl ⟨e, rfl⟩

end

/-! ## What a record is dispatched as -/

/-- The restored record is the one of the backup, at the new root and with the offset. -/
def Dispatched.Shifts (roots : RestoreRoots) (offset : ℕ) : Dispatched → Prop
  | .pathEntry original restored =>
    roots.headerRootGuid ≠ nilGuid ∧ roots.targetRootGuid ≠ nilGuid ∧
      restored = ⟨roots.remap original.parentGuid, original.childName,
        original.target.remap roots.remap, original.layerName, offset + original.sequence⟩
  | .value original restored =>
    restored = ⟨roots.remap original.keyGuid, original.name, original.valueType, original.data,
      original.layerName, offset + original.sequence⟩
  | .blanket original restored =>
    restored = ⟨roots.remap original.keyGuid, original.layerName, offset + original.sequence⟩

/-- What one record does to the remapper. -/
def Dispatches (roots : RestoreRoots) (remapper : BackupRestoreSequenceRemapper)
    (result : Option Dispatched) (remapper' : BackupRestoreSequenceRemapper) : Prop :=
  match result with
  | none => remapper' = remapper
  | some d => d.Shifts roots remapper.restoreSequenceOffset ∧ d.sequence + 1 < 2 ^ 64 ∧
      remapper' = remapper.dispatch d.sequence

section

variable {roots : RestoreRoots} {entry : BackupPathEntryPayload} {restored : BackupRestorePathEntry}
  {dispatched : List Dispatched} {offset : ℕ}

theorem remapBackupRestorePathEntry_eq_ok {processed : List Guid}
    (h : remapBackupRestorePathEntry roots entry processed = .ok restored) :
    roots.headerRootGuid ≠ nilGuid ∧ roots.targetRootGuid ≠ nilGuid ∧
      restored = ⟨roots.remap entry.parentGuid, entry.childName, entry.target.remap roots.remap,
        entry.layerName, entry.sequence⟩ := by
  obtain ⟨parent, hparent, h⟩ := of_bind h
  obtain ⟨hheader, htarget, rfl, -⟩ := remapInside_eq_ok hparent
  exact ⟨hheader, htarget, (Except.ok.inj h).symm⟩

theorem remapBackupRestorePathEntryWithKeySet_eq_ok {processed remapped : List Guid}
    (h : remapBackupRestorePathEntryWithKeySet roots entry processed remapped = .ok restored) :
    remapBackupRestorePathEntry roots entry processed = .ok restored := by
  obtain ⟨checked, hchecked, h⟩ := of_bind h
  obtain ⟨_, -, h⟩ := of_bind h
  exact Except.ok.inj h ▸ hchecked

theorem planRootSectionPathEntry_steps (roots : RestoreRoots) (entry : BackupPathEntryPayload) :
    Steps (planBackupRestoreRootSectionPathEntryForDispatch roots entry) fun r plan r' =>
      match plan with
      | .skipIncomingRoot _ => r' = r
      | .restoreHidden restored => Dispatches roots r (some (.pathEntry entry restored)) r' := by
  unfold planBackupRestoreRootSectionPathEntryForDispatch
  split
  · exact Steps.throw
  · rename_i hnil
    obtain ⟨hheader, htarget⟩ := not_or.mp hnil
    split
    · dsimp only
      split
      · exact Steps.throw
      · exact fun r => .inr ⟨_, r, rfl, rfl⟩
    · rename_i hhidden
      dsimp only
      split
      · exact Steps.throw
      · refine Steps.map (recordDispatched_steps _) fun r n r' hn => ⟨?_, hn.fits, hn.dispatch⟩
        refine ⟨hheader, htarget, ?_⟩
        rw [hhidden, ← hn.eq]
        rfl

/-- **One record.** -/
theorem remap_steps (roots : RestoreRoots) (record : RestoreRecord) :
    Steps (record.remap roots) (Dispatches roots) := by
  have hvalue : ∀ (v : BackupValuePayload) (processed : List Guid),
      Steps (remapBackupRestoreValue roots v processed) fun r restored r' =>
        Dispatches roots r (some (.value v restored)) r' := fun v processed =>
    Steps.check_record fun key n r r' hkey hn => by
      obtain ⟨-, -, rfl, -⟩ := remapInside_eq_ok hkey
      exact ⟨by rw [Dispatched.Shifts, ← hn.eq], hn.fits, hn.dispatch⟩
  have hblanket : ∀ (b : BackupBlanketTombstonePayload) (processed : List Guid),
      Steps (remapBackupRestoreBlanketTombstone roots b processed) fun r restored r' =>
        Dispatches roots r (some (.blanket b restored)) r' := fun b processed =>
    Steps.check_record fun key n r r' hkey hn => by
      obtain ⟨-, -, rfl, -⟩ := remapInside_eq_ok hkey
      exact ⟨by rw [Dispatched.Shifts, ← hn.eq], hn.fits, hn.dispatch⟩
  cases record with
  | pathEntry entry processed =>
    refine Steps.map (Steps.check_record fun path n r r' hpath hn => ?_) fun _ _ _ h => h
    obtain ⟨hheader, htarget, rfl⟩ := remapBackupRestorePathEntry_eq_ok hpath
    exact ⟨⟨hheader, htarget, by rw [← hn.eq]⟩, hn.fits, hn.dispatch⟩
  | pathEntryWithKeySet entry processed remapped =>
    refine Steps.map (Steps.check_record fun path n r r' hpath hn => ?_) fun _ _ _ h => h
    obtain ⟨hheader, htarget, rfl⟩ := remapBackupRestorePathEntry_eq_ok
      (remapBackupRestorePathEntryWithKeySet_eq_ok hpath)
    exact ⟨⟨hheader, htarget, by rw [← hn.eq]⟩, hn.fits, hn.dispatch⟩
  | rootSectionPathEntry entry =>
    intro r
    unfold RestoreRecord.remap
    rcases planRootSectionPathEntry_steps roots entry r with
      ⟨e, he⟩ | ⟨plan, r', hplan, hQ⟩
    · exact .inl ⟨e, by rw [run_bind, he]⟩
    · refine .inr ?_
      rw [run_bind, hplan]
      cases plan with
      | skipIncomingRoot _ => exact ⟨none, r', rfl, hQ⟩
      | restoreHidden restored => exact ⟨_, r', rfl, hQ⟩
  | value v processed => exact (hvalue v processed).map fun _ _ _ h => h
  | rootSectionValue v => exact (hvalue v []).map fun _ _ _ h => h
  | blanket b processed => exact (hblanket b processed).map fun _ _ _ h => h
  | rootSectionBlanket b => exact (hblanket b []).map fun _ _ _ h => h

/-! ## The whole stream -/

/-- What holds of the records that were dispatched, and of the remapper after them. -/
structure Restores (roots : RestoreRoots) (start : BackupRestoreSequenceRemapper)
    (dispatched : List Dispatched) (final : BackupRestoreSequenceRemapper) : Prop where
  offset : final.restoreSequenceOffset = start.restoreSequenceOffset
  shifts : ∀ d ∈ dispatched, d.Shifts roots start.restoreSequenceOffset
  covered : ∀ d ∈ dispatched, ∃ m, final.maxDispatchedSequence = some m ∧ d.sequence ≤ m
  grows : ∀ old, start.maxDispatchedSequence = some old →
    ∃ m, final.maxDispatchedSequence = some m ∧ old ≤ m
  fits : ∀ m, final.maxDispatchedSequence = some m →
    m + 1 < 2 ^ 64 ∨ start.maxDispatchedSequence = some m

theorem Restores.refl (roots : RestoreRoots) (remapper : BackupRestoreSequenceRemapper) :
    Restores roots remapper [] remapper :=
  ⟨rfl, by simp, by simp, fun old h => ⟨old, h, le_refl old⟩, fun _ h => .inr h⟩

/-- One more record before the others. -/
theorem Restores.cons {start final : BackupRestoreSequenceRemapper} {d : Dispatched}
    (hshifts : d.Shifts roots start.restoreSequenceOffset) (hfits : d.sequence + 1 < 2 ^ 64)
    (h : Restores roots (start.dispatch d.sequence) dispatched final) :
    Restores roots start (d :: dispatched) final := by
  obtain ⟨m, hm, hd, hold, hone⟩ := dispatch_max start d.sequence
  obtain ⟨m', hm', hle⟩ := h.grows m hm
  refine ⟨by rw [h.offset, dispatch_offset], forall_mem_cons.mpr ⟨hshifts, fun x hx => ?_⟩,
    forall_mem_cons.mpr ⟨⟨m', hm', le_trans hd hle⟩, h.covered⟩,
    fun old ho => ⟨m', hm', le_trans (hold old ho) hle⟩, fun k hk => ?_⟩
  · simpa using h.shifts x hx
  · rcases h.fits k hk with hk | hk
    · exact .inl hk
    · rw [hm] at hk
      cases hk
      rcases hone with rfl | hone
      · exact .inl hfits
      · exact .inr hone

/-- **All records.** -/
theorem restore_restores (roots : RestoreRoots) (records : List RestoreRecord)
    (remapper : BackupRestoreSequenceRemapper) :
    Restores roots remapper (restore roots remapper records).1
      (restore roots remapper records).2 := by
  induction records generalizing remapper with
  | nil => exact Restores.refl roots remapper
  | cons record records ih =>
    rcases remap_steps roots record remapper with ⟨e, he⟩ | ⟨result, r', hr, hQ⟩
    · simp only [restore, he]
      exact ih remapper
    · simp only [restore, hr]
      rcases result with _ | d
      · obtain rfl : r' = remapper := hQ
        exact ih r'
      · obtain ⟨hshifts, hfits, rfl⟩ := hQ
        exact .cons hshifts hfits (ih _)

/-- A greater number than all that were given out. -/
theorem Restores.terminal {final : BackupRestoreSequenceRemapper}
    (h : Restores roots (.new offset) dispatched final) (current : ℕ) :
    ∃ next, final.terminalNextSequence current = .ok next ∧ current ≤ next ∧
      ∀ d ∈ dispatched, d.sequence < next := by
  unfold terminalNextSequence
  rcases hmax : final.maxDispatchedSequence with _ | m
  · refine ⟨current, rfl, le_refl current, fun d hd => ?_⟩
    obtain ⟨m, hm, -⟩ := h.covered d hd
    simp [hmax] at hm
  · have hfits : m + 1 < 2 ^ 64 := (h.fits m hmax).resolve_right (by simp [new])
    refine ⟨max current (m + 1), bind_eq_ok.mpr ⟨m + 1, if_pos hfits, rfl⟩,
      le_max_left .., fun d hd => ?_⟩
    obtain ⟨m', hm', hle⟩ := h.covered d hd
    obtain rfl : m = m' := by simpa [hmax] using hm'
    exact lt_of_lt_of_le (Nat.lt_succ_of_le hle) (le_max_right ..)

/-! ## Lookups over restored records -/

/-- The layer and the number of a restored record. -/
def Dispatched.stamp : Dispatched → Name × ℕ
  | .pathEntry _ restored => (restored.layerName, restored.sequence)
  | .value _ restored => (restored.layerName, restored.sequence)
  | .blanket _ restored => (restored.layerName, restored.sequence)

/-- **Lookups come to the same.** Any choice of dispatched records resolves as the records of
the backup did, with the numbers shifted; the next sequence number may be any that treats each
record alike before and after. -/
structure ResolvesAlike (roots : RestoreRoots) (offset : ℕ) (dispatched : List Dispatched) :
    Prop where
  value : ∀ (context : LayerResolutionContext) (next : ℕ)
    (values : List (BackupValuePayload × BackupRestoreValue))
    (blankets : List (BackupBlanketTombstonePayload × BackupRestoreBlanketTombstone)),
    (∀ v ∈ values, .value v.1 v.2 ∈ dispatched) → (∀ b ∈ blankets, .blanket b.1 b.2 ∈ dispatched) →
    (∀ v ∈ values, KnownAlike context offset next v.1.sequence) →
    (∀ b ∈ blankets, KnownAlike context offset next b.1.sequence) →
    resolveValue (context.withNext next) (values.map (·.2.entry)) (blankets.map (·.2.entry)) =
      renumbered offset next (·.renumber offset)
        (resolveValue context (values.map (·.1.entry)) (blankets.map (·.1.entry)))
  path : ∀ (context : LayerResolutionContext) (next : ℕ)
    (paths : List (BackupPathEntryPayload × BackupRestorePathEntry)),
    (∀ p ∈ paths, .pathEntry p.1 p.2 ∈ dispatched) →
    (∀ p ∈ paths, KnownAlike context offset next p.1.sequence) →
    resolvePathEntry (context.withNext next) (paths.map (·.2.entry.entry)) =
      renumbered offset next (·.renumber offset roots.remap)
        (resolvePathEntry context (paths.map (·.1.entry.entry)))
  namedPath : ∀ (context : LayerResolutionContext) (next : ℕ) (requested : Name)
    (paths : List (BackupPathEntryPayload × BackupRestorePathEntry)),
    (∀ p ∈ paths, .pathEntry p.1 p.2 ∈ dispatched) →
    (∀ p ∈ paths, KnownAlike context offset next p.1.sequence) →
    resolveNamedPathEntry (context.withNext next) requested (paths.map (·.2.entry)) =
      renumbered offset next (·.renumber offset roots.remap)
        (resolveNamedPathEntry context requested (paths.map (·.1.entry)))

/-- The new root is as good a target as the old one. -/
theorem checkedAlike_remap (hheader : roots.headerRootGuid ≠ nilGuid)
    (htarget : roots.targetRootGuid ≠ nilGuid) (target : PathTarget) :
    CheckedAlike roots.remap target := by
  cases target with
  | hidden => rfl
  | guid g =>
    unfold CheckedAlike PathTarget.remap validatePathTarget RestoreRoots.remap
      remapBackupRestoreGuid
    by_cases hg : g = roots.headerRootGuid
    · subst hg
      simp [if_neg hheader, if_neg htarget, Except.map]
    · simp only [if_neg hg]
      split
      · rfl
      · simp only [Except.map, if_neg hg]

theorem resolvesAlike_of_shifts (h : ∀ d ∈ dispatched, d.Shifts roots offset) :
    ResolvesAlike roots offset dispatched := by
  have hpath : ∀ paths : List (BackupPathEntryPayload × BackupRestorePathEntry),
      (∀ p ∈ paths, .pathEntry p.1 p.2 ∈ dispatched) →
      (∀ p ∈ paths, CheckedAlike roots.remap p.1.target) ∧
        paths.map (·.2.entry) = (paths.map (·.1.entry)).map (·.renumber offset roots.remap) := by
    intro paths hp
    refine ⟨fun p hm => ?_, ?_⟩
    · obtain ⟨hheader, htarget, -⟩ := h _ (hp p hm)
      exact checkedAlike_remap hheader htarget _
    · rw [map_map]
      refine map_congr_left fun p hm => ?_
      obtain ⟨-, -, heq⟩ := h _ (hp p hm)
      rw [heq]
      rfl
  refine ⟨?_, ?_, ?_⟩
  · intro context next values blankets hv hb hkv hkb
    have hvalues : values.map (·.2.entry) = (values.map (·.1.entry)).map (·.renumber offset) := by
      rw [map_map]
      refine map_congr_left fun v hm => ?_
      rw [show v.2 = _ from h _ (hv v hm)]
      rfl
    have hblankets : blankets.map (·.2.entry) =
        (blankets.map (·.1.entry)).map (·.renumber offset) := by
      rw [map_map]
      refine map_congr_left fun b hm => ?_
      rw [show b.2 = _ from h _ (hb b hm)]
      rfl
    rw [hvalues, hblankets]
    exact resolveValue_renumber (forall_mem_map.mpr hkv) (forall_mem_map.mpr hkb)
  · intro context next paths hp hk
    obtain ⟨htargets, heq⟩ := hpath paths hp
    have hentries : paths.map (·.2.entry.entry) =
        (paths.map (·.1.entry.entry)).map (·.renumber offset roots.remap) := by
      have := congrArg (List.map NamedPathEntry.entry) heq
      simpa [NamedPathEntry.renumber] using this
    rw [hentries]
    exact resolvePathEntry_renumber (forall_mem_map.mpr hk) (forall_mem_map.mpr htargets)
  · intro context next requested paths hp hk
    obtain ⟨htargets, heq⟩ := hpath paths hp
    rw [heq]
    exact resolveNamedPathEntry_renumber (forall_mem_map.mpr hk) (forall_mem_map.mpr htargets)

/-- **Restored records win** against everything that was there before, at one precedence: the
comparison prefers them, and a lookup with such an entry among them comes to what it comes to
without. -/
structure Outnumbers (offset : ℕ) (dispatched : List Dispatched) : Prop where
  compare : ∀ d ∈ dispatched, ∀ precedence sequence, sequence + 1 ≤ offset →
    compareCandidateTuple (some (precedence, sequence)) precedence d.sequence = .second ∧
      compareCandidateTuple (some (precedence, d.sequence)) precedence sequence = .first
  value : ∀ (context : LayerResolutionContext) (entry : ValueEntry) (before after : List ValueEntry)
    (blankets : List BlanketTombstoneEntry), entry.Sound context → entry.sequence + 1 ≤ offset →
    ∀ d ∈ dispatched, d.stamp ∈ valueStamps (before ++ after) blankets →
    SamePrecedence context entry.layer d.stamp.1 →
    resolveValue context (before ++ entry :: after) blankets =
      resolveValue context (before ++ after) blankets
  blanket : ∀ (context : LayerResolutionContext) (blanket : BlanketTombstoneEntry)
    (entries : List ValueEntry) (before after : List BlanketTombstoneEntry),
    blanket.Sound context → blanket.sequence + 1 ≤ offset →
    ∀ d ∈ dispatched, d.stamp ∈ valueStamps entries (before ++ after) →
    SamePrecedence context blanket.layer d.stamp.1 →
    resolveValue context entries (before ++ blanket :: after) =
      resolveValue context entries (before ++ after)
  path : ∀ (context : LayerResolutionContext) (entry : PathEntry) (before after : List PathEntry),
    entry.Sound context → entry.sequence + 1 ≤ offset →
    ∀ original restored, .pathEntry original restored ∈ dispatched →
    restored.entry.entry ∈ before ++ after →
    SamePrecedence context entry.layer restored.layerName →
    resolvePathEntry context (before ++ entry :: after) = resolvePathEntry context (before ++ after)
  namedPath : ∀ (context : LayerResolutionContext) (requested : Name) (entry : NamedPathEntry)
    (before after : List NamedPathEntry), entry.Sound context → entry.entry.sequence + 1 ≤ offset →
    ∀ original restored, .pathEntry original restored ∈ dispatched →
    restored.entry ∈ before ++ after →
    casefoldEq restored.childName entry.childName = true →
    SamePrecedence context entry.entry.layer restored.layerName →
    resolveNamedPathEntry context requested (before ++ entry :: after) =
      resolveNamedPathEntry context requested (before ++ after)

theorem outnumbers_of_shifts (h : ∀ d ∈ dispatched, d.Shifts roots offset) :
    Outnumbers offset dispatched := by
  have hge : ∀ d ∈ dispatched, offset ≤ d.sequence := by
    intro d hd
    have hshifts := h d hd
    cases d with
    | pathEntry original restored =>
      obtain ⟨-, -, rfl⟩ := hshifts
      exact Nat.le_add_right ..
    | value original restored | blanket original restored =>
      obtain rfl := hshifts
      exact Nat.le_add_right ..
  have hstamp : ∀ d : Dispatched, d.stamp.2 = d.sequence := fun d => by cases d <;> rfl
  refine ⟨fun d hd precedence sequence hlt => ?_, ?_, ?_, ?_, ?_⟩
  · have hlt' : sequence < d.sequence := Nat.lt_of_lt_of_le hlt (hge d hd)
    simp [compareCandidateTuple, Nat.compare_eq_gt.mpr hlt', Nat.compare_eq_lt.mpr hlt']
  · intro context entry before after blankets hs hlt d hd hmem hp
    exact resolveValue_insert_value hs hp hmem (hstamp d ▸ Nat.lt_of_lt_of_le hlt (hge d hd))
  · intro context blanket entries before after hs hlt d hd hmem hp
    exact resolveValue_insert_blanket hs hp hmem (hstamp d ▸ Nat.lt_of_lt_of_le hlt (hge d hd))
  · intro context entry before after hs hlt original restored hd hmem hp
    exact resolvePathEntry_insert hs hp hmem (Nat.lt_of_lt_of_le hlt (hge _ hd))
  · intro context requested entry before after hs hlt original restored hd hmem hname hp
    exact resolveNamedPathEntry_insert hs hp hmem hname (Nat.lt_of_lt_of_le hlt (hge _ hd))

/-- **A restore.** Whatever records go through one remapper, and whichever of them are refused on
the way: lookups over those that were dispatched come to what they came to in the backup; they
win against what was there before; the next sequence number afterwards is beyond all of them; and
a number that is refused leaves the remapper as it was. -/
theorem restore_keeps_effective (roots : RestoreRoots) (offset : ℕ)
    (records : List RestoreRecord) :
    ResolvesAlike roots offset (restore roots (.new offset) records).1 ∧
    Outnumbers offset (restore roots (.new offset) records).1 ∧
    (∀ current, ∃ next,
      (restore roots (.new offset) records).2.terminalNextSequence current = .ok next ∧
        current ≤ next ∧ ∀ d ∈ (restore roots (.new offset) records).1, d.sequence < next) ∧
    ∀ remapper backupSequence e remapper',
      (recordDispatched backupSequence).run remapper = (.error e, remapper') →
        remapper' = remapper := by
  have h := restore_restores roots records (.new offset)
  refine ⟨resolvesAlike_of_shifts h.shifts, outnumbers_of_shifts h.shifts, h.terminal, ?_⟩
  intro remapper backupSequence e remapper' hrun
  rcases recordDispatched_steps backupSequence remapper with ⟨e', he⟩ | ⟨n, r', hn, -⟩
  · rw [he] at hrun
    exact (Prod.mk.inj hrun).2.symm
  · rw [hn] at hrun
    cases hrun

end

/-! ## A restore of two values -/

namespace Sample

def guid (n : ℕ) : Guid := ⟨List.replicate 16 (BitVec.ofNat 8 n), length_filled n⟩

def roots : RestoreRoots := ⟨guid 1, guid 2⟩

/-- A value of two layers in the backup, and a record of a key that is not there. -/
def records : List RestoreRecord :=
  [.rootSectionValue ⟨guid 1, "Mode".toList, .normal .dword, [1#8], "base".toList, 7⟩,
    .rootSectionBlanket ⟨guid 3, "base".toList, 8⟩,
    .rootSectionValue ⟨guid 1, "Mode".toList, .normal .dword, [2#8], "policy".toList, 3⟩]

end Sample

open Sample in
/-- Two records are dispatched and one is refused; of the values of the restored key the one of
the upper layer is found. -/
theorem restore_keeps_effective_sample :
    (restore roots (.new 50) records).1.map Dispatched.stamp =
        [("base".toList, 57), ("policy".toList, 53)] ∧
      ResolvesAlike roots 50 (restore roots (.new 50) records).1 ∧
      resolveValue caller
          [⟨"base".toList, 57, 4, [1#8]⟩, ⟨"policy".toList, 53, 4, [2#8]⟩] [] =
        .ok (.found ⟨.dword, [2#8], "Policy".toList, 5, 53⟩) :=
  ⟨by decide +kernel, (restore_keeps_effective roots 50 records).1, by decide +kernel⟩

end Pkm.Lcs
