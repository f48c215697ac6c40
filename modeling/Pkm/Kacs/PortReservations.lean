import Pkm.Kacs.Check
import Pkm.Kacs.Model.PortReservation
/-!
# The order of port reservations does not matter

A list of values is accepted for what it is as a multiset: every value is well
formed, no two selectors of one width overlap, and one value is the default. Two
selectors that cover a port overlap, so among those of an accepted list the
narrowest is one alone, and both lookups find it wherever it stands.
-/

namespace Pkm.Kacs

open List Outcome PortReservationTable

/-! ## What a list of values says -/

/-- The reservation of a value that is not the default. -/
def reservationOf (value : Bytes × Bytes) : Option PortReservation :=
  if isDefaultSelector value.1 then none
  else (PortSelector.parse value.1).toOption.map (⟨·, value.2⟩)

def defaultOf (value : Bytes × Bytes) : Option Bytes :=
  if isDefaultSelector value.1 then some value.2 else none

/-- The reservations that cover a port. -/
def covering (values : List (Bytes × Bytes)) (protocol : PortProtocol) (port : ℕ) :
    List PortReservation :=
  (values.filterMap reservationOf).filter (·.selector.contains protocol port)

/-- The descriptor of the one narrowest reservation that covers a port, or of the one default if
none does. -/
def Governs (values : List (Bytes × Bytes)) (protocol : PortProtocol) (port : ℕ) (sd : Bytes) :
    Prop :=
  (∃ selector others, (covering values protocol port).Perm (⟨selector, sd⟩ :: others) ∧
    ∀ other ∈ others, selector.width < other.selector.width) ∨
  covering values protocol port = [] ∧ values.filterMap defaultOf = [sd]

variable {port : ℕ} {protocol : PortProtocol} {sd : Bytes} {values : List (Bytes × Bytes)}

theorem Governs.perm {values' : List (Bytes × Bytes)} (h : Governs values' protocol port sd)
    (hperm : values'.Perm values) : Governs values protocol port sd := by
  have hcovering := (hperm.filterMap reservationOf).filter (·.selector.contains protocol port)
  rcases h with ⟨selector, others, hothers, hlt⟩ | ⟨hnone, hdefault⟩
  · exact .inl ⟨selector, others, hcovering.symm.trans hothers, hlt⟩
  · refine .inr ⟨perm_nil.mp (hnone ▸ hcovering.symm), perm_singleton.mp ?_⟩
    exact hdefault ▸ (hperm.filterMap defaultOf).symm

/-- One descriptor governs a port. -/
theorem Governs.unique {sd' : Bytes} (h : Governs values protocol port sd)
    (h' : Governs values protocol port sd') : sd = sd' := by
  rcases h with ⟨selector, others, hperm, hlt⟩ | ⟨hnone, hdefault⟩ <;>
    rcases h' with ⟨selector', others', hperm', hlt'⟩ | ⟨hnone', hdefault'⟩
  · have hmem := (hperm.symm.trans hperm').mem_iff.mp mem_cons_self
    have hmem' := (hperm'.symm.trans hperm).mem_iff.mp mem_cons_self
    rcases mem_cons.mp hmem with heq | hother
    · exact congrArg PortReservation.sd heq
    rcases mem_cons.mp hmem' with heq | hother'
    · exact (congrArg PortReservation.sd heq).symm
    exact absurd (hlt _ hother') (Nat.lt_asymm (hlt' _ hother))
  · exact absurd (hnone' ▸ hperm) (not_perm_nil_cons _ _)
  · exact absurd (hnone ▸ hperm') (not_perm_nil_cons _ _)
  · exact singleton_injective (hdefault.symm.trans hdefault')

/-! ## Accepted lists -/

structure Valid (value : Bytes × Bytes) : Prop where
  sd : ∃ parsed, SecurityDescriptor.parse value.2 = .ok parsed
  name : isDefaultSelector value.1 = false → ∃ selector, PortSelector.parse value.1 = .ok selector

/-- The two do not make a port ambiguous. -/
def Apart (a b : PortReservation) : Prop :=
  a.selector.overlaps b.selector = true → a.selector.width ≠ b.selector.width

theorem Apart.symm {a b : PortReservation} (h : Apart a b) : Apart b a := by
  intro hover hwidth
  refine h ?_ hwidth.symm
  simp only [PortSelector.overlaps, decide_eq_true_eq] at hover ⊢
  exact ⟨BitVec.and_comm _ _ ▸ hover.1, hover.2.2, hover.2.1⟩

section

variable {found found' : Option Bytes × List PortReservation} {value : Bytes × Bytes}
  {values values' : List (Bytes × Bytes)} {protocol : PortProtocol} {port : ℕ}

/-- One value is accepted for itself and against the reservations before it. -/
theorem addValue_eq_ok : addValue found value = .ok found' ↔
    Valid value ∧ (∀ a ∈ found.2, ∀ b ∈ reservationOf value, Apart a b) ∧
      found.1.toList ++ (defaultOf value).toList = found'.1.toList ∧
      found.2 ++ (reservationOf value).toList = found'.2 := by
  obtain ⟨name, sd⟩ := value
  obtain ⟨default, reservations⟩ := found
  obtain ⟨default', reservations'⟩ := found'
  simp only [addValue, reservationOf, defaultOf]
  rcases hsd : SecurityDescriptor.parse sd with e | parsed
  · refine iff_of_false (fun h => by cases h) fun h => ?_
    obtain ⟨parsed, hparsed⟩ := h.1.sd
    cases hsd.symm.trans hparsed
  have hvalid : Valid (name, sd) ↔
      (isDefaultSelector name = false → ∃ selector, PortSelector.parse name = .ok selector) :=
    ⟨fun h => h.name, fun h => ⟨⟨parsed, hsd⟩, h⟩⟩
  rw [hvalid]
  cases isDefaultSelector name with
  | true => cases default <;> cases default' <;> simp [Except.mapError]
  | false =>
    rcases PortSelector.parse name with e | selector
    · simp [Except.mapError]
    · cases default <;> cases default' <;>
        simp [Except.mapError, Except.toOption, Apart, ite_error_eq_ok]

/-- **A list is accepted for what it holds**: the values are well formed, and no two make a port
ambiguous. -/
theorem foldlM_addValue_eq_ok : values.foldlM addValue (none, []) = .ok found ↔
    (∀ value ∈ values, Valid value) ∧ (values.filterMap reservationOf).Pairwise Apart ∧
      values.filterMap defaultOf = found.1.toList ∧ values.filterMap reservationOf = found.2 := by
  induction values using List.reverseRecOn generalizing found with
  | nil =>
    obtain ⟨default, reservations⟩ := found
    cases default <;> simp
  | append_singleton values value ih =>
    have hone : ∀ {β : Type} (f : Bytes × Bytes → Option β),
        (values ++ [value]).filterMap f = values.filterMap f ++ (f value).toList := by
      intro β f
      cases hf : f value <;> simp [hf]
    have hpair : (reservationOf value).toList.Pairwise Apart := by
      cases reservationOf value <;> simp
    simp only [foldlM_append, foldlM_cons, foldlM_nil, bind_pure, bind_eq_ok, ih,
      addValue_eq_ok, hone, pairwise_append, forall_mem_append,
      forall_mem_singleton, hpair, true_and, Option.mem_toList]
    constructor
    · rintro ⟨mid, ⟨hvalid, hapart, hdefault, hres⟩, hvalue, hnew, hrest⟩
      rw [hdefault, hres]
      exact ⟨⟨hvalid, hvalue⟩, ⟨hres ▸ hapart, hnew⟩, hrest⟩
    · rintro ⟨⟨hvalid, hvalue⟩, ⟨hapart, hnew⟩, hdefault, hres⟩
      obtain ⟨default, hmid⟩ : ∃ o : Option Bytes, values.filterMap defaultOf = o.toList := by
        rcases hfound : found.1 with _ | sd <;> rw [hfound] at hdefault
        · exact ⟨none, (append_eq_nil_iff.mp hdefault).1⟩
        · rcases append_eq_singleton_iff.mp hdefault with ⟨h, -⟩ | ⟨h, -⟩
          · exact ⟨none, h⟩
          · exact ⟨some sd, h⟩
      exact ⟨(default, _), ⟨hvalid, hapart, hmid, rfl⟩, hvalue, hnew, hmid ▸ hdefault, hres⟩

variable {table : PortReservationTable}

theorem fromValues_eq_ok : fromValues values = .ok table ↔
    (∀ value ∈ values, Valid value) ∧ (values.filterMap reservationOf).Pairwise Apart ∧
      values.filterMap defaultOf = [table.defaultSd] ∧
      values.filterMap reservationOf = table.reservations := by
  rw [fromValues, mapError_eq_ok, fromValuesExplained, bind_eq_ok]
  constructor
  · rintro ⟨⟨_ | sd, reservations⟩, hfold, h⟩
    · cases h
    · cases h
      exact foldlM_addValue_eq_ok.mp hfold
  · intro h
    exact ⟨(some table.defaultSd, table.reservations), foldlM_addValue_eq_ok.mpr h, rfl⟩

/-! ## Lookups -/

/-- Two selectors that cover a port overlap. -/
theorem overlaps_of_contains {a b : PortSelector} (ha : a.contains protocol port = true)
    (hb : b.contains protocol port = true) : a.overlaps b = true := by
  simp only [PortSelector.contains, PortSelector.overlaps, decide_eq_true_eq] at ha hb ⊢
  obtain ⟨i, hi⟩ : ∃ i, ∀ j, Bits.bit protocol.bit j = decide (j = i) := by
    cases protocol
    · exact ⟨0, by decide⟩
    · exact ⟨1, by decide⟩
  rw [Bits.and_flag_ne_zero_iff hi] at ha hb
  exact ⟨Bits.and_ne_zero_iff.mpr ⟨i, ha.1, hb.1⟩, by omega, by omega⟩

/-- The narrowest so far is Mathlib's choice of a least element. -/
theorem foldl_keepNarrower (reservations : List PortReservation) :
    reservations.foldl (keepNarrower protocol port) none =
      (reservations.filter (·.selector.contains protocol port)).argmin (·.selector.width) := by
  induction reservations using List.reverseRecOn with
  | nil => rfl
  | append_singleton reservations reservation ih =>
    rw [foldl_append, foldl_cons, ih, filter_append]
    unfold keepNarrower
    cases hcontains : reservation.selector.contains protocol port with
    | false => simp [hcontains]
    | true =>
      have hone : [reservation].filter (·.selector.contains protocol port) = [reservation] :=
        filter_cons_of_pos hcontains
      rw [if_neg (by simp), hone, argmin_concat]
      rcases List.argmin (fun r : PortReservation => r.selector.width) _ with _ | current
      · rfl
      · dsimp only
        split_ifs <;> first | rfl | omega

/-- **A built table answers with what governs the port.** -/
theorem governs_lookup (h : fromValues values = .ok table) :
    Governs values protocol port (table.lookup protocol port) := by
  obtain ⟨-, hapart, hdefault, hres⟩ := fromValues_eq_ok.mp h
  rw [PortReservationTable.lookup, foldl_keepNarrower, ← hres]
  cases hbest : List.argmin (·.selector.width) (covering values protocol port) with
  | none =>
    rw [covering] at hbest
    rw [hbest]
    exact .inr ⟨argmin_eq_none.mp hbest, hdefault⟩
  | some best =>
    have hmem := argmin_mem hbest
    have hperm := perm_cons_erase hmem
    have happart' := (hperm.pairwise_iff Apart.symm).mp (hapart.sublist filter_sublist)
    rw [covering] at hbest
    rw [hbest]
    refine .inl ⟨best.selector, _, hperm, fun other hother => ?_⟩
    have hother' := mem_of_mem_erase hother
    have hne := (pairwise_cons.mp happart').1 other hother
    have hle : best.selector.width ≤ other.selector.width :=
      le_of_mem_argmin (f := (·.selector.width)) hother' hbest
    exact lt_of_le_of_ne hle (hne (overlaps_of_contains (mem_filter.mp hmem).2
      (mem_filter.mp hother').2))

/-- What a streamed lookup keeps of a reservation. -/
def streamed (reservation : PortReservation) : ℕ × Bytes :=
  (reservation.selector.width, reservation.sd)

theorem lookupValue_eq (default : Option Bytes) (best : Option PortReservation) :
    lookupValue protocol port (default, best.map streamed) value =
      ((defaultOf value).or default,
        ((reservationOf value).toList.foldl (keepNarrower protocol port) best).map streamed) := by
  obtain ⟨name, sd⟩ := value
  simp only [lookupValue, defaultOf, reservationOf]
  cases isDefaultSelector name with
  | true => rfl
  | false =>
    rcases PortSelector.parse name with e | selector
    · rfl
    · cases hcontains : selector.contains protocol port with
      | false => simp [Except.toOption, keepNarrower, hcontains]
      | true =>
        rcases best with _ | current
        · simp [Except.toOption, keepNarrower, hcontains, streamed]
        · by_cases hle : current.selector.width ≤ selector.width <;>
            simp [Except.toOption, keepNarrower, hcontains, streamed, hle]

/-- The streamed lookup ends with the last default and the narrowest reservation. -/
theorem foldl_lookupValue (default : Option Bytes) (best : Option PortReservation) :
    values.foldl (lookupValue protocol port) (default, best.map streamed) =
      ((values.filterMap defaultOf).getLast?.or default,
        ((values.filterMap reservationOf).foldl (keepNarrower protocol port) best).map
          streamed) := by
  induction values generalizing default best with
  | nil => rfl
  | cons value rest ih =>
    have hcons : ∀ {β : Type} (f : Bytes × Bytes → Option β),
        (value :: rest).filterMap f = (f value).toList ++ rest.filterMap f := by
      intro β f
      cases hf : f value <;> simp [hf]
    rw [foldl_cons, lookupValue_eq, ih, hcons, hcons, getLast?_append, foldl_append,
      Option.or_assoc]
    cases defaultOf value <;> rfl

/-- Streaming the values of a table finds what the table does. -/
theorem lookupValues_eq (h : fromValues values = .ok table) :
    lookupValues values protocol port = some (table.lookup protocol port) := by
  obtain ⟨-, -, hdefault, hres⟩ := fromValues_eq_ok.mp h
  rw [lookupValues, PortReservationTable.lookup]
  have hfold : values.foldl (lookupValue protocol port) (none, none) = _ :=
    foldl_lookupValue none none
  rw [hfold, hdefault, hres]
  cases table.reservations.foldl (keepNarrower protocol port) none <;> rfl

/-- **The order of the values does not matter.** However the values of an accepted list are
arranged, they are accepted, and either lookup finds the descriptor of the one narrowest
reservation that covers the port, or of the default if none does. -/
theorem port_lookup_order_free {table : PortReservationTable} (h : fromValues values = .ok table)
    (hperm : values'.Perm values) :
    ∃ table', fromValues values' = .ok table' ∧ ∀ protocol port,
      Governs values protocol port (table'.lookup protocol port) ∧
      table'.lookup protocol port = table.lookup protocol port ∧
      lookupValues values' protocol port = some (table'.lookup protocol port) := by
  obtain ⟨hvalid, hapart, hdefault, hres⟩ := fromValues_eq_ok.mp h
  have hdefault' := hperm.filterMap defaultOf
  rw [hdefault, perm_singleton] at hdefault'
  have htable' : fromValues values' = .ok ⟨table.defaultSd, values'.filterMap reservationOf⟩ :=
    fromValues_eq_ok.mpr ⟨fun value hvalue => hvalid value (hperm.subset hvalue),
      ((hperm.filterMap reservationOf).pairwise_iff Apart.symm).mpr hapart, hdefault', rfl⟩
  refine ⟨_, htable', fun protocol port => ?_⟩
  have hgoverns : Governs values protocol port _ := (governs_lookup htable').perm hperm
  exact ⟨hgoverns, hgoverns.unique (governs_lookup h), lookupValues_eq htable'⟩

end

open Sample (sdBytes) in
/-- A default and two selectors, one inside the other. -/
def Sample.portValues : List (Bytes × Bytes) :=
  [(portDefaultSelector, sdBytes Sid.system none none),
    ([0x74#8, 0x63#8, 0x70#8, 0x3a#8, 0x31#8, 0x2d#8, 0x39#8], sdBytes Sid.everyone none none),
    ([0x2a#8, 0x3a#8, 0x37#8], sdBytes Sid.administrators none none)]

theorem port_lookup_order_free_sample :
    ∃ table, fromValues Sample.portValues = .ok table ∧
      ∃ table', fromValues Sample.portValues.reverse = .ok table' ∧ ∀ protocol port,
        Governs Sample.portValues protocol port (table'.lookup protocol port) ∧
        table'.lookup protocol port = table.lookup protocol port ∧
        lookupValues Sample.portValues.reverse protocol port =
          some (table'.lookup protocol port) := by
  obtain ⟨table, htable⟩ := exists_of_isOk (x := fromValues Sample.portValues) (by decide +kernel)
  exact ⟨table, htable, port_lookup_order_free htable (reverse_perm _)⟩

end Pkm.Kacs
