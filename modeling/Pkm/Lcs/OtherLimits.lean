import Pkm.Lcs.Model.Walk
import Pkm.Lcs.Routing
import Pkm.Lcs.SourceTable
/-!
# Routes under other limits

A route checks the whole table under the limits of the moment, and a hive may have been
registered under others. Of what the check asks for only the length of names depends on
limits: a single name that has become too long makes every route fail.
-/

namespace Pkm.Lcs

open List Outcome

/-- A table that registrations and disconnections lead to, each under limits of its own. -/
def SourceTableReached : List SourceSlotView → Prop :=
  Relation.ReflTransGen
    (fun slots slots' => ∃ limits event, sourceTableStep limits slots event = some slots') []

section

variable {limits earlier : LcsLimits} {slots : List SourceSlotView}

/-- The table passes its check under the limits of the last registration. -/
theorem SourceTableReached.closed (h : SourceTableReached slots) :
    ∃ limits, TableClosed limits slots := by
  induction h with
  | refl => exact ⟨.default, ⟨by simp, by simp, by simp⟩, rfl⟩
  | tail _ hstep ih =>
    obtain ⟨limits, event, hstep⟩ := hstep
    obtain ⟨earlier, hclosed⟩ := ih
    cases event with
    | disconnect sourceId => exact ⟨earlier, hclosed.move hstep⟩
    | register request =>
      obtain ⟨plan, hplan, -⟩ := Option.bind_eq_some_iff.mp hstep
      have hvalid := (validateSourceRegistration_eq_ok (eq_ok_of_toOption hplan)).2.1
      exact ⟨limits, TableClosed.step ⟨hvalid, hclosed.numbered⟩ hstep⟩

/-- A table that passed its check once passes it wherever its names are short enough. -/
theorem hivesValid_iff (h : HivesValid earlier (slots.map (·.hives))) :
    HivesValid limits (slots.map (·.hives)) ↔ ∀ slot ∈ slots, ∀ hive ∈ slot.hives,
      utf8Len hive.name ≤ limits.maxPathComponentLength := by
  constructor
  · exact fun h' slot hs hive hm => (h'.proper_of_mem slot hs hive hm).1.1.2.2.1
  · refine fun hshort => ⟨h.nonempty, fun hive hm => ?_, h.apart⟩
    obtain ⟨⟨⟨hnull, hne, -, hsep⟩, hreserved⟩, hroot⟩ := h.proper hive hm
    obtain ⟨slot, hs, hm⟩ := mem_flatMap.mp hm
    exact ⟨⟨⟨hnull, hne, hshort slot hs hive hm, hsep⟩, hreserved⟩, hroot⟩

theorem validateHiveTable_hiveViews (h : HivesValid limits (slots.map (·.hives))) :
    validateHiveTable limits (hiveViews slots) = .ok () := by
  refine validateHiveTable_eq_ok.mpr ⟨fun view hview => ?_, ?_⟩
  · obtain ⟨slot, hs, hview⟩ := mem_flatMap.mp hview
    obtain ⟨hive, hm, rfl⟩ := mem_map.mp hview
    exact (h.proper_of_mem slot hs hive hm).1
  · obtain ⟨hinner, houter⟩ := pairwise_flatMap.mp h.apart
    have hviews : ∀ {a b : RegisteredHiveIdentity}, a.Apart b →
        ¬ (foldName a.name = foldName b.name ∧ a.scope = b.scope) :=
      fun hab hsame => hab.1 hsame.symm
    refine pairwise_flatMap.mpr ⟨fun slot hs => ?_, houter.imp fun hab => ?_⟩
    · exact pairwise_map.mpr ((hinner slot hs).imp hviews)
    · simp only [forall_mem_map]
      exact fun x hx y hy => hviews (hab x hx y hy)

/-- What routing must return: the hive of the first scope that has one, else the global hive, else
that there is none. -/
def RoutesTo (slots : List SourceSlotView) (name : Name) (scopes : List Guid)
    (result : SysResult HiveRouteResult) : Prop :=
  ∃ route, RoutesFirst (hiveViews slots) name scopes (.ok route) ∧
    result = hiveRouteResult (classifyHiveRoute route)

/-- **Routing survives other hives, and other limits** exactly as long as every name of the table
is short enough for the limits of the moment. -/
theorem route_survives_iff {name : Name} {scopes : List Guid} (h : SourceTableReached slots)
    (hname : validateKeyComponentBytes name limits = .ok name)
    (hscopes : validateScopeGuidSet limits scopes = .ok ()) :
    RoutesTo slots name scopes (routeHiveFromSourceSlots limits slots name scopes) ↔
      ∀ slot ∈ slots, ∀ hive ∈ slot.hives, utf8Len hive.name ≤ limits.maxPathComponentLength := by
  obtain ⟨earlier, hclosed⟩ := h.closed
  rw [← hivesValid_iff hclosed.valid, ← validateSourceSlots_eq_ok]
  unfold routeHiveFromSourceSlots
  cases hslots : validateSourceSlots limits slots with
  | ok _ =>
    have htable := validateHiveTable_hiveViews (validateSourceSlots_eq_ok.mp hslots)
    refine iff_of_true ⟨_, routesFirst_routeOver htable name scopes, ?_⟩ rfl
    rw [routeHive_eq, htable, hscopes, hname]
    rfl
  | error e =>
    refine iff_of_false ?_ (by simp)
    rintro ⟨route, -, hroute⟩
    cases route <;> cases e <;> cases hroute

end

/-- A hive with a name of 65 characters, and one that is called `H`. -/
def Sample.longNamed : List SourceSlotView :=
  [⟨1, .active, [⟨List.replicate 65 'a', root 1, .global⟩, ⟨['H'], root 2, .global⟩]⟩]

theorem Sample.longNamed_reached : SourceTableReached longNamed :=
  .tail .refl ⟨.default, .register ⟨[⟨List.replicate 65 'a', root 1, 0, nilGuid⟩,
    ⟨['H'], root 2, 0, nilGuid⟩], 0, true⟩, by decide +kernel⟩

open Sample in
/-- Under the default limits both hives are found. -/
theorem route_survives_default :
    RoutesTo longNamed ['H'] [] (routeHiveFromSourceSlots .default longNamed ['H'] []) :=
  (route_survives_iff longNamed_reached (by decide +kernel) (by decide +kernel)).mpr
    (by decide +kernel)

open Sample in
/-- With names of at most 64 bytes, the least the limit may be, the short name is not found
either. -/
theorem route_fails_lowered :
    SourceTableReached longNamed ∧
      validateKeyComponentBytes ['H'] { LcsLimits.default with maxPathComponentLength := 64 } =
        .ok ['H'] ∧
      routeHiveFromSourceSlots { LcsLimits.default with maxPathComponentLength := 64 }
        longNamed ['H'] [] = .error .einval ∧
      routeHiveFromSourceSlots .default longNamed ['H'] [] = .ok ⟨1, root 2⟩ :=
  ⟨longNamed_reached, by decide +kernel, by decide +kernel, by decide +kernel⟩

/-! ## Runs -/

/-- What a slot has for good. -/
def SourceSlotView.owned (slot : SourceSlotView) := (slot.sourceId, slot.hives)

variable {slots slots' : List SourceSlotView}

theorem moveSlot_owned {sourceId : SourceId} {old new : SourceSlotStatus}
    (h : moveSlot sourceId old new slots = some slots') :
    slots'.map (·.owned) = slots.map (·.owned) := by
  obtain ⟨hids, hhives⟩ := moveSlot_keeps h
  simp only [SourceSlotView.owned, ← zip_map', hids, hhives]

/-- **One event.** -/
theorem owned_step {limits : LcsLimits} {event : SourceEvent}
    (h : sourceTableStep limits slots event = some slots') :
    slots.map (·.owned) <+: slots'.map (·.owned) := by
  cases event with
  | disconnect => rw [moveSlot_owned h]
  | register request =>
    obtain ⟨plan, -, h⟩ := Option.bind_eq_some_iff.mp h
    split at h
    · obtain ⟨hives, -, h⟩ := Option.bind_eq_some_iff.mp h
      cases h
      simp
    · rw [moveSlot_owned h]

/-- What is left of a table after events, each under limits of its own; one that is refused
changes nothing. -/
def sourceTableRun (events : List (LcsLimits × SourceEvent)) (slots : List SourceSlotView) :
    List SourceSlotView :=
  events.foldl (fun slots e => (sourceTableStep e.1 slots e.2).getD slots) slots

/-- **A run of events** keeps what slots own, and the table that it leads to is reached. -/
theorem sourceTableRun_keeps (events : List (LcsLimits × SourceEvent))
    (h : SourceTableReached slots) :
    SourceTableReached (sourceTableRun events slots) ∧
      slots.map (·.owned) <+: (sourceTableRun events slots).map (·.owned) := by
  induction events generalizing slots with
  | nil => exact ⟨h, prefix_rfl⟩
  | cons e events ih =>
    have hrun : sourceTableRun (e :: events) slots =
        sourceTableRun events ((sourceTableStep e.1 slots e.2).getD slots) := rfl
    rw [hrun]
    cases hstep : sourceTableStep e.1 slots e.2 with
    | none => exact ih h
    | some next =>
      obtain ⟨hreached, hkept⟩ := ih (h.tail ⟨_, _, hstep⟩)
      exact ⟨hreached, (owned_step hstep).trans hkept⟩

/-- **No source loses a hive, and no other takes one over.** However a run goes on, slots keep
their place, their number and their hives, and a hive with the scope and the name of one that was
there, or with its root, is that hive in the slot that had it: also while its source is down, and
although the limits by which names are checked may change in between. -/
theorem owned_kept (before later : List (LcsLimits × SourceEvent)) :
    let slots := sourceTableRun before []
    let slots' := sourceTableRun later slots
    slots.map (·.owned) <+: slots'.map (·.owned) ∧
      ∀ slot ∈ slots, ∀ hive ∈ slot.hives, ∀ slot' ∈ slots', ∀ hive' ∈ slot'.hives,
        (hive'.scope = hive.scope ∧ foldName hive'.name = foldName hive.name ∨
          hive'.rootGuid = hive.rootGuid) → slot'.owned = slot.owned ∧ hive' = hive := by
  intro slots slots'
  have hbefore : SourceTableReached slots := (sourceTableRun_keeps before .refl).1
  obtain ⟨hreached, hkept⟩ := sourceTableRun_keeps later hbefore
  refine ⟨hkept, fun slot hslot hive hhive slot' hslot' hive' hhive' hsame => ?_⟩
  -- the slot as it is after the run
  obtain ⟨after, hafter, howned⟩ := mem_map.mp (hkept.subset (mem_map_of_mem hslot))
  have hhives : after.hives = slot.hives := congrArg Prod.snd howned
  obtain ⟨limits, hclosed⟩ := hreached.closed
  obtain ⟨rfl, rfl⟩ := hclosed.valid.unique hslot' hhive' hafter (hhives ▸ hhive) fun hapart =>
    hsame.elim hapart.1 hapart.2
  exact ⟨howned, rfl⟩

end Pkm.Lcs
