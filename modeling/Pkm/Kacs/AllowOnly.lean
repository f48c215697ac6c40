import Pkm.Kacs.Pipeline
/-!
# Descriptors that only grant

The DACL of such a descriptor has no entry that denies and none with a condition.
A walk over it depends on who reads it only through an `Identity`: the SIDs an
entry can be for, and the owners whose implicit rights the reader has. The three
walks of an evaluation are one question asked by three identities, and a larger
identity is granted no less.
-/

namespace Pkm.Kacs

open Bits List

/-! ## Entries that only grant -/

/-- An entry that is no denial and has no condition. -/
def grantsOnly (ace : Ace) : Bool :=
  decide (ace.aceType ∉ [accessDeniedAceType, accessDeniedObjectAceType,
    accessAllowedCallbackAceType, accessDeniedCallbackAceType,
    accessAllowedCallbackObjectAceType, accessDeniedCallbackObjectAceType])

/-- No entry of the DACL denies or has a condition. -/
def SecurityDescriptor.GrantsOnly (sd : SecurityDescriptor) : Prop :=
  ∀ dacl ∈ sd.dacl, ∀ ace ∈ dacl.entries, grantsOnly ace = true

theorem polarityOf_eq_allow {allowType denyType aceType : Byte} {p : AcePolarity}
    (h : polarityOf allowType denyType aceType = some p) (hne : aceType ≠ denyType) :
    p = .allow := by
  unfold polarityOf at h
  split_ifs at h with hallow
  exact (Option.some.inj h).symm

/-- Such an entry projects to a grant without a condition. -/
theorem projectDaclAce_of_grantsOnly {ace : Ace} {mapping : GenericMapping}
    {projected : ProjectedDaclAce} (h : grantsOnly ace = true)
    (hp : projectDaclAce ace mapping = .ok (some projected)) :
    projected.polarity = .allow ∧ projected.condition = none := by
  obtain ⟨types, hmem, hpolarity, hcondition, -⟩ := projectDaclAce_inv hp
  have htypes : ∀ types ∈ accessAceTypes, grantsOnly ace = true → ace.aceType ≠ types.2.1 ∧
      (types.2.2 = true → ace.aceType ≠ types.1) := by
    intro types hmem h
    simp only [grantsOnly, mem_cons, not_or, decide_eq_true_eq] at h
    simp only [accessAceTypes, mem_cons, not_mem_nil, or_false] at hmem
    rcases hmem with rfl | rfl | rfl | rfl <;> simp [h]
  obtain ⟨hdeny, hallow⟩ := htypes types hmem h
  refine ⟨polarityOf_eq_allow hpolarity hdeny, ?_⟩
  -- a type with a condition is neither of the two that the entry may have
  by_contra hsome
  have hconditional : types.2.2 = true := hcondition ▸ Option.isSome_iff_ne_none.mpr hsome
  rcases polarityOf_mem hpolarity with htype | htype
  · exact hallow hconditional htype
  · exact hdeny htype

/-! ## Identities -/

/-- Who reads a DACL: the SIDs an entry can be for, and the owners whose implicit rights the
reader has. -/
structure Identity where
  allows : Sid → Bool
  present : Sid → Bool

namespace Identity

/-- Whether an entry for a SID is for the reader. OWNER RIGHTS and PRINCIPAL SELF stand for other
SIDs. -/
def named (who : Identity) (owner selfSid : Option Sid) (aceSid : Sid) : Bool :=
  if aceSid = Sid.ownerRights then owner.any who.allows
  else if aceSid = Sid.principalSelf then selfSid.any who.allows
  else who.allows aceSid

/-- The second identity reads every entry the first does. -/
structure Le (who other : Identity) : Prop where
  allows : ∀ sid, who.allows sid = true → other.allows sid = true
  present : ∀ sid, who.present sid = true → other.present sid = true

theorem any_mono {p q : Sid → Bool} (h : ∀ sid, p sid = true → q sid = true) {sid : Option Sid}
    (hs : sid.any p = true) : sid.any q = true := by
  cases sid with
  | none => cases hs
  | some sid => exact h sid hs

theorem Le.named {who other : Identity} (h : who.Le other) {owner selfSid : Option Sid}
    {aceSid : Sid} (hn : who.named owner selfSid aceSid = true) :
    other.named owner selfSid aceSid = true := by
  unfold Identity.named at hn ⊢
  split_ifs at hn ⊢
  · exact any_mono h.allows hn
  · exact any_mono h.allows hn
  · exact h.allows _ hn

/-! ### The identities of a token -/

/-- The caller, with the SIDs that count for an allow entry. -/
def caller (token : TokenView) : Identity where
  allows sid := sidMatchesToken token sid .allow
  present := ownerMatchesIdentity token

/-- The restricting SIDs, which match by presence. -/
def restricting (restricted : RestrictedTokenContext) : Identity where
  allows := restrictedContains restricted.restrictedSids
  present := restrictedContains restricted.restrictedSids

theorem restricting_of_nil {restricted : RestrictedTokenContext}
    (h : restricted.restrictedSids = []) :
    restricting restricted = ⟨fun _ => false, fun _ => false⟩ := by
  rw [restricting, h]
  rfl

/-- The confining SIDs, which have no implicit rights. -/
def confining (confinement : ConfinementTokenContext) : Identity where
  allows := confinementContains confinement
  present _ := false

end Identity

/-! ## The question -/

/-- What a walk asks of a descriptor, whoever reads it. -/
structure DaclQuestion where
  sd : SecurityDescriptor
  mapping : GenericMapping
  validRights : Mask
  relevant : Mask
  objectTree : Option ObjectTypeList
  selfSid : Option Sid

namespace DaclQuestion

variable (q : DaclQuestion) (who : Identity) (i : Fin 32) {e : Effect} {k : ℕ}

/-- Whether the reader has the implicit rights of an owner. -/
def implicit : Bool :=
  q.sd.owner.any who.present && !(q.sd.dacl.map ownerRightsSuppressed).getD false

/-- What the reader has before any entry is read. -/
def start : Cell :=
  let granted := q.implicit who && bit ((readControl ||| writeDac) &&& q.validRights) i
  ⟨granted, granted⟩

/-- What an entry grants the reader. -/
def effect (ace : Ace) : Option Effect :=
  if applies ace then
    match projectDaclAce ace q.mapping with
    | .ok (some projected) =>
      if who.named q.sd.owner q.selfSid projected.sid &&
          bit (projected.mask &&& q.relevant) i then
        (scopeOf q.objectTree projected.target).map (⟨true, ·⟩)
      else none
    | _ => none
  else none

def effects : List Effect :=
  match q.sd.dacl with
  | none => if bit q.validRights i then [⟨true, .all⟩] else []
  | some dacl => dacl.entries.filterMap (q.effect who i)

noncomputable def cells : Cells :=
  (forestOf q.objectTree).walk (q.effects who i) ((forestOf q.objectTree).uniform (q.start who i))

/-- **What the reader is granted.** -/
noncomputable def grants (k : ℕ) : Bool := (q.cells who i k).granted

variable {q who i}

theorem effect_eq_some {ace : Ace} :
    q.effect who i ace = some e ↔ applies ace = true ∧ ∃ projected scope,
      projectDaclAce ace q.mapping = .ok (some projected) ∧
      who.named q.sd.owner q.selfSid projected.sid = true ∧
      bit (projected.mask &&& q.relevant) i = true ∧
      scopeOf q.objectTree projected.target = some scope ∧ e = ⟨true, scope⟩ := by
  unfold effect
  split
  · rename_i happlies
    split
    · rename_i projected hp
      rw [hp]
      simp only [Bool.and_eq_true, happlies, Except.ok.injEq, Option.some.injEq, true_and]
      constructor
      · intro h
        split at h
        · rename_i hnamed
          obtain ⟨scope, hscope, rfl⟩ := Option.map_eq_some_iff.mp h
          exact ⟨projected, scope, rfl, hnamed.1, hnamed.2, hscope, rfl⟩
        · cases h
      · rintro ⟨_, scope, rfl, hnamed, hbit, hscope, rfl⟩
        rw [if_pos ⟨hnamed, hbit⟩, hscope]
        rfl
    · rename_i hno
      refine ⟨fun h => (by cases h), ?_⟩
      rintro ⟨-, projected, scope, hp, -⟩
      exact absurd hp (hno projected)
  · rename_i hno
    exact ⟨fun h => (by cases h), fun h => absurd h.1 hno⟩

theorem allow_of_mem_effects (h : e ∈ q.effects who i) : e.allow = true := by
  unfold effects at h
  split at h
  · split at h
    · obtain rfl := mem_singleton.mp h
      rfl
    · cases h
  · obtain ⟨ace, -, he⟩ := mem_filterMap.mp h
    obtain ⟨-, projected, scope, -, -, -, -, rfl⟩ := effect_eq_some.mp he
    rfl

theorem open_start : Forest.Open ((forestOf q.objectTree).uniform (q.start who i)) := by
  intro k hd
  unfold Forest.uniform at hd ⊢
  split_ifs at hd ⊢
  exact hd

theorem coherent_cells : Forest.Coherent (forestOf q.objectTree) (q.cells who i) :=
  (Forest.Coherent.uniform fun h => h).walk _

/-- A right granted at the root is granted everywhere. -/
theorem grants_of_root (h : q.grants who i 0 = true) (hk : k < (forestOf q.objectTree).size) :
    q.grants who i k = true :=
  Forest.forall_of_root
    (fun _ _ hc hp => coherent_cells.granted_down hc hp) (forestOf_single_root q.objectTree) h hk

/-! ### Reaching a node -/

/-- An entry grants what it grants where it acts. -/
theorem grants_of_reached (he : e ∈ q.effects who i)
    (hk : (forestOf q.objectTree).reaches e k = true) : q.grants who i k = true :=
  open_start.granted_walk (fun _ he' => allow_of_mem_effects he') he hk

/-- A leaf where no entry acts has what the reader had at the start. -/
theorem grants_of_leaf (hk : k < (forestOf q.objectTree).size)
    (hleaf : ∀ c, (forestOf q.objectTree).parent c ≠ some k)
    (hno : ∀ e ∈ q.effects who i, (forestOf q.objectTree).reaches e k = false) :
    q.grants who i k = (q.start who i).granted := by
  have hkeep := Forest.walk_of_leaf hleaf (fun e he => ⟨allow_of_mem_effects he, hno e he⟩)
  rw [grants, cells, hkeep, Forest.uniform_of_lt hk]

/-- A right that all children have, the parent has. -/
theorem grants_of_children (h : (forestOf q.objectTree).AllChildrenGranted (q.cells who i) k) :
    q.grants who i k = true :=
  open_start.walk (fun _ he => allow_of_mem_effects he) _ (coherent_cells.closed h)

/-! ### Larger identities -/

theorem sublist_filterMap {α β : Type} {f g : α → Option β} (l : List α)
    (h : ∀ a ∈ l, ∀ b, f a = some b → g a = some b) :
    (l.filterMap f).Sublist (l.filterMap g) := by
  induction l with
  | nil => exact .slnil
  | cons a l ih =>
    have htail := ih (forall_mem_cons.mp h).2
    cases hf : f a with
    | none =>
      rw [filterMap_cons_none hf]
      cases hg : g a with
      | none => rwa [filterMap_cons_none hg]
      | some b => rw [filterMap_cons_some hg]; exact htail.cons b
    | some b =>
      rw [filterMap_cons_some hf, filterMap_cons_some (h a mem_cons_self b hf)]
      exact htail.cons_cons b

variable {other : Identity}

/-- An entry for the smaller identity is for the larger one. -/
theorem effects_sublist (h : who.Le other) : (q.effects who i).Sublist (q.effects other i) := by
  unfold effects
  split
  · exact List.Sublist.refl _
  · refine sublist_filterMap _ fun ace _ e he => ?_
    obtain ⟨happlies, projected, scope, hp, hnamed, hbit, hscope, rfl⟩ := effect_eq_some.mp he
    exact effect_eq_some.mpr ⟨happlies, projected, scope, hp, h.named hnamed, hbit, hscope, rfl⟩

theorem start_le (h : who.Le other) (hg : (q.start who i).granted = true) :
    (q.start other i).granted = true := by
  simp only [start, implicit, Bool.and_eq_true] at hg ⊢
  exact ⟨⟨Identity.any_mono h.present hg.1.1, hg.1.2⟩, hg.2⟩

/-- **A larger identity is granted no less.** -/
theorem grants_mono (h : who.Le other) (hg : q.grants who i k = true) :
    q.grants other i k = true := by
  refine Forest.GrantsLe.walk (effects_sublist h) (fun _ he => allow_of_mem_effects he)
    open_start ?_ k hg
  intro k hk
  unfold Forest.uniform at hk ⊢
  split_ifs at hk ⊢
  exact start_le h hk

end DaclQuestion

/-! ## Walks as questions -/

theorem any_filter {α : Type} (o : Option α) (p : α → Bool) :
    ((o.filter p).map p).getD false = o.any p := by
  cases o with
  | none => rfl
  | some a => cases h : p a <;> simp [Option.filter, h]

theorem map_getD_eq_any {α : Type} (o : Option α) (p : α → Bool) :
    (o.map p).getD false = o.any p := by
  cases o <;> rfl

/-- The cell of a right that was open before the walk. -/
theorem cellOf_startState {d : DaclStateInput} {q : DaclQuestion} {who : Identity} {i : Fin 32}
    (hopen : cellOf i d.initialState = ⟨false, false⟩)
    (himplicit : (d.callerIsOwner.present && !d.skipOwnerImplicit &&
      !(d.sd.dacl.map ownerRightsSuppressed).getD false) = q.implicit who)
    (hrights : d.validRights = q.validRights) : cellOf i (startState d) = q.start who i := by
  unfold startState DaclQuestion.start
  rw [← himplicit, ← hrights]
  dsimp only
  split
  · rename_i h
    rw [cellOf_applyBits, hopen]
    simp only [h.1, h.2.1, h.2.2]
    cases bit ((readControl ||| writeDac) &&& d.validRights) i <;> rfl
  · rename_i h
    have hoff : (d.callerIsOwner.present && !d.skipOwnerImplicit &&
        !(d.sd.dacl.map ownerRightsSuppressed).getD false) = false := by
      simpa [and_assoc] using h
    rw [hoff, hopen]
    rfl

variable [CharCase]

/-- A walk asks a question for an identity. -/
structure Asks (d : DaclStateInput) (sidMatches : SidMatches) (q : DaclQuestion)
    (who : Identity) : Prop where
  sd : d.sd = q.sd
  mapping : d.mapping = q.mapping
  validRights : d.validRights = q.validRights
  relevant : relevantMask d = q.relevant
  objectTree : d.objectTree = q.objectTree
  named : ∀ sid, aceMatchesIdentity sid .allow d.callerIsOwner d.conditionalContext.selfSid
    sidMatches = who.named q.sd.owner q.selfSid sid

variable {d : DaclStateInput} {sidMatches : SidMatches} {q : DaclQuestion} {who : Identity}
  {i : Fin 32}

theorem Asks.aceEffect (h : Asks d sidMatches q who) {ace : Ace} (hace : grantsOnly ace = true) :
    aceEffect d sidMatches i ace = q.effect who i ace := by
  unfold Kacs.aceEffect speakingAce DaclQuestion.effect
  rw [h.mapping]
  by_cases happlies : applies ace = true
  · rw [if_pos happlies, if_pos happlies]
    rcases hp : projectDaclAce ace q.mapping with e | ⟨_ | projected⟩
    · rfl
    · rfl
    · obtain ⟨hpolarity, hcondition⟩ := projectDaclAce_of_grantsOnly hace hp
      have hspeaks : aceSpeaks d sidMatches projected =
          who.named q.sd.owner q.selfSid projected.sid := by
        unfold aceSpeaks
        rw [hpolarity, hcondition, h.named, Bool.and_true]
      simp only [hspeaks]
      cases who.named q.sd.owner q.selfSid projected.sid with
      | false => rfl
      | true =>
        simp [projectedEffect, h.relevant, h.objectTree, hpolarity, Bool.true_and]
  · rw [if_neg happlies, if_neg happlies]
    rfl

theorem Asks.daclEffects (h : Asks d sidMatches q who) (hsd : q.sd.GrantsOnly) :
    daclEffects d sidMatches i = q.effects who i := by
  unfold Kacs.daclEffects DaclQuestion.effects
  rw [h.sd, h.validRights]
  cases hdacl : q.sd.dacl with
  | none => rfl
  | some dacl => exact filterMap_congr fun ace hace => h.aceEffect (hsd dacl hdacl ace hace)

/-- **A walk over entries that only grant** is decided by the identity that reads them, where
nothing was decided before. -/
theorem Asks.walkCells (h : Asks d sidMatches q who) (hsd : q.sd.GrantsOnly)
    (hstart : cellOf i (startState d) = q.start who i) :
    walkCells d sidMatches i = q.cells who i := by
  unfold Kacs.walkCells DaclQuestion.cells
  rw [h.daclEffects hsd, h.objectTree, hstart]

/-! ## The question of an evaluation -/

namespace Resolved

variable {input : EvaluateSecurityDescriptorInput} (r : Resolved input) {confinementSid : Sid}

/-- What the three walks of an evaluation ask. -/
def question : DaclQuestion where
  sd := r.sd
  mapping := input.mapping
  validRights := input.mapping.all
  relevant := if r.normalized.maximumAllowed then input.mapping.all else r.normalized.mapped
  objectTree := input.objectTree
  selfSid := input.conditionalContext.selfSid

theorem asks_caller : Asks (r.pass.normalInput r.initial) (sidMatchesToken input.token.subject)
    r.question (.caller input.token.subject) where
  sd := rfl
  mapping := rfl
  validRights := rfl
  relevant := rfl
  objectTree := rfl
  named sid := by
    have howner : (callerIsOwnerNormal r.sd input.token.subject).forAllow true =
        r.sd.owner.any fun owner => sidMatchesToken input.token.subject owner .allow := by
      unfold callerIsOwnerNormal
      cases r.sd.owner <;> rfl
    unfold aceMatchesIdentity Identity.named
    split
    · exact howner
    · split
      · exact map_getD_eq_any _ _
      · rfl

theorem asks_restricting : Asks r.pass.restrictedInput
    (fun sid _ => restrictedContains input.token.restricted.restrictedSids sid) r.question
    (.restricting input.token.restricted) where
  sd := rfl
  mapping := rfl
  validRights := rfl
  relevant := rfl
  objectTree := rfl
  named sid := by
    unfold aceMatchesIdentity Identity.named
    split
    · rfl
    · split
      · exact any_filter _ _
      · rfl

theorem asks_confining (h : input.token.confinement.activeSid = some confinementSid) :
    Asks r.pass.confinementInput (fun sid _ => decide (sid = confinementSid) ||
      confinementContainsCapability input.token.confinement sid) r.question
      (.confining input.token.confinement) where
  sd := rfl
  mapping := rfl
  validRights := rfl
  relevant := rfl
  objectTree := rfl
  named sid := by
    have hsid : input.token.confinement.confinementSid = some confinementSid :=
      (Option.filter_eq_some_iff.mp h).1
    have hmatch : (fun sid => decide (sid = confinementSid) ||
        confinementContainsCapability input.token.confinement sid) =
          confinementContains input.token.confinement := by
      unfold confinementContains
      rw [hsid]
      simp [eq_comm]
    unfold aceMatchesIdentity Identity.named
    split
    · rfl
    · split
      · exact (congrArg (fun m => (Option.map m _).getD false) hmatch).trans (any_filter _ _)
      · exact congrFun hmatch sid

variable {i : Fin 32} {k : ℕ} (hsd : r.sd.GrantsOnly)

include hsd

/-- **The caller's walk is the question asked by the caller**, for a right that privileges and
labels left open. -/
theorem walkAt_eq (h : bit r.initial.decided i = false) :
    r.walkAt i k = r.question.grants (.caller input.token.subject) i k := by
  have hgranted : bit r.initial.granted i = false := by
    cases hg : bit r.initial.granted i with
    | false => rfl
    | true => rw [bit_of_subset r.initial_subset hg] at h; cases h
  have hstart : cellOf i (startState (r.pass.normalInput r.initial)) =
      r.question.start (.caller input.token.subject) i := by
    have howner : (callerIsOwnerNormal r.sd input.token.subject).present =
        r.sd.owner.any (ownerMatchesIdentity input.token.subject) := by
      unfold callerIsOwnerNormal
      cases r.sd.owner <;> rfl
    refine cellOf_startState (by rw [cellOf]; exact congrArg₂ Cell.mk h hgranted) ?_ rfl
    change ((callerIsOwnerNormal r.sd input.token.subject).present && !false && _) = _
    rw [howner, Bool.not_false, Bool.and_true]
    rfl
  unfold walkAt DaclQuestion.grants
  rw [r.asks_caller.walkCells hsd hstart]

theorem restrictedAt_eq :
    r.restrictedAt i k = r.question.grants (.restricting input.token.restricted) i k := by
  have hstart : cellOf i (startState r.pass.restrictedInput) =
      r.question.start (.restricting input.token.restricted) i := by
    refine cellOf_startState ?_ ?_ rfl
    · simp [cellOf, PassInput.restrictedInput, PassInput.normalInput]
    change (r.sd.owner.any _ && !false && _) = _
    rw [Bool.not_false, Bool.and_true]
    rfl
  unfold restrictedAt DaclQuestion.grants
  rw [r.asks_restricting.walkCells hsd hstart]

theorem confinedAt_eq (h : input.token.confinement.activeSid = some confinementSid) :
    r.confinedAt confinementSid i k =
      r.question.grants (.confining input.token.confinement) i k := by
  have hstart : cellOf i (startState r.pass.confinementInput) =
      r.question.start (.confining input.token.confinement) i := by
    refine cellOf_startState ?_ ?_ rfl
    · simp [cellOf, PassInput.confinementInput, PassInput.normalInput]
    change (_ && !true && _) = (r.sd.owner.any (fun _ => false) && _)
    rw [Bool.not_true, Bool.and_false]
    cases r.sd.owner <;> rfl
  unfold confinedAt DaclQuestion.grants
  rw [(r.asks_confining h).walkCells hsd hstart]

/-- A confined token keeps what the confining SIDs are granted. -/
theorem grantAt_iff : r.grantAt i k = true ↔ r.mergedAt i k = true ∧
    (input.token.confinement.activeSid ≠ none →
      r.question.grants (.confining input.token.confinement) i k = true) := by
  unfold grantAt
  split
  · rename_i confinementSid hsid
    rw [r.confinedAt_eq hsd hsid, hsid]
    simp
  · rename_i hsid
    simp [hsid]

end Resolved

end Pkm.Kacs
