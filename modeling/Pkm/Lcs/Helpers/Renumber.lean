import Pkm.Lcs.Helpers.Groups
import Pkm.Lcs.Model.Restore
/-!
# Lookups over renumbered entries

Adding one offset to all sequence numbers keeps their order, so a lookup comes to
the same with the number shifted. Only the check against the next number looks at
the numbers themselves: it has to treat an entry before and after alike. An entry
whose number is below those of another one at its precedence does not matter.
-/

namespace Pkm.Lcs

open List Outcome Scan

/-! ## Renumbering -/

variable (offset : ℕ) (f : Guid → Guid)

def ValueEntry.renumber (entry : ValueEntry) : ValueEntry :=
  { entry with sequence := offset + entry.sequence }

def BlanketTombstoneEntry.renumber (blanket : BlanketTombstoneEntry) : BlanketTombstoneEntry :=
  { blanket with sequence := offset + blanket.sequence }

def PathEntry.renumber (entry : PathEntry) : PathEntry :=
  { entry with sequence := offset + entry.sequence, target := entry.target.remap f }

def NamedPathEntry.renumber (entry : NamedPathEntry) : NamedPathEntry :=
  { entry with entry := entry.entry.renumber offset f }

def ResolvedValueEntry.renumber (value : ResolvedValueEntry) : ResolvedValueEntry :=
  { value with sequence := offset + value.sequence }

def ResolvedPathEntry.renumber (path : ResolvedPathEntry) : ResolvedPathEntry :=
  { path with sequence := offset + path.sequence, guid := f path.guid }

def ResolvedNamedPathEntry.renumber (named : ResolvedNamedPathEntry) : ResolvedNamedPathEntry :=
  { named with path := named.path.renumber offset f }

/-- An error as it is told of the renumbered entries. -/
def renumberError (next : ℕ) : LcsError → LcsError
  | .futureSequence sequence _ => .futureSequence (offset + sequence) next
  | .duplicateWinningSequenceTie precedence sequence =>
    .duplicateWinningSequenceTie precedence (offset + sequence)
  | e => e

theorem renumberError_of_not_numbered {offset next : ℕ} {e : LcsError} (h : ¬ e.IsNumbered) :
    renumberError offset next e = e := by
  cases e with
  | futureSequence s n => exact absurd (.inr ⟨s, n, rfl⟩) h
  | duplicateWinningSequenceTie p s => exact absurd (.inl ⟨p, s, rfl⟩) h
  | _ => rfl

/-- The result of a lookup as it is over the renumbered entries. -/
def renumbered {ρ : Type} (offset next : ℕ) (f : ρ → ρ) :
    LcsResult (Resolution ρ) → LcsResult (Resolution ρ) :=
  bimap (renumberError offset next) (Resolution.map f)

/-- The context with another next sequence number. -/
def LayerResolutionContext.withNext (context : LayerResolutionContext) (next : ℕ) :
    LayerResolutionContext :=
  { context with nextSequence := next }

/-- The number is of the future in neither context or in both. -/
def KnownAlike (context : LayerResolutionContext) (offset next sequence : ℕ) : Prop :=
  sequence < context.nextSequence ↔ offset + sequence < next

variable {context : LayerResolutionContext} {offset next : ℕ} {f : Guid → Guid}
  {blankets : List BlanketTombstoneEntry} {entries : List ValueEntry} {layer requested : Name}
  {entry : PathEntry} {α β ι ρ : Type} {sequence : ℕ} {g : α → β} {x : LcsResult α}
  {tuple : α → ℕ × ℕ} {visible : α → Option ρ} {candidate : ι → LcsResult (Option α)} {c d : α}

theorem bimap_renumberError (h : Avoids LcsError.IsNumbered x) :
    bimap (renumberError offset next) g x = x.map g :=
  bimap_of_avoids h fun _ => renumberError_of_not_numbered

/-- A step that tells no numbers is the same for the renumbered entries. -/
theorem bind_renumber {γ : Type} {g : β → γ} {k : α → LcsResult β} {k' : α → LcsResult γ}
    (hx : Avoids LcsError.IsNumbered x)
    (h : ∀ a, k' a = bimap (renumberError offset next) g (k a)) :
    x >>= k' = bimap (renumberError offset next) g (x >>= k) := by
  rw [← bimap_bind fun a _ => h a, bimap_renumberError hx]
  cases x <;> rfl

theorem validateSequence_renumber (h : KnownAlike context offset next sequence) :
    validateSequence (context.withNext next) (offset + sequence) =
      bimap (renumberError offset next) id (validateSequence context sequence) := by
  unfold validateSequence LayerResolutionContext.withNext
  by_cases hs : sequence < context.nextSequence
  · rw [if_neg (Nat.not_le.mpr hs), if_neg (Nat.not_le.mpr (h.mp hs))]
    rfl
  · rw [if_pos (Nat.not_lt.mp hs), if_pos (Nat.not_lt.mp (mt h.mpr hs))]
    rfl

/-- **One entry** is the renumbered candidate. -/
theorem candidateFrom_renumber {π π' : Type} {payload : LcsResult π} {payload' : LcsResult π'}
    {build : ActiveLayer → π → α} {build' : ActiveLayer → π' → β} {q : π → π'}
    (hseq : KnownAlike context offset next sequence)
    (havoids : Avoids LcsError.IsNumbered payload) (hpayload : payload' = payload.map q)
    (hbuild : ∀ active p, build' active (q p) = g (build active p)) :
    candidateFrom (context.withNext next) layer (offset + sequence) payload' build' =
      bimap (renumberError offset next) (Option.map g)
        (candidateFrom context layer sequence payload build) := by
  refine bind_renumber (activeLayerForSourceEntry_avoids_numbered layer) fun active => ?_
  cases active with
  | none => rfl
  | some active =>
    rw [validateSequence_renumber hseq, hpayload, ← bimap_renumberError havoids]
    refine bimap_bind fun _ _ => bimap_bind fun p _ => ?_
    rw [hbuild]
    rfl

def ValueCandidate.renumber (offset : ℕ) (c : ValueCandidate) : ValueCandidate :=
  { c with sequence := offset + c.sequence }

def PathCandidate.renumber (offset : ℕ) (f : Guid → Guid) (c : PathCandidate) : PathCandidate :=
  { c with sequence := offset + c.sequence, target := c.target.remap f }

def NamedPathCandidate.renumber (offset : ℕ) (f : Guid → Guid) (c : NamedPathCandidate) :
    NamedPathCandidate :=
  { c with sequence := offset + c.sequence, target := c.target.remap f }

/-- The order of shifted tuples. -/
theorem answer_renumber {g : α → α} {f : ρ → ρ}
    (htuple : ∀ c, tuple (g c) = ((tuple c).1, offset + (tuple c).2))
    (hvisible : ∀ c, visible (g c) = (visible c).map f) (cs : List α) :
    answer tuple visible (cs.map g) = renumbered offset next f (answer tuple visible cs) := by
  let shift : ℕ ×ₗ ℕ → ℕ ×ₗ ℕ := fun k => toLex ((ofLex k).1, offset + (ofLex k).2)
  have hshift : ∀ a b, shift a < shift b ↔ a < b := by
    intro a b
    rw [Prod.Lex.toLex_lt_toLex, Prod.Lex.lt_iff]
    simp
  have hrank : rank tuple ∘ g = shift ∘ rank tuple := by
    funext c
    simp only [rank, Function.comp_apply, htuple]
    rfl
  rw [answer_eq_report, answer_eq_report, Select.choose_map, hrank, Select.choose_mapKey hshift]
  rcases Select.choose (rank tuple) cs with _ | c | k
  · rfl
  · rcases hv : visible c with _ | r <;>
      simp [Select.Choice.map, Select.Choice.mapKey, report, hvisible, hv] <;> rfl
  · rfl

/-- **Values and blanket tombstones.** -/
theorem resolveValue_renumber
    (hentries : ∀ e ∈ entries, KnownAlike context offset next e.sequence)
    (hblankets : ∀ b ∈ blankets, KnownAlike context offset next b.sequence) :
    resolveValue (context.withNext next) (entries.map (·.renumber offset))
        (blankets.map (·.renumber offset)) =
      renumbered offset next (·.renumber offset) (resolveValue context entries blankets) := by
  rw [resolveValue_eq, resolveValue_eq]
  have hcs : collect (valueCandidate (context.withNext next))
      (entries.map (·.renumber offset)) =
      bimap (renumberError offset next) (List.map (·.renumber offset))
        (collect (valueCandidate context) entries) :=
    collect_map fun e he => candidateFrom_renumber (q := id) (hentries e he)
      (validateSourceValuePayload_avoids_numbered e) (by rw [Except.map_id]; rfl) fun _ _ => rfl
  have hbs : collect (blanketCandidate (context.withNext next))
      (blankets.map (·.renumber offset)) =
      bimap (renumberError offset next) (List.map (·.renumber offset))
        (collect (blanketCandidate context) blankets) :=
    collect_map fun b hb => candidateFrom_renumber (q := id) (hblankets b hb)
      (avoids_ok ()) rfl fun _ _ => rfl
  refine bind_renumber validateLayerResolutionContext_avoids_numbered fun _ => ?_
  rw [hcs, hbs]
  refine bimap_bind fun cs _ => bimap_bind fun bs _ => ?_
  rw [← map_append]
  refine answer_renumber (fun _ => rfl) (fun c => ?_) _
  rcases c with ⟨_, _, _ | _⟩ <;> rfl

/-- The target passes the check as before. -/
def CheckedAlike (f : Guid → Guid) (target : PathTarget) : Prop :=
  validatePathTarget (target.remap f) = (validatePathTarget target).map (·.remap f)

theorem pathCandidate_renumber (hseq : KnownAlike context offset next entry.sequence)
    (htarget : CheckedAlike f entry.target) :
    pathCandidate (context.withNext next) (entry.renumber offset f) =
      bimap (renumberError offset next) (Option.map (·.renumber offset f))
        (pathCandidate context entry) :=
  candidateFrom_renumber hseq (validatePathTarget_avoids_numbered _) htarget fun _ _ => rfl

/-- **The entries of one child.** -/
theorem resolvePathEntry_renumber {entries : List PathEntry}
    (hentries : ∀ e ∈ entries, KnownAlike context offset next e.sequence)
    (htargets : ∀ e ∈ entries, CheckedAlike f e.target) :
    resolvePathEntry (context.withNext next) (entries.map (·.renumber offset f)) =
      renumbered offset next (·.renumber offset f) (resolvePathEntry context entries) := by
  rw [resolvePathEntry_eq, resolvePathEntry_eq]
  refine bind_renumber validateLayerResolutionContext_avoids_numbered fun _ => ?_
  rw [collect_map fun e he => pathCandidate_renumber (hentries e he) (htargets e he)]
  refine bimap_bind fun cs _ => answer_renumber (fun _ => rfl) (fun c => ?_) _
  rcases c with ⟨_, _, _ | _⟩ <;> rfl

theorem prevalidate_map {ι' : Type} {candidate' : ι' → LcsResult (Option β)} {m : ι → ι'}
    {φ : LcsError → LcsError} {entries : List ι}
    (h : ∀ e ∈ entries, candidate' (m e) = bimap φ (Option.map g) (candidate e)) :
    prevalidate candidate' (entries.map m) = bimap φ id (prevalidate candidate entries) := by
  rw [prevalidate_eq_collect, prevalidate_eq_collect, collect_map h]
  exact bimap_bind fun _ _ => rfl

/-- **The entries of a key, for one of its children.** -/
theorem resolveNamedPathEntry_renumber {entries : List NamedPathEntry}
    (hentries : ∀ e ∈ entries, KnownAlike context offset next e.entry.sequence)
    (htargets : ∀ e ∈ entries, CheckedAlike f e.entry.target) :
    resolveNamedPathEntry (context.withNext next) requested (entries.map (·.renumber offset f)) =
      renumbered offset next (·.renumber offset f)
        (resolveNamedPathEntry context requested entries) := by
  rw [resolveNamedPathEntry_eq, resolveNamedPathEntry_eq]
  refine bind_renumber validateLayerResolutionContext_avoids_numbered fun _ =>
    bind_renumber (validateKeyLikeName_avoids_numbered _ _) fun requestedName => ?_
  have hpre : prevalidateSubkeyEnumerationSource (context.withNext next)
      (entries.map (·.renumber offset f)) = bimap (renumberError offset next) id
        (prevalidateSubkeyEnumerationSource context entries) :=
    prevalidate_map fun e he => bind_renumber (validateKeyLikeName_avoids_numbered _ _) fun _ =>
      pathCandidate_renumber (hentries e he) (htargets e he)
  have hcs : collect (namedPathCandidate (context.withNext next) requestedName)
      (entries.map (·.renumber offset f)) =
      bimap (renumberError offset next) (List.map (·.renumber offset f))
        (collect (namedPathCandidate context requestedName) entries) := by
    refine collect_map fun e he =>
      bind_renumber (validateKeyLikeName_avoids_numbered _ _) fun name => ?_
    by_cases hname : casefoldEq name requestedName = true
    · rw [if_neg (by simpa using hname), if_neg (by simpa using hname)]
      exact candidateFrom_renumber (hentries e he) (validatePathTarget_avoids_numbered _)
        (htargets e he) fun _ _ => rfl
    · rw [if_pos hname, if_pos hname]
      rfl
  rw [hpre, hcs]
  refine bimap_bind fun _ _ => bimap_bind fun cs _ =>
    answer_renumber (fun _ => rfl) (fun c => ?_) _
  rcases c with ⟨_, _, _, _ | _⟩ <;> rfl

/-! ## Entries that are outnumbered -/

/-- Both layers are active and have one precedence. -/
def SamePrecedence (context : LayerResolutionContext) (layer layer' : Name) : Prop :=
  ∃ active active', activeLayer? context layer = some active ∧
    activeLayer? context layer' = some active' ∧ active.precedence = active'.precedence

theorem answer_insert {before after : List α} (hd : d ∈ before ++ after)
    (h : rank tuple c < rank tuple d) :
    answer tuple visible (before ++ c :: after) = answer tuple visible (before ++ after) := by
  rw [answer_perm perm_middle, answer_eq_report, answer_eq_report, Select.choose_cons_of_lt hd h]

theorem rank_lt_rank (hp : (tuple c).1 = (tuple d).1) (hs : (tuple c).2 < (tuple d).2) :
    rank tuple c < rank tuple d :=
  Prod.Lex.toLex_lt_toLex.mpr (.inr ⟨hp, hs⟩)

/-- The layers and numbers of what decides a value. -/
def valueStamps (entries : List ValueEntry) (blankets : List BlanketTombstoneEntry) :
    List (Name × ℕ) :=
  entries.map (fun e => (e.layer, e.sequence)) ++ blankets.map fun b => (b.layer, b.sequence)

theorem exists_valueCandidate (h : context.Proper) {cs bs : List ValueCandidate}
    {active : ActiveLayer} (hcs : collect (valueCandidate context) entries = .ok cs)
    (hbs : collect (blanketCandidate context) blankets = .ok bs)
    (hmem : (layer, sequence) ∈ valueStamps entries blankets)
    (hactive : activeLayer? context layer = some active) :
    ∃ d ∈ cs ++ bs, d.tuple = (active.precedence, sequence) := by
  rcases mem_append.mp hmem with hmem | hmem
  · obtain ⟨e, he, heq⟩ := mem_map.mp hmem
    cases heq
    obtain ⟨p, hp, -⟩ := exists_of_collect hcs
    have hc := valueCandidate_eq h (valueEntry_sound_of_ok h (hp e he))
    rw [ValueEntry.candidate?, hactive] at hc
    exact ⟨_, mem_append_left _ (mem_of_collect hcs he hc), rfl⟩
  · obtain ⟨b, hb, heq⟩ := mem_map.mp hmem
    cases heq
    obtain ⟨p, hp, -⟩ := exists_of_collect hbs
    have hc := blanketCandidate_eq h (blanket_sound_of_ok h (hp b hb))
    rw [BlanketTombstoneEntry.candidate?, hactive] at hc
    exact ⟨_, mem_append_right _ (mem_of_collect hbs hb hc), rfl⟩

/-- A value that is outnumbered at its precedence does not matter. -/
theorem resolveValue_insert_value {entry : ValueEntry} {before after : List ValueEntry}
    (hs : entry.Sound context) (hp : SamePrecedence context entry.layer layer)
    (hmem : (layer, sequence) ∈ valueStamps (before ++ after) blankets)
    (hlt : entry.sequence < sequence) :
    resolveValue context (before ++ entry :: after) blankets =
      resolveValue context (before ++ after) blankets := by
  obtain ⟨active, active', ha, ha', hprec⟩ := hp
  rw [resolveValue_eq, resolveValue_eq]
  refine bind_congr fun _ hcontext => ?_
  have h := validateLayerResolutionContext_eq_ok.mp hcontext
  have hc := valueCandidate_eq h hs
  rw [ValueEntry.candidate?, ha] at hc
  refine collect_insert hc fun cs cs' hcs => bind_congr fun bs hbs => ?_
  obtain ⟨d, hd, htuple⟩ := exists_valueCandidate h hcs hbs hmem ha'
  rw [append_assoc, append_assoc]
  refine answer_insert (append_assoc .. ▸ hd) (rank_lt_rank ?_ ?_) <;> rw [htuple]
  · exact hprec
  · exact hlt

/-- Nor does a blanket tombstone. -/
theorem resolveValue_insert_blanket {blanket : BlanketTombstoneEntry}
    {before after : List BlanketTombstoneEntry} (hs : blanket.Sound context)
    (hp : SamePrecedence context blanket.layer layer)
    (hmem : (layer, sequence) ∈ valueStamps entries (before ++ after))
    (hlt : blanket.sequence < sequence) :
    resolveValue context entries (before ++ blanket :: after) =
      resolveValue context entries (before ++ after) := by
  obtain ⟨active, active', ha, ha', hprec⟩ := hp
  rw [resolveValue_eq, resolveValue_eq]
  refine bind_congr fun _ hcontext => ?_
  have h := validateLayerResolutionContext_eq_ok.mp hcontext
  have hc := blanketCandidate_eq h hs
  rw [BlanketTombstoneEntry.candidate?, ha] at hc
  refine bind_congr fun cs hcs => collect_insert hc fun bs bs' hbs => ?_
  obtain ⟨d, hd, htuple⟩ := exists_valueCandidate h hcs hbs hmem ha'
  rw [← append_assoc, ← append_assoc]
  refine answer_insert (append_assoc .. ▸ hd) (rank_lt_rank ?_ ?_) <;> rw [htuple]
  · exact hprec
  · exact hlt

/-- Nor an entry of a child. -/
theorem resolvePathEntry_insert {before after : List PathEntry} {rival : PathEntry}
    (hs : entry.Sound context) (hp : SamePrecedence context entry.layer rival.layer)
    (hmem : rival ∈ before ++ after) (hlt : entry.sequence < rival.sequence) :
    resolvePathEntry context (before ++ entry :: after) =
      resolvePathEntry context (before ++ after) := by
  obtain ⟨active, active', ha, ha', hprec⟩ := hp
  rw [resolvePathEntry_eq, resolvePathEntry_eq]
  refine bind_congr fun _ hcontext => ?_
  have h := validateLayerResolutionContext_eq_ok.mp hcontext
  have hc := pathCandidate_eq h hs
  rw [PathEntry.candidate?, ha] at hc
  refine collect_insert hc fun cs cs' hall => ?_
  obtain ⟨p, hsound, -⟩ := exists_of_collect hall
  have hd := pathCandidate_eq h (pathEntry_sound_of_ok h (hsound rival hmem))
  rw [PathEntry.candidate?, ha'] at hd
  exact answer_insert (mem_of_collect hall hmem hd) (rank_lt_rank hprec hlt)

theorem prevalidate_insert {entry : ι} {before after : List ι} {c : Option α}
    (hc : candidate entry = .ok c) :
    prevalidate candidate (before ++ entry :: after) = prevalidate candidate (before ++ after) := by
  unfold prevalidate
  rw [foldlM_append, foldlM_append]
  refine bind_congr fun _ _ => ?_
  rw [foldlM_cons, hc]
  rfl

/-- Nor an entry of a key under the name that is asked for. -/
theorem resolveNamedPathEntry_insert {entry : NamedPathEntry} {before after : List NamedPathEntry}
    {rival : NamedPathEntry} (hs : entry.Sound context)
    (hp : SamePrecedence context entry.entry.layer rival.entry.layer)
    (hmem : rival ∈ before ++ after) (hname : casefoldEq rival.childName entry.childName = true)
    (hlt : entry.entry.sequence < rival.entry.sequence) :
    resolveNamedPathEntry context requested (before ++ entry :: after) =
      resolveNamedPathEntry context requested (before ++ after) := by
  obtain ⟨active, active', ha, ha', hprec⟩ := hp
  rw [resolveNamedPathEntry_eq, resolveNamedPathEntry_eq]
  refine bind_congr fun _ hcontext => bind_congr fun requestedName _ => ?_
  have h := validateLayerResolutionContext_eq_ok.mp hcontext
  have hc := namedPathCandidate_eq h hs requestedName
  have hpre : prevalidateSubkeyEnumerationSource context (before ++ entry :: after) =
      prevalidateSubkeyEnumerationSource context (before ++ after) := by
    refine prevalidate_insert (c := entry.entry.candidate? context) ?_
    rw [validateKeyComponentBytes_of_keyLike hs.1, ok_bind, pathCandidate_eq h hs.2]
  rw [hpre]
  refine bind_congr fun _ hok => ?_
  by_cases hrequested : casefoldEq entry.childName requestedName = true
  · rw [NamedPathEntry.candidate?, if_pos hrequested, ha] at hc
    have hrival : casefoldEq rival.childName requestedName = true := by
      rw [casefoldEq_iff] at hname hrequested ⊢
      exact hname.trans hrequested
    refine collect_insert hc fun cs cs' hall => ?_
    have hd := namedPathCandidate_eq h (sound_of_prevalidateSubkey h hok rival hmem) requestedName
    rw [NamedPathEntry.candidate?, if_pos hrival, ha'] at hd
    exact answer_insert (mem_of_collect hall hmem hd) (rank_lt_rank hprec hlt)
  · -- the entry is not of the name that is asked for
    rw [NamedPathEntry.candidate?, if_neg hrequested] at hc
    rw [collect_append, collect_append, collect, hc]
    rfl

end Pkm.Lcs
