import Pkm.Lib.Scan
import Pkm.Lcs.Model.BackupStream
/-!
# The language of backup streams

The two checkers together accept the words of one regular expression over the
kinds of records. What may still come in a phase is a rest of that expression,
and a record that is accepted leads from one rest to the next.
-/

namespace Pkm.Lcs

open BackupStreamOrderingState Computability Outcome

/-! ## Words of a regular expression -/

section

variable {α : Type} {p : α → Prop} {l m : Language α} {a : α} {w : List α}

/-- The letters that are such. -/
def letters (p : α → Prop) : Language α := {w | ∃ a, p a ∧ w = [a]}

theorem cons_mem_letters_mul : a :: w ∈ letters p * m ↔ p a ∧ w ∈ m := by
  constructor
  · rintro ⟨_, ⟨b, hb, rfl⟩, v, hv, heq⟩
    cases heq
    exact ⟨hb, hv⟩
  · exact fun ⟨ha, hw⟩ => ⟨[a], ⟨a, ha, rfl⟩, w, hw, rfl⟩

theorem mem_kstar_mul : w ∈ l∗ * m ↔ w ∈ m ∨ w ∈ l * (l∗ * m) := by
  conv_lhs => rw [← Language.one_add_self_mul_kstar_eq_kstar, add_mul, one_mul, mul_assoc]
  rfl

theorem nil_notMem_mul (h : [] ∉ m) : [] ∉ l * m := by
  intro hlm
  obtain ⟨_, -, b, hb, heq⟩ := Language.mem_mul.mp hlm
  exact h ((List.append_eq_nil_iff.mp heq).2 ▸ hb)

end

def BackupRecordKind.isUnknown : BackupRecordKind → Bool
  | .unknown _ => true
  | _ => false

namespace BackupStreams

/-- Any number of records of a kind, and unknown ones among them. -/
def run (kind : BackupRecordKind) : Language BackupRecordKind :=
  (letters fun k => k = kind ∨ k.isUnknown = true)∗

def one (kind : BackupRecordKind) : Language BackupRecordKind := letters (· = kind)

/-- A key and what belongs to it. -/
def keySection : Language BackupRecordKind :=
  one .key * run .pathEntry * run .value * run .blanketTombstone

/-- Whole streams. -/
def streams : Language BackupRecordKind :=
  one .header * run .layerManifest * keySection∗ * one .trailer

/-- What may still come in a phase. -/
def rest : BackupStreamOrderingPhase → Language BackupRecordKind
  | .beforeKeyData => run .layerManifest * (keySection∗ * one .trailer)
  | .pathEntries =>
    run .pathEntry * (run .value * (run .blanketTombstone * (keySection∗ * one .trailer)))
  | .values => run .value * (run .blanketTombstone * (keySection∗ * one .trailer))
  | .blanketTombstones => run .blanketTombstone * (keySection∗ * one .trailer)

variable {kind k : BackupRecordKind} {w : List BackupRecordKind} {m : Language BackupRecordKind}
  {phase : BackupStreamOrderingPhase}

theorem cons_mem_run_mul :
    k :: w ∈ run kind * m ↔ k :: w ∈ m ∨ (k = kind ∨ k.isUnknown = true) ∧ w ∈ run kind * m := by
  rw [run, mem_kstar_mul, cons_mem_letters_mul]

theorem cons_mem_sections :
    k :: w ∈ keySection∗ * one .trailer ↔
      k = .trailer ∧ w = [] ∨ k = .key ∧ w ∈ rest .pathEntries := by
  have htrailer : k :: w ∈ one .trailer ↔ k = .trailer ∧ w = [] := by
    rw [← mul_one (one .trailer), one, cons_mem_letters_mul, Language.mem_one]
  have hsection : ∀ m, keySection * m =
      one .key * (run .pathEntry * (run .value * (run .blanketTombstone * m))) := fun m => by
    simp only [keySection, mul_assoc]
  rw [mem_kstar_mul, htrailer, hsection, one, cons_mem_letters_mul]
  rfl

theorem nil_notMem_rest : [] ∉ rest phase := by
  have hsections : [] ∉ keySection∗ * one .trailer := nil_notMem_mul fun ⟨_, _, h⟩ => nomatch h
  cases phase with
  | beforeKeyData | blanketTombstones => exact nil_notMem_mul hsections
  | values => exact nil_notMem_mul (nil_notMem_mul hsections)
  | pathEntries => exact nil_notMem_mul (nil_notMem_mul (nil_notMem_mul hsections))

/-- **One record** leads from what may come to what may come after it. -/
theorem cons_mem_rest (s : BackupStreamOrderingState) (index n : ℕ) :
    k :: w ∈ rest s.phase ↔ k = .trailer ∧ w = [] ∨ k ≠ .header ∧ k ≠ .trailer ∧
      validateOrder s.phase k index = .ok () ∧
      w ∈ rest (s.record k n).phase := by
  obtain ⟨phase, counts⟩ := s
  have hvalues : w ∈ rest .blanketTombstones → w ∈ rest .values :=
    fun h => mem_kstar_mul.mpr (.inl h)
  have hpaths : w ∈ rest .values → w ∈ rest .pathEntries := fun h => mem_kstar_mul.mpr (.inl h)
  cases phase <;> cases k <;>
    simp [rest, cons_mem_run_mul, cons_mem_sections, record] <;> tauto

/-! ## The checkers -/

/-- Both checkers accept every record. -/
def Accepted (env : BackupStreamEnvelopeState) (s : BackupStreamOrderingState)
    (kinds : List BackupRecordKind) (env' : BackupStreamEnvelopeState)
    (s' : BackupStreamOrderingState) : Prop :=
  kinds.foldlM BackupStreamEnvelopeState.observeRecord env = .ok env' ∧
    kinds.foldlM observeRecord s = .ok s'

/-- The counts of a stream, on top of others. -/
def tally (counts : BackupStreamOrderingSummary) (kinds : List BackupRecordKind) :
    BackupStreamOrderingSummary :=
  ⟨counts.recordCount + kinds.length, counts.layerManifestCount + kinds.count .layerManifest,
    counts.keyCount + kinds.count .key, counts.pathEntryCount + kinds.count .pathEntry,
    counts.valueCount + kinds.count .value,
    counts.blanketTombstoneCount + kinds.count .blanketTombstone,
    counts.unknownCount + kinds.countP (·.isUnknown)⟩

variable {env env' : BackupStreamEnvelopeState} {s s' : BackupStreamOrderingState}
  {kind : BackupRecordKind} {kinds : List BackupRecordKind}

theorem accepted_nil : Accepted env s [] env' s' ↔ env = env' ∧ s = s' := by
  simp [Accepted]

/-- **One record.** -/
theorem accepted_cons : Accepted env s (kind :: kinds) env' s' ↔
    env.trailerSeen = false ∧ (env.recordsSeen = 0 ↔ kind = .header) ∧
      env.recordsSeen + 1 < 2 ^ 64 ∧ s.summary.recordCount + 1 < 2 ^ 64 ∧
      validateOrder s.phase kind s.summary.recordCount = .ok () ∧
      Accepted ⟨env.recordsSeen + 1, env.headerSeen || kind = .header, kind = .trailer⟩
        (s.record kind (s.summary.recordCount + 1)) kinds env' s' := by
  have hnext : ∀ n n', nextRecord n = .ok n' ↔ n + 1 < 2 ^ 64 ∧ n + 1 = n' := fun n n' => by
    unfold nextRecord
    split <;> simp_all
  simp only [Accepted, List.foldlM_cons, bind_eq_ok, BackupStreamEnvelopeState.observeRecord,
    observeRecord, ite_error_eq_ok, hnext]
  constructor
  · rintro ⟨⟨_, ⟨htrailer, hfirst, hlater, _, ⟨hfits, rfl⟩, henv⟩, hkinds⟩,
      ⟨_, ⟨_, hvalid, _, ⟨hfits', rfl⟩, hs⟩, hkinds'⟩⟩
    cases henv
    cases hs
    rw [Bool.not_eq_true] at htrailer
    rw [htrailer] at hkinds
    exact ⟨htrailer, by tauto, hfits, hfits', hvalid, hkinds, hkinds'⟩
  · rintro ⟨htrailer, hfirst, hfits, hfits', hvalid, hkinds, hkinds'⟩
    rw [← Bool.false_or (decide (kind = .trailer)), ← htrailer] at hkinds
    exact ⟨⟨_, ⟨by simp [htrailer], by tauto, by tauto, _, ⟨hfits, rfl⟩, rfl⟩, hkinds⟩,
      ⟨_, ⟨(), hvalid, _, ⟨hfits', rfl⟩, rfl⟩, hkinds'⟩⟩

theorem Accepted.counts (h : Accepted env s kinds env' s') :
    env'.recordsSeen = env.recordsSeen + kinds.length ∧ s'.summary = tally s.summary kinds := by
  induction kinds generalizing env s with
  | nil =>
    obtain ⟨rfl, rfl⟩ := accepted_nil.mp h
    exact ⟨rfl, rfl⟩
  | cons kind kinds ih =>
    obtain ⟨-, -, -, -, -, h⟩ := accepted_cons.mp h
    obtain ⟨henv, hs⟩ := ih h
    rw [henv, hs, List.length_cons]
    refine ⟨by simp only; omega, ?_⟩
    cases kind <;> simp [record, tally, BackupRecordKind.isUnknown, Nat.add_assoc, Nat.add_comm 1]

/-- **From the header on**, the checkers accept what may come in the phase. -/
theorem accepted_rest_iff {n : ℕ} (kinds) (hn : s.summary.recordCount = n + 1) :
    (∃ env s', Accepted ⟨n + 1, true, false⟩ s kinds env s' ∧
        env.headerSeen = true ∧ env.trailerSeen = true) ↔
      kinds ∈ rest s.phase ∧ n + 1 + kinds.length < 2 ^ 64 := by
  induction kinds generalizing n s with
  | nil =>
    refine iff_of_false ?_ fun h => nil_notMem_rest h.1
    rintro ⟨_, _, h, -, htrailer⟩
    rw [← (accepted_nil.mp h).1] at htrailer
    cases htrailer
  | cons kind kinds ih =>
    have hcount : (s.record kind (n + 2)).summary.recordCount = n + 2 := by cases kind <;> rfl
    rw [cons_mem_rest s (n + 1) (n + 2), List.length_cons]
    simp only [accepted_cons, hn]
    constructor
    · rintro ⟨env, s', ⟨-, hheader, hfits, -, hvalid, h⟩, hseen⟩
      have hne : kind ≠ .header := fun hk => Nat.succ_ne_zero n (hheader.mpr hk)
      by_cases htrailer : kind = .trailer
      · cases kinds with
        | nil => exact ⟨.inl ⟨htrailer, rfl⟩, hfits⟩
        | cons next kinds => simp [accepted_cons, htrailer] at h
      · obtain ⟨hmem, hlen⟩ := (ih hcount).mp ⟨env, s', by simpa [htrailer] using h, hseen⟩
        exact ⟨.inr ⟨hne, htrailer, hvalid, hmem⟩, by omega⟩
    · rintro ⟨⟨rfl, rfl⟩ | ⟨hne, htrailer, hvalid, hmem⟩, hlen⟩
      · refine ⟨_, _, ⟨trivial, by simp, hlen, hlen, ?_, accepted_nil.mpr ⟨rfl, rfl⟩⟩, rfl, rfl⟩
        cases s.phase <;> rfl
      · obtain ⟨env, s', h, hseen⟩ := (ih hcount).mpr ⟨hmem, by omega⟩
        exact ⟨env, s', ⟨trivial, by simp [hne], by omega, by omega, hvalid,
          by simpa [htrailer] using h⟩, hseen⟩

theorem accepted_stream_iff :
    (∃ env s, Accepted .new .new kinds env s ∧ env.headerSeen = true ∧ env.trailerSeen = true) ↔
      kinds ∈ streams ∧ kinds.length < 2 ^ 64 := by
  have hstreams : streams = one .header * rest .beforeKeyData := by
    simp only [streams, rest, mul_assoc]
  rw [hstreams]
  cases kinds with
  | nil =>
    refine iff_of_false ?_ fun h => nil_notMem_mul nil_notMem_rest h.1
    rintro ⟨_, _, h, hheader, -⟩
    rw [← (accepted_nil.mp h).1] at hheader
    cases hheader
  | cons kind kinds =>
    have hrest := accepted_rest_iff (s := new.record .header 1) kinds (Nat.zero_add 1).symm
    rw [one, cons_mem_letters_mul, List.length_cons, Nat.add_comm, and_assoc]
    simp only [accepted_cons]
    constructor
    · rintro ⟨env, s', ⟨-, hheader, -, -, -, h⟩, hseen⟩
      obtain rfl := hheader.mp rfl
      exact ⟨rfl, hrest.mp ⟨env, s', h, hseen⟩⟩
    · rintro ⟨rfl, hmem⟩
      obtain ⟨env, s', h, hseen⟩ := hrest.mpr hmem
      exact ⟨env, s', ⟨rfl, by simp [BackupStreamEnvelopeState.new], by decide, by decide, rfl, h⟩,
        hseen⟩

/-- **A backup stream is accepted exactly if it is of the language**, its trailer has the number of
its records and the checksums agree. The summaries then have the number of each kind. -/
theorem backup_stream_language (kinds : List BackupRecordKind) (trailer : BackupTrailerPayload)
    (computedChecksum : BackupChecksum) :
    ((∃ env s summary, Accepted .new .new kinds env s ∧
        env.finish trailer computedChecksum = .ok summary) ↔
      kinds ∈ streams ∧ trailer.recordCount.toNat = kinds.length ∧
        trailer.checksum = computedChecksum) ∧
    ∀ env s summary, Accepted .new .new kinds env s →
      env.finish trailer computedChecksum = .ok summary →
      summary.recordCount = kinds.length ∧
        s.summary = ⟨kinds.length, kinds.count .layerManifest, kinds.count .key,
          kinds.count .pathEntry, kinds.count .value, kinds.count .blanketTombstone,
          kinds.countP (·.isUnknown)⟩ := by
  have hfinish : ∀ (env : BackupStreamEnvelopeState) (summary : BackupStreamEnvelopeSummary),
      env.finish trailer computedChecksum = .ok summary ↔
        env.headerSeen = true ∧ env.trailerSeen = true ∧
          trailer.recordCount.toNat = env.recordsSeen ∧ trailer.checksum = computedChecksum ∧
          ⟨env.recordsSeen⟩ = summary := fun env summary => by
    simp only [BackupStreamEnvelopeState.finish, ite_error_eq_ok, not_not, Except.ok.injEq]
  have hseen : ∀ {env s}, Accepted .new .new kinds env s → env.recordsSeen = kinds.length :=
    fun h => h.counts.1.trans (Nat.zero_add _)
  refine ⟨⟨?_, ?_⟩, fun env s summary h hfin => ?_⟩
  · rintro ⟨env, s, summary, h, hfin⟩
    obtain ⟨hheader, htrailer, hcount, hsum, -⟩ := (hfinish env summary).mp hfin
    exact ⟨(accepted_stream_iff.mp ⟨env, s, h, hheader, htrailer⟩).1, hcount.trans (hseen h), hsum⟩
  · rintro ⟨hmem, hcount, hsum⟩
    obtain ⟨env, s, h, hheader, htrailer⟩ :=
      accepted_stream_iff.mpr ⟨hmem, hcount ▸ trailer.recordCount.isLt⟩
    exact ⟨env, s, _, h, (hfinish env _).mpr
      ⟨hheader, htrailer, hcount.trans (hseen h).symm, hsum, rfl⟩⟩
  · obtain ⟨-, -, -, -, rfl⟩ := (hfinish env summary).mp hfin
    refine ⟨hseen h, h.counts.2.trans ?_⟩
    simp [new, tally]

end BackupStreams

end Pkm.Lcs
