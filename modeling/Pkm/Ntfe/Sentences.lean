import Pkm.Ntfe.Model.Flow
/-!
# No stale sentence is served

The advances of the generation form a log, and a stamp is a place in it. A sentence is stamped
with the place its judge had seen when it took its snapshot, and with that of its policy. The
judge read the context afterwards, so every context that had advanced the generation by then
was already in place. A dispatch that accepts the sentence has seen the same place, as long as
the generation has not gone round (`run_fresh`).
-/

namespace Pkm.Ntfe

open List

variable {F N X V : Type} {eval : F → ℕ → X → Option N → Option (V × ℤ)}

/-- A context table that was read after some advances had been seen: it is one of those that
have been active, and none that had advanced the generation by then is newer. -/
structure ReadSince (log : List (Advance F)) (swaps : List (Option (ContextTable N))) (seen : ℕ)
    (context : Option (ContextTable N)) (version : ℕ) : Prop where
  le : seen ≤ log.length
  mem : swaps[version]? = some context
  since : ∀ v, .context v ∈ log.take seen → v ≤ version

/-- What is promised of a sentence that a dispatch accepts: it was judged by the forest of the
dispatch's snapshot, with a context at least as new as any that had advanced the generation by
the time of the snapshot, and it has not expired. -/
structure Fresh (eval : F → ℕ → X → Option N → Option (V × ℤ)) (log : List (Advance F))
    (swaps : List (Option (ContextTable N))) (a : Acceptance F N X V) : Prop where
  verdict : eval a.sentence.judged.forest a.sentence.judged.reportingLevel
    a.sentence.judged.packet.facts
    (contextFill a.sentence.judged.context a.sentence.judged.packet.ifname) =
      some (a.sentence.verdict, a.sentence.expiresAt)
  forest : a.snapshot.forest = some a.sentence.judged.forest
  context : ReadSince log swaps a.snapshot.seen a.sentence.judged.context a.sentence.judged.version
  expiry : a.sentence.expiresAt ≠ 0 → a.packet.tSecs < a.sentence.expiresAt

/-! ## Stamps -/

section

variable {log log' : List (Advance F)} {swaps swaps' : List (Option (ContextTable N))}
  {p : Policy F} {snap : PolicySnapshot F} {x : Sentence F N X V}

/-- A policy bears the place of its own advance. -/
def Known (log : List (Advance F)) (p : Policy F) : Prop :=
  ∃ n, log[n]? = some (.policy p) ∧ p.generation = BitVec.ofNat 64 (n + 1)

structure SnapOk (log : List (Advance F)) (snap : PolicySnapshot F) : Prop where
  known : ∀ p, snap.policy = some p → Known log p
  le : snap.seen ≤ log.length
  stamp : snap.cacheGeneration = BitVec.ofNat 64 snap.seen

structure SentenceOk (eval : F → ℕ → X → Option N → Option (V × ℤ)) (log : List (Advance F))
    (swaps : List (Option (ContextTable N))) (x : Sentence F N X V) : Prop where
  verdict : eval x.judged.forest x.judged.reportingLevel x.judged.packet.facts
    (contextFill x.judged.context x.judged.packet.ifname) = some (x.verdict, x.expiresAt)
  policy : ∃ p, Known log p ∧ p.forest = some x.judged.forest ∧ p.generation = x.policyGeneration
  stamp : x.generation = BitVec.ofNat 64 x.judged.seen
  read : ReadSince log swaps x.judged.seen x.judged.context x.judged.version

/-- What a process knows, where it stands. -/
def ProcOk (eval : F → ℕ → X → Option N → Option (V × ℤ)) (log : List (Advance F))
    (swaps : List (Option (ContextTable N))) : FlowProc F N X V → Prop
  | .policyAdvanced p => Known log p
  | .contextSwapped v => v < swaps.length
  | .policyRead _ policy => ∀ p, policy = some p → Known log p
  | .snapshotTaken _ snap => SnapOk log snap
  | .missed _ snap => SnapOk log snap
  | .contextRead _ snap context v => SnapOk log snap ∧ ReadSince log swaps snap.seen context v
  | .judged _ snap x => SnapOk log snap ∧ SentenceOk eval log swaps x
  | .answered _ snap => SnapOk log snap
  | _ => True

theorem getElem?_of_isPrefix {α : Type*} {l l' : List α} (h : l <+: l') {n : ℕ} {a : α}
    (ha : l[n]? = some a) : l'[n]? = some a := by
  obtain ⟨t, rfl⟩ := h
  rw [getElem?_append_left (List.getElem?_eq_some_iff.mp ha).1, ha]

section

variable (hlog : log <+: log')

include hlog

theorem Known.mono (h : Known log p) : Known log' p := by
  obtain ⟨n, hn, hstamp⟩ := h
  exact ⟨n, getElem?_of_isPrefix hlog hn, hstamp⟩

theorem SnapOk.mono (h : SnapOk log snap) : SnapOk log' snap :=
  ⟨fun p hp => (h.known p hp).mono hlog, Nat.le_trans h.le hlog.length_le, h.stamp⟩

theorem ReadSince.mono (hswaps : swaps <+: swaps') {seen version : ℕ}
    {context : Option (ContextTable N)} (h : ReadSince log swaps seen context version) :
    ReadSince log' swaps' seen context version where
  le := Nat.le_trans h.le hlog.length_le
  mem := getElem?_of_isPrefix hswaps h.mem
  since := by
    obtain ⟨t, rfl⟩ := hlog
    rw [take_append_of_le_length h.le]
    exact h.since

theorem SentenceOk.mono (hswaps : swaps <+: swaps')
    (h : SentenceOk eval log swaps x) : SentenceOk eval log' swaps' x where
  verdict := h.verdict
  policy := by
    obtain ⟨p, hp, hforest⟩ := h.policy
    exact ⟨p, hp.mono hlog, hforest⟩
  stamp := h.stamp
  read := h.read.mono hlog hswaps

theorem ProcOk.mono (hswaps : swaps <+: swaps') {proc : FlowProc F N X V}
    (h : ProcOk eval log swaps proc) : ProcOk eval log' swaps' proc := by
  cases proc with
  | policyAdvanced p => exact Known.mono hlog h
  | contextSwapped v => exact Nat.lt_of_lt_of_le h hswaps.length_le
  | policyRead _ policy => exact fun p hp => (h p hp).mono hlog
  | snapshotTaken _ snap => exact SnapOk.mono hlog h
  | missed _ snap => exact SnapOk.mono hlog h
  | contextRead _ snap context v => exact ⟨h.1.mono hlog, h.2.mono hlog hswaps⟩
  | judged _ snap x => exact ⟨h.1.mono hlog, h.2.mono hlog hswaps⟩
  | answered _ snap => exact SnapOk.mono hlog h
  | idle | policyLocked | policySwapped | contextLocked | contextAdvanced => trivial

theorem Fresh.mono (hswaps : swaps <+: swaps') {a : Acceptance F N X V}
    (h : Fresh eval log swaps a) : Fresh eval log' swaps' a :=
  ⟨h.verdict, h.forest, h.context.mono hlog hswaps, h.expiry⟩

end

/-- Stamps of the same generation are the same place, while the generation has not gone round. -/
theorem eq_of_ofNat_eq {m n : ℕ} (hm : m < 2 ^ 64) (hn : n < 2 ^ 64)
    (h : BitVec.ofNat 64 m = BitVec.ofNat 64 n) : m = n := by
  have htoNat := congrArg BitVec.toNat h
  rwa [BitVec.toNat_ofNat, BitVec.toNat_ofNat, Nat.mod_eq_of_lt hm, Nat.mod_eq_of_lt hn] at htoNat

theorem Known.eq {q : Policy F} (hbound : log.length < 2 ^ 64) (hp : Known log p)
    (hq : Known log q) (h : p.generation = q.generation) : p = q := by
  obtain ⟨m, hm, hpm⟩ := hp
  obtain ⟨n, hn, hqn⟩ := hq
  have hmlt := (List.getElem?_eq_some_iff.mp hm).1
  have hnlt := (List.getElem?_eq_some_iff.mp hn).1
  have hplace : m + 1 = n + 1 := eq_of_ofNat_eq (by omega) (by omega) (hpm.symm.trans (h.trans hqn))
  obtain rfl : m = n := by omega
  exact Advance.policy.inj (Option.some.inj (hm.symm.trans hn))

theorem Known.generation_ne_zero (hbound : log.length < 2 ^ 64) (hp : Known log p) :
    p.generation ≠ 0 := by
  obtain ⟨n, hn, hstamp⟩ := hp
  have hlt := (List.getElem?_eq_some_iff.mp hn).1
  intro hzero
  have hplace : n + 1 = 0 := eq_of_ofNat_eq (by omega) (by decide) (hstamp.symm.trans hzero)
  omega

/-- **A current sentence is fresh**: it was judged under the policy of the snapshot, at the place
that the snapshot has seen. -/
theorem SentenceOk.fresh (hbound : log.length < 2 ^ 64) (hx : SentenceOk eval log swaps x)
    (hsnap : SnapOk log snap) {packet : Packet X} (h : sentenceCurrent x snap packet.tSecs = true) :
    Fresh eval log swaps ⟨packet, snap, x⟩ := by
  simp only [sentenceCurrent, Bool.and_eq_true, beq_iff_eq, Bool.not_eq_true',
    Bool.and_eq_false_iff, bne_eq_false_iff_eq, decide_eq_false_iff_not] at h
  obtain ⟨⟨hgeneration, hpolicy⟩, hexpiry⟩ := h
  have hseen : x.judged.seen = snap.seen :=
    eq_of_ofNat_eq (Nat.lt_of_le_of_lt hx.read.le hbound) (Nat.lt_of_le_of_lt hsnap.le hbound)
      (hx.stamp.symm.trans (hgeneration.trans hsnap.stamp))
  refine ⟨hx.verdict, ?_, hseen ▸ hx.read, fun hne => ?_⟩
  · obtain ⟨p, hp, hforest, hp'⟩ := hx.policy
    rw [← hp', PolicySnapshot.generation] at hpolicy
    rcases hq : snap.policy with _ | q
    · -- without a policy there is no sentence to accept
      rw [hq] at hpolicy
      exact absurd hpolicy (hp.generation_ne_zero hbound)
    · rw [hq] at hpolicy
      obtain rfl := hp.eq hbound (hsnap.known q hq) hpolicy
      show snap.forest = some x.judged.forest
      rw [PolicySnapshot.forest, hq]
      exact hforest
  · have hnot := hexpiry.resolve_left hne
    show packet.tSecs < x.expiresAt
    omega

end

/-! ## The invariant -/

structure FlowInv (eval : F → ℕ → X → Option N → Option (V × ℤ)) (s : FlowState F N X V) :
    Prop where
  stamp : s.generation = BitVec.ofNat 64 s.log.length
  context : s.swaps.getLast? = some s.context
  advanced : ∀ v, .context v ∈ s.log → v < s.swaps.length
  active : ∀ p, s.active = some p → Known s.log p
  procs : ∀ pid, ProcOk eval s.log s.swaps (s.procs pid)
  sentences : ∀ slot x, s.sentences slot = some x → SentenceOk eval s.log s.swaps x
  accepted : s.log.length < 2 ^ 64 → ∀ a ∈ s.accepted, Fresh eval s.log s.swaps a

namespace FlowInv

variable {s s' : FlowState F N X V} {pid : ℕ} {fault : Bool} {slot : Option Slot}
  {x : Sentence F N X V}

theorem init : FlowInv eval (FlowState.init : FlowState F N X V) where
  stamp := rfl
  context := rfl
  advanced := fun _ h => absurd h not_mem_nil
  active := nofun
  procs := fun _ => trivial
  sentences := nofun
  accepted := fun _ _ h => absurd h not_mem_nil

section

variable (h : FlowInv eval s)

include h

theorem goto {proc : FlowProc F N X V}
    (hproc : ProcOk eval s.log s.swaps proc) : FlowInv eval (s.goto pid proc) :=
  { h with
    procs := (Function.forall_update_iff s.procs fun _ => ProcOk eval s.log s.swaps).mpr
      ⟨hproc, fun q _ => h.procs q⟩ }

theorem publishLock (lock : Option ℕ) : FlowInv eval { s with publishLock := lock } := { h with }

theorem contextLock (lock : Option ℕ) : FlowInv eval { s with contextLock := lock } := { h with }

theorem activate {p : Policy F} (hp : Known s.log p) : FlowInv eval { s with active := some p } :=
  { h with active := fun _ hq => Option.some.inj hq ▸ hp }

/-- The log and the contexts that have been active only grow. -/
theorem extend {generation : BitVec 64} {context : Option (ContextTable N)}
    {log : List (Advance F)} {swaps : List (Option (ContextTable N))} (hlog : s.log <+: log)
    (hswaps : s.swaps <+: swaps) (hstamp : generation = BitVec.ofNat 64 log.length)
    (hcontext : swaps.getLast? = some context)
    (hadvanced : ∀ v, .context v ∈ log → v < swaps.length) :
    FlowInv eval { s with generation, context, log, swaps } where
  stamp := hstamp
  context := hcontext
  advanced := hadvanced
  active := fun p hp => (h.active p hp).mono hlog
  procs := fun q => (h.procs q).mono hlog hswaps
  sentences := fun slot x hx => (h.sentences slot x hx).mono hlog hswaps
  accepted := fun hbound a ha =>
    (h.accepted (Nat.lt_of_le_of_lt hlog.length_le hbound) a ha).mono hlog hswaps

theorem generationAdvance {advance : Advance F}
    (hcontext : ∀ v, advance = .context v → v < s.swaps.length) :
    FlowInv eval (s.generationAdvance advance) := by
  refine h.extend (prefix_append ..) (prefix_refl _) ?_ h.context fun v hv => ?_
  · rw [h.stamp, length_append, BitVec.ofNat_add]
    rfl
  · rcases mem_append.mp hv with hv | hv
    · exact h.advanced v hv
    · exact hcontext v (mem_singleton.mp hv).symm

theorem swap (table : Option (ContextTable N)) :
    FlowInv eval { s with context := table, swaps := s.swaps ++ [table] } := by
  have hswaps : s.swaps <+: s.swaps ++ [table] := prefix_append ..
  exact h.extend (prefix_refl _) hswaps h.stamp getLast?_concat
    fun v hv => Nat.lt_of_lt_of_le (h.advanced v hv) hswaps.length_le

end

theorem log_sentenceWrite (slot : Option Slot) (x : Sentence F N X V) :
    (s.sentenceWrite slot x).log = s.log := by
  cases slot <;> rfl

theorem sentenceWrite (h : FlowInv eval s) (hx : SentenceOk eval s.log s.swaps x)
    (slot : Option Slot) : FlowInv eval (s.sentenceWrite slot x) := by
  cases slot with
  | none => exact h
  | some slot =>
    exact { h with
      sentences := (Function.forall_update_iff s.sentences fun _ x =>
        ∀ y, x = some y → SentenceOk eval s.log s.swaps y).mpr
          ⟨fun _ hy => Option.some.inj hy ▸ hx, fun slot _ => h.sentences slot⟩ }

theorem of_sentenceRead (h : FlowInv eval s) (hread : s.sentenceRead slot fault = some x) :
    SentenceOk eval s.log s.swaps x := by
  unfold FlowState.sentenceRead at hread
  split at hread
  · cases hread
  · obtain ⟨hx, -⟩ := Option.filter_eq_some_iff.mp hread
    obtain ⟨slot, -, hx⟩ := Option.bind_eq_some_iff.mp hx
    exact h.sentences slot x hx

theorem accept (h : FlowInv eval s) {packet : Packet X} {snap : PolicySnapshot F}
    (hsnap : SnapOk s.log snap) (hread : s.sentenceRead slot fault = some x)
    (hcurrent : sentenceCurrent x snap packet.tSecs = true) :
    FlowInv eval (s.accept packet snap x) :=
  { h with
    accepted := fun hbound => forall_mem_append.mpr ⟨h.accepted hbound,
      forall_mem_singleton.mpr ((h.of_sentenceRead hread).fresh hbound hsnap hcurrent)⟩ }

/-- The context that is read now is at least as new as all that have advanced the generation. -/
theorem readSince (h : FlowInv eval s) {seen : ℕ} (hle : seen ≤ s.log.length) :
    ReadSince s.log s.swaps seen s.context (s.swaps.length - 1) where
  le := hle
  mem := by
    rw [← getLast?_eq_getElem?]
    exact h.context
  since := by
    intro v hv
    have hlt := h.advanced v (mem_of_mem_take hv)
    omega

end FlowInv

/-! ## Steps -/

section

variable {s s' : FlowState F N X V} {pid : ℕ} {fault : Bool}

theorem flowJudge_ok {log : List (Advance F)} {swaps : List (Option (ContextTable N))}
    {packet : Packet X} {snap : PolicySnapshot F} {context : Option (ContextTable N)}
    {version : ℕ} {x : Sentence F N X V} (hsnap : SnapOk log snap)
    (hread : ReadSince log swaps snap.seen context version)
    (h : flowJudge eval packet snap context version = some x) : SentenceOk eval log swaps x := by
  obtain ⟨forest, hforest, h⟩ := Option.bind_eq_some_iff.mp h
  obtain ⟨⟨verdict, expiresAt⟩, heval, h⟩ := Option.bind_eq_some_iff.mp h
  cases h
  refine ⟨heval, ?_, hsnap.stamp, hread⟩
  obtain ⟨p, hp, hforest⟩ := Option.bind_eq_some_iff.mp hforest
  refine ⟨p, hsnap.known p hp, hforest, ?_⟩
  show p.generation = snap.generation
  rw [PolicySnapshot.generation, hp]
  rfl

theorem FlowInv.start {task : FlowTask F N X} (h : FlowInv eval s)
    (hs : s.start pid task = some s') : FlowInv eval s' := by
  cases task with
  | policyPublish forest reportingLevel =>
    rw [FlowState.start] at hs
    split at hs
    · cases hs
    · cases hs
      exact (h.publishLock _).goto trivial
  | contextPublish table =>
    rw [FlowState.start] at hs
    split at hs
    · cases hs
      exact h
    · split at hs
      · cases hs
      · cases hs
        exact (h.contextLock _).goto trivial
  | flowDispatch packet =>
    cases hs
    exact h.goto h.active

variable [DecidableEq N]

theorem FlowInv.next (h : FlowInv eval s) (hs : s.next eval pid fault = some s') :
    FlowInv eval s' := by
  have hproc := h.procs pid
  rw [FlowState.next] at hs
  rcases hp : s.procs pid with _ | ⟨forest, level⟩ | fresh | _ | table | version | _ |
    ⟨packet, policy⟩ | ⟨packet, snap⟩ | ⟨packet, snap⟩ | ⟨packet, snap, context, version⟩ |
    ⟨packet, snap, x⟩ | ⟨packet, snap⟩ <;> rw [hp] at hs hproc <;> dsimp only at hs
  case idle => cases hs
  case policyLocked =>
    split at hs
    · cases hs
      exact (h.publishLock none).goto trivial
    · cases hs
      have hnone : ∀ v, Advance.policy ⟨forest, level, s.generation + 1⟩ = .context v →
          v < s.swaps.length := fun _ hv => by cases hv
      refine (h.generationAdvance hnone).goto ⟨s.log.length, ?_, ?_⟩
      · exact getElem?_concat_length
      · show s.generation + 1 = _
        rw [h.stamp, BitVec.ofNat_add]
        rfl
  case policyAdvanced =>
    cases hs
    exact (h.activate hproc).goto trivial
  case policySwapped =>
    cases hs
    exact (h.publishLock none).goto trivial
  case contextLocked =>
    split at hs
    · cases hs
      exact (h.contextLock none).goto trivial
    · cases hs
      refine (h.swap table).goto ?_
      show s.swaps.length < (s.swaps ++ [table]).length
      rw [length_append, length_singleton]
      omega
  case contextSwapped =>
    cases hs
    exact (h.generationAdvance fun v hv => Advance.context.inj hv ▸ hproc).goto trivial
  case contextAdvanced =>
    cases hs
    exact (h.contextLock none).goto trivial
  case policyRead =>
    cases hs
    exact h.goto ⟨hproc, Nat.le_refl _, h.stamp⟩
  case snapshotTaken =>
    split at hs
    · cases hs
      exact h.goto hproc
    · rename_i x hread
      split at hs
      · rename_i hcurrent
        cases hs
        exact (h.accept hproc hread hcurrent).goto hproc
      · cases hs
        exact h.goto hproc
  case missed =>
    cases hs
    exact h.goto ⟨hproc, h.readSince hproc.le⟩
  case contextRead =>
    split at hs
    · cases hs
      exact h.goto trivial
    · rename_i x hjudge
      cases hs
      split at hjudge
      · cases hjudge
      · exact h.goto ⟨hproc.1, flowJudge_ok hproc.1 hproc.2 hjudge⟩
  case judged =>
    cases hs
    refine (h.sentenceWrite hproc.2 packet.ownSlot).goto ?_
    show SnapOk (s.sentenceWrite packet.ownSlot x).log snap
    rw [FlowInv.log_sentenceWrite]
    exact hproc.1
  case answered =>
    split at hs
    · cases hs
      exact h.goto trivial
    · rename_i x hread
      split at hs
      · rename_i hcurrent
        cases hs
        exact (h.accept hproc hread hcurrent).goto trivial
      · cases hs
        exact h.goto trivial

theorem FlowInv.step {action : FlowAction F N X} (h : FlowInv eval s)
    (hs : s.step eval pid action = some s') : FlowInv eval s' := by
  cases action with
  | start task =>
    rw [FlowState.step] at hs
    split at hs
    · exact h.start hs
    · cases hs
  | next fault => exact h.next hs

theorem FlowInv.run {events : List (ℕ × FlowAction F N X)} (h : FlowInv eval s)
    (hs : s.run eval events = some s') : FlowInv eval s' := by
  induction events generalizing s with
  | nil => exact Option.some.inj hs ▸ h
  | cons e events ih =>
    obtain ⟨mid, hmid, hs⟩ := Option.bind_eq_some_iff.mp hs
    exact ih (h.step hmid) hs

/-- **No stale sentence is served** over any interleaving with fewer than `2 ^ 64` advances of
the generation. -/
theorem run_fresh (eval : F → ℕ → X → Option N → Option (V × ℤ))
    (events : List (ℕ × FlowAction F N X)) (s : FlowState F N X V)
    (hrun : FlowState.init.run eval events = some s) (hbound : s.log.length < 2 ^ 64) :
    ∀ a ∈ s.accepted, Fresh eval s.log s.swaps a :=
  (FlowInv.init.run hrun).accepted hbound

end

/-! ## Two runs -/

namespace TwoForests

/-- A forest is its verdict; nothing expires. -/
def verdictOf : Bool → ℕ → Unit → Option Bool → Option (Bool × ℤ) := fun forest _ _ _ =>
  some (forest, 0)

def packet : Packet Unit := ⟨some 0, false, false, "", 0, ()⟩

abbrev Events := List (ℕ × FlowAction Bool Bool Unit)

def publish (forest : Bool) : Events :=
  (0, .start (.policyPublish (some forest) 1)) :: List.replicate 3 (0, .next false)

def publishContext (table : Option (ContextTable Bool)) : Events :=
  (0, .start (.contextPublish table)) :: List.replicate 3 (0, .next false)

/-- A dispatch that finds no sentence, and one that finds one. -/
def judge : Events := (0, .start (.flowDispatch packet)) :: List.replicate 6 (0, .next false)

def serve : Events := (0, .start (.flowDispatch packet)) :: List.replicate 3 (0, .next false)

abbrev State := FlowState Bool Bool Unit Bool

/-- What the context says of the network, for ten seconds. -/
def lease : Bool → ℕ → Unit → Option Bool → Option (Bool × ℤ) := fun forest _ _ network =>
  some (forest && network.getD false, 10)

def dispatch (pid : ℕ) (tSecs : ℤ) (n : ℕ) : Events :=
  (pid, .start (.flowDispatch { packet with ifname := "lan", tSecs })) ::
    List.replicate n (pid, .next false)

/-- Process 0 swaps a context in while process 1 judges a packet, which process 1 reads; then
process 0 advances the generation. -/
def overtaken : Events :=
  publish true ++ dispatch 1 0 2 ++ (publishContext (some [⟨"lan", true⟩])).take 2 ++
    List.replicate 4 (1, .next false) ++ List.replicate 2 (0, .next false)

end TwoForests

open TwoForests in
/-- The sentence of the first packet is overtaken by a context, so the next one is judged again.
That sentence is served to another process until it expires. -/
theorem judged_again_served_fresh :
    ∃ s : State, FlowState.init.run lease
        (overtaken ++ dispatch 1 5 6 ++ dispatch 2 9 3 ++ dispatch 3 10 3) = some s ∧
      s.accepted.map (·.packet.tSecs) = [9] ∧ ∀ a ∈ s.accepted, Fresh lease s.log s.swaps a :=
  ⟨_, rfl, rfl, run_fresh lease
    (overtaken ++ dispatch 1 5 6 ++ dispatch 2 9 3 ++ dispatch 3 10 3) _ rfl (by decide)⟩

namespace TwoForests

variable {s : State}

/-- Process 0 is idle, and so is everyone who could hold a lock. -/
structure Quiet (s : State) : Prop where
  idle : s.procs 0 = .idle
  publishLock : s.publishLock = none
  contextLock : s.contextLock = none

theorem run_append {events events' : Events} {s' s'' : State} (h : s.run verdictOf events = some s')
    (h' : s'.run verdictOf events' = some s'') :
    s.run verdictOf (events ++ events') = some s'' := by
  rw [FlowState.run, foldlM_append]
  exact Option.bind_eq_some_iff.mpr ⟨s', h, h'⟩

/-- A context that differs advances the generation and leaves policy and sentences alone. -/
theorem run_publishContext (hs : Quiet s) :
    ∃ table s', s.run verdictOf (publishContext table) = some s' ∧ Quiet s' ∧
      s'.generation = s.generation + 1 ∧ s'.sentences = s.sentences := by
  have hdiffers : ∃ b, contextTableEqual s.context (some [⟨"", b⟩]) = false := by
    by_contra hno
    have hsame : ∀ b, s.context.getD [] = [⟨"", b⟩] := by
      intro b
      by_contra hne
      exact hno ⟨b, beq_eq_false_iff_ne.mpr hne⟩
    have heq := (hsame true).symm.trans (hsame false)
    cases heq
  obtain ⟨b, hb⟩ := hdiffers
  obtain ⟨hidle, hpublish, hcontext⟩ := hs
  have hrun : s.run verdictOf (publishContext (some [⟨"", b⟩])) = some
      { s with
        generation := s.generation + 1
        context := some [⟨"", b⟩]
        contextLock := none
        procs := Function.update s.procs 0 .idle
        log := s.log ++ [.context s.swaps.length]
        swaps := s.swaps ++ [some [⟨"", b⟩]] } := by
    simp [FlowState.run, publishContext, FlowState.step, FlowState.start,
      FlowState.next, FlowState.goto, FlowState.generationAdvance, hidle, hcontext, hb, maxContexts]
  exact ⟨_, _, hrun, ⟨by simp, hpublish, rfl⟩, rfl, rfl⟩

theorem exists_run_contexts (n : ℕ) (hs : Quiet s) :
    ∃ events s', s.run verdictOf events = some s' ∧ Quiet s' ∧
      s'.generation = s.generation + BitVec.ofNat 64 n ∧ s'.sentences = s.sentences := by
  induction n with
  | zero => exact ⟨[], s, rfl, hs, (BitVec.add_zero _).symm, rfl⟩
  | succ n ih =>
    obtain ⟨events, s', hrun, hquiet, hgeneration, hsentences⟩ := ih
    obtain ⟨table, s'', hrun', hquiet', hgeneration', hsentences'⟩ := run_publishContext hquiet
    refine ⟨_, s'', run_append hrun hrun', hquiet', ?_, hsentences'.trans hsentences⟩
    rw [hgeneration', hgeneration, BitVec.ofNat_add, BitVec.add_assoc]
    rfl

/-- At generation 0 the next policy is stamped 1, and a sentence stamped 1 is served under it. -/
theorem run_publish_serve (hs : Quiet s) (hgeneration : s.generation = 0)
    {x : Sentence Bool Bool Unit Bool} (hx : s.sentences (0, false) = some x)
    (hone : x.generation = 1) (hone' : x.policyGeneration = 1) (hexpires : x.expiresAt = 0) :
    ∃ s' snap, s.run verdictOf (publish false ++ serve) = some s' ∧
      snap.forest = some false ∧ ⟨packet, snap, x⟩ ∈ s'.accepted := by
  obtain ⟨hidle, hpublish, hcontext⟩ := hs
  have hrun : s.run verdictOf (publish false ++ serve) = some
      { s with
        generation := 1
        active := some ⟨some false, 1, 1⟩
        publishLock := none
        procs := Function.update s.procs 0 .idle
        log := s.log ++ [.policy ⟨some false, 1, 1⟩]
        accepted := s.accepted ++
          [⟨packet, ⟨some ⟨some false, 1, 1⟩, 1, s.log.length + 1⟩, x⟩] } := by
    simp [FlowState.run, publish, serve, packet, FlowState.step, FlowState.start,
      FlowState.next, FlowState.goto, FlowState.generationAdvance, FlowState.sentenceRead,
      FlowState.accept, Packet.ownSlot, Packet.otherSlot, sentenceSlot, sentenceCurrent,
      PolicySnapshot.generation, Option.filter, hidle, hpublish, hgeneration, hx, hone, hone',
      hexpires]
  exact ⟨_, _, hrun, rfl, mem_append_right _ (mem_singleton_self _)⟩

end TwoForests

open TwoForests in
/-- After `2 ^ 64` advances a sentence of the first forest is served under the second. -/
theorem generation_round_not_fresh :
    ∃ (events : Events) (s : State), FlowState.init.run verdictOf events = some s ∧
      ∃ a ∈ s.accepted, a.snapshot.forest = some false ∧ a.sentence.judged.forest = true ∧
        ¬ Fresh verdictOf s.log s.swaps a := by
  obtain ⟨s₁, hrun₁, hquiet₁, hgeneration₁, x, hx, hone, hone', hexpires, hforest⟩ :
      ∃ s₁ : State, FlowState.init.run verdictOf (publish true ++ judge) = some s₁ ∧ Quiet s₁ ∧
        s₁.generation = 1 ∧ ∃ x, s₁.sentences (0, false) = some x ∧ x.generation = 1 ∧
          x.policyGeneration = 1 ∧ x.expiresAt = 0 ∧ x.judged.forest = true :=
    ⟨_, rfl, ⟨rfl, rfl, rfl⟩, rfl, _, rfl, rfl, rfl, rfl, rfl⟩
  obtain ⟨events, s₂, hrun₂, hquiet₂, hgeneration₂, hsentences₂⟩ :=
    exists_run_contexts (2 ^ 64 - 1) hquiet₁
  have hzero : s₂.generation = 0 := by
    rw [hgeneration₂, hgeneration₁]
    decide
  rw [← hsentences₂] at hx
  obtain ⟨s₃, snap, hrun₃, hsnap, hmem⟩ := run_publish_serve hquiet₂ hzero hx hone hone' hexpires
  refine ⟨_, s₃, run_append (run_append hrun₁ hrun₂) hrun₃, _, hmem, hsnap, hforest, fun h => ?_⟩
  have hsame := hsnap.symm.trans h.forest
  rw [hforest] at hsame
  cases hsame

end Pkm.Ntfe
