import Mathlib
/-!
# Sentences of flows

A flow is judged once for each local endpoint and its verdict is cached as a sentence, with the
generations it was judged at. Policies, network contexts and packets come from any number of
processes at once; each of them takes one of its atomic steps at a time. A policy is stamped
with the advanced generation before it is swapped in; a context is swapped in before the
generation is advanced.

Forests, the network facts of an interface, the other facts of a packet and verdicts are
parameters, and so is the evaluation of a forest. Next to what the source keeps, the state has
what the specification speaks of: `log`, the advances of the generation in turn, `swaps`, the
context tables that have been active in turn, and `accepted`, the sentences that were applied.
-/

namespace Pkm.Ntfe

variable {F N X V : Type}

/-! ## What is published -/

structure Policy (F : Type) where
  forest : Option F
  reportingLevel : ℕ
  generation : BitVec 64

structure ContextEntry (N : Type) where
  ifname : String
  network : N
  deriving DecidableEq

abbrev ContextTable (N : Type) := List (ContextEntry N)

def maxContexts : ℕ := 64

/-- No table is the same as one without entries. -/
def contextTableEqual [DecidableEq N] (a b : Option (ContextTable N)) : Bool :=
  a.getD [] == b.getD []

def contextFill (table : Option (ContextTable N)) (ifname : String) : Option N :=
  if ifname = "" then none
  else ((table.getD []).find? fun e => e.ifname == ifname).map ContextEntry.network

/-- What advanced the generation: a policy, or the context that was swapped in under a number. -/
inductive Advance (F : Type) where
  | policy (policy : Policy F)
  | context (version : ℕ)

/-! ## Packets and sentences -/

/-- A packet of a flow. `ext` names the flow if it has the extension that holds sentences. -/
structure Packet (X : Type) where
  ext : Option ℕ
  loopback : Bool
  inbound : Bool
  ifname : String
  tSecs : ℤ
  facts : X

abbrev Slot := ℕ × Bool

def sentenceSlot (p : Packet X) : Bool := p.loopback && p.inbound

def Packet.ownSlot (p : Packet X) : Option Slot := p.ext.map fun flow => (flow, sentenceSlot p)

/-- The sentence of the other endpoint, which a loopback flow answers to as well. -/
def Packet.otherSlot (p : Packet X) : Option Slot :=
  if p.loopback then p.ext.map fun flow => (flow, !sentenceSlot p) else none

/-- A dispatch's view of the policy. `seen` is for the specification: how many advances came
before the read of the cache generation. -/
structure PolicySnapshot (F : Type) where
  policy : Option (Policy F)
  cacheGeneration : BitVec 64
  seen : ℕ

namespace PolicySnapshot

variable (snap : PolicySnapshot F)

def forest : Option F := snap.policy.bind Policy.forest

def generation : BitVec 64 := snap.policy.elim 0 Policy.generation

def reportingLevel : ℕ := snap.policy.elim 1 Policy.reportingLevel

end PolicySnapshot

/-- What a sentence was judged by, kept for the sake of the specification only. -/
structure Judged (F N X : Type) where
  forest : F
  reportingLevel : ℕ
  seen : ℕ
  context : Option (ContextTable N)
  version : ℕ
  packet : Packet X

structure Sentence (F N X V : Type) where
  generation : BitVec 64
  policyGeneration : BitVec 64
  expiresAt : ℤ
  verdict : V
  judged : Judged F N X

def sentenceCurrent (x : Sentence F N X V) (snap : PolicySnapshot F) (now : ℤ) : Bool :=
  x.generation == snap.cacheGeneration && x.policyGeneration == snap.generation &&
    !(x.expiresAt != 0 && decide (now ≥ x.expiresAt))

/-- A sentence that a dispatch has applied to its packet. -/
structure Acceptance (F N X V : Type) where
  packet : Packet X
  snapshot : PolicySnapshot F
  sentence : Sentence F N X V

/-! ## Processes -/

/-- Where a process stands. -/
inductive FlowProc (F N X V : Type) where
  | idle
  | policyLocked (forest : Option F) (reportingLevel : ℕ)
  | policyAdvanced (policy : Policy F)
  | policySwapped
  | contextLocked (table : Option (ContextTable N))
  | contextSwapped (version : ℕ)
  | contextAdvanced
  | policyRead (packet : Packet X) (policy : Option (Policy F))
  | snapshotTaken (packet : Packet X) (snap : PolicySnapshot F)
  | missed (packet : Packet X) (snap : PolicySnapshot F)
  | contextRead (packet : Packet X) (snap : PolicySnapshot F)
      (context : Option (ContextTable N)) (version : ℕ)
  | judged (packet : Packet X) (snap : PolicySnapshot F) (sentence : Sentence F N X V)
  | answered (packet : Packet X) (snap : PolicySnapshot F)

structure FlowState (F N X V : Type) where
  generation : BitVec 64
  active : Option (Policy F)
  publishLock : Option ℕ
  context : Option (ContextTable N)
  contextLock : Option ℕ
  sentences : Slot → Option (Sentence F N X V)
  procs : ℕ → FlowProc F N X V
  log : List (Advance F)
  swaps : List (Option (ContextTable N))
  accepted : List (Acceptance F N X V)

namespace FlowState

def init : FlowState F N X V where
  generation := 0
  active := none
  publishLock := none
  context := none
  contextLock := none
  sentences := fun _ => none
  procs := fun _ => .idle
  log := []
  swaps := [none]
  accepted := []

variable (s : FlowState F N X V)

def goto (pid : ℕ) (proc : FlowProc F N X V) : FlowState F N X V :=
  { s with procs := Function.update s.procs pid proc }

def generationAdvance (advance : Advance F) : FlowState F N X V :=
  { s with
    generation := s.generation + 1
    log := s.log ++ [advance] }

/-- Reads a slot without a lock. It is missed if it is empty, or torn by a writer. -/
def sentenceRead (slot : Option Slot) (torn : Bool) : Option (Sentence F N X V) :=
  if torn then none
  else (slot.bind s.sentences).filter fun x => x.generation != 0

def sentenceWrite (slot : Option Slot) (x : Sentence F N X V) : FlowState F N X V :=
  match slot with
  | none => s
  | some slot => { s with sentences := Function.update s.sentences slot (some x) }

def accept (packet : Packet X) (snap : PolicySnapshot F) (x : Sentence F N X V) :
    FlowState F N X V :=
  { s with accepted := s.accepted ++ [⟨packet, snap, x⟩] }

end FlowState

/-- What an idle process can take up. -/
inductive FlowTask (F N X : Type) where
  | policyPublish (forest : Option F) (reportingLevel : ℕ)
  | contextPublish (table : Option (ContextTable N))
  | flowDispatch (packet : Packet X)

inductive FlowAction (F N X : Type) where
  | start (task : FlowTask F N X)
  /-- The next step of a task; `fault` says whether what can fail in it does. -/
  | next (fault : Bool)

/-- The first step of a task: a lock is taken if it is free, or the active policy is read. -/
def FlowState.start (s : FlowState F N X V) (pid : ℕ) :
    FlowTask F N X → Option (FlowState F N X V)
  | .policyPublish forest reportingLevel =>
    if s.publishLock.isSome then none
    else some ({ s with publishLock := some pid }.goto pid (.policyLocked forest reportingLevel))
  | .contextPublish table =>
    if (table.getD []).length > maxContexts then some s
    else if s.contextLock.isSome then none
    else some ({ s with contextLock := some pid }.goto pid (.contextLocked table))
  | .flowDispatch packet => some (s.goto pid (.policyRead packet s.active))

variable [DecidableEq N] (eval : F → ℕ → X → Option N → Option (V × ℤ))

/-- The evaluation of a packet, unless there is no forest or it fails. -/
def flowJudge (packet : Packet X) (snap : PolicySnapshot F) (context : Option (ContextTable N))
    (version : ℕ) : Option (Sentence F N X V) := do
  let forest ← snap.forest
  let (verdict, expiresAt) ←
    eval forest snap.reportingLevel packet.facts (contextFill context packet.ifname)
  some {
    generation := snap.cacheGeneration
    policyGeneration := snap.generation
    expiresAt
    verdict
    judged := ⟨forest, snap.reportingLevel, snap.seen, context, version, packet⟩ }

variable (s : FlowState F N X V)

/-- The next step of the task of a process. -/
def FlowState.next (pid : ℕ) (fault : Bool) : Option (FlowState F N X V) :=
  match s.procs pid with
  | .idle => none
  | .policyLocked forest reportingLevel =>
    -- the counters of the new rules may be refused
    if fault then some ({ s with publishLock := none }.goto pid .idle)
    else
      let fresh : Policy F := ⟨forest, reportingLevel, s.generation + 1⟩
      some ((s.generationAdvance (.policy fresh)).goto pid (.policyAdvanced fresh))
  | .policyAdvanced fresh => some ({ s with active := some fresh }.goto pid .policySwapped)
  | .policySwapped => some ({ s with publishLock := none }.goto pid .idle)
  | .contextLocked table =>
    if contextTableEqual s.context table then some ({ s with contextLock := none }.goto pid .idle)
    else
      some ({ s with context := table, swaps := s.swaps ++ [table] }.goto pid
        (.contextSwapped s.swaps.length))
  | .contextSwapped version =>
    some ((s.generationAdvance (.context version)).goto pid .contextAdvanced)
  | .contextAdvanced => some ({ s with contextLock := none }.goto pid .idle)
  | .policyRead packet policy =>
    some (s.goto pid (.snapshotTaken packet ⟨policy, s.generation, s.log.length⟩))
  | .snapshotTaken packet snap =>
    match s.sentenceRead packet.ownSlot fault with
    | none => some (s.goto pid (.missed packet snap))
    | some x =>
      if sentenceCurrent x snap packet.tSecs then
        some ((s.accept packet snap x).goto pid (.answered packet snap))
      else some (s.goto pid (.missed packet snap))
  | .missed packet snap =>
    some (s.goto pid (.contextRead packet snap s.context (s.swaps.length - 1)))
  | .contextRead packet snap context version =>
    match (if fault then none else flowJudge eval packet snap context version) with
    | none => some (s.goto pid .idle)
    | some x => some (s.goto pid (.judged packet snap x))
  | .judged packet snap x =>
    some ((s.sentenceWrite packet.ownSlot x).goto pid (.answered packet snap))
  | .answered packet snap =>
    match s.sentenceRead packet.otherSlot fault with
    | none => some (s.goto pid .idle)
    | some x =>
      if sentenceCurrent x snap packet.tSecs then some ((s.accept packet snap x).goto pid .idle)
      else some (s.goto pid .idle)

def FlowState.step (pid : ℕ) :
    FlowAction F N X → Option (FlowState F N X V)
  | .start task =>
    match s.procs pid with
    | .idle => s.start pid task
    | _ => none
  | .next fault => s.next eval pid fault

/-- The steps of an interleaving in turn, each with the process that takes it. -/
def FlowState.run : List (ℕ × FlowAction F N X) → Option (FlowState F N X V) :=
  List.foldlM (fun s e => s.step eval e.1 e.2) s

end Pkm.Ntfe
