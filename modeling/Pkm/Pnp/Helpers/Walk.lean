import Pkm.Lib.DelegationLaw
import Pkm.Lib.DelegationChange
import Pkm.Pnp.Helpers.Collate
import Pkm.Pnp.Helpers.Resolve
/-!
# The walk as a delegation

Judging a snapshot is a delegation in the forest of rules: a rule admits the snapshot if
it matches, answers if it yields a verdict and can speak for its exceptions if it has a
direct verdict. `walked_eq` says that the loop on the stack ends and has then collected
what the rules that acted in the delegation do, in that order.
-/

namespace Pkm.Pnp

open List Rose

variable (snap : Snapshot) (ctx : EvalContext) (s : Ledger RuleBody) (trace : MatchTrace)
  (rule : RuleBody) (forest : Forest)

/-- The judgment of a snapshot as a question to the forest. -/
def delegation : Delegation RuleBody where
  admits rule := rule.matches snap
  answers rule := rule.yields.isSome
  speaks := RuleBody.hasDirectVerdict

/-! ## What a rule that acts does -/

/-- The path of a rule, given the rule and those above it. -/
def pathOf : List RuleBody → Text
  | [] => []
  | rule :: above => joinPath (pathOf above) rule.name

/-- The effects of a rule that acts, given the rule and those above it. -/
def effectsOf : List RuleBody → List Effect
  | [] => []
  | rule :: above =>
    rule.steps.filterMap (Action.effect? (pathOf (rule :: above)) snap) ++
      reportOf (pathOf (rule :: above)) ctx (highestOf rule.levels)

/-- The candidate that a rule that acts enters. -/
def candidateOf : List RuleBody → Option VerdictCandidate
  | [] => none
  | rule :: above =>
    rule.yields.map fun verdict => ⟨verdict, rule.priority, pathOf (rule :: above)⟩

/-- A rule where it stands. -/
def standing (x : ℕ × Rule) (above : Lineage RuleBody) : Standing :=
  ⟨x.2, pathOf (Lineage.values (x :: above)), x.1⟩

/-- A rule and those above it, where they stand. -/
def standings : Lineage RuleBody → List Standing
  | [] => []
  | x :: above => standing x above :: standings above

/-- The state of the walk that a ledger stands for. -/
def conclude : WalkState where
  effects := s.ran.flatMap fun l => effectsOf snap ctx (Lineage.values l)
  candidates := s.ran.filterMap fun l => candidateOf (Lineage.values l)
  spoken := s.spoken
  trace := trace
  ran := s.ran.map standings

/-! ## What is noted on the way -/

/-- The conditions that are consulted: those up to the first that is false. -/
def reached (snap : Snapshot) : List Condition → List Condition
  | [] => []
  | c :: cs => c :: if c.matches snap then reached snap cs else []

/-- The moments that consulting a rule notes. -/
def RuleBody.flips : List ℤ :=
  if rule.enabled then (reached snap rule.conditions).filterMap (Condition.nextFlip · snap)
  else []

def MatchTrace.noteAll (flips : List ℤ) : MatchTrace := flips.foldl MatchTrace.note trace

theorem note_eq (moment : ℤ) :
    trace.note moment = ⟨some (trace.expiresAt.elim moment (min · moment))⟩ := by
  unfold MatchTrace.note
  cases trace.expiresAt with
  | none => rfl
  | some cur =>
    by_cases h : cur ≤ moment
    · simp [h]
    · simp [h, min_eq_right (not_le.mp h).le]

theorem noteAll_append (flips flips' : List ℤ) :
    trace.noteAll (flips ++ flips') = (trace.noteAll flips).noteAll flips' :=
  foldl_append

theorem conditionsHold_eq (cs : List Condition) (trace : MatchTrace) :
    conditionsHold snap cs trace = (cs.all fun c => c.matches snap,
      trace.noteAll ((reached snap cs).filterMap (Condition.nextFlip · snap))) := by
  induction cs generalizing trace with
  | nil => rfl
  | cons c cs ih =>
    have hnote : trace.noteFlip (c.nextFlip snap) =
        trace.noteAll (c.nextFlip snap).toList := by
      cases c.nextFlip snap <;> rfl
    have hflips : ∀ rest : List Condition,
        (c :: rest).filterMap (Condition.nextFlip · snap) =
          (c.nextFlip snap).toList ++ rest.filterMap (Condition.nextFlip · snap) := by
      intro rest
      cases h : c.nextFlip snap <;> simp [h]
    rw [conditionsHold, reached, hnote, hflips, noteAll_append, all_cons]
    cases c.matches snap with
    | false => rfl
    | true =>
      exact ih _

theorem matches_eq (snap : Snapshot) :
    rule.matches snap = (rule.enabled && rule.conditions.all fun c => c.matches snap) := by
  unfold RuleBody.matches RuleBody.matchesTraced
  cases rule.enabled with
  | false => rfl
  | true => simp [conditionsHold_eq]

/-- Whether a rule matches does not depend on what was noted before. -/
theorem matchesTraced_eq (snap : Snapshot) (trace : MatchTrace) :
    rule.matchesTraced snap trace = (rule.matches snap, trace.noteAll (rule.flips snap)) := by
  rw [matches_eq]
  unfold RuleBody.matchesTraced RuleBody.flips
  cases rule.enabled with
  | false => rfl
  | true => simp [conditionsHold_eq]

/-! ## A rule that leaves the stack -/

section Acting

variable (snap : Snapshot) (ctx : EvalContext) {above l : Lineage RuleBody} {rest : List WalkFrame}

theorem reference_standings (l : Lineage RuleBody) :
    reference (standings l) = Lineage.address l := by
  induction l with
  | nil => rfl
  | cons x l ih =>
    rw [Lineage.address_cons, ← ih]
    rfl

/-- Whoever speaks in the delegation is found on the stack, where it stands. -/
theorem findSpeaker_standings (l : Lineage RuleBody) :
    ((delegation snap).speaker l = none ∧ findSpeaker (standings l) = none) ∨
      ∃ x above, (delegation snap).speaker l = some (x :: above) ∧
        findSpeaker (standings l) = some (standing x above, standings above) := by
  induction l with
  | nil => exact .inl ⟨rfl, rfl⟩
  | cons x l ih =>
    by_cases hx : (delegation snap).speaks x.2.value = true
    · exact .inr ⟨x, l, if_pos hx, if_pos hx⟩
    · refine ih.imp (fun h => ⟨(if_neg hx).trans h.1, (if_neg hx).trans h.2⟩) ?_
      rintro ⟨y, above, h, h'⟩
      exact ⟨y, above, (if_neg hx).trans h, (if_neg hx).trans h'⟩

theorem execute_conclude (x : ℕ × Rule) (above : Lineage RuleBody) (s : Ledger RuleBody)
    (trace : MatchTrace) :
    execute (standing x above) (standings above) snap ctx (conclude snap ctx s trace) =
      (conclude snap ctx { s with ran := s.ran ++ [x :: above] } trace,
        x.2.value.yields.isSome) := by
  have hcand : candidateOf (Lineage.values (x :: above)) = x.2.value.yields.map fun verdict =>
      ⟨verdict, x.2.value.priority, pathOf (Lineage.values (x :: above))⟩ := rfl
  unfold execute conclude standing
  simp only [resolveRule_eq, filterMap_append, filterMap_cons, hcand]
  cases x.2.value.yields with
  | none => simp [effectsOf, standings, standing]
  | some verdict => simp [effectsOf, standings, standing]

/-- **A rule that triggers** does in the loop what it does in the delegation. -/
theorem trigger_conclude (x : ℕ × Rule) (above : Lineage RuleBody) (s : Ledger RuleBody)
    (trace : MatchTrace) :
    trigger (standing x above) (standings above) snap ctx (conclude snap ctx s trace) =
      conclude snap ctx ((delegation snap).trigger x above s) trace := by
  unfold trigger
  rw [execute_conclude]
  change (if x.2.value.yields.isSome = true then _ else _) =
    conclude snap ctx (if x.2.value.yields.isSome = true then _ else _) trace
  split
  · rfl
  · rcases findSpeaker_standings snap above with ⟨hspeaker, hfind⟩ | ⟨y, higher, hspeaker, hfind⟩
    · rw [hspeaker, hfind]
    · rw [hspeaker, hfind]
      have href : reference (standing y higher :: standings higher) =
          Lineage.address (y :: higher) := reference_standings (y :: higher)
      simp only [href]
      change (if s.spoken.contains (Lineage.address (y :: higher)) = true then _ else _) =
        conclude snap ctx
          (if s.spoken.contains (Lineage.address (y :: higher)) = true then _ else _) trace
      split
      · rfl
      · exact congrArg Prod.fst (execute_conclude snap ctx y higher
          ⟨s.ran ++ [x :: above], s.spoken ++ [Lineage.address (y :: higher)]⟩ trace)

/-! ## The loop -/

/-- The moments noted on the way through some rules. -/
def flipsOf (rules : List RuleBody) : List ℤ := rules.flatMap (RuleBody.flips snap)

/-- A rule on the stack, with its next child and whether one has matched. -/
def frameOf (x : ℕ × Rule) (above : Lineage RuleBody) (next : ℕ) (anyChild : Bool) : WalkFrame :=
  { standing x above with next, anyChild }

theorem walkLoop_nil (fuel : ℕ) (st : WalkState) : walkLoop snap ctx fuel ([], st) = ([], st) := by
  cases fuel <;> rfl

/-- What the loop does with a rule on the stack whose first children have been tried. -/
def leave (x : ℕ × Rule) (above : Lineage RuleBody) (anyChild : Bool) (next : ℕ)
    (cs : List Rule) (s : Ledger RuleBody) : Ledger RuleBody :=
  let s := (delegation snap).descendAll (x :: above) next cs s
  if anyChild || cs.any fun c => c.value.matches snap then s
  else (delegation snap).trigger x above s

theorem leave_fresh (i : ℕ) (t : Rule) (above : Lineage RuleBody) (s : Ledger RuleBody) :
    leave snap (i, t) above false 0 t.children s = (delegation snap).descend above i t s := by
  obtain ⟨v, cs⟩ := t
  rw [leave, Delegation.descend, Bool.false_or]
  cases hany : cs.any fun c => c.value.matches snap with
  | true => simp only [children_node, hany, if_true, delegation]
  | false =>
    have hnone : (delegation snap).descendAll ((i, .node v cs) :: above) 0 cs s = s :=
      Delegation.descendAll_of_none hany
    simp only [children_node, hnone]
    simp [delegation]

theorem leave_cons (x : ℕ × Rule) (above : Lineage RuleBody) (anyChild : Bool) (next : ℕ)
    (c : Rule) (cs : List Rule) (s : Ledger RuleBody) :
    leave snap x above anyChild next (c :: cs) s =
      if c.value.matches snap then
        leave snap x above true (next + 1) cs ((delegation snap).descend (x :: above) next c s)
      else leave snap x above anyChild (next + 1) cs s := by
  have hadm : (delegation snap).admits c.value = c.value.matches snap := rfl
  rw [leave, Delegation.descendAll, hadm, any_cons]
  cases c.value.matches snap <;> simp [leave]

/-- What holds of the loop from a child on, within the rounds that its size allows. -/
def Walks (c : Rule) : Prop :=
  ∀ (i : ℕ) (above : Lineage RuleBody) (rest : List WalkFrame) (s : Ledger RuleBody)
    (trace : MatchTrace), rest.map WalkFrame.toStanding = standings above →
    ∃ n, n + 1 ≤ 2 * c.size ∧ ∀ fuel,
      walkLoop snap ctx (n + fuel) (frameOf (i, c) above 0 false :: rest,
        conclude snap ctx s trace) =
      walkLoop snap ctx fuel (rest, conclude snap ctx ((delegation snap).descend above i c s)
        (trace.noteAll (flipsOf snap ((delegation snap).consulted c))))

variable {x : ℕ × Rule}

/-- The last round of a rule on the stack. -/
theorem walkStep_leave {anyChild : Bool} {next : ℕ} (s : Ledger RuleBody) (trace : MatchTrace)
    (hrest : rest.map WalkFrame.toStanding = standings above) (hnext : x.2.children[next]? = none) :
    walkStep snap ctx (frameOf x above next anyChild) rest (conclude snap ctx s trace) =
      (rest, conclude snap ctx (leave snap x above anyChild next [] s) trace) := by
  have htop : (frameOf x above next anyChild).rule.children[
      (frameOf x above next anyChild).next]? = none := hnext
  unfold walkStep
  rw [htop]
  cases anyChild with
  | true => rfl
  | false =>
    have h := trigger_conclude snap ctx x above s trace
    rw [← hrest] at h
    exact congrArg (Prod.mk rest) h

/-- A round of a rule on the stack: a child that matches is pushed. -/
theorem walkStep_child {x : ℕ × Rule} {anyChild : Bool} {next : ℕ} {c : Rule}
    (s : Ledger RuleBody) (trace : MatchTrace) (hnext : x.2.children[next]? = some c) :
    walkStep snap ctx (frameOf x above next anyChild) rest (conclude snap ctx s trace) =
      (if c.value.matches snap then
        frameOf (next, c) (x :: above) 0 false :: frameOf x above (next + 1) true :: rest
      else frameOf x above (next + 1) anyChild :: rest,
        conclude snap ctx s (trace.noteAll (c.value.flips snap))) := by
  have htop : (frameOf x above next anyChild).rule.children[
      (frameOf x above next anyChild).next]? = some c := hnext
  unfold walkStep
  rw [htop]
  simp only [matchesTraced_eq]
  cases c.value.matches snap <;> rfl

/-- The children of a rule on the stack, given the loop from each of them. -/
theorem walkLoop_frame (hrest : rest.map WalkFrame.toStanding = standings above) (cs : List Rule)
    (hwalks : ∀ c ∈ cs, Walks snap ctx c) :
    ∀ (tried : List Rule) (anyChild : Bool) (s : Ledger RuleBody) (trace : MatchTrace),
      x.2.children = tried ++ cs →
      ∃ n, n ≤ 2 * sizeAll cs + 1 ∧ ∀ fuel,
        walkLoop snap ctx (n + fuel) (frameOf x above tried.length anyChild :: rest,
          conclude snap ctx s trace) =
        walkLoop snap ctx fuel (rest, conclude snap ctx
          (leave snap x above anyChild tried.length cs s)
          (trace.noteAll (flipsOf snap ((delegation snap).consultedAll cs)))) := by
  induction cs with
  | nil =>
    intro tried anyChild s trace hcs
    refine ⟨1, by simp [sizeAll], fun fuel => ?_⟩
    have hnext : x.2.children[tried.length]? = none := by simp [hcs]
    rw [Nat.add_comm, walkLoop, walkStep_leave snap ctx s trace hrest hnext]
    rfl
  | cons c cs ih =>
    intro tried anyChild s trace hcs
    have hsplit : x.2.children = (tried ++ [c]) ++ cs := by simp [hcs]
    have hnext : x.2.children[tried.length]? = some c := by simp [hcs]
    have hlen : (tried ++ [c]).length = tried.length + 1 := by simp
    have ih := ih (forall_mem_cons.mp hwalks).2 (tried ++ [c])
    rw [hlen] at ih
    have hstep := @walkStep_child snap ctx above rest x anyChild _ c s trace hnext
    have hadm : (delegation snap).admits c.value = c.value.matches snap := rfl
    have hsize : sizeAll (c :: cs) = c.size + sizeAll cs := by rw [sizeAll]
    have hpos : 1 ≤ c.size := by
      cases c
      simp [size]
    rw [leave_cons, Delegation.consultedAll, hadm]
    cases hm : c.value.matches snap with
    | false =>
      obtain ⟨n, hn, hloop⟩ := ih anyChild s (trace.noteAll (c.value.flips snap)) hsplit
      refine ⟨n + 1, by omega, fun fuel => ?_⟩
      rw [Nat.add_right_comm, walkLoop, hstep, hm, if_neg Bool.false_ne_true, hloop]
      simp [flipsOf, noteAll_append]
    | true =>
      -- the child is pushed, runs to its end and leaves the frame of its parent on top
      have hparent : (frameOf x above (tried.length + 1) true :: rest).map
          WalkFrame.toStanding = standings (x :: above) := by
        rw [map_cons, hrest]
        rfl
      obtain ⟨m, hm', hchild⟩ := hwalks c mem_cons_self tried.length (x :: above) _ s
        (trace.noteAll (c.value.flips snap)) hparent
      obtain ⟨n, hn, hloop⟩ := ih true ((delegation snap).descend (x :: above) tried.length c s)
        ((trace.noteAll (c.value.flips snap)).noteAll
          (flipsOf snap ((delegation snap).consulted c))) hsplit
      refine ⟨m + n + 1, by omega, fun fuel => ?_⟩
      have hfuel : m + n + 1 + fuel = (m + (n + fuel)) + 1 := by omega
      rw [hfuel, walkLoop, hstep, hm, if_pos rfl, hchild, hloop]
      simp [flipsOf, noteAll_append]

/-- **The loop from a rule on** ends within the rounds that the size of the rule allows. -/
theorem walks (t : Rule) : Walks snap ctx t := by
  induction t using Rose.induction with
  | node v cs ih =>
    intro i above rest s trace hrest
    obtain ⟨n, hn, hloop⟩ := walkLoop_frame snap ctx (x := (i, .node v cs)) hrest cs ih []
      false s trace rfl
    refine ⟨n, by rw [size]; omega, fun fuel => ?_⟩
    have hfresh := leave_fresh snap i (.node v cs) above s
    rw [← hfresh]
    exact hloop fuel

/-! ## All roots -/

theorem walk_conclude (i : ℕ) (root : Rule) (s : Ledger RuleBody) (trace : MatchTrace) :
    walk snap ctx i root (conclude snap ctx s trace) =
      if root.value.matches snap then
        conclude snap ctx ((delegation snap).descend [] i root s)
          ((trace.noteAll (root.value.flips snap)).noteAll
            (flipsOf snap ((delegation snap).consulted root)))
      else conclude snap ctx s (trace.noteAll (root.value.flips snap)) := by
  unfold walk
  simp only [matchesTraced_eq]
  cases root.value.matches snap with
  | false => rfl
  | true =>
    obtain ⟨n, hn, hloop⟩ := walks snap ctx root i [] [] s
      (trace.noteAll (root.value.flips snap)) rfl
    obtain ⟨m, hm⟩ : ∃ m, 2 * root.size = n + m := ⟨2 * root.size - n, by omega⟩
    have h := hloop m
    rw [walkLoop_nil, ← hm] at h
    exact congrArg Prod.snd h

theorem walkRoots_conclude (roots : List Rule) (i : ℕ) (s : Ledger RuleBody)
    (trace : MatchTrace) :
    walkRoots snap ctx i roots (conclude snap ctx s trace) =
      conclude snap ctx ((delegation snap).descendAll [] i roots s)
        (trace.noteAll (flipsOf snap ((delegation snap).consultedAll roots))) := by
  induction roots generalizing i s trace with
  | nil => rfl
  | cons root roots ih =>
    have hadm : (delegation snap).admits root.value = root.value.matches snap := rfl
    rw [walkRoots, walk_conclude, Delegation.descendAll, Delegation.consultedAll, hadm]
    cases root.value.matches snap <;> simp [ih, flipsOf, noteAll_append]

end Acting

/-- The ledger of the judgment of a snapshot. -/
def Forest.ledger (snap : Snapshot) : Ledger RuleBody :=
  (delegation snap).descendAll [] 0 forest.roots ⟨[], []⟩

/-- The rules that are asked whether they match. -/
def Forest.consulted (snap : Snapshot) : List RuleBody :=
  (delegation snap).consultedAll forest.roots

/-- **What the walk collects** is what the rules that act in the delegation do. -/
theorem walked_eq (snap : Snapshot) (ctx : EvalContext) :
    forest.walked snap ctx = conclude snap ctx (forest.ledger snap)
      (MatchTrace.empty.noteAll (flipsOf snap (forest.consulted snap))) :=
  walkRoots_conclude snap ctx forest.roots 0 ⟨[], []⟩ .empty

theorem evaluate_effects : (evaluate forest snap ctx).effects =
    ((forest.ledger snap).ran.map Lineage.values).flatMap (effectsOf snap ctx) := by
  rw [evaluate, collate_effects, walked_eq, flatMap_map]
  rfl

theorem evaluate_candidates : (evaluate forest snap ctx).candidates =
    ((forest.ledger snap).ran.map Lineage.values).filterMap candidateOf := by
  rw [evaluate, collate_candidates, walked_eq, filterMap_map]
  rfl

theorem evaluate_expiresAt : (evaluate forest snap ctx).expiresAt =
    (MatchTrace.empty.noteAll (flipsOf snap (forest.consulted snap))).expiresAt := by
  rw [evaluate, collate_expiresAt, walked_eq]
  rfl

end Pkm.Pnp
