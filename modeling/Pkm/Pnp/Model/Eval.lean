import Pkm.Pnp.Model.Rule
/-!
# Evaluation

A snapshot is judged against a forest. The walk keeps the rules that match on a stack of
its own. A rule that leaves the stack without a matching child has triggered: its actions
are executed, and if they yield no verdict, the stack below it is searched for the nearest
rule with a direct verdict, which speaks for it, once. Of the verdicts that were yielded
the one of the highest priority wins, and among those the strictest.

Rules are compared by reference in the source. Here a rule is known by where it stands: by
its index among its siblings and those of the rules above it.
-/

namespace Pkm.Pnp

structure EvalContext where
  reportingLevel : ℕ

inductive Effect where
  | tag (name : Text) (hash : BitVec 64) (op : TagOp)
  | count (name : Text) (hash : BitVec 64) (amount : ℕ)
  | report (rule : Text) (level : ℕ)
  | promptIssued (rule : Text) (handler : Text)
  deriving DecidableEq

structure VerdictCandidate where
  verdict : Verdict
  priority : ℤ
  rule : Text
  deriving DecidableEq

structure Evaluation where
  verdict : Verdict
  attributedTo : Text
  backstop : Bool
  effects : List Effect
  candidates : List VerdictCandidate
  expiresAt : Option ℤ
  conflict : Bool
  deriving DecidableEq

/-! ## Actions -/

/-- The strictest verdict so far. -/
def overVerdict (best : Option Verdict) (v : Verdict) : Option Verdict :=
  some (match best with
    | some cur => cur.strictest v
    | none => v)

/-- The highest report level so far. -/
def overLevel (best : Option ℕ) (level : ℕ) : Option ℕ :=
  some (match best with
    | some cur => if cur ≥ level then cur else level
    | none => level)

/-- What the actions of a rule have come to so far. -/
structure Resolving where
  effects : List Effect
  verdict : Option Verdict
  bestReport : Option ℕ

namespace Resolving

def push (r : Resolving) (effect : Effect) : Resolving :=
  { r with effects := r.effects ++ [effect] }

def yield (r : Resolving) (v : Verdict) : Resolving := { r with verdict := overVerdict r.verdict v }

def noteReport (r : Resolving) (level : ℕ) : Resolving :=
  { r with bestReport := overLevel r.bestReport level }

end Resolving

variable (snap : Snapshot)

def CountAmount.resolve : CountAmount → ℕ
  | .literal amount => amount
  | .length => snap.length.getD 0

/-- One action, at a depth of prompts around it. -/
def resolveAction (path : Text) (snap : Snapshot) : ℕ → Action → Resolving → Resolving
  | _, .null, r => r
  | _, .join _, r => r
  | _, .verdict v, r => r.yield v
  | _, .tag name op, r => r.push (.tag name (nameHash name) op)
  | _, .count name amount, r => r.push (.count name (nameHash name) (amount.resolve snap))
  | _, .report level, r => r.noteReport level
  | _, .prompt handler none, r => r.push (.promptIssued path handler)
  | depth, .prompt handler (some inner), r =>
    let r := r.push (.promptIssued path handler)
    if depth < maxPromptChain then resolveAction path snap (depth + 1) inner r else r

/-- The actions of a rule: the effects, and the verdict it yields. -/
def resolveRule (rule : RuleBody) (path : Text) (snap : Snapshot) (ctx : EvalContext) :
    List Effect × Option Verdict :=
  let r := rule.actions.foldl (fun r action => resolveAction path snap 0 action r) ⟨[], none, none⟩
  match r.bestReport with
  | some level =>
    if level ≥ ctx.reportingLevel then (r.effects ++ [.report path level], r.verdict)
    else (r.effects, r.verdict)
  | none => (r.effects, r.verdict)

/-! ## The walk -/

/-- A rule with its path and its index among its siblings. -/
structure Standing where
  rule : Rule
  path : Text
  index : ℕ

/-- A rule on the stack: the next child to try, and whether a child has matched. -/
structure WalkFrame extends Standing where
  next : ℕ
  anyChild : Bool

/-- The reference to a rule: the indices of the rule and of those above it. -/
def reference (stack : List Standing) : List ℕ := stack.map Standing.index

/-- What the walk collects. `ran` is kept for the sake of the specification only: the rules
whose actions were executed, each with the rules above it. -/
structure WalkState where
  effects : List Effect
  candidates : List VerdictCandidate
  spoken : List (List ℕ)
  trace : MatchTrace
  ran : List (List Standing)

def WalkState.empty : WalkState := ⟨[], [], [], .empty, []⟩

/-- Executes the actions of a rule and enters its verdict as a candidate. -/
def execute (standing : Standing) (above : List Standing) (snap : Snapshot) (ctx : EvalContext)
    (st : WalkState) : WalkState × Bool :=
  let resolved := resolveRule standing.rule.value standing.path snap ctx
  let st := { st with
    effects := st.effects ++ resolved.1
    ran := st.ran ++ [standing :: above] }
  match resolved.2 with
  | some verdict =>
    ({ st with candidates := st.candidates ++
        [⟨verdict, standing.rule.value.priority, standing.path⟩] }, true)
  | none => (st, false)

/-- The nearest rule with a direct verdict, with those above it. -/
def findSpeaker : List Standing → Option (Standing × List Standing)
  | [] => none
  | standing :: above =>
    if standing.rule.value.hasDirectVerdict then some (standing, above) else findSpeaker above

/-- A triggered rule, with the stack below it. -/
def trigger (done : Standing) (ancestors : List Standing) (snap : Snapshot) (ctx : EvalContext)
    (st : WalkState) : WalkState :=
  let (st, yielded) := execute done ancestors snap ctx st
  if yielded then st
  else
    match findSpeaker ancestors with
    | none => st
    | some (speaker, above) =>
      if st.spoken.contains (reference (speaker :: above)) then st
      else
        let st := { st with spoken := st.spoken ++ [reference (speaker :: above)] }
        (execute speaker above snap ctx st).1

/-- One round of the loop on a stack that is not empty. -/
def walkStep (ctx : EvalContext) (top : WalkFrame) (rest : List WalkFrame) (st : WalkState) :
    List WalkFrame × WalkState :=
  match top.rule.children[top.next]? with
  | some child =>
    let (matched, trace) := child.value.matchesTraced snap st.trace
    let st := { st with trace }
    if matched then
      let frame : WalkFrame := {
        rule := child
        path := joinPath top.path child.value.name
        index := top.next
        next := 0
        anyChild := false }
      (frame :: { top with next := top.next + 1, anyChild := true } :: rest, st)
    else ({ top with next := top.next + 1 } :: rest, st)
  | none =>
    if top.anyChild then (rest, st)
    else (rest, trigger top.toStanding (rest.map WalkFrame.toStanding) snap ctx st)

/-- The loop, for a number of rounds. -/
def walkLoop (snap : Snapshot) (ctx : EvalContext) :
    ℕ → List WalkFrame × WalkState → List WalkFrame × WalkState
  | 0, s => s
  | _ + 1, ([], st) => ([], st)
  | fuel + 1, (top :: rest, st) => walkLoop snap ctx fuel (walkStep snap ctx top rest st)

/-- The walk from one root. A rule is tried once and leaves the stack once, so that the loop
ends within twice as many rounds as there are rules. -/
def walk (ctx : EvalContext) (index : ℕ) (root : Rule) (st : WalkState) : WalkState :=
  let (matched, trace) := root.value.matchesTraced snap st.trace
  let st := { st with trace }
  if matched then
    let frame : WalkFrame := {
      rule := root
      path := joinPath [] root.value.name
      index
      next := 0
      anyChild := false }
    (walkLoop snap ctx (2 * root.size) ([frame], st)).2
  else st

def walkRoots (snap : Snapshot) (ctx : EvalContext) : ℕ → List Rule → WalkState → WalkState
  | _, [], st => st
  | index, root :: roots, st => walkRoots snap ctx (index + 1) roots (walk snap ctx index root st)

/-! ## Collation -/

/-- Whether a candidate is ahead of the winner so far. -/
def VerdictCandidate.better (c cur : VerdictCandidate) : Bool :=
  c.priority > cur.priority ||
    (c.priority == cur.priority && c.verdict.strictness > cur.verdict.strictness)

/-- The place of the winner and the winner, from the `i`-th candidate on. -/
def winnerFrom (i : ℕ) (winner : Option (ℕ × VerdictCandidate)) :
    List VerdictCandidate → Option (ℕ × VerdictCandidate)
  | [] => winner
  | c :: cs =>
    let ahead := match winner with
      | none => true
      | some (_, cur) => c.better cur
    winnerFrom (i + 1) (if ahead then some (i, c) else winner) cs

/-- Whether a candidate other than the winner ties with it over another verdict. -/
def conflicts (w : ℕ) (top : VerdictCandidate) (candidates : List VerdictCandidate) : Bool :=
  candidates.zipIdx.any fun (c, i) =>
    i != w && c.priority == top.priority && c.verdict.strictness == top.verdict.strictness &&
      c.verdict != top.verdict

def collate (layer : Layer) (st : WalkState) : Evaluation :=
  match winnerFrom 0 none st.candidates with
  | some (w, top) =>
    { verdict := top.verdict
      attributedTo := top.rule
      backstop := false
      effects := st.effects
      candidates := st.candidates
      expiresAt := st.trace.expiresAt
      conflict := conflicts w top st.candidates }
  | none =>
    { verdict := layer.backstop
      attributedTo := "backstop".toList
      backstop := true
      effects := st.effects
      candidates := st.candidates
      expiresAt := st.trace.expiresAt
      conflict := false }

/-- What the walks over all roots have collected. -/
def Forest.walked (forest : Forest) (snap : Snapshot) (ctx : EvalContext) : WalkState :=
  walkRoots snap ctx 0 forest.roots .empty

def evaluate (forest : Forest) (snap : Snapshot) (ctx : EvalContext) : Evaluation :=
  collate forest.layer (forest.walked snap ctx)

end Pkm.Pnp
