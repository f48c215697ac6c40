import Pkm.Lib.Rose
import Pkm.Pnp.Model.Action
import Pkm.Pnp.Model.Condition
/-!
# Rules

A rule is a named key with its conditions, its priority and its actions; the rules below
it are its exceptions. The rules of one layer form a forest, whose order carries no
meaning.
-/

namespace Pkm.Pnp

inductive Layer where
  | packet
  | rawPacket
  | flow
  | interface
  deriving DecidableEq

def Layer.isInterface : Layer → Bool
  | interface => true
  | _ => false

/-- What answers when no rule does. -/
def Layer.backstop : Layer → Verdict
  | interface => .ignore
  | _ => .drop

/-- The earliest moment at which a condition that was consulted would answer otherwise. -/
structure MatchTrace where
  expiresAt : Option ℤ
  deriving DecidableEq

namespace MatchTrace

def empty : MatchTrace := ⟨none⟩

def note (trace : MatchTrace) (moment : ℤ) : MatchTrace :=
  match trace.expiresAt with
  | some cur => if cur ≤ moment then ⟨some cur⟩ else ⟨some moment⟩
  | none => ⟨some moment⟩

/-- Notes the flip of a condition, if it has one. -/
def noteFlip (trace : MatchTrace) (flip : Option ℤ) : MatchTrace :=
  match flip with
  | some moment => trace.note moment
  | none => trace

end MatchTrace

/-- A rule without its exceptions. -/
structure RuleBody where
  name : Text
  conditions : List Condition
  priority : ℤ
  enabled : Bool
  actions : List Action

abbrev Rule := Rose RuleBody

/-- The conditions in turn, up to the first that is false; all that are consulted are noted. -/
def conditionsHold (snap : Snapshot) : List Condition → MatchTrace → Bool × MatchTrace
  | [], trace => (true, trace)
  | c :: cs, trace =>
    let trace := trace.noteFlip (c.nextFlip snap)
    if !c.matches snap then (false, trace) else conditionsHold snap cs trace

variable (rule : RuleBody)

def RuleBody.matchesTraced (snap : Snapshot) (trace : MatchTrace) : Bool × MatchTrace :=
  if !rule.enabled then (false, trace) else conditionsHold snap rule.conditions trace

def RuleBody.matches (snap : Snapshot) : Bool := (rule.matchesTraced snap .empty).1

def Action.isVerdict : Action → Bool
  | .verdict _ => true
  | _ => false

/-- Whether the actions contain a verdict outside of a prompt. -/
def RuleBody.hasDirectVerdict : Bool := rule.actions.any Action.isVerdict

structure NamedHash where
  name : Text
  hash : BitVec 64
  deriving DecidableEq

/-- The names that the rules mention. -/
structure Collector where
  tagNames : List NamedHash
  tagWrites : List NamedHash
  tagReadSites : List (Text × Text)
  streams : List NamedHash
  views : List CounterView
  viewSites : List (Text × Text)
  profiles : List Text

/-- The rules of one layer, with the names they mention. -/
structure Forest extends Collector where
  layer : Layer
  roots : List Rule

end Pkm.Pnp
