import Pkm.Pnp.Model.Text
/-!
# Actions

What a rule does when it is executed. Verdicts are the dispositions; `TAG`, `COUNT` and
`REPORT` are side effects; `PROMPT` defers to a handler and has an action to fall back
on, which may be a prompt again; `NULL` abstains. The interface layer has verdicts of
its own. Actions are written as `NAME` or `NAME(arg, ..)`; blanks do not matter.
-/

namespace Pkm.Pnp

/-- How deep fallbacks of prompts may nest. -/
def maxPromptChain : ℕ := 4

/-- The story a REJECT tells the sender. -/
inductive RejectKind where
  | refused
  | prohibited
  deriving DecidableEq

def RejectKind.fromName (name : Text) : Option RejectKind :=
  if upperEq name "REFUSED".toList then some .refused
  else if upperEq name "PROHIBITED".toList then some .prohibited
  else none

/-- A disposition. `join` holds the place of a profile in the table of its forest. -/
inductive Verdict where
  | pass
  | reject (kind : RejectKind)
  | drop
  | join (profile : ℕ)
  | ignore
  | down
  deriving DecidableEq

namespace Verdict

/-- The rank that decides between verdicts of equal priority; the higher wins. -/
def strictness : Verdict → ℕ
  | pass => 0
  | reject .prohibited => 1
  | reject .refused => 2
  | drop => 3
  | join _ => 0
  | ignore => 1
  | down => 2

/-- The verdicts of the interface layer. -/
def isInterface : Verdict → Bool
  | join _ | ignore | down => true
  | _ => false

def strictest (self other : Verdict) : Verdict :=
  if other.strictness > self.strictness then other else self

end Verdict

inductive TagOp where
  | set (value : ℕ)
  | clear
  | add (value : ℕ)
  deriving DecidableEq

/-- What a COUNT contributes: a number, or the length of the packet. -/
inductive CountAmount where
  | literal (amount : ℕ)
  | length
  deriving DecidableEq

/-- One action. A prompt without fallback falls back on NULL. -/
inductive Action where
  | null
  | verdict (v : Verdict)
  | join (profile : Text)
  | prompt (handler : Text) (fallback : Option Action)
  | tag (name : Text) (op : TagOp)
  | count (name : Text) (amount : CountAmount)
  | report (level : ℕ)

/-! ## Parsing -/

inductive ActionParseError where
  | unknownAction
  | badArity
  | badArgument
  | unknownRejectKind
  | malformed
  deriving DecidableEq

abbrev ParseResult := Except ActionParseError

/-- The rest of an argument list, with the open parentheses, the current argument and those
before it. -/
def splitArgsFrom (depth : ℕ) (cur : Text) (args : List Text) :
    Text → ParseResult (List Text × Text)
  | [] => .error .malformed
  | c :: rest =>
    if c = '(' then splitArgsFrom (depth + 1) (cur ++ [c]) args rest
    else if c = ')' then
      if depth = 1 then
        if !cur.isEmpty then .ok (args ++ [cur], rest)
        else if !args.isEmpty then .error .malformed
        else .ok (args, rest)
      else splitArgsFrom (depth - 1) (cur ++ [c]) args rest
    else if c = ',' ∧ depth = 1 then
      if cur.isEmpty then .error .malformed else splitArgsFrom depth [] (args ++ [cur]) rest
    else splitArgsFrom depth (cur ++ [c]) args rest

/-- The argument list a text starts with, if it does, and what follows it. -/
def splitArgs : Text → ParseResult (List Text × Text)
  | '(' :: rest => splitArgsFrom 1 [] [] rest
  | input => .ok ([], input)

def expectArity (args : List Text) (want : ℕ) (action : Action) : ParseResult Action :=
  if args.length ≠ want then .error .badArity else .ok action

def parseJoin (args : List Text) : ParseResult Action :=
  match args with
  | [arg] =>
    let profile := arg.map fun c => if c = '\\' then '/' else c
    if profile.isEmpty || profile.head? == some '/' || profile.getLast? == some '/' ||
        (profile.zip profile.tail).any (· == ('/', '/')) then
      .error .badArgument
    else .ok (.join profile)
  | _ => .error .badArity

def parseReject (args : List Text) : ParseResult Action :=
  match args with
  | [] => .ok (.verdict (.reject .refused))
  | [k] =>
    match RejectKind.fromName k with
    | some kind => .ok (.verdict (.reject kind))
    | none => .error .unknownRejectKind
  | _ => .error .badArity

/-- The action a prompt falls back on: an explicit NULL is no fallback. -/
def fallbackOf : Action × Text → ParseResult (Option Action)
  | (inner, left) =>
    if !left.isEmpty then .error .malformed
    else
      match inner with
      | .null => .ok none
      | other => .ok (some other)

variable (inner : Option (Text → ParseResult (Action × Text))) (args : List Text)

/-- A prompt, with the parser of its fallback, unless the chain is at its end. -/
def parsePrompt : ParseResult Action :=
  match inner with
  | none => .error .malformed
  | some parse =>
    match args with
    | [handler] => if handler.isEmpty then .error .badArgument else .ok (.prompt handler none)
    | [handler, text] =>
      if handler.isEmpty then .error .badArgument
      else do
        let fallback ← parse text >>= fallbackOf
        .ok (.prompt handler fallback)
    | _ => .error .badArity

def parseTagOp (opName : Text) (operand : Option ℕ) : ParseResult TagOp :=
  if upperEq opName "SET".toList then .ok (.set (operand.getD 1))
  else if upperEq opName "CLEAR".toList then
    if operand.isSome then .error .badArity else .ok .clear
  else if upperEq opName "ADD".toList then .ok (.add (operand.getD 1))
  else .error .badArgument

def parseOperand (arg : Option Text) : ParseResult (Option ℕ) :=
  match arg with
  | none => .ok none
  | some a =>
    match parseUint a with
    | some n => .ok (some n)
    | none => .error .badArgument

def parseTag : ParseResult Action :=
  match args with
  | name :: opName :: rest =>
    if rest.length > 1 then .error .badArity
    else if name.isEmpty then .error .badArgument
    else do
      let operand ← parseOperand rest.head?
      let op ← parseTagOp opName operand
      .ok (.tag name op)
  | _ => .error .badArity

def parseAmount (arg : Option Text) : ParseResult CountAmount :=
  match arg with
  | none => .ok (.literal 1)
  | some a =>
    if upperEq a "LENGTH".toList then .ok .length
    else
      match parseUint a with
      | some n => .ok (.literal n)
      | none => .error .badArgument

def parseCount : ParseResult Action :=
  match args with
  | name :: rest =>
    if rest.length > 1 then .error .badArity
    else if name.isEmpty then .error .badArgument
    else do
      let amount ← parseAmount rest.head?
      .ok (.count name amount)
  | _ => .error .badArity

def parseReport : ParseResult Action :=
  match args with
  | [arg] =>
    match parseInt arg with
    | some level =>
      if 1 ≤ level ∧ level ≤ 5 then .ok (.report level.toNat) else .error .badArgument
    | none => .error .badArgument
  | _ => .error .badArity

/-- The action of a name in upper case. -/
def parseNamed (name : Text) (args : List Text) : ParseResult Action :=
  if name = "NULL".toList then expectArity args 0 .null
  else if name = "PASS".toList then expectArity args 0 (.verdict .pass)
  else if name = "DROP".toList then expectArity args 0 (.verdict .drop)
  else if name = "IGNORE".toList then expectArity args 0 (.verdict .ignore)
  else if name = "DOWN".toList then expectArity args 0 (.verdict .down)
  else if name = "JOIN".toList then parseJoin args
  else if name = "REJECT".toList then parseReject args
  else if name = "PROMPT".toList then parsePrompt inner args
  else if name = "TAG".toList then parseTag args
  else if name = "COUNT".toList then parseCount args
  else if name = "REPORT".toList then parseReport args
  else .error .unknownAction

def isDelimiter (c : Char) : Bool := c == '(' || c == ',' || c == ')'

/-- One action expression and what follows it. -/
def parseWith (input : Text) : ParseResult (Action × Text) :=
  let name := input.takeWhile fun c => !isDelimiter c
  let rest := input.dropWhile fun c => !isDelimiter c
  if name.isEmpty || utf8Len name > 8 then .error .unknownAction
  else do
    let (args, rest) ← splitArgs rest
    let action ← parseNamed inner (name.map Char.toUpper) args
    .ok (action, rest)

/-- `parse_one` at the depth that leaves room for so many more prompts. -/
def parseOne : ℕ → Text → ParseResult (Action × Text)
  | 0 => parseWith none
  | room + 1 => parseWith (some (parseOne room))

def parseAction (expr : Text) : ParseResult Action := do
  let (action, rest) ← parseOne maxPromptChain (expr.filter fun c => !isAsciiWhitespace c)
  if !rest.isEmpty then .error .malformed else .ok action

end Pkm.Pnp
