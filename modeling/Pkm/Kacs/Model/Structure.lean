import Pkm.Kacs.Model.Condition
/-!
# Structural validation of conditional expressions

A policy is installed only if the conditions of its rules are well formed. The
check runs the bytecode without a token or claims: literals and references are
read as the evaluator reads them, and the stack holds only whether an entry is a
value or a result.
-/

namespace Pkm.Kacs

open Bytes

namespace Condition

inductive StructuralEntry where
  | value
  | result
  deriving DecidableEq

/-- The stack of a validation, top first. -/
abbrev StructuralStack := List StructuralEntry

def popKind (expected : StructuralEntry) : StructuralStack → Option StructuralStack
  | kind :: stack => if kind = expected then some stack else none
  | [] => none

/-- A logical operator takes values and results alike. -/
def popStructuralOperand : StructuralStack → Option StructuralStack
  | _ :: stack => some stack
  | [] => none

/-- The stack an operator token leaves below its result. -/
def structuralOperator (tokenType : Byte) (stack : StructuralStack) : Option StructuralStack :=
  if (0x80#8 ≤ tokenType ∧ tokenType ≤ 0x86#8) ∨ tokenType = 0x88#8 ∨ tokenType = 0x8e#8 ∨
      tokenType = 0x8f#8 then do
    let stack ← popKind .value stack
    popKind .value stack
  else if tokenType = 0x87#8 ∨ (0x89#8 ≤ tokenType ∧ tokenType ≤ 0x8d#8) ∨
      (0x90#8 ≤ tokenType ∧ tokenType ≤ 0x93#8) then
    popKind .value stack
  else if tokenType = 0xa0#8 ∨ tokenType = 0xa1#8 then do
    let stack ← popStructuralOperand stack
    popStructuralOperand stack
  else if tokenType = 0xa2#8 then popStructuralOperand stack
  else none

variable [CharCase] (bytes : Bytes)

/-- One token: the kind it pushes, the position behind it and the stack below the entry. -/
def structuralToken (tokenType : Byte) (offset : ℕ) (stack : StructuralStack) :
    Option (StructuralEntry × ℕ × StructuralStack) :=
  if 0x01#8 ≤ tokenType ∧ tokenType ≤ 0x51#8 then do
    let (_, offset) ← parseLiteral bytes
      (parseCompositeLiteral bytes maxCompositeLiteralDepth) tokenType offset
    some (.value, offset, stack)
  else if 0xf8#8 ≤ tokenType ∧ tokenType ≤ 0xfb#8 then do
    let (_, offset) ← parseAttributeRef bytes offset [] false
    some (.value, offset, stack)
  else do
    let stack ← structuralOperator tokenType stack
    some (.result, offset, stack)

def validateTokens : ℕ → ℕ → StructuralStack → Option Bool :=
  tokenLoop bytes (structuralToken bytes) (fun stack => decide (stack = [.result])) false

end Condition

/-- Whether a condition is well formed, whatever it will be evaluated against. -/
def validateConditionalExpressionStructure [CharCase] (bytes : Bytes) : Bool :=
  if bytes.length < 4 ∨ bytes.take 4 ≠ [0x61#8, 0x72#8, 0x74#8, 0x78#8] then false
  else (Condition.validateTokens bytes bytes.length 4 []).getD false

end Pkm.Kacs
