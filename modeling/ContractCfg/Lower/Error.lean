import ContractCfg.IR.Contract

/-!
Why lowering a program fails. Most errors name the syntax node at fault; an error of the
intermediate representation passes through unchanged. `dangling` is a reference to a
declaration that the unit does not have, and `unbounded` a recursion without bound (a struct
type or a constant that contains itself), for which no answer exists.
-/

namespace ContractCfg.Lower

/-- Lowering errors. -/
inductive LowerError where
  | unresolvedFunction (node : Nat) (name : String)
  | modifierNotFound (node : Nat) (name : String)
  | lvalueKindMismatch (node : Nat) (expected : String)
  | arityMismatch (node : Nat) (expected found : Nat)
  | breakOutsideLoop (node : Nat)
  | continueOutsideLoop (node : Nat)
  | placeholderOutsideModifier (node : Nat)
  | unsupportedFeature (node : Nat) (feature : String)
  | unknownVariable (node : Nat) (name : String)
  | siblingNotCompiled (node : Nat) (name : String)
  | inheritanceLinearization (node : Nat) (contract : String)
  | typeMismatch (node : Nat) (message : String)
  | ir (e : IR.IrError)
  | dangling
  | unbounded
  deriving Inhabited, DecidableEq

namespace LowerError

/-- The node an error names, if any. -/
def node? : LowerError → Option Nat
  | .unresolvedFunction n _ | .modifierNotFound n _ | .lvalueKindMismatch n _
  | .arityMismatch n _ _ | .breakOutsideLoop n | .continueOutsideLoop n
  | .placeholderOutsideModifier n | .unsupportedFeature n _ | .unknownVariable n _
  | .siblingNotCompiled n _ | .inheritanceLinearization n _ | .typeMismatch n _ => some n
  | .ir _ | .dangling | .unbounded => none

/-- The variant name; errors of the intermediate representation are prefixed `Ir.`. -/
def kind : LowerError → String
  | .unresolvedFunction .. => "UnresolvedFunction"
  | .modifierNotFound .. => "ModifierNotFound"
  | .lvalueKindMismatch .. => "LValueKindMismatch"
  | .arityMismatch .. => "ArityMismatch"
  | .breakOutsideLoop _ => "BreakOutsideLoop"
  | .continueOutsideLoop _ => "ContinueOutsideLoop"
  | .placeholderOutsideModifier _ => "PlaceholderOutsideModifier"
  | .unsupportedFeature .. => "UnsupportedFeature"
  | .unknownVariable .. => "UnknownVariable"
  | .siblingNotCompiled .. => "SiblingNotCompiled"
  | .inheritanceLinearization .. => "InheritanceLinearization"
  | .typeMismatch .. => "TypeMismatch"
  | .ir e => "Ir." ++ e.kind
  | .dangling => "Dangling"
  | .unbounded => "Unbounded"

/-- `#n`, the written form of a node id. -/
def nodeText (n : Nat) : String := "#" ++ toString n

/-- The message. -/
def message : LowerError → String
  | .unresolvedFunction n name => nodeText n ++ ": could not resolve function '" ++ name ++ "'"
  | .modifierNotFound n name => nodeText n ++ ": modifier '" ++ name ++ "' not found"
  | .lvalueKindMismatch n e => nodeText n ++ ": expression is not assignable as " ++ e
  | .arityMismatch n e f =>
    nodeText n ++ ": expected " ++ toString e ++ " values, found " ++ toString f
  | .breakOutsideLoop n => nodeText n ++ ": 'break' outside of a loop"
  | .continueOutsideLoop n => nodeText n ++ ": 'continue' outside of a loop"
  | .placeholderOutsideModifier n => nodeText n ++ ": placeholder outside of a modifier body"
  | .unsupportedFeature n f => nodeText n ++ ": unsupported feature: " ++ f
  | .unknownVariable n name => nodeText n ++ ": unknown variable '" ++ name ++ "'"
  | .siblingNotCompiled n name =>
    nodeText n ++ ": contract '" ++ name ++ "' must be compiled before it can be created"
  | .inheritanceLinearization n c => nodeText n ++ ": linearization of '" ++ c ++ "' is impossible"
  | .typeMismatch n m => nodeText n ++ ": type mismatch: " ++ m
  | .ir e => e.message
  | .dangling => "reference to a missing declaration"
  | .unbounded => "unbounded recursion"

end LowerError

end ContractCfg.Lower
