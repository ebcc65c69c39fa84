/-!
The resolved, typed syntax tree of a contract program. Declarations live in arenas of a
`SourceUnit` and are referred to by index, so the tree has no back references. Every
identifier already names its declaration and every expression carries its static type.
-/

namespace ContractCfg.Source

/-- The kind of a contract. -/
inductive ContractKind where
  | contract | interface | library
  deriving DecidableEq, Repr, Inhabited

/-- The kind of a function. -/
inductive FunctionKind where
  | function | constructor | fallback
  deriving DecidableEq, Repr, Inhabited

/-- Who may call a function or read a variable: anyone (`pub`), only from outside, this
contract and its heirs, or this contract alone (`priv`). -/
inductive Visibility where
  | pub | external | internal | priv
  deriving DecidableEq, Repr, Inhabited

/-- Whether public and external functions are reachable from outside. -/
def Visibility.isExternallyCallable : Visibility → Bool
  | .pub | .external => true
  | _ => false

/-- What a function may do to state. -/
inductive Mutability where
  | pure | view | nonPayable | payable
  deriving DecidableEq, Repr, Inhabited

/-- Where a reference-typed value lives. -/
inductive Location where
  | storage | storagePointer | memory
  deriving DecidableEq, Repr, Inhabited

/-- Static types of the source language. -/
inductive TypeName where
  | bool
  | uint (bits : Nat)
  | int (bits : Nat)
  | address
  | fixedBytes (n : Nat)
  | array (base : TypeName) (length : Option Nat) (loc : Location)
  | mapping (key value : TypeName)
  | struct (id : Nat) (loc : Location)
  | contract (id : Nat)
  | tuple (items : List TypeName)
  | void
  deriving Repr, Inhabited

mutual
/-- Structural equality of types. -/
def TypeName.beq : TypeName → TypeName → Bool
  | .bool, .bool => true
  | .uint a, .uint b => a == b
  | .int a, .int b => a == b
  | .address, .address => true
  | .fixedBytes a, .fixedBytes b => a == b
  | .array b₁ n₁ l₁, .array b₂ n₂ l₂ => TypeName.beq b₁ b₂ && n₁ == n₂ && l₁ == l₂
  | .mapping k₁ v₁, .mapping k₂ v₂ => TypeName.beq k₁ k₂ && TypeName.beq v₁ v₂
  | .struct i₁ l₁, .struct i₂ l₂ => i₁ == i₂ && l₁ == l₂
  | .contract a, .contract b => a == b
  | .tuple xs, .tuple ys => TypeName.beqList xs ys
  | .void, .void => true
  | _, _ => false

/-- Pointwise equality of type lists. -/
def TypeName.beqList : List TypeName → List TypeName → Bool
  | [], [] => true
  | x :: xs, y :: ys => TypeName.beq x y && TypeName.beqList xs ys
  | _, _ => false
end

instance : BEq TypeName := ⟨TypeName.beq⟩

/-- Scope of a variable declaration. -/
inductive VariableScope where
  | state (contract : Nat)
  | local
  | parameter
  | returnValue
  deriving DecidableEq, Repr, Inhabited

/-- The magic identifiers. -/
inductive Magic where
  | msg | block | tx | this | super | now
  deriving DecidableEq, Repr, Inhabited

/-- Built-in functions of the source language. -/
inductive Builtin where
  | require | assert | revert | keccak256 | addMod | mulMod | blockHash | selfDestruct | gasLeft
  deriving DecidableEq, Repr, Inhabited

/-- What an identifier refers to. -/
inductive Declaration where
  | variable (i : Nat)
  | function (i : Nat)
  | modifier (i : Nat)
  | contract (i : Nat)
  | struct (i : Nat)
  | magic (m : Magic)
  | builtin (b : Builtin)
  deriving DecidableEq, Repr, Inhabited

/-- Literal values. -/
inductive Literal where
  | bool (b : Bool)
  | number (n : Int)
  deriving DecidableEq, Repr, Inhabited

/-- Unary operators; `inc` and `dec` come in prefix and postfix form. -/
inductive UnaryOp where
  | not | bitNot | neg | inc | dec | delete
  deriving DecidableEq, Repr, Inhabited

/-- Binary operators; `and` and `or` short-circuit. -/
inductive BinaryOp where
  | add | sub | mul | div | mod | exp
  | bitAnd | bitOr | bitXor | shl | shr
  | eq | ne | lt | gt | le | ge
  | and | or
  deriving DecidableEq, Repr, Inhabited

/-- The six comparisons. -/
def BinaryOp.isComparison : BinaryOp → Bool
  | .eq | .ne | .lt | .gt | .le | .ge => true
  | _ => false

/-- The two short-circuit connectives. -/
def BinaryOp.isShortCircuit : BinaryOp → Bool
  | .and | .or => true
  | _ => false

/-- How a call expression is meant. -/
inductive CallKind where
  | regular | typeConversion | structConstructor
  deriving DecidableEq, Repr, Inhabited

/-- What `new` creates: a contract, or a memory array of the given type. -/
inductive NewTarget where
  | contract (id : Nat)
  | array (ty : TypeName)
  deriving Repr, Inhabited

mutual
/-- An expression: its node id, its form and its static type. -/
inductive Expr where
  | mk (id : Nat) (kind : ExprKind) (ty : TypeName)

/-- The forms of expressions. -/
inductive ExprKind where
  | literal (l : Literal)
  | ident (name : String) (decl : Declaration)
  | unary (op : UnaryOp) (isPrefix : Bool) (operand : Expr)
  | binary (op : BinaryOp) (left right : Expr)
  | assign (op : Option BinaryOp) (left right : Expr)
  | conditional (cond whenTrue whenFalse : Expr)
  | tuple (items : List (Option Expr))
  | call (callee : Expr) (args : List Expr) (kind : CallKind) (value gas : Option Expr)
  | new (target : NewTarget)
  | typeExpr
  | member (base : Expr) (name : String) (ref : Option Declaration)
  | index (base : Expr) (index : Option Expr)
end

instance : Inhabited Expr := ⟨.mk 0 .typeExpr .void⟩

namespace Expr

/-- The node id. -/
def id : Expr → Nat
  | .mk i _ _ => i

/-- The form. -/
def kind : Expr → ExprKind
  | .mk _ k _ => k

/-- The static type. -/
def ty : Expr → TypeName
  | .mk _ _ t => t

end Expr

mutual
/-- A statement: its node id and its form. -/
inductive Stmt where
  | mk (id : Nat) (kind : StmtKind)

/-- A braced block. -/
inductive Block where
  | mk (id : Nat) (stmts : List Stmt)

/-- The forms of statements. -/
inductive StmtKind where
  | block (b : Block)
  | declare (vars : List (Option Nat)) (init : Option Expr)
  | expr (e : Expr)
  | ifThen (cond : Expr) (thenBody : Stmt) (elseBody : Option Stmt)
  | whileLoop (cond : Expr) (body : Stmt) (isDoWhile : Bool)
  | forLoop (init : Option Stmt) (cond : Option Expr) (update : Option Expr) (body : Stmt)
  | continueLoop
  | breakLoop
  | returnWith (value : Option Expr)
  | throwStmt
  | placeholder
  | inlineAssembly
end

instance : Inhabited Block := ⟨.mk 0 []⟩

/-- The node id of a statement. -/
def Stmt.id : Stmt → Nat
  | .mk i _ => i

/-- The form of a statement. -/
def Stmt.kind : Stmt → StmtKind
  | .mk _ k => k

/-- The node id of a block. -/
def Block.id : Block → Nat
  | .mk i _ => i

/-- The statements of a block. -/
def Block.stmts : Block → List Stmt
  | .mk _ ss => ss

/-- A contract, interface or library. -/
structure ContractDef where
  id : Nat
  name : String
  kind : ContractKind
  /-- Direct bases, most base-like first. -/
  bases : List Nat
  stateVariables : List Nat
  functions : List Nat
  modifiers : List Nat
  structs : List Nat
  deriving Inhabited

/-- A modifier used on a function, with its arguments. -/
structure ModifierUse where
  id : Nat
  name : String
  args : List Expr
  deriving Inhabited

/-- A function, constructor or fallback; `body` is absent for a declaration only. -/
structure FunctionDef where
  id : Nat
  name : String
  contract : Nat
  kind : FunctionKind
  visibility : Visibility
  mutability : Mutability
  params : List Nat
  returns : List Nat
  /-- Outermost first. -/
  modifiers : List ModifierUse
  body : Option Block
  deriving Inhabited

/-- Whether the function has a body. -/
def FunctionDef.isImplemented (f : FunctionDef) : Bool := f.body.isSome

/-- A modifier definition. -/
structure ModifierDef where
  id : Nat
  name : String
  contract : Nat
  params : List Nat
  body : Block
  deriving Inhabited

/-- A variable: state variable, local, parameter or return variable. -/
structure VariableDecl where
  id : Nat
  name : String
  ty : TypeName
  scope : VariableScope
  visibility : Visibility
  isConstant : Bool
  value : Option Expr
  deriving Inhabited

/-- Whether the variable lives in contract storage. -/
def VariableDecl.isStateVariable (v : VariableDecl) : Bool :=
  match v.scope with
  | .state _ => true
  | _ => false

/-- A named member of a struct. -/
structure StructMember where
  name : String
  ty : TypeName
  deriving Inhabited

/-- A struct definition. -/
structure StructDef where
  id : Nat
  name : String
  contract : Nat
  members : List StructMember
  deriving Inhabited

/-- A whole program: the arenas of its declarations. -/
structure SourceUnit where
  contracts : Array ContractDef := #[]
  functions : Array FunctionDef := #[]
  modifiers : Array ModifierDef := #[]
  vars : Array VariableDecl := #[]
  structs : Array StructDef := #[]
  deriving Inhabited

end ContractCfg.Source
