import ContractCfg.Source.Types

/-!
Building a source unit step by step. Every declaration, expression, statement and block gets
the next node id from one counter; the arguments of a step are built before the step itself.
Expression helpers derive the static type where the tree determines it: comparisons are
`bool`, other binary operators take the left type, a call takes the return types of the called
function, a member of a struct takes the member's type moved to the struct's location.

A step that refers to a declaration the unit does not have fails (`none`).
-/

namespace ContractCfg.Source

/-- A source unit under construction and the next node id. -/
structure UnitBuilder where
  unit : SourceUnit := {}
  nextId : Nat := 0
  deriving Inhabited

/-- Builder steps; `none` when a step refers to a missing declaration. -/
abbrev Build := StateT UnitBuilder Option

namespace Build

/-- Fails unless the reference is present. -/
def need (x : Option α) : Build α := fun b => x.map (·, b)

/-- The next node id. -/
def freshId : Build Nat := modifyGet fun b => (b.nextId, { b with nextId := b.nextId + 1 })

/-- Changes the unit. -/
def modifyUnit (f : SourceUnit → SourceUnit) : Build Unit :=
  modify fun b => { b with unit := f b.unit }

/-- The unit so far. -/
def current : Build SourceUnit := return (← get).unit

/-- Changes contract `c`, which must exist. -/
def modifyContract (c : Nat) (f : ContractDef → ContractDef) : Build Unit := do
  let d ← need (← current).contracts[c]?
  modifyUnit fun u => { u with contracts := u.contracts.set! c (f d) }

/-- Changes function `i`, which must exist. -/
def modifyFunction (i : Nat) (f : FunctionDef → FunctionDef) : Build Unit := do
  let d ← need (← current).functions[i]?
  modifyUnit fun u => { u with functions := u.functions.set! i (f d) }

/-- Changes modifier `i`, which must exist. -/
def modifyModifier (i : Nat) (f : ModifierDef → ModifierDef) : Build Unit := do
  let d ← need (← current).modifiers[i]?
  modifyUnit fun u => { u with modifiers := u.modifiers.set! i (f d) }

/-- A contract of kind `kind` with the given bases. -/
def contractOfKind (name : String) (kind : ContractKind) (bases : List Nat) : Build Nat := do
  let id ← freshId
  let d : ContractDef :=
    { id, name, kind, bases, stateVariables := [], functions := [], modifiers := [], structs := [] }
  modifyUnit fun u => { u with contracts := u.contracts.push d }
  return (← current).contracts.size - 1

/-- A plain contract. -/
def contract (name : String) (bases : List Nat) : Build Nat := contractOfKind name .contract bases

/-- Adds a variable declaration. -/
def pushVariable (name : String) (ty : TypeName) (scope : VariableScope) (visibility : Visibility)
    (isConstant : Bool) (value : Option Expr) : Build Nat := do
  let id ← freshId
  let d : VariableDecl := { id, name, ty, scope, visibility, isConstant, value }
  modifyUnit fun u => { u with vars := u.vars.push d }
  return (← current).vars.size - 1

/-- A state variable of contract `c`, its type moved to storage. -/
def stateVariable (c : Nat) (name : String) (ty : TypeName) (visibility : Visibility)
    (value : Option Expr) : Build Nat := do
  let v ← pushVariable name (ty.withLocation .storage) (.state c) visibility false value
  modifyContract c fun d => { d with stateVariables := d.stateVariables ++ [v] }
  pure v

/-- A constant of contract `c`; its type stays as given. -/
def constant (c : Nat) (name : String) (ty : TypeName) (visibility : Visibility) (value : Expr) :
    Build Nat := do
  let v ← pushVariable name ty (.state c) visibility true (some value)
  modifyContract c fun d => { d with stateVariables := d.stateVariables ++ [v] }
  pure v

/-- A struct of contract `c`. -/
def structType (c : Nat) (name : String) (members : List StructMember) : Build Nat := do
  let id ← freshId
  modifyUnit fun u => { u with structs := u.structs.push { id, name, contract := c, members } }
  let s := (← current).structs.size - 1
  modifyContract c fun d => { d with structs := d.structs ++ [s] }
  pure s

/-- Adds a function to contract `c`. -/
def pushFunction (c : Nat) (name : String) (kind : FunctionKind) (visibility : Visibility)
    (mutability : Mutability) : Build Nat := do
  let id ← freshId
  let d := FunctionDef.mk id name c kind visibility mutability [] [] [] none
  modifyUnit fun u => { u with functions := u.functions.push d }
  let f := (← current).functions.size - 1
  modifyContract c fun d => { d with functions := d.functions ++ [f] }
  pure f

/-- A function. -/
def function (c : Nat) (name : String) (visibility : Visibility) (mutability : Mutability) :
    Build Nat := pushFunction c name .function visibility mutability

/-- A constructor: unnamed and public. -/
def constructor (c : Nat) (mutability : Mutability) : Build Nat :=
  pushFunction c "" .constructor .pub mutability

/-- A fallback function: unnamed and external. -/
def fallback (c : Nat) (mutability : Mutability) : Build Nat :=
  pushFunction c "" .fallback .external mutability

/-- A parameter of function `f`. -/
def parameter (f : Nat) (name : String) (ty : TypeName) : Build Nat := do
  let v ← pushVariable name ty .parameter .internal false none
  modifyFunction f fun d => { d with params := d.params ++ [v] }
  pure v

/-- A return parameter of function `f`. -/
def returnParameter (f : Nat) (name : String) (ty : TypeName) : Build Nat := do
  let v ← pushVariable name ty .returnValue .internal false none
  modifyFunction f fun d => { d with returns := d.returns ++ [v] }
  pure v

/-- A block of the given statements. -/
def block (stmts : List Stmt) : Build Block := return .mk (← freshId) stmts

/-- Gives function `f` a body. -/
def setBody (f : Nat) (stmts : List Stmt) : Build Unit := do
  let b ← block stmts
  modifyFunction f fun d => { d with body := some b }

/-- Applies modifier `name` to function `f`, after the ones applied before. -/
def addModifier (f : Nat) (name : String) (args : List Expr) : Build Unit := do
  let id ← freshId
  modifyFunction f fun d => { d with modifiers := d.modifiers ++ [{ id, name, args }] }

/-- A modifier of contract `c` with an empty body. -/
def modifier (c : Nat) (name : String) : Build Nat := do
  let id ← freshId
  let body ← block []
  let d : ModifierDef := { id, name, contract := c, params := [], body }
  modifyUnit fun u => { u with modifiers := u.modifiers.push d }
  let m := (← current).modifiers.size - 1
  modifyContract c fun d => { d with modifiers := d.modifiers ++ [m] }
  pure m

/-- A parameter of modifier `m`. -/
def modifierParameter (m : Nat) (name : String) (ty : TypeName) : Build Nat := do
  let v ← pushVariable name ty .parameter .internal false none
  modifyModifier m fun d => { d with params := d.params ++ [v] }
  pure v

/-- Gives modifier `m` a body. -/
def setModifierBody (m : Nat) (stmts : List Stmt) : Build Unit := do
  let b ← block stmts
  modifyModifier m fun d => { d with body := b }

/-- A local variable. -/
def local_ (name : String) (ty : TypeName) : Build Nat :=
  pushVariable name ty .local .internal false none

/-- An expression node. -/
def expr (kind : ExprKind) (ty : TypeName) : Build Expr := return .mk (← freshId) kind ty

/-- A number literal. -/
def number (n : Int) (ty : TypeName) : Build Expr := expr (.literal (.number n)) ty

/-- A `uint256` literal. -/
def uint (n : Int) : Build Expr := number n TypeName.uint256

/-- A boolean literal. -/
def boolean (b : Bool) : Build Expr := expr (.literal (.bool b)) .bool

/-- A reference to variable `v`, typed as the variable. -/
def var (v : Nat) : Build Expr := do
  let d ← need (← current).vars[v]?
  expr (.ident d.name (.variable v)) d.ty

/-- A reference to function `f`. -/
def functionRef (f : Nat) : Build Expr := do
  let d ← need (← current).functions[f]?
  expr (.ident d.name (.function f)) .void

/-- A reference to contract `c`. -/
def contractRef (c : Nat) : Build Expr := do
  let d ← need (← current).contracts[c]?
  expr (.ident d.name (.contract c)) .void

/-- The identifier and type of a magic variable. -/
def Magic.identifier : Magic → String × TypeName
  | .msg => ("msg", .void)
  | .block => ("block", .void)
  | .tx => ("tx", .void)
  | .super => ("super", .void)
  | .now => ("now", TypeName.uint256)
  | .this => ("this", .address)

/-- A magic variable. -/
def magic (m : Magic) : Build Expr :=
  let (name, ty) := Magic.identifier m
  expr (.ident name (.magic m)) ty

/-- `this`, typed as contract `c`. -/
def this (c : Nat) : Build Expr := do
  let .mk id kind _ ← magic .this
  pure (.mk id kind (.contract c))

/-- The identifier of a builtin. -/
def Builtin.identifier : Builtin → String
  | .require => "require" | .assert => "assert" | .revert => "revert"
  | .keccak256 => "keccak256" | .addMod => "addmod" | .mulMod => "mulmod"
  | .blockHash => "blockhash" | .selfDestruct => "selfdestruct" | .gasLeft => "gasleft"

/-- A builtin function. -/
def builtin (b : Builtin) : Build Expr := expr (.ident (Builtin.identifier b) (.builtin b)) .void

/-- The type of `base.member`. -/
def memberType (base : Expr) (member : String) : Build TypeName := do
  if let .ident _ (.magic m) := base.kind then
    return match m, member with
      | .msg, "sender" | .tx, "origin" | .block, "coinbase" => .address
      | .msg, _ | .block, _ | .tx, _ => TypeName.uint256
      | _, "balance" => TypeName.uint256
      | _, _ => .void
  match base.ty, member with
  | .struct id loc, _ => do
    let s ← need (← current).structs[id]?
    pure ((s.members.find? (·.name == member)).elim .void (·.ty.withLocation loc))
  | .array .., "length" => pure TypeName.uint256
  | .address, "balance" | .contract _, "balance" => pure TypeName.uint256
  | _, _ => pure .void

/-- `base.member`. -/
def member (base : Expr) (name : String) : Build Expr := do
  let ty ← memberType base name
  expr (.member base name none) ty

/-- `base.f`, referring to function `f`. -/
def memberFunction (base : Expr) (f : Nat) : Build Expr := do
  let d ← need (← current).functions[f]?
  expr (.member base d.name (some (.function f))) .void

/-- `super.f`. -/
def superFunction (f : Nat) : Build Expr := do memberFunction (← magic .super) f

/-- `base[index]`. -/
def index (base idx : Expr) : Build Expr :=
  let ty := match base.ty with
    | .mapping _ value => value.withLocation .storage
    | .array elem _ loc => elem.withLocation loc
    | _ => .void
  expr (.index base (some idx)) ty

/-- A unary operation: `!` gives `bool`, `delete` nothing, the others the operand's type. -/
def unary (op : UnaryOp) (isPrefix : Bool) (operand : Expr) : Build Expr :=
  let ty := match op with
    | .not => .bool
    | .delete => .void
    | _ => operand.ty
  expr (.unary op isPrefix operand) ty

/-- A binary operation: comparisons and connectives give `bool`, the others the left type. -/
def binary (op : BinaryOp) (l r : Expr) : Build Expr :=
  expr (.binary op l r) (if op.isComparison || op.isShortCircuit then .bool else l.ty)

/-- `l = r`. -/
def assign (l r : Expr) : Build Expr := expr (.assign none l r) l.ty

/-- `l op= r`. -/
def compoundAssign (op : BinaryOp) (l r : Expr) : Build Expr := expr (.assign (some op) l r) l.ty

/-- `c ? a : b`, typed as `a`. -/
def conditional (c a b : Expr) : Build Expr := expr (.conditional c a b) a.ty

/-- A tuple, typed as the tuple of its items' types with `void` for holes. -/
def tuple (items : List (Option Expr)) : Build Expr :=
  expr (.tuple items) (.tuple (items.map fun i => (i.map (·.ty)).getD .void))

/-- The type of a call of `callee`. -/
def callType (callee : Expr) : Build TypeName := do
  let called := match callee.kind with
    | .ident _ (.function f) | .member _ _ (some (.function f)) => some f
    | _ => none
  if let some f := called then
    let u ← current
    let d ← need u.functions[f]?
    let returns ← d.returns.mapM fun r => return (← need u.vars[r]?).ty
    return match returns with
      | [] => .void
      | [t] => t
      | ts => .tuple ts
  return match callee.kind with
    | .ident _ (.builtin .keccak256) | .ident _ (.builtin .blockHash) => .fixedBytes 32
    | .ident _ (.builtin .addMod) | .ident _ (.builtin .mulMod) | .ident _ (.builtin .gasLeft) =>
      TypeName.uint256
    | .new (.contract c) => .contract c
    | .new (.array t) => t
    | .member _ "push" _ => TypeName.uint256
    | .member _ "send" _ => .bool
    | _ => .void

/-- A call with explicit value and gas. -/
def callWithOptions (callee : Expr) (args : List Expr) (value gas : Option Expr) : Build Expr := do
  let ty ← callType callee
  expr (.call callee args .regular value gas) ty

/-- A call. -/
def call (callee : Expr) (args : List Expr) : Build Expr := callWithOptions callee args none none

/-- A call of function `f` by name. -/
def callFunction (f : Nat) (args : List Expr) : Build Expr := do call (← functionRef f) args

/-- A call of a builtin. -/
def callBuiltin (b : Builtin) (args : List Expr) : Build Expr := do call (← builtin b) args

/-- A conversion to type `t`. -/
def convert (t : TypeName) (arg : Expr) : Build Expr := do
  let callee ← expr .typeExpr t
  expr (.call callee [arg] .typeConversion none none) t

/-- `S(args)`: a new memory struct. -/
def structNew (id : Nat) (args : List Expr) : Build Expr := do
  let s ← need (← current).structs[id]?
  let callee ← expr (.ident s.name (.struct id)) .void
  expr (.call callee args .structConstructor none none) (.struct id .memory)

/-- `new C(args)`. -/
def newContract (c : Nat) (args : List Expr) : Build Expr := do
  call (← expr (.new (.contract c)) .void) args

/-- `new T[](length)`, the type moved to memory. -/
def newArray (t : TypeName) (length : Expr) : Build Expr := do
  call (← expr (.new (.array (t.withLocation .memory))) .void) [length]

/-- A statement node. -/
def stmt (kind : StmtKind) : Build Stmt := return .mk (← freshId) kind

/-- A block statement. -/
def blockStmt (stmts : List Stmt) : Build Stmt := do stmt (.block (← block stmts))

end Build

end ContractCfg.Source
