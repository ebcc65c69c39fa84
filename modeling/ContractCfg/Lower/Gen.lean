import Std.Data.HashMap
import ContractCfg.IR.Builder
import ContractCfg.Lower.Linearize

/-!
The lowering monad. Lowering reads the program, the options and the contracts already
compiled (`Env`); it updates the state of the contract being compiled (`ContractState`: struct
registry, storage slots, finished functions, the queue of functions reached only by internal
calls) and of the function being compiled (`FnState`: the builder, register names, the
variables in scope, loop and return targets, and the shared failure blocks). Failure is a
`LowerError`.
-/

namespace ContractCfg.Lower

open ContractCfg.Source
open ContractCfg.IR (Value FnBuilder Instr Terminator Ty)

/-- Switches for the runtime checks the lowering inserts. -/
structure Options where
  /-- Division and modulo by zero abort. -/
  divisionChecks : Bool := true
  /-- Array indices are checked against the length. -/
  boundsChecks : Bool := true
  /-- Public state variables get getter functions. -/
  generateAccessors : Bool := true
  deriving Inhabited, DecidableEq

/-- No runtime checks and no getters. -/
def Options.unchecked : Options := ⟨false, false, false⟩

/-- What lowering one contract reads. -/
structure Env where
  unit : SourceUnit
  options : Options
  /-- Contracts compiled before, by index; `new` may only create these. -/
  siblings : List (Nat × IR.Contract)
  contract : Nat
  /-- Most derived first. -/
  linearization : List Nat
  deriving Inhabited

/-- Where `break` and `continue` jump. -/
structure LoopTargets where
  breakTo : Nat
  continueTo : Nat
  deriving Inhabited

/-- A function body with the modifiers wrapped around it, outermost first. -/
structure Chain where
  function : Nat
  owner : Nat
  modifiers : List ModifierUse
  body : Block
  deriving Inhabited

/-- The state of the function being lowered. -/
structure FnState where
  builder : FnBuilder
  /-- How often each register base name was handed out. -/
  names : Std.HashMap String Nat := {}
  /-- Registers of parameters and return variables. -/
  functionScope : Std.HashMap Nat Value := {}
  /-- One layer per body or modifier being expanded, innermost first. -/
  layers : List (Std.HashMap Nat Value) := []
  /-- The contract whose code is being lowered; `super` is relative to it. -/
  scope : Nat
  returnVars : List (Value × TypeName) := []
  chain : Option Chain := none
  /-- The modifier whose body is being lowered, if any. -/
  modifierDepth : Option Nat := none
  /-- Innermost first. -/
  loops : List LoopTargets := []
  /-- Innermost first. -/
  returnTargets : List Nat := []
  revertBlock : Option Nat := none
  statusRevert : Option (Nat × Value) := none
  assertFailBlock : Option Nat := none
  deriving Inhabited

/-- A fresh function state for the function `name` written in contract `scope`. -/
def FnState.new (name : String) (scope : Nat) : FnState :=
  { builder := FnBuilder.new name, scope := scope }

/-- The state of the contract being lowered. -/
structure ContractState where
  types : IR.TypeRegistry := {}
  storage : List IR.Slot := []
  /-- The slot of each state variable. -/
  slots : Std.HashMap Nat Nat := {}
  functions : OrderedMap String IR.Function := {}
  /-- Created contracts, in order of first creation. -/
  dependencies : List String := []
  /-- Functions still to lower under their qualified name; the last queued comes first. -/
  callQueue : List Nat := []
  queued : List Nat := []
  deriving Inhabited

/-- Contract and function state together. -/
structure GenState where
  contract : ContractState := {}
  fn : FnState
  deriving Inhabited

/-- The lowering monad. -/
abbrev Gen := ReaderT Env (StateT GenState (Except LowerError))

/-- Status that a plain `revert`, `throw` or failed `require` reverts with. -/
def revertStatus : Int := -1

namespace Gen

/-- Fails with an error of the intermediate representation. -/
def liftIr (x : Except IR.IrError α) : Gen α :=
  match x with
  | .ok a => pure a
  | .error e => throw (.ir e)

/-- The unit being lowered. -/
def unit : Gen SourceUnit := return (← read).unit

/-- The contract at index `i`. -/
def contractDef (i : Nat) : Gen ContractDef := do need ((← unit).contract? i)

/-- The function at index `i`. -/
def functionDef (i : Nat) : Gen FunctionDef := do need ((← unit).function? i)

/-- The modifier at index `i`. -/
def modifierDef (i : Nat) : Gen ModifierDef := do need ((← unit).modifier? i)

/-- The variable at index `i`. -/
def varDecl (i : Nat) : Gen VariableDecl := do need ((← unit).var? i)

/-- The struct at index `i`. -/
def structDef (i : Nat) : Gen StructDef := do need ((← unit).struct? i)

/-- Changes the function state. -/
def modifyFn (f : FnState → FnState) : Gen Unit :=
  modify fun s => { s with fn := f s.fn }

/-- Changes the contract state. -/
def modifyContract (f : ContractState → ContractState) : Gen Unit :=
  modify fun s => { s with contract := f s.contract }

/-- Changes the builder. -/
def modifyBuilder (f : FnBuilder → FnBuilder) : Gen Unit :=
  modifyFn fun c => { c with builder := f c.builder }

/-- Runs a builder step that yields a value. -/
def withBuilder (f : FnBuilder → α × FnBuilder) : Gen α := do
  let (a, b) := f (← get).fn.builder
  modifyBuilder fun _ => b
  pure a

/-- Runs a builder step that may fail. -/
def tryBuilder (f : FnBuilder → Except IR.IrError FnBuilder) : Gen Unit := do
  let b ← liftIr (f (← get).fn.builder)
  modifyBuilder fun _ => b

/-- Adds a block; the current block stays. -/
def createBlock (label : String) : Gen Nat := withBuilder (·.createBlock label)

/-- Makes block `id` current. -/
def switchTo (id : Nat) : Gen Unit := tryBuilder (·.switchTo id)

/-- The current block. -/
def currentBlock : Gen Nat := return (← get).fn.builder.current

/-- Closes the current block. -/
def terminate (t : Terminator) : Gen Unit := tryBuilder (·.terminate t)

/-- Whether the current block is closed. -/
def isTerminated : Gen Bool := return (← get).fn.builder.isTerminated

/-- Fails when the current block is closed. -/
def checkOpen : Gen Unit := do liftIr (← get).fn.builder.checkOpen

/-- Appends an instruction without results. -/
def emitUnit (i : Instr) : Gen Unit := do
  checkOpen
  modifyBuilder (·.push i)

/-- Appends an instruction writing one fresh register and returns it. -/
def emit (mk : Value → Instr) : Gen Value := do
  checkOpen
  withBuilder (·.emit mk)

/-- Appends an instruction writing `n` fresh registers and returns them. -/
def emitMany (n : Nat) (mk : List Value → Instr) : Gen (List Value) := do
  checkOpen
  let rs ← withBuilder (·.newTemps n)
  modifyBuilder (·.push (mk rs))
  pure rs

/-- Appends a binary operation. -/
def binary (op : IR.BinOp) (l r : Value) : Gen Value := emit fun x => .binary x op l r

/-- Appends a unary operation. -/
def unary (op : IR.UnOp) (v : Value) : Gen Value := emit fun x => .unary x op v

/-- Appends a read of a context value. -/
def context (v : IR.ContextVar) : Gen Value := emit fun x => .getContext x v

/-- A register name not handed out before in this function: `base`, then `base.1`, … -/
def freshName (base : String) : Gen String := do
  let base := if base.isEmpty then "_" else base
  let n := (← get).fn.names.getD base 0
  modifyFn fun c => { c with names := c.names.insert base (n + 1) }
  pure (if n == 0 then base else base ++ "." ++ toString n)

/-- A fresh named register. -/
def freshLocal (base : String) : Gen Value := return .reg (← freshName base)

/-- The register of variable `v`: the innermost layer, then the function scope. -/
def lookupVar (v : Nat) : Gen (Option Value) := do
  let c := (← get).fn
  match c.layers.head?.bind (·.get? v) with
  | some x => pure (some x)
  | none => pure (c.functionScope.get? v)

/-- Binds variable `v` in the innermost layer, or the function scope when there is none. -/
def declareVar (v : Nat) (x : Value) : Gen Unit :=
  modifyFn fun c => match c.layers with
    | [] => { c with functionScope := c.functionScope.insert v x }
    | l :: ls => { c with layers := l.insert v x :: ls }

/-- Binds variable `v` in the function scope. -/
def declareInFunctionScope (v : Nat) (x : Value) : Gen Unit :=
  modifyFn fun c => { c with functionScope := c.functionScope.insert v x }

/-- Opens a layer of bindings. -/
def pushLayer : Gen Unit := modifyFn fun c => { c with layers := {} :: c.layers }

/-- Closes the innermost layer of bindings. -/
def popLayer : Gen Unit := modifyFn fun c => { c with layers := c.layers.drop 1 }

/-- Adds a block and makes it current. -/
def startBlock (label : String) : Gen Nat := do
  let b ← createBlock label
  switchTo b
  pure b

/-- Jumps to `target` unless the current block is closed. -/
def jumpIfOpen (target : Nat) : Gen Unit := do
  if !(← isTerminated) then terminate (.jump target)

/-- Jumps to `target` and goes on in a fresh block that nothing reaches. -/
def jumpAndDetach (target : Nat) : Gen Unit := do
  terminate (.jump target)
  discard (startBlock "unreachable")

/-- Branches to `failure` when `cond` holds and goes on in a fresh block `label` otherwise;
a constant condition decides at once. -/
def failIf (cond : Value) (failure : Nat) (label : String) : Gen Unit :=
  match cond.asConst? with
  | some c => if c.isZero then pure () else jumpAndDetach failure
  | none => do
    let next ← createBlock label
    terminate (.branch cond failure next)
    switchTo next

/-- A block labelled `label` closed by `t`, made without leaving the current block. -/
def terminalBlock (label : String) (t : Terminator) : Gen Nat := do
  let current ← currentBlock
  let b ← createBlock label
  switchTo b
  terminate t
  switchTo current
  pure b

/-- The shared block that reverts with `revertStatus`. -/
def revertBlock : Gen Nat := do
  match (← get).fn.revertBlock with
  | some b => pure b
  | none =>
    let b ← terminalBlock "revert" (.revert (.ofInt revertStatus))
    modifyFn fun c => { c with revertBlock := some b }
    pure b

/-- The shared block that reverts with the status held in the returned register. -/
def statusRevertBlock : Gen (Nat × Value) := do
  match (← get).fn.statusRevert with
  | some p => pure p
  | none =>
    let status ← freshLocal "status"
    let b ← terminalBlock "revert.status" (.revert status)
    modifyFn fun c => { c with statusRevert := some (b, status) }
    pure (b, status)

/-- The shared block for failed assertions and runtime checks. -/
def assertFailBlock : Gen Nat := do
  match (← get).fn.assertFailBlock with
  | some b => pure b
  | none =>
    let b ← terminalBlock "assert.fail" .abort
    modifyFn fun c => { c with assertFailBlock := some b }
    pure b

/-- Enters a loop. -/
def pushLoop (breakTo continueTo : Nat) : Gen Unit :=
  modifyFn fun c => { c with loops := ⟨breakTo, continueTo⟩ :: c.loops }

/-- Leaves the innermost loop. -/
def popLoop : Gen Unit := modifyFn fun c => { c with loops := c.loops.drop 1 }

/-- Hides the enclosing loops and returns them. -/
def takeLoops : Gen (List LoopTargets) := do
  let ls := (← get).fn.loops
  modifyFn fun c => { c with loops := [] }
  pure ls

/-- Puts back loops hidden by `takeLoops`. -/
def restoreLoops (ls : List LoopTargets) : Gen Unit := modifyFn fun c => { c with loops := ls }

/-- Enters a body whose `return` jumps to `b`. -/
def pushReturnTarget (b : Nat) : Gen Unit :=
  modifyFn fun c => { c with returnTargets := b :: c.returnTargets }

/-- Leaves the innermost body. -/
def popReturnTarget : Gen Unit := modifyFn fun c => { c with returnTargets := c.returnTargets.drop 1 }

/-- The registers of the return variables. -/
def returnValues : Gen (List Value) := return (← get).fn.returnVars.map (·.1)

end Gen

end ContractCfg.Lower
