import ContractCfg.Lower.Place
import ContractCfg.Source.Size

/-!
Lowering expressions. An expression evaluates to as many values as its type has components,
operands left to right. Places are computed before the value they receive is stored, except
in compound assignments, where the right side comes first. Calls go to the most derived
implementation; a call into a foreign library, or into an entry point that rejects value,
targets the function's qualified copy, which is queued for lowering.

The three evaluators (values, single value, place) call each other; each step spends one unit
of `fuel`, which is enough for every expression of the unit and runs out only on a constant
defined by itself.
-/

namespace ContractCfg.Lower

open ContractCfg.Source
open ContractCfg.IR (Value)

/-- Pairs left-hand components with right-hand values. Equal counts pair up in order; with
fewer components on the left, a trailing hole aligns them with the start of the right side
and a leading hole with its end. Gives, per component, the index of its value. -/
def alignComponents (present : List Bool) (available node : Nat) :
    Except LowerError (List (Option Nat)) := do
  let wanted := present.length
  let shift ←
    if wanted == available then pure 0
    else if wanted < available && present.getLast? == some false then pure 0
    else if wanted < available && present.head? == some false then pure (available - wanted)
    else throw (.arityMismatch node wanted available)
  pure (present.zipIdx.map fun (keep, i) => if keep then some (i + shift) else none)

/-- The context value that `magic.member` reads. -/
def magicMember : Magic → String → Option IR.ContextVar
  | .msg, "sender" => some .msgSender
  | .msg, "value" => some .msgValue
  | .msg, "gas" => some .gasLeft
  | .tx, "origin" => some .txOrigin
  | .tx, "gasprice" => some .txGasPrice
  | .block, "number" => some .blockNumber
  | .block, "timestamp" => some .blockTimestamp
  | .block, "coinbase" => some .blockCoinbase
  | .block, "difficulty" => some .blockDifficulty
  | .block, "gaslimit" => some .blockGasLimit
  | _, _ => none

/-- Gas forwarded with `transfer` and `send`. -/
def transferStipend : Int := 2300

/-- The function that `transfer` and `send` call on the recipient. -/
def depositFunction : String := "deposit"

/-- The three evaluators that lowering helpers call back into. -/
structure Eval where
  values : Expr → Gen (List Value)
  single : Expr → Gen Value
  place : Expr → Gen Place

namespace Gen

/-- Fails unless there are `n` arguments. -/
def expectArgs (node : Nat) (args : List Expr) (n : Nat) : Gen Unit :=
  if args.length != n then throw (.arityMismatch node n args.length) else pure ()

/-- Lifts a question about the program. -/
def ask (f : Env → Except LowerError α) : Gen α := do f (← read)

/-- Arguments evaluated left to right and made fit for the parameters of `f`. -/
def callArguments (ev : Eval) (node f : Nat) (args : List Expr) : Gen (List Value) := do
  let params := (← functionDef f).params
  expectArgs node args params.length
  (args.zip params).mapM fun (arg, p) => do
    let dst := (← varDecl p).ty
    let v ← ev.single arg
    prepareValue v arg.ty dst arg.id

/-- A call of `target` inside the contract. -/
def internalCall (ev : Eval) (node target : Nat) (args : List Expr) : Gen (List Value) := do
  let d ← functionDef target
  let foreign ← ask (·.isForeignLibrary d)
  let name ← if foreign || (← ask (·.rejectsValue target)) then do
      if !(← get).contract.queued.contains target then
        modifyContract fun c => { c with queued := target :: c.queued, callQueue := target :: c.callQueue }
      ask (·.qualifiedName target)
    else ask (·.functionName target)
  let values ← callArguments ev node target args
  emitMany d.returns.length fun rs => .call rs name values

/-- `C.f(…)`: a base function without virtual dispatch, or a library function. -/
def staticCall (ev : Eval) (node c f : Nat) (args : List Expr) : Gen (List Value) := do
  let d ← functionDef f
  let isLibrary := (← contractDef c).kind == .library
  if !isLibrary && !(← read).linearization.contains c then
    throw (.unsupportedFeature node "static call into a contract that is not a base")
  if !d.isImplemented then throw (.unresolvedFunction node (← ask (·.signature f)))
  internalCall ev node f args

/-- Reverts with `status` unless it is zero. -/
def checkStatus (status : Value) (label : String) : Gen Unit := do
  let (b, reg) ← statusRevertBlock
  emitUnit (.assign reg status)
  failIf status b label

/-- `x.f(…)` on another contract. -/
def externalCall (ev : Eval) (node : Nat) (base : Expr) (f : Nat) (args : List Expr)
    (value gas : Option Expr) : Gen (List Value) := do
  let d ← functionDef f
  let crosses ← (d.params ++ d.returns).anyM fun v => do pure (← varDecl v).ty.isReference
  if crosses then throw (.unsupportedFeature node "reference types across an external call")
  let address ← ev.single base
  let values ← callArguments ev node f args
  let amount ← match value with
    | some v => ev.single v
    | none => pure .zero
  let gasV ← match gas with
    | some g => ev.single g
    | none => context .gasLeft
  let sig ← ask (·.signature f)
  let rs ← emitMany (d.returns.length + 1) fun rs =>
    .callExternal (rs.headD .zero) rs.tail address sig values amount gasV
  let status := rs.headD .zero
  checkStatus status "call.ok"
  pure rs.tail

/-- `a.transfer(v)` reverts on failure; `a.send(v)` yields whether it succeeded. -/
def transfer (ev : Eval) (base amount : Expr) (revertOnFailure : Bool) : Gen (List Value) := do
  let address ← ev.single base
  let amt ← ev.single amount
  let status ← emit fun s => .callExternal s [] address depositFunction [] amt (.ofInt transferStipend)
  if revertOnFailure then
    checkStatus status "transfer.ok"
    pure []
  else
    pure [← unary .isZero status]

/-- `new C(…)`: `C` must be compiled already. -/
def create (ev : Eval) (node c : Nat) (args : List Expr) (value : Option Expr) :
    Gen (List Value) := do
  let name := (← contractDef c).name
  let some sibling := (← read).siblings.lookup c
    | throw (.siblingNotCompiled node name)
  let arity := (sibling.constructor?.map (·.sig.params.length)).getD 0
  expectArgs node args arity
  let values ← match ← ask (·.constructorOf c) with
    | some ctor => callArguments ev node ctor args
    | none => pure []
  let amount ← match value with
    | some v => ev.single v
    | none => pure .zero
  let rs ← emitMany 2 fun rs => .create (rs.headD .zero) (rs.getD 1 .zero) name values amount
  checkStatus (rs.headD .zero) "create.ok"
  if !(← get).contract.dependencies.contains name then
    modifyContract fun s => { s with dependencies := s.dependencies ++ [name] }
  pure [rs.getD 1 .zero]

/-- `a.push(x)` on a storage array; yields the new length. -/
def push (ev : Eval) (node : Nat) (base elem : Expr) : Gen (List Value) := do
  let .array elemTy _ _ := base.ty
    | throw (.typeMismatch node "push on a non-array")
  let root ← ev.single base
  let value ← ev.single elem
  let len ← emit fun r => .storageLoad r root
  let newLen ← binary .add len .one
  emitUnit (.storageStore root newLen)
  let size ← storageSize elemTy node
  let data ← emit fun r => .arrayDataSlot r root
  let scaled ← scale len size
  let slot ← offset data scaled
  store (Place.inStorage slot elemTy) value elem.ty node
  pure [newLen]

/-- `new T[](n)`: a memory array of length `n`. -/
def newMemoryArray (ev : Eval) (t : TypeName) (length : Expr) : Gen Value := do
  let .array _ none _ := t
    | throw (.typeMismatch length.id "new of a non-dynamic array")
  let len ← ev.single length
  let cells ← offset len .one
  let ptr ← emit fun r => .allocate r cells
  emitUnit (.memoryStore ptr len)
  pure ptr

/-- `S(a, b, …)`: a fresh memory struct. -/
def constructStruct (ev : Eval) (node id : Nat) (args : List Expr) : Gen Value := do
  let members := (← structDef id).members.map (·.ty.withLocation .memory)
  expectArgs node args members.length
  let ptr ← emit fun r => .allocate r (.ofInt (max members.length 1))
  for ((arg, member), i) in (args.zip members).zipIdx do
    let v ← ev.single arg
    let v ← prepareValue v arg.ty member arg.id
    let addr ← offset ptr (.ofInt i)
    emitUnit (.memoryStore addr v)
  pure ptr

/-- A call of a builtin. -/
def builtinCall (ev : Eval) (node : Nat) (b : Builtin) (args : List Expr) : Gen (List Value) :=
  match b with
  | .require | .assert => do
    if args.isEmpty || args.length > 2 then throw (.arityMismatch node 1 args.length)
    let cond ← ev.single (args.headD default)
    if let some reason := args[1]? then discard (ev.values reason)
    let failed ← match cond.asConst? with
      | some c => pure (Value.ofBool c.isZero)
      | none => unary .isZero cond
    if b == .require then failIf failed (← revertBlock) "require.ok"
    else failIf failed (← assertFailBlock) "assert.ok"
    pure []
  | .revert => do
    jumpAndDetach (← revertBlock)
    pure []
  | .gasLeft => do
    expectArgs node args 0
    pure [← context .gasLeft]
  | .selfDestruct => do
    expectArgs node args 1
    let beneficiary ← ev.single (args.headD default)
    discard (emitMany 0 fun rs => .builtin rs .selfDestruct [beneficiary])
    terminate (.ret (← returnValues))
    discard (startBlock "unreachable")
    pure []
  | .keccak256 => hashLike .keccak256 none
  | .addMod => hashLike .addMod (some 3)
  | .mulMod => hashLike .mulMod (some 3)
  | .blockHash => hashLike .blockHash (some 1)
where
  /-- A builtin with one result and, unless `none`, a fixed number of arguments. -/
  hashLike (ir : IR.Builtin) (arity : Option Nat) : Gen (List Value) := do
    if let some n := arity then expectArgs node args n
    let values ← args.mapM ev.single
    pure [← emit fun r => .builtin [r] ir values]

/-- `a && b` and `a || b`: the right operand runs only when the left does not decide. -/
def shortCircuit (ev : Eval) (isAnd : Bool) (l r : Expr) : Gen Value := do
  let result ← freshLocal (if isAnd then "and" else "or")
  let lv ← ev.single l
  emitUnit (.assign result lv)
  let rhs ← createBlock (if isAnd then "and.rhs" else "or.rhs")
  let join ← createBlock (if isAnd then "and.end" else "or.end")
  if isAnd then terminate (.branch lv rhs join) else terminate (.branch lv join rhs)
  switchTo rhs
  let rv ← ev.single r
  emitUnit (.assign result rv)
  jumpIfOpen join
  switchTo join
  pure result

/-- `c ? a : b` producing one value. -/
def conditional (ev : Eval) (e c a b : Expr) : Gen Value := do
  if e.ty.arity != 1 then throw (.unsupportedFeature e.id "conditional producing a tuple")
  let cv ← ev.single c
  let result ← freshLocal "cond"
  let tb ← createBlock "cond.true"
  let fb ← createBlock "cond.false"
  let join ← createBlock "cond.end"
  terminate (.branch cv tb fb)
  for (blk, arm) in [(tb, a), (fb, b)] do
    switchTo blk
    let v ← ev.single arm
    let v ← prepareValue v arm.ty e.ty e.id
    emitUnit (.assign result v)
    jumpIfOpen join
  switchTo join
  pure result

/-- `(a, , b) = rhs`: the right side is evaluated fully before anything is stored. -/
def tupleAssignment (ev : Eval) (e : Expr) (items : List (Option Expr)) (right : Expr) :
    Gen (List Value) := do
  let values ← ev.values right
  let types := right.ty.components
  let pairing ← alignComponents (items.map Option.isSome) values.length e.id
  let mut targets : Array (Place × Nat) := #[]
  for (item, source) in items.zip pairing do
    if let (some item, some source) := (item, source) then
      targets := targets.push (← ev.place item, source)
  for (p, source) in targets do
    store p (values.getD source .zero) (types.getD source p.ty) e.id
  pure []

/-- A call expression. -/
def call (ev : Eval) (e callee : Expr) (args : List Expr) (kind : CallKind)
    (value gas : Option Expr) : Gen (List Value) :=
  match kind with
  | .typeConversion => do
    expectArgs e.id args 1
    let arg := args.headD default
    let v ← ev.single arg
    pure [← convert v arg.ty e.ty]
  | .structConstructor =>
    match callee.kind with
    | .ident _ (.struct id) => return [← constructStruct ev e.id id args]
    | _ => throw (.typeMismatch e.id "struct constructor without a struct")
  | .regular =>
    match callee.kind with
    | .ident _ (.builtin b) => builtinCall ev e.id b args
    | .ident _ (.function f) => do
      let target ← ask (·.resolve f none e.id)
      internalCall ev e.id target args
    | .member base _ (some (.function f)) =>
      match base.kind with
      | .ident _ (.magic .super) => do
        let target ← ask (·.resolve f (some (← get).fn.scope) e.id)
        internalCall ev e.id target args
      | .ident _ (.contract c) => staticCall ev e.id c f args
      | _ => externalCall ev e.id base f args value gas
    | .member base member none =>
      match member, base.ty with
      | "push", .array _ none _ =>
        if base.ty.isInStorage then do
          expectArgs e.id args 1
          push ev e.id base (args.headD default)
        else throw (.unsupportedFeature e.id ("call of member '" ++ member ++ "'"))
      | "transfer", .address | "transfer", .contract _ | "send", .address | "send", .contract _ => do
        expectArgs e.id args 1
        transfer ev base (args.headD default) (member == "transfer")
      | _, _ => throw (.unsupportedFeature e.id ("call of member '" ++ member ++ "'"))
    | .new (.contract c) => create ev e.id c args value
    | .new (.array t) => do
      expectArgs e.id args 1
      return [← newMemoryArray ev t (args.headD default)]
    | _ => throw (.unsupportedFeature e.id "call through a function value")

/-- `base.member` read as a value, when `base` is not a variable reference. -/
def memberValue (ev : Eval) (e base : Expr) (member : String) : Gen (List Value) :=
  match base.ty, member with
  | .address, "balance" | .contract _, "balance" => do
    let address ← ev.single base
    pure [← emit fun r => .builtin [r] .balance [address]]
  | .array _ (some n) _, "length" => pure [.ofInt n]
  | .array .., "length" => do
    let root ← ev.single base
    if base.ty.isInStorage then return [← emit fun r => .storageLoad r root]
    else return [← emit fun r => .memoryLoad r root]
  | .struct .., _ => do
    let p ← ev.place e
    pure [← load p]
  | _, _ => throw (.unsupportedFeature e.id ("member '" ++ member ++ "' used as a value"))

/-- A unary operator. -/
def unaryOp (ev : Eval) (e : Expr) (op : UnaryOp) (isPrefix : Bool) (operand : Expr) :
    Gen (List Value) :=
  match op with
  | .not => do
    let v ← ev.single operand
    pure [← unary .isZero v]
  | .bitNot => do
    let v ← ev.single operand
    let inv ← unary .not v
    pure [← mask inv e.ty]
  | .neg => do
    let v ← ev.single operand
    let negated ← match v.asConst? with
      | some c => pure (Value.ofInt (-c.toInt))
      | none => binary .sub .zero v
    pure [← mask negated e.ty]
  | .inc | .dec => do
    let p ← ev.place operand
    let (old, new) ← update p (if op == .inc then .add else .sub) .one p.ty e.id
    pure [if isPrefix then new else old]
  | .delete => do
    let p ← ev.place operand
    delete p e.id
    pure []

/-- A binary operator that is not a short-circuit connective. -/
def binaryOp (ev : Eval) (e : Expr) (op : BinaryOp) (l r : Expr) : Gen (List Value) := do
  let operandTy := if op.isComparison then (if fits l.ty r.ty then r.ty else l.ty) else e.ty
  let lv ← ev.single l
  let lv ← convert lv l.ty operandTy
  let rv ← ev.single r
  let rv ← if op.keepsRightType then pure rv else convert rv r.ty operandTy
  pure [← binaryOperation op lv rv operandTy e.id]

/-- An assignment, plain or compound. -/
def assignment (ev : Eval) (e : Expr) (op : Option BinaryOp) (left right : Expr) :
    Gen (List Value) := do
  if let some op := op then
    let rhs ← ev.single right
    let p ← ev.place left
    let (_, new) ← update p op rhs right.ty e.id
    return [new]
  if let .tuple items := left.kind then
    if items.length != 1 then return ← tupleAssignment ev e items right
  let value ← ev.single right
  let p ← ev.place left
  if p.ty.isValueType then
    let converted ← convert value right.ty p.ty
    store p converted p.ty e.id
    pure [converted]
  else
    store p value right.ty e.id
    pure [← load p]

/-- Index access as a place. -/
def indexPlace (ev : Eval) (e base : Expr) (index : Option Expr) : Gen Place := do
  let some index := index
    | throw (.unsupportedFeature e.id "index access without index")
  match base.ty with
  | .mapping key value => do
    let bs ← ev.single base
    let raw ← ev.single index
    let kv ← convert raw index.ty key
    let slot ← emit fun r => .mappingSlot r bs kv
    pure (Place.inStorage slot value)
  | .array elem _ _ =>
    if base.ty.isInStorage then do
      let bs ← ev.single base
      let i ← ev.single index
      let slot ← storageElementSlot bs base.ty i e.id
      pure (Place.inStorage slot elem)
    else do
      let ptr ← ev.single base
      let i ← ev.single index
      let addr ← memoryElementAddress ptr i
      pure (.memory addr (elem.withLocation .memory))
  | .fixedBytes _ => throw (.unsupportedFeature e.id "byte index access")
  | _ => throw (.lvalueKindMismatch e.id "an indexable location")

/-- Member access as a place. -/
def memberPlace (ev : Eval) (e base : Expr) (member : String) : Gen Place :=
  match base.ty with
  | .struct id loc => do
    let index ← memberIndex id member e.id
    let memberTy ← memberType id index
    let b ← ev.single base
    if loc == .memory then
      let addr ← offset b (.ofInt index)
      pure (.memory addr (memberTy.withLocation .memory))
    else
      let field ← storageFieldOffset id index e.id
      let slot ← offset b (.ofInt field)
      pure (Place.inStorage slot memberTy)
  | .array _ none _ =>
    if member == "length" && base.ty.isInStorage then do
      let slot ← ev.single base
      pure (.storage slot TypeName.uint256)
    else throw (.lvalueKindMismatch e.id "a struct member")
  | _ => throw (.lvalueKindMismatch e.id "a struct member")

/-- A variable as a place: a storage slot or a register. -/
def variablePlace (e : Expr) (name : String) (v : Nat) : Gen Place := do
  let d ← varDecl v
  if d.isConstant then throw (.lvalueKindMismatch e.id "a mutable variable")
  if d.isStateVariable then
    let some slot := (← get).contract.slots.get? v
      | throw (.unknownVariable e.id name)
    return Place.inStorage (.ofInt slot) d.ty
  let some x ← lookupVar v
    | throw (.unknownVariable e.id name)
  pure (.register x d.ty)

mutual
/-- The values of an expression. -/
def values (fuel : Nat) (e : Expr) : Gen (List Value) :=
  match fuel with
  | 0 => throw .unbounded
  | fuel + 1 =>
    let ev : Eval := ⟨values fuel, single fuel, place fuel⟩
    match e.kind with
    | .literal (.bool b) => pure [.ofBool b]
    | .literal (.number n) => pure [.ofInt n]
    | .ident _ (.variable v) => do
      let d ← varDecl v
      if d.isConstant then
        let some init := d.value
          | throw (.typeMismatch e.id "constant without a value")
        let v ← single fuel init
        return [← convert v init.ty d.ty]
      let p ← place fuel e
      pure [← load p]
    | .ident _ (.magic .this) => return [← context .thisAddress]
    | .ident _ (.magic .now) => return [← context .blockTimestamp]
    | .ident .. =>
      throw (.unsupportedFeature e.id "functions, contracts and magic objects as values")
    | .unary op isPrefix operand => unaryOp ev e op isPrefix operand
    | .binary op l r =>
      if op.isShortCircuit then return [← shortCircuit ev (op == .and) l r]
      else binaryOp ev e op l r
    | .assign op l r => assignment ev e op l r
    | .conditional c a b => return [← conditional ev e c a b]
    | .tuple items => items.mapM fun
      | some x => single fuel x
      | none => throw (.unsupportedFeature e.id "empty tuple component outside a destructuring")
    | .call callee args kind value gas => call ev e callee args kind value gas
    | .member base member ref => do
      if let .ident _ (.magic m) := base.kind then
        if let some var := magicMember m member then return [← context var]
      if let some (.variable v) := ref then
        let name := (← varDecl v).name
        return ← values fuel (.mk e.id (.ident name (.variable v)) e.ty)
      memberValue ev e base member
    | .index .. => do
      let p ← place fuel e
      pure [← load p]
    | .new _ | .typeExpr =>
      throw (.unsupportedFeature e.id "type or creation expression used as a value")

/-- The one value of an expression. -/
def single (fuel : Nat) (e : Expr) : Gen Value :=
  match fuel with
  | 0 => throw .unbounded
  | fuel + 1 => do
    match ← values fuel e with
    | [v] => pure v
    | vs => throw (.arityMismatch e.id 1 vs.length)

/-- An expression as a place. -/
def place (fuel : Nat) (e : Expr) : Gen Place :=
  match fuel with
  | 0 => throw .unbounded
  | fuel + 1 =>
    let ev : Eval := ⟨values fuel, single fuel, place fuel⟩
    match e.kind with
    | .ident name (.variable v) => variablePlace e name v
    | .index base index => indexPlace ev e base index
    | .member base member _ => memberPlace ev e base member
    | .tuple [some inner] => place fuel inner
    | .tuple [none] => throw (.lvalueKindMismatch e.id "a non-empty expression")
    | _ => throw (.lvalueKindMismatch e.id "a variable, member or element")
end

/-- Enough fuel for the expressions of the unit: lowering spends at most three units per
node along any path, and a chain of constants without a cycle stays within the nodes of the
unit. -/
def exprFuel : Gen Nat := return 3 * (← unit).nodeBound + 4

/-- The evaluators with fresh fuel. -/
def eval : Gen Eval := do
  let fuel ← exprFuel
  pure ⟨values fuel, single fuel, place fuel⟩

end Gen

end ContractCfg.Lower
