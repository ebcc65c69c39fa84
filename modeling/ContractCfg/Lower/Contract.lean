import ContractCfg.Lower.Stmt
import ContractCfg.IR.Verify

/-!
Lowering one contract with everything it inherits. State variables get consecutive slots,
most base contract first. `init` runs the state variable initializers and the constructor
bodies of the whole linearization, most base first. Then, per contract of the linearization
(most base first), come the getters of its public state variables and its implemented
functions; last, the qualified copies that internal calls queued. The result is verified.
-/

namespace ContractCfg

/-- The visibility of a lowered function. -/
def Source.Visibility.toIr : Visibility → IR.Visibility
  | .pub => .pub | .external => .external | .internal => .internal | .priv => .priv

/-- The mutability of a lowered function. -/
def Source.Mutability.toIr : Mutability → IR.Mutability
  | .pure => .pure | .view => .view | .nonPayable => .nonPayable | .payable => .payable

end ContractCfg

namespace ContractCfg.Lower

open ContractCfg.Source
open ContractCfg.IR (Value)

/-- The keys a getter of a variable of type `t` takes, one per mapping or array level, and
the type it finally reads. -/
def accessorKeys : TypeName → List TypeName × TypeName
  | .mapping k v => let (ks, r) := accessorKeys v; (k :: ks, r)
  | .array b _ _ => let (ks, r) := accessorKeys b; (TypeName.uint256 :: ks, r)
  | t => ([], t)

/-- Whether the function calls `selfdestruct`. -/
def callsSelfdestruct (f : IR.Function) : Bool :=
  f.instrs.any fun
    | .builtin _ .selfDestruct _ => true
    | _ => false

namespace Gen

/-- Starts lowering the function `name` written in contract `scope`. -/
def startFunction (name : String) (scope : Nat) : Gen Unit :=
  modify fun s => { s with fn := FnState.new name scope }

/-- The finished function: unreachable blocks dropped, every block closed. -/
def finishFunction : Gen IR.Function := do liftIr (← get).fn.builder.build

/-- Binds the parameters as function parameters. -/
def declareParameters (params : List Nat) : Gen Unit := do
  for p in params do
    let d ← varDecl p
    let ty ← irType d.ty d.id
    let name ← freshName d.name
    let v ← withBuilder (·.param name ty)
    declareInFunctionScope p v

/-- Reverts when value was sent. -/
def payableCheck : Gen Unit := do
  let value ← context .msgValue
  let nonzero ← binary .ne value .zero
  let revert ← revertBlock
  failIf nonzero revert "body"

/-- Gives every non-constant state variable its slots, most base contract first. -/
def allocateStorage : Gen Unit := do
  let mut next := 0
  for c in (← read).linearization.reverse do
    let cd ← contractDef c
    for v in cd.stateVariables do
      let d ← varDecl v
      if d.isConstant then continue
      let ty ← irType d.ty d.id
      let some size := (← types).storageSize ty
        | throw .unbounded
      modifyContract fun s => { s with
        storage := s.storage ++ [⟨next, size, ty, cd.name ++ "." ++ d.name⟩]
        slots := s.slots.insert v next }
      next := (next + size) % IR.slotModulus

/-- `init`: state variable initializers and constructor bodies, most base first. -/
def constructor : Gen IR.Function := do
  let env ← read
  let ctor ← ask (·.constructorOf env.contract)
  let mutability ← match ctor with
    | some c => pure (← functionDef c).mutability
    | none => pure .nonPayable
  startFunction "init" env.contract
  let name := (← contractDef env.contract).name
  modifyBuilder fun b => ((b.setVisibility .pub).setMutability mutability.toIr).modifyInfo
    fun i => { i with isConstructor := true, definedIn := some name }
  if let some c := ctor then declareParameters (← functionDef c).params
  if mutability != .payable then payableCheck
  for c in env.linearization.reverse do
    modifyFn fun s => { s with scope := c }
    for v in (← contractDef c).stateVariables do
      let d ← varDecl v
      let some init := d.value
        | continue
      if d.isConstant then continue
      let some slot := (← get).contract.slots.get? v
        | throw (.unknownVariable d.id d.name)
      let value ← (← eval).single init
      store (Place.inStorage (.ofInt slot) d.ty) value init.ty init.id
    let some bc ← ask (·.constructorOf c)
      | continue
    let bd ← functionDef bc
    if c != env.contract && !bd.params.isEmpty then
      throw (.unsupportedFeature bd.id "base constructor arguments")
    if bd.isImplemented then functionBody bc
  terminate (.ret [])
  finishFunction

/-- Lowers function `f`: as an entry point under its own name, or (`entry` unset) as an
internal copy under its qualified name without the value check. -/
def function (f : Nat) (entry : Bool) : Gen IR.Function := do
  let d ← functionDef f
  let owner ← contractDef d.contract
  let name ← if entry then ask (·.functionName f) else ask (·.qualifiedName f)
  let visibility ← if entry || !(← ask (·.isEntryPoint f)) then pure d.visibility.toIr
    else pure .internal
  startFunction name d.contract
  modifyBuilder fun b => ((b.setVisibility visibility).setMutability d.mutability.toIr).modifyInfo
    fun i => { i with isFallback := d.kind == .fallback, sourceName := some d.name,
                      definedIn := some owner.name }
  declareParameters d.params
  let mut returnTypes := #[]
  for r in d.returns do
    let rd ← varDecl r
    returnTypes := returnTypes.push (← irType rd.ty rd.id)
    let x ← freshLocal rd.name
    let zero ← defaultValue rd.ty rd.id
    emitUnit (.assign x zero)
    declareInFunctionScope r x
    modifyFn fun s => { s with returnVars := s.returnVars ++ [(x, rd.ty)] }
  modifyBuilder (·.setReturns returnTypes.toList)
  if entry && (← ask (·.rejectsValue f)) then payableCheck
  functionBody f
  terminate (.ret (← returnValues))
  finishFunction

/-- The getter of state variable `v`, unless it is not public or a function with its
signature replaces it. Mappings and arrays take one key per level; a struct yields its
value-typed members. -/
def accessor (v : Nat) : Gen (Option IR.Function) := do
  let env ← read
  let d ← varDecl v
  if d.visibility != .pub then return none
  let node := d.id
  let (keys, final) := accessorKeys d.ty
  let keyNames ← keys.mapM fun k => ask (·.canonicalName k)
  let name := d.name ++ "(" ++ ",".intercalate keyNames ++ ")"
  let replaced ← env.linearization.anyM fun c => do
    (← contractDef c).functions.anyM fun f => do
      let fd ← functionDef f
      if fd.kind == .function && fd.isImplemented then pure ((← ask (·.signature f)) == name)
      else pure false
  if replaced then return none
  let owner := match d.scope with
    | .state c => c
    | _ => env.contract
  let ownerName := (← contractDef owner).name
  startFunction name owner
  modifyBuilder fun b => ((b.setVisibility .pub).setMutability .view).modifyInfo
    fun i => { i with isAccessor := true, sourceName := some d.name, definedIn := some ownerName }
  if d.isConstant then
    let some init := d.value
      | throw (.typeMismatch node "constant without a value")
    let rt ← irType d.ty node
    modifyBuilder (·.setReturns [rt])
    let value ← (← eval).single init
    let value ← convert value init.ty d.ty
    terminate (.ret [value])
    return some (← finishFunction)
  let some root := (← get).contract.slots.get? v
    | throw (.unknownVariable node d.name)
  let mut slot := Value.ofInt root
  let mut current := d.ty
  for key in keys do
    let ir ← irType key node
    let paramName ← freshName (match current with | .mapping .. => "key" | _ => "index")
    let param ← withBuilder (·.param paramName ir)
    match current with
    | .mapping _ value =>
      slot ← emit fun r => .mappingSlot r slot param
      current := value
    | .array base _ _ =>
      slot ← storageElementSlot slot current param node
      current := base
    | _ => throw (.typeMismatch node "accessor key on a value")
  let mut returns := #[]
  let mut values := #[]
  match final with
  | .struct id _ =>
    let members := (← structDef id).members.map (·.ty)
    for (m, i) in members.zipIdx do
      if !m.isValueType then continue
      let field ← storageFieldOffset id i node
      let addr ← offset slot (.ofInt field)
      returns := returns.push (← irType m node)
      values := values.push (← emit fun r => .storageLoad r addr)
  | t =>
    if t.isValueType then
      returns := returns.push (← irType t node)
      values := values.push (← emit fun r => .storageLoad r slot)
    else throw (.unsupportedFeature node "accessor for a nested reference type")
  modifyBuilder (·.setReturns returns.toList)
  terminate (.ret values.toList)
  return some (← finishFunction)

/-- Records a lowered function; a name seen before keeps its place. -/
def addFunction (f : IR.Function) : Gen Unit :=
  modifyContract fun s => { s with functions := s.functions.insert f.name f }

/-- Lowers the queued internal copies, the last queued first, until none is left. -/
def drainQueue : Nat → Gen Unit
  | 0 => throw .unbounded
  | fuel + 1 => do
    match (← get).contract.callQueue with
    | [] => pure ()
    | f :: rest =>
      modifyContract fun s => { s with callQueue := rest }
      addFunction (← function f false)
      drainQueue fuel

/-- Lowers the contract. -/
def contract : Gen IR.Contract := do
  let env ← read
  allocateStorage
  addFunction (← constructor)
  for c in env.linearization.reverse do
    let cd ← contractDef c
    if env.options.generateAccessors then
      for v in cd.stateVariables do
        if let some acc ← accessor v then addFunction acc
    for f in cd.functions do
      let fd ← functionDef f
      if fd.kind == .constructor || !fd.isImplemented then continue
      addFunction (← function f true)
  drainQueue (env.unit.functions.size + 1)
  let st := (← get).contract
  let names ← env.linearization.mapM fun c => return (← contractDef c).name
  let isAbstract ← ask (·.isAbstract)
  let base : IR.Contract := { name := (← contractDef env.contract).name }
  let c := st.functions.values.foldl IR.Contract.addFunction base
  let c := { c with
    storage := st.storage
    types := st.types
    dependencies := st.dependencies
    info := {
      linearization := names
      isAbstract := isAbstract
      hasExternalCalls := c.functions.values.any (·.info.callsExternal)
      hasSelfdestruct := c.functions.values.any callsSelfdestruct } }
  liftIr c.verify
  pure c

end Gen

/-- Lowers contract `c` of `unit`; the contracts it creates must be among `siblings`. -/
def compileContract (unit : SourceUnit) (options : Options) (siblings : List (Nat × IR.Contract))
    (c : Nat) : Except LowerError IR.Contract := do
  let linearization ← linearize unit c
  let env : Env := { unit, options, siblings, contract := c, linearization }
  let (result, _) ← (Gen.contract.run env).run { fn := FnState.new "" c }
  pure result

end ContractCfg.Lower
