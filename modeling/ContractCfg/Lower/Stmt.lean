import ContractCfg.Lower.Expr

/-!
Lowering statements and expanding modifiers. Control flow becomes blocks: `if` branches to
`if.then` and `if.else` and meets in `if.end`; loops test in `loop.cond` or `for.cond`. A
function body is lowered with its modifiers expanded inline, outermost first: each expansion
gets its own layer of local names and its own exit block, so a `return` leaves only the
innermost body, and each placeholder `_` expands the rest of the chain afresh.

Statements, blocks and expansions call each other; each step spends one unit of `fuel`, which
bounds the nesting of statements and expansions.
-/

namespace ContractCfg.Lower

open ContractCfg.Source
open ContractCfg.IR (Value)

namespace Gen

/-- A fresh register for local variable `v`, bound in the innermost layer. -/
def declareLocal (v : Nat) : Gen Place := do
  let d ← varDecl v
  let x ← freshLocal d.name
  declareVar v x
  pure (.register x d.ty)

/-- `T a; (T b, , T c) = e;`: the initializer is evaluated before the new names exist. -/
def declaration (node : Nat) (vars : List (Option Nat)) (init : Option Expr) : Gen Unit := do
  match init with
  | none =>
    for v in vars.filterMap id do
      let ty := (← varDecl v).ty
      let zero ← defaultValue ty node
      let p ← declareLocal v
      store p zero ty node
  | some init =>
    let ev ← eval
    let values ← ev.values init
    let types := init.ty.components
    let pairing ← alignComponents (vars.map Option.isSome) values.length node
    for (var, source) in vars.zip pairing do
      if let (some var, some source) := (var, source) then
        let p ← declareLocal var
        store p (values.getD source .zero) (types.getD source p.ty) node

/-- `return e`: assigns the return variables and leaves the innermost body. -/
def returnStmt (node : Nat) (value : Option Expr) : Gen Unit := do
  if let some e := value then
    let ev ← eval
    let values ← ev.values e
    let rvs := (← get).fn.returnVars
    if values.length != rvs.length then throw (.arityMismatch node rvs.length values.length)
    let types := e.ty.components
    for (((x, ty), v), i) in (rvs.zip values).zipIdx do
      store (.register x ty) v (types.getD i ty) node
  let some target := (← get).fn.returnTargets.head?
    | throw (.typeMismatch node "return outside of a function body")
  jumpAndDetach target

mutual
/-- Lowers a statement. -/
def stmt (fuel : Nat) (s : Stmt) : Gen Unit :=
  match fuel with
  | 0 => throw .unbounded
  | fuel + 1 =>
    let node := s.id
    match s.kind with
    | .block b => block fuel b
    | .declare vars init => declaration node vars init
    | .expr e => do discard ((← eval).values e)
    | .ifThen cond thenBody elseBody => do
      let c ← (← eval).single cond
      let tb ← createBlock "if.then"
      let join ← createBlock "if.end"
      let eb ← match elseBody with
        | some _ => createBlock "if.else"
        | none => pure join
      terminate (.branch c tb eb)
      switchTo tb
      stmt fuel thenBody
      jumpIfOpen join
      if let some e := elseBody then
        switchTo eb
        stmt fuel e
        jumpIfOpen join
      switchTo join
    | .whileLoop cond body isDoWhile => do
      let header ← createBlock "loop.cond"
      let bodyBlock ← createBlock "loop.body"
      let exit ← createBlock "loop.end"
      terminate (.jump (if isDoWhile then bodyBlock else header))
      switchTo header
      let c ← (← eval).single cond
      terminate (.branch c bodyBlock exit)
      switchTo bodyBlock
      pushLoop exit header
      stmt fuel body
      popLoop
      jumpIfOpen header
      switchTo exit
    | .forLoop init cond update body => do
      if let some i := init then stmt fuel i
      let header ← createBlock "for.cond"
      let bodyBlock ← createBlock "for.body"
      let step ← createBlock "for.step"
      let exit ← createBlock "for.end"
      terminate (.jump header)
      switchTo header
      match cond with
      | some c => do
        let cv ← (← eval).single c
        terminate (.branch cv bodyBlock exit)
      | none => terminate (.jump bodyBlock)
      switchTo bodyBlock
      pushLoop exit step
      stmt fuel body
      popLoop
      jumpIfOpen step
      switchTo step
      if let some u := update then discard ((← eval).values u)
      jumpIfOpen header
      switchTo exit
    | .breakLoop => do
      let some l := (← get).fn.loops.head?
        | throw (.breakOutsideLoop node)
      jumpAndDetach l.breakTo
    | .continueLoop => do
      let some l := (← get).fn.loops.head?
        | throw (.continueOutsideLoop node)
      jumpAndDetach l.continueTo
    | .returnWith v => returnStmt node v
    | .throwStmt => do jumpAndDetach (← revertBlock)
    | .placeholder => do
      let some depth := (← get).fn.modifierDepth
        | throw (.placeholderOutsideModifier node)
      expand fuel (depth + 1)
    | .inlineAssembly => throw (.unsupportedFeature node "inline assembly")

/-- Lowers the statements of a block in order. -/
def block (fuel : Nat) (b : Block) : Gen Unit :=
  match fuel with
  | 0 => throw .unbounded
  | fuel + 1 => b.stmts.forM (stmt fuel)

/-- Expands modifier `depth` of the current chain, or the function body once every modifier
has been entered. -/
def expand (fuel depth : Nat) : Gen Unit :=
  match fuel with
  | 0 => throw .unbounded
  | fuel + 1 => do
    let some chain := (← get).fn.chain
      | throw (.typeMismatch (← contractDef (← read).contract).id
          "modifier expansion outside of a function")
    let isBody := depth == chain.modifiers.length
    let exit ← createBlock (if isBody then "body.exit" else "modifier.exit")
    let savedScope := (← get).fn.scope
    let savedDepth := (← get).fn.modifierDepth
    if isBody then
      pushLayer
      pushReturnTarget exit
      modifyFn fun c => { c with scope := chain.owner, modifierDepth := none }
      let loops ← takeLoops
      block fuel chain.body
      restoreLoops loops
    else
      let some use := chain.modifiers[depth]?
        | throw .dangling
      let m ← ask (·.resolveModifier use.name use.id)
      let d ← modifierDef m
      if d.params.length != use.args.length then
        throw (.arityMismatch use.id d.params.length use.args.length)
      let ev ← eval
      let args ← use.args.mapM fun a => do pure (← ev.single a, a.ty)
      pushLayer
      for (p, (v, src)) in d.params.zip args do
        let pd ← varDecl p
        let x ← freshLocal pd.name
        declareVar p x
        store (.register x pd.ty) v src use.id
      pushReturnTarget exit
      modifyFn fun c => { c with scope := d.contract, modifierDepth := some depth }
      let loops ← takeLoops
      block fuel d.body
      restoreLoops loops
    jumpIfOpen exit
    switchTo exit
    popReturnTarget
    popLayer
    modifyFn fun c => { c with scope := savedScope, modifierDepth := savedDepth }
end

/-- Enough fuel for the statements and modifier expansions of a function with `uses`
modifiers: each of the nested expansions lowers one body of the unit, at most two units per
node and three for the expansion itself. -/
def stmtFuel (uses : Nat) : Gen Nat := return (uses + 1) * (2 * (← unit).nodeBound + 3) + 1

/-- Lowers the body of function `f` with its modifiers expanded. -/
def functionBody (f : Nat) : Gen Unit := do
  let d ← functionDef f
  let some body := d.body
    | throw (.unresolvedFunction d.id d.name)
  let saved := (← get).fn.chain
  let savedDepth := (← get).fn.modifierDepth
  modifyFn fun c => { c with
    chain := some { function := f, owner := d.contract, modifiers := d.modifiers, body := body }
    modifierDepth := none }
  expand (← stmtFuel d.modifiers.length) 0
  modifyFn fun c => { c with chain := saved, modifierDepth := savedDepth }

end Gen

end ContractCfg.Lower
