import ContractCfg.Lower.Gen

/-!
Virtual dispatch and the names of lowered functions. A call by name goes to the most derived
implementation with the same signature along the linearization; `super` searches only after
the contract whose code is being lowered. A function reachable from outside (an entry point)
is lowered under its signature and, unless payable, checks that no value was sent; every other
function is lowered under its qualified name `Owner.signature`.
-/

namespace ContractCfg.Lower

open ContractCfg.Source

namespace Env

/-- The contract at index `i`. -/
def contractDef (env : Env) (i : Nat) : Except LowerError ContractDef := need (env.unit.contract? i)

/-- The function at index `i`. -/
def functionDef (env : Env) (i : Nat) : Except LowerError FunctionDef := need (env.unit.function? i)

/-- The canonical name of a type; a struct that contains itself has none. -/
def canonicalName (env : Env) (t : TypeName) : Except LowerError String :=
  match env.unit.canonicalName t with
  | some n => .ok n
  | none => .error .unbounded

/-- `name(T1,…,Tn)` with the canonical names of the parameter types. -/
def signature (env : Env) (f : Nat) : Except LowerError String := do
  let d ← env.functionDef f
  let names ← d.params.mapM fun p => do env.canonicalName (← need (env.unit.var? p)).ty
  pure (d.name ++ "(" ++ ",".intercalate names ++ ")")

/-- The first implemented function of kind `kind` and signature `sig` among the functions of
the contracts `cs`, in order. -/
def findImplementation (env : Env) (kind : FunctionKind) (sig : String) :
    List Nat → Except LowerError (Option Nat)
  | [] => pure none
  | c :: cs => do
    let d ← env.contractDef c
    let found ← d.functions.findM? fun g => do
      let gd ← env.functionDef g
      if gd.kind == kind && gd.isImplemented then pure ((← env.signature g) == sig) else pure false
    match found with
    | some g => pure (some g)
    | none => env.findImplementation kind sig cs

/-- The implementation a call of `f` reaches. With `after`, the search starts behind that
contract of the linearization, as `super` does. -/
def resolve (env : Env) (f : Nat) (after : Option Nat) (node : Nat) : Except LowerError Nat := do
  let d ← env.functionDef f
  if !env.linearization.contains d.contract then
    if d.isImplemented then return f
    else throw (.unresolvedFunction node d.name)
  let start := match after with
    | some a => (env.linearization.idxOf? a).elim 0 (· + 1)
    | none => 0
  let sig ← env.signature f
  match ← env.findImplementation d.kind sig (env.linearization.drop start) with
  | some g => pure g
  | none => throw (.unresolvedFunction node sig)

/-- The implementation a call of `f` reaches, or none when no implementation has its
signature; a missing declaration or an unbounded type is still a failure. -/
def resolve? (env : Env) (f : Nat) (node : Nat) : Except LowerError (Option Nat) :=
  match env.resolve f none node with
  | .ok g => .ok (some g)
  | .error (.unresolvedFunction _ _) => .ok none
  | .error e => .error e

/-- Whether `f` is the implementation its own calls reach. -/
def isMostDerived (env : Env) (f : Nat) : Except LowerError Bool := do
  let d ← env.functionDef f
  pure ((← env.resolve? f d.id) == some f)

/-- Whether `f` belongs to a library other than the contract being lowered. -/
def isForeignLibrary (env : Env) (d : FunctionDef) : Except LowerError Bool := do
  pure ((← env.contractDef d.contract).kind == .library && d.contract != env.contract)

/-- Whether `f` is reachable from outside: the most derived fallback, or public or external
function, of the contract or a base, and not of a foreign library. -/
def isEntryPoint (env : Env) (f : Nat) : Except LowerError Bool := do
  let d ← env.functionDef f
  let foreign ← env.isForeignLibrary d
  let callable := match d.kind with
    | .constructor => false
    | .fallback => true
    | .function => d.visibility.isExternallyCallable
  if callable && !foreign then env.isMostDerived f else pure false

/-- Whether the entry point of `f` reverts when called with value. -/
def rejectsValue (env : Env) (f : Nat) : Except LowerError Bool := do
  let d ← env.functionDef f
  let owner ← env.contractDef d.contract
  pure ((← env.isEntryPoint f) && d.mutability != .payable && owner.kind != .library)

/-- `Owner.signature`, or `Owner.fallback`: the name of a function lowered without the
entry checks. -/
def qualifiedName (env : Env) (f : Nat) : Except LowerError String := do
  let d ← env.functionDef f
  let owner ← env.contractDef d.contract
  match d.kind with
  | .fallback => pure (owner.name ++ ".fallback")
  | _ => pure (owner.name ++ "." ++ (← env.signature f))

/-- The name `f` is lowered under: `init` for a constructor, the signature or `fallback` for
an entry point, the qualified name otherwise. -/
def functionName (env : Env) (f : Nat) : Except LowerError String := do
  let d ← env.functionDef f
  if d.kind == .constructor then return "init"
  if !(← env.isEntryPoint f) then return (← env.qualifiedName f)
  match d.kind with
  | .fallback => pure "fallback"
  | _ => env.signature f

/-- The most derived modifier called `name`. A base contract of that name means constructor
arguments, which are not supported. -/
def resolveModifier (env : Env) (name : String) (node : Nat) : Except LowerError Nat := do
  for c in env.linearization do
    for m in (← env.contractDef c).modifiers do
      if (← need (env.unit.modifier? m)).name == name then return m
  for c in env.linearization do
    if (← env.contractDef c).name == name then
      throw (.unsupportedFeature node "base constructor arguments")
  throw (.modifierNotFound node name)

/-- The constructor declared in contract `c` itself. -/
def constructorOf (env : Env) (c : Nat) : Except LowerError (Option Nat) := do
  (← env.contractDef c).functions.findM? fun f => do pure ((← env.functionDef f).kind == .constructor)

/-- Whether some function declared along the linearization has no implementation. -/
def isAbstract (env : Env) : Except LowerError Bool :=
  env.linearization.anyM fun c => do
    (← env.contractDef c).functions.anyM fun f => do
      let d ← env.functionDef f
      if d.kind == .function && !d.isImplemented then pure (← env.resolve? f d.id).isNone
      else pure false

end Env

end ContractCfg.Lower
