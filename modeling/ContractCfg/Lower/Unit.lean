import ContractCfg.Lower.Contract
import ContractCfg.Source.Creates

/-!
Lowering a whole program. Every contract that is not an interface is compiled after the
contracts it creates with `new`, anywhere in the code it inherits; a contract that creates
itself, directly or through others, cannot be compiled. The result lists the contracts in
index order.
-/

namespace ContractCfg.Lower

open ContractCfg.Source

/-- The contracts created by `new` in the code that contract `c` inherits: function bodies,
modifier arguments, modifier bodies and state variable initializers, ascending. -/
def createdContracts (unit : SourceUnit) (c : Nat) : Except LowerError (List Nat) := do
  let mut found : List Nat := []
  for b in ← linearize unit c do
    let d ← need (unit.contract? b)
    for f in d.functions do
      let fd ← need (unit.function? f)
      if let some body := fd.body then found := found ++ body.creates
      for use in fd.modifiers do
        found := found ++ Expr.createsList use.args
    for m in d.modifiers do
      found := found ++ (← need (unit.modifier? m)).body.creates
    for v in d.stateVariables do
      found := found ++ Expr.createsOpt (← need (unit.var? v)).value
  pure (found.mergeSort (· ≤ ·)).eraseDups

/-- Where the depth-first walk of the creation order stands. -/
structure CreationWalk where
  visiting : List Nat := []
  done : List Nat := []
  order : List Nat := []

/-- Visits contract `c`: first the contracts it creates, then `c` itself. Reaching a contract
that is still being visited is a creation cycle. -/
def visitCreation (unit : SourceUnit) : Nat → Nat → CreationWalk → Except LowerError CreationWalk
  | 0, _, _ => throw .unbounded
  | fuel + 1, c, w => do
    if w.done.contains c then return w
    if w.visiting.contains c then
      let d ← need (unit.contract? c)
      throw (.siblingNotCompiled d.id d.name)
    let mut w := { w with visiting := c :: w.visiting }
    for created in ← createdContracts unit c do
      w ← visitCreation unit fuel created w
    pure { w with visiting := w.visiting.erase c, done := c :: w.done, order := w.order ++ [c] }

/-- The contracts to compile, each after the contracts it creates. -/
def creationOrder (unit : SourceUnit) : Except LowerError (List Nat) := do
  let mut w : CreationWalk := {}
  for (d, c) in unit.contracts.toList.zipIdx do
    if d.kind != .interface then
      w ← visitCreation unit (unit.contracts.size + 1) c w
  pure w.order

/-- Inserts `x` into a list sorted by key, replacing an entry with the same key. -/
def insertByKey (k : Nat) (x : α) : List (Nat × α) → List (Nat × α)
  | [] => [(k, x)]
  | (k', y) :: rest =>
    if k < k' then (k, x) :: (k', y) :: rest
    else if k == k' then (k, x) :: rest
    else (k', y) :: insertByKey k x rest

/-- Compiles every contract of the unit that is not an interface, in creation order; the
result is in index order. -/
def compileUnit (unit : SourceUnit) (options : Options) :
    Except LowerError (List (Nat × IR.Contract)) := do
  let mut compiled : List (Nat × IR.Contract) := []
  for c in ← creationOrder unit do
    let result ← compileContract unit options compiled c
    compiled := insertByKey c result compiled
  pure compiled

/-- One pass over the pending contracts: each one whose dependencies are all placed is
placed, in order. -/
def placeReady (placed : List IR.Contract) : List IR.Contract → List IR.Contract × List IR.Contract
  | [] => (placed, [])
  | c :: cs =>
    if c.dependencies.all fun d => placed.any (·.name == d) then placeReady (placed ++ [c]) cs
    else
      let (placed, rest) := placeReady placed cs
      (placed, c :: rest)

/-- Orders contracts so that each follows the contracts it creates; when no pending contract
can be placed, the rest keep their order. -/
def creationOrdered (cs : List IR.Contract) : List IR.Contract :=
  go (cs.length + 1) [] cs
where
  go : Nat → List IR.Contract → List IR.Contract → List IR.Contract
    | 0, placed, pending => placed ++ pending
    | fuel + 1, placed, pending =>
      if pending.isEmpty then placed
      else
        let (placed', pending') := placeReady placed pending
        if pending'.length == pending.length then placed' ++ pending'
        else go fuel placed' pending'

end ContractCfg.Lower
