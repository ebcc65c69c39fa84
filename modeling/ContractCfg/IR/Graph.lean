import ContractCfg.IR.Function

/-!
The control-flow graph of a function body. Edges come from terminators; a target that is not a
block of the body has no edges of its own. Reachability is the least set that contains the
start and is closed under successors. A block `a` dominates `b` when `a = b`, `a` is the entry,
or every path from the entry to `b` passes through `a` (in particular when `b` is unreachable).
-/

namespace ContractCfg.IR.Body

/-- Blocks control may pass to from block `id`, in terminator order. -/
def successors (body : Body) (id : Nat) : List Nat :=
  match body.blocks.get? id with
  | some b => b.term.successors
  | none => []

/-- Blocks that may pass control to `id`, in block order, once per edge. -/
def predecessors (body : Body) (id : Nat) : List Nat :=
  body.blocks.toList.flatMap fun (k, b) =>
    (b.term.successors.filter (· == id)).map fun _ => k

/-- Ids that may appear in the graph: the start, the blocks, and every jump target. -/
def nodeBound (body : Body) : Nat :=
  body.blocks.toList.foldl (fun n (_, b) => n + 1 + b.term.successors.length) 2

/-- Sorted ids without repeats. -/
def sortedSet (xs : List Nat) : List Nat :=
  (xs.mergeSort (· ≤ ·)).eraseDups

/-- Adds the successors of `seen` that are not `avoid`, repeating until nothing new appears
or the fuel runs out. -/
def closeUnder (body : Body) (avoid : Option Nat) : Nat → List Nat → List Nat
  | 0, seen => seen
  | fuel + 1, seen =>
    let next := seen.flatMap (body.successors ·) |>.filter fun s => !seen.contains s && some s != avoid
    if next.isEmpty then seen else closeUnder body avoid fuel (sortedSet (seen ++ next))

/-- Blocks reachable from `start`, sorted, `start` included. -/
def reachableFrom (body : Body) (start : Nat) : List Nat :=
  closeUnder body none body.nodeBound [start]

/-- Blocks reachable from the entry. -/
def reachable (body : Body) : List Nat := body.reachableFrom body.entry

/-- Whether every path from the entry to `target` passes through `via`. -/
def dominates (body : Body) (via target : Nat) : Bool :=
  via == target || via == body.entry ||
    !(closeUnder body (some via) body.nodeBound [body.entry]).contains target

/-- Drops the blocks unreachable from the entry, keeping the order of the rest; also returns how
many were dropped. -/
def prune (body : Body) : Body × Nat :=
  let live := body.reachable
  let kept := body.blocks.filter fun k _ => live.contains k
  ({ body with blocks := kept }, body.blocks.size - kept.size)

end ContractCfg.IR.Body
