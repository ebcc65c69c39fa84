import ContractCfg.IR.Script
import ContractCfg.IR.Text

/-!
Reports on contracts as JSON: a summary of a contract and its functions, the control-flow
graph of each function, a block-by-block account, and the replies of function scripts. Types
and operands appear as their display text.
-/

namespace ContractCfg.IR

/-- Natural numbers as a JSON array. -/
def natsJson (ns : List Nat) : Json := .arr (ns.map fun (n : Nat) => .num n)

/-- An error as its kind and message. -/
def IrError.toJson (e : IrError) : Json :=
  .obj [("error", .str e.kind), ("message", .str e.message)]

/-- A reply: operands as display text, block ids and counts as numbers, errors as objects. -/
def Reply.toJson : Reply → Json
  | .none => .null
  | .text s => .str s
  | .flag b => .bool b
  | .count n => .num n
  | .value v => .str v.display
  | .values vs => Json.strs (vs.map Value.display)
  | .external s rs => .arr [.str s.display, Json.strs (rs.map Value.display)]
  | .created s r => .arr [.str s.display, .str r.display]
  | .params ps => .arr (ps.map fun p => .arr [.str p.name, .str p.ty.display])
  | .types tys => Json.strs (tys.map Ty.display)
  | .failed e => e.toJson

/-- The replies of a function script and whether the function was built. -/
def FunctionOutcome.toJson (o : FunctionOutcome) : Json :=
  .obj [("results", .arr (o.replies.map Reply.toJson)),
    ("built", match o.built with
      | .ok _ => .bool true
      | .error e => e.toJson)]

/-- A function's signature sizes, keywords and recorded facts. -/
def Function.summary (f : Function) : Json :=
  .obj [("name", .str f.name), ("visibility", .str f.visibility.keyword),
    ("mutability", .str f.mutability.keyword), ("params", .num f.sig.params.length),
    ("returns", .num f.sig.returns.length), ("blocks", .num f.body.blocks.size),
    ("instructions", .num f.instrCount), ("is_constructor", .bool f.info.isConstructor),
    ("is_fallback", .bool f.info.isFallback), ("is_accessor", .bool f.info.isAccessor),
    ("calls_external", .bool f.info.callsExternal), ("modifies_state", .bool f.info.modifiesState),
    ("source_name", Json.optStr f.info.sourceName), ("defined_in", Json.optStr f.info.definedIn)]

/-- A contract's facts and the summary of each function. -/
def Contract.summary (c : Contract) : Json :=
  .obj [("name", .str c.name), ("linearization", Json.strs c.info.linearization),
    ("is_abstract", .bool c.info.isAbstract), ("has_external_calls", .bool c.info.hasExternalCalls),
    ("has_selfdestruct", .bool c.info.hasSelfdestruct), ("dependencies", Json.strs c.dependencies),
    ("next_free_slot", .num c.nextFreeSlot), ("functions", .arr (c.functions.values.map Function.summary))]

/-- The ids a graph report covers: the blocks in order, then one past the largest, as a 32-bit
id (so one past the largest possible id is `0`). -/
def Body.reportIds (body : Body) : List Nat :=
  body.blocks.keys ++ [(body.blocks.keys.foldl max 0 + 1) % Nat.pow 2 32]

/-- The control-flow graph of a function: edges both ways, reachability and dominance. -/
def Function.graphReport (f : Function) : Json :=
  let body := f.body
  let ids := body.reportIds
  let blocks := body.blocks.keys
  let live := body.reachable
  .obj [("name", .str f.name), ("entry", .num body.entry),
    ("successors", .arr (ids.map fun (i : Nat) => .arr [.num i, natsJson (body.successors i)])),
    ("predecessors", .arr (ids.map fun (i : Nat) => .arr [.num i, natsJson (body.predecessors i)])),
    ("reachable", natsJson live),
    ("is_reachable", .arr (ids.map fun (i : Nat) => .bool (live.contains i))),
    ("reachable_from", .arr (blocks.map fun (b : Nat) => .arr [.num b, natsJson (body.reachableFrom b)])),
    ("dominates", .arr (blocks.flatMap fun (a : Nat) =>
      (blocks.filter (body.dominates a ·)).map fun (b : Nat) => .arr [.num a, .num b]))]

/-- One block: its size, successors and how it ends. -/
def Block.report (b : Block) : Json :=
  .obj [("id", .num b.id), ("label", .str b.label), ("instructions", .num b.instrs.size),
    ("successors", natsJson b.term.successors), ("is_terminated", .bool b.isTerminated),
    ("is_return", .bool b.term.isReturn), ("is_revert", .bool b.term.isRevert)]

/-- The summary, the storage table, and every block of every function. -/
def Contract.details (c : Contract) : Json :=
  .obj [("summary", c.summary), ("block_count", .num c.blockCount),
    ("constructor", Json.optStr (c.constructor?.map Function.name)),
    ("storage", .arr (c.storage.map fun s =>
      .arr [.str s.name, .str s.ty.display, .num s.slot, .num s.size])),
    ("functions", .arr (c.functions.values.map fun f =>
      .obj [("name", .str f.name), ("externally_callable", .bool f.visibility.isExternallyCallable),
        ("blocks", .arr (f.body.blocks.values.map Block.report))]))]

end ContractCfg.IR
