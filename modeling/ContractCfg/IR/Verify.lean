import ContractCfg.IR.Graph
import ContractCfg.IR.Contract

/-!
Structural checks of functions and contracts. A function passes when its entry block exists and,
block by block in order, each block is terminated, jumps only to existing blocks, has a
predecessor unless it is the entry, reads only registers that are parameters or written by some
instruction of the function, and returns as many values as the signature declares. A contract
passes when each function passes and each internal call names a function of the contract with
the arity and result count the call uses. The first failure is reported.
-/

namespace ContractCfg.IR

/-- Registers defined anywhere in the function: parameters and every instruction result. -/
def Function.definedRegs (f : Function) : List String :=
  f.sig.params.map (·.name) ++ (f.instrs.flatMap Instr.results).filterMap Value.asReg?

/-- The first problem with block `id`, if any. -/
def Function.blockProblem (f : Function) (defined : List String) (id : Nat) (blk : Block) :
    Option String :=
  let body := f.body
  if blk.term == .invalid then some (blockName id ++ " is not terminated")
  else match blk.term.successors.find? (fun s => !body.blocks.contains s) with
  | some s => some (blockName id ++ " jumps to missing block " ++ blockName s)
  | none =>
    if id != body.entry && (body.predecessors id).isEmpty then some (blockName id ++ " has no predecessor")
    else
      let reads := blk.instrs.toList.flatMap Instr.operands ++ blk.term.operands
      match reads.findSome? (fun v => v.asReg?.filter fun n => !defined.contains n) with
      | some n => some (blockName id ++ " uses undefined local %" ++ n)
      | none =>
        match blk.term with
        | .ret vs =>
          if vs.length != f.sig.returns.length then
            some (blockName id ++ " returns " ++ toString vs.length ++ " values, signature declares " ++
              toString f.sig.returns.length)
          else none
        | _ => none

/-- Checks one function. -/
def Function.verify (f : Function) : Except IrError Unit :=
  if !f.body.blocks.contains f.body.entry then .error (.verification f.name "missing entry block")
  else
    let defined := f.definedRegs
    match f.body.blocks.toList.findSome? (fun (k, blk) => f.blockProblem defined k blk) with
    | some m => .error (.verification f.name m)
    | none => .ok ()

/-- The first internal call of `f` that does not fit the contract's functions. -/
def Contract.callProblem (c : Contract) (f : Function) : Option String :=
  f.instrs.findSome? fun i =>
    match i with
    | .call results callee args =>
      match c.function? callee with
      | none => some ("call to unknown function " ++ callee)
      | some g =>
        if g.sig.params.length != args.length || g.sig.returns.length != results.length then
          some ("call to " ++ callee ++ " passes " ++ toString args.length ++ " args for " ++
            toString results.length ++ " results, callee takes " ++ toString g.sig.params.length ++
            " and returns " ++ toString g.sig.returns.length)
        else none
    | _ => none

/-- Checks every function and every internal call, in order. -/
def Contract.verify (c : Contract) : Except IrError Unit :=
  c.functions.values.forM fun f => do
    f.verify
    match c.callProblem f with
    | some m => throw (.verification f.name m)
    | none => pure ()

end ContractCfg.IR
