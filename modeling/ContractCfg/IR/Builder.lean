import ContractCfg.IR.Graph
import ContractCfg.IR.Contract

/-!
Building a function block by block. The builder has a current block; instructions go to its end
and a terminator closes it. Registers for results are numbered `0`, `1`, … per function.
Appending to a closed block, closing a block twice, jumping to a block that does not exist and
switching to a missing block are errors. `build` drops the blocks unreachable from the entry and
then insists that every block left is closed.
-/

namespace ContractCfg.IR

/-- A function under construction. -/
structure FnBuilder where
  fn : Function
  current : Nat := 0
  nextTemp : Nat := 0
  deriving Inhabited

namespace FnBuilder

/-- A builder for a fresh private, non-payable function with only its entry block. -/
def new (name : String) : FnBuilder := { fn := { sig := { name := name } } }

/-- Adds a parameter and returns its register. -/
def param (b : FnBuilder) (name : String) (ty : Ty) : Value × FnBuilder :=
  (.reg name, { b with fn := { b.fn with sig := { b.fn.sig with params := b.fn.sig.params ++ [⟨name, ty⟩] } } })

/-- Sets the return types. -/
def setReturns (b : FnBuilder) (tys : List Ty) : FnBuilder :=
  { b with fn := { b.fn with sig := { b.fn.sig with returns := tys } } }

/-- Sets the visibility. -/
def setVisibility (b : FnBuilder) (v : Visibility) : FnBuilder :=
  { b with fn := { b.fn with visibility := v } }

/-- Sets the mutability. -/
def setMutability (b : FnBuilder) (m : Mutability) : FnBuilder :=
  { b with fn := { b.fn with mutability := m } }

/-- Changes the recorded facts. -/
def modifyInfo (b : FnBuilder) (f : FunctionMeta → FunctionMeta) : FnBuilder :=
  { b with fn := { b.fn with info := f b.fn.info } }

/-- Adds a block labelled `label` and returns its id; the current block stays. -/
def createBlock (b : FnBuilder) (label : String) : Nat × FnBuilder :=
  let id := b.fn.body.nextId
  let body := { b.fn.body with
    blocks := b.fn.body.blocks.insert id { id := id, label := label }
    nextId := id + 1 }
  (id, { b with fn := { b.fn with body := body } })

/-- Makes block `id` current. -/
def switchTo (b : FnBuilder) (id : Nat) : Except IrError FnBuilder :=
  if b.fn.body.blocks.contains id then .ok { b with current := id }
  else .error (.builderError ("Block " ++ blockName id ++ " does not exist"))

/-- Whether the current block is closed; a missing current block is not. -/
def isTerminated (b : FnBuilder) : Bool :=
  match b.fn.body.blocks.get? b.current with
  | some blk => blk.isTerminated
  | none => false

/-- A fresh numbered register. -/
def newTemp (b : FnBuilder) : Value × FnBuilder :=
  (.reg (toString b.nextTemp), { b with nextTemp := b.nextTemp + 1 })

/-- Fails when the current block is closed, as appending an instruction would. -/
def checkOpen (b : FnBuilder) : Except IrError Unit :=
  if b.isTerminated then .error (.builderError ("Block " ++ blockName b.current ++ " is already terminated"))
  else .ok ()

/-- Appends an instruction to the current block, if it exists. -/
def push (b : FnBuilder) (i : Instr) : FnBuilder :=
  { b with fn := { b.fn with body := { b.fn.body with
    blocks := b.fn.body.blocks.modify b.current fun blk => { blk with instrs := blk.instrs.push i } } } }

/-- Appends the instruction `mk r` for a fresh register `r` and returns `r`. -/
def emit (b : FnBuilder) (mk : Value → Instr) : Value × FnBuilder :=
  let (r, b) := b.newTemp
  (r, b.push (mk r))

/-- Fresh registers, one per result. -/
def newTemps (b : FnBuilder) : Nat → List Value × FnBuilder
  | 0 => ([], b)
  | n + 1 =>
    let (r, b) := b.newTemp
    let (rs, b) := newTemps b n
    (r :: rs, b)

/-- Closes the current block with `t`: every target must exist and the block must be open. -/
def terminate (b : FnBuilder) (t : Terminator) : Except IrError FnBuilder := do
  for target in t.successors do
    if !b.fn.body.blocks.contains target then
      throw (.builderError ("Jump to unknown block " ++ blockName target))
  match b.fn.body.blocks.get? b.current with
  | none => throw (.builderError "Block not found")
  | some blk =>
    if blk.isTerminated then throw (.builderError ("Block " ++ blockName b.current ++ " already terminated"))
    pure { b with fn := { b.fn with body := { b.fn.body with
      blocks := b.fn.body.blocks.insert b.current { blk with term := t } } } }

/-- Drops unreachable blocks and returns how many were dropped. -/
def prune (b : FnBuilder) : Nat × FnBuilder :=
  let (body, n) := b.fn.body.prune
  (n, { b with fn := { b.fn with body := body } })

/-- The finished function: unreachable blocks dropped, every other block closed. -/
def build (b : FnBuilder) : Except IrError Function := do
  let (_, b) := b.prune
  match b.fn.body.blocks.toList.find? (fun (_, blk) => !blk.isTerminated) with
  | some (k, blk) =>
    throw (.builderError ("Block " ++ blockName k ++ " (" ++ blk.label ++ ") in " ++ b.fn.name ++
      " is not terminated"))
  | none => pure b.fn

end FnBuilder

end ContractCfg.IR
