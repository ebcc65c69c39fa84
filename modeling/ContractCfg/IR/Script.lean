import ContractCfg.IR.Builder
import ContractCfg.IR.Json

/-!
Scripts that build a contract by hand. A contract script names the contract, its structs, its
storage variables, the contracts it creates and its facts, and gives one script per function.
A function script is a list of steps run on a `FnBuilder`: a step reads the builder, changes
the signature or facts, moves between blocks, closes the current block, or appends an
instruction. Every step answers with a `Reply`; a builder error is a reply like any other and
the script goes on. Appending to a closed block fails before the instruction is read.

In JSON a step is an array headed by its name, and an operand is `"%name"` for a register,
decimal text for an integer or a JSON boolean.
-/

namespace ContractCfg.IR

open ContractCfg.Json (field optField toNat toNatBelow toStr toBool toList structOf)

/-- Changes to the recorded facts of a function; a field left `none` keeps its value. -/
structure MetaPatch where
  isConstructor : Option Bool := none
  isFallback : Option Bool := none
  isAccessor : Option Bool := none
  sourceName : Option (Option String) := none
  definedIn : Option (Option String) := none

/-- The facts with the patch applied. -/
def MetaPatch.apply (p : MetaPatch) (m : FunctionMeta) : FunctionMeta :=
  { m with
    isConstructor := p.isConstructor.getD m.isConstructor
    isFallback := p.isFallback.getD m.isFallback
    isAccessor := p.isAccessor.getD m.isAccessor
    sourceName := p.sourceName.getD m.sourceName
    definedIn := p.definedIn.getD m.definedIn }

/-- An instruction to append; the builder picks its result registers. -/
inductive InstrStep where
  | assign (result value : Value)
  | copy (value : Value)
  | binary (op : BinOp) (left right : Value)
  | unary (op : UnOp) (operand : Value)
  | truncate (value : Value) (bits : Nat)
  | signExtend (value : Value) (bits : Nat)
  | memoryLoad (address : Value)
  | memoryStore (address value : Value)
  | allocate (size : Value)
  | storageLoad (slot : Value)
  | storageStore (slot value : Value)
  | mappingSlot (base key : Value)
  | arrayDataSlot (base : Value)
  | copyStorageToStorage (dest src : Value) (ty : Ty)
  | copyMemoryToStorage (dest src : Value) (ty : Ty)
  | copyStorageToMemory (src : Value) (ty : Ty)
  | call (function : String) (args : List Value) (results : Nat)
  | callExternal (address : Value) (function : String) (args : List Value) (value gas : Value)
      (results : Nat)
  | create (contract : String) (args : List Value) (value : Value)
  | builtin (function : Builtin) (args : List Value)
  | context (var : ContextVar)

/-- A step of a function script. An instruction step carries the instruction, or why it
could not be read. -/
inductive Step where
  | name
  | param (name : String) (ty : Ty)
  | params
  | returns (tys : List Ty)
  | returnTypes
  | visibility (v : Visibility)
  | mutability (m : Mutability)
  | setMeta (p : MetaPatch)
  | entryBlock
  | createBlock (label : String)
  | switch (id : Nat)
  | currentBlock
  | isTerminated
  | newTemp
  | close (t : Terminator)
  | prune
  | instr (i : Except String InstrStep)

/-- What a step answers. -/
inductive Reply where
  | none
  | text (s : String)
  | flag (b : Bool)
  | count (n : Nat)
  | value (v : Value)
  | values (vs : List Value)
  | external (status : Value) (results : List Value)
  | created (status result : Value)
  | params (ps : List Param)
  | types (tys : List Ty)
  | failed (e : IrError)

namespace FnBuilder

/-- Appends the instruction with fresh result registers and answers them. -/
def append (b : FnBuilder) : InstrStep → Reply × FnBuilder
  | .assign r v => (.none, b.push (.assign r v))
  | .copy v => let (r, b) := b.emit (.assign · v); (.value r, b)
  | .binary op l r => let (x, b) := b.emit (.binary · op l r); (.value x, b)
  | .unary op v => let (x, b) := b.emit (.unary · op v); (.value x, b)
  | .truncate v bits => let (x, b) := b.emit (.truncate · v bits); (.value x, b)
  | .signExtend v bits => let (x, b) := b.emit (.signExtend · v bits); (.value x, b)
  | .memoryLoad a => let (x, b) := b.emit (.memoryLoad · a); (.value x, b)
  | .memoryStore a v => (.none, b.push (.memoryStore a v))
  | .allocate n => let (x, b) := b.emit (.allocate · n); (.value x, b)
  | .storageLoad s => let (x, b) := b.emit (.storageLoad · s); (.value x, b)
  | .storageStore s v => (.none, b.push (.storageStore s v))
  | .mappingSlot base key => let (x, b) := b.emit (.mappingSlot · base key); (.value x, b)
  | .arrayDataSlot base => let (x, b) := b.emit (.arrayDataSlot · base); (.value x, b)
  | .copyStorageToStorage d s t => (.none, b.push (.copyStorageToStorage d s t))
  | .copyMemoryToStorage d s t => (.none, b.push (.copyMemoryToStorage d s t))
  | .copyStorageToMemory s t => let (x, b) := b.emit (.copyStorageToMemory · s t); (.value x, b)
  | .call f args n =>
    let (rs, b) := b.newTemps n
    (.values rs, b.push (.call rs f args))
  | .callExternal a f args v g n =>
    let (s, b) := b.newTemp
    let (rs, b) := b.newTemps n
    (.external s rs, b.push (.callExternal s rs a f args v g))
  | .create c args v =>
    let (s, b) := b.newTemp
    let (r, b) := b.newTemp
    (.created s r, b.push (.create s r c args v))
  | .builtin f args =>
    let (rs, b) := b.newTemps f.resultCount
    (match rs.head? with | some r => .value r | none => .none, b.push (.builtin rs f args))
  | .context var => let (x, b) := b.emit (.getContext · var); (.value x, b)

/-- Runs one step. An instruction that could not be read stops the script, unless the
current block is closed. -/
def apply (b : FnBuilder) : Step → Except String (Reply × FnBuilder)
  | .name => .ok (.text b.fn.name, b)
  | .param n t => let (v, b) := b.param n t; .ok (.value v, b)
  | .params => .ok (.params b.fn.sig.params, b)
  | .returns tys => .ok (.none, b.setReturns tys)
  | .returnTypes => .ok (.types b.fn.sig.returns, b)
  | .visibility v => .ok (.none, b.setVisibility v)
  | .mutability m => .ok (.none, b.setMutability m)
  | .setMeta p => .ok (.none, b.modifyInfo p.apply)
  | .entryBlock => .ok (.count b.fn.body.entry, b)
  | .createBlock l => let (id, b) := b.createBlock l; .ok (.count id, b)
  | .switch id =>
    match b.switchTo id with
    | .ok b => .ok (.none, b)
    | .error e => .ok (.failed e, b)
  | .currentBlock => .ok (.count b.current, b)
  | .isTerminated => .ok (.flag b.isTerminated, b)
  | .newTemp => let (v, b) := b.newTemp; .ok (.value v, b)
  | .close t =>
    match b.terminate t with
    | .ok b => .ok (.none, b)
    | .error e => .ok (.failed e, b)
  | .prune => let (n, b) := b.prune; .ok (.count n, b)
  | .instr i =>
    match b.checkOpen with
    | .error e => .ok (.failed e, b)
    | .ok () => do pure (b.append (← i))

/-- Runs the steps in order and answers each. -/
def applyAll (b : FnBuilder) : List Step → Except String (List Reply × FnBuilder)
  | [] => .ok ([], b)
  | s :: ss => do
    let (r, b) ← b.apply s
    let (rs, b) ← b.applyAll ss
    pure (r :: rs, b)

end FnBuilder

/-- A contract to build: its layout, facts, and a script per function. -/
structure ContractScript where
  name : String
  structs : List (Nat × StructDef) := []
  storage : List Slot := []
  dependencies : List String := []
  info : ContractMeta := {}
  functions : List (String × List Step) := []

/-- What one function script gave: the replies, and the function or why it is not built. -/
structure FunctionOutcome where
  replies : List Reply
  built : Except IrError Function

/-- Builds the contract: structs and storage as given, then each function that builds, in
order; a function that does not build is left out. -/
def ContractScript.run (s : ContractScript) : Except String (Contract × List FunctionOutcome) := do
  let types := s.structs.foldl (fun reg (id, d) => reg.insert id d) {}
  let base : Contract := { name := s.name, storage := s.storage, types := types,
                           dependencies := s.dependencies, info := s.info }
  s.functions.foldlM (fun (c, outs) (name, steps) => do
    let (replies, b) ← (FnBuilder.new name).applyAll steps
    let built := b.build
    let c := match built with
      | .ok f => c.addFunction f
      | .error _ => c
    pure (c, outs ++ [⟨replies, built⟩])) (base, [])

/-- An operand: `"%name"`, decimal text, or a boolean. -/
def Value.ofScript : Json → Except String Value
  | .bool b => .ok (.ofBool b)
  | .str s =>
    if s.startsWith "%" then .ok (.reg (s.drop 1).toString)
    else match Json.integerText? s with
      | some n => .ok (.ofInt n)
      | none => .error "invalid value"
  | _ => .error "invalid value"

/-- A list of operands. -/
def Value.listOfScript (j : Json) : Except String (List Value) := do
  (← toList j).mapM Value.ofScript

/-- A type of a script. -/
def Ty.ofScript (j : Json) : Except String Ty :=
  (Ty.ofJson typeDepth (Json.asWritten j)).mapError fun _ => "invalid type"

/-- A bit width of at most 4096. -/
def bitsOfScript (j : Json) : Except String Nat := do
  let n ← toNat j
  if n ≤ 4096 then pure n else throw "bits must be at most 4096"

/-- Largest block id: a larger number names this block. -/
def maxBlockId : Nat := Nat.pow 2 32 - 1

/-- A block id; numbers past the largest id stand for it. -/
def blockIdOfScript (j : Json) : Except String Nat := do
  pure (min maxBlockId (← toNat j))

/-- Most results a call may ask for. -/
def maxCallResults : Nat := 64

/-- The number of results of a call, at most `maxCallResults`. -/
def resultCountOfScript (j : Json) : Except String Nat := do
  pure (min maxCallResults (← toNat j))

/-- Item `i` of a step, which must be there. -/
def stepArg (items : List Json) (i : Nat) : Except String Json :=
  match items[i]? with
  | some v => .ok v
  | none => .error ("argument " ++ toString i ++ " missing")

/-- Reads the instruction `name`; its arguments are the step's items from the third on. -/
def InstrStep.ofScript (name : String) (items : List Json) : Except String InstrStep := do
  let arg (i : Nat) : Except String Json := stepArg items (i + 2)
  let v (i : Nat) : Except String Value := do Value.ofScript (← arg i)
  let vs (i : Nat) : Except String (List Value) := do Value.listOfScript (← arg i)
  let ty (i : Nat) : Except String Ty := do Ty.ofScript (← arg i)
  let text (i : Nat) : Except String String := do toStr (← arg i)
  let two (op : BinOp) : Except String InstrStep := do pure (.binary op (← v 0) (← v 1))
  match name with
  | "assign" => pure (.assign (← v 0) (← v 1))
  | "copy" => pure (.copy (← v 0))
  | "binary" => pure (.binary (← named BinOp.ofName? (← arg 0)) (← v 1) (← v 2))
  | "unary" => pure (.unary (← named UnOp.ofName? (← arg 0)) (← v 1))
  | "add" => two .add
  | "sub" => two .sub
  | "mul" => two .mul
  | "eq" => two .eq
  | "ne" => two .ne
  | "lt" => two .lt
  | "ge" => two .ge
  | "not" => pure (.unary .not (← v 0))
  | "iszero" => pure (.unary .isZero (← v 0))
  | "truncate" => pure (.truncate (← v 0) (← bitsOfScript (← arg 1)))
  | "sign_extend" => pure (.signExtend (← v 0) (← bitsOfScript (← arg 1)))
  | "memory_load" => pure (.memoryLoad (← v 0))
  | "memory_store" => pure (.memoryStore (← v 0) (← v 1))
  | "allocate_memory" => pure (.allocate (← v 0))
  | "storage_load" => pure (.storageLoad (← v 0))
  | "storage_store" => pure (.storageStore (← v 0) (← v 1))
  | "mapping_slot" => pure (.mappingSlot (← v 0) (← v 1))
  | "array_data_slot" => pure (.arrayDataSlot (← v 0))
  | "copy_storage_to_storage" => pure (.copyStorageToStorage (← v 0) (← v 1) (← ty 2))
  | "copy_memory_to_storage" => pure (.copyMemoryToStorage (← v 0) (← v 1) (← ty 2))
  | "copy_storage_to_memory" => pure (.copyStorageToMemory (← v 0) (← ty 1))
  | "call" => pure (.call (← text 0) (← vs 1) (← resultCountOfScript (← arg 2)))
  | "call_external" =>
    pure (.callExternal (← v 0) (← text 1) (← vs 2) (← v 3) (← v 4) (← resultCountOfScript (← arg 5)))
  | "create" => pure (.create (← text 0) (← vs 1) (← v 2))
  | "builtin" => pure (.builtin (← named Builtin.ofName? (← arg 0)) (← vs 1))
  | "context" => pure (.context (← named ContextVar.ofName? (← arg 0)))
  | "msg_value" => pure (.context .msgValue)
  | "msg_sender" => pure (.context .msgSender)
  | _ => throw ("unknown instruction " ++ name)

/-- The text member `key` of a fact change: absent keeps the fact, text sets it, anything else
clears it. -/
def textPatch (j : Json) (key : String) : Option (Option String) :=
  match j.get? key with
  | none => none
  | some (.str s) => some (some s)
  | some _ => some none

/-- The flag member `key` of a fact change: a boolean sets the flag, anything else keeps it. -/
def flagPatch (j : Json) (key : String) : Option Bool :=
  match j.get? key with
  | some (.bool b) => some b
  | _ => none

/-- Reads a step: a list that starts with its name. -/
def Step.ofScript (j : Json) : Except String Step := do
  let items ← match j with
    | .arr xs => pure xs
    | _ => throw "a command must be a list"
  let arg := stepArg items
  let head ← match items.head? with
    | some (.str s) => pure s
    | _ => throw "a command starts with its name"
  let v (i : Nat) : Except String Value := do Value.ofScript (← arg i)
  let block (i : Nat) : Except String Nat := do blockIdOfScript (← arg i)
  match head with
  | "name" => pure .name
  | "param" => pure (.param (← toStr (← arg 1)) (← Ty.ofScript (← arg 2)))
  | "params" => pure .params
  | "returns" => pure (.returns (← (← toList (← arg 1)).mapM Ty.ofScript))
  | "return_types" => pure .returnTypes
  | "visibility" => pure (.visibility (← named Visibility.ofName? (← arg 1)))
  | "mutability" => pure (.mutability (← named Mutability.ofName? (← arg 1)))
  | "meta" =>
    let m ← arg 1
    pure (.setMeta { isConstructor := flagPatch m "is_constructor"
                     isFallback := flagPatch m "is_fallback"
                     isAccessor := flagPatch m "is_accessor"
                     sourceName := textPatch m "source_name"
                     definedIn := textPatch m "defined_in" })
  | "entry_block" => pure .entryBlock
  | "create_block" => pure (.createBlock (← toStr (← arg 1)))
  | "switch" => pure (.switch (← block 1))
  | "current_block" => pure .currentBlock
  | "is_terminated" => pure .isTerminated
  | "new_temp" => pure .newTemp
  | "jump" => pure (.close (.jump (← block 1)))
  | "branch" => pure (.close (.branch (← v 1) (← block 2) (← block 3)))
  | "return" => pure (.close (.ret (← Value.listOfScript (← arg 1))))
  | "revert" => pure (.close (.revert (← v 1)))
  | "panic" => pure (.close .abort)
  | "prune" => pure .prune
  | "ins" => pure (.instr (InstrStep.ofScript (← toStr (← arg 1)) items))
  | _ => throw ("unknown command " ++ head)

/-- Reads the member `key` when it is there, `null` included, through `f`; a member that `f`
refuses is `message`. -/
def presentMember (j : Json) (key : String) (message : String) (f : Json → Except String α) :
    Except String (Option α) :=
  match j.get? key with
  | none => .ok none
  | some v => (f v).map some |>.mapError fun _ => message

/-- Reads a struct layout: a name and fields, each a name and a type, every structure an object
or the array of its fields. -/
def StructDef.ofScript (j : Json) : Except String StructDef := do
  let d ← structOf ["name", "fields"] j
  let fields ← (← toList (← field d "fields")).mapM fun f => do
    let f ← structOf ["name", "field_type"] f
    pure (← toStr (← field f "name"), ← Ty.ofScript (← field f "field_type"))
  pure { name := ← toStr (← field d "name"), fields := fields }

/-- Reads the facts of a contract, an object or the array of its four facts. -/
def ContractMeta.ofScript (j : Json) : Except String ContractMeta := do
  let m ← structOf ["linearization", "is_abstract", "has_external_calls", "has_selfdestruct"] j
  pure { linearization := ← (← toList (← field m "linearization")).mapM toStr
         isAbstract := ← toBool (← field m "is_abstract")
         hasExternalCalls := ← toBool (← field m "has_external_calls")
         hasSelfdestruct := ← toBool (← field m "has_selfdestruct") }

/-- Reads a storage entry `[name, type, slot, size]`. -/
def Slot.ofScript (j : Json) : Except String Slot := do
  match ← toList j with
  | [n, t, slot, size] =>
    pure { name := ← toStr n, ty := ← Ty.ofScript t, slot := ← toNatBelow slotModulus slot,
           size := ← toNatBelow slotModulus size }
  | _ => throw "expected four items"

/-- Reads a contract script. Structs, storage, dependencies and facts are optional, but when
given, even as `null`, they must be well formed; functions that are not an array are none, and
so are the commands of a function that are not an array. -/
def ContractScript.ofScript (j : Json) : Except String ContractScript := do
  let name ← match j.get? "name" with
    | some (.str s) => pure s
    | _ => throw "contract name missing"
  let structs ← presentMember j "structs" "invalid structs" fun s => do
    (← toList s).mapM fun item => do
      match ← toList item with
      | [id, d] => pure (← toNatBelow (Nat.pow 2 32) id, ← StructDef.ofScript d)
      | _ => throw "expected pair"
  let storage ← presentMember j "storage" "invalid storage" fun s => do (← toList s).mapM Slot.ofScript
  let dependencies ← presentMember j "dependencies" "invalid dependencies" fun d => do
    (← toList d).mapM toStr
  let info ← presentMember j "metadata" "invalid metadata" ContractMeta.ofScript
  let functions ← match j.get? "functions" with
    | some (.arr fs) => fs.mapM fun f => do
      let fname ← match f.get? "name" with
        | some (.str s) => pure s
        | _ => throw "function name missing"
      let steps ← match f.get? "commands" with
        | some (.arr cs) => cs.mapM Step.ofScript
        | _ => pure []
      pure (fname, steps)
    | _ => pure []
  pure { name, structs := structs.getD [], storage := storage.getD [],
         dependencies := dependencies.getD [], info := info.getD {}, functions }

end ContractCfg.IR
