import ContractCfg.IR.Report

/-!
Questions about a contract and the vocabulary of its representation: storage and memory
layout of types, facts about types and operands, the names of operations, builtins and context
values, the storage table, functions, and the text of single blocks. Each answer is JSON, with
`null` where the slot, field or function asked about does not exist; asking for the text of a
block that does not exist is a fault.
-/

namespace ContractCfg.IR

open ContractCfg.Json (toNat toStr)

/-- A question about a contract. -/
inductive Query where
  | storageSize (t : Ty)
  | storageFieldOffset (id index : Nat)
  | fieldIndex (id : Nat) (name : String)
  | memorySize (t : Ty) (length : Nat)
  | typeInfo (t : Ty)
  | valueInfo (v : Value)
  | constants
  | binaryOp (op : BinOp)
  | unaryOp (op : UnOp)
  | builtin (b : Builtin)
  | context (v : ContextVar)
  | slot (name : String)
  | nextFreeSlot
  | function (name : String)
  | blockText (function : String) (block : Nat)

/-- What a type is: its text, whether it fits a word, whether it is signed, its width. -/
def Ty.info (t : Ty) : Json :=
  .obj [("display", .str t.display), ("is_value_type", .bool t.isValueType),
    ("is_reference", .bool !t.isValueType), ("is_signed", .bool t.isSigned),
    ("bit_width", match t.bitWidth with | some n => .num n | none => .null)]

/-- What an operand is: its text, and its register name or constant value. -/
def Value.info (v : Value) : Json :=
  .obj [("display", .str v.display), ("is_constant", .bool v.asConst?.isSome),
    ("as_local", Json.optStr v.asReg?),
    ("constant", match v.asConst? with
      | some c => .obj [("is_zero", .bool c.isZero), ("as_bigint", .bigNum c.toInt)]
      | none => .null)]

/-- Why a question has no answer. -/
inductive QueryFault where
  /-- The layout of a struct that contains itself. -/
  | unboundedLayout
  /-- A block of a function the contract does not have. -/
  | noSuchFunction
  /-- A block the function does not have. -/
  | noSuchBlock
  deriving DecidableEq, Repr

/-- A layout, or the fault of a struct that contains itself. -/
def layoutAnswer (x : Option Json) : Except QueryFault Json :=
  match x with
  | some j => .ok j
  | none => .error .unboundedLayout

/-- The answer to `q` about `c`. -/
def Contract.answer (c : Contract) : Query → Except QueryFault Json
  | .storageSize t => layoutAnswer ((c.types.storageSize t).map fun n => .num n)
  | .storageFieldOffset id i => layoutAnswer ((c.types.storageFieldOffset id i).map fun
      | some n => .num n
      | none => .null)
  | .fieldIndex id name => pure (match c.types.fieldIndex id name with
      | some i => .num i
      | none => .null)
  | .memorySize t n => pure (.num (c.types.memorySize t n))
  | .typeInfo t => pure t.info
  | .valueInfo v => pure v.info
  | .constants => pure (.arr [.str Value.zero.display, .str Value.one.display,
      .bool (Constant.bool true).isZero, .bigNum (Constant.bool false).toInt])
  | .binaryOp op => pure (.obj [("mnemonic", .str op.mnemonic), ("display", .str op.mnemonic),
      ("is_comparison", .bool op.isComparison)])
  | .unaryOp op => pure (.str op.mnemonic)
  | .builtin b => pure (.obj [("name", .str b.name), ("result_count", .num b.resultCount)])
  | .context v => pure (.str v.name)
  | .slot name => pure (match c.slotNamed? name with
      | some s => .arr [.num s.slot, .num s.size, .str s.ty.display]
      | none => .null)
  | .nextFreeSlot => pure (.num c.nextFreeSlot)
  | .function name => pure (match c.function? name with
      | some f => .obj [("entry", .num f.body.entry), ("instructions", .num f.instrCount),
          ("params", .arr (f.sig.params.map fun p => .arr [.str p.name, .str p.ty.display])),
          ("returns", Json.strs (f.sig.returns.map Ty.display))]
      | none => .null)
  | .blockText fname id =>
    match c.function? fname with
    | none => .error .noSuchFunction
    | some f =>
      match f.body.blocks.get? id with
      | none => .error .noSuchBlock
      | some b => pure (.obj [("text", .str b.term.text),
          ("instructions", Json.strs (b.instrs.toList.map (TextStyle.instrText {} c.types)))])

/-- A struct id; numbers are taken modulo 2^32. -/
def structIdOfScript (j : Json) : Except String Nat := do
  pure ((← toNat j) % Nat.pow 2 32)

/-- Reads a question: a list that starts with its name. -/
def Query.ofScript (j : Json) : Except String Query := do
  let items ← match j with
    | .arr xs => pure xs
    | _ => throw "a query must be a list"
  let arg := stepArg items
  let head ← match items.head? with
    | some (.str s) => pure s
    | _ => throw "a query starts with its name"
  match head with
  | "storage_size" => pure (.storageSize (← Ty.ofScript (← arg 1)))
  | "storage_field_offset" => pure (.storageFieldOffset (← structIdOfScript (← arg 1)) (← toNat (← arg 2)))
  | "field_index" => pure (.fieldIndex (← structIdOfScript (← arg 1)) (← toStr (← arg 2)))
  | "memory_size" => pure (.memorySize (← Ty.ofScript (← arg 1)) (← toNat (← arg 2)))
  | "type" => pure (.typeInfo (← Ty.ofScript (← arg 1)))
  | "value" => pure (.valueInfo (← Value.ofScript (← arg 1)))
  | "constants" => pure .constants
  | "binary_op" => pure (.binaryOp (← named BinOp.ofName? (← arg 1)))
  | "unary_op" => pure (.unaryOp (← named UnOp.ofName? (← arg 1)))
  | "builtin" => pure (.builtin (← named Builtin.ofName? (← arg 1)))
  | "context" => pure (.context (← named ContextVar.ofName? (← arg 1)))
  | "slot" => pure (.slot (← toStr (← arg 1)))
  | "next_free_slot" => pure .nextFreeSlot
  | "get_function" => pure (.function (← toStr (← arg 1)))
  | "terminator" => pure (.blockText (← toStr (← arg 1)) (← blockIdOfScript (← arg 2)))
  | _ => throw ("unknown query " ++ head)

end ContractCfg.IR
