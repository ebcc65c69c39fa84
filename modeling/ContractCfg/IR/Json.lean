import ContractCfg.IR.Contract
import ContractCfg.Json.Integer
import ContractCfg.Hash.Sha256
import ContractCfg.Json.Written

/-!
The persisted JSON form of a contract. Structures are objects with their fields in declaration
order; maps are objects keyed by name or by decimal id, in insertion order; enumerations are a
variant name, or a one-member object for a variant with data; a big integer is
`[sign, [32-bit digits, least significant first]]`. Reading is strict about what it requires:
every field that is not optional must be present exactly once, numbers must fit their width,
and unknown fields are ignored. It also takes a structure written as the array of its fields in
order, and a variant without data written as a one-member object holding `null`.

Saved text is read as written (`Json.parseWritten`): names are decoded where they are read,
and a decimal map key must be written with plain digits. Where it is read, saved text may nest
at most 127 arrays and objects; only types nest without bound, so each type is read with the
room its position leaves. The fingerprint is the SHA-256 of the compact text.
-/

namespace ContractCfg.IR

open ContractCfg.Json (toNatBelow toBool toList toName ofBig toBig writtenText writtenKeys writtenFields
  writtenName? writtenVariant)

/-- The members of an object. -/
def members : Json → Except String (List (String × Json))
  | .obj ms => .ok ms
  | _ => .error "expected object"

/-- The fields of a structure with the given field names. -/
def fieldsOf (names : List String) (j : Json) : Except String (List (String × Json)) :=
  writtenFields names j

/-- The field names of each instruction form, in order. -/
def instrFields : String → List String
  | "Assign" => ["result", "value"]
  | "Binary" => ["result", "op", "left", "right"]
  | "Unary" => ["result", "op", "operand"]
  | "Truncate" | "SignExtend" => ["result", "value", "bits"]
  | "MemoryLoad" => ["result", "address"]
  | "MemoryStore" => ["address", "value"]
  | "AllocateMemory" => ["result", "size"]
  | "StorageLoad" => ["result", "slot"]
  | "StorageStore" => ["slot", "value"]
  | "MappingSlot" => ["result", "base", "key"]
  | "ArrayDataSlot" => ["result", "base"]
  | "StorageToStorageCopy" | "MemoryToStorageCopy" => ["dest", "src", "ty"]
  | "StorageToMemoryCopy" => ["result", "src", "ty"]
  | "Call" => ["results", "function", "args"]
  | "CallExternal" => ["status", "results", "address", "function", "args", "value", "gas"]
  | "Create" => ["status", "result", "contract", "args", "value"]
  | "Builtin" => ["results", "function", "args"]
  | "GetContext" => ["result", "var"]
  | _ => []

/-- The field `key`, which must appear exactly once. -/
def req (ms : List (String × Json)) (key : String) : Except String Json :=
  match ms.filter (·.1 == key) with
  | [(_, v)] => .ok v
  | [] => .error ("missing field " ++ key)
  | _ => .error ("duplicate field " ++ key)

/-- The optional field `key`: absent or `null` is none; it may not repeat. -/
def opt (ms : List (String × Json)) (key : String) : Except String (Option Json) :=
  match ms.filter (·.1 == key) with
  | [] | [(_, .null)] => .ok none
  | [(_, v)] => .ok (some v)
  | _ => .error ("duplicate field " ++ key)

/-- A map key written as an unsigned 32-bit number in canonical decimal form. -/
def keyIndex (k : String) : Except String Nat :=
  let ds := k.toList
  if ds.isEmpty || !ds.all Char.isDigit || (ds.length > 1 && ds.head? == some '0') then
    .error "invalid key"
  else
    let n := ds.foldl (fun acc d => acc * 10 + (d.toNat - 48)) 0
    if n < Nat.pow 2 32 then .ok n else .error "invalid key"

/-- Saved text may nest at most this many arrays and objects where it is read. -/
def loadDepthLimit : Nat := 127

/-- Room for nesting when reading a type outside saved text. -/
def typeDepth : Nat := 100000

namespace Ty

/-- The JSON form of a type. -/
def toJson : Ty → Json
  | .bool => .str "Bool"
  | .uint b => .obj [("Uint", .num b)]
  | .int b => .obj [("Int", .num b)]
  | .address => .str "Address"
  | .fixedBytes n => .obj [("FixedBytes", .num n)]
  | .array e len => .obj [("Array", .arr [toJson e, match len with | some n => .num n | none => .null])]
  | .mapping k v => .obj [("Mapping", .arr [toJson k, toJson v])]
  | .struct id => .obj [("Struct", .num id)]
  | .contract n => .obj [("Contract", .str n)]

/-- Reads a type that may open at most `room` arrays and objects: a variant with data, or one
without data written as an object, opens one, and the pair inside `Array` and `Mapping`
another. -/
def ofJson : Nat → Json → Except String Ty
  | _, .str raw =>
    match Json.unescape raw with
    | some "Bool" => .ok .bool
    | some "Address" => .ok .address
    | _ => .error "unknown type"
  | 0, _ => .error "nesting too deep"
  | room + 1, j =>
    match writtenName? j with
    | some "Bool" => .ok .bool
    | some "Address" => .ok .address
    | _ => do
      let (tag, v) ← writtenVariant j
      match tag, v with
      | "Uint", v => return .uint (← toNatBelow 65536 v)
      | "Int", v => return .int (← toNatBelow 65536 v)
      | "FixedBytes", v => return .fixedBytes (← toNatBelow 256 v)
      | "Array", .arr [e, len] =>
        match room with
        | r + 1 => return .array (← ofJson r e) (← Json.toOption (toNatBelow (Nat.pow 2 64)) len)
        | 0 => throw "unknown type"
      | "Mapping", .arr [k, w] =>
        match room with
        | r + 1 => return .mapping (← ofJson r k) (← ofJson r w)
        | 0 => throw "unknown type"
      | "Struct", v => return .struct (← toNatBelow (Nat.pow 2 32) v)
      | "Contract", v => return .contract (← writtenText v)
      | _, _ => throw "unknown type"

end Ty

namespace Value

/-- The JSON form of an operand. -/
def toJson : Value → Json
  | .reg n => .obj [("Local", .str n)]
  | .const (.bool b) => .obj [("Constant", .obj [("Bool", .bool b)])]
  | .const (.int n) => .obj [("Constant", .obj [("Int", ofBig n)])]

/-- Reads an operand. -/
def ofJson (j : Json) : Except String Value := do
  let (tag, v) ← writtenVariant j
  match tag with
  | "Local" => return .reg (← writtenText v)
  | "Constant" =>
    let (ctag, w) ← writtenVariant v
    match ctag with
    | "Bool" => return .const (.bool (← toBool w))
    | "Int" => return .const (.int (← toBig w))
    | _ => throw "unknown constant"
  | _ => throw "unknown value"

end Value

/-- Variant names of binary operations. -/
def BinOp.variantName : BinOp → String
  | .add => "Add" | .sub => "Sub" | .mul => "Mul" | .div => "Div" | .mod => "Mod"
  | .exp => "Exp" | .and => "And" | .or => "Or" | .xor => "Xor" | .shl => "Shl"
  | .shr => "Shr" | .eq => "Eq" | .ne => "Ne" | .lt => "Lt" | .gt => "Gt" | .le => "Le"
  | .ge => "Ge"

/-- All binary operations. -/
def BinOp.all : List BinOp :=
  [.add, .sub, .mul, .div, .mod, .exp, .and, .or, .xor, .shl, .shr, .eq, .ne, .lt, .gt, .le, .ge]

/-- The binary operation with the variant name. -/
def BinOp.ofName? (s : String) : Option BinOp := BinOp.all.find? (·.variantName == s)

/-- Variant names of unary operations. -/
def UnOp.variantName : UnOp → String
  | .not => "Not"
  | .isZero => "IsZero"

/-- The unary operation with the variant name. -/
def UnOp.ofName? (s : String) : Option UnOp := [UnOp.not, .isZero].find? (·.variantName == s)

/-- Variant names of builtins. -/
def Builtin.variantName : Builtin → String
  | .keccak256 => "Keccak256" | .addMod => "AddMod" | .mulMod => "MulMod"
  | .blockHash => "BlockHash" | .balance => "Balance" | .selfDestruct => "SelfDestruct"

/-- The builtin with the variant name. -/
def Builtin.ofName? (s : String) : Option Builtin :=
  [Builtin.keccak256, .addMod, .mulMod, .blockHash, .balance, .selfDestruct].find? (·.variantName == s)

/-- Variant names of context values. -/
def ContextVar.variantName : ContextVar → String
  | .msgSender => "MsgSender" | .msgValue => "MsgValue" | .txOrigin => "TxOrigin"
  | .txGasPrice => "TxGasPrice" | .blockNumber => "BlockNumber"
  | .blockTimestamp => "BlockTimestamp" | .blockCoinbase => "BlockCoinbase"
  | .blockDifficulty => "BlockDifficulty" | .blockGasLimit => "BlockGasLimit"
  | .gasLeft => "GasLeft" | .thisAddress => "ThisAddress"

/-- The context value with the variant name. -/
def ContextVar.ofName? (s : String) : Option ContextVar :=
  [ContextVar.msgSender, .msgValue, .txOrigin, .txGasPrice, .blockNumber, .blockTimestamp,
    .blockCoinbase, .blockDifficulty, .blockGasLimit, .gasLeft, .thisAddress].find? (·.variantName == s)

/-- Variant names of visibilities. -/
def Visibility.variantName : Visibility → String
  | .pub => "Public" | .external => "External" | .internal => "Internal" | .priv => "Private"

/-- The visibility with the variant name. -/
def Visibility.ofName? (s : String) : Option Visibility :=
  [Visibility.pub, .external, .internal, .priv].find? (·.variantName == s)

/-- Variant names of mutabilities. -/
def Mutability.variantName : Mutability → String
  | .pure => "Pure" | .view => "View" | .nonPayable => "NonPayable" | .payable => "Payable"

/-- The mutability with the variant name. -/
def Mutability.ofName? (s : String) : Option Mutability :=
  [Mutability.pure, .view, .nonPayable, .payable].find? (·.variantName == s)

/-- Reads a variant name through `f`. -/
def named (f : String → Option α) (j : Json) : Except String α := do
  match f (← toName j) with
  | some a => pure a
  | none => throw "unknown variant"

/-- Reads a variant name of saved text through `f`. -/
def writtenNamed (f : String → Option α) (j : Json) : Except String α :=
  match writtenName? j >>= f with
  | some a => .ok a
  | none => .error "unknown variant"

/-- Operands as a JSON array. -/
def valuesToJson (vs : List Value) : Json := .arr (vs.map Value.toJson)

/-- Reads an array of operands. -/
def valuesOfJson (j : Json) : Except String (List Value) := do
  (← toList j).mapM Value.ofJson

namespace Instr

/-- The JSON form of an instruction. -/
def toJson : Instr → Json
  | .assign r v => .obj [("Assign", .obj [("result", r.toJson), ("value", v.toJson)])]
  | .binary r op l x => .obj [("Binary", .obj [("result", r.toJson), ("op", .str op.variantName),
      ("left", l.toJson), ("right", x.toJson)])]
  | .unary r op x => .obj [("Unary", .obj [("result", r.toJson), ("op", .str op.variantName),
      ("operand", x.toJson)])]
  | .truncate r v b => .obj [("Truncate", .obj [("result", r.toJson), ("value", v.toJson), ("bits", .num b)])]
  | .signExtend r v b => .obj [("SignExtend", .obj [("result", r.toJson), ("value", v.toJson), ("bits", .num b)])]
  | .memoryLoad r a => .obj [("MemoryLoad", .obj [("result", r.toJson), ("address", a.toJson)])]
  | .memoryStore a v => .obj [("MemoryStore", .obj [("address", a.toJson), ("value", v.toJson)])]
  | .allocate r s => .obj [("AllocateMemory", .obj [("result", r.toJson), ("size", s.toJson)])]
  | .storageLoad r s => .obj [("StorageLoad", .obj [("result", r.toJson), ("slot", s.toJson)])]
  | .storageStore s v => .obj [("StorageStore", .obj [("slot", s.toJson), ("value", v.toJson)])]
  | .mappingSlot r b k => .obj [("MappingSlot", .obj [("result", r.toJson), ("base", b.toJson), ("key", k.toJson)])]
  | .arrayDataSlot r b => .obj [("ArrayDataSlot", .obj [("result", r.toJson), ("base", b.toJson)])]
  | .copyStorageToStorage d s t => .obj [("StorageToStorageCopy", .obj [("dest", d.toJson),
      ("src", s.toJson), ("ty", t.toJson)])]
  | .copyMemoryToStorage d s t => .obj [("MemoryToStorageCopy", .obj [("dest", d.toJson),
      ("src", s.toJson), ("ty", t.toJson)])]
  | .copyStorageToMemory r s t => .obj [("StorageToMemoryCopy", .obj [("result", r.toJson),
      ("src", s.toJson), ("ty", t.toJson)])]
  | .call rs f args => .obj [("Call", .obj [("results", valuesToJson rs), ("function", .str f),
      ("args", valuesToJson args)])]
  | .callExternal s rs a f args v g => .obj [("CallExternal", .obj [("status", s.toJson),
      ("results", valuesToJson rs), ("address", a.toJson), ("function", .str f),
      ("args", valuesToJson args), ("value", v.toJson), ("gas", g.toJson)])]
  | .create s r c args v => .obj [("Create", .obj [("status", s.toJson), ("result", r.toJson),
      ("contract", .str c), ("args", valuesToJson args), ("value", v.toJson)])]
  | .builtin rs f args => .obj [("Builtin", .obj [("results", valuesToJson rs),
      ("function", .str f.variantName), ("args", valuesToJson args)])]
  | .getContext r x => .obj [("GetContext", .obj [("result", r.toJson), ("var", .str x.variantName)])]

/-- Reads an instruction that may open at most `room` arrays and objects. -/
def ofJson (room : Nat) (j : Json) : Except String Instr := do
  let (tag, v) ← writtenVariant j
  let ms ← fieldsOf (instrFields tag) v
  let val (k : String) : Except String Value := do Value.ofJson (← req ms k)
  let vals (k : String) : Except String (List Value) := do valuesOfJson (← req ms k)
  let ty (k : String) : Except String Ty := do Ty.ofJson (room - 2) (← req ms k)
  let str (k : String) : Except String String := do writtenText (← req ms k)
  let bits : Except String Nat := do toNatBelow 65536 (← req ms "bits")
  match tag with
  | "Assign" => return .assign (← val "result") (← val "value")
  | "Binary" => return .binary (← val "result") (← writtenNamed BinOp.ofName? (← req ms "op")) (← val "left") (← val "right")
  | "Unary" => return .unary (← val "result") (← writtenNamed UnOp.ofName? (← req ms "op")) (← val "operand")
  | "Truncate" => return .truncate (← val "result") (← val "value") (← bits)
  | "SignExtend" => return .signExtend (← val "result") (← val "value") (← bits)
  | "MemoryLoad" => return .memoryLoad (← val "result") (← val "address")
  | "MemoryStore" => return .memoryStore (← val "address") (← val "value")
  | "AllocateMemory" => return .allocate (← val "result") (← val "size")
  | "StorageLoad" => return .storageLoad (← val "result") (← val "slot")
  | "StorageStore" => return .storageStore (← val "slot") (← val "value")
  | "MappingSlot" => return .mappingSlot (← val "result") (← val "base") (← val "key")
  | "ArrayDataSlot" => return .arrayDataSlot (← val "result") (← val "base")
  | "StorageToStorageCopy" => return .copyStorageToStorage (← val "dest") (← val "src") (← ty "ty")
  | "MemoryToStorageCopy" => return .copyMemoryToStorage (← val "dest") (← val "src") (← ty "ty")
  | "StorageToMemoryCopy" => return .copyStorageToMemory (← val "result") (← val "src") (← ty "ty")
  | "Call" => return .call (← vals "results") (← str "function") (← vals "args")
  | "CallExternal" =>
    return .callExternal (← val "status") (← vals "results") (← val "address") (← str "function")
      (← vals "args") (← val "value") (← val "gas")
  | "Create" => return .create (← val "status") (← val "result") (← str "contract") (← vals "args") (← val "value")
  | "Builtin" => return .builtin (← vals "results") (← writtenNamed Builtin.ofName? (← req ms "function")) (← vals "args")
  | "GetContext" => return .getContext (← val "result") (← writtenNamed ContextVar.ofName? (← req ms "var"))
  | _ => throw "unknown instruction"

end Instr

namespace Terminator

/-- The JSON form of a terminator. -/
def toJson : Terminator → Json
  | .jump t => .obj [("Jump", .num t)]
  | .branch c t e => .obj [("Branch", .obj [("condition", c.toJson), ("then_block", .num t),
      ("else_block", .num e)])]
  | .ret vs => .obj [("Return", valuesToJson vs)]
  | .revert s => .obj [("Revert", s.toJson)]
  | .abort => .str "Panic"
  | .invalid => .str "Invalid"

/-- Reads a terminator. -/
def ofJson (j : Json) : Except String Terminator := do
  match writtenName? j with
  | some "Panic" => return .abort
  | some "Invalid" => return .invalid
  | _ =>
    let (tag, v) ← writtenVariant j
    match tag with
    | "Jump" => return .jump (← toNatBelow (Nat.pow 2 32) v)
    | "Branch" =>
      let ms ← fieldsOf ["condition", "then_block", "else_block"] v
      return .branch (← Value.ofJson (← req ms "condition")) (← toNatBelow (Nat.pow 2 32) (← req ms "then_block"))
        (← toNatBelow (Nat.pow 2 32) (← req ms "else_block"))
    | "Return" => return .ret (← valuesOfJson v)
    | "Revert" => return .revert (← Value.ofJson v)
    | _ => throw "unknown terminator"

end Terminator

/-- The JSON form of a block. -/
def Block.toJson (b : Block) : Json :=
  .obj [("id", .num b.id), ("label", .str b.label), ("instructions", .arr (b.instrs.toList.map Instr.toJson)),
    ("terminator", b.term.toJson)]

/-- Reads a block that may open at most `room` arrays and objects. -/
def Block.ofJson (room : Nat) (j : Json) : Except String Block := do
  let ms ← fieldsOf ["id", "label", "instructions", "terminator"] j
  pure {
    id := ← toNatBelow (Nat.pow 2 32) (← req ms "id")
    label := ← writtenText (← req ms "label")
    instrs := (← (← toList (← req ms "instructions")).mapM (Instr.ofJson (room - 2))).toArray
    term := ← Terminator.ofJson (← req ms "terminator") }

/-- Reads an object keyed by decimal ids, later keys replacing earlier ones in place. -/
def keyedOfJson (f : Json → Except String α) (j : Json) : Except String (OrderedMap Nat α) := do
  let ms ← members j
  ms.foldlM (fun m (k, v) => do pure (m.insert (← keyIndex k) (← f v))) {}

/-- The JSON form of a function. -/
def Function.toJson (f : Function) : Json :=
  .obj [
    ("signature", .obj [("name", .str f.sig.name),
      ("params", .arr (f.sig.params.map fun p => .obj [("name", .str p.name), ("param_type", p.ty.toJson)])),
      ("returns", .arr (f.sig.returns.map Ty.toJson))]),
    ("visibility", .str f.visibility.variantName),
    ("mutability", .str f.mutability.variantName),
    ("body", .obj [("entry_block", .num f.body.entry),
      ("blocks", .obj (f.body.blocks.toList.map fun (k, b) => (toString k, b.toJson))),
      ("next_block_id", .num f.body.nextId)]),
    ("metadata", .obj [("is_constructor", .bool f.info.isConstructor), ("is_fallback", .bool f.info.isFallback),
      ("is_accessor", .bool f.info.isAccessor), ("calls_external", .bool f.info.callsExternal),
      ("modifies_state", .bool f.info.modifiesState), ("source_name", Json.optStr f.info.sourceName),
      ("defined_in", Json.optStr f.info.definedIn)])]

/-- Reads a function that may open at most `room` arrays and objects. -/
def Function.ofJson (room : Nat) (j : Json) : Except String Function := do
  let ms ← fieldsOf ["signature", "visibility", "mutability", "body", "metadata"] j
  let sig ← fieldsOf ["name", "params", "returns"] (← req ms "signature")
  let params ← (← toList (← req sig "params")).mapM fun p => do
    let pm ← fieldsOf ["name", "param_type"] p
    pure ({ name := ← writtenText (← req pm "name"), ty := ← Ty.ofJson (room - 4) (← req pm "param_type") } : Param)
  let body ← fieldsOf ["entry_block", "blocks", "next_block_id"] (← req ms "body")
  let info ← fieldsOf ["is_constructor", "is_fallback", "is_accessor", "calls_external", "modifies_state",
    "source_name", "defined_in"] (← req ms "metadata")
  let flag (k : String) : Except String Bool := do toBool (← req info k)
  let optName (k : String) : Except String (Option String) := do
    match ← opt info k with
    | some v => pure (some (← writtenText v))
    | none => pure none
  pure {
    sig := { name := ← writtenText (← req sig "name"), params := params,
             returns := ← (← toList (← req sig "returns")).mapM (Ty.ofJson (room - 3)) }
    visibility := ← writtenNamed Visibility.ofName? (← req ms "visibility")
    mutability := ← writtenNamed Mutability.ofName? (← req ms "mutability")
    body := { entry := ← toNatBelow (Nat.pow 2 32) (← req body "entry_block")
              blocks := ← keyedOfJson (Block.ofJson (room - 3)) (← req body "blocks")
              nextId := ← toNatBelow (Nat.pow 2 32) (← req body "next_block_id") }
    info := { isConstructor := ← flag "is_constructor", isFallback := ← flag "is_fallback",
              isAccessor := ← flag "is_accessor", callsExternal := ← flag "calls_external",
              modifiesState := ← flag "modifies_state", sourceName := ← optName "source_name",
              definedIn := ← optName "defined_in" } }

/-- The JSON form of a contract. -/
def Contract.toJson (c : Contract) : Json :=
  .obj [
    ("name", .str c.name),
    ("functions", .obj (c.functions.toList.map fun (k, f) => (k, f.toJson))),
    ("storage_layout", .obj [("slots", .arr (c.storage.map fun s => .obj [("slot", .num s.slot),
      ("size", .num s.size), ("var_type", s.ty.toJson), ("name", .str s.name)]))]),
    ("types", .obj [("structs", .obj (c.types.structs.toList.map fun (k, d) => (toString k,
      .obj [("name", .str d.name), ("fields", .arr (d.fields.map fun (n, t) =>
        .obj [("name", .str n), ("field_type", t.toJson)]))])))]),
    ("dependencies", Json.strs c.dependencies),
    ("metadata", .obj [("linearization", Json.strs c.info.linearization),
      ("is_abstract", .bool c.info.isAbstract), ("has_external_calls", .bool c.info.hasExternalCalls),
      ("has_selfdestruct", .bool c.info.hasSelfdestruct)])]

/-- Reads a contract, the outermost object of saved text. -/
def Contract.ofJson (j : Json) : Except String Contract := do
  let ms ← fieldsOf ["name", "functions", "storage_layout", "types", "dependencies", "metadata"] j
  let fms ← writtenKeys (← members (← req ms "functions"))
  let functions ← fms.foldlM (fun (m : OrderedMap String Function) (k, v) => do
    pure (m.insert k (← Function.ofJson (loadDepthLimit - 2) v))) {}
  let layout ← fieldsOf ["slots"] (← req ms "storage_layout")
  let slots ← (← toList (← req layout "slots")).mapM fun s => do
    let sm ← fieldsOf ["slot", "size", "var_type", "name"] s
    pure ({ slot := ← toNatBelow (Nat.pow 2 64) (← req sm "slot"), size := ← toNatBelow (Nat.pow 2 64) (← req sm "size"),
            ty := ← Ty.ofJson (loadDepthLimit - 4) (← req sm "var_type"), name := ← writtenText (← req sm "name") } : Slot)
  let types ← fieldsOf ["structs"] (← req ms "types")
  let structs ← keyedOfJson (fun d => do
    let dm ← fieldsOf ["name", "fields"] d
    let fields ← (← toList (← req dm "fields")).mapM fun f => do
      let fm ← fieldsOf ["name", "field_type"] f
      pure (← writtenText (← req fm "name"), ← Ty.ofJson (loadDepthLimit - 6) (← req fm "field_type"))
    pure ({ name := ← writtenText (← req dm "name"), fields := fields } : StructDef)) (← req types "structs")
  let info ← fieldsOf ["linearization", "is_abstract", "has_external_calls", "has_selfdestruct"]
    (← req ms "metadata")
  pure {
    name := ← writtenText (← req ms "name")
    functions := functions
    storage := slots
    types := ⟨structs⟩
    dependencies := ← (← toList (← req ms "dependencies")).mapM writtenText
    info := { linearization := ← (← toList (← req info "linearization")).mapM writtenText
              isAbstract := ← toBool (← req info "is_abstract")
              hasExternalCalls := ← toBool (← req info "has_external_calls")
              hasSelfdestruct := ← toBool (← req info "has_selfdestruct") } }

/-- The file text a contract is saved as: the indented JSON form. -/
def Contract.save (c : Contract) : String := c.toJson.pretty 0

/-- Reads a saved contract back. -/
def Contract.load (text : String) : Except String Contract := do
  Contract.ofJson (← Json.parseWritten text)

/-- The lowercase hexadecimal SHA-256 of the compact JSON form. -/
def Contract.fingerprint (c : Contract) : String :=
  Hash.Sha256.hexDigest c.toJson.render.toUTF8

end ContractCfg.IR
