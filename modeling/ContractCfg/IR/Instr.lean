import ContractCfg.IR.Type
import ContractCfg.IR.Value

/-!
Instructions and block terminators. Every instruction names the registers it writes
(`results`) and the operands it reads (`operands`); the terminator names the blocks control
may pass to (`successors`).
-/

namespace ContractCfg.IR

/-- Binary operations on unbounded integers. -/
inductive BinOp where
  | add | sub | mul | div | mod | exp
  | and | or | xor | shl | shr
  | eq | ne | lt | gt | le | ge
  deriving DecidableEq, Repr, Inhabited

/-- The mnemonic of an operation. -/
def BinOp.mnemonic : BinOp → String
  | .add => "add" | .sub => "sub" | .mul => "mul" | .div => "div" | .mod => "mod"
  | .exp => "exp" | .and => "and" | .or => "or" | .xor => "xor" | .shl => "shl"
  | .shr => "shr" | .eq => "eq" | .ne => "ne" | .lt => "lt" | .gt => "gt" | .le => "le"
  | .ge => "ge"

/-- The six comparisons, which yield 1 or 0. -/
def BinOp.isComparison : BinOp → Bool
  | .eq | .ne | .lt | .gt | .le | .ge => true
  | _ => false

/-- Unary operations: bitwise complement and the zero test. -/
inductive UnOp where
  | not | isZero
  deriving DecidableEq, Repr, Inhabited

/-- The mnemonic of a unary operation. -/
def UnOp.mnemonic : UnOp → String
  | .not => "not"
  | .isZero => "iszero"

/-- Built-in functions of the machine. -/
inductive Builtin where
  | keccak256 | addMod | mulMod | blockHash | balance | selfDestruct
  deriving DecidableEq, Repr, Inhabited

/-- The name a builtin is written with. -/
def Builtin.name : Builtin → String
  | .keccak256 => "keccak256" | .addMod => "addmod" | .mulMod => "mulmod"
  | .blockHash => "blockhash" | .balance => "balance" | .selfDestruct => "selfdestruct"

/-- How many values a builtin yields: none for `selfdestruct`, one otherwise. -/
def Builtin.resultCount : Builtin → Nat
  | .selfDestruct => 0
  | _ => 1

/-- Values of the transaction and block context. -/
inductive ContextVar where
  | msgSender | msgValue | txOrigin | txGasPrice | blockNumber | blockTimestamp
  | blockCoinbase | blockDifficulty | blockGasLimit | gasLeft | thisAddress
  deriving DecidableEq, Repr, Inhabited

/-- The name a context value is written with. -/
def ContextVar.name : ContextVar → String
  | .msgSender => "msg.sender" | .msgValue => "msg.value" | .txOrigin => "tx.origin"
  | .txGasPrice => "tx.gasprice" | .blockNumber => "block.number"
  | .blockTimestamp => "block.timestamp" | .blockCoinbase => "block.coinbase"
  | .blockDifficulty => "block.difficulty" | .blockGasLimit => "block.gaslimit"
  | .gasLeft => "gasleft" | .thisAddress => "this"

/-- Instructions. -/
inductive Instr where
  | assign (result value : Value)
  | binary (result : Value) (op : BinOp) (left right : Value)
  | unary (result : Value) (op : UnOp) (operand : Value)
  | truncate (result value : Value) (bits : Nat)
  | signExtend (result value : Value) (bits : Nat)
  | memoryLoad (result address : Value)
  | memoryStore (address value : Value)
  | allocate (result size : Value)
  | storageLoad (result slot : Value)
  | storageStore (slot value : Value)
  | mappingSlot (result base key : Value)
  | arrayDataSlot (result base : Value)
  | copyStorageToStorage (dest src : Value) (ty : Ty)
  | copyMemoryToStorage (dest src : Value) (ty : Ty)
  | copyStorageToMemory (result src : Value) (ty : Ty)
  | call (results : List Value) (function : String) (args : List Value)
  | callExternal (status : Value) (results : List Value) (address : Value) (function : String)
      (args : List Value) (value gas : Value)
  | create (status result : Value) (contract : String) (args : List Value) (value : Value)
  | builtin (results : List Value) (function : Builtin) (args : List Value)
  | getContext (result : Value) (var : ContextVar)
  deriving DecidableEq, Repr, Inhabited

namespace Instr

/-- The operands the instruction writes. -/
def results : Instr → List Value
  | .assign r _ | .binary r .. | .unary r .. | .truncate r .. | .signExtend r ..
  | .memoryLoad r _ | .allocate r _ | .storageLoad r _ | .mappingSlot r .. | .arrayDataSlot r _
  | .copyStorageToMemory r .. | .getContext r _ => [r]
  | .call rs .. | .builtin rs .. => rs
  | .callExternal s rs .. => s :: rs
  | .create s r .. => [s, r]
  | .memoryStore .. | .storageStore .. | .copyStorageToStorage .. | .copyMemoryToStorage .. => []

/-- The operands the instruction reads, in order. -/
def operands : Instr → List Value
  | .assign _ v | .truncate _ v _ | .signExtend _ v _ => [v]
  | .binary _ _ l r => [l, r]
  | .unary _ _ x => [x]
  | .memoryLoad _ a => [a]
  | .memoryStore a v => [a, v]
  | .allocate _ s => [s]
  | .storageLoad _ s => [s]
  | .storageStore s v => [s, v]
  | .mappingSlot _ b k => [b, k]
  | .arrayDataSlot _ b => [b]
  | .copyStorageToStorage d s _ | .copyMemoryToStorage d s _ => [d, s]
  | .copyStorageToMemory _ s _ => [s]
  | .call _ _ args | .builtin _ _ args => args
  | .callExternal _ _ a _ args v g => a :: args ++ [v, g]
  | .create _ _ _ args v => args ++ [v]
  | .getContext .. => []

/-- Writes storage, calls out, creates, or self-destructs. -/
def isStateChanging : Instr → Bool
  | .storageStore .. | .copyStorageToStorage .. | .copyMemoryToStorage .. | .callExternal ..
  | .create .. | .builtin _ .selfDestruct _ => true
  | _ => false

/-- Calls another contract or creates one. -/
def isExternalCall : Instr → Bool
  | .callExternal .. | .create .. => true
  | _ => false

end Instr

/-- How a block ends. `invalid` marks a block not yet terminated; `abort` is a failed
assertion. -/
inductive Terminator where
  | jump (target : Nat)
  | branch (cond : Value) (thenBlock elseBlock : Nat)
  | ret (values : List Value)
  | revert (status : Value)
  | abort
  | invalid
  deriving DecidableEq, Repr, Inhabited

namespace Terminator

/-- Blocks control may pass to, the taken branch first. -/
def successors : Terminator → List Nat
  | .jump t => [t]
  | .branch _ t e => [t, e]
  | _ => []

/-- The operands the terminator reads. -/
def operands : Terminator → List Value
  | .branch c _ _ => [c]
  | .ret vs => vs
  | .revert s => [s]
  | _ => []

/-- Returns from the function. -/
def isReturn : Terminator → Bool
  | .ret _ => true
  | _ => false

/-- Reverts or aborts. -/
def isRevert : Terminator → Bool
  | .revert _ | .abort => true
  | _ => false

end Terminator

end ContractCfg.IR
