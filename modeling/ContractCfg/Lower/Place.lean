import ContractCfg.Lower.Operators

/-!
Assignable places: a register, a memory cell, or a storage object rooted at a slot. Reading a
storage object of reference type yields its root slot. Storing masks value types, copies a
storage object into memory when a memory-typed place receives it, and copies into a storage
object from storage or memory; a storage pointer only aliases.
-/

namespace ContractCfg.Lower

open ContractCfg.Source
open ContractCfg.IR (Value)

/-- An assignable place and the type of what it holds. -/
inductive Place where
  /-- A local variable, including memory and storage pointers. -/
  | register (local_ : Value) (ty : TypeName)
  /-- A memory cell. -/
  | memory (address : Value) (ty : TypeName)
  /-- A storage object rooted at `slot`. -/
  | storage (slot : Value) (ty : TypeName)
  deriving Inhabited

namespace Place

/-- The storage object at `slot`, its type moved to storage. -/
def inStorage (slot : Value) (t : TypeName) : Place := .storage slot (t.withLocation .storage)

/-- The type of what the place holds. -/
def ty : Place → TypeName
  | .register _ t | .memory _ t | .storage _ t => t

end Place

namespace Gen

/-- `base + by`, folded for constants and for zero. -/
def offset (base by_ : Value) : Gen Value :=
  match base, by_ with
  | _, .const (.int 0) => pure base
  | .const (.int a), .const (.int b) => pure (.ofInt (a + b))
  | _, _ => binary .add base by_

/-- `index * size`, folded for constants and for size one. -/
def scale (index : Value) (size : Nat) : Gen Value :=
  if size == 1 then pure index
  else match index with
    | .const (.int i) => pure (.ofInt (i * size))
    | _ => binary .mul index (.ofInt size)

/-- Aborts when `index` is not below `length`, if bounds checks are on. -/
def checkBounds (index length : Value) : Gen Unit := do
  if !(← read).options.boundsChecks then return
  let outOfRange ← match index, length with
    | .const (.int i), .const (.int n) => pure (Value.ofBool (i ≥ n))
    | _, _ => binary .ge index length
  let fail ← assertFailBlock
  failIf outOfRange fail "index.ok"

/-- The slot of element `index` of the storage array of type `array` rooted at `base`. -/
def storageElementSlot (base : Value) (array : TypeName) (index : Value) (node : Nat) :
    Gen Value := do
  let .array elem length _ := array
    | throw (.typeMismatch node "indexing a non-array")
  let size ← storageSize elem node
  let start ← match length with
    | some n => do
      checkBounds index (.ofInt n)
      pure base
    | none => do
      let len ← emit fun r => .storageLoad r base
      checkBounds index len
      emit fun r => .arrayDataSlot r base
  let scaled ← scale index size
  offset start scaled

/-- The address of element `index` of the memory array at `ptr`; cell 0 holds the length. -/
def memoryElementAddress (ptr index : Value) : Gen Value := do
  let len ← emit fun r => .memoryLoad r ptr
  checkBounds index len
  let first ← offset ptr .one
  offset first index

/-- The value at a place. -/
def load : Place → Gen Value
  | .register x _ => emit fun r => .assign r x
  | .memory a _ => emit fun r => .memoryLoad r a
  | .storage s t => if t.isValueType then emit fun r => .storageLoad r s else pure s

/-- `v` of type `src` made fit for a place of type `dst`: a storage object headed for memory
is copied, a value is converted. -/
def prepareValue (v : Value) (src dst : TypeName) (node : Nat) : Gen Value := do
  if dst.copiesStorageToMemory src then
    let ir ← irType src node
    return ← emit fun r => .copyStorageToMemory r v ir
  if dst.isValueType then convert v src dst else pure v

/-- Stores `v` of type `src` at a place. -/
def store (p : Place) (v : Value) (src : TypeName) (node : Nat) : Gen Unit :=
  match p with
  | .register x t => do
    let v ← prepareValue v src t node
    emitUnit (.assign x v)
  | .memory a t => do
    let v ← prepareValue v src t node
    emitUnit (.memoryStore a v)
  | .storage s t => do
    if t.isValueType then
      let v ← convert v src t
      emitUnit (.storageStore s v)
    else
      let ir ← irType t node
      if t.copiesStorageToStorage src then emitUnit (.copyStorageToStorage s v ir)
      else if t.copiesMemoryToStorage src then emitUnit (.copyMemoryToStorage s v ir)
      else throw (.typeMismatch node "cannot assign to a mapping")

/-- Resets a place to the zero value of its type. -/
def delete (p : Place) (node : Nat) : Gen Unit :=
  match p with
  | .storage _ (.mapping ..) => throw (.unsupportedFeature node "delete of a whole mapping")
  | .storage s t => do
    if t.isReference then
      let ir ← irType t node
      emitUnit (.copyMemoryToStorage s .zero ir)
    else
      let z ← defaultValue t node
      emitUnit (.storageStore s z)
  | .register x t => do
    let z ← defaultValue t node
    emitUnit (.assign x z)
  | .memory a t => do
    let z ← defaultValue t node
    emitUnit (.memoryStore a z)

/-- Read, operate, write back, for `x op= v` and `++x`; returns the old and the new value. -/
def update (p : Place) (op : BinaryOp) (rhs : Value) (rhsTy : TypeName) (node : Nat) :
    Gen (Value × Value) := do
  let t := p.ty
  let old ← load p
  let rhs ← if op.keepsRightType then pure rhs else convert rhs rhsTy t
  let new ← binaryOperation op old rhs t node
  store p new t node
  pure (old, new)

end Gen

end ContractCfg.Lower
