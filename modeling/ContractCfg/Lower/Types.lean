import ContractCfg.Lower.Dispatch

/-!
Source types in the intermediate representation. Lowering a type registers every struct it
mentions; a struct is registered empty before its members are lowered, so a struct that
mentions itself is registered once. Storage sizes and member offsets are read off the
registry.
-/

namespace ContractCfg.Lower

open ContractCfg.Source
open ContractCfg.IR (Value Ty)

namespace Gen

/-- The struct registry of the contract. -/
def types : Gen IR.TypeRegistry := return (← get).contract.types

mutual
/-- The type `t` lowered; `fuel` bounds the structs still to register on this path. -/
def irTypeWith (fuel : Nat) (t : TypeName) (node : Nat) : Gen Ty :=
  match t with
  | .bool => pure .bool
  | .uint b => pure (.uint b)
  | .int b => pure (.int b)
  | .address => pure .address
  | .fixedBytes n => pure (.fixedBytes n)
  | .contract c => return .contract (← contractDef c).name
  | .array base len _ => return .array (← irTypeWith fuel base node) len
  | .mapping k v => do
    let k ← irTypeWith fuel k node
    let v ← irTypeWith fuel v node
    pure (.mapping k v)
  | .struct id _ => do
    registerStruct fuel id node
    pure (.struct id)
  | .tuple _ | .void =>
    throw (.typeMismatch node "tuple or void used where a value type was expected")
termination_by (fuel, sizeOf t)

/-- Registers struct `id` with its members lowered, unless it is registered. -/
def registerStruct (fuel id node : Nat) : Gen Unit :=
  match fuel with
  | 0 => throw .unbounded
  | fuel + 1 => do
    if ((← types).get? id).isSome then return
    let d ← structDef id
    modifyContract fun c => { c with types := c.types.insert id ⟨d.name, []⟩ }
    let fields ← d.members.mapM fun m => do pure (m.name, ← irTypeWith fuel m.ty node)
    modifyContract fun c => { c with types := c.types.insert id ⟨d.name, fields⟩ }
termination_by (fuel, 0)
end

/-- The type `t` lowered, its structs registered. -/
def irType (t : TypeName) (node : Nat) : Gen Ty := do
  irTypeWith ((← unit).structs.size + 1) t node

/-- Registers struct `id`. -/
def registerStructOf (id node : Nat) : Gen Unit := do
  registerStruct ((← unit).structs.size + 1) id node

/-- Storage slots a value of type `t` occupies. -/
def storageSize (t : TypeName) (node : Nat) : Gen Nat := do
  let ir ← irType t node
  need' ((← types).storageSize ir)
where
  need' : Option Nat → Gen Nat
    | some n => pure n
    | none => throw .unbounded

/-- The slot offset of member `index` of struct `id`. -/
def storageFieldOffset (id index node : Nat) : Gen Nat := do
  registerStructOf id node
  match (← types).storageFieldOffset id index with
  | none => throw .unbounded
  | some none => throw (.typeMismatch node "struct member out of range")
  | some (some n) => pure n

/-- The position of member `name` of struct `id`. -/
def memberIndex (id : Nat) (name : String) (node : Nat) : Gen Nat := do
  let d ← structDef id
  match d.members.findIdx? (·.name == name) with
  | some i => pure i
  | none => throw (.typeMismatch node ("struct " ++ d.name ++ " has no member " ++ name))

/-- The type of member `i` of struct `id`. -/
def memberType (id i : Nat) : Gen TypeName := do
  let d ← structDef id
  match d.members[i]? with
  | some m => pure m.ty
  | none => throw .dangling

mutual
/-- The value a variable of type `t` holds before any assignment: `false`, zero, or a fresh
zeroed memory object whose memory members are fresh objects too. -/
def defaultValueWith (fuel : Nat) (t : TypeName) (node : Nat) : Gen Value :=
  match fuel with
  | 0 => throw .unbounded
  | fuel + 1 =>
    match t with
    | .bool => pure (.ofBool false)
    | .struct id .memory => do
      let members := (← structDef id).members.map (·.ty.withLocation .memory)
      let ptr ← emit fun r => .allocate r (.ofInt (max members.length 1))
      defaultMembers fuel ptr node 0 members
      pure ptr
    | .array base length .memory => do
      let len := length.getD 0
      let ptr ← emit fun r => .allocate r (.ofInt ((len + 1) % IR.slotModulus))
      if len > 0 then emitUnit (.memoryStore ptr (.ofInt len))
      if base.isInMemory then defaultElements fuel ptr base node 1 len
      pure ptr
    | _ => pure .zero

/-- Stores fresh defaults of the memory members into the cells from `ptr + i` on. -/
def defaultMembers (fuel : Nat) (ptr : Value) (node i : Nat) : List TypeName → Gen Unit
  | [] => pure ()
  | m :: ms => do
    if m.isInMemory then
      let child ← defaultValueWith fuel m node
      let addr ← binary .add ptr (.ofInt i)
      emitUnit (.memoryStore addr child)
    defaultMembers fuel ptr node (i + 1) ms

/-- Stores fresh defaults of type `base` into `n` cells from `ptr + i` on. -/
def defaultElements (fuel : Nat) (ptr : Value) (base : TypeName) (node i : Nat) : Nat → Gen Unit
  | 0 => pure ()
  | n + 1 => do
    let child ← defaultValueWith fuel base node
    let addr ← binary .add ptr (.ofInt i)
    emitUnit (.memoryStore addr child)
    defaultElements fuel ptr base node (i + 1) n
end

/-- The value a variable of type `t` holds before any assignment. -/
def defaultValue (t : TypeName) (node : Nat) : Gen Value := do
  defaultValueWith ((← unit).typeBound t) t node

end Gen

end ContractCfg.Lower
