import ContractCfg.OrderedMap

/-!
Types of the intermediate representation and the registry of struct layouts. In storage a
struct occupies the sum of its fields (at least one slot), a static array its length times its
element, and everything else one slot; in memory a struct takes one cell per field and an array
one cell for its length plus one per element.
-/

namespace ContractCfg.IR

/-- IR types. Structs are named by registry id. -/
inductive Ty where
  | bool
  | uint (bits : Nat)
  | int (bits : Nat)
  | address
  | fixedBytes (n : Nat)
  | array (elem : Ty) (len : Option Nat)
  | mapping (key value : Ty)
  | struct (id : Nat)
  | contract (name : String)
  deriving DecidableEq, Repr, Inhabited

namespace Ty

/-- Types whose values fit in one word. -/
def isValueType : Ty → Bool
  | .bool | .uint _ | .int _ | .address | .fixedBytes _ | .contract _ => true
  | _ => false

/-- Signed integers. -/
def isSigned : Ty → Bool
  | .int _ => true
  | _ => false

/-- The width in bits of integer-like types. -/
def bitWidth : Ty → Option Nat
  | .uint b | .int b => some b
  | .address | .contract _ => some 160
  | .fixedBytes n => some (n * 8)
  | _ => none

/-- The display name: `uint256`, `bytes4`, `T[3]`, `mapping(K => V)`, `struct_7`. -/
def display : Ty → String
  | .bool => "bool"
  | .uint b => "uint" ++ toString b
  | .int b => "int" ++ toString b
  | .address => "address"
  | .fixedBytes n => "bytes" ++ toString n
  | .array e (some n) => display e ++ "[" ++ toString n ++ "]"
  | .array e none => display e ++ "[]"
  | .mapping k v => "mapping(" ++ display k ++ " => " ++ display v ++ ")"
  | .struct id => "struct_" ++ toString id
  | .contract name => "contract " ++ name

end Ty

/-- A struct layout: its name and its fields in order. -/
structure StructDef where
  name : String
  fields : List (String × Ty)
  deriving Inhabited, DecidableEq

/-- The registry of struct layouts, in registration order. -/
structure TypeRegistry where
  structs : OrderedMap Nat StructDef := {}
  deriving Inhabited

/-- Storage slots, sizes and offsets are 64-bit words: their sums and products wrap around at
this modulus. -/
def slotModulus : Nat := Nat.pow 2 64

/-- The slot offset of element `i` of an array whose elements take `size` slots. -/
def elementOffset (i size : Nat) : Nat := i * size % slotModulus

theorem elementOffset_lt (i size : Nat) : elementOffset i size < slotModulus :=
  Nat.mod_lt _ (Nat.two_pow_pos 64)

namespace TypeRegistry

/-- The layout of struct `id`. -/
def get? (reg : TypeRegistry) (id : Nat) : Option StructDef := reg.structs.get? id

/-- Registers or replaces the layout of struct `id`. -/
def insert (reg : TypeRegistry) (id : Nat) (d : StructDef) : TypeRegistry :=
  ⟨reg.structs.insert id d⟩

mutual
/-- Storage slots a value of the type occupies. Each struct expansion takes one unit of
`fuel`; `none` when it runs out, which only a struct containing itself can cause. -/
def sizeWith (reg : TypeRegistry) : Nat → Ty → Option Nat
  | fuel, .struct id =>
    match reg.get? id, fuel with
    | none, _ => some 1
    | some _, 0 => none
    | some d, fuel + 1 => (fieldsSize reg fuel d.fields).map (max 1)
  | fuel, .array e (some n) => (sizeWith reg fuel e).map (elementOffset n)
  | _, _ => some 1

/-- The summed storage size of fields. -/
def fieldsSize (reg : TypeRegistry) (fuel : Nat) : List (String × Ty) → Option Nat
  | [] => some 0
  | (_, t) :: fs => do
    let a ← sizeWith reg fuel t
    let b ← fieldsSize reg fuel fs
    pure ((a + b) % slotModulus)
end

/-- Enough fuel for any struct nesting without a cycle. -/
def depthBound (reg : TypeRegistry) : Nat := reg.structs.size + 1

/-- Storage slots a value of the type occupies; `none` for a struct that contains itself. -/
def storageSize (reg : TypeRegistry) (t : Ty) : Option Nat :=
  sizeWith reg reg.depthBound t

/-- Slot offset of field `index` of struct `id`: the sizes of the fields before it.
`some none` when the struct is missing or has no such field. -/
def storageFieldOffset (reg : TypeRegistry) (id index : Nat) : Option (Option Nat) :=
  match reg.get? id with
  | none => some none
  | some d =>
    if index < d.fields.length then (fieldsSize reg reg.depthBound (d.fields.take index)).map some
    else some none

/-- Memory cells of an object of the type; `length` is the length of a dynamic array. An array
takes one cell more than its length, counted in a 64-bit word. -/
def memorySize (reg : TypeRegistry) (t : Ty) (length : Nat) : Nat :=
  match t with
  | .struct id => (reg.get? id).elim 0 (·.fields.length)
  | .array _ (some n) => (1 + n) % slotModulus
  | .array _ none => (1 + length) % slotModulus
  | _ => 1

/-- The position of the field called `name`. -/
def fieldIndex (reg : TypeRegistry) (id : Nat) (name : String) : Option Nat := do
  let d ← reg.get? id
  d.fields.findIdx? (·.1 == name)

end TypeRegistry

end ContractCfg.IR
