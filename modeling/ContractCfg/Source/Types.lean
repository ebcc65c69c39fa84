import ContractCfg.Source.Syntax

/-!
Questions about source types: which are values and which references, where a reference
lives, how many values an expression of the type yields, the canonical name that function
signatures use, and when an assignment copies between storage and memory instead of aliasing.
-/

namespace ContractCfg.Source.TypeName

/-- `uint256`. -/
def uint256 : TypeName := .uint 256

/-- Types whose values fit in one word. -/
def isValueType : TypeName → Bool
  | .bool | .uint _ | .int _ | .address | .fixedBytes _ | .contract _ => true
  | _ => false

/-- Arrays, mappings and structs. -/
def isReference : TypeName → Bool
  | .array .. | .mapping .. | .struct .. => true
  | _ => false

/-- Signed integers. -/
def isSigned : TypeName → Bool
  | .int _ => true
  | _ => false

/-- Where a reference lives; mappings only exist in storage. -/
def location : TypeName → Option Location
  | .array _ _ loc => some loc
  | .struct _ loc => some loc
  | .mapping .. => some .storage
  | _ => none

/-- A storage object or a pointer to one. -/
def isInStorage (t : TypeName) : Bool :=
  t.location == some .storage || t.location == some .storagePointer

/-- A memory object. -/
def isInMemory (t : TypeName) : Bool :=
  t.location == some .memory

/-- The same type moved to `loc`; array elements move along. -/
def withLocation (loc : Location) : TypeName → TypeName
  | .array base len _ => .array (withLocation loc base) len loc
  | .struct id _ => .struct id loc
  | t => t

/-- How many values an expression of this type evaluates to. -/
def arity : TypeName → Nat
  | .tuple items => items.length
  | .void => 0
  | _ => 1

/-- The types of the values an expression of this type evaluates to. -/
def components : TypeName → List TypeName
  | .tuple items => items
  | .void => []
  | t => [t]

mutual
/-- The canonical name used in signatures: contracts are `address`, a struct is the tuple of
its members, tuples and `void` have the empty name. Each struct expansion takes one unit of
`fuel`; `none` when the fuel runs out (a struct that contains itself) or a struct is missing. -/
def canonicalName (structs : Array StructDef) : Nat → TypeName → Option String
  | _, .bool => some "bool"
  | _, .uint b => some ("uint" ++ toString b)
  | _, .int b => some ("int" ++ toString b)
  | _, .address => some "address"
  | _, .contract _ => some "address"
  | _, .fixedBytes n => some ("bytes" ++ toString n)
  | fuel, .array base (some len) _ =>
    (canonicalName structs fuel base).map (· ++ "[" ++ toString len ++ "]")
  | fuel, .array base none _ => (canonicalName structs fuel base).map (· ++ "[]")
  | fuel, .mapping k v => do
    let kn ← canonicalName structs fuel k
    let vn ← canonicalName structs fuel v
    pure ("mapping(" ++ kn ++ "=>" ++ vn ++ ")")
  | 0, .struct _ _ => none
  | fuel + 1, .struct id _ => do
    let def_ ← structs[id]?
    let names ← memberNames structs fuel def_.members
    pure ("(" ++ ",".intercalate names ++ ")")
  | _, .tuple _ => some ""
  | _, .void => some ""

/-- Canonical names of struct members, in order. -/
def memberNames (structs : Array StructDef) (fuel : Nat) : List StructMember → Option (List String)
  | [] => some []
  | m :: ms => do
    let n ← canonicalName structs fuel m.ty
    let rest ← memberNames structs fuel ms
    pure (n :: rest)
end

/-- Assigning `src` to the storage object of type `dst` copies storage to storage; a storage
pointer target only aliases. -/
def copiesStorageToStorage (dst src : TypeName) : Bool :=
  dst.isReference && dst.location == some .storage && src.isInStorage

/-- Assigning a memory object to a storage object copies it into storage. -/
def copiesMemoryToStorage (dst src : TypeName) : Bool :=
  dst.isReference && dst.location == some .storage && src.isInMemory

/-- A storage value flowing into a memory-typed target is copied; memory to memory aliases. -/
def copiesStorageToMemory (dst src : TypeName) : Bool :=
  dst.isReference && dst.isInMemory && src.isInStorage

end ContractCfg.Source.TypeName

namespace ContractCfg.Source.SourceUnit

/-- The canonical name of `t` in `unit`, with one struct expansion per struct of the unit. -/
def canonicalName (unit : SourceUnit) (t : TypeName) : Option String :=
  TypeName.canonicalName unit.structs (unit.structs.size + 1) t

end ContractCfg.Source.SourceUnit

namespace ContractCfg.Source.SourceUnit

/-- The contract at index `i`. -/
def contract? (u : SourceUnit) (i : Nat) : Option ContractDef := u.contracts[i]?

/-- The function at index `i`. -/
def function? (u : SourceUnit) (i : Nat) : Option FunctionDef := u.functions[i]?

/-- The modifier at index `i`. -/
def modifier? (u : SourceUnit) (i : Nat) : Option ModifierDef := u.modifiers[i]?

/-- The variable at index `i`. -/
def var? (u : SourceUnit) (i : Nat) : Option VariableDecl := u.vars[i]?

/-- The struct at index `i`. -/
def struct? (u : SourceUnit) (i : Nat) : Option StructDef := u.structs[i]?

end ContractCfg.Source.SourceUnit

namespace ContractCfg.Source

mutual
/-- The number of type constructors in a type. -/
def TypeName.nodes : TypeName → Nat
  | .array b _ _ => TypeName.nodes b + 1
  | .mapping k v => TypeName.nodes k + TypeName.nodes v + 1
  | .tuple items => TypeName.nodesList items + 1
  | _ => 1

/-- The number of type constructors in a list of types. -/
def TypeName.nodesList : List TypeName → Nat
  | [] => 0
  | t :: ts => TypeName.nodes t + TypeName.nodesList ts
end

/-- A bound on the nesting of types reachable from `t`: its own constructors and those of
every struct member of the unit. Walks through types that reach no struct twice stay below. -/
def SourceUnit.typeBound (u : SourceUnit) (t : TypeName) : Nat :=
  u.structs.foldl (fun n s => s.members.foldl (fun n m => n + m.ty.nodes) (n + 1)) (t.nodes + 1)

end ContractCfg.Source
