/-!
Maps that remember insertion order. Inserting a key that is present replaces its value and
keeps its place; iteration follows first insertion. Contracts keep their functions, and
functions their blocks, in such maps, and the text and persisted forms follow that order.
-/

namespace ContractCfg

/-- Entries in insertion order; a key appears at most once when built by `insert`. -/
structure OrderedMap (κ : Type) (α : Type) where
  entries : Array (κ × α) := #[]
  deriving Inhabited

namespace OrderedMap

variable {κ α : Type} [BEq κ]

/-- The empty map. -/
def empty : OrderedMap κ α := ⟨#[]⟩

/-- The value at `k`. -/
def get? (m : OrderedMap κ α) (k : κ) : Option α :=
  (m.entries.find? (·.1 == k)).map (·.2)

/-- Whether `k` has a value. -/
def contains (m : OrderedMap κ α) (k : κ) : Bool :=
  m.entries.any (·.1 == k)

/-- Sets the value at `k`: in place when present, at the end otherwise. -/
def insert (m : OrderedMap κ α) (k : κ) (v : α) : OrderedMap κ α :=
  match m.entries.findIdx? (·.1 == k) with
  | some i => ⟨m.entries.set! i (k, v)⟩
  | none => ⟨m.entries.push (k, v)⟩

/-- Applies `f` to the value at `k`, if any. -/
def modify (m : OrderedMap κ α) (k : κ) (f : α → α) : OrderedMap κ α :=
  ⟨m.entries.map fun e => if e.1 == k then (e.1, f e.2) else e⟩

/-- Keeps the entries whose value passes `p`, in order. -/
def filter (m : OrderedMap κ α) (p : κ → α → Bool) : OrderedMap κ α :=
  ⟨m.entries.filter fun e => p e.1 e.2⟩

/-- The values in order. -/
def values (m : OrderedMap κ α) : List α := m.entries.toList.map (·.2)

/-- The keys in order. -/
def keys (m : OrderedMap κ α) : List κ := m.entries.toList.map (·.1)

/-- The entries in order. -/
def toList (m : OrderedMap κ α) : List (κ × α) := m.entries.toList

/-- The number of entries. -/
def size (m : OrderedMap κ α) : Nat := m.entries.size

/-- Inserts the pairs of a list in order. -/
def ofList (xs : List (κ × α)) : OrderedMap κ α :=
  xs.foldl (fun m (k, v) => m.insert k v) empty

end OrderedMap

end ContractCfg
