import ContractCfg.Machine.State

/-!
Deep copies between storage and memory, laid out as the struct registry says. In storage a struct
is its fields at their offsets, a static array its elements one after another, and a dynamic
array its length at the root with elements from the hash of the root; mappings are never copied.
In memory a struct is one cell per field, and an array its length followed by its elements, each
cell holding a value or a pointer to a nested object. A zero memory pointer clears the target.
Each level of nesting takes one unit of `fuel`.
-/

namespace ContractCfg.Machine

open ContractCfg.IR

/-- Longest dynamic array that is copied. -/
def copyLimit : Nat := Nat.pow 2 20

/-- A dynamic length read from a cell, refused when negative or over the copy limit. -/
def copyLength (v : Int) : Except Fault Nat :=
  if 0 ≤ v ∧ v ≤ copyLimit then .ok v.toNat
  else .error (.runtime ("array length " ++ toString v ++ " too large to copy"))

/-- The fault for a struct type missing from the registry. -/
def unknownStruct (t : Ty) : Fault := .runtime ("unknown struct in " ++ t.display)

/-- Runs `f 0`, …, `f (n - 1)` in order, threading the state. -/
def forRange (n : Nat) (st : σ) (f : Nat → σ → Except Fault σ) : Except Fault σ :=
  go n 0 st
where
  go : Nat → Nat → σ → Except Fault σ
    | 0, _, st => .ok st
    | k + 1, i, st =>
      match f i st with
      | .ok st => go k (i + 1) st
      | .error e => .error e

/-- The storage size of a type, or the fault of a type that contains itself. -/
def sizeOf' (reg : TypeRegistry) (t : Ty) : Except Fault Nat :=
  match reg.storageSize t with
  | some n => .ok n
  | none => .error .unbounded

/-- The layout of struct `id` with the slot offset of every field. -/
def fieldOffsets (reg : TypeRegistry) (t : Ty) (id : Nat) : Except Fault (List (Nat × Nat × Ty)) := do
  let some d := reg.get? id | throw (unknownStruct t)
  (d.fields.zipIdx).mapM fun ((_, ft), i) => do
    match reg.storageFieldOffset id i with
    | some (some off) => pure (i, off, ft)
    | some none => throw (unknownStruct t)
    | none => throw .unbounded

mutual
/-- Resets a storage object to zero. -/
def clearStorage (reg : TypeRegistry) : Nat → State → Int → Ty → Except Fault State
  | 0, _, _, _ => .error .unbounded
  | fuel + 1, st, dest, t =>
    match t with
    | .mapping .. => .ok st
    | .struct id => do
      let fields ← fieldOffsets reg t id
      fields.foldlM (fun st (_, off, ft) => clearStorage reg fuel st (dest + off) ft) st
    | .array e (some n) => do
      let size ← sizeOf' reg e
      forRange n st fun i st => clearStorage reg fuel st (dest + elementOffset i size) e
    | .array e none => do
      let len ← copyLength (st.sload dest)
      let size ← sizeOf' reg e
      let data := dataSlot dest
      let st ← forRange len st fun i st => clearStorage reg fuel st (data + elementOffset i size) e
      pure (st.sstore dest 0)
    | _ => .ok (st.sstore dest 0)

/-- Copies the storage object at `src` over the one at `dest`. -/
def copyStorageToStorage (reg : TypeRegistry) : Nat → State → Int → Int → Ty → Except Fault State
  | 0, _, _, _, _ => .error .unbounded
  | fuel + 1, st, dest, src, t =>
    if dest == src then .ok st else
    match t with
    | .mapping .. => .ok st
    | .struct id => do
      let fields ← fieldOffsets reg t id
      fields.foldlM (fun st (_, off, ft) => copyStorageToStorage reg fuel st (dest + off) (src + off) ft) st
    | .array e (some n) => do
      let size ← sizeOf' reg e
      forRange n st fun i st => copyStorageToStorage reg fuel st (dest + elementOffset i size) (src + elementOffset i size) e
    | .array e none => do
      let len ← copyLength (st.sload src)
      let oldLen ← copyLength (st.sload dest)
      let st := st.sstore dest len
      let size ← sizeOf' reg e
      let destData := dataSlot dest
      let srcData := dataSlot src
      let st ← forRange len st fun i st =>
        copyStorageToStorage reg fuel st (destData + elementOffset i size) (srcData + elementOffset i size) e
      forRange (oldLen - len) st fun k st => clearStorage reg fuel st (destData + elementOffset (len + k) size) e
    | _ => .ok (st.sstore dest (st.sload src))

/-- Copies the memory object at `src` into the storage object at `dest`. -/
def copyMemoryToStorage (reg : TypeRegistry) : Nat → State → Int → Int → Ty → Except Fault State
  | 0, _, _, _, _ => .error .unbounded
  | fuel + 1, st, dest, src, t =>
    if t.isValueType then .ok (st.sstore dest src)
    else if src == 0 then clearStorage reg fuel st dest t
    else match t with
    | .mapping .. => .ok st
    | .struct id => do
      let fields ← fieldOffsets reg t id
      fields.foldlM (fun st (i, off, ft) => do
        let cell ← st.mload (src + i)
        copyMemoryToStorage reg fuel st (dest + off) cell ft) st
    | .array e (some n) => do
      let size ← sizeOf' reg e
      forRange n st fun i st => do
        let cell ← st.mload (src + 1 + i)
        copyMemoryToStorage reg fuel st (dest + elementOffset i size) cell e
    | .array e none => do
      let len ← copyLength (← st.mload src)
      let oldLen ← copyLength (st.sload dest)
      let st := st.sstore dest len
      let size ← sizeOf' reg e
      let data := dataSlot dest
      let st ← forRange len st fun i st => do
        let cell ← st.mload (src + 1 + i)
        copyMemoryToStorage reg fuel st (data + elementOffset i size) cell e
      forRange (oldLen - len) st fun k st => clearStorage reg fuel st (data + elementOffset (len + k) size) e
    | _ => .ok (st.sstore dest src)
end

mutual
/-- Copies the storage object at `src` into fresh memory and returns its pointer, or the word
itself for a value type; a mapping yields the null pointer. -/
def copyStorageToMemory (reg : TypeRegistry) : Nat → State → Int → Ty → Except Fault (Int × State)
  | 0, _, _, _ => .error .unbounded
  | fuel + 1, st, src, t =>
    match t with
    | .mapping .. => .ok (0, st)
    | .struct id => do
      let some d := reg.get? id | throw (unknownStruct t)
      let (ptr, st) ← st.allocate d.fields.length
      let fields ← fieldOffsets reg t id
      let st ← fields.foldlM (fun st (i, off, ft) => do
        let (cell, st) ← copyStorageToMemory reg fuel st (src + off) ft
        st.mstore (ptr + i) cell) st
      pure (ptr, st)
    | .array e (some n) => do
      let size ← sizeOf' reg e
      copyElements reg fuel st src n size e
    | .array e none => do
      let len ← copyLength (st.sload src)
      let size ← sizeOf' reg e
      copyElements reg fuel st (dataSlot src) len size e
    | _ => .ok (st.sload src, st)

/-- Copies `len` storage elements of `size` slots from `first` into a fresh memory array. -/
def copyElements (reg : TypeRegistry) : Nat → State → Int → Nat → Nat → Ty → Except Fault (Int × State)
  | 0, _, _, _, _, _ => .error .unbounded
  | fuel + 1, st, first, len, size, e => do
    let (ptr, st) ← st.allocate ((len + 1) % slotModulus)
    let st ← st.mstore ptr len
    let st ← forRange len st fun i st => do
      let (cell, st) ← copyStorageToMemory reg fuel st (first + elementOffset i size) e
      st.mstore (ptr + 1 + i) cell
    pure (ptr, st)
end

/-- Nesting bound for copies. -/
def copyDepth : Nat := 100000

end ContractCfg.Machine
