import Std.Data.TreeMap
import ContractCfg.IR.Contract
import ContractCfg.Hash.Keccak

/-!
The state a running contract sees: the transaction and block environment, persistent storage
and transient memory. Storage maps slots to non-zero words (storing zero erases the slot).
Memory is a vector of cells whose cell 0 is never handed out, so a zero pointer means "no
object"; a load or store must address an allocated cell above 0.
-/

namespace ContractCfg.Machine

/-- Sparse persistent storage, ordered by slot. -/
abbrev Storage := Std.TreeMap Int Int compare

/-- The transaction and block context visible to instructions. -/
structure Env where
  msgSender : Int := 0
  msgValue : Int := 0
  txOrigin : Int := 0
  txGasPrice : Int := 0
  blockNumber : Int := 0
  blockTimestamp : Int := 0
  blockCoinbase : Int := 0
  blockDifficulty : Int := 0
  blockGasLimit : Int := 0
  gasLeft : Int := 0
  thisAddress : Int := 0
  balances : Std.TreeMap Int Int compare := {}
  blockHashes : Std.TreeMap Int Int compare := {}
  selfDestructed : Option Int := none
  deriving Inhabited

/-- Why a run stops without an outcome. `unbounded` marks a recursion that has no bound, such
as a struct type that contains itself. -/
inductive Fault where
  | missingFunction (name : String)
  | arity (function : String) (expected got : Nat)
  | undefinedLocal (name : String)
  | missingBlock (id : Nat)
  | stepLimit (max : Nat)
  | unsupported (what : String)
  | runtime (what : String)
  | unbounded
  deriving Inhabited, DecidableEq

namespace Fault

/-- The variant name. -/
def kind : Fault → String
  | .missingFunction _ => "MissingFunction"
  | .arity .. => "Arity"
  | .undefinedLocal _ => "UndefinedLocal"
  | .missingBlock _ => "MissingBlock"
  | .stepLimit _ => "StepLimit"
  | .unsupported _ => "Unsupported"
  | .runtime _ => "Runtime"
  | .unbounded => "Unbounded"

/-- The message. -/
def message : Fault → String
  | .missingFunction n => "missing function " ++ n
  | .arity f e g => "function " ++ f ++ " expects " ++ toString e ++ " args but got " ++ toString g
  | .undefinedLocal n => "read of undefined local %" ++ n
  | .missingBlock id => "missing block " ++ IR.blockName id
  | .stepLimit n => "step limit of " ++ toString n ++ " exceeded"
  | .unsupported w => "unsupported: " ++ w
  | .runtime w => "vm error: " ++ w
  | .unbounded => "unbounded recursion"

end Fault

/-- Cells a single memory may hold. -/
def memoryLimit : Nat := Nat.pow 2 24

/-- Memory sizes and ends are 64-bit words: sums of them wrap around at this modulus. -/
def addressModulus : Nat := Nat.pow 2 64

/-- Cells cut or grown with zeros to `n` cells. -/
def resizeCells (cells : Array Int) (n : Nat) : Array Int :=
  if n ≤ cells.size then cells.extract 0 n else cells ++ Array.replicate (n - cells.size) 0

theorem resizeCells_size (cells : Array Int) (n : Nat) : (resizeCells cells n).size = n := by
  unfold resizeCells
  split <;> simp <;> omega

/-- Storage and memory. -/
structure State where
  storage : Storage := {}
  memory : Array Int := #[]
  deriving Inhabited

namespace State

/-- The word at a slot; unset slots read as zero. -/
def sload (st : State) (slot : Int) : Int := st.storage.getD slot 0

/-- Writes a slot; zero erases it. -/
def sstore (st : State) (slot v : Int) : State :=
  { st with storage := if v == 0 then st.storage.erase slot else st.storage.insert slot v }

/-- Empties memory, keeping the reserved cell 0. -/
def clearMemory (st : State) : State := { st with memory := #[0] }

/-- The cell index an address names, if it is allocated and above 0. -/
def cellIndex (st : State) (a : Int) : Except Fault Nat :=
  if 0 < a ∧ a < st.memory.size then .ok a.toNat
  else .error (.runtime ("memory access out of bounds at " ++ toString a))

/-- Reads a memory cell. -/
def mload (st : State) (a : Int) : Except Fault Int := do
  let i ← st.cellIndex a
  pure st.memory[i]!

/-- Writes a memory cell. -/
def mstore (st : State) (a v : Int) : Except Fault State := do
  let i ← st.cellIndex a
  pure { st with memory := st.memory.set! i v }

/-- Reserves `size` zeroed cells (at least one) and returns the first address. The new end of
memory is a 64-bit word: a size that carries it past the top wraps it around, and memory is then
cut back to the wrapped end. -/
def allocate (st : State) (size : Int) : Except Fault (Int × State) :=
  let st := if st.memory.isEmpty then st.clearMemory else st
  let base := st.memory.size
  if 0 ≤ size ∧ size < addressModulus ∧ (base + size.toNat) % addressModulus ≤ memoryLimit then
    .ok (base, { st with memory := resizeCells st.memory ((base + max size.toNat 1) % addressModulus) })
  else .error (.runtime ("cannot allocate " ++ toString size ++ " memory cells"))

end State

/-- The slot of a mapping entry: the hash of the key word, then the base slot. -/
def mappingSlot (base key : Int) : Int := Hash.Keccak.ofWords [key, base]

/-- The first data slot of a dynamic array rooted at `base`: the hash of `base`. -/
def dataSlot (base : Int) : Int := Hash.Keccak.ofWords [base]

end ContractCfg.Machine
