import Std.Data.HashMap
import ContractCfg.Machine.Copy
import ContractCfg.Word

/-!
Running the functions of one contract. Integers are unbounded. Each instruction and each
terminator is one step, and a top-level call that takes more steps than the limit fails. An
internal call runs the callee on the same storage; a callee that reverts or aborts makes its
caller do the same. A top-level call starts with empty memory and, unless it returns, leaves
storage and environment as they were before it.

`fuel` bounds the nesting of calls and the number of block transitions along any chain of them.
Entering a function takes two units (the function and its entry block) after one counted step,
the call, and every other block transition takes one unit after one counted step, the
terminator; so `2 * maxSteps + 3` fuel never runs out before the step limit is reached.
-/

namespace ContractCfg.Machine

open ContractCfg.IR

/-- How a call ends. -/
inductive Outcome where
  | ret (values : List Int)
  | revert (status : Int)
  | abort
  deriving Inhabited, DecidableEq

/-- Whether the call returned. -/
def Outcome.isReturn : Outcome → Bool
  | .ret _ => true
  | _ => false

/-- 1 for true, 0 for false. -/
def ofBool (b : Bool) : Int := if b then 1 else 0

/-- Shift amounts at or beyond this saturate. -/
def shiftLimit : Nat := 1024

/-- The shift amount, when it is below the limit. -/
def shiftAmount? (r : Int) : Option Nat :=
  if 0 ≤ r ∧ r < shiftLimit then some r.toNat else none

/-- Powers: any exponent works for the bases 0, 1 and -1 (with `0 ^ 0 = 1`); other bases take
exponents up to `4 * shiftLimit`. -/
def power (base e : Int) : Except Fault Int :=
  if e < 0 then .error (.runtime ("negative exponent " ++ toString e))
  else if base == 0 || base == 1 then .ok (if e == 0 then 1 else base)
  else if base == -1 then .ok (if e % 2 == 0 then 1 else -1)
  else if e ≤ 4 * shiftLimit then .ok (Int.pow base e.toNat)
  else .error (.unsupported ("exponent " ++ toString e ++ " is too large"))

/-- Binary operations: division and remainder truncate toward zero and give 0 for a zero
divisor; bitwise operations act on two's complement; shifts by a negative amount or by
`shiftLimit` or more give 0, or -1 for a right shift of a negative number; comparisons give 1
or 0. -/
def binary (op : BinOp) (l r : Int) : Except Fault Int :=
  match op with
  | .add => .ok (l + r)
  | .sub => .ok (l - r)
  | .mul => .ok (l * r)
  | .div => .ok (if r == 0 then 0 else l.tdiv r)
  | .mod => .ok (if r == 0 then 0 else l.tmod r)
  | .exp => power l r
  | .and => .ok (Word.and l r)
  | .or => .ok (Word.or l r)
  | .xor => .ok (Word.xor l r)
  | .shl => .ok (match shiftAmount? r with
    | some s => l * Int.pow 2 s
    | none => 0)
  | .shr => .ok (match shiftAmount? r with
    | some s => l >>> s
    | none => if l < 0 then -1 else 0)
  | .eq => .ok (ofBool (l == r))
  | .ne => .ok (ofBool (l != r))
  | .lt => .ok (ofBool (l < r))
  | .gt => .ok (ofBool (l > r))
  | .le => .ok (ofBool (l ≤ r))
  | .ge => .ok (ofBool (l ≥ r))

/-- Unary operations: complement and the zero test. -/
def unary (op : UnOp) (x : Int) : Int :=
  match op with
  | .not => Word.not x
  | .isZero => ofBool (x == 0)

/-- The registers of one activation. -/
abbrev Locals := Std.HashMap String Int

/-- The value of an operand. -/
def Locals.read (ls : Locals) : Value → Except Fault Int
  | .const c => .ok c.toInt
  | .reg n => match ls.get? n with
    | some v => .ok v
    | none => .error (.undefinedLocal n)

/-- Stores into a register; a constant cannot be written. -/
def Locals.write (ls : Locals) (target : Value) (v : Int) : Except Fault Locals :=
  match target with
  | .reg n => .ok (ls.insert n v)
  | .const c => .error (.runtime ("cannot assign to constant " ++ c.display))

/-- Reads operands in order. -/
def Locals.readAll (ls : Locals) (vs : List Value) : Except Fault (List Int) :=
  vs.mapM ls.read

/-- A machine running one contract. -/
structure Vm where
  contract : Contract
  maxSteps : Nat := 1000000
  env : Env := {}
  state : State := {}
  steps : Nat := 0
  deriving Inhabited

namespace Vm

/-- Counts one step; fails once the count passes the limit. -/
def tick (vm : Vm) : Except Fault Vm :=
  if vm.steps + 1 > vm.maxSteps then .error (.stepLimit vm.maxSteps)
  else .ok { vm with steps := vm.steps + 1 }

/-- The value of a context variable. -/
def context (vm : Vm) : ContextVar → Int
  | .msgSender => vm.env.msgSender
  | .msgValue => vm.env.msgValue
  | .txOrigin => vm.env.txOrigin
  | .txGasPrice => vm.env.txGasPrice
  | .blockNumber => vm.env.blockNumber
  | .blockTimestamp => vm.env.blockTimestamp
  | .blockCoinbase => vm.env.blockCoinbase
  | .blockDifficulty => vm.env.blockDifficulty
  | .blockGasLimit => vm.env.blockGasLimit
  | .gasLeft => vm.env.gasLeft
  | .thisAddress => vm.env.thisAddress

/-- Runs a builtin on its arguments; `selfdestruct` yields nothing and moves the balance of the
running contract to the beneficiary. -/
def builtin (vm : Vm) (f : Builtin) (args : List Int) : Except Fault (Option Int × Vm) := do
  let arg (i : Nat) : Except Fault Int :=
    match args[i]? with
    | some v => .ok v
    | none => .error (.runtime (f.name ++ " is missing argument " ++ toString i))
  match f with
  | .keccak256 => pure (some (Hash.Keccak.ofWords args), vm)
  | .addMod | .mulMod =>
    let a ← arg 0
    let b ← arg 1
    let m ← arg 2
    if m == 0 then pure (some 0, vm)
    else if f == .addMod then pure (some ((a + b).tmod m), vm)
    else pure (some ((a * b).tmod m), vm)
  | .blockHash => pure (some (vm.env.blockHashes.getD (← arg 0) 0), vm)
  | .balance => pure (some (vm.env.balances.getD (← arg 0) 0), vm)
  | .selfDestruct =>
    let beneficiary ← arg 0
    let funds := vm.env.balances.getD vm.env.thisAddress 0
    let balances := vm.env.balances.erase vm.env.thisAddress
    let balances := balances.insert beneficiary (balances.getD beneficiary 0 + funds)
    pure (none, { vm with env := { vm.env with balances := balances, selfDestructed := some beneficiary } })

/-- Runs an instruction that does not call another function. -/
def step (vm : Vm) (ls : Locals) (i : Instr) : Except Fault (Vm × Locals) := do
  let reg := vm.contract.types
  match i with
  | .assign r v => pure (vm, ← ls.write r (← ls.read v))
  | .binary r op a b =>
    let x ← ls.read a
    let y ← ls.read b
    pure (vm, ← ls.write r (← binary op x y))
  | .unary r op a => pure (vm, ← ls.write r (unary op (← ls.read a)))
  | .truncate r a bits => pure (vm, ← ls.write r (Word.truncate (← ls.read a) bits))
  | .signExtend r a bits => pure (vm, ← ls.write r (Word.signExtend (← ls.read a) bits))
  | .memoryLoad r a => pure (vm, ← ls.write r (← vm.state.mload (← ls.read a)))
  | .memoryStore a v =>
    let addr ← ls.read a
    let x ← ls.read v
    pure ({ vm with state := ← vm.state.mstore addr x }, ls)
  | .allocate r s =>
    let (base, st) ← vm.state.allocate (← ls.read s)
    pure ({ vm with state := st }, ← ls.write r base)
  | .storageLoad r s => pure (vm, ← ls.write r (vm.state.sload (← ls.read s)))
  | .storageStore s v =>
    let slot ← ls.read s
    let x ← ls.read v
    pure ({ vm with state := vm.state.sstore slot x }, ls)
  | .mappingSlot r b k =>
    let key ← ls.read k
    let base ← ls.read b
    pure (vm, ← ls.write r (mappingSlot base key))
  | .arrayDataSlot r b => pure (vm, ← ls.write r (dataSlot (← ls.read b)))
  | .copyStorageToStorage d s t =>
    let dest ← ls.read d
    let src ← ls.read s
    pure ({ vm with state := ← copyStorageToStorage reg copyDepth vm.state dest src t }, ls)
  | .copyMemoryToStorage d s t =>
    let dest ← ls.read d
    let src ← ls.read s
    pure ({ vm with state := ← copyMemoryToStorage reg copyDepth vm.state dest src t }, ls)
  | .copyStorageToMemory r s t =>
    let (v, st) ← copyStorageToMemory reg copyDepth vm.state (← ls.read s) t
    pure ({ vm with state := st }, ← ls.write r v)
  | .call .. => pure (vm, ls)
  | .callExternal _ _ _ f .. => throw (.unsupported ("external call to " ++ f))
  | .create _ _ c .. => throw (.unsupported ("creation of " ++ c))
  | .builtin rs f args =>
    let (v, vm) ← vm.builtin f (← ls.readAll args)
    match v, rs with
    | some x, r :: _ => pure (vm, ← ls.write r x)
    | _, _ => pure (vm, ls)
  | .getContext r x => pure (vm, ← ls.write r (vm.context x))

/-- Stores returned values into the caller's result registers, which must match in number. -/
def storeResults (ls : Locals) (callee : String) (results : List Value) (values : List Int) :
    Except Fault Locals :=
  if values.length != results.length then
    .error (.runtime (callee ++ " returned " ++ toString values.length ++ " values, caller expects " ++
      toString results.length))
  else (results.zip values).foldlM (fun ls (r, v) => ls.write r v) ls

/-- What running a list of instructions left: an outcome that ends the function, or the
machine and registers to go on with. -/
inductive Flow where
  | done (o : Outcome) (vm : Vm)
  | next (vm : Vm) (ls : Locals)

mutual
/-- Runs function `name` on `args`. -/
def run (vm : Vm) (name : String) (args : List Int) : Nat → Except Fault (Outcome × Vm)
  | 0 => .error (.stepLimit vm.maxSteps)
  | fuel + 1 =>
    match vm.contract.function? name with
    | none => .error (.missingFunction name)
    | some f =>
      if f.sig.params.length != args.length then
        .error (.arity name f.sig.params.length args.length)
      else
        let ls : Locals := (f.sig.params.zip args).foldl (fun ls (p, v) => ls.insert p.name v) {}
        runBlock name f vm ls f.body.entry fuel
termination_by fuel => (fuel, 0, 0)

/-- Runs block `id` of `f` and the blocks control passes to. -/
def runBlock (name : String) (f : Function) (vm : Vm) (ls : Locals) (id : Nat) :
    Nat → Except Fault (Outcome × Vm)
  | 0 => .error (.stepLimit vm.maxSteps)
  | fuel + 1 =>
    match f.body.blocks.get? id with
    | none => .error (.missingBlock id)
    | some blk =>
      match runInstrs blk.instrs.toList vm ls fuel with
      | .error e => .error e
      | .ok (.done o vm) => .ok (o, vm)
      | .ok (.next vm ls) =>
        match vm.tick with
        | .error e => .error e
        | .ok vm =>
          match blk.term with
          | .jump t => runBlock name f vm ls t fuel
          | .branch c t e =>
            match ls.read c with
            | .error err => .error err
            | .ok v => runBlock name f vm ls (if v == 0 then e else t) fuel
          | .ret vs =>
            match ls.readAll vs with
            | .error err => .error err
            | .ok xs => .ok (.ret xs, vm)
          | .revert s =>
            match ls.read s with
            | .error err => .error err
            | .ok x => .ok (.revert x, vm)
          | .abort => .ok (.abort, vm)
          | .invalid => .error (.runtime (blockName id ++ " in " ++ name ++ " is not terminated"))
termination_by fuel => (fuel, 1, 0)

/-- Runs instructions in order; an internal call that does not return ends the caller with
the callee's outcome. -/
def runInstrs : List Instr → Vm → Locals → Nat → Except Fault Flow
  | [], vm, ls, _ => .ok (.next vm ls)
  | i :: is, vm, ls, fuel =>
    match vm.tick with
    | .error e => .error e
    | .ok vm =>
      match i with
      | .call results callee args =>
        match ls.readAll args with
        | .error e => .error e
        | .ok xs =>
          match run vm callee xs fuel with
          | .error e => .error e
          | .ok (.ret values, vm) =>
            match storeResults ls callee results values with
            | .error e => .error e
            | .ok ls => runInstrs is vm ls fuel
          | .ok (o, vm) => .ok (.done o vm)
      | _ =>
        match step vm ls i with
        | .error e => .error e
        | .ok (vm, ls) => runInstrs is vm ls fuel
termination_by is _ _ fuel => (fuel, 2, is.length)
end

/-- A top-level call: memory starts empty, the step count at zero, and storage and environment
return to their previous values unless the call returns. -/
def call (vm : Vm) (name : String) (args : List Int) : Except Fault Outcome × Vm :=
  let fresh := { vm with state := vm.state.clearMemory, steps := 0 }
  match run fresh name args (2 * vm.maxSteps + 3) with
  | .ok (.ret vs, vm') => (.ok (.ret vs), vm')
  | .ok (o, vm') => (.ok o, { vm' with state := { vm'.state with storage := vm.state.storage }, env := vm.env })
  | .error e => (.error e, { fresh with state := { fresh.state with storage := vm.state.storage }, env := vm.env })

/-- Runs the constructor, if the contract has one; without one it returns nothing. -/
def deploy (vm : Vm) (args : List Int) : Except Fault Outcome × Vm :=
  match vm.contract.constructor? with
  | some f => vm.call f.name args
  | none => (.ok (.ret []), vm)

end Vm

end ContractCfg.Machine
