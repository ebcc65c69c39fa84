import ContractCfg.Lower.Types
import ContractCfg.Word

/-!
Operators and conversions on lowered values. Integers of `N` bits are kept in their range:
after an operation that may leave it, unsigned values are truncated to `N` bits and signed
ones sign-extended from bit `N`. Widening conversions are free; fixed-size byte strings are
left aligned, so resizing one shifts it. Constants fold.
-/

namespace ContractCfg.Source.BinaryOp

/-- The machine operation of a source operator; the short-circuit connectives have none. -/
def toIr? : BinaryOp → Option IR.BinOp
  | .add => some .add | .sub => some .sub | .mul => some .mul | .div => some .div
  | .mod => some .mod | .exp => some .exp | .bitAnd => some .and | .bitOr => some .or
  | .bitXor => some .xor | .shl => some .shl | .shr => some .shr | .eq => some .eq
  | .ne => some .ne | .lt => some .lt | .gt => some .gt | .le => some .le | .ge => some .ge
  | .and | .or => none

/-- Shift amounts and exponents keep their own type. -/
def keepsRightType : BinaryOp → Bool
  | .shl | .shr | .exp => true
  | _ => false

/-- Operators whose result may leave the range of the operands. -/
def mayOverflow : BinaryOp → Bool
  | .add | .sub | .mul | .div | .exp | .shl => true
  | _ => false

end ContractCfg.Source.BinaryOp

namespace ContractCfg.Lower

open ContractCfg.Source
open ContractCfg.IR (Value)

/-- The width and signedness values of type `t` are kept to. -/
def width : TypeName → Option (Nat × Bool)
  | .uint b => some (b, false)
  | .int b => some (b, true)
  | .address | .contract _ => some (160, false)
  | .fixedBytes n => some (n * 8, false)
  | _ => none

/-- Whether every value of `src` is already a value of `dst`. -/
def fits (src dst : TypeName) : Bool :=
  if src == dst then true else
  match src, dst with
  | .bool, _ => true
  | .fixedBytes m, .fixedBytes n => m == n
  | _, _ =>
    match width src, width dst with
    | some (m, false), some (n, false) => m ≤ n
    | some (m, false), some (n, true) => m < n
    | some (m, true), some (n, true) => m ≤ n
    | _, _ => false

namespace Gen

/-- Brings `v` into the range of `t`. -/
def mask (v : Value) (t : TypeName) : Gen Value :=
  match width t with
  | none => pure v
  | some (bits, signed) =>
    match v with
    | .const (.int c) => pure (.ofInt (if signed then Word.signExtend c bits else Word.truncate c bits))
    | _ => if signed then emit fun r => .signExtend r v bits else emit fun r => .truncate r v bits

/-- Converts `v` from type `src` to type `dst`. -/
def convert (v : Value) (src dst : TypeName) : Gen Value := do
  if !dst.isValueType || fits src dst then return v
  match src, dst with
  | .fixedBytes m, .fixedBytes n =>
    let shift := Value.ofInt (((m : Int) - n).natAbs * 8)
    if n < m then binary .shr v shift else binary .shl v shift
  | _, .bool => pure v
  | _, _ => mask v dst

/-- A non-short-circuit operator on evaluated operands of type `t`; division and modulo by
zero abort when division checks are on. -/
def binaryOperation (op : BinaryOp) (l r : Value) (t : TypeName) (node : Nat) : Gen Value := do
  let some ir := op.toIr?
    | throw (.typeMismatch node "logical operator lowered without short-circuit")
  if (op == BinaryOp.div || op == BinaryOp.mod) && (← read).options.divisionChecks then
    let isZero ← match r.asConst? with
      | some c => pure (Value.ofBool c.isZero)
      | none => unary .isZero r
    let fail ← assertFailBlock
    failIf isZero fail "div.ok"
  let result ← binary ir l r
  if op.mayOverflow then mask result t else pure result

end Gen

end ContractCfg.Lower
