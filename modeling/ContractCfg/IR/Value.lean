/-!
Operands of instructions: named registers and constants. A constant boolean reads as 1 or 0.
-/

namespace ContractCfg.IR

/-- A constant operand. -/
inductive Constant where
  | bool (b : Bool)
  | int (n : Int)
  deriving DecidableEq, Repr, Inhabited

/-- An operand: a register or a constant. -/
inductive Value where
  | reg (name : String)
  | const (c : Constant)
  deriving DecidableEq, Repr, Inhabited

namespace Constant

/-- The integer a constant reads as. -/
def toInt : Constant → Int
  | .bool b => if b then 1 else 0
  | .int n => n

/-- Whether the constant reads as zero. -/
def isZero : Constant → Bool
  | .bool b => !b
  | .int n => n == 0

/-- `true`, `false`, or the decimal digits. -/
def display : Constant → String
  | .bool b => if b then "true" else "false"
  | .int n => toString n

end Constant

namespace Value

/-- The integer constant `n`. -/
def ofInt (n : Int) : Value := .const (.int n)

/-- The boolean constant `b`. -/
def ofBool (b : Bool) : Value := .const (.bool b)

/-- The constant zero. -/
def zero : Value := ofInt 0

/-- The constant one. -/
def one : Value := ofInt 1

/-- The constant, if this operand is one. -/
def asConst? : Value → Option Constant
  | .const c => some c
  | .reg _ => none

/-- The register name, if this operand is one. -/
def asReg? : Value → Option String
  | .reg n => some n
  | .const _ => none

/-- The integer, if this operand is an integer constant. -/
def asInt? : Value → Option Int
  | .const (.int n) => some n
  | _ => none

/-- `%name` for a register, the constant's text otherwise. -/
def display : Value → String
  | .reg n => "%" ++ n
  | .const c => c.display

end Value

end ContractCfg.IR
