import ContractCfg.Lower.Operators
import ContractCfg.Lower.Gen
import ContractCfg.Machine.Exec

namespace ContractCfg.Lower

open ContractCfg.Source
open ContractCfg.Machine (Fault)

/-- How evaluating an expression stops without a value: a failed runtime check, which aborts
the call, or a fault of the machine. -/
inductive Stop where
  | panic
  | fault (f : Fault)
  deriving DecidableEq

/-- `x` brought into the range of type `t`: truncated to its width, or sign-extended when `t`
is signed. -/
def maskValue (t : TypeName) (x : Int) : Int :=
  match width t with
  | none => x
  | some (bits, signed) => if signed then Word.signExtend x bits else Word.truncate x bits

/-- `x` shifted by `s` bits, to the left or to the right, saturating as the machine does. -/
def shiftBy (left : Bool) (x : Int) (s : Nat) : Int :=
  if s < Machine.shiftLimit then (if left then x * Int.pow 2 s else x >>> s)
  else if left then 0 else if x < 0 then -1 else 0

/-- A value of type `src` as a value of type `dst`. A value that fits stays; a fixed-size byte
string keeps its bytes left aligned, so narrowing shifts right and widening shifts left; any
value converts to `bool` as it is; other conversions bring the value into range. -/
def convertValue (src dst : TypeName) (x : Int) : Int :=
  if !dst.isValueType || fits src dst then x else
  match src, dst with
  | .fixedBytes m, .fixedBytes n =>
    let bits := ((m : Int) - n).natAbs * 8
    if n < m then shiftBy false x bits else shiftBy true x bits
  | _, .bool => x
  | _, _ => maskValue dst x

/-- The type both operands of `op` are converted to: for a comparison, the right operand's
type when the left one fits into it and the left operand's type otherwise; the expression's
own type `t` for every other operator. -/
def operandType (op : BinaryOp) (l r t : TypeName) : TypeName :=
  if op.isComparison then (if fits l r then r else l) else t

/-- A non-short-circuit operator on operands converted to `t`: with division checks on, a zero
divisor fails; otherwise the machine operation, its result brought into the range of `t` when
the operator may overflow. -/
def applyOp (o : Options) (op : BinaryOp) (t : TypeName) (a b : Int) : Except Stop Int :=
  if (op == .div || op == .mod) && o.divisionChecks && b == 0 then .error .panic else
  match op.toIr? with
  | none => .error (.fault (.unsupported "short-circuit operator"))
  | some ir =>
    match Machine.binary ir a b with
    | .error f => .error (.fault f)
    | .ok x => .ok (if op.mayOverflow then maskValue t x else x)

mutual
/-- The value of an expression of the pure fragment when parameter `i` holds `σ i`: operands
left to right, each converted to the operator's operand type; `&&` and `||` evaluate their
right operand only when the left one does not decide; a conditional evaluates one arm and
converts it to the conditional's type. -/
def evalPure (o : Options) (σ : Nat → Int) : Expr → Except Stop Int
  | .mk _ k t => evalKind o σ k t

/-- The value of an expression form of type `t`. -/
def evalKind (o : Options) (σ : Nat → Int) : ExprKind → TypeName → Except Stop Int
  | .literal (.bool b), _ => pure (Machine.ofBool b)
  | .literal (.number n), _ => pure n
  | .ident _ (.variable i), _ => pure (σ i)
  | .unary .not _ a, _ => return Machine.ofBool ((← evalPure o σ a) == 0)
  | .unary .bitNot _ a, t => return maskValue t (Word.not (← evalPure o σ a))
  | .unary .neg _ a, t => return maskValue t (0 - (← evalPure o σ a))
  | .binary .and l r, _ => do
    let a ← evalPure o σ l
    if a = 0 then pure a else evalPure o σ r
  | .binary .or l r, _ => do
    let a ← evalPure o σ l
    if a = 0 then evalPure o σ r else pure a
  | .binary op l r, t => do
    let ty := operandType op l.ty r.ty t
    let a := convertValue l.ty ty (← evalPure o σ l)
    let b ← evalPure o σ r
    applyOp o op ty a (if op.keepsRightType then b else convertValue r.ty ty b)
  | .conditional c x y, t => do
    if (← evalPure o σ c) = 0 then return convertValue y.ty t (← evalPure o σ y)
    else return convertValue x.ty t (← evalPure o σ x)
  | .call _ [a] .typeConversion _ _, t => return convertValue a.ty t (← evalPure o σ a)
  | _, _ => .error (.fault (.unsupported "expression outside the pure fragment"))
end

/-- Expressions of the pure fragment over `n` parameters: boolean and number literals,
parameters, `!`, `~` and unary `-`, every binary operator, conditionals and explicit
conversions, each node annotated with a value type. -/
inductive IsPure (n : Nat) : Expr → Prop
  | bool {id : Nat} {b : Bool} {t : TypeName} (ht : t.isValueType) :
    IsPure n (.mk id (.literal (.bool b)) t)
  | number {id : Nat} {x : Int} {t : TypeName} (ht : t.isValueType) :
    IsPure n (.mk id (.literal (.number x)) t)
  | param {id : Nat} {name : String} {i : Nat} {t : TypeName} (hi : i < n) (ht : t.isValueType) :
    IsPure n (.mk id (.ident name (.variable i)) t)
  | not {id : Nat} {p : Bool} {a : Expr} {t : TypeName} (ha : IsPure n a) (ht : t.isValueType) :
    IsPure n (.mk id (.unary .not p a) t)
  | bitNot {id : Nat} {p : Bool} {a : Expr} {t : TypeName} (ha : IsPure n a) (ht : t.isValueType) :
    IsPure n (.mk id (.unary .bitNot p a) t)
  | neg {id : Nat} {p : Bool} {a : Expr} {t : TypeName} (ha : IsPure n a) (ht : t.isValueType) :
    IsPure n (.mk id (.unary .neg p a) t)
  | binary {id : Nat} {op : BinaryOp} {l r : Expr} {t : TypeName} (hl : IsPure n l)
    (hr : IsPure n r) (ht : t.isValueType) : IsPure n (.mk id (.binary op l r) t)
  | conditional {id : Nat} {c x y : Expr} {t : TypeName} (hc : IsPure n c) (hx : IsPure n x)
    (hy : IsPure n y) (ht : t.isValueType) : IsPure n (.mk id (.conditional c x y) t)
  | conversion {id : Nat} {callee a : Expr} {value gas : Option Expr} {t : TypeName}
    (ha : IsPure n a) (ht : t.isValueType) :
    IsPure n (.mk id (.call callee [a] .typeConversion value gas) t)

end ContractCfg.Lower
