import ContractCfg.Proofs.Lower.Entry

/-!
The fixed-width reference semantics of the pure fragment, and what a call of an entry point
returns against it. `evalExact` evaluates an expression as the machine would with exact
integer arithmetic: the same operand conversions, division checks and masks as `evalPure`, but
a power is `base ^ e` for every exponent that is not negative, where the machine refuses an
exponent above `4 * shiftLimit` unless the base is `0`, `1` or `-1`. The two evaluations agree
except where `evalPure` stops at that refusal, so a call returns the reference value or the
machine's refusal of a large exponent.
-/

namespace ContractCfg.Lower

open ContractCfg.Source
open ContractCfg.Machine (Fault Vm shiftLimit)

/-- `base ^ e` for every exponent that is not negative. -/
def powerExact (base e : Int) : Except Fault Int :=
  if e < 0 then .error (.runtime ("negative exponent " ++ toString e)) else .ok (Int.pow base e.toNat)

/-- The machine's binary operations with the exact power. -/
def binaryExact (op : IR.BinOp) (l r : Int) : Except Fault Int :=
  match op with
  | .exp => powerExact l r
  | _ => Machine.binary op l r

/-- The machine's refusal of a power with exponent `x`. -/
def capFault (x : Int) : Fault := .unsupported ("exponent " ++ toString x ++ " is too large")

/-- An evaluation stopped by the machine's refusal of an exponent above its cap. -/
def Capped (r : Except Stop Int) : Prop :=
  ∃ x, 4 * (shiftLimit : Int) < x ∧ r = .error (.fault (capFault x))

/-- `op` on operands converted to `t`, as `applyOp`, with the exact power. -/
def applyExact (o : Options) (op : BinaryOp) (t : TypeName) (a b : Int) : Except Stop Int :=
  if (op == .div || op == .mod) && o.divisionChecks && b == 0 then .error .panic else
  match op.toIr? with
  | none => .error (.fault (.unsupported "short-circuit operator"))
  | some ir =>
    match binaryExact ir a b with
    | .error f => .error (.fault f)
    | .ok x => .ok (if op.mayOverflow then maskValue t x else x)

mutual
/-- The value of an expression of the pure fragment in fixed-width arithmetic, when parameter
`i` holds `σ i`: `evalPure` with `applyExact` for the operators. -/
def evalExact (o : Options) (σ : Nat → Int) : Expr → Except Stop Int
  | .mk _ k t => evalExactKind o σ k t

/-- The fixed-width value of an expression form of type `t`. -/
def evalExactKind (o : Options) (σ : Nat → Int) : ExprKind → TypeName → Except Stop Int
  | .literal (.bool b), _ => pure (Machine.ofBool b)
  | .literal (.number n), _ => pure n
  | .ident _ (.variable i), _ => pure (σ i)
  | .unary .not _ a, _ => return Machine.ofBool ((← evalExact o σ a) == 0)
  | .unary .bitNot _ a, t => return maskValue t (Word.not (← evalExact o σ a))
  | .unary .neg _ a, t => return maskValue t (0 - (← evalExact o σ a))
  | .binary .and l r, _ => do
    let a ← evalExact o σ l
    if a = 0 then pure a else evalExact o σ r
  | .binary .or l r, _ => do
    let a ← evalExact o σ l
    if a = 0 then evalExact o σ r else pure a
  | .binary op l r, t => do
    let ty := operandType op l.ty r.ty t
    let a := convertValue l.ty ty (← evalExact o σ l)
    let b ← evalExact o σ r
    applyExact o op ty a (if op.keepsRightType then b else convertValue r.ty ty b)
  | .conditional c x y, t => do
    if (← evalExact o σ c) = 0 then return convertValue y.ty t (← evalExact o σ y)
    else return convertValue x.ty t (← evalExact o σ x)
  | .call _ [a] .typeConversion _ _, t => return convertValue a.ty t (← evalExact o σ a)
  | _, _ => .error (.fault (.unsupported "expression outside the pure fragment"))
end

theorem int_pow_zero_left (n : Nat) : Int.pow 0 n = if n = 0 then 1 else 0 := by
  show Int.ofNat (0 ^ n) = _
  cases n with
  | zero => rfl
  | succ k => rw [Nat.zero_pow (Nat.succ_pos k), if_neg (Nat.succ_ne_zero k)]; rfl

theorem int_pow_one_left (n : Nat) : Int.pow 1 n = 1 := by
  show Int.ofNat (1 ^ n) = 1
  rw [Nat.one_pow]
  rfl

theorem int_pow_neg_one (n : Nat) : Int.pow (-1) n = if n % 2 = 0 then 1 else -1 := by
  show (if n % 2 = 0 then Int.ofNat (1 ^ n) else -Int.ofNat (1 ^ n)) = _
  rw [Nat.one_pow]
  rfl

theorem power_exact_or_capped (a b : Int) :
    Machine.power a b = powerExact a b ∨
      4 * (shiftLimit : Int) < b ∧ Machine.power a b = .error (capFault b) := by
  unfold Machine.power powerExact
  by_cases hneg : b < 0
  · exact .inl (by simp [hneg])
  have hb : (b.toNat : Int) = b := Int.toNat_of_nonneg (by omega)
  simp only [hneg, if_false]
  by_cases h01 : (a == 0 || a == 1) = true
  · rw [if_pos h01]
    left
    rcases Bool.or_eq_true_iff.mp h01 with h0 | h1
    · obtain rfl : a = 0 := beq_iff_eq.mp h0
      rw [int_pow_zero_left]
      by_cases hz : b = 0
      · rw [if_pos (beq_iff_eq.mpr hz), if_pos (by omega)]
      · rw [if_neg (fun h => hz (beq_iff_eq.mp h)), if_neg (by omega)]
    · obtain rfl : a = 1 := beq_iff_eq.mp h1
      rw [int_pow_one_left, ite_self]
  rw [if_neg h01]
  by_cases hm : (a == -1) = true
  · rw [if_pos hm]
    obtain rfl : a = -1 := beq_iff_eq.mp hm
    left
    rw [int_pow_neg_one]
    rcases Nat.mod_two_eq_zero_or_one b.toNat with h2 | h2
    · rw [if_pos (beq_iff_eq.mpr (by omega)), if_pos h2]
    · rw [if_neg (fun h => by have := beq_iff_eq.mp h; omega), if_neg (by omega)]
  rw [if_neg hm]
  by_cases hcap : b ≤ 4 * shiftLimit
  · exact .inl (by rw [if_pos hcap])
  · exact .inr ⟨by omega, by rw [if_neg hcap]; rfl⟩

theorem binary_exact_or_capped (ir : IR.BinOp) (a b : Int) :
    Machine.binary ir a b = binaryExact ir a b ∨
      4 * (shiftLimit : Int) < b ∧ Machine.binary ir a b = .error (capFault b) := by
  cases ir
  case exp => exact power_exact_or_capped a b
  all_goals exact .inl rfl

theorem applyOp_exact_or_capped (o : Options) (op : BinaryOp) (t : TypeName) (a b : Int) :
    applyOp o op t a b = applyExact o op t a b ∨ Capped (applyOp o op t a b) := by
  unfold applyOp applyExact
  split
  · exact .inl rfl
  rcases hir : op.toIr? with _ | ir
  · exact .inl rfl
  rcases binary_exact_or_capped ir a b with h | ⟨hb, h⟩
  · left
    cases hx : binaryExact ir a b <;> simp only [h, hx]
  · exact .inr ⟨b, hb, by simp only [h]⟩

theorem bind_exact_or_capped {x y : Except Stop Int} {f g : Int → Except Stop Int}
    (hx : x = y ∨ Capped x) (hf : ∀ a, f a = g a ∨ Capped (f a)) :
    (x >>= f) = (y >>= g) ∨ Capped (x >>= f) := by
  rcases hx with rfl | ⟨c, hc, rfl⟩
  · cases x with
    | error e => exact .inl rfl
    | ok a => exact hf a
  · exact .inr ⟨c, hc, rfl⟩

mutual
theorem evalPure_exact_or_capped (o : Options) (σ : Nat → Int) :
    ∀ e, evalPure o σ e = evalExact o σ e ∨ Capped (evalPure o σ e)
  | .mk _ k t => by
    simp only [evalPure, evalExact]
    exact evalKind_exact_or_capped o σ k t

theorem evalKind_exact_or_capped (o : Options) (σ : Nat → Int) :
    ∀ k t, evalKind o σ k t = evalExactKind o σ k t ∨ Capped (evalKind o σ k t)
  | .literal (.bool b), _ => .inl rfl
  | .literal (.number n), _ => .inl rfl
  | .ident _ (.variable i), _ => .inl rfl
  | .unary .not _ a, _ =>
    bind_exact_or_capped (evalPure_exact_or_capped o σ a) fun _ => .inl rfl
  | .unary .bitNot _ a, _ =>
    bind_exact_or_capped (evalPure_exact_or_capped o σ a) fun _ => .inl rfl
  | .unary .neg _ a, _ =>
    bind_exact_or_capped (evalPure_exact_or_capped o σ a) fun _ => .inl rfl
  | .binary op l r, t => by
    -- the short-circuit connectives evaluate the right operand only when the left one leaves
    -- the answer open; every other operator evaluates both and applies itself
    have hl := evalPure_exact_or_capped o σ l
    have hr := evalPure_exact_or_capped o σ r
    cases op
    case and =>
      refine bind_exact_or_capped hl fun a => ?_
      split
      · exact .inl rfl
      · exact hr
    case or =>
      refine bind_exact_or_capped hl fun a => ?_
      split
      · exact hr
      · exact .inl rfl
    all_goals
      exact bind_exact_or_capped hl fun _ =>
        bind_exact_or_capped hr fun _ => applyOp_exact_or_capped _ _ _ _ _
  | .conditional c x y, _ => by
    refine bind_exact_or_capped (evalPure_exact_or_capped o σ c) fun a => ?_
    split
    · exact bind_exact_or_capped (evalPure_exact_or_capped o σ y) fun _ => .inl rfl
    · exact bind_exact_or_capped (evalPure_exact_or_capped o σ x) fun _ => .inl rfl
  | .call _ [a] .typeConversion _ _, _ =>
    bind_exact_or_capped (evalPure_exact_or_capped o σ a) fun _ => .inl rfl
  -- every other form is outside the fragment, for both
  | .ident _ (.function _), _ | .ident _ (.modifier _), _ | .ident _ (.contract _), _
  | .ident _ (.struct _), _ | .ident _ (.magic _), _ | .ident _ (.builtin _), _
  | .unary .inc _ _, _ | .unary .dec _ _, _ | .unary .delete _ _, _ | .assign _ _ _, _
  | .tuple _, _ | .call _ [] _ _ _, _ | .call _ (_ :: _ :: _) _ _ _, _
  | .call _ [_] .regular _ _, _ | .call _ [_] .structConstructor _ _, _ | .new _, _
  | .typeExpr, _ | .member _ _ _, _ | .index _ _, _ => .inl rfl
end

end ContractCfg.Lower
