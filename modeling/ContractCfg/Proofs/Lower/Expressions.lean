import ContractCfg.Proofs.Lower.Operators
import ContractCfg.Lower.Expr

namespace ContractCfg.Lower

open ContractCfg.IR ContractCfg.IR.FnBuilder ContractCfg.Machine ContractCfg.Machine.Vm
open ContractCfg.Source

/-- `x` is the register bound to one of the parameters `0 … n-1`. -/
def ParamReg (n : Nat) (c : FnState) (x : String) : Prop := ∃ i < n, c.lookup i = some (.reg x)

/-- Every parameter `i < n` is bound to a register handed out in `c`. -/
def ParamsBound (n : Nat) (c : FnState) : Prop :=
  ∀ i < n, ∃ x, c.lookup i = some (.reg x) ∧ Handed c x

/-- The registers `ls` hold a value for every parameter register. -/
def ParamsHeld (n : Nat) (c : FnState) (ls : Locals) : Prop :=
  ∀ x, ParamReg n c x → ∃ a, ls.get? x = some a

/-- The value the registers `ls` give parameter `i`; zero past the parameters. -/
def paramValue (n : Nat) (c : FnState) (ls : Locals) (i : Nat) : Int :=
  if i < n then
    match c.lookup i with
    | some (.reg x) => (ls.get? x).getD 0
    | _ => 0
  else 0

section Params

variable {n : Nat} {s s₁ : GenState} {c c' : FnState} {ls ls₁ : Locals}

theorem ParamsBound.congr (hb : ParamsBound n c) (h : ∀ v, c'.lookup v = c.lookup v)
    (hh : ∀ x, Handed c x → Handed c' x) : ParamsBound n c' := by
  intro i hi
  obtain ⟨x, hx, hx'⟩ := hb i hi
  exact ⟨x, by rw [h]; exact hx, hh x hx'⟩

theorem ParamsBound.evolves (hb : ParamsBound n s.fn) (h : Evolves s s₁) : ParamsBound n s₁.fn :=
  hb.congr h.lookup fun _ => h.handed

theorem ParamsBound.handed (hb : ParamsBound n c) {x : String} (hx : ParamReg n c x) : Handed c x := by
  obtain ⟨i, hi, hl⟩ := hx
  obtain ⟨y, hy, hh⟩ := hb i hi
  rw [hl] at hy
  cases hy
  exact hh

theorem ParamsHeld.read (hp : ParamsHeld n c ls) {x : String} (hx : ParamReg n c x) :
    ∃ a, ls.read (.reg x) = .ok a := by
  obtain ⟨a, ha⟩ := hp x hx
  exact ⟨a, read_reg_of_get? ha⟩

end Params

/-- From every well-formed state with the parameters bound, and with fuel for its nodes,
lowering `e` yields its value under the values of the parameters. -/
def Lowers (name : String) (env : Env) (n : Nat) (e : Expr) : Prop :=
  ∀ s fuel, Wf s → ParamsBound n s.fn → 2 * e.nodes + 2 ≤ fuel →
    ∃ v s', Gen.single fuel e env s = .ok (v, s') ∧
      Yields name s s' v (8 * e.nodes) (ParamsHeld n s.fn)
        (fun ls => evalPure env.options (paramValue n s.fn ls) e) (ParamReg n s.fn)

/-- Code `m` turns every operand `v` into the image under `φ` of its value, in `c` steps. -/
def MapSpec (name : String) (env : Env) (m : Value → Gen Value) (φ : Int → Int) (c : Nat) : Prop :=
  ∀ v s, Wf s → (∀ x, v = .reg x → Handed s.fn x) → ∃ v' s', m v env s = .ok (v', s') ∧
    Yields name s s' v' c (fun ls => ∃ a, ls.read v = .ok a) (readMap v φ) (fun x => v = .reg x)

namespace MapSpec

variable {name : String} {env : Env}

theorem comp {m₁ m₂ : Value → Gen Value} {φ₁ φ₂ : Int → Int} {c₁ c₂ : Nat}
    (h₁ : MapSpec name env m₁ φ₁ c₁) (h₂ : MapSpec name env m₂ φ₂ c₂) :
    MapSpec name env (fun v => m₁ v >>= m₂) (φ₂ ∘ φ₁) (c₁ + c₂) := by
  intro v s hw hv
  obtain ⟨v₁, s₁, hrun₁, hy₁⟩ := h₁ v s hw hv
  obtain ⟨v₂, s₂, hrun₂, hy₂⟩ := h₂ v₁ s₁ hy₁.wf hy₁.handed
  have hrun : (m₁ v >>= m₂) env s = .ok (v₂, s₂) := by
    rw [Gen.bind_run_ok hrun₁]
    exact hrun₂
  refine ⟨v₂, s₂, hrun, (hy₁.map hy₂).congr ?_⟩
  rintro ls ⟨a, ha⟩
  rw [readMap_of_read ha, readMap_of_read ha]
  rfl

theorem mask (t : TypeName) : MapSpec name env (fun v => Gen.mask v t) (maskValue t) 1 :=
  fun _ _ hw hv => Gen.mask_spec name env hw hv t

theorem convert (src dst : TypeName) :
    MapSpec name env (fun v => Gen.convert v src dst) (convertValue src dst) 1 :=
  fun _ _ hw hv => Gen.convert_spec name env hw hv src dst

theorem unary (op : UnOp) : MapSpec name env (Gen.unary op) (Machine.unary op) 1 :=
  fun v _ hw _ => Gen.unary_spec name env hw op v

end MapSpec

namespace Gen

variable {name : String} {env : Env} {n : Nat} {s : GenState}

end Gen

end ContractCfg.Lower
