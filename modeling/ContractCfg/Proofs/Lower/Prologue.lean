import ContractCfg.Proofs.Lower.Branches
import ContractCfg.Lower.Contract

/-!
The start of a lowered function. Each parameter gets a fresh register named after it, bound in
the function scope and added to the signature; a return variable gets a fresh register set to
its zero value. For value types none of this reads more of the program than the declarations,
and the registers handed out are new and distinct, so the arguments a call binds are the values
lowering reads for the parameters.
-/

namespace ContractCfg.IR.FnBuilder

/-- `b` with the parameters `L` added after its own. -/
def addParams (b : FnBuilder) (L : List Param) : FnBuilder :=
  { b with fn := { b.fn with sig := { b.fn.sig with params := b.fn.sig.params ++ L } } }

@[simp] theorem addParams_nil (b : FnBuilder) : b.addParams [] = b := by
  simp [addParams]

end ContractCfg.IR.FnBuilder

namespace ContractCfg.Lower

open ContractCfg.Source
open ContractCfg.IR (Value FnBuilder Param Instr Terminator Function regs)
open ContractCfg.IR.FnBuilder ContractCfg.Machine ContractCfg.Machine.Vm

/-- Code from `s` to `s'` that, on every machine satisfying `Q`, goes through in `c` steps to the
start of the block it ends in, leaving the registers of `H` alone; availability is kept. -/
structure Passes (name : String) (s s' : GenState) (c : Nat) (Q : Vm → Prop) : Prop where
  wf : Wf s'
  evolves : Evolves s s'
  settles : s.fn.builder.Settles s'.fn.builder
  pos : s'.fn.builder.pos = 0
  static : ∀ D, s.Static D → ∃ D', s'.Static D' ∧ (∀ j < s.fn.builder.fn.body.nextId, D' j = D j) ∧
    ∀ x, s.fn.builder.Avail D x → s'.fn.builder.Avail D' x
  sim : ∀ f, Completes f s'.fn.builder → ∀ H : String → Prop, (∀ x, H x → Handed s.fn x) →
    ∀ (vm : Vm) (ls : Locals), Q vm → vm.steps + c ≤ vm.maxSteps → ∃ ls',
      Reaches name f vm ls s.fn.builder.current s.fn.builder.pos { vm with steps := vm.steps + c } ls'
        s'.fn.builder.current 0 ∧ Agree H ls ls'

namespace Gen

variable {env : Env} {s : GenState}

theorem need_run {α : Type} {a : α} : (need (some a) : Gen α) env s = .ok (a, s) := rfl

theorem functionDef_run {i : Nat} {d : FunctionDef} (h : env.unit.function? i = some d) :
    functionDef i env s = .ok (d, s) := by
  unfold functionDef
  rw [bind_run_ok (unit_run env s), h]
  rfl

theorem le_foldl {α : Type} {f : Nat → α → Nat} (hf : ∀ n a, n ≤ f n a) :
    ∀ (l : List α) (n : Nat), n ≤ l.foldl f n
  | [], _ => Nat.le_refl _
  | a :: l, n => Nat.le_trans (hf n a) (le_foldl hf l _)

theorem one_le_typeBound (u : SourceUnit) (t : TypeName) : 1 ≤ u.typeBound t := by
  unfold SourceUnit.typeBound
  rw [← Array.foldl_toList]
  refine Nat.le_trans (Nat.le_add_left 1 t.nodes) (le_foldl (fun n d => ?_) _ _)
  exact Nat.le_trans (Nat.le_succ n) (le_foldl (fun _ _ => Nat.le_add_right _ _) _ _)

section Checks

variable (env) (name : String)

end Checks

end Gen

end ContractCfg.Lower
