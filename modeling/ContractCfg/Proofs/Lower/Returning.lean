import ContractCfg.Proofs.Lower.Forks
import ContractCfg.Proofs.Lower.Prologue

/-!
A body that returns the value of one expression. `return e` evaluates `e`, converts the value
to the type of the return variable, writes it there and jumps to the exit block of the body;
lowering goes on in a fresh block that nothing reaches. Expanding a function body without
modifiers wraps it in its own exit block, which is current afterwards, with the return
variable holding the converted value of `e` on every run that gets there.
-/

namespace ContractCfg.Lower

open ContractCfg.IR ContractCfg.IR.FnBuilder ContractCfg.Machine ContractCfg.Machine.Vm
open ContractCfg.Source

variable {n : Nat}

theorem IsPure.isValueType {e : Expr} (he : IsPure n e) : e.ty.isValueType = true := by
  cases he <;> assumption

theorem Evolves.returnVars {s s₁ : GenState} (h : Evolves s s₁) : s₁.fn.returnVars = s.fn.returnVars := by
  have h' := congrArg FnState.returnVars h.frame
  exact h'

theorem Evolves.layers {s s₁ : GenState} (h : Evolves s s₁) : s₁.fn.layers = s.fn.layers := by
  have h' := congrArg FnState.layers h.frame
  exact h'

theorem Evolves.returnTargets {s s₁ : GenState} (h : Evolves s s₁) :
    s₁.fn.returnTargets = s.fn.returnTargets := by
  have h' := congrArg FnState.returnTargets h.frame
  exact h'

namespace Gen

variable {name : String} {env : Env} {n : Nat} {s s₁ : GenState} {c : Nat} {P : Locals → Prop}
  {R : Locals → Except Stop Int} {need : String → Prop}

/-- Code from `s` to `s'` that leaves a body through its exit block `exit`, made before the
code and left as it was: lowering goes on in a fresh block; availability is kept when `exit`
expects only what the code starts with; and in every final function completing `s'`, every
run from the start reaches the start of `exit`, in at most `c` steps, with `y` holding what
the code computes from registers satisfying `P`, or stops as that says. -/
structure Leaves (name : String) (s s' : GenState) (y : String) (exit c : Nat) (P : Locals → Prop)
    (R : Locals → Except Stop Int) (need : String → Prop) : Prop where
  wf : Wf s'
  evolves : Evolves s s'
  settles : s.fn.builder.Settles s'.fn.builder
  pos : s'.fn.builder.pos = 0
  keepsExit : s'.fn.builder.block? exit = s.fn.builder.block? exit
  static : ∀ D, s.Static D → (∀ x, need x → s.fn.builder.Avail D x) →
    (∀ x, D exit x → s.fn.builder.Avail D x ∨ x = y) →
    ∃ D', s'.Static D' ∧ (∀ j < s.fn.builder.fn.body.nextId, D' j = D j) ∧
      (∀ x, s.fn.builder.Avail D x → s'.fn.builder.Avail D' x) ∧ s'.fn.builder.Avail D' y
  sim : ∀ f, Completes f s'.fn.builder → ∀ H : String → Prop, (∀ x, H x → Handed s.fn x) → ¬ H y →
    ∀ ls, P ls → ∀ bj : FnBuilder, bj.current = exit → bj.pos = 0 →
      Computes name f s.fn.builder bj c H ls (.reg y) (R ls)

theorem pushLayer_run (env : Env) (s : GenState) :
    pushLayer env s = .ok ((), { s with fn := { s.fn with layers := {} :: s.fn.layers } }) := rfl

theorem pushReturnTarget_run (k : Nat) (env : Env) (s : GenState) :
    pushReturnTarget k env s = .ok ((), { s with fn := { s.fn with returnTargets := k :: s.fn.returnTargets } }) :=
  rfl

theorem takeLoops_run (env : Env) (s : GenState) :
    takeLoops env s = .ok (s.fn.loops, { s with fn := { s.fn with loops := [] } }) := rfl

theorem stmtFuel_run (uses : Nat) (env : Env) (s : GenState) :
    stmtFuel uses env s = .ok ((uses + 1) * (2 * env.unit.nodeBound + 3) + 1, s) := rfl

end Gen

end ContractCfg.Lower
