import ContractCfg.Proofs.Lower.Run
import ContractCfg.Proofs.Lower.Simulation
import ContractCfg.Proofs.Machine.Fresh

/-!
Straight-line code. Many lowering routines append instructions to the block being built, hand
out fresh temporaries and change nothing else: their effect on the builder is the list of
instructions they append (`FnBuilder.Appends`), and what that code does is what the machine does
running the list (`Vm.Runs`). Two such routines in sequence append one list after the other,
and the two runs compose.

The code of such a routine writes only temporaries handed out while it ran, so an operand that
names an older register reads the same before and after it (`FreshFrom`, `Value.Below`).
-/

namespace ContractCfg.IR.FnBuilder

/-- The builder with the instructions `is` appended to its current block. -/
def pushAll (b : FnBuilder) (is : List Instr) : FnBuilder := is.foldl push b

@[simp] theorem pushAll_nil (b : FnBuilder) : b.pushAll [] = b := rfl

@[simp] theorem pushAll_cons (b : FnBuilder) (i : Instr) (is : List Instr) :
    b.pushAll (i :: is) = (b.push i).pushAll is := rfl

theorem pushAll_append (b : FnBuilder) (is js : List Instr) :
    b.pushAll (is ++ js) = (b.pushAll is).pushAll js := List.foldl_append

theorem pushAll_withTemp (b : FnBuilder) (n : Nat) (is : List Instr) :
    ({ b with nextTemp := n } : FnBuilder).pushAll is = { b.pushAll is with nextTemp := n } := by
  induction is generalizing b with
  | nil => rfl
  | cons i is ih => exact ih (b.push i)

@[simp] theorem pushAll_current (b : FnBuilder) (is : List Instr) :
    (b.pushAll is).current = b.current := by
  induction is generalizing b with
  | nil => rfl
  | cons i is ih => exact ih (b.push i)

theorem block?_pushAll_other (b : FnBuilder) (is : List Instr) {k : Nat} (hk : k ≠ b.current) :
    (b.pushAll is).block? k = b.block? k := by
  induction is generalizing b with
  | nil => rfl
  | cons i is ih => rw [pushAll_cons, ih (b.push i) hk, block?_push, if_neg (Ne.symm hk)]

theorem block?_pushAll_current {b : FnBuilder} {blk : Block} (hb : b.block? b.current = some blk)
    (is : List Instr) :
    (b.pushAll is).block? b.current = some { blk with instrs := blk.instrs ++ is.toArray } := by
  induction is generalizing b blk with
  | nil => simp [hb]
  | cons i is ih =>
    have hb' : (b.push i).block? (b.push i).current = some (Block.pushInstr i blk) := by
      rw [block?_push, push_current, if_pos rfl, hb]
      rfl
    rw [pushAll_cons, ← push_current b i, ih hb']
    simp [Block.pushInstr]

/-- `b'` is `b` with the instructions `is` appended to its current block and temporaries handed
out from `b.nextTemp` on; nothing else of the builder changes. -/
def Appends (b b' : FnBuilder) (is : List Instr) : Prop :=
  ∃ n, b.nextTemp ≤ n ∧ b' = { b.pushAll is with nextTemp := n }

namespace Appends

variable {b b₁ b₂ : FnBuilder} {is is₁ is₂ : List Instr}

theorem refl (b : FnBuilder) : Appends b b [] := ⟨b.nextTemp, Nat.le_refl _, rfl⟩

theorem trans (h₁ : Appends b b₁ is₁) (h₂ : Appends b₁ b₂ is₂) : Appends b b₂ (is₁ ++ is₂) := by
  obtain ⟨n₁, hn₁, rfl⟩ := h₁
  obtain ⟨n₂, hn₂, rfl⟩ := h₂
  refine ⟨n₂, Nat.le_trans hn₁ hn₂, ?_⟩
  rw [pushAll_withTemp, pushAll_append]

theorem push (b : FnBuilder) (i : Instr) : Appends b (b.push i) [i] := ⟨b.nextTemp, Nat.le_refl _, rfl⟩

theorem emit (b : FnBuilder) (mk : Value → Instr) :
    Appends b (b.emit mk).2 [mk (.reg (toString b.nextTemp))] :=
  ⟨b.nextTemp + 1, Nat.le_succ _, rfl⟩

theorem nextTemp_le (h : Appends b b₁ is) : b.nextTemp ≤ b₁.nextTemp := by
  obtain ⟨n, hn, rfl⟩ := h
  exact hn

theorem current (h : Appends b b₁ is) : b₁.current = b.current := by
  obtain ⟨n, -, rfl⟩ := h
  exact pushAll_current b is

theorem block?_current (h : Appends b b₁ is) {blk : Block} (hb : b.block? b.current = some blk) :
    b₁.block? b.current = some { blk with instrs := blk.instrs ++ is.toArray } := by
  obtain ⟨n, -, rfl⟩ := h
  exact block?_pushAll_current hb is

theorem block?_other (h : Appends b b₁ is) {k : Nat} (hk : k ≠ b.current) : b₁.block? k = b.block? k := by
  obtain ⟨n, -, rfl⟩ := h
  exact block?_pushAll_other b is hk

theorem isOpen (h : Appends b b₁ is) (ho : IsOpen b) : IsOpen b₁ := by
  obtain ⟨blk, hb, ht⟩ := ho
  exact ⟨{ blk with instrs := blk.instrs ++ is.toArray }, by rw [h.current, h.block?_current hb], ht⟩

theorem instrsOf (h : Appends b b₁ is) {blk : Block} (hb : b.block? b.current = some blk) :
    b₁.instrsOf b.current = blk.instrs.toList ++ is := by
  simp [FnBuilder.instrsOf, h.block?_current hb]

end Appends

end ContractCfg.IR.FnBuilder

namespace ContractCfg.Lower

open ContractCfg.IR ContractCfg.Machine

/-- Lowering went from `s` to `s'` appending `is` to the current block: of the function state only
the builder changed, by `is` and the temporaries handed out. -/
def GenState.Appends (s s' : GenState) (is : List Instr) : Prop :=
  s'.fn = { s.fn with builder := s'.fn.builder } ∧ s.fn.builder.Appends s'.fn.builder is

namespace GenState.Appends

variable {s s₁ s₂ : GenState} {is is₁ is₂ : List Instr}

theorem refl (s : GenState) : s.Appends s [] := ⟨rfl, FnBuilder.Appends.refl _⟩

theorem trans (h₁ : s.Appends s₁ is₁) (h₂ : s₁.Appends s₂ is₂) : s.Appends s₂ (is₁ ++ is₂) :=
  ⟨by rw [h₂.1, h₁.1], h₁.2.trans h₂.2⟩

theorem withBuilder {b : FnBuilder} (h : s.fn.builder.Appends b is) : s.Appends (s.withBuilder b) is :=
  ⟨rfl, h⟩

end GenState.Appends

/-- Register `x` is a numbered temporary from `n` on. -/
def FreshFrom (n : Nat) (x : String) : Prop := ∃ j, n ≤ j ∧ x = toString j

theorem FreshFrom.mono {n n' : Nat} {x : String} (h : FreshFrom n' x) (hn : n ≤ n') : FreshFrom n x := by
  obtain ⟨j, hj, rfl⟩ := h
  exact ⟨j, Nat.le_trans hn hj, rfl⟩

theorem freshFrom_temp {n j : Nat} (h : n ≤ j) : FreshFrom n (toString j) := ⟨j, h, rfl⟩

theorem not_freshFrom_temp {n j : Nat} (h : j < n) : ¬ FreshFrom n (toString j) := by
  rintro ⟨j', hj', he⟩
  have := toString_inj he
  omega

/-- `v` is a constant or a register that no temporary from `n` on overwrites. -/
def Value.Below (n : Nat) (v : Value) : Prop := ∀ x, v = .reg x → ¬ FreshFrom n x

theorem Value.Below.mono {n n' : Nat} {v : Value} (h : Value.Below n v) (hn : n ≤ n') : Value.Below n' v :=
  fun x hx hf => h x hx (hf.mono hn)

@[simp] theorem Value.below_const (n : Nat) (c : Constant) : Value.Below n (.const c) := fun _ h => by cases h

theorem Value.below_temp {n j : Nat} (h : j < n) : Value.Below n (.reg (toString j)) := by
  rintro x ⟨⟩
  exact not_freshFrom_temp h

theorem Agree.read_below {n : Nat} {ls ls' : Locals} (h : Agree (fun x => ¬ FreshFrom n x) ls ls')
    {v : Value} (hv : Value.Below n v) {a : Int} (ha : ls.read v = .ok a) : ls'.read v = .ok a :=
  h.read ha hv

theorem Agree.fresh_mono {n n' : Nat} {ls ls' : Locals} (h : Agree (fun x => ¬ FreshFrom n' x) ls ls')
    (hn : n ≤ n') : Agree (fun x => ¬ FreshFrom n x) ls ls' :=
  h.mono fun _ hx hf => hx (hf.mono hn)

namespace Gen

variable {α β : Type} {env : Env} {s s' : GenState}

theorem bind_ok {x : Gen α} {f : α → Gen β} {b : β} (h : (x >>= f) env s = .ok (b, s')) :
    ∃ a s₁, x env s = .ok (a, s₁) ∧ f a env s₁ = .ok (b, s') := by
  rw [bind_run] at h
  split at h
  · next a s₁ hx => exact ⟨a, s₁, hx, h⟩
  · cases h

theorem emit_ok {mk : Value → Instr} {v : Value} (ho : s.fn.builder.IsOpen)
    (h : emit mk env s = .ok (v, s')) :
    v = .reg (toString s.fn.builder.nextTemp) ∧ s' = s.withBuilder (s.fn.builder.emit mk).2 := by
  rw [emit_run mk ho] at h
  simp only [Except.ok.injEq, Prod.mk.injEq] at h
  exact ⟨h.1.symm, h.2.symm⟩

theorem emitUnit_ok {i : Instr} {u : Unit} (ho : s.fn.builder.IsOpen) (h : emitUnit i env s = .ok (u, s')) :
    s' = s.withBuilder (s.fn.builder.push i) := by
  rw [emitUnit_run i ho] at h
  simp only [Except.ok.injEq, Prod.mk.injEq] at h
  exact h.2.symm

theorem structDef_ok {id : Nat} {d : Source.StructDef} (h : structDef id env s = .ok (d, s')) :
    env.unit.struct? id = some d ∧ s' = s := by
  unfold structDef at h
  rw [bind_run_ok (unit_run env s)] at h
  cases hd : env.unit.struct? id with
  | none => rw [hd] at h; cases h
  | some d' =>
    rw [hd] at h
    have h' : (Except.ok (d', s) : Except LowerError (Source.StructDef × GenState)) = .ok (d, s') := h
    simp only [Except.ok.injEq, Prod.mk.injEq] at h'
    exact ⟨by rw [h'.1], h'.2.symm⟩

end Gen

end ContractCfg.Lower

namespace ContractCfg.Machine.Vm

open ContractCfg.IR

/-- The machine with memory `m` and `c` more steps counted. -/
def withMemory (vm : Vm) (m : Array Int) (c : Nat) : Vm :=
  { vm with state := { vm.state with memory := m }, steps := vm.steps + c }

@[simp] theorem withMemory_memory (vm : Vm) (m : Array Int) (c : Nat) :
    (vm.withMemory m c).state.memory = m := rfl

@[simp] theorem withMemory_steps (vm : Vm) (m : Array Int) (c : Nat) :
    (vm.withMemory m c).steps = vm.steps + c := rfl

@[simp] theorem withMemory_maxSteps (vm : Vm) (m : Array Int) (c : Nat) :
    (vm.withMemory m c).maxSteps = vm.maxSteps := rfl

@[simp] theorem withMemory_storage (vm : Vm) (m : Array Int) (c : Nat) :
    (vm.withMemory m c).state.storage = vm.state.storage := rfl

@[simp] theorem withMemory_contract (vm : Vm) (m : Array Int) (c : Nat) :
    (vm.withMemory m c).contract = vm.contract := rfl

theorem withMemory_withMemory (vm : Vm) (m m' : Array Int) (c c' : Nat) :
    (vm.withMemory m c).withMemory m' c' = vm.withMemory m' (c + c') := by
  simp [withMemory, Nat.add_assoc]

/-- The machine runs the instructions `is`, none of them a call, from `vm` and registers `ls` to
`vm'` and `ls'`, each one step within the step limit. -/
inductive Runs : List Instr → Vm → Locals → Vm → Locals → Prop
  | nil (vm : Vm) (ls : Locals) : Runs [] vm ls vm ls
  | cons {i : Instr} {is : List Instr} {vm vm₁ vm' : Vm} {ls ls₁ ls' : Locals} :
      Plain i → vm.steps < vm.maxSteps → step { vm with steps := vm.steps + 1 } ls i = .ok (vm₁, ls₁) →
      Runs is vm₁ ls₁ vm' ls' → Runs (i :: is) vm ls vm' ls'

namespace Runs

variable {is js : List Instr} {vm vm₁ vm₂ : Vm} {ls ls₁ ls₂ : Locals}

theorem append (h₁ : Runs is vm ls vm₁ ls₁) (h₂ : Runs js vm₁ ls₁ vm₂ ls₂) :
    Runs (is ++ js) vm ls vm₂ ls₂ := by
  induction h₁ with
  | nil => exact h₂
  | cons hi hs hstep _ ih => exact .cons hi hs hstep (ih h₂)

theorem single {i : Instr} (hi : Plain i) (hs : vm.steps < vm.maxSteps) {vm' : Vm}
    (hstep : step { vm with steps := vm.steps + 1 } ls i = .ok (vm', ls₁)) : Runs [i] vm ls vm' ls₁ :=
  .cons hi hs hstep (.nil _ _)

theorem runInstrs (h : Runs is vm ls vm₁ ls₁) (rest : List Instr) (fuel : Nat) :
    runInstrs (is ++ rest) vm ls fuel = runInstrs rest vm₁ ls₁ fuel := by
  induction h with
  | nil => rfl
  | cons hi hs hstep _ ih => rw [List.cons_append, runInstrs_cons_plain hi (tick_ok _ hs) hstep, ih]

end Runs

section Steps

variable {vm : Vm} {ls : Locals}

theorem plain_allocate (r s : Value) : Plain (.allocate r s) := fun _ _ _ h => by cases h

theorem plain_memoryStore (a v : Value) : Plain (.memoryStore a v) := fun _ _ _ h => by cases h

theorem plain_storageStore (s v : Value) : Plain (.storageStore s v) := fun _ _ _ h => by cases h

theorem plain_binary (r : Value) (op : BinOp) (a b : Value) : Plain (.binary r op a b) :=
  fun _ _ _ h => by cases h

theorem plain_assign (r v : Value) : Plain (.assign r v) := fun _ _ _ h => by cases h

theorem plain_copyMemoryToStorage (d s : Value) (t : Ty) : Plain (.copyMemoryToStorage d s t) :=
  fun _ _ _ h => by cases h

theorem State.allocate_fresh {st : State} {c : Nat} (hm : 0 < st.memory.size) (hc : 0 < c)
    (hroom : st.memory.size + c ≤ memoryLimit) :
    st.allocate c = .ok (st.memory.size, { st with memory := st.memory ++ Array.replicate c 0 }) := by
  have hM : addressModulus = 18446744073709551616 := rfl
  have hL : memoryLimit = 16777216 := rfl
  have hne : st.memory.isEmpty = false := by
    simpa [Array.isEmpty_iff] using Nat.pos_iff_ne_zero.mp hm
  have hend : (st.memory.size + max (c : Int).toNat 1) % addressModulus = st.memory.size + c := by
    rw [Int.toNat_natCast, Nat.max_eq_left hc, Nat.mod_eq_of_lt (by omega)]
  unfold State.allocate
  simp only [hne, Bool.false_eq_true, if_false]
  rw [if_pos ⟨by omega, by omega, by rw [Int.toNat_natCast, Nat.mod_eq_of_lt (by omega)]; omega⟩, hend]
  simp only [resizeCells, if_neg (show ¬ st.memory.size + c ≤ st.memory.size by omega),
    Nat.add_sub_cancel_left]

theorem step_allocate_eq (r s : Value) :
    step vm ls (.allocate r s) = (do
      let p ← vm.state.allocate (← ls.read s)
      pure ({ vm with state := p.2 }, ← ls.write r p.1)) := by
  unfold Vm.step
  rfl

theorem step_allocate {r : String} {c : Nat} (hm : 0 < vm.state.memory.size) (hc : 0 < c)
    (hroom : vm.state.memory.size + c ≤ memoryLimit) :
    step vm ls (.allocate (.reg r) (.ofInt c)) =
      .ok ({ vm with state := { vm.state with memory := vm.state.memory ++ Array.replicate c 0 } },
        ls.insert r vm.state.memory.size) := by
  rw [step_allocate_eq, show ls.read (Value.ofInt c) = .ok c from rfl, ok_bind,
    State.allocate_fresh hm hc hroom]
  rfl

theorem step_memoryStore {a v : Value} {w : Nat} {x : Int} (ha : ls.read a = .ok w)
    (hv : ls.read v = .ok x) (hw : 0 < w) (hws : w < vm.state.memory.size) :
    step vm ls (.memoryStore a v) =
      .ok ({ vm with state := { vm.state with memory := vm.state.memory.set! w x } }, ls) := by
  have hc : vm.state.cellIndex w = .ok w := by
    unfold State.cellIndex
    rw [if_pos ⟨by omega, by omega⟩]
    rfl
  simp only [step, ha, hv, ok_bind, State.mstore, hc]
  rfl

theorem step_storageStore {s v : Value} {d x : Int} (hs : ls.read s = .ok d) (hv : ls.read v = .ok x) :
    step vm ls (.storageStore s v) = .ok ({ vm with state := vm.state.sstore d x }, ls) := by
  simp only [step, hs, hv, ok_bind]
  rfl

theorem step_copyMemoryToStorage {d s : Value} {t : Ty} {dst src : Int} (hd : ls.read d = .ok dst)
    (hs : ls.read s = .ok src) {st' : State}
    (hc : copyMemoryToStorage vm.contract.types copyDepth vm.state dst src t = .ok st') :
    step vm ls (.copyMemoryToStorage d s t) = .ok ({ vm with state := st' }, ls) := by
  simp only [step, hd, hs, hc, ok_bind]
  rfl

theorem step_copyMemoryToStorage_fault {d s : Value} {t : Ty} {dst src : Int} (hd : ls.read d = .ok dst)
    (hs : ls.read s = .ok src) {e : Fault}
    (hc : copyMemoryToStorage vm.contract.types copyDepth vm.state dst src t = .error e) :
    step vm ls (.copyMemoryToStorage d s t) = .error e := by
  simp only [step, hd, hs, hc, ok_bind]
  rfl

end Steps

section One

variable {vm : Vm} {ls : Locals}

theorem runs_allocate {r : String} {c : Nat} (hs : vm.steps < vm.maxSteps) (hm : 0 < vm.state.memory.size)
    (hc : 0 < c) (hroom : vm.state.memory.size + c ≤ memoryLimit) :
    Runs [.allocate (.reg r) (.ofInt c)] vm ls (vm.withMemory (vm.state.memory ++ Array.replicate c 0) 1)
      (ls.insert r vm.state.memory.size) :=
  Runs.single (plain_allocate _ _) hs (step_allocate hm hc hroom)

theorem runs_memoryStore {a v : Value} {w : Nat} {x : Int} (hs : vm.steps < vm.maxSteps)
    (ha : ls.read a = .ok w) (hv : ls.read v = .ok x) (hw : 0 < w) (hws : w < vm.state.memory.size) :
    Runs [.memoryStore a v] vm ls (vm.withMemory (vm.state.memory.set! w x) 1) ls :=
  Runs.single (plain_memoryStore _ _) hs (step_memoryStore ha hv hw hws)

end One

end ContractCfg.Machine.Vm
