import ContractCfg.Proofs.Lower.Defaults
import ContractCfg.Proofs.Machine.Clearing
import ContractCfg.Proofs.Cursor.Values
import ContractCfg.Proofs.Lower.Prologue

/-!
`delete x` resets the place `x` to the zero object of its type. A register or a memory cell
receives a fresh default value, laid past the memory in use; a storage value is stored zero; a
storage struct or array is cleared by a copy from the null memory pointer, which the machine
runs as a clear of the object's layout. A whole mapping cannot be deleted.

A clear walks the object as a read does, so it runs to its end whenever the object can be read
before the delete. It cannot when a dynamic array inside is longer than the machine's copy
limit: the machine then stops with its copy-limit fault (`delete_overlong_array_faults`).
-/

namespace ContractCfg.Lower

open ContractCfg.IR ContractCfg.Machine ContractCfg.Machine.Vm ContractCfg.Source

namespace Gen

variable {node : Nat}

theorem delete_register (x : Value) (t : TypeName) :
    delete (.register x t) node = (defaultValue t node >>= fun z => emitUnit (.assign x z)) := rfl

theorem delete_memory (a : Value) (t : TypeName) :
    delete (.memory a t) node = (defaultValue t node >>= fun z => emitUnit (.memoryStore a z)) := rfl

theorem delete_storage (sl : Value) {t : TypeName} (ht : ∀ k v, t ≠ .mapping k v) :
    delete (.storage sl t) node =
      if t.isReference then irType t node >>= fun ir => emitUnit (.copyMemoryToStorage sl .zero ir)
      else defaultValue t node >>= fun z => emitUnit (.storageStore sl z) := by
  cases t with
  | mapping k v => exact absurd rfl (ht k v)
  | _ => rfl

theorem irType_reference {env : Env} {s s' : GenState} {t : TypeName} {ir : Ty}
    (ht : t.isReference = true) (hm : ∀ k v, t ≠ .mapping k v) (h : irType t node env s = .ok (ir, s')) :
    ir.isValueType = false ∧ s'.fn = s.fn := by
  have hfn : s'.fn = s.fn := by
    have := fnFixed_irType t node s.fn env s rfl
    rw [h] at this
    exact this
  refine ⟨?_, hfn⟩
  unfold irType at h
  rw [bind_run_ok (unit_run env s)] at h
  cases t with
  | array base len loc =>
    rw [irTypeWith] at h
    obtain ⟨b, s₁, -, h₁⟩ := bind_ok h
    obtain ⟨rfl, -⟩ := pure_ok h₁
    rfl
  | struct id loc =>
    rw [irTypeWith] at h
    obtain ⟨_, s₁, -, h₁⟩ := bind_ok h
    obtain ⟨rfl, -⟩ := pure_ok h₁
    rfl
  | mapping k v => exact absurd rfl (hm k v)
  | _ => simp [TypeName.isReference] at ht

end Gen

section Steps

variable {vm : Vm} {ls : Locals}

theorem runs_assign {r : String} {v : Value} {a : Int} (hs : vm.steps < vm.maxSteps) (hv : ls.read v = .ok a) :
    Runs [.assign (.reg r) v] vm ls (vm.withMemory vm.state.memory 1) (ls.insert r a) :=
  Runs.single (plain_assign _ _) hs (step_assign hv)

theorem runs_storageStore {sl v : Value} {d x : Int} (hs : vm.steps < vm.maxSteps) (hd : ls.read sl = .ok d)
    (hv : ls.read v = .ok x) :
    Runs [.storageStore sl v] vm ls { vm with state := vm.state.sstore d x, steps := vm.steps + 1 } ls :=
  Runs.single (plain_storageStore _ _) hs (step_storageStore hd hv)

end Steps

theorem GenState.Appends.of_fn {s s₁ s₂ : GenState} {is : List Instr} (hfn : s₁.fn = s.fn)
    (h : s₁.Appends s₂ is) : s.Appends s₂ is :=
  ⟨by rw [h.1, hfn], hfn ▸ h.2⟩

theorem TypeName.not_inMemory {t : TypeName} (ht : t.isReference = false) : t.isInMemory = false := by
  cases h : t.isInMemory with
  | false => rfl
  | true =>
    rcases TypeName.inMemory_cases h with ⟨id, rfl⟩ | ⟨base, length, rfl⟩ <;>
      simp [TypeName.isReference] at ht

section Resets

/-- The code `is` resets register `r` to the zero object of type `t`. Run from registers `ls` on
a machine with memory in use, room below the memory limit for the object and steps left, it
lays the object past the old end of memory, keeps every old cell, leaves `r` reading the
object, and changes no other register but the temporaries from `n` on. -/
def ResetsRegister (u : SourceUnit) (t : TypeName) (n : Nat) (r : String) (is : List Instr) : Prop :=
  ∀ (vm : Vm) (ls : Locals), 0 < vm.state.memory.size →
    vm.state.memory.size + zeroCells u (u.typeBound t) t ≤ memoryLimit → vm.steps + is.length ≤ vm.maxSteps →
    ∃ m ls' p, Runs is vm ls (vm.withMemory m is.length) ls' ∧
      (∀ c < vm.state.memory.size, m[c]? = vm.state.memory[c]?) ∧
      ZeroAt u m (u.typeBound t) t p vm.state.memory.size ∧ ls'.read (.reg r) = .ok p ∧
      Agree (fun x => ¬ FreshFrom n x ∧ x ≠ r) ls ls'

/-- The code `is` resets the memory cell at `a` to the zero object of type `t`. Run as above from
registers where `a` reads an allocated cell, it lays the object past the old end of memory,
stores it into the cell, keeps every other old cell, and changes no register but the
temporaries from `n` on. -/
def ResetsCell (u : SourceUnit) (t : TypeName) (n : Nat) (a : Value) (is : List Instr) : Prop :=
  ∀ (vm : Vm) (ls : Locals) (w : Nat), ls.read a = .ok w → 0 < w → w < vm.state.memory.size →
    vm.state.memory.size + zeroCells u (u.typeBound t) t ≤ memoryLimit → vm.steps + is.length ≤ vm.maxSteps →
    ∃ m ls' p, Runs is vm ls (vm.withMemory m is.length) ls' ∧ m[w]? = some p ∧
      (∀ c < vm.state.memory.size, c ≠ w → m[c]? = vm.state.memory[c]?) ∧
      ZeroAt u m (u.typeBound t) t p vm.state.memory.size ∧
      Agree (fun x => ¬ FreshFrom n x) ls ls'

/-- The code `is` stores zero into the slot `sl` reads and changes nothing else. -/
def ResetsSlot (sl : Value) (is : List Instr) : Prop :=
  ∀ (vm : Vm) (ls : Locals) (d : Int), ls.read sl = .ok d → vm.steps + is.length ≤ vm.maxSteps →
    Runs is vm ls { vm with state := vm.state.sstore d 0, steps := vm.steps + is.length } ls

/-- The copy of the null memory pointer over the storage object of type `ir` at the slot `sl`
reads clears the object whenever it can be read, at a depth below the machine's copy depth,
before the copy: the object then reads as the zero object, only slots of its layout change, all
of them to zero, memory stays, and in a separated layout every slot the object held is zero. -/
def ClearsObject (sl : Value) (ir : Ty) : Prop :=
  ∀ (vm : Vm) (ls : Locals) (d : Int) (k : Nat) (o : Obj), ls.read sl = .ok d → k + 1 < copyDepth →
    readStorage vm.contract.types k vm.state d ir = .ok o → vm.steps < vm.maxSteps →
    ∃ st', Runs [.copyMemoryToStorage sl .zero ir] vm ls { vm with state := st', steps := vm.steps + 1 } ls ∧
      (∃ z, zeroObj vm.contract.types (k + 1) ir = .ok z ∧ readStorage vm.contract.types k st' d ir = .ok z) ∧
      (∀ x, st'.sload x ≠ vm.state.sload x → Leaf vm.contract.types d ir x ∧ st'.sload x = 0) ∧
      st'.memory = vm.state.memory ∧
      (Separated vm.contract.types d ir → ∀ x, Live vm.contract.types vm.state d ir x → st'.sload x = 0)

theorem copy_null_clears (sl : Value) {ir : Ty} (hval : ir.isValueType = false) : ClearsObject sl ir := by
  intro vm ls d k o hd hk hread hs
  obtain ⟨st', hc, hz, hch, hmem, hsep⟩ := clear_readable (show k < copyDepth - 1 by omega) hread
  have hnull : copyMemoryToStorage vm.contract.types copyDepth vm.state d 0 ir = .ok st' := by
    rw [show copyDepth = copyDepth - 1 + 1 from rfl, copyMemoryToStorage_null hval]
    exact hc
  exact ⟨st', Runs.single (plain_copyMemoryToStorage _ _ _) hs (step_copyMemoryToStorage hd rfl hnull),
    hz, hch, hmem, hsep⟩

end Resets

section Places

variable {env : Env} {node : Nat} {s s' : GenState}

theorem default_then_appends {mk : Value → Instr} {t : TypeName} (ho : s.fn.builder.IsOpen)
    (h : (Gen.defaultValue t node >>= fun z => Gen.emitUnit (mk z)) env s = .ok ((), s')) :
    ∃ z is, s.Appends s' (is ++ [mk z]) ∧ Lays env.unit (env.unit.typeBound t) t s.fn.builder.nextTemp is z := by
  obtain ⟨z, s₁, hz, hst⟩ := Gen.bind_ok h
  obtain ⟨is, happ, -, hlays⟩ := defaultValue_lays t ho hz
  have hs' := Gen.emitUnit_ok (happ.2.isOpen ho) hst
  subst hs'
  exact ⟨z, is, happ.trans (GenState.Appends.withBuilder (FnBuilder.Appends.push _ _)), hlays⟩

theorem delete_register_resets {r : String} {t : TypeName} (ho : s.fn.builder.IsOpen)
    (h : Gen.delete (.register (.reg r) t) node env s = .ok ((), s')) :
    ∃ is, s.Appends s' is ∧ ResetsRegister env.unit t s.fn.builder.nextTemp r is := by
  rw [Gen.delete_register] at h
  obtain ⟨z, is, happ, hlays⟩ := default_then_appends ho h
  refine ⟨_, happ, fun vm ls hm hroom hsteps => ?_⟩
  simp only [List.length_append, List.length_cons, List.length_nil, Nat.zero_add] at hsteps ⊢
  obtain ⟨m, ls₁, p, hrun, -, hold, hzero, hread, hagree⟩ := hlays vm ls hm hroom (by omega)
  have hrun₂ : Runs [.assign (.reg r) z] (vm.withMemory m is.length) ls₁ (vm.withMemory m (is.length + 1))
      (ls₁.insert r p) := by
    have := @runs_assign (vm.withMemory m is.length) ls₁ r z p
      (by simp only [withMemory_steps, withMemory_maxSteps]; omega) hread
    rwa [withMemory_memory, withMemory_withMemory] at this
  refine ⟨m, ls₁.insert r p, p, hrun.append hrun₂, hold, hzero, by simp [read_reg], ?_⟩
  exact (hagree.mono fun _ hx => hx.1).trans (Agree.insert (fun hx => hx.2 rfl) p)

theorem delete_memory_resets {a : Value} {t : TypeName} (ho : s.fn.builder.IsOpen)
    (ha : Value.Below s.fn.builder.nextTemp a) (h : Gen.delete (.memory a t) node env s = .ok ((), s')) :
    ∃ is, s.Appends s' is ∧ ResetsCell env.unit t s.fn.builder.nextTemp a is := by
  rw [Gen.delete_memory] at h
  obtain ⟨z, is, happ, hlays⟩ := default_then_appends ho h
  refine ⟨_, happ, fun vm ls w hw hw₀ hws hroom hsteps => ?_⟩
  simp only [List.length_append, List.length_cons, List.length_nil, Nat.zero_add] at hsteps ⊢
  obtain ⟨m, ls₁, p, hrun, hsize, hold, hzero, hread, hagree⟩ := hlays vm ls (by omega) hroom (by omega)
  -- the cell is old, so the store misses the object laid past the old end
  have hrun₂ : Runs [.memoryStore a z] (vm.withMemory m is.length) ls₁
      (vm.withMemory (m.set! w p) (is.length + 1)) ls₁ := by
    have := @runs_memoryStore (vm.withMemory m is.length) ls₁ a z w p
      (by simp only [withMemory_steps, withMemory_maxSteps]; omega) (hagree.read_below ha hw) hread hw₀
      (by simp only [withMemory_memory]; omega)
    rwa [withMemory_memory, withMemory_withMemory] at this
  refine ⟨m.set! w p, ls₁, p, hrun.append hrun₂, getElem?_stored_self (by omega),
    fun c hc hcw => by rw [getElem?_stored_other hcw, hold c hc], ?_, hagree⟩
  exact hzero.congr fun j hj _ => getElem?_stored_other (by omega)

theorem delete_storageValue_resets {sl : Value} {t : TypeName} (ho : s.fn.builder.IsOpen)
    (ht : t.isReference = false) (h : Gen.delete (.storage sl t) node env s = .ok ((), s')) :
    ∃ is, s.Appends s' is ∧ ResetsSlot sl is := by
  have hm : ∀ k v, t ≠ .mapping k v := by
    rintro k v rfl
    simp [TypeName.isReference] at ht
  rw [Gen.delete_storage sl hm, ht] at h
  simp only [Bool.false_eq_true, if_false] at h
  obtain ⟨z, s₁, hz, hst⟩ := Gen.bind_ok h
  obtain ⟨k, hk⟩ : ∃ k, env.unit.typeBound t = k + 1 :=
    ⟨_, (Nat.succ_pred_eq_of_pos (Gen.one_le_typeBound env.unit t)).symm⟩
  obtain ⟨c, hc, hdv⟩ := defaultValueWith_outside (TypeName.not_inMemory ht) k node
  unfold Gen.defaultValue at hz
  rw [Gen.bind_run_ok (Gen.unit_run env s), hk, hdv] at hz
  obtain ⟨rfl, rfl⟩ := Gen.pure_ok hz
  have hs' := Gen.emitUnit_ok ho hst
  subst hs'
  refine ⟨_, GenState.Appends.withBuilder (FnBuilder.Appends.push _ _), fun vm ls d hd hsteps => ?_⟩
  have hrun := @runs_storageStore vm ls sl (.const c) d c.toInt
    (by simp only [List.length_cons, List.length_nil] at hsteps; omega) hd (read_const ls c)
  rw [hc] at hrun
  exact hrun

theorem delete_storageReference_copies {sl : Value} {t : TypeName} (ho : s.fn.builder.IsOpen)
    (ht : t.isReference = true) (hm : ∀ k v, t ≠ .mapping k v)
    (h : Gen.delete (.storage sl t) node env s = .ok ((), s')) :
    ∃ ir, (∃ s₁, Gen.irType t node env s = .ok (ir, s₁)) ∧ ir.isValueType = false ∧
      s.Appends s' [.copyMemoryToStorage sl .zero ir] := by
  rw [Gen.delete_storage sl hm, if_pos ht] at h
  obtain ⟨ir, s₁, hir, hst⟩ := Gen.bind_ok h
  obtain ⟨hval, hfn⟩ := Gen.irType_reference ht hm hir
  have hs' := Gen.emitUnit_ok (by rw [hfn]; exact ho) hst
  subst hs'
  exact ⟨ir, ⟨s₁, hir⟩, hval,
    GenState.Appends.of_fn hfn (GenState.Appends.withBuilder (FnBuilder.Appends.push _ _))⟩

theorem delete_mapping_fails (sl : Value) (kt vt : TypeName) :
    Gen.delete (.storage sl (.mapping kt vt)) node env s =
      .error (.unsupportedFeature node "delete of a whole mapping") := rfl

end Places

theorem delete_resets_to_zero (env : Env) (node : Nat) (s : GenState) (ho : s.fn.builder.IsOpen) :
    (∀ t v s', Gen.defaultValue t node env s = .ok (v, s') →
      ∃ is, s.Appends s' is ∧ Lays env.unit (env.unit.typeBound t) t s.fn.builder.nextTemp is v) ∧
    (∀ r t s', Gen.delete (.register (.reg r) t) node env s = .ok ((), s') →
      ∃ is, s.Appends s' is ∧ ResetsRegister env.unit t s.fn.builder.nextTemp r is) ∧
    (∀ a t s', Value.Below s.fn.builder.nextTemp a → Gen.delete (.memory a t) node env s = .ok ((), s') →
      ∃ is, s.Appends s' is ∧ ResetsCell env.unit t s.fn.builder.nextTemp a is) ∧
    (∀ sl t s', t.isReference = false → Gen.delete (.storage sl t) node env s = .ok ((), s') →
      ∃ is, s.Appends s' is ∧ ResetsSlot sl is) ∧
    (∀ sl t s', t.isReference = true → (∀ k v, t ≠ .mapping k v) →
      Gen.delete (.storage sl t) node env s = .ok ((), s') →
      ∃ ir, (∃ s₁, Gen.irType t node env s = .ok (ir, s₁)) ∧
        s.Appends s' [.copyMemoryToStorage sl .zero ir] ∧ ClearsObject sl ir) ∧
    (∀ sl kt vt, Gen.delete (.storage sl (.mapping kt vt)) node env s =
      .error (.unsupportedFeature node "delete of a whole mapping")) := by
  refine ⟨fun t v s' h => ?_, fun r t s' h => delete_register_resets ho h,
    fun a t s' ha h => delete_memory_resets ho ha h, fun sl t s' ht h => delete_storageValue_resets ho ht h,
    fun sl t s' ht hm h => ?_, fun sl kt vt => delete_mapping_fails sl kt vt⟩
  · obtain ⟨is, happ, -, hlays⟩ := defaultValue_lays t ho h
    exact ⟨is, happ, hlays⟩
  · obtain ⟨ir, hir, hval, happ⟩ := delete_storageReference_copies ho ht hm h
    exact ⟨ir, hir, happ, copy_null_clears sl hval⟩

theorem delete_resets_in_new_function :
    (FnState.new "f" 0).builder.IsOpen ∧
      ∀ t v s', Gen.defaultValue t 0 default ({ fn := FnState.new "f" 0 } : GenState) = .ok (v, s') →
        ∃ is, GenState.Appends { fn := FnState.new "f" 0 } s' is ∧
          Lays (default : Env).unit ((default : Env).unit.typeBound t) t 0 is v :=
  ⟨⟨_, rfl, rfl⟩, (delete_resets_to_zero default 0 { fn := FnState.new "f" 0 } ⟨_, rfl, rfl⟩).1⟩

theorem delete_overlong_array_faults :
    Gen.delete (.storage (.ofInt 0) (.array (.uint 256) none .storage)) 0 default
        ({ fn := FnState.new "f" 0 } : GenState) =
      .ok ((), ({ fn := FnState.new "f" 0 } : GenState).withBuilder
        ((FnState.new "f" 0).builder.push (.copyMemoryToStorage (.ofInt 0) .zero (.array (.uint 256) none)))) ∧
    step { (default : Vm) with state := (default : State).sstore 0 1048577 } {}
        (.copyMemoryToStorage (.ofInt 0) .zero (.array (.uint 256) none)) =
      .error (.runtime "array length 1048577 too large to copy") := by
  have hir : Gen.irType (.array (.uint 256) none .storage) 0 default ({ fn := FnState.new "f" 0 } : GenState) =
      .ok (.array (.uint 256) none, { fn := FnState.new "f" 0 }) := by
    unfold Gen.irType
    rw [Gen.bind_run_ok (Gen.unit_run _ _), Gen.irTypeWith, Gen.bind_run_ok (by rw [Gen.irTypeWith]; rfl)]
    rfl
  refine ⟨?_, step_copyMemoryToStorage_fault (show Locals.read {} (.ofInt 0) = .ok 0 from rfl)
    (show Locals.read {} .zero = .ok 0 from rfl) ?_⟩
  · rw [Gen.delete_storage _ (fun _ _ h => by cases h), if_pos (show TypeName.isReference _ = true from rfl),
      Gen.bind_run_ok hir, Gen.emitUnit_run _ ⟨_, rfl, rfl⟩]
  · -- the copy from the null pointer is a clear, which refuses the length before touching a slot
    rw [show copyDepth = copyDepth - 1 + 1 from rfl, copyMemoryToStorage_null rfl]
    rfl

end ContractCfg.Lower
