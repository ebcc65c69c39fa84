import ContractCfg.Machine.Exec

namespace ContractCfg.Machine.Vm

open ContractCfg.IR

/-- Running block `id` of `f` from its instruction `k` on: the rest of its instructions, one
step for the terminator, and the blocks control passes to. -/
def resume (name : String) (f : Function) (vm : Vm) (ls : Locals) (id k : Nat) (fuel : Nat) :
    Except Fault (Outcome × Vm) :=
  match f.body.blocks.get? id with
  | none => .error (.missingBlock id)
  | some blk =>
    match runInstrs (blk.instrs.toList.drop k) vm ls fuel with
    | .error e => .error e
    | .ok (.done o vm) => .ok (o, vm)
    | .ok (.next vm ls) =>
      match vm.tick with
      | .error e => .error e
      | .ok vm =>
        match blk.term with
        | .jump t => runBlock name f vm ls t fuel
        | .branch c t e =>
          match ls.read c with
          | .error err => .error err
          | .ok v => runBlock name f vm ls (if v == 0 then e else t) fuel
        | .ret vs =>
          match ls.readAll vs with
          | .error err => .error err
          | .ok xs => .ok (.ret xs, vm)
        | .revert s =>
          match ls.read s with
          | .error err => .error err
          | .ok x => .ok (.revert x, vm)
        | .abort => .ok (.abort, vm)
        | .invalid => .error (.runtime (blockName id ++ " in " ++ name ++ " is not terminated"))

theorem runBlock_succ (name : String) (f : Function) (vm : Vm) (ls : Locals) (id fuel : Nat) :
    runBlock name f vm ls id (fuel + 1) = resume name f vm ls id 0 fuel := by
  rw [runBlock]
  rfl

/-- An instruction that does not call another function. -/
def Plain (i : Instr) : Prop := ∀ rs g as, i ≠ .call rs g as

theorem runInstrs_cons_plain {i : Instr} {is : List Instr} {vm vm₁ vm₂ : Vm} {ls ls₂ : Locals}
    {fuel : Nat} (hi : Plain i) (ht : vm.tick = .ok vm₁) (hs : step vm₁ ls i = .ok (vm₂, ls₂)) :
    runInstrs (i :: is) vm ls fuel = runInstrs is vm₂ ls₂ fuel := by
  rw [runInstrs]
  simp only [ht]
  cases i <;> first | (exfalso; exact hi _ _ _ rfl) | simp [hs]

theorem runInstrs_cons_fault {i : Instr} {is : List Instr} {vm vm₁ : Vm} {ls : Locals}
    {fuel : Nat} {e : Fault} (hi : Plain i) (ht : vm.tick = .ok vm₁) (hs : step vm₁ ls i = .error e) :
    runInstrs (i :: is) vm ls fuel = .error e := by
  rw [runInstrs]
  simp only [ht]
  cases i <;> first | (exfalso; exact hi _ _ _ rfl) | simp [hs]

section Points

variable {name : String} {f : Function} {vm vm₁ vm₂ : Vm} {ls ls₂ : Locals} {id k fuel : Nat}
  {blk : Block}

theorem resume_plain (hb : f.body.blocks.get? id = some blk) {i : Instr}
    (hk : blk.instrs.toList[k]? = some i) (hi : Plain i) (ht : vm.tick = .ok vm₁)
    (hs : step vm₁ ls i = .ok (vm₂, ls₂)) :
    resume name f vm ls id k fuel = resume name f vm₂ ls₂ id (k + 1) fuel := by
  have hlt : k < blk.instrs.toList.length := (List.getElem?_eq_some_iff.mp hk).1
  have hdrop : blk.instrs.toList.drop k = i :: blk.instrs.toList.drop (k + 1) := by
    rw [List.drop_eq_getElem_cons hlt]
    rw [(List.getElem?_eq_some_iff.mp hk).2]
  unfold resume
  simp only [hb, hdrop]
  rw [runInstrs_cons_plain hi ht hs]

theorem resume_fault (hb : f.body.blocks.get? id = some blk) {i : Instr}
    (hk : blk.instrs.toList[k]? = some i) (hi : Plain i) (ht : vm.tick = .ok vm₁) {e : Fault}
    (hs : step vm₁ ls i = .error e) :
    resume name f vm ls id k fuel = .error e := by
  have hlt : k < blk.instrs.toList.length := (List.getElem?_eq_some_iff.mp hk).1
  have hdrop : blk.instrs.toList.drop k = i :: blk.instrs.toList.drop (k + 1) := by
    rw [List.drop_eq_getElem_cons hlt]
    rw [(List.getElem?_eq_some_iff.mp hk).2]
  unfold resume
  simp only [hb, hdrop]
  rw [runInstrs_cons_fault hi ht hs]

theorem resume_end (hb : f.body.blocks.get? id = some blk) (hk : blk.instrs.toList.length ≤ k)
    (ht : vm.tick = .ok vm₁) :
    resume name f vm ls id k fuel =
      match blk.term with
      | .jump t => runBlock name f vm₁ ls t fuel
      | .branch c t e =>
        match ls.read c with
        | .error err => .error err
        | .ok v => runBlock name f vm₁ ls (if v == 0 then e else t) fuel
      | .ret vs =>
        match ls.readAll vs with
        | .error err => .error err
        | .ok xs => .ok (.ret xs, vm₁)
      | .revert s =>
        match ls.read s with
        | .error err => .error err
        | .ok x => .ok (.revert x, vm₁)
      | .abort => .ok (.abort, vm₁)
      | .invalid => .error (.runtime (blockName id ++ " in " ++ name ++ " is not terminated")) := by
  have hdrop : blk.instrs.toList.drop k = [] := List.drop_eq_nil_of_le hk
  unfold resume
  simp only [hb, hdrop]
  rw [runInstrs]
  simp only [ht]

theorem resume_jump (hb : f.body.blocks.get? id = some blk) (hk : blk.instrs.toList.length ≤ k)
    (ht : vm.tick = .ok vm₁) {t : Nat} (hterm : blk.term = .jump t) :
    resume name f vm ls id k (fuel + 1) = resume name f vm₁ ls t 0 fuel := by
  rw [resume_end hb hk ht]
  simp only [hterm, runBlock_succ]

theorem resume_branch (hb : f.body.blocks.get? id = some blk) (hk : blk.instrs.toList.length ≤ k)
    (ht : vm.tick = .ok vm₁) {c : Value} {t e : Nat} (hterm : blk.term = .branch c t e) {v : Int}
    (hc : ls.read c = .ok v) :
    resume name f vm ls id k (fuel + 1) = resume name f vm₁ ls (if v = 0 then e else t) 0 fuel := by
  rw [resume_end hb hk ht]
  simp only [hterm, hc, runBlock_succ, beq_iff_eq]

theorem resume_abort (hb : f.body.blocks.get? id = some blk) (hk : blk.instrs.toList.length ≤ k)
    (ht : vm.tick = .ok vm₁) (hterm : blk.term = .abort) :
    resume name f vm ls id k fuel = .ok (.abort, vm₁) := by
  rw [resume_end hb hk ht]
  simp only [hterm]

theorem resume_revert (hb : f.body.blocks.get? id = some blk) (hk : blk.instrs.toList.length ≤ k)
    (ht : vm.tick = .ok vm₁) {s : Value} (hterm : blk.term = .revert s) {x : Int}
    (hr : ls.read s = .ok x) :
    resume name f vm ls id k fuel = .ok (.revert x, vm₁) := by
  rw [resume_end hb hk ht]
  simp only [hterm, hr]

end Points

theorem tick_ok (vm : Vm) (h : vm.steps < vm.maxSteps) :
    vm.tick = .ok { vm with steps := vm.steps + 1 } := by
  unfold tick
  rw [if_neg (by omega)]

@[simp] theorem read_const (ls : Locals) (c : Constant) : ls.read (.const c) = .ok c.toInt := rfl

theorem read_reg (ls : Locals) (n : String) : ls.read (.reg n) = match ls.get? n with
    | some v => .ok v
    | none => .error (.undefinedLocal n) := rfl

theorem read_reg_of_get? {ls : Locals} {n : String} {v : Int} (h : ls.get? n = some v) :
    ls.read (.reg n) = .ok v := by
  rw [read_reg, h]

@[simp] theorem write_reg (ls : Locals) (n : String) (v : Int) :
    ls.write (.reg n) v = .ok (ls.insert n v) := rfl

section Steps

variable {vm : Vm} {ls : Locals} {r : String}

theorem step_assign {v : Value} {a : Int} (h : ls.read v = .ok a) :
    step vm ls (.assign (.reg r) v) = .ok (vm, ls.insert r a) := by
  simp [step, h, bind, Except.bind]
  rfl

theorem step_binary {op : BinOp} {l r' : Value} {x y z : Int} (hl : ls.read l = .ok x)
    (hr : ls.read r' = .ok y) (hz : binary op x y = .ok z) :
    step vm ls (.binary (.reg r) op l r') = .ok (vm, ls.insert r z) := by
  simp [step, hl, hr, hz, bind, Except.bind]
  rfl

theorem step_unary {op : UnOp} {a : Value} {x : Int} (ha : ls.read a = .ok x) :
    step vm ls (.unary (.reg r) op a) = .ok (vm, ls.insert r (unary op x)) := by
  simp [step, ha, bind, Except.bind]
  rfl

theorem step_truncate {a : Value} {x : Int} {bits : Nat} (ha : ls.read a = .ok x) :
    step vm ls (.truncate (.reg r) a bits) = .ok (vm, ls.insert r (Word.truncate x bits)) := by
  simp [step, ha, bind, Except.bind]
  rfl

theorem step_signExtend {a : Value} {x : Int} {bits : Nat} (ha : ls.read a = .ok x) :
    step vm ls (.signExtend (.reg r) a bits) = .ok (vm, ls.insert r (Word.signExtend x bits)) := by
  simp [step, ha, bind, Except.bind]
  rfl

end Steps

section Runs

variable (name : String) (f : Function)

/-- From instruction `i` of block `k`, with machine `vm` and registers `ls`, the run of `f`
arrives at instruction `i'` of block `k'` with `vm'` and `ls'`: given fuel beyond the steps
still allowed, it goes on as from there, with fuel still beyond the steps allowed then. -/
def Reaches (vm : Vm) (ls : Locals) (k i : Nat) (vm' : Vm) (ls' : Locals) (k' i' : Nat) : Prop :=
  ∀ fuel, vm.maxSteps - vm.steps < fuel → ∃ fuel', vm'.maxSteps - vm'.steps < fuel' ∧
    resume name f vm ls k i fuel = resume name f vm' ls' k' i' fuel'

/-- Every run of `f` from instruction `i` of block `k`, given fuel beyond the steps still
allowed, ends with a result satisfying `P`. -/
def Ends (vm : Vm) (ls : Locals) (k i : Nat) (P : Except Fault (Outcome × Vm) → Prop) : Prop :=
  ∀ fuel, vm.maxSteps - vm.steps < fuel → P (resume name f vm ls k i fuel)

variable {name f} {vm vm₁ vm₂ : Vm} {ls ls₁ ls₂ : Locals} {k i k₁ i₁ k₂ i₂ : Nat}

theorem Reaches.refl (vm : Vm) (ls : Locals) (k i : Nat) : Reaches name f vm ls k i vm ls k i :=
  fun fuel h => ⟨fuel, h, rfl⟩

theorem Reaches.trans (h₁ : Reaches name f vm ls k i vm₁ ls₁ k₁ i₁)
    (h₂ : Reaches name f vm₁ ls₁ k₁ i₁ vm₂ ls₂ k₂ i₂) : Reaches name f vm ls k i vm₂ ls₂ k₂ i₂ := by
  intro fuel hf
  obtain ⟨fuel₁, hf₁, he₁⟩ := h₁ fuel hf
  obtain ⟨fuel₂, hf₂, he₂⟩ := h₂ fuel₁ hf₁
  exact ⟨fuel₂, hf₂, he₁.trans he₂⟩

theorem Reaches.ends {P : Except Fault (Outcome × Vm) → Prop} (h₁ : Reaches name f vm ls k i vm₁ ls₁ k₁ i₁)
    (h₂ : Ends name f vm₁ ls₁ k₁ i₁ P) : Ends name f vm ls k i P := by
  intro fuel hf
  obtain ⟨fuel₁, hf₁, he₁⟩ := h₁ fuel hf
  rw [he₁]
  exact h₂ fuel₁ hf₁

theorem Ends.mono {P Q : Except Fault (Outcome × Vm) → Prop} (h : Ends name f vm ls k i P)
    (hPQ : ∀ r, P r → Q r) : Ends name f vm ls k i Q :=
  fun fuel hf => hPQ _ (h fuel hf)

theorem Reaches.plain {blk : Block} (hb : f.body.blocks.get? k = some blk) {ins : Instr}
    (hk : blk.instrs.toList[i]? = some ins) (hi : Plain ins) (hs : vm.steps < vm.maxSteps)
    (hstep : step { vm with steps := vm.steps + 1 } ls ins = .ok ({ vm with steps := vm.steps + 1 }, ls₂)) :
    Reaches name f vm ls k i { vm with steps := vm.steps + 1 } ls₂ k (i + 1) := by
  intro fuel hf
  refine ⟨fuel, by simp only; omega, ?_⟩
  exact resume_plain hb hk hi (tick_ok vm hs) hstep

theorem Reaches.jump {blk : Block} (hb : f.body.blocks.get? k = some blk)
    (hk : blk.instrs.toList.length ≤ i) {t : Nat} (hterm : blk.term = .jump t)
    (hs : vm.steps < vm.maxSteps) : Reaches name f vm ls k i { vm with steps := vm.steps + 1 } ls t 0 := by
  intro fuel hf
  obtain ⟨fuel', rfl⟩ : ∃ fuel', fuel = fuel' + 1 := ⟨fuel - 1, by omega⟩
  refine ⟨fuel', by simp only; omega, ?_⟩
  exact resume_jump hb hk (tick_ok vm hs) hterm

theorem Reaches.branch {blk : Block} (hb : f.body.blocks.get? k = some blk)
    (hk : blk.instrs.toList.length ≤ i) {c : Value} {t e : Nat} (hterm : blk.term = .branch c t e)
    {v : Int} (hc : ls.read c = .ok v) (hs : vm.steps < vm.maxSteps) :
    Reaches name f vm ls k i { vm with steps := vm.steps + 1 } ls (if v = 0 then e else t) 0 := by
  intro fuel hf
  obtain ⟨fuel', rfl⟩ : ∃ fuel', fuel = fuel' + 1 := ⟨fuel - 1, by omega⟩
  refine ⟨fuel', by simp only; omega, ?_⟩
  exact resume_branch hb hk (tick_ok vm hs) hterm hc

theorem Ends.fault {blk : Block} (hb : f.body.blocks.get? k = some blk) {ins : Instr}
    (hk : blk.instrs.toList[i]? = some ins) (hi : Plain ins) (hs : vm.steps < vm.maxSteps) {e : Fault}
    (hstep : step { vm with steps := vm.steps + 1 } ls ins = .error e) :
    Ends name f vm ls k i (· = .error e) :=
  fun _ _ => resume_fault hb hk hi (tick_ok vm hs) hstep

theorem Ends.abort {blk : Block} (hb : f.body.blocks.get? k = some blk)
    (hk : blk.instrs.toList.length ≤ i) (hterm : blk.term = .abort) (hs : vm.steps < vm.maxSteps) :
    Ends name f vm ls k i (· = .ok (.abort, { vm with steps := vm.steps + 1 })) :=
  fun _ _ => resume_abort hb hk (tick_ok vm hs) hterm

end Runs

end ContractCfg.Machine.Vm
