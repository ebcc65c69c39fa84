import Mathlib.Logic.Relation
import ContractCfg.Proofs.Machine.Resume

/-!
Top-level calls are atomic, and a call that does not return ends every caller at once. A point
of a run names the function, the block, the instruction and the machine; one step from a point
runs an instruction, takes a terminator's jump, or enters the callee of a call instruction, so a
chain of steps may go down any number of calls. When the run from a point ends otherwise than
by returning (a revert, an abort or a fault), every point that comes to it ends the same way,
with the same machine: a caller whose callee does not return runs no instruction and no
terminator after the call. At the top, a call that does not return puts storage and the
environment back, and no call sees the memory or the step count of the one before it.
-/

namespace ContractCfg.Machine.Vm

open ContractCfg.IR

/-- A point of a run: function `name` with body `f`, at instruction `pos` of block `block`,
with machine `vm`, registers `ls` and `fuel` left. -/
structure Point where
  name : String
  f : Function
  vm : Vm
  ls : Locals
  block : Nat
  pos : Nat
  fuel : Nat

/-- The point where a run of `f` as `name` on `args` starts: its entry block, with each
parameter bound to its argument. -/
def Point.entry (vm : Vm) (name : String) (f : Function) (args : List Int) (fuel : Nat) : Point :=
  ⟨name, f, vm, (f.sig.params.zip args).foldl (fun ls (p, v) => ls.insert p.name v) {}, f.body.entry, 0, fuel⟩

/-- How the run from a point ends. -/
def Point.result (p : Point) : Except Fault (Outcome × Vm) :=
  resume p.name p.f p.vm p.ls p.block p.pos p.fuel

/-- A result that ends every caller: a fault, or an outcome other than a return. -/
def Stops : Except Fault (Outcome × Vm) → Prop
  | .ok (.ret _, _) => False
  | _ => True

/-- One step of a run. A call instruction either returns, and the caller goes on after it, or
is entered, and the run goes on in the callee. -/
inductive Point.Step : Point → Point → Prop
  | plain {p : Point} {blk : Block} {i : Instr} {vm₁ vm₂ : Vm} {ls₂ : Locals} :
      p.f.body.blocks.get? p.block = some blk → blk.instrs.toList[p.pos]? = some i → Plain i →
      p.vm.tick = .ok vm₁ → step vm₁ p.ls i = .ok (vm₂, ls₂) →
      Step p { p with vm := vm₂, ls := ls₂, pos := p.pos + 1 }
  | returned {p : Point} {blk : Block} {rs : List Value} {g : String} {as : List Value} {vm₁ vm₂ : Vm}
      {xs vs : List Int} {ls₂ : Locals} :
      p.f.body.blocks.get? p.block = some blk → blk.instrs.toList[p.pos]? = some (.call rs g as) →
      p.vm.tick = .ok vm₁ → p.ls.readAll as = .ok xs → run vm₁ g xs p.fuel = .ok (.ret vs, vm₂) →
      storeResults p.ls g rs vs = .ok ls₂ → Step p { p with vm := vm₂, ls := ls₂, pos := p.pos + 1 }
  | enter {p : Point} {blk : Block} {rs : List Value} {g : String} {as : List Value} {vm₁ : Vm}
      {xs : List Int} {f' : Function} {fuel : Nat} :
      p.f.body.blocks.get? p.block = some blk → blk.instrs.toList[p.pos]? = some (.call rs g as) →
      p.vm.tick = .ok vm₁ → p.ls.readAll as = .ok xs → vm₁.contract.function? g = some f' →
      f'.sig.params.length = xs.length → p.fuel = fuel + 2 → Step p (Point.entry vm₁ g f' xs fuel)
  | jump {p : Point} {blk : Block} {vm₁ : Vm} {t fuel : Nat} :
      p.f.body.blocks.get? p.block = some blk → blk.instrs.toList.length ≤ p.pos → p.vm.tick = .ok vm₁ →
      blk.term = .jump t → p.fuel = fuel + 1 → Step p { p with vm := vm₁, block := t, pos := 0, fuel := fuel }
  | branch {p : Point} {blk : Block} {vm₁ : Vm} {c : Value} {t e : Nat} {v : Int} {fuel : Nat} :
      p.f.body.blocks.get? p.block = some blk → blk.instrs.toList.length ≤ p.pos → p.vm.tick = .ok vm₁ →
      blk.term = .branch c t e → p.ls.read c = .ok v → p.fuel = fuel + 1 →
      Step p { p with vm := vm₁, block := if v = 0 then e else t, pos := 0, fuel := fuel }

/-- The points a run comes to, in its own function or in the functions it calls. -/
def Point.Passes : Point → Point → Prop := Relation.ReflTransGen Point.Step

theorem run_enter {vm : Vm} {name : String} {f : Function} {args : List Int} (fuel : Nat)
    (hf : vm.contract.function? name = some f) (hlen : f.sig.params.length = args.length) :
    run vm name args (fuel + 2) = (Point.entry vm name f args fuel).result := by
  rw [run]
  simp only [hf, hlen, bne_self_eq_false, Bool.false_eq_true, if_false]
  exact runBlock_succ _ _ _ _ _ _

section Call

variable {name : String} {f : Function} {vm vm₁ : Vm} {ls : Locals} {k i fuel : Nat} {blk : Block}
  {rs as : List Value} {g : String} {xs : List Int}

theorem drop_of_getElem? {i : Nat} {ins : Instr} (hk : blk.instrs.toList[i]? = some ins) :
    blk.instrs.toList.drop i = ins :: blk.instrs.toList.drop (i + 1) := by
  rw [List.drop_eq_getElem_cons (List.getElem?_eq_some_iff.mp hk).1, (List.getElem?_eq_some_iff.mp hk).2]

theorem resume_call_ret (hb : f.body.blocks.get? k = some blk)
    (hk : blk.instrs.toList[i]? = some (.call rs g as)) (ht : vm.tick = .ok vm₁)
    (ha : ls.readAll as = .ok xs) {vs : List Int} {vm₂ : Vm} (hr : run vm₁ g xs fuel = .ok (.ret vs, vm₂))
    {ls₂ : Locals} (hs : storeResults ls g rs vs = .ok ls₂) :
    resume name f vm ls k i fuel = resume name f vm₂ ls₂ k (i + 1) fuel := by
  unfold resume
  simp only [hb, drop_of_getElem? hk]
  rw [runInstrs]
  simp only [ht, ha, hr, hs]

theorem resume_call_stops (hb : f.body.blocks.get? k = some blk)
    (hk : blk.instrs.toList[i]? = some (.call rs g as)) (ht : vm.tick = .ok vm₁)
    (ha : ls.readAll as = .ok xs) {r : Except Fault (Outcome × Vm)} (hr : run vm₁ g xs fuel = r)
    (hstop : Stops r) : resume name f vm ls k i fuel = r := by
  unfold resume
  simp only [hb, drop_of_getElem? hk]
  rw [runInstrs]
  simp only [ht, ha, hr]
  -- the three shapes of a stopping result
  rcases r with e | ⟨_ | s | _, vm₂⟩
  · rfl
  · exact hstop.elim
  · rfl
  · rfl

end Call

theorem Point.Step.result_eq {p q : Point} (h : Point.Step p q) {r : Except Fault (Outcome × Vm)}
    (hq : q.result = r) (hstop : Stops r) : p.result = r := by
  cases h with
  | plain hb hk hi ht hs => exact (resume_plain hb hk hi ht hs).trans hq
  | returned hb hk ht ha hr hs => exact (resume_call_ret hb hk ht ha hr hs).trans hq
  | enter hb hk ht ha hf hlen hfuel =>
    rw [← hq] at hstop ⊢
    refine resume_call_stops hb hk ht ha ?_ hstop
    rw [hfuel, run_enter _ hf hlen]
  | jump hb hk ht hterm hfuel =>
    rw [Point.result, hfuel, resume_jump hb hk ht hterm]
    exact hq
  | branch hb hk ht hterm hc hfuel =>
    rw [Point.result, hfuel, resume_branch hb hk ht hterm hc]
    exact hq

theorem Point.Passes.result_eq {p q : Point} (h : p.Passes q) {r : Except Fault (Outcome × Vm)}
    (hq : q.result = r) (hstop : Stops r) : p.result = r := by
  induction h using Relation.ReflTransGen.head_induction_on with
  | refl => exact hq
  | head hstep _ ih => exact hstep.result_eq ih hstop

/-- The machine a top-level call runs on: empty memory and no steps taken. -/
def fresh (vm : Vm) : Vm := { vm with state := vm.state.clearMemory, steps := 0 }

/-- The machine `vm'` with the storage and the environment of `vm` put back. -/
def rollback (vm vm' : Vm) : Vm := { vm' with state := { vm'.state with storage := vm.state.storage }, env := vm.env }

theorem call_rollback (vm : Vm) (name : String) (args : List Int) :
    (∃ vs, (vm.call name args).1 = .ok (.ret vs)) ∨
      ((vm.call name args).2.state.storage = vm.state.storage ∧ (vm.call name args).2.env = vm.env) := by
  unfold call
  dsimp only
  split
  · exact .inl ⟨_, rfl⟩
  · exact .inr ⟨rfl, rfl⟩
  · exact .inr ⟨rfl, rfl⟩

theorem call_eq {vm : Vm} {name : String} {f : Function} {args : List Int}
    (hf : vm.contract.function? name = some f) (hlen : f.sig.params.length = args.length) :
    vm.call name args = match (Point.entry (fresh vm) name f args (2 * vm.maxSteps + 1)).result with
      | .ok (.ret vs, vm') => (.ok (.ret vs), vm')
      | .ok (o, vm') => (.ok o, vm.rollback vm')
      | .error e => (.error e, vm.rollback vm.fresh) := by
  unfold call
  rw [← @run_enter (fresh vm) name f args (2 * vm.maxSteps + 1) hf hlen]
  rfl

theorem call_fresh (vm : Vm) (name : String) (args : List Int) (m : Array Int) (n : Nat) :
    { vm with state := { vm.state with memory := m }, steps := n }.call name args = vm.call name args := rfl

/-- A top-level call is atomic and failures propagate unchanged. Unless it returns, it leaves
storage and environment as they were. When the run comes, at any depth of internal calls, to a
point whose run reverts or aborts, the call ends with that outcome and the machine that point
left (no instruction or terminator of any caller runs after it), storage and environment put
back; when it comes to a point whose run faults, the call fails with that fault. And the memory
and step count the call finds have no effect on it. -/
theorem call_atomic (vm : Vm) (name : String) (args : List Int) :
    ((∃ vs, (vm.call name args).1 = .ok (.ret vs)) ∨
      ((vm.call name args).2.state.storage = vm.state.storage ∧ (vm.call name args).2.env = vm.env)) ∧
    (∀ f q, vm.contract.function? name = some f → f.sig.params.length = args.length →
      (Point.entry (fresh vm) name f args (2 * vm.maxSteps + 1)).Passes q →
      (∀ o vm', q.result = .ok (o, vm') → o.isReturn = false →
        vm.call name args = (.ok o, vm.rollback vm')) ∧
      (∀ e, q.result = .error e → (vm.call name args).1 = .error e)) ∧
    (∀ m n, { vm with state := { vm.state with memory := m }, steps := n }.call name args = vm.call name args) := by
  refine ⟨call_rollback vm name args, fun f q hf hlen hpass => ⟨fun o vm' hq ho => ?_, fun e hq => ?_⟩,
    call_fresh vm name args⟩
  · -- a revert or an abort stops every caller, and the top level puts storage back
    cases o with
    | ret vs => cases ho
    | revert s | abort => rw [call_eq hf hlen, hpass.result_eq hq trivial]
  · rw [call_eq hf hlen, hpass.result_eq hq trivial]

end ContractCfg.Machine.Vm
