import ContractCfg.Proofs.Lower.Branches
import ContractCfg.Proofs.Machine.Atomic
import ContractCfg.Proofs.Machine.Layout

/-!
Stretches of code and where their runs get to. Lowering appends code from the point of one
builder (its current block, at the position after its last instruction) to the point of a later
one. Run from the first point in a final function that completes the later builder, that code
either gets to the second point or ends the whole call; which of the two happens, and with what
machine, registers and fuel, is the same in every such function (`Crosses`). Stretches compose,
each instruction appended is one, and so is a terminator that moves to the next point or leaves
for a block that ends the call. Calls are no exception: a call runs the callee on the contract,
whatever the caller's final function is.
-/

namespace ContractCfg.IR

/-- A terminator that leaves the function: a return, a revert or an abort. -/
def Terminator.Leaves (t : Terminator) : Prop :=
  t = .abort ∨ (∃ s, t = .revert s) ∨ ∃ vs, t = .ret vs

/-- A block that ends the call as soon as it is entered. -/
def Block.Leaves (blk : Block) : Prop := blk.instrs = #[] ∧ blk.term.Leaves

end ContractCfg.IR

namespace ContractCfg.Machine.Vm

open ContractCfg.IR

/-- Where a run of a stretch of code gets: to its end, with the machine, registers and fuel it
has there, or to a result of the whole call. -/
inductive Exit where
  | reach (vm : Vm) (ls : Locals) (fuel : Nat)
  | stop (r : Except Fault (Outcome × Vm))

namespace Exit

/-- The result of the call, the stretch ending at instruction `i` of block `k` of `f`. -/
def result (name : String) (f : Function) (k i : Nat) : Exit → Except Fault (Outcome × Vm)
  | .reach vm ls fuel => resume name f vm ls k i fuel
  | .stop r => r

/-- A run that got to the end goes on as `g` says; one that stopped stays stopped. -/
def bind : Exit → (Vm → Locals → Nat → Exit) → Exit
  | .reach vm ls fuel, g => g vm ls fuel
  | .stop r, _ => .stop r

/-- One instruction: its step counted, then the instruction. A call runs the callee with the
same fuel, and a callee that does not return ends the caller. -/
def instr (vm : Vm) (ls : Locals) (fuel : Nat) (i : Instr) : Exit :=
  match vm.tick with
  | .error e => .stop (.error e)
  | .ok vm₁ =>
    match i with
    | .call rs g as =>
      match ls.readAll as with
      | .error e => .stop (.error e)
      | .ok xs =>
        match run vm₁ g xs fuel with
        | .error e => .stop (.error e)
        | .ok (.ret vs, vm₂) =>
          match storeResults ls g rs vs with
          | .error e => .stop (.error e)
          | .ok ls₂ => .reach vm₂ ls₂ fuel
        | .ok (o, vm₂) => .stop (.ok (o, vm₂))
    | i =>
      match step vm₁ ls i with
      | .error e => .stop (.error e)
      | .ok (vm₂, ls₂) => .reach vm₂ ls₂ fuel

/-- Entering a block after the step of the terminator is counted: one unit of fuel. -/
def into (vm : Vm) (ls : Locals) : Nat → Exit
  | 0 => .stop (.error (.stepLimit vm.maxSteps))
  | fuel + 1 => .reach vm ls fuel

/-- A jump: the step of the terminator, then the block jumped to. -/
def enter (vm : Vm) (ls : Locals) (fuel : Nat) : Exit :=
  match vm.tick with
  | .error e => .stop (.error e)
  | .ok vm₁ => into vm₁ ls fuel

end Exit

section Resume

variable {name : String} {f : Function} {vm vm₁ : Vm} {ls : Locals} {k i fuel : Nat} {blk : Block}

theorem resume_instr (hb : f.body.blocks.get? k = some blk) {ins : Instr}
    (hk : blk.instrs.toList[i]? = some ins) :
    resume name f vm ls k i fuel = (Exit.instr vm ls fuel ins).result name f k (i + 1) := by
  rw [resume]
  simp only [hb, drop_of_getElem? hk]
  rw [runInstrs]
  unfold Exit.instr
  cases vm.tick with
  | error e => rfl
  | ok vm₁ =>
    cases ins
    case call rs g as =>
      simp only
      cases ls.readAll as with
      | error e => rfl
      | ok xs =>
        simp only
        rcases run vm₁ g xs fuel with e | ⟨_ | _ | _, vm₂⟩
        · rfl
        · simp only
          cases storeResults ls g rs _ with
          | error e => rfl
          | ok ls₂ => simp only [Exit.result, resume, hb]
        · rfl
        · rfl
    all_goals
      simp only
      rcases step vm₁ ls _ with e | ⟨vm₂, ls₂⟩
      · rfl
      · simp only [Exit.result, resume, hb]

theorem resume_end_error (hb : f.body.blocks.get? k = some blk) (hk : blk.instrs.toList.length ≤ i)
    {e : Fault} (ht : vm.tick = .error e) : resume name f vm ls k i fuel = .error e := by
  rw [resume]
  simp only [hb, List.drop_eq_nil_of_le hk]
  rw [runInstrs]
  simp only [ht]

theorem runBlock_into (vm : Vm) (ls : Locals) (t fuel : Nat) :
    runBlock name f vm ls t fuel = (Exit.into vm ls fuel).result name f t 0 := by
  cases fuel with
  | zero => rw [runBlock]; rfl
  | succ fuel => exact runBlock_succ _ _ _ _ _ _

theorem resume_jump_enter (hb : f.body.blocks.get? k = some blk) (hk : blk.instrs.toList.length ≤ i)
    {t : Nat} (hterm : blk.term = .jump t) :
    resume name f vm ls k i fuel = (Exit.enter vm ls fuel).result name f t 0 := by
  unfold Exit.enter
  cases ht : vm.tick with
  | error e => exact resume_end_error hb hk ht
  | ok vm₁ =>
    rw [resume_end hb hk ht]
    simp only [hterm]
    exact runBlock_into vm₁ ls t fuel

theorem resume_branch_enter (hb : f.body.blocks.get? k = some blk) (hk : blk.instrs.toList.length ≤ i)
    {c : Value} {t e : Nat} (hterm : blk.term = .branch c t e) (ht : vm.tick = .ok vm₁) {v : Int}
    (hc : ls.read c = .ok v) :
    resume name f vm ls k i fuel = (Exit.into vm₁ ls fuel).result name f (if v = 0 then e else t) 0 := by
  rw [resume_end hb hk ht]
  simp only [hterm, hc, beq_iff_eq]
  exact runBlock_into vm₁ ls _ fuel

theorem resume_branch_fault (hb : f.body.blocks.get? k = some blk) (hk : blk.instrs.toList.length ≤ i)
    {c : Value} {t e : Nat} (hterm : blk.term = .branch c t e) (ht : vm.tick = .ok vm₁) {err : Fault}
    (hc : ls.read c = .error err) : resume name f vm ls k i fuel = .error err := by
  rw [resume_end hb hk ht]
  simp only [hterm, hc]

theorem resume_leaves (hk : blk.instrs.toList.length ≤ i) (hl : blk.term.Leaves) :
    ∃ r, ∀ name f, f.body.blocks.get? k = some blk → resume name f vm ls k i fuel = r := by
  cases ht : vm.tick with
  | error e => exact ⟨.error e, fun _ _ hb => resume_end_error hb hk ht⟩
  | ok vm₁ =>
    -- one result per kind of leaving terminator
    rcases hl with hterm | ⟨s, hterm⟩ | ⟨vs, hterm⟩
    · exact ⟨.ok (.abort, vm₁), fun _ _ hb => by simp only [resume_end hb hk ht, hterm]⟩
    · cases hs : ls.read s with
      | error err => exact ⟨.error err, fun _ _ hb => by simp only [resume_end hb hk ht, hterm, hs]⟩
      | ok x => exact ⟨.ok (.revert x, vm₁), fun _ _ hb => by simp only [resume_end hb hk ht, hterm, hs]⟩
    · cases hs : ls.readAll vs with
      | error err => exact ⟨.error err, fun _ _ hb => by simp only [resume_end hb hk ht, hterm, hs]⟩
      | ok xs => exact ⟨.ok (.ret xs, vm₁), fun _ _ hb => by simp only [resume_end hb hk ht, hterm, hs]⟩

theorem into_leaves (hl : blk.Leaves) (ls : Locals) (fuel : Nat) :
    ∃ r, ∀ name f, f.body.blocks.get? k = some blk → (Exit.into vm ls fuel).result name f k 0 = r := by
  cases fuel with
  | zero => exact ⟨_, fun _ _ _ => rfl⟩
  | succ fuel =>
    have hk : blk.instrs.toList.length ≤ 0 := by simp [hl.1]
    obtain ⟨r, hr⟩ : ∃ r, ∀ name f, f.body.blocks.get? k = some blk →
        resume name f vm ls k 0 fuel = r := resume_leaves hk hl.2
    exact ⟨r, fun name f hb => hr name f hb⟩

end Resume

end ContractCfg.Machine.Vm

namespace ContractCfg.Lower

open ContractCfg.IR ContractCfg.IR.FnBuilder ContractCfg.Machine ContractCfg.Machine.Vm

section Frame

variable {vm vm' : Vm} {ls ls' : Locals}

theorem write_agree {r : Value} {z : Int} (h : ls.write r z = .ok ls') :
    Agree (fun x => Value.reg x ≠ r) ls ls' := by
  cases r with
  | reg y =>
    simp only [Locals.write, Except.ok.injEq] at h
    subst h
    exact Agree.insert (by simp) z
  | const c => cases h

theorem write_agree_of_mem {r : Value} {z : Int} (h : ls.write r z = .ok ls') {rs : List Value}
    (hr : r ∈ rs) : Agree (fun x => Value.reg x ∉ rs) ls ls' :=
  (write_agree h).mono fun _ hx he => hx (he ▸ hr)

theorem step_agree {i : Instr} (h : step vm ls i = .ok (vm', ls')) :
    Agree (fun x => Value.reg x ∉ i.results) ls ls' := by
  unfold step at h
  cases i <;> simp only [bind, Except.bind, pure, Except.pure] at h <;> (repeat' split at h) <;>
    (cases h <;> first
      | exact Agree.refl _ _
      | exact write_agree_of_mem ‹_› (by simp [Instr.results]))

theorem foldlM_write_agree {rs : List Value} :
    ∀ (ps : List (Value × Int)) (ls ls' : Locals), (∀ p ∈ ps, p.1 ∈ rs) →
      ps.foldlM (fun ls (p : Value × Int) => ls.write p.1 p.2) ls = .ok ls' →
      Agree (fun x => Value.reg x ∉ rs) ls ls'
  | [], ls, ls', _, h => by
    cases h
    exact Agree.refl _ _
  | p :: ps, ls, ls', hps, h => by
    rw [List.foldlM_cons] at h
    obtain ⟨ls₁, h₁, h₂⟩ := bind_eq_ok.mp h
    exact (write_agree_of_mem h₁ (hps p (List.mem_cons_self ..))).trans
      (foldlM_write_agree ps ls₁ ls' (fun q hq => hps q (List.mem_cons_of_mem _ hq)) h₂)

theorem storeResults_agree {g : String} {rs : List Value} {vs : List Int}
    (h : storeResults ls g rs vs = .ok ls') : Agree (fun x => Value.reg x ∉ rs) ls ls' := by
  unfold storeResults at h
  split at h
  · cases h
  · exact foldlM_write_agree _ ls ls' (fun p hp => (List.of_mem_zip hp).1) h

end Frame

end ContractCfg.Lower

namespace ContractCfg.Machine.Vm.Exit

open ContractCfg.IR ContractCfg.Lower

/-- A run that gets to the end has registers outside `W` as they were in `ls`. -/
def Keeps (W : String → Prop) (ls : Locals) : Exit → Prop
  | .reach _ ls' _ => Agree (fun x => ¬ W x) ls ls'
  | .stop _ => True

theorem Keeps.mono {W W' : String → Prop} {ls : Locals} {x : Exit} (h : x.Keeps W ls)
    (hW : ∀ y, W y → W' y) : x.Keeps W' ls := by
  cases x with
  | reach vm ls' fuel => exact Agree.mono h fun y hy hw => hy (hW y hw)
  | stop r => trivial

theorem keeps_reach (W : String → Prop) (vm : Vm) (ls : Locals) (fuel : Nat) :
    (Exit.reach vm ls fuel).Keeps W ls :=
  Agree.refl _ _

theorem Keeps.bind {W : String → Prop} {ls : Locals} {x : Exit} {g : Vm → Locals → Nat → Exit}
    (hx : x.Keeps W ls) (hg : ∀ vm₁ ls₁ fuel₁, x = .reach vm₁ ls₁ fuel₁ → (g vm₁ ls₁ fuel₁).Keeps W ls₁) :
    (x.bind g).Keeps W ls := by
  cases x with
  | reach vm₁ ls₁ fuel₁ =>
    show (g vm₁ ls₁ fuel₁).Keeps W ls
    have hg₁ := hg vm₁ ls₁ fuel₁ rfl
    cases hgx : g vm₁ ls₁ fuel₁ with
    | reach vm₂ ls₂ fuel₂ =>
      rw [hgx] at hg₁
      exact Agree.trans hx hg₁
    | stop r => trivial
  | stop r => trivial

theorem instr_keeps (vm : Vm) (ls : Locals) (fuel : Nat) (i : Instr) :
    (Exit.instr vm ls fuel i).Keeps (fun x => Value.reg x ∈ i.results) ls := by
  unfold instr
  cases vm.tick with
  | error e => trivial
  | ok vm₁ =>
    cases i
    case call rs g as =>
      simp only
      cases ls.readAll as with
      | error e => trivial
      | ok xs =>
        simp only
        rcases run vm₁ g xs fuel with e | ⟨_ | _ | _, vm₂⟩
        · trivial
        · simp only
          cases hs : storeResults ls g rs _ with
          | error e => trivial
          | ok ls₂ => exact storeResults_agree hs
        · trivial
        · trivial
    all_goals
      simp only
      rcases hs : step vm₁ ls _ with e | ⟨vm₂, ls₂⟩
      · trivial
      · exact step_agree hs

theorem enter_keeps (W : String → Prop) (vm : Vm) (ls : Locals) (fuel : Nat) :
    (Exit.enter vm ls fuel).Keeps W ls := by
  unfold enter
  cases vm.tick with
  | error e => trivial
  | ok vm₁ =>
    cases fuel with
    | zero => trivial
    | succ fuel => exact Agree.refl _ _

end ContractCfg.Machine.Vm.Exit

namespace ContractCfg.Lower

open ContractCfg.IR ContractCfg.IR.FnBuilder ContractCfg.Machine ContractCfg.Machine.Vm

/-- Run from the point of `b` with machine `vm`, registers `ls` and `fuel`, the code of every
final function completing `b'` gets to `x`: it ends the call with `x`'s result, or it arrives at
the point of `b'` with `x`'s machine, registers and fuel. -/
def Crosses (b b' : FnBuilder) (vm : Vm) (ls : Locals) (fuel : Nat) (x : Exit) : Prop :=
  ∀ name f, Completes f b' → resume name f vm ls b.current b.pos fuel = x.result name f b'.current b'.pos

namespace Crosses

variable {b b₁ b₂ : FnBuilder} {vm : Vm} {ls : Locals} {fuel : Nat} {x : Exit} {blk : Block}

theorem stay (hc : b₁.current = b.current) (hp : b₁.pos = b.pos) :
    Crosses b b₁ vm ls fuel (.reach vm ls fuel) := by
  intro name f _
  simp only [Exit.result, hc, hp]

theorem trans (h₁ : Crosses b b₁ vm ls fuel x) (hc : ∀ f, Completes f b₂ → Completes f b₁)
    {g : Vm → Locals → Nat → Exit}
    (h₂ : ∀ vm₁ ls₁ fuel₁, x = .reach vm₁ ls₁ fuel₁ → Crosses b₁ b₂ vm₁ ls₁ fuel₁ (g vm₁ ls₁ fuel₁)) :
    Crosses b b₂ vm ls fuel (x.bind g) := by
  intro name f hf
  rw [h₁ name f (hc f hf)]
  cases x with
  | reach vm₁ ls₁ fuel₁ => exact h₂ vm₁ ls₁ fuel₁ rfl name f hf
  | stop r => rfl

theorem push (hb : b.block? b.current = some blk) (i : Instr) :
    Crosses b (b.push i) vm ls fuel (Exit.instr vm ls fuel i) := by
  intro name f hf
  obtain ⟨blkF, hF, hk⟩ := hf.instr_at hb
  rw [push_current, pos_push hb, pos_eq hb]
  exact resume_instr hF hk

theorem jump (hb : b.block? b.current = some blk)
    (hclosed : ∀ f, Completes f b₁ → f.body.blocks.get? b.current =
    some { blk with term := .jump b₁.current })
    (hpos : b₁.pos = 0) : Crosses b b₁ vm ls fuel (Exit.enter vm ls fuel) := by
  intro name f hf
  rw [pos_eq hb, hpos]
  exact resume_jump_enter (hclosed f hf) (by simp) rfl

theorem leaves (hb : b.block? b.current = some blk) {t : Terminator} (ht : t.Leaves)
    (hclosed : ∀ f, Completes f b₁ → f.body.blocks.get? b.current = some { blk with term := t }) :
    ∃ r, Crosses b b₁ vm ls fuel (.stop r) := by
  obtain ⟨r, hr⟩ : ∃ r, ∀ name f, f.body.blocks.get? b.current = some { blk with term := t } →
      resume name f vm ls b.current b.pos fuel = r := resume_leaves (by simp [pos_eq hb]) ht
  exact ⟨r, fun name f hf => hr name f (hclosed f hf)⟩

theorem jump_leaves (hb : b.block? b.current = some blk) {a : Nat} {blkA : Block} (hl : blkA.Leaves)
    (hclosed : ∀ f, Completes f b₁ → f.body.blocks.get? b.current = some { blk with term := .jump a })
    (ha : ∀ f, Completes f b₁ → f.body.blocks.get? a = some blkA) :
    ∃ r, Crosses b b₁ vm ls fuel (.stop r) := by
  cases ht : vm.tick with
  | error e =>
    refine ⟨.error e, fun name f hf => ?_⟩
    exact resume_end_error (hclosed f hf) (by simp [pos_eq hb]) ht
  | ok vm₁ =>
    obtain ⟨r, hr⟩ : ∃ r, ∀ name f, f.body.blocks.get? a = some blkA →
        (Exit.into vm₁ ls fuel).result name f a 0 = r := into_leaves hl ls fuel
    refine ⟨r, fun name f hf => ?_⟩
    rw [resume_jump_enter (hclosed f hf) (by simp [pos_eq hb]) rfl]
    simp only [Exit.enter, ht]
    exact hr name f (ha f hf)

theorem branch_leaves (hb : b.block? b.current = some blk) {c : Value} {a : Nat} {blkA : Block}
    (hl : blkA.Leaves)
    (hclosed : ∀ f, Completes f b₁ →
      f.body.blocks.get? b.current = some { blk with term := .branch c a b₁.current })
    (ha : ∀ f, Completes f b₁ → f.body.blocks.get? a = some blkA) (hpos : b₁.pos = 0) :
    ∃ x, Crosses b b₁ vm ls fuel x ∧ x.Keeps (fun _ => False) ls := by
  have hk : ({ blk with term := .branch c a b₁.current } : Block).instrs.toList.length ≤ b.pos := by
    simp [pos_eq hb]
  cases ht : vm.tick with
  | error e =>
    exact ⟨.stop (.error e), fun name f hf => resume_end_error (hclosed f hf) hk ht, trivial⟩
  | ok vm₁ =>
    cases hc : ls.read c with
    | error err =>
      exact ⟨.stop (.error err), fun name f hf => resume_branch_fault (hclosed f hf) hk rfl ht hc, trivial⟩
    | ok v =>
      by_cases hv : v = 0
      · refine ⟨Exit.into vm₁ ls fuel, fun name f hf => ?_, ?_⟩
        · rw [resume_branch_enter (hclosed f hf) hk rfl ht hc, if_pos hv, hpos]
        · cases fuel with
          | zero => trivial
          | succ fuel => exact Agree.refl _ _
      · obtain ⟨r, hr⟩ : ∃ r, ∀ name f, f.body.blocks.get? a = some blkA →
        (Exit.into vm₁ ls fuel).result name f a 0 = r := into_leaves hl ls fuel
        refine ⟨.stop r, fun name f hf => ?_, trivial⟩
        rw [resume_branch_enter (hclosed f hf) hk rfl ht hc, if_neg hv]
        exact hr name f (ha f hf)

end Crosses

end ContractCfg.Lower
