import ContractCfg.Proofs.Lower.Reference
import ContractCfg.Proofs.IR.Close
import ContractCfg.Proofs.Machine.Resume

namespace ContractCfg.IR.FnBuilder

/-- The point where the next instruction goes: its index in the current block. -/
def pos (b : FnBuilder) : Nat := (b.instrsOf b.current).length

end ContractCfg.IR.FnBuilder

namespace ContractCfg.Lower

open ContractCfg.IR ContractCfg.IR.FnBuilder ContractCfg.Machine ContractCfg.Machine.Vm

/-- `ls'` holds what `ls` holds in the registers of `H`. -/
def Agree (H : String → Prop) (ls ls' : Locals) : Prop := ∀ x, H x → ls'.get? x = ls.get? x

theorem Agree.refl (H : String → Prop) (ls : Locals) : Agree H ls ls := fun _ _ => rfl

theorem Agree.trans {H : String → Prop} {ls₁ ls₂ ls₃ : Locals} (h₁ : Agree H ls₁ ls₂)
    (h₂ : Agree H ls₂ ls₃) : Agree H ls₁ ls₃ := fun x hx => (h₂ x hx).trans (h₁ x hx)

theorem Agree.mono {H H' : String → Prop} {ls ls' : Locals} (h : Agree H' ls ls')
    (hH : ∀ x, H x → H' x) : Agree H ls ls' := fun x hx => h x (hH x hx)

theorem Agree.insert {H : String → Prop} {ls : Locals} {x : String} (hx : ¬ H x) (z : Int) :
    Agree H ls (ls.insert x z) := by
  intro y hy
  have hne : x ≠ y := fun h => hx (h ▸ hy)
  simp [Std.HashMap.getElem?_insert, hne]

theorem Agree.read {H : String → Prop} {ls ls' : Locals} (h : Agree H ls ls') {v : Value} {a : Int}
    (hv : ls.read v = .ok a) (hH : ∀ x, v = .reg x → H x) : ls'.read v = .ok a := by
  cases v with
  | const c => exact hv
  | reg x => rw [read_reg, h x (hH x rfl)]; exact hv

section Computes

variable (name : String) (f : Function)

/-- The code of `f` from the point of builder `b` to the point of builder `b'` computes `r`
into `v`: from registers `ls` and with steps left for `c` more ticks, a run either gets to the
end after at most `c` steps, with `v` holding the value and the registers of `H` unchanged, or
it stops as `r` says, a panic by aborting the call and a fault with that fault. -/
def Computes (b b' : FnBuilder) (c : Nat) (H : String → Prop) (ls : Locals) (v : Value)
    (r : Except Stop Int) : Prop :=
  ∀ vm : Vm, vm.steps + c ≤ vm.maxSteps →
    match r with
    | .ok a => ∃ n ls', n ≤ c ∧
        Reaches name f vm ls b.current b.pos { vm with steps := vm.steps + n } ls' b'.current b'.pos ∧
        ls'.read v = .ok a ∧ Agree H ls ls'
    | .error .panic => Ends name f vm ls b.current b.pos fun res => ∃ vm', res = .ok (.abort, vm')
    | .error (.fault e) => Ends name f vm ls b.current b.pos (· = .error e)

variable {name f} {b b₁ b₂ : FnBuilder} {c c₁ c₂ : Nat} {H : String → Prop} {ls : Locals}
  {v v₁ v₂ : Value}

theorem Computes.stay (hcur : b₁.current = b.current) (hpos : b₁.pos = b.pos) {a : Int}
    (hv : ls.read v = .ok a) : Computes name f b b₁ 0 H ls v (.ok a) := by
  intro vm _
  refine ⟨0, ls, Nat.le_refl _, ?_, hv, Agree.refl H ls⟩
  rw [hcur, hpos]
  exact fun fuel h => ⟨fuel, h, rfl⟩

theorem Computes.pure {a : Int} (hv : ls.read v = .ok a) : Computes name f b b 0 H ls v (.ok a) :=
  Computes.stay rfl rfl hv

theorem Computes.mono_steps {r : Except Stop Int} (h : Computes name f b b₁ c H ls v r)
    (hc : c ≤ c₁) : Computes name f b b₁ c₁ H ls v r := by
  intro vm hvm
  have := h vm (by omega)
  cases r with
  | ok a =>
    obtain ⟨n, ls', hn, hr, hv, ha⟩ := this
    exact ⟨n, ls', by omega, hr, hv, ha⟩
  | error e => cases e <;> exact this

theorem Computes.mono_frame {H' : String → Prop} {r : Except Stop Int}
    (h : Computes name f b b₁ c H' ls v r) (hH : ∀ x, H x → H' x) :
    Computes name f b b₁ c H ls v r := by
  intro vm hvm
  have := h vm hvm
  cases r with
  | ok a =>
    obtain ⟨n, ls', hn, hr, hv, ha⟩ := this
    exact ⟨n, ls', hn, hr, hv, ha.mono hH⟩
  | error e => cases e <;> exact this

theorem Computes.bind {r : Except Stop Int} {g : Int → Except Stop Int}
    (h₁ : Computes name f b b₁ c₁ H ls v₁ r)
    (h₂ : ∀ a ls₁, r = .ok a → ls₁.read v₁ = .ok a → Agree H ls ls₁ →
      Computes name f b₁ b₂ c₂ H ls₁ v₂ (g a)) :
    Computes name f b b₂ (c₁ + c₂) H ls v₂ (r >>= g) := by
  intro vm hvm
  cases r with
  | error e =>
    have := h₁ vm (by omega)
    cases e <;> exact this
  | ok a =>
    obtain ⟨n₁, ls₁, hn₁, hr₁, hv₁, ha₁⟩ := h₁ vm (by omega)
    have h₂' := h₂ a ls₁ rfl hv₁ ha₁ { vm with steps := vm.steps + n₁ } (by simp only; omega)
    show match g a with
      | .ok a => _
      | .error .panic => _
      | .error (.fault e) => _
    cases hg : g a with
    | ok a₂ =>
      rw [hg] at h₂'
      obtain ⟨n₂, ls₂, hn₂, hr₂, hv₂, ha₂⟩ := h₂'
      exact ⟨n₁ + n₂, ls₂, by omega, by simpa [Nat.add_assoc] using hr₁.trans hr₂, hv₂, ha₁.trans ha₂⟩
    | error e =>
      rw [hg] at h₂'
      cases e with
      | panic => exact hr₁.ends h₂'
      | fault e => exact hr₁.ends h₂'

theorem Computes.of_newTemp {b' : FnBuilder} {r : Except Stop Int}
    (h : Computes name f b.newTemp.2 b' c H ls v r) : Computes name f b b' c H ls v r := h

theorem pos_eq {blk : Block} (hb : b.block? b.current = some blk) : b.pos = blk.instrs.size := by
  simp [pos, instrsOf_eq hb]

theorem pos_push {blk : Block} (hb : b.block? b.current = some blk) (i : Instr) :
    (b.push i).pos = b.pos + 1 := by
  have hb' : (b.push i).block? (b.push i).current = some (Block.pushInstr i blk) := by
    rw [push_current, block?_push, if_pos rfl, hb]; rfl
  rw [pos_eq hb', pos_eq hb]
  simp [Block.pushInstr]

theorem pos_closeInto (hb : Below b) {blk : Block} (hcur : b.block? b.current = some blk)
    {label : String} {t : Terminator} : (b.closeInto label t blk).pos = 0 := by
  simp [pos, instrsOf, block?_closeInto_new hb hcur]

theorem Computes.push {blk : Block} (hb : b.block? b.current = some blk) {i : Instr}
    (hc : Completes f (b.push i)) (hi : Plain i) {y : String} (hy : ¬ H y) {z : Int}
    (hstep : ∀ vm, step vm ls i = .ok (vm, ls.insert y z)) :
    Computes name f b (b.push i) 1 H ls (.reg y) (.ok z) := by
  intro vm hvm
  obtain ⟨blkF, hF, hk⟩ := hc.instr_at hb
  refine ⟨1, ls.insert y z, Nat.le_refl _, ?_, by simp [read_reg], Agree.insert hy z⟩
  rw [push_current, pos_push hb, pos_eq hb]
  exact Reaches.plain hF hk hi (by omega) (hstep _)

theorem Computes.push_fault {blk : Block} (hb : b.block? b.current = some blk) {i : Instr}
    (hc : Completes f (b.push i)) (hi : Plain i) {e : Fault} (hstep : ∀ vm, step vm ls i = .error e) :
    Computes name f b (b.push i) 1 H ls v (.error (.fault e)) := by
  intro vm hvm
  obtain ⟨blkF, hF, hk⟩ := hc.instr_at hb
  show Ends name f vm ls b.current b.pos (· = .error e)
  rw [pos_eq hb]
  exact Ends.fault hF hk hi (by omega) (hstep _)

end Computes

end ContractCfg.Lower
