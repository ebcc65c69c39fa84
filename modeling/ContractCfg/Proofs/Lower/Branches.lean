import ContractCfg.Proofs.Lower.Checks

/-!
Code with branches: a result register written on every path, blocks made ahead for the arms
and the join, a terminator that forks, and arms that each assign the result and jump to the
join. Closing the current block and going on in a block made before is the one step these
share; the lemmas here carry well-formedness, availability and the simulation across it.
-/

namespace ContractCfg.IR.FnBuilder

/-- The open current block `blk` closed by `t`, the code going on in the block `k` made before. -/
def closeSwitch (b : FnBuilder) (t : Terminator) (blk : Block) (k : Nat) : FnBuilder :=
  { b.setTerm t blk with current := k }

variable {b : FnBuilder} {t : Terminator} {blk kb : Block} {k : Nat} {D : Nat → String → Prop}
  {f : Function}

@[simp] theorem closeSwitch_current : (b.closeSwitch t blk k).current = k := rfl
@[simp] theorem closeSwitch_nextTemp : (b.closeSwitch t blk k).nextTemp = b.nextTemp := rfl
@[simp] theorem closeSwitch_nextId : (b.closeSwitch t blk k).fn.body.nextId = b.fn.body.nextId := rfl

theorem block?_closeSwitch_ne {j : Nat} (hj : j ≠ b.current) : (b.closeSwitch t blk k).block? j = b.block? j := by
  show (b.setTerm t blk).block? j = _
  rw [block?_setTerm, if_neg (Ne.symm hj)]

theorem pos_closeSwitch (hk : b.block? k = some kb) (hne : k ≠ b.current) (he : kb.instrs = #[]) :
    (b.closeSwitch t blk k).pos = 0 := by
  show ((b.closeSwitch t blk k).instrsOf k).length = 0
  simp [instrsOf, block?_closeSwitch_ne hne, hk, he]

theorem grows_closeSwitch (hcur : b.block? b.current = some blk) (ht : t ≠ .invalid) {n : Nat}
    (hn : n ≤ k) : Grows n b (b.closeSwitch t blk k) := by
  refine (grows_setTerm t hcur).trans (grows_switch hn fun blk' h => ?_)
  rw [setTerm_current, block?_setTerm, if_pos rfl] at h
  cases h
  exact ht

theorem Below.closeSwitch (hb : Below b) (hcur : b.block? b.current = some blk) :
    Below (b.closeSwitch t blk k) :=
  (hb.setTerm t hcur).switch k

theorem IsOpen.closeSwitch (hk : b.block? k = some kb) (hne : k ≠ b.current) (hko : kb.term = .invalid) :
    IsOpen (b.closeSwitch t blk k) :=
  ⟨kb, by rw [closeSwitch_current, block?_closeSwitch_ne hne, hk], hko⟩

theorem KeysNodup.closeSwitch (hn : KeysNodup b) (hcur : b.block? b.current = some blk) :
    KeysNodup (b.closeSwitch t blk k) :=
  (hn.setTerm t hcur).switch k

theorem Simple.closeSwitch (h : Simple b) (ht : t.isReturn = false) (hcur : b.block? b.current = some blk) :
    Simple (b.closeSwitch t blk k) :=
  (h.setTerm ht hcur).switch k

theorem Static.closeSwitch (hs : Static D b) (hcur : b.block? b.current = some blk)
    (ht : t ≠ .invalid) (hr : ∀ x ∈ regs t.operands, Avail D b x)
    (hex : ∀ j ∈ t.successors, (b.block? j).isSome) (hsucc : ∀ j ∈ t.successors, ∀ x, D j x → Avail D b x)
    (hk : b.block? k = some kb) (hne : k ≠ b.current) (hko : kb.term = .invalid) :
    Static D (b.closeSwitch t blk k) := by
  refine (hs.setTerm hcur hr hex hsucc).switch (fun blk' h => ?_) ?_ hko
  · rw [setTerm_current, block?_setTerm, if_pos rfl] at h
    cases h
    exact ht
  · rw [block?_setTerm, if_neg (Ne.symm hne), hk]

theorem Completes.closeSwitch_current (hc : Completes f (b.closeSwitch t blk k)) (ht : t ≠ .invalid) :
    f.body.blocks.get? b.current = some { blk with term := t } :=
  hc.closed _ _ (by show (b.setTerm t blk).block? b.current = _; rw [block?_setTerm, if_pos rfl]) ht

theorem Completes.of_closeSwitch (hc : Completes f (b.closeSwitch t blk k)) (hb : Below b)
    (hcur : b.block? b.current = some blk) (hopen : blk.term = .invalid) (ht : t ≠ .invalid) :
    Completes f b := by
  refine Completes.of_grows hb ⟨blk, hcur, hopen⟩ (grows_setTerm t hcur) ⟨hc.closed, fun blk' h => ?_⟩
  rw [setTerm_current, block?_setTerm, if_pos rfl] at h
  cases h
  exact ⟨_, hc.closeSwitch_current ht, List.prefix_refl _⟩

end ContractCfg.IR.FnBuilder

namespace ContractCfg.Lower

open ContractCfg.IR ContractCfg.IR.FnBuilder ContractCfg.Machine ContractCfg.Machine.Vm

variable {s s₀ : GenState}

theorem Wf.createBlock (hw : Wf s) (label : String) :
    Wf (s.withBuilder (s.fn.builder.createBlock label).2) :=
  hw.withBuilder (grows_createBlock label (Nat.le_refl _)) (hw.below.createBlock label)
    (hw.isOpen.createBlock hw.below label) (hw.nodup.createBlock hw.below label) (hw.simple.createBlock label)

theorem Wf.push (hw : Wf s) {i : Instr} (hi : Plain i) : Wf (s.withBuilder (s.fn.builder.push i)) :=
  hw.withBuilder (grows_push i) (hw.below.push i) (hw.isOpen.push i) (hw.nodup.push i) (hw.simple.push hi)

section CloseSwitch

variable {t : Terminator} {blk kb : Block} {k : Nat}

theorem Wf.closeSwitch (hw : Wf s) (hcur : s.fn.builder.block? s.fn.builder.current = some blk)
    (hk : s.fn.builder.block? k = some kb) (hne : k ≠ s.fn.builder.current) (hko : kb.term = .invalid)
    (ht : t.isReturn = false) : Wf (s.withBuilder (s.fn.builder.closeSwitch t blk k)) := by
  have hg : s.fn.builder.Grows s.fn.builder.fn.body.nextId (s.fn.builder.setTerm t blk) :=
    grows_setTerm t hcur
  refine ⟨hw.below.closeSwitch hcur, IsOpen.closeSwitch hk hne hko, hw.nodup.closeSwitch hcur, hw.names,
    fun a ha => ?_, fun a ha => ?_, hw.simple.closeSwitch ht hcur⟩
  · exact hw.keep_closed hg (hw.assertFail a ha) (by simp)
  · exact hw.keep_closed hg (hw.revert a ha) (by simp)

theorem Evolves.closeSwitch (h : Evolves s₀ s) (hcur : s.fn.builder.block? s.fn.builder.current = some blk)
    (ht : t ≠ .invalid) (hk : s₀.fn.builder.fn.body.nextId ≤ k) :
    Evolves s₀ (s.withBuilder (s.fn.builder.closeSwitch t blk k)) :=
  ⟨h.builder.trans (grows_closeSwitch hcur ht hk), h.names, h.assertFail, h.revert, h.frame, h.contract⟩

theorem GenState.Static.closeSwitch {D : Nat → String → Prop} (hs : s.Static D)
    (hcur : s.fn.builder.block? s.fn.builder.current = some blk) (ht : t ≠ .invalid)
    (hr : ∀ x ∈ regs t.operands, s.fn.builder.Avail D x)
    (hex : ∀ j ∈ t.successors, (s.fn.builder.block? j).isSome)
    (hsucc : ∀ j ∈ t.successors, ∀ x, D j x → s.fn.builder.Avail D x)
    (hk : s.fn.builder.block? k = some kb) (hne : k ≠ s.fn.builder.current) (hko : kb.term = .invalid) :
    (s.withBuilder (s.fn.builder.closeSwitch t blk k)).Static D :=
  ⟨hs.builder.closeSwitch hcur ht hr hex hsucc hk hne hko, hs.assertFail, hs.revert⟩

end CloseSwitch

section Computes

variable {name : String} {f : Function} {b b' b₀ : FnBuilder} {c : Nat} {H : String → Prop}
  {ls : Locals} {v : Value} {r : Except Stop Int}

theorem Computes.enter (hr : ∀ vm : Vm, vm.steps < vm.maxSteps →
      Reaches name f vm ls b.current b.pos { vm with steps := vm.steps + 1 } ls b₀.current b₀.pos)
    (h : Computes name f b₀ b' c H ls v r) : Computes name f b b' (c + 1) H ls v r := by
  intro vm hvm
  have hs : vm.steps < vm.maxSteps := by omega
  have h₀ := h { vm with steps := vm.steps + 1 } (by simp only; omega)
  cases r with
  | ok a =>
    obtain ⟨n, ls', hn, hr', hv, ha⟩ := h₀
    exact ⟨1 + n, ls', by omega, by simpa [Nat.add_assoc] using (hr vm hs).trans hr', hv, ha⟩
  | error e => cases e <;> exact (hr vm hs).ends h₀

theorem Computes.assign {blk : Block} (hb : b.block? b.current = some blk) {y : String}
    (hc : Completes f (b.push (.assign (.reg y) v))) (hy : ¬ H y) {a : Int} (hv : ls.read v = .ok a) :
    Computes name f b (b.push (.assign (.reg y) v)) 1 H ls (.reg y) (.ok a) :=
  Computes.push hb hc (fun _ _ _ h => by cases h) hy fun _ => step_assign hv

end Computes

namespace Gen

section Arms

variable {name : String} {s₁ : GenState} {c : Nat} {P : Locals → Prop}
  {R : Locals → Except Stop Int} {need : String → Prop}

end Arms

end Gen

end ContractCfg.Lower
