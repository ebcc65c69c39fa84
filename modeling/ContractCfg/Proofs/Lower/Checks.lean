import ContractCfg.Proofs.Lower.Yields

namespace ContractCfg.IR.Constant

end ContractCfg.IR.Constant

namespace ContractCfg.Lower

open ContractCfg.IR ContractCfg.IR.FnBuilder ContractCfg.Machine ContractCfg.Machine.Vm

theorem zero_ne_reg (x : String) : Value.zero ≠ .reg x := by
  intro h
  cases h

variable {name : String} {env : Env} {s : GenState}

namespace Yields

variable {P : Locals → Prop} {R : Locals → Except Stop Int} {need : String → Prop} {c : Nat}

theorem closeInto (hw : Wf s) {cur : Block}
    (hcur : s.fn.builder.block? s.fn.builder.current = some cur) (hopen : cur.term = .invalid)
    {t : Terminator} (ht : t ≠ .invalid) (htr : t.isReturn = false) {label : String}
    (hr : ∀ x ∈ regs t.operands, need x)
    (hsucc : ∀ k ∈ t.successors, k = s.fn.builder.fn.body.nextId ∨
      s.fn.assertFailBlock = some k ∨ s.fn.revertBlock = some k)
    (hsim : ∀ f, Completes f (s.fn.builder.closeInto label t cur) → ∀ ls, P ls →
      Computes name f s.fn.builder (s.fn.builder.closeInto label t cur) c (Handed s.fn) ls .zero (R ls)) :
    Yields name s (s.withBuilder (s.fn.builder.closeInto label t cur)) .zero c P R need := by
  have hb := hw.below
  have hg : s.fn.builder.Grows s.fn.builder.fn.body.nextId (s.fn.builder.closeInto label t cur) :=
    grows_closeInto hb hcur ht (Nat.le_refl _)
  refine ⟨Evolves.of_builder hg, ?_, settles_closeInto ht, fun x h => absurd h (zero_ne_reg x), ?_, hsim⟩
  · exact hw.withBuilder hg (hb.closeInto hcur) (IsOpen.closeInto hb hcur) (hw.nodup.closeInto hb hcur)
      (hw.simple.closeInto htr hcur)
  · intro D hs hneed
    have hfail : ∀ k ∈ t.successors, k ≠ s.fn.builder.fn.body.nextId → ∀ x, ¬ D k x := by
      intro k hk hne x
      rcases hsucc k hk with h | h | h
      · exact absurd h hne
      · exact hs.assertFail k h x
      · exact hs.revert k h x
    have hex : ∀ k ∈ t.successors, k = s.fn.builder.fn.body.nextId ∨ (s.fn.builder.block? k).isSome := by
      intro k hk
      rcases hsucc k hk with h | h | h
      · exact .inl h
      · exact .inr (by simp [hw.assertFail k h])
      · exact .inr (by simp [hw.revert k h])
    have hs' : Static (closeMap D s.fn.builder) (s.fn.builder.closeInto label t cur) :=
      hs.builder.closeInto hb hcur hopen ht (fun x hx => hneed x (hr x hx)) hex
        fun k hk hne x hx => absurd hx (hfail k hk hne x)
    refine ⟨closeMap D s.fn.builder, ⟨hs', ?_, ?_⟩, fun k hk => closeMap_old hk,
      fun x hx => (avail_closeInto hb hcur x).mpr hx, fun x h => absurd h (zero_ne_reg x)⟩
    · intro k hk x
      rw [closeMap_old (hb k (by simp [hw.assertFail k hk]))]
      exact hs.assertFail k hk x
    · intro k hk x
      rw [closeMap_old (hb k (by simp [hw.revert k hk]))]
      exact hs.revert k hk x

end Yields

namespace Gen

variable (name env)

end Gen

end ContractCfg.Lower
