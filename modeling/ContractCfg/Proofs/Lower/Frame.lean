import ContractCfg.Proofs.Lower.Run
import ContractCfg.Proofs.Machine.Resume

namespace ContractCfg.IR.FnBuilder

open ContractCfg.Machine.Vm (Plain)

/-- No instruction of the builder calls a function and no block returns: the body of a function
whose expressions are still being lowered. -/
def Simple (b : FnBuilder) : Prop :=
  ∀ k blk, b.block? k = some blk → (∀ i ∈ blk.instrs.toList, Plain i) ∧ blk.term.isReturn = false

variable {b : FnBuilder}

theorem Simple.push (h : Simple b) {i : Instr} (hi : Plain i) : Simple (b.push i) := by
  intro k blk hk
  rw [block?_push] at hk
  split at hk
  · obtain ⟨blk₀, hb₀, rfl⟩ := Option.map_eq_some_iff.mp hk
    obtain ⟨hp, hr⟩ := h k blk₀ hb₀
    refine ⟨fun j hj => ?_, hr⟩
    simp only [Block.pushInstr, Array.toList_push, List.mem_append, List.mem_singleton] at hj
    rcases hj with hj | rfl
    · exact hp j hj
    · exact hi
  · exact h k blk hk

theorem Simple.newTemp (h : Simple b) : Simple b.newTemp.2 := h

theorem Simple.createBlock (h : Simple b) (label : String) : Simple (b.createBlock label).2 := by
  intro k blk hk
  rw [block?_createBlock] at hk
  split at hk
  · cases hk
    exact ⟨by simp, rfl⟩
  · exact h k blk hk

theorem Simple.setTerm (h : Simple b) {t : Terminator} (ht : t.isReturn = false) {blk : Block}
    (hcur : b.block? b.current = some blk) : Simple (b.setTerm t blk) := by
  intro k blk' hk
  rw [block?_setTerm] at hk
  split at hk
  · cases hk
    exact ⟨(h _ blk hcur).1, ht⟩
  · exact h k blk' hk

theorem Simple.switch (h : Simple b) (p : Nat) : Simple { b with current := p } := h

theorem Simple.addClosed (h : Simple b) {label : String} {t : Terminator} (ht : t.isReturn = false) :
    Simple (b.addClosed label t) := by
  intro k blk hk
  rw [block?_addClosed] at hk
  split at hk
  · cases hk
    exact ⟨by simp, ht⟩
  · exact h k blk hk

theorem Simple.closeInto (h : Simple b) {label : String} {t : Terminator} (ht : t.isReturn = false)
    {blk : Block} (hcur : b.block? b.current = some blk) : Simple (b.closeInto label t blk) := by
  intro k blk' hk
  rw [block?_closeInto] at hk
  split at hk
  · cases hk
    exact ⟨(h _ blk hcur).1, ht⟩
  · split at hk
    · cases hk
      exact ⟨by simp, rfl⟩
    · exact h k blk' hk

theorem settles_closeInto {label : String} {t : Terminator} (ht : t ≠ .invalid) {blk : Block} :
    Settles b (b.closeInto label t blk) := by
  intro k blk' hk ho hne
  rw [block?_closeInto] at hk
  split at hk
  · cases hk
    exact absurd ho ht
  · rename_i hc
    rw [closeInto_current] at hne
    rw [if_neg (Ne.symm hne)] at hk
    exact ⟨hk, Ne.symm hc⟩

end ContractCfg.IR.FnBuilder

namespace ContractCfg.Lower

open ContractCfg.IR ContractCfg.IR.FnBuilder

/-- What lowering an expression may change in a state: the builder grows, names are counted
up, the shared failure blocks may be made, and nothing else changes. -/
structure Evolves (s s' : GenState) : Prop where
  builder : s.fn.builder.Grows s.fn.builder.fn.body.nextId s'.fn.builder
  names : ∀ b, s.fn.names.getD b 0 ≤ s'.fn.names.getD b 0
  assertFail : s.fn.assertFailBlock = none ∨ s'.fn.assertFailBlock = s.fn.assertFailBlock
  revert : s.fn.revertBlock = none ∨ s'.fn.revertBlock = s.fn.revertBlock
  frame : { s'.fn with
    builder := s.fn.builder
    names := s.fn.names
    assertFailBlock := s.fn.assertFailBlock
    revertBlock := s.fn.revertBlock } = s.fn
  contract : s'.contract = s.contract

namespace Evolves

variable {s s₁ s₂ : GenState}

theorem refl (s : GenState) : Evolves s s :=
  ⟨Grows.refl _ _, fun _ => Nat.le_refl _, Or.inr rfl, Or.inr rfl, rfl, rfl⟩

theorem trans (h₁ : Evolves s s₁) (h₂ : Evolves s₁ s₂) : Evolves s s₂ := by
  refine ⟨h₁.builder.trans (h₂.builder.mono h₁.builder.nextId), fun b => Nat.le_trans (h₁.names b) (h₂.names b),
    ?_, ?_, ?_, h₂.contract.trans h₁.contract⟩
  · rcases h₁.assertFail with h | h
    · exact .inl h
    · rcases h₂.assertFail with h' | h'
      · exact .inl (h.symm.trans h')
      · exact .inr (h'.trans h)
  · rcases h₁.revert with h | h
    · exact .inl h
    · rcases h₂.revert with h' | h'
      · exact .inl (h.symm.trans h')
      · exact .inr (h'.trans h)
  · have h := h₂.frame ▸ h₁.frame
    exact h

theorem lookup (h : Evolves s s₁) (v : Nat) : s₁.fn.lookup v = s.fn.lookup v := by
  have hl := congrArg FnState.layers h.frame
  have hf := congrArg FnState.functionScope h.frame
  simp only at hl hf
  simp only [FnState.lookup, hl, hf]

theorem handed (h : Evolves s s₁) {x : String} (hx : Handed s.fn x) : Handed s₁.fn x := by
  rcases hx with ⟨k, hk, rfl⟩ | ⟨b, i, hi, rfl⟩
  · exact .inl ⟨k, Nat.lt_of_lt_of_le hk h.builder.nextTemp, rfl⟩
  · exact .inr ⟨b, i, Nat.lt_of_lt_of_le hi (h.names b), rfl⟩

theorem of_builder {b : FnBuilder} (hg : s.fn.builder.Grows s.fn.builder.fn.body.nextId b) :
    Evolves s (s.withBuilder b) :=
  ⟨hg, fun _ => Nat.le_refl _, Or.inr rfl, Or.inr rfl, rfl, rfl⟩

end Evolves

/-- A lowering state ready for more code: its builder is well formed with the current block
open, every counted name base is good, a shared failure block, once made, is closed as it
should be, and no code so far calls a function or returns. -/
structure Wf (s : GenState) : Prop where
  below : s.fn.builder.Below
  isOpen : s.fn.builder.IsOpen
  nodup : s.fn.builder.KeysNodup
  names : NamesOK s.fn
  assertFail : ∀ a, s.fn.assertFailBlock = some a →
    s.fn.builder.block? a = some { id := a, label := "assert.fail", term := .abort }
  revert : ∀ a, s.fn.revertBlock = some a →
    s.fn.builder.block? a = some { id := a, label := "revert", term := .revert (.ofInt revertStatus) }
  simple : s.fn.builder.Simple

namespace Wf

variable {s : GenState}

theorem current_lt (hw : Wf s) : s.fn.builder.current < s.fn.builder.fn.body.nextId := by
  obtain ⟨blk, hb, -⟩ := hw.isOpen
  exact hw.below _ (by simp [hb])

theorem keep_closed (hw : Wf s) {b : FnBuilder} (hg : s.fn.builder.Grows s.fn.builder.fn.body.nextId b)
    {a : Nat} {blk : Block} (ha : s.fn.builder.block? a = some blk) (ht : blk.term ≠ .invalid) :
    b.block? a = some blk := by
  obtain ⟨cur, hcur, hopen⟩ := hw.isOpen
  have hne : a ≠ s.fn.builder.current := by
    rintro rfl
    rw [hcur] at ha
    cases ha
    exact ht hopen
  rw [hg.others a (hw.below a (by simp [ha])) hne, ha]

theorem withBuilder (hw : Wf s) {b : FnBuilder} (hg : s.fn.builder.Grows s.fn.builder.fn.body.nextId b)
    (hb : b.Below) (ho : b.IsOpen) (hn : b.KeysNodup) (hs : b.Simple) : Wf (s.withBuilder b) := by
  refine ⟨hb, ho, hn, hw.names, fun a ha => ?_, fun a ha => ?_, hs⟩
  · exact hw.keep_closed hg (hw.assertFail a ha) (by simp)
  · exact hw.revert a ha ▸ hw.keep_closed hg (hw.revert a ha) (by simp)

end Wf

end ContractCfg.Lower
