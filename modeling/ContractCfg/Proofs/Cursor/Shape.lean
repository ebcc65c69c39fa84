import ContractCfg.Proofs.IR.Close
import Mathlib.Order.BooleanAlgebra.Set

namespace ContractCfg.IR.FnBuilder

variable {b : FnBuilder} {P : Set Nat} {k : Nat} {blk : Block}

/-- Block `k` exists. -/
def Has (b : FnBuilder) (k : Nat) : Prop := (b.block? k).isSome

/-- Block `k` exists and has no terminator yet. -/
def OpenAt (b : FnBuilder) (k : Nat) : Prop := ∃ blk, b.block? k = some blk ∧ blk.term = .invalid

theorem OpenAt.has (h : b.OpenAt k) : b.Has k := by
  obtain ⟨blk, hb, -⟩ := h
  simp [Has, hb]

/-- The builder between two steps of lowering: block ids below the counter and without
repeats, the current block open, and away from it exactly the blocks of `P` open. -/
structure Cursor (P : Set Nat) (b : FnBuilder) : Prop where
  below : b.Below
  nodup : b.KeysNodup
  isOpen : b.IsOpen
  current : b.current ∉ P
  pending : ∀ k, k ≠ b.current → (b.OpenAt k ↔ k ∈ P)

/-- The builder right after its current block was closed: exactly the blocks of `P` open. -/
structure Parked (P : Set Nat) (b : FnBuilder) : Prop where
  below : b.Below
  nodup : b.KeysNodup
  opened : ∀ k, b.OpenAt k ↔ k ∈ P

namespace Cursor

theorem mem_lt (h : Cursor P b) (hk : k ∈ P) : k < b.fn.body.nextId := by
  have hne : k ≠ b.current := fun e => h.current (e ▸ hk)
  exact h.below k ((h.pending k hne).mpr hk).has

theorem nextId_not_mem (h : Cursor P b) : b.fn.body.nextId ∉ P :=
  fun hk => Nat.lt_irrefl _ (h.mem_lt hk)

theorem current_lt (h : Cursor P b) : b.current < b.fn.body.nextId := by
  obtain ⟨blk, hb, -⟩ := h.isOpen
  exact h.below.current_lt hb

theorem push (h : Cursor P b) (i : Instr) : Cursor P (b.push i) := by
  refine ⟨h.below.push i, h.nodup.push i, h.isOpen.push i, h.current, fun k hk => ?_⟩
  rw [push_current] at hk
  rw [← h.pending k hk]
  simp only [OpenAt, block?_push, if_neg (Ne.symm hk)]

theorem of_body {b' : FnBuilder} (h : Cursor P b) (hbody : b'.fn.body = b.fn.body)
    (hcur : b'.current = b.current) : Cursor P b' := by
  have hblk : ∀ k, b'.block? k = b.block? k := fun k => by simp only [block?, hbody]
  refine ⟨fun k hk => ?_, ?_, ?_, hcur ▸ h.current, fun k hk => ?_⟩
  · rw [hblk] at hk
    rw [hbody]
    exact h.below k hk
  · unfold KeysNodup
    rw [hbody]
    exact h.nodup
  · obtain ⟨blk, hb, ho⟩ := h.isOpen
    exact ⟨blk, by rw [hcur, hblk, hb], ho⟩
  · rw [hcur] at hk
    simp only [OpenAt, hblk]
    exact h.pending k hk

theorem createBlock (h : Cursor P b) (label : String) :
    Cursor (insert b.fn.body.nextId P) (b.createBlock label).2 := by
  refine ⟨h.below.createBlock label, h.nodup.createBlock h.below label,
    h.isOpen.createBlock h.below label, ?_, fun k hk => ?_⟩
  · rw [createBlock_current, Set.mem_insert_iff, not_or]
    exact ⟨Nat.ne_of_lt h.current_lt, h.current⟩
  · rw [createBlock_current] at hk
    simp only [OpenAt, block?_createBlock, Set.mem_insert_iff]
    by_cases hn : b.fn.body.nextId = k
    · subst hn
      simp
    · rw [if_neg hn, ← h.pending k hk]
      simp only [OpenAt]
      exact ⟨Or.inr, fun h' => h'.resolve_left (Ne.symm hn)⟩

theorem setTerm (h : Cursor P b) (hb : b.block? b.current = some blk) {t : Terminator}
    (ht : t ≠ .invalid) : Parked P (b.setTerm t blk) := by
  refine ⟨h.below.setTerm t hb, h.nodup.setTerm t hb, fun k => ?_⟩
  simp only [OpenAt, block?_setTerm]
  by_cases hk : b.current = k
  · subst hk
    simp [ht, h.current]
  · rw [if_neg hk]
    exact h.pending k (Ne.symm hk)

end Cursor

theorem Parked.switch (h : Parked P b) (hk : k ∈ P) : Cursor (P \ {k}) { b with current := k } := by
  obtain ⟨blk, hb, ho⟩ := (h.opened k).mpr hk
  refine ⟨h.below.switch k, h.nodup.switch k, ⟨blk, hb, ho⟩, by simp, fun j hj => ?_⟩
  simp only [Set.mem_sdiff, Set.mem_singleton_iff, hj, not_false_eq_true, and_true]
  exact h.opened j

theorem Parked.mem_lt (h : Parked P b) (hk : k ∈ P) : k < b.fn.body.nextId :=
  h.below k ((h.opened k).mpr hk).has

theorem Parked.createBlock (h : Parked P b) (label : String) :
    Parked (insert b.fn.body.nextId P) (b.createBlock label).2 := by
  refine ⟨h.below.createBlock label, h.nodup.createBlock h.below label, fun k => ?_⟩
  simp only [OpenAt, block?_createBlock, Set.mem_insert_iff]
  by_cases hn : b.fn.body.nextId = k
  · subst hn
    simp
  · rw [if_neg hn, ← h.opened k]
    simp only [OpenAt]
    exact ⟨Or.inr, fun h' => h'.resolve_left (Ne.symm hn)⟩

theorem Parked.startBlock (h : Parked P b) (label : String) :
    Cursor P { (b.createBlock label).2 with current := b.fn.body.nextId } := by
  have hs := (h.createBlock label).switch (Set.mem_insert _ _)
  rwa [Set.insert_sdiff_self_of_notMem fun hk => Nat.lt_irrefl _ (h.mem_lt hk)] at hs

theorem Cursor.closeInto (h : Cursor P b) (hb : b.block? b.current = some blk) (label : String)
    {t : Terminator} (ht : t ≠ .invalid) : Cursor P (b.closeInto label t blk) := by
  have hc := h.createBlock label
  have hcur : (b.createBlock label).2.block? (b.createBlock label).2.current = some blk := by
    rw [createBlock_current, block?_createBlock, if_neg (Nat.ne_of_gt h.current_lt), hb]
  have hs := (hc.setTerm hcur ht).switch (Set.mem_insert _ _)
  rwa [Set.insert_sdiff_self_of_notMem h.nextId_not_mem] at hs

theorem Cursor.addClosed (h : Cursor P b) (label : String) {t : Terminator} (ht : t ≠ .invalid) :
    Cursor P (b.addClosed label t) := by
  refine ⟨h.below.addClosed label t, h.nodup.addClosed h.below label t,
    h.isOpen.addClosed h.below label t, h.current, fun k hk => ?_⟩
  rw [addClosed_current] at hk
  simp only [OpenAt, block?_addClosed]
  by_cases hn : b.fn.body.nextId = k
  · subst hn
    simp [ht, h.nextId_not_mem]
  · rw [if_neg hn]
    exact h.pending k hk

theorem Has.push (h : b.Has k) (i : Instr) : (b.push i).Has k := by
  unfold Has at *
  rw [block?_push]
  split <;> simp_all

theorem Has.createBlock (h : b.Has k) (label : String) : (b.createBlock label).2.Has k := by
  unfold Has at *
  rw [block?_createBlock]
  split <;> simp_all

theorem has_createBlock_new (label : String) : (b.createBlock label).2.Has b.fn.body.nextId := by
  simp [Has, block?_createBlock]

theorem has_addClosed_new (label : String) (t : Terminator) :
    (b.addClosed label t).Has b.fn.body.nextId := by
  simp [Has, block?_addClosed]

theorem Has.setTerm (h : b.Has k) (t : Terminator) (blk : Block) : (b.setTerm t blk).Has k := by
  unfold Has at *
  rw [block?_setTerm]
  split <;> simp_all

theorem Has.addClosed (h : b.Has k) (label : String) (t : Terminator) : (b.addClosed label t).Has k := by
  unfold Has at *
  rw [block?_addClosed]
  split <;> simp_all

theorem Has.closeInto (h : b.Has k) (label : String) (t : Terminator) (blk : Block) :
    (b.closeInto label t blk).Has k := by
  unfold Has at *
  rw [block?_closeInto]
  split
  · simp
  · split <;> simp_all

end ContractCfg.IR.FnBuilder
