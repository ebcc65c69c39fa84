import ContractCfg.IR.Script
import ContractCfg.Proofs.IR.Builder
import ContractCfg.Proofs.IR.Verifies

/-!
Every function a builder script builds is a well-formed control-flow graph. A builder keeps
four facts through every step (`FnBuilder.Shaped`): block ids increase along the map and stay
below the counter, the entry block exists, and every jump target of every block is a block.
Creating a block appends the counter's id, closing a block checks its targets, and pruning keeps
the successors of every block it keeps, so no step can break them. Building prunes once more and
insists that what is left is closed: the blocks of the result are then exactly the reachable
ones, each with a predecessor unless it is the entry, and the verifier can only complain about
registers and return counts.
-/

namespace ContractCfg.IR

open Body

/-- A well-formed control-flow graph: the entry block exists, every block is closed and jumps
only to blocks of the function, the blocks are exactly those reachable from the entry, each one
other than the entry has a predecessor, and the ids increase along the map, which is the order
in which the blocks were created (a new block takes the counter's id). -/
structure Function.WellFormed (f : Function) : Prop where
  entry : (f.body.blocks.get? f.body.entry).isSome
  closed : ∀ k blk, f.body.blocks.get? k = some blk → blk.term ≠ .invalid
  targets : ∀ k blk, f.body.blocks.get? k = some blk → ∀ t ∈ blk.term.successors,
    (f.body.blocks.get? t).isSome
  reach : ∀ k, (f.body.blocks.get? k).isSome ↔ Reach f.body f.body.entry k
  predecessor : ∀ k, (f.body.blocks.get? k).isSome → k ≠ f.body.entry → f.body.predecessors k ≠ []
  ordered : f.body.blocks.keys.Pairwise (· < ·)

/-- A complaint of the verifier about a block of `f` that depends on what the block computes and
not on the shape of the graph: a read of a register that neither a parameter nor an instruction
defines, or a return of another number of values than the signature declares. -/
def Function.DataProblem (f : Function) (e : IrError) : Prop :=
  ∃ k blk, f.body.blocks.get? k = some blk ∧
    ((∃ n, .reg n ∈ blk.instrs.toList.flatMap Instr.operands ++ blk.term.operands ∧
        n ∉ f.definedRegs ∧ e = .verification f.name (blockName k ++ " uses undefined local %" ++ n)) ∨
      (∃ vs, blk.term = .ret vs ∧ vs.length ≠ f.sig.returns.length ∧
        e = .verification f.name (blockName k ++ " returns " ++ toString vs.length ++
          " values, signature declares " ++ toString f.sig.returns.length)))

namespace Function

variable {f : Function}

theorem WellFormed.blockProblem {defined : List String} (hw : f.WellFormed) {k : Nat} {blk : Block}
    (hk : f.body.blocks.get? k = some blk) {m : String} (hm : f.blockProblem defined k blk = some m) :
    (∃ n, .reg n ∈ blk.instrs.toList.flatMap Instr.operands ++ blk.term.operands ∧
        n ∉ defined ∧ m = blockName k ++ " uses undefined local %" ++ n) ∨
      (∃ vs, blk.term = .ret vs ∧ vs.length ≠ f.sig.returns.length ∧
        m = blockName k ++ " returns " ++ toString vs.length ++ " values, signature declares " ++
          toString f.sig.returns.length) := by
  have hfind : blk.term.successors.find? (fun s => !f.body.blocks.contains s) = none :=
    List.find?_eq_none.mpr fun t ht => by
      simp [OrderedMap.contains_eq, hw.targets k blk hk t ht]
  have hedge : (k != f.body.entry && (f.body.predecessors k).isEmpty) = false := by
    by_cases he : k = f.body.entry
    · simp [he]
    · simp [he, hw.predecessor k (by simp [hk]) he]
  unfold Function.blockProblem at hm
  simp only [beq_iff_eq, hw.closed k blk hk, if_false, hfind, hedge, Bool.false_eq_true] at hm
  split at hm
  · -- a read the definitions do not cover
    rename_i n hn
    obtain ⟨v, hv, hvn⟩ := List.exists_of_findSome?_eq_some hn
    cases v with
    | const c => cases hvn
    | reg x =>
      simp only [Value.asReg?, Option.filter_some, Bool.not_eq_eq_eq_not, Bool.not_true] at hvn
      split at hvn
      · rename_i hx
        cases hvn
        cases hm
        exact .inl ⟨_, hv, by simpa using hx, rfl⟩
      · cases hvn
  · -- only the count of a return is left to check
    split at hm
    · rename_i vs hvs
      split at hm
      · rename_i hlen
        cases hm
        exact .inr ⟨vs, hvs, by simpa using hlen, rfl⟩
      · cases hm
    · cases hm

theorem WellFormed.verify_error (hw : f.WellFormed) {e : IrError} (h : f.verify = .error e) :
    f.DataProblem e := by
  have hnodup : f.body.blocks.keys.Nodup := hw.ordered.imp Nat.ne_of_lt
  unfold Function.verify at h
  rw [if_neg (by simp [OrderedMap.contains_eq, hw.entry])] at h
  dsimp only at h
  split at h
  · rename_i m hm
    obtain ⟨⟨k, blk⟩, hmem, hkm⟩ := List.exists_of_findSome?_eq_some hm
    have hk : f.body.blocks.get? k = some blk := OrderedMap.get?_of_mem_toList _ hnodup hmem
    cases h
    rcases hw.blockProblem hk hkm with ⟨n, hn, hd, rfl⟩ | ⟨vs, hvs, hlen, rfl⟩
    · exact ⟨k, blk, hk, .inl ⟨n, hn, hd, rfl⟩⟩
    · exact ⟨k, blk, hk, .inr ⟨vs, hvs, hlen, rfl⟩⟩
  · cases h

end Function

namespace FnBuilder

variable {b b' : FnBuilder}

/-- What every builder a script reaches satisfies: the block ids increase along the map and
stay below the counter, the entry block exists, and every target of every block is a block. -/
structure Shaped (b : FnBuilder) : Prop where
  ordered : b.fn.body.blocks.keys.Pairwise (· < ·)
  below : Below b
  entry : (b.block? b.fn.body.entry).isSome
  targets : ∀ k blk, b.block? k = some blk → ∀ t ∈ blk.term.successors, (b.block? t).isSome

theorem block?_isSome_iff_mem_keys {k : Nat} : (b.block? k).isSome ↔ k ∈ b.fn.body.blocks.keys := by
  rw [block?, ← OrderedMap.contains_eq, OrderedMap.contains_iff_mem_keys]

/-- Two builders with the same graph: the same ids in the same order, the same entry and
counter, and the same terminators; only instructions, registers and the signature may differ. -/
structure SameGraph (b b' : FnBuilder) : Prop where
  keys : b'.fn.body.blocks.keys = b.fn.body.blocks.keys
  entry : b'.fn.body.entry = b.fn.body.entry
  nextId : b'.fn.body.nextId = b.fn.body.nextId
  terms : ∀ k, (b'.block? k).map (·.term) = (b.block? k).map (·.term)

namespace SameGraph

theorem of_body (h : b'.fn.body = b.fn.body) : SameGraph b b' where
  keys := by rw [h]
  entry := by rw [h]
  nextId := by rw [h]
  terms k := by simp only [block?, h]

theorem trans {b₂ : FnBuilder} (h₁ : SameGraph b b') (h₂ : SameGraph b' b₂) : SameGraph b b₂ :=
  ⟨h₂.keys.trans h₁.keys, h₂.entry.trans h₁.entry, h₂.nextId.trans h₁.nextId,
    fun k => (h₂.terms k).trans (h₁.terms k)⟩

theorem isSome (h : SameGraph b b') (k : Nat) : (b'.block? k).isSome = (b.block? k).isSome := by
  rw [← Option.isSome_map (f := (·.term)), h.terms k, Option.isSome_map]

end SameGraph

theorem sameGraph_push (i : Instr) : SameGraph b (b.push i) where
  keys := keys_push b i
  entry := rfl
  nextId := rfl
  terms k := by
    rw [block?_push]
    split
    · cases b.block? k <;> rfl
    · rfl

theorem newTemps_fn (n : Nat) : (b.newTemps n).2.fn = b.fn := by
  induction n generalizing b with
  | zero => rfl
  | succ n ih => exact ih

theorem append_eq_push (i : InstrStep) :
    ∃ (b₀ : FnBuilder) (j : Instr), b₀.fn = b.fn ∧ (b.append i).2 = b₀.push j := by
  cases i with
  | call f args n => exact ⟨_, _, newTemps_fn n, rfl⟩
  | callExternal a f args v g n => exact ⟨_, _, newTemps_fn (b := b.newTemp.2) n, rfl⟩
  | builtin f args => exact ⟨_, _, newTemps_fn f.resultCount, rfl⟩
  | _ =>
    refine ⟨_, _, ?_, rfl⟩
    rfl

theorem sameGraph_append (i : InstrStep) : SameGraph b (b.append i).2 := by
  obtain ⟨b₀, j, hfn, heq⟩ := append_eq_push (b := b) i
  rw [heq]
  exact (SameGraph.of_body (congrArg (·.body) hfn)).trans (sameGraph_push j)

theorem terminate_inv {t : Terminator} (h : b.terminate t = .ok b') :
    (∀ x ∈ t.successors, (b.block? x).isSome) ∧
      ∃ blk, b.block? b.current = some blk ∧ blk.term = .invalid ∧ b' = b.setTerm t blk := by
  unfold terminate at h
  -- the loop over the targets fails on the first one missing, so each one exists
  have hts : ∀ x ∈ t.successors, (b.block? x).isSome := by
    generalize t.successors = xs at h
    induction xs with
    | nil => simp
    | cons x xs ih =>
      cases hx : b.fn.body.blocks.contains x with
      | false => simp [hx] at h; cases h
      | true =>
        simp only [List.forIn_cons, hx, Bool.not_true] at h
        intro y hy
        rcases List.mem_cons.mp hy with rfl | hy
        · rwa [block?, ← OrderedMap.contains_eq]
        · exact ih h y hy
  have hc : ∀ x ∈ t.successors, b.fn.body.blocks.contains x = true := fun x hx => by
    rw [OrderedMap.contains_eq]; exact hts x hx
  refine ⟨hts, ?_⟩
  generalize t.successors = xs at h hc
  induction xs with
  | nil =>
    simp only [List.forIn_nil] at h
    cases hcur : b.fn.body.blocks.get? b.current with
    | none => simp [hcur] at h
    | some blk =>
      simp only [hcur] at h
      by_cases ho : blk.isTerminated
      · simp [ho] at h; cases h
      · simp only [ho] at h
        cases h
        exact ⟨blk, hcur, by simpa [Block.isTerminated] using ho, rfl⟩
  | cons x xs ih =>
    simp only [List.forIn_cons, hc x List.mem_cons_self, Bool.not_true] at h
    exact ih h fun y hy => hc y (List.mem_cons_of_mem x hy)

theorem apply_cases {st : Step} {r : Reply} (h : b.apply st = .ok (r, b')) :
    SameGraph b b' ∨ (∃ l, b' = (b.createBlock l).2) ∨ (∃ t, b.terminate t = .ok b') ∨
      b' = b.prune.2 := by
  cases st with
  | createBlock l =>
    obtain ⟨-, rfl⟩ := Prod.mk.inj (Except.ok.inj h)
    exact .inr (.inl ⟨l, rfl⟩)
  | close t =>
    simp only [apply] at h
    split at h
    · rename_i b₁ hb₁
      obtain ⟨-, rfl⟩ := Prod.mk.inj (Except.ok.inj h)
      exact .inr (.inr (.inl ⟨t, hb₁⟩))
    · obtain ⟨-, rfl⟩ := Prod.mk.inj (Except.ok.inj h)
      exact .inl (.of_body rfl)
  | prune =>
    obtain ⟨-, rfl⟩ := Prod.mk.inj (Except.ok.inj h)
    exact .inr (.inr (.inr rfl))
  | switch id =>
    simp only [apply] at h
    split at h
    · rename_i b₁ hb₁
      obtain ⟨-, rfl⟩ := Prod.mk.inj (Except.ok.inj h)
      unfold switchTo at hb₁
      split at hb₁
      · cases hb₁
        exact .inl (.of_body rfl)
      · cases hb₁
    · obtain ⟨-, rfl⟩ := Prod.mk.inj (Except.ok.inj h)
      exact .inl (.of_body rfl)
  | instr i =>
    simp only [apply] at h
    split at h
    · obtain ⟨-, rfl⟩ := Prod.mk.inj (Except.ok.inj h)
      exact .inl (.of_body rfl)
    · cases i with
      | error msg => cases h
      | ok i =>
        obtain ⟨-, rfl⟩ := Prod.mk.inj (Except.ok.inj h)
        exact .inl (sameGraph_append i)
  | _ =>
    obtain ⟨-, rfl⟩ := Prod.mk.inj (Except.ok.inj h)
    exact .inl (.of_body rfl)

theorem block?_prune_of_isSome {k : Nat} (hk : (b.prune.2.block? k).isSome) :
    b.prune.2.block? k = b.block? k ∧ Reach b.fn.body b.fn.body.entry k := by
  have hbody : b.prune.2.fn.body = b.fn.body.prune.1 := rfl
  simp only [block?, hbody] at hk ⊢
  by_cases hr : Reach b.fn.body b.fn.body.entry k
  · exact ⟨get?_prune_of_reach hr, hr⟩
  · rw [get?_prune_of_not_reach hr] at hk
    cases hk

namespace Shaped

theorem of_sameGraph (hb : Shaped b) (hg : SameGraph b b') : Shaped b' where
  ordered := hg.keys ▸ hb.ordered
  below k hk := hg.nextId ▸ hb.below k (hg.isSome k ▸ hk)
  entry := by rw [hg.entry, hg.isSome]; exact hb.entry
  targets k blk' hk t ht := by
    have hmap := hg.terms k
    rw [hk] at hmap
    obtain ⟨blk, hblk, hterm⟩ := Option.map_eq_some_iff.mp hmap.symm
    rw [hg.isSome]
    exact hb.targets k blk hblk t (hterm ▸ ht)

theorem createBlock (hb : Shaped b) (label : String) : Shaped (b.createBlock label).2 := by
  have hfresh : b.block? b.fn.body.nextId = none := by
    cases hk : b.block? b.fn.body.nextId with
    | none => rfl
    | some _ => have := hb.below b.fn.body.nextId (by simp [hk]); omega
  -- every old block keeps its lookup, since its id is below the new one
  have hold : ∀ k, (b.block? k).isSome → (b.createBlock label).2.block? k = b.block? k := fun k hk => by
    rw [block?_createBlock, if_neg (Nat.ne_of_gt (hb.below k hk))]
  refine ⟨?_, hb.below.createBlock label, by rw [createBlock_entry, hold _ hb.entry]; exact hb.entry, ?_⟩
  · rw [keys_createBlock hfresh]
    refine List.pairwise_append.mpr ⟨hb.ordered, List.pairwise_singleton _ _, fun a ha c hc => ?_⟩
    rw [List.mem_singleton.mp hc]
    exact hb.below a (block?_isSome_iff_mem_keys.mpr ha)
  · intro k blk hk t ht
    rw [block?_createBlock] at hk
    split at hk
    · cases hk
      simp [Terminator.successors] at ht
    · have htb := hb.targets k blk hk t ht
      rw [hold t htb]
      exact htb

theorem terminate (hb : Shaped b) {t : Terminator} (h : b.terminate t = .ok b') : Shaped b' := by
  obtain ⟨hts, blk, hcur, -, rfl⟩ := terminate_inv h
  -- a block exists after closing exactly when it did before
  have hsome : ∀ k, ((b.setTerm t blk).block? k).isSome = (b.block? k).isSome := fun k => by
    rw [block?_setTerm]
    split
    · subst k; simp [hcur]
    · rfl
  refine ⟨by rw [keys_setTerm hcur]; exact hb.ordered, hb.below.setTerm t hcur,
    by rw [setTerm_entry, hsome]; exact hb.entry, ?_⟩
  intro k blk' hk x hx
  rw [hsome]
  rw [block?_setTerm] at hk
  split at hk
  · cases hk
    exact hts x hx
  · exact hb.targets k blk' hk x hx

theorem prune (hb : Shaped b) : Shaped b.prune.2 := by
  have hbody : b.prune.2.fn.body = b.fn.body.prune.1 := rfl
  refine ⟨?_, fun k hk => ?_, ?_, ?_⟩
  · rw [hbody]
    exact hb.ordered.sublist keys_prune_sublist
  · show k < b.fn.body.nextId
    exact hb.below k (by rw [← (block?_prune_of_isSome hk).1]; exact hk)
  · simp only [block?, hbody, prune_entry, get?_prune_of_reach (.refl : Reach b.fn.body _ _)]
    exact hb.entry
  · intro k blk hk t ht
    obtain ⟨hk₀, hr⟩ := block?_prune_of_isSome (b := b) (k := k) (by simp [hk])
    rw [hk₀] at hk
    have hrt : Reach b.fn.body b.fn.body.entry t :=
      .step hr (by rw [successors_of_get? hk]; exact ht)
    simp only [block?, hbody, get?_prune_of_reach hrt]
    exact hb.targets k blk hk t ht

theorem apply (hb : Shaped b) {st : Step} {r : Reply} (h : b.apply st = .ok (r, b')) : Shaped b' := by
  rcases apply_cases h with hg | ⟨l, rfl⟩ | ⟨t, ht⟩ | rfl
  · exact hb.of_sameGraph hg
  · exact hb.createBlock l
  · exact hb.terminate ht
  · exact hb.prune

theorem applyAll (hb : Shaped b) {ss : List Step} {rs : List Reply} (h : b.applyAll ss = .ok (rs, b')) :
    Shaped b' := by
  induction ss generalizing b rs with
  | nil =>
    obtain ⟨-, rfl⟩ := Prod.mk.inj (Except.ok.inj h)
    exact hb
  | cons st ss ih =>
    simp only [FnBuilder.applyAll, bind, Except.bind] at h
    split at h
    · cases h
    · rename_i p hp
      split at h
      · cases h
      · rename_i q hq
        obtain ⟨-, rfl⟩ := Prod.mk.inj (Except.ok.inj h)
        exact ih (hb.apply hp) hq

end Shaped

theorem build_inv {f : Function} (h : b.build = .ok f) :
    f = b.prune.2.fn ∧ ∀ k blk, f.body.blocks.get? k = some blk → blk.term ≠ .invalid := by
  simp only [build] at h
  split at h
  · cases h
  · rename_i hfind
    cases h
    refine ⟨rfl, fun k blk hk ho => ?_⟩
    have := List.find?_eq_none.mp hfind (k, blk) (OrderedMap.mem_toList_of_get? _ hk)
    simp [Block.isTerminated, ho] at this

end FnBuilder

end ContractCfg.IR
