import ContractCfg.Proofs.Cursor.Steps
import ContractCfg.Proofs.IR.WellFormed
import ContractCfg.Proofs.Lower.Straight

/-!
Sealed regions of the control-flow graph under lowering. A set of blocks is sealed when all of
them were made, no edge from a block outside leads into it, and the function state names none of
them as a jump target. Lowering jumps only to blocks it has just made, to blocks the function
state names, or to blocks its caller made for it, so a region sealed before some code runs is
sealed after it; the code also leaves alone the blocks it is told to keep, never standing in
one, and keeps the loop and return targets it found (`Confines`). The steps of the monad are
stated here as partial-correctness triples (`Ensures`): what holds when the code succeeds.
-/

namespace ContractCfg.IR.FnBuilder

/-- Block `k` is as a shared failure block is made: closed by a terminator that jumps nowhere,
and empty. -/
def Quiet (b : FnBuilder) (k : Nat) : Prop :=
  ∃ blk, b.block? k = some blk ∧ blk.term ≠ .invalid ∧ blk.term.successors = [] ∧ blk.instrs = #[]

variable {b : FnBuilder}

theorem successors_eq_of_terms {b' : FnBuilder} {j : Nat}
    (h : (b'.block? j).map (·.term) = (b.block? j).map (·.term)) :
    b'.fn.body.successors j = b.fn.body.successors j := by
  simp only [block?] at h
  unfold Body.successors
  cases h' : b'.fn.body.blocks.get? j <;> cases h'' : b.fn.body.blocks.get? j <;> simp_all

theorem successors_push (i : Instr) (j : Nat) :
    (b.push i).fn.body.successors j = b.fn.body.successors j :=
  successors_eq_of_terms ((sameGraph_push i).terms j)

theorem successors_of_block? {j : Nat} {blk : Block} (h : b.block? j = some blk) :
    b.fn.body.successors j = blk.term.successors := by
  simp only [block?] at h
  simp only [Body.successors, h]

theorem successors_of_block?_none {j : Nat} (h : b.block? j = none) : b.fn.body.successors j = [] := by
  simp only [block?] at h
  simp only [Body.successors, h]

theorem successors_createBlock (label : String) (j : Nat) :
    (b.createBlock label).2.fn.body.successors j =
      if b.fn.body.nextId = j then [] else b.fn.body.successors j := by
  split
  · rename_i h
    subst h
    rw [successors_of_block? (by rw [block?_createBlock, if_pos rfl])]
    rfl
  · rename_i h
    exact successors_eq_of_terms (by rw [block?_createBlock, if_neg h])

theorem successors_setTerm (t : Terminator) (blk : Block) (j : Nat) :
    (b.setTerm t blk).fn.body.successors j =
      if b.current = j then t.successors else b.fn.body.successors j := by
  split
  · rename_i h
    subst h
    have hcur : (b.setTerm t blk).block? b.current = some { blk with term := t } := by
      rw [block?_setTerm, if_pos rfl]
    rw [successors_of_block? hcur]
  · rename_i h
    exact successors_eq_of_terms (by rw [block?_setTerm, if_neg h])

theorem successors_addClosed (label : String) (t : Terminator) (j : Nat) :
    (b.addClosed label t).fn.body.successors j =
      if b.fn.body.nextId = j then t.successors else b.fn.body.successors j := by
  split
  · rename_i h
    subst h
    have hnew : (b.addClosed label t).block? b.fn.body.nextId =
        some { id := b.fn.body.nextId, label := label, term := t } := by
      rw [block?_addClosed, if_pos rfl]
    rw [successors_of_block? hnew]
  · rename_i h
    exact successors_eq_of_terms (by rw [block?_addClosed, if_neg h])

theorem Quiet.ne_current {k : Nat} (hq : b.Quiet k) (ho : b.isTerminated = false) : k ≠ b.current := by
  rintro rfl
  obtain ⟨blk, hb, ht, -⟩ := hq
  rw [isTerminated_eq hb] at ho
  simp [Block.isTerminated, ht] at ho

theorem Quiet.lt (hq : b.Quiet k) (hb : b.Below) : k < b.fn.body.nextId := by
  obtain ⟨blk, h, -⟩ := hq
  exact hb k (by simp [h])

theorem quiet_addClosed (label : String) {t : Terminator} (hts : t.successors = [])
    (ht : t ≠ .invalid) : (b.addClosed label t).Quiet b.fn.body.nextId :=
  ⟨_, by rw [block?_addClosed, if_pos rfl], ht, hts, rfl⟩

end ContractCfg.IR.FnBuilder

namespace ContractCfg.Lower

open ContractCfg.IR ContractCfg.IR.FnBuilder

/-- Started in a state satisfying `pre`, lowering code that succeeds ends with a result and a
state satisfying `post`. -/
def Ensures {α : Type} (pre : GenState → Prop) (m : Gen α) (post : α → GenState → Prop) : Prop :=
  ∀ env s a s', pre s → m env s = .ok (a, s') → post a s'

namespace Ensures

variable {α β : Type} {pre : GenState → Prop} {post : α → GenState → Prop}

theorem pure {a : α} (h : ∀ s, pre s → post a s) : Ensures pre (Pure.pure a : Gen α) post := by
  intro env s b s' hs hrun
  simp only [Gen.pure_run, Except.ok.injEq, Prod.mk.injEq] at hrun
  obtain ⟨rfl, rfl⟩ := hrun
  exact h s hs

theorem bind {x : Gen α} {f : α → Gen β} {mid : α → GenState → Prop} {post : β → GenState → Prop}
    (hx : Ensures pre x mid) (hf : ∀ a, Ensures (mid a) (f a) post) : Ensures pre (x >>= f) post := by
  intro env s b s' hs hrun
  obtain ⟨a, s₁, h₁, h₂⟩ := Gen.bind_ok hrun
  exact hf a env s₁ b s' (hx env s a s₁ hs h₁) h₂

theorem mono {m : Gen α} {post' : α → GenState → Prop} (h : Ensures pre m post)
    (hq : ∀ a s, post a s → post' a s) : Ensures pre m post' :=
  fun env s a s' hs hrun => hq a s' (h env s a s' hs hrun)

theorem weaken {m : Gen α} {pre' : GenState → Prop} (h : Ensures pre m post)
    (hp : ∀ s, pre' s → pre s) : Ensures pre' m post :=
  fun env s a s' hs hrun => h env s a s' (hp s hs) hrun

theorem of_fact {Q : Prop} {m : Gen α} (h : Q → Ensures pre m post) :
    Ensures (fun s => pre s ∧ Q) m post :=
  fun env s a s' hs hrun => h hs.2 env s a s' hs.1 hrun

theorem ite {c : Prop} {h : Decidable c} {x y : Gen α} (hx : Ensures pre x post)
    (hy : Ensures pre y post) : Ensures pre (if c then x else y) post := by
  split
  · exact hx
  · exact hy

theorem get_bind {f : GenState → Gen α} (h : ∀ st, Ensures (fun s => pre s ∧ s = st) (f st) post) :
    Ensures pre (get >>= f) post := by
  intro env s a s' hs hrun
  rw [Gen.bind_run_ok (Gen.get_run env s)] at hrun
  exact h s env s a s' ⟨hs, rfl⟩ hrun

theorem ite_bind {c : Prop} {h : Decidable c} {x y : Gen α} {f : α → Gen β} {mid : α → GenState → Prop}
    {post : β → GenState → Prop} (hx : Ensures pre x mid) (hy : Ensures pre y mid)
    (hf : ∀ a, Ensures (mid a) (f a) post) : Ensures pre (if c then x >>= f else y >>= f) post :=
  ite (hx.bind hf) (hy.bind hf)

theorem throw {e : LowerError} : Ensures pre (MonadExcept.throw e : Gen α) post := by
  intro env s a s' _ hrun
  cases hrun

theorem throw_bind {e : LowerError} (f : α → Gen β) {post : β → GenState → Prop} :
    Ensures pre (MonadExcept.throw e >>= f) post := by
  intro env s b s' _ hrun
  obtain ⟨a, s₁, h₁, -⟩ := Gen.bind_ok hrun
  cases h₁

theorem lift {x : Except LowerError α} (h : ∀ a s, pre s → post a s) : Ensures pre (x : Gen α) post := by
  intro env s a s' hs hrun
  cases hx : x with
  | error e =>
    rw [hx] at hrun
    cases hrun
  | ok b =>
    rw [hx] at hrun
    simp only [liftM, monadLift, MonadLift.monadLift, StateT.lift] at hrun
    cases hrun
    exact h _ _ hs

theorem discard {x : Gen α} {Q : GenState → Prop} (hx : Ensures pre x fun _ => Q) :
    Ensures pre (discard x) fun _ => Q := by
  intro env s u s' hs hrun
  change (x env s >>= fun p => Pure.pure ((), p.2)) = _ at hrun
  cases hx' : x env s with
  | error e =>
    rw [hx'] at hrun
    cases hrun
  | ok p =>
    rw [hx'] at hrun
    cases hrun
    exact hx env s p.1 p.2 hs hx'

variable {I : GenState → Prop}

theorem forIn {xs : List α} {f : α → β → Gen (ForInStep β)} (hf : ∀ x b, Ensures I (f x b) fun _ => I)
    (init : β) : Ensures I (forIn xs init f) fun _ => I := by
  induction xs generalizing init with
  | nil => exact pure fun _ h => h
  | cons x xs ih =>
    rw [List.forIn_cons]
    refine bind (hf x init) fun step => ?_
    cases step with
    | done b => exact pure fun _ h => h
    | yield b => exact ih b

theorem forM {xs : List α} {f : α → Gen PUnit} (hf : ∀ x, Ensures I (f x) fun _ => I) :
    Ensures I (xs.forM f) fun _ => I := by
  induction xs with
  | nil => exact pure fun _ h => h
  | cons x xs ih => exact bind (hf x) fun _ => ih

theorem mapM {xs : List α} {f : α → Gen β} (hf : ∀ x, Ensures I (f x) fun _ => I) :
    Ensures I (xs.mapM f) fun _ => I := by
  induction xs with
  | nil => exact pure fun _ h => h
  | cons x xs ih =>
    rw [List.mapM_cons]
    exact bind (hf x) fun _ => bind ih fun _ => pure fun _ h => h

theorem anyM {xs : List α} {f : α → Gen Bool} (hf : ∀ x, Ensures I (f x) fun _ => I) :
    Ensures I (xs.anyM f) fun _ => I := by
  induction xs with
  | nil => exact pure fun _ h => h
  | cons x xs ih =>
    rw [List.anyM_cons]
    refine bind (hf x) fun b => ?_
    cases b
    · exact ih
    · exact pure fun _ h => h

theorem of_fnFixed {m : Gen α} (h : FnFixed m) {J : FnState → Prop} :
    Ensures (fun s => J s.fn) m fun _ s => J s.fn := by
  intro env s a s' hs hrun
  have := h s.fn env s rfl
  rw [hrun] at this
  exact this ▸ hs

end Ensures

/-- The shared failure blocks the function state records. -/
def FnState.shared (c : FnState) : List Nat :=
  c.revertBlock.toList ++ (c.statusRevert.map (·.1)).toList ++ c.assertFailBlock.toList

theorem FnState.targets_eq (c : FnState) :
    c.targets = loopTargets c.loops ++ c.returnTargets ++ c.shared := by
  simp [FnState.targets, FnState.shared, List.append_assoc]

theorem FnState.loop_mem_targets {c : FnState} {l : LoopTargets} (hl : l ∈ c.loops) :
    l.breakTo ∈ c.targets ∧ l.continueTo ∈ c.targets := by
  simp only [FnState.targets_eq, List.mem_append, loopTargets, List.mem_flatMap]
  exact ⟨.inl (.inl ⟨l, hl, by simp⟩), .inl (.inl ⟨l, hl, by simp⟩)⟩

theorem FnState.returnTarget_mem_targets {c : FnState} {t : Nat} (ht : t ∈ c.returnTargets) :
    t ∈ c.targets := by
  simp [FnState.targets_eq, ht]

/-- The builder of the function being lowered is wired: block ids stay below the counter, and so
do the current block, the blocks every edge leads to and the jump targets the function state
names, and the entry was made first; each shared failure block is quiet, and neither the current
block nor a loop or return target is one. -/
structure Wired (s : GenState) : Prop where
  below : s.fn.builder.Below
  current : s.fn.builder.current < s.fn.builder.fn.body.nextId
  edges : ∀ j t, t ∈ s.fn.builder.fn.body.successors j → t < s.fn.builder.fn.body.nextId
  named : ∀ k ∈ s.fn.targets, k < s.fn.builder.fn.body.nextId
  quiet : ∀ k ∈ s.fn.shared, s.fn.builder.Quiet k
  free : s.fn.builder.current ∉ s.fn.shared
  apart : ∀ k ∈ loopTargets s.fn.loops ++ s.fn.returnTargets, k ∉ s.fn.shared
  entry : s.fn.builder.fn.body.entry < s.fn.builder.fn.body.nextId

/-- The blocks of `R` form a sealed region: all of them were made, every edge into one of them
leaves from one of them, and neither the entry nor a jump target the function state names is one
of them. Nothing outside the region leads into it, so the entry reaches none of its blocks. -/
structure Sealed (R : Set Nat) (s : GenState) : Prop where
  below : ∀ k ∈ R, k < s.fn.builder.fn.body.nextId
  closed : ∀ j t, t ∈ s.fn.builder.fn.body.successors j → t ∈ R → j ∈ R
  targets : ∀ k ∈ s.fn.targets, k ∉ R
  entry : s.fn.builder.fn.body.entry ∉ R

/-- The blocks of `K` were made and are as in the builder `b₀`, lowering stands in none of
them, and the entry is that of `b₀`. -/
structure Framed (K : Set Nat) (b₀ : FnBuilder) (s : GenState) : Prop where
  below : ∀ k ∈ K, k < s.fn.builder.fn.body.nextId
  same : ∀ k ∈ K, s.fn.builder.block? k = b₀.block? k
  away : s.fn.builder.current ∉ K
  entry : s.fn.builder.fn.body.entry = b₀.fn.body.entry

variable {s : GenState}

theorem FnState.targets_congr {c c' : FnState} (hl : c'.loops = c.loops)
    (hr : c'.returnTargets = c.returnTargets) (hs : c'.shared = c.shared) : c'.targets = c.targets := by
  rw [FnState.targets_eq, FnState.targets_eq, hl, hr, hs]

namespace Wired

theorem congr (h : Wired s) {s' : GenState} (hbody : s'.fn.builder.fn.body = s.fn.builder.fn.body)
    (hcur : s'.fn.builder.current = s.fn.builder.current) (hl : s'.fn.loops = s.fn.loops)
    (hr : s'.fn.returnTargets = s.fn.returnTargets) (hs : s'.fn.shared = s.fn.shared) : Wired s' := by
  have hblk : ∀ k, s'.fn.builder.block? k = s.fn.builder.block? k := fun k => by
    simp only [block?, hbody]
  refine ⟨fun k hk => ?_, ?_, ?_, ?_, fun k hk => ?_, ?_, ?_, ?_⟩
  · rw [hblk] at hk
    rw [hbody]
    exact h.below k hk
  · rw [hcur, hbody]
    exact h.current
  · rw [hbody]
    exact h.edges
  · rw [FnState.targets_congr hl hr hs, hbody]
    exact h.named
  · rw [hs] at hk
    unfold Quiet
    simp only [hblk]
    exact h.quiet k hk
  · rw [hcur, hs]
    exact h.free
  · rw [hl, hr, hs]
    exact h.apart
  · rw [hbody]
    exact h.entry

theorem push (h : Wired s) (ho : s.fn.builder.isTerminated = false) (i : Instr) :
    Wired (s.withBuilder (s.fn.builder.push i)) := by
  refine ⟨h.below.push i, h.current, fun j t ht => ?_, h.named, fun k hk => ?_, h.free, h.apart,
    h.entry⟩
  · rw [GenState.withBuilder_builder, successors_push] at ht
    exact h.edges j t ht
  · have hne := (h.quiet k hk).ne_current ho
    have hq := h.quiet k hk
    unfold Quiet at hq ⊢
    rwa [GenState.withBuilder_builder, block?_push, if_neg (Ne.symm hne)]

theorem createBlock (h : Wired s) (label : String) :
    Wired (s.withBuilder (s.fn.builder.createBlock label).2) := by
  have hlt : ∀ k, k < s.fn.builder.fn.body.nextId → ((s.fn.builder.createBlock label).2).block? k =
      s.fn.builder.block? k := fun k hk => by rw [block?_createBlock, if_neg (by omega)]
  refine ⟨h.below.createBlock label, ?_, fun j t ht => ?_, fun k hk => ?_, fun k hk => ?_, h.free,
    h.apart, ?_⟩ <;>
    simp only [GenState.withBuilder_builder, createBlock_nextId, createBlock_current, createBlock_entry] at *
  · have := h.current
    omega
  · rw [successors_createBlock] at ht
    split at ht
    · cases ht
    · have := h.edges j t ht
      omega
  · have := h.named k hk
    omega
  · have hq := h.quiet k hk
    have hk' := hq.lt h.below
    unfold Quiet at hq ⊢
    rwa [hlt k hk']
  · have := h.entry
    omega

theorem setTerm (h : Wired s) {t : Terminator} {blk : Block}
    (hb : s.fn.builder.block? s.fn.builder.current = some blk) (ho : blk.term = .invalid)
    (hts : ∀ x ∈ t.successors, (s.fn.builder.block? x).isSome) :
    Wired (s.withBuilder (s.fn.builder.setTerm t blk)) := by
  have hopen : s.fn.builder.isTerminated = false := by
    rw [isTerminated_eq hb]
    simp [Block.isTerminated, ho]
  refine ⟨h.below.setTerm t hb, h.current, fun j x hx => ?_, h.named, fun k hk => ?_, h.free, h.apart,
    h.entry⟩ <;>
    simp only [GenState.withBuilder_builder, setTerm_nextId] at *
  · rw [successors_setTerm] at hx
    split at hx
    · exact h.below x (hts x hx)
    · exact h.edges j x hx
  · have hne := (h.quiet k hk).ne_current hopen
    have hq := h.quiet k hk
    unfold Quiet at hq ⊢
    rwa [block?_setTerm, if_neg (Ne.symm hne)]

theorem switch (h : Wired s) {k : Nat} (hk : (s.fn.builder.block? k).isSome) (hs : k ∉ s.fn.shared) :
    Wired (s.withBuilder { s.fn.builder with current := k }) :=
  ⟨h.below, h.below k hk, h.edges, h.named, h.quiet, hs, h.apart, h.entry⟩

theorem addShared (h : Wired s) (label : String) {t : Terminator} (hts : t.successors = [])
    (ht : t ≠ .invalid) {s' : GenState} (hb : s'.fn.builder = s.fn.builder.addClosed label t)
    (hl : s'.fn.loops = s.fn.loops) (hr : s'.fn.returnTargets = s.fn.returnTargets)
    (hs : ∀ k ∈ s'.fn.shared, k ∈ s.fn.shared ∨ k = s.fn.builder.fn.body.nextId) : Wired s' := by
  have hlt : ∀ k, k < s.fn.builder.fn.body.nextId → (s.fn.builder.addClosed label t).block? k =
      s.fn.builder.block? k := fun k hk => by rw [block?_addClosed, if_neg (by omega)]
  -- the loop and return targets are those of `s`, all below the counter
  have hold : ∀ k ∈ loopTargets s'.fn.loops ++ s'.fn.returnTargets,
      k < s.fn.builder.fn.body.nextId ∧ k ∉ s.fn.shared := by
    intro k hk
    rw [hl, hr] at hk
    exact ⟨h.named k (by rw [FnState.targets_eq]; exact List.mem_append_left _ hk), h.apart k hk⟩
  refine ⟨?_, ?_, fun j x hx => ?_, fun k hk => ?_, fun k hk => ?_, fun hc => ?_, fun k hk hks => ?_,
    ?_⟩ <;> simp only [hb, addClosed_nextId, addClosed_current, addClosed_entry] at *
  · exact h.below.addClosed label t
  · have := h.current
    omega
  · rw [successors_addClosed] at hx
    split at hx
    · simp [hts] at hx
    · have := h.edges j x hx
      omega
  · rw [FnState.targets_eq, List.mem_append] at hk
    rcases hk with hk | hk
    · have := (hold k hk).1
      omega
    · rcases hs k hk with hk | rfl
      · have := h.named k (by rw [FnState.targets_eq]; exact List.mem_append_right _ hk)
        omega
      · omega
  · rcases hs k hk with hk | rfl
    · have hq := h.quiet k hk
      have hk' := hq.lt h.below
      unfold Quiet at hq ⊢
      rwa [hlt k hk']
    · exact quiet_addClosed label hts ht
  · rcases hs _ hc with hc | hc
    · exact h.free hc
    · have := h.current
      omega
  · rcases hs k hks with hks | rfl
    · exact (hold k hk).2 hks
    · exact Nat.lt_irrefl _ (hold _ hk).1
  · have := h.entry
    omega

theorem retarget (h : Wired s) {s' : GenState} (hb : s'.fn.builder = s.fn.builder)
    (hs : s'.fn.shared = s.fn.shared)
    (hnew : ∀ k ∈ loopTargets s'.fn.loops ++ s'.fn.returnTargets,
      k < s.fn.builder.fn.body.nextId ∧ k ∉ s.fn.shared) : Wired s' := by
  refine ⟨?_, ?_, ?_, fun k hk => ?_, ?_, ?_, fun k hk => ?_, ?_⟩ <;> try rw [hb]
  · exact h.below
  · exact h.current
  · exact h.edges
  · rw [FnState.targets_eq, List.mem_append] at hk
    rcases hk with hk | hk
    · exact (hnew k hk).1
    · rw [hs] at hk
      exact h.named k (by rw [FnState.targets_eq]; exact List.mem_append_right _ hk)
  · rw [hs]
    exact h.quiet
  · rw [hs]
    exact h.free
  · rw [hs]
    exact (hnew k hk).2
  · exact h.entry

end Wired

namespace Sealed

variable {R : Set Nat}

theorem congr (h : Sealed R s) {s' : GenState} (hbody : s'.fn.builder.fn.body = s.fn.builder.fn.body)
    (ht : s'.fn.targets = s.fn.targets) : Sealed R s' := by
  refine ⟨?_, ?_, ?_, ?_⟩ <;> simp only [hbody, ht]
  exacts [h.below, h.closed, h.targets, h.entry]

theorem push (h : Sealed R s) (i : Instr) : Sealed R (s.withBuilder (s.fn.builder.push i)) := by
  refine ⟨h.below, fun j t ht => ?_, h.targets, h.entry⟩
  rw [GenState.withBuilder_builder, successors_push] at ht
  exact h.closed j t ht

theorem createBlock (h : Sealed R s) (label : String) :
    Sealed R (s.withBuilder (s.fn.builder.createBlock label).2) := by
  refine ⟨fun k hk => ?_, fun j t ht => ?_, h.targets, h.entry⟩ <;>
    simp only [GenState.withBuilder_builder, createBlock_nextId] at *
  · have := h.below k hk
    omega
  · rw [successors_createBlock] at ht
    split at ht
    · cases ht
    · exact h.closed j t ht

theorem setTerm (h : Sealed R s) {t : Terminator} (blk : Block)
    (hin : s.fn.builder.current ∈ R ∨ ∀ x ∈ t.successors, x ∉ R) :
    Sealed R (s.withBuilder (s.fn.builder.setTerm t blk)) := by
  refine ⟨h.below, fun j x hx hxR => ?_, h.targets, h.entry⟩
  simp only [GenState.withBuilder_builder] at hx
  rw [successors_setTerm] at hx
  split at hx
  · rename_i hj
    subst hj
    exact hin.elim id fun hout => absurd hxR (hout x hx)
  · exact h.closed j x hx hxR

theorem addShared (h : Sealed R s) (label : String) {t : Terminator} (hts : t.successors = [])
    {s' : GenState} (hb : s'.fn.builder = s.fn.builder.addClosed label t)
    (hl : s'.fn.loops = s.fn.loops) (hr : s'.fn.returnTargets = s.fn.returnTargets)
    (hs : ∀ k ∈ s'.fn.shared, k ∈ s.fn.shared ∨ k = s.fn.builder.fn.body.nextId) : Sealed R s' := by
  refine ⟨fun k hk => ?_, fun j x hx => ?_, fun k hk hkR => ?_, ?_⟩ <;>
    simp only [hb, addClosed_nextId, addClosed_entry] at *
  · have := h.below k hk
    omega
  · rw [successors_addClosed] at hx
    split at hx
    · simp [hts] at hx
    · exact h.closed j x hx
  · rw [FnState.targets_eq, List.mem_append, hl, hr] at hk
    rcases hk with hk | hk
    · exact h.targets k (by rw [FnState.targets_eq]; exact List.mem_append_left _ hk) hkR
    · rcases hs k hk with hk | rfl
      · exact h.targets k (by rw [FnState.targets_eq]; exact List.mem_append_right _ hk) hkR
      · exact Nat.lt_irrefl _ (h.below _ hkR)
  · exact h.entry

theorem retarget (h : Sealed R s) {s' : GenState} (hb : s'.fn.builder = s.fn.builder)
    (hs : s'.fn.shared = s.fn.shared)
    (hnew : ∀ k ∈ loopTargets s'.fn.loops ++ s'.fn.returnTargets, k ∉ R) : Sealed R s' := by
  refine ⟨?_, ?_, fun k hk => ?_, ?_⟩ <;> simp only [hb] at *
  · exact h.below
  · exact h.closed
  · rw [FnState.targets_eq, List.mem_append] at hk
    rcases hk with hk | hk
    · exact hnew k hk
    · rw [hs] at hk
      exact h.targets k (by rw [FnState.targets_eq]; exact List.mem_append_right _ hk)
  · exact h.entry

theorem union {R' : Set Nat} (h : Sealed R s) (h' : Sealed R' s) : Sealed (R ∪ R') s := by
  refine ⟨fun k hk => ?_, fun j t ht htR => ?_, fun k hk hkR => ?_, fun hk => ?_⟩
  · rcases hk with hk | hk
    exacts [h.below k hk, h'.below k hk]
  · rcases htR with htR | htR
    exacts [.inl (h.closed j t ht htR), .inr (h'.closed j t ht htR)]
  · rcases hkR with hkR | hkR
    exacts [h.targets k hk hkR, h'.targets k hk hkR]
  · rcases hk with hk | hk
    exacts [h.entry hk, h'.entry hk]

end Sealed

namespace Framed

variable {K : Set Nat} {b₀ : FnBuilder}

theorem congr (h : Framed K b₀ s) {s' : GenState} (hbody : s'.fn.builder.fn.body = s.fn.builder.fn.body)
    (hcur : s'.fn.builder.current = s.fn.builder.current) : Framed K b₀ s' := by
  refine ⟨?_, fun k hk => ?_, ?_, ?_⟩
  · rw [hbody]
    exact h.below
  · simp only [block?, hbody]
    exact h.same k hk
  · rw [hcur]
    exact h.away
  · rw [hbody]
    exact h.entry

theorem push (h : Framed K b₀ s) (i : Instr) : Framed K b₀ (s.withBuilder (s.fn.builder.push i)) := by
  refine ⟨h.below, fun k hk => ?_, h.away, h.entry⟩
  have hne : s.fn.builder.current ≠ k := fun e => h.away (e ▸ hk)
  rw [GenState.withBuilder_builder, block?_push, if_neg hne]
  exact h.same k hk

theorem createBlock (h : Framed K b₀ s) (label : String) :
    Framed K b₀ (s.withBuilder (s.fn.builder.createBlock label).2) := by
  refine ⟨fun k hk => ?_, fun k hk => ?_, h.away, h.entry⟩ <;>
    simp only [GenState.withBuilder_builder, createBlock_nextId] at *
  · have := h.below k hk
    omega
  · have := h.below k hk
    rw [block?_createBlock, if_neg (by omega)]
    exact h.same k hk

theorem setTerm (h : Framed K b₀ s) (t : Terminator) (blk : Block) :
    Framed K b₀ (s.withBuilder (s.fn.builder.setTerm t blk)) := by
  refine ⟨h.below, fun k hk => ?_, h.away, h.entry⟩
  have hne : s.fn.builder.current ≠ k := fun e => h.away (e ▸ hk)
  rw [GenState.withBuilder_builder, block?_setTerm, if_neg hne]
  exact h.same k hk

theorem switch (h : Framed K b₀ s) {k : Nat} (hk : k ∉ K) :
    Framed K b₀ (s.withBuilder { s.fn.builder with current := k }) :=
  ⟨h.below, h.same, hk, h.entry⟩

theorem addClosed (h : Framed K b₀ s) (label : String) (t : Terminator) {s' : GenState}
    (hb : s'.fn.builder = s.fn.builder.addClosed label t) : Framed K b₀ s' := by
  refine ⟨fun k hk => ?_, fun k hk => ?_, ?_, ?_⟩ <;>
    simp only [hb, addClosed_nextId, addClosed_current, addClosed_entry]
  · have := h.below k hk
    omega
  · have := h.below k hk
    rw [block?_addClosed, if_neg (by omega)]
    exact h.same k hk
  · exact h.away
  · exact h.entry

end Framed

/-- What lowering code is watched for: a region to keep sealed, blocks to keep as they are in a
builder, blocks it made for itself, a bound the block counter stays above, and the loop and
return targets. -/
structure Watch where
  sealed : Set Nat
  kept : Set Nat
  origin : FnBuilder
  made : Set Nat
  floor : Nat
  loops : List LoopTargets
  returns : List Nat

/-- A state that keeps what `w` watches for, with a wired builder. The blocks lowering made for
itself were made, and none of them is a shared failure block. -/
structure Guard (w : Watch) (s : GenState) : Prop where
  wired : Wired s
  sealed : Sealed w.sealed s
  framed : Framed w.kept w.origin s
  made : ∀ k ∈ w.made, k < s.fn.builder.fn.body.nextId ∧ k ∉ s.fn.shared
  floor : w.floor ≤ s.fn.builder.fn.body.nextId
  loops : s.fn.loops = w.loops
  returns : s.fn.returnTargets = w.returns

/-- Lowering code that keeps every watch. -/
def Confines {α : Type} (m : Gen α) : Prop := ∀ w, Ensures (Guard w) m fun _ => Guard w

namespace Guard

variable {w : Watch}

theorem not_sealed_of_target (h : Guard w s) {k : Nat} (hk : k ∈ s.fn.targets) : k ∉ w.sealed :=
  h.sealed.targets k hk

theorem nextId_not_sealed (h : Guard w s) : s.fn.builder.fn.body.nextId ∉ w.sealed :=
  fun hk => Nat.lt_irrefl _ (h.sealed.below _ hk)

theorem nextId_not_kept (h : Guard w s) : s.fn.builder.fn.body.nextId ∉ w.kept :=
  fun hk => Nat.lt_irrefl _ (h.framed.below _ hk)

theorem nextId_not_shared (h : Guard w s) : s.fn.builder.fn.body.nextId ∉ s.fn.shared :=
  fun hk => Nat.lt_irrefl _ ((h.wired.quiet _ hk).lt h.wired.below)

theorem watched_target (h : Guard w s) {k : Nat} (hk : k ∈ loopTargets w.loops ++ w.returns) :
    (k < s.fn.builder.fn.body.nextId ∧ k ∉ s.fn.shared) ∧ k ∉ w.sealed := by
  rw [← h.loops, ← h.returns] at hk
  have ht : k ∈ s.fn.targets := by
    rw [FnState.targets_eq]
    exact List.mem_append_left _ hk
  exact ⟨⟨h.wired.named k ht, h.wired.apart k hk⟩, h.sealed.targets k ht⟩

theorem forget (h : Guard w s) {M : Set Nat} (hM : M ⊆ w.made) : Guard { w with made := M } s :=
  ⟨h.wired, h.sealed, h.framed, fun k hk => h.made k (hM hk), h.floor, h.loops, h.returns⟩

theorem reseal (h : Guard w s) {R : Set Nat} (hR : Sealed R s) : Guard { w with sealed := R } s :=
  ⟨h.wired, hR, h.framed, h.made, h.floor, h.loops, h.returns⟩

theorem congr (h : Guard w s) {s' : GenState} (hbody : s'.fn.builder.fn.body = s.fn.builder.fn.body)
    (hcur : s'.fn.builder.current = s.fn.builder.current) (hl : s'.fn.loops = s.fn.loops)
    (hr : s'.fn.returnTargets = s.fn.returnTargets) (hs : s'.fn.shared = s.fn.shared) : Guard w s' := by
  refine ⟨h.wired.congr hbody hcur hl hr hs, h.sealed.congr hbody (FnState.targets_congr hl hr hs),
    h.framed.congr hbody hcur, ?_, ?_, hl.trans h.loops, hr.trans h.returns⟩ <;> rw [hbody]
  · rw [hs]
    exact h.made
  · exact h.floor

theorem of_builder (h : Guard w s) {b : FnBuilder} (hbody : b.fn.body = s.fn.builder.fn.body)
    (hcur : b.current = s.fn.builder.current) : Guard w (s.withBuilder b) :=
  h.congr hbody hcur rfl rfl rfl

theorem of_fn (h : Guard w s) {s' : GenState} (hb : s'.fn.builder = s.fn.builder)
    (hl : s'.fn.loops = s.fn.loops) (hr : s'.fn.returnTargets = s.fn.returnTargets)
    (hs : s'.fn.shared = s.fn.shared) : Guard w s' :=
  h.congr (by rw [hb]) (by rw [hb]) hl hr hs

theorem of_fn_eq (h : Guard w s) {s' : GenState} (hfn : s'.fn = s.fn) : Guard w s' :=
  h.of_fn (by rw [hfn]) (by rw [hfn]) (by rw [hfn]) (by rw [hfn])

theorem push (h : Guard w s) (ho : s.fn.builder.isTerminated = false) (i : Instr) :
    Guard w (s.withBuilder (s.fn.builder.push i)) :=
  ⟨h.wired.push ho i, h.sealed.push i, h.framed.push i, h.made, h.floor, h.loops, h.returns⟩

theorem createBlock (h : Guard w s) (label : String) :
    Guard { w with made := insert s.fn.builder.fn.body.nextId w.made }
      (s.withBuilder (s.fn.builder.createBlock label).2) := by
  refine ⟨h.wired.createBlock label, h.sealed.createBlock label, h.framed.createBlock label,
    fun k hk => ?_, ?_, h.loops, h.returns⟩ <;>
    simp only [GenState.withBuilder_builder, createBlock_nextId]
  · rcases hk with rfl | hk
    · exact ⟨by omega, h.nextId_not_shared⟩
    · have := h.made k hk
      exact ⟨by omega, this.2⟩
  · have := h.floor
    omega

theorem setTerm (h : Guard w s) {t : Terminator} {blk : Block}
    (hb : s.fn.builder.block? s.fn.builder.current = some blk) (ho : blk.term = .invalid)
    (hts : ∀ x ∈ t.successors, (s.fn.builder.block? x).isSome)
    (hin : s.fn.builder.current ∈ w.sealed ∨ ∀ x ∈ t.successors, x ∉ w.sealed) :
    Guard w (s.withBuilder (s.fn.builder.setTerm t blk)) :=
  ⟨h.wired.setTerm hb ho hts, h.sealed.setTerm blk hin, h.framed.setTerm t blk, h.made, h.floor,
    h.loops, h.returns⟩

theorem switch (h : Guard w s) {k : Nat} (hk : k ∉ w.kept) (hm : k ∈ w.made)
    (hs : (s.fn.builder.block? k).isSome) :
    Guard w (s.withBuilder { s.fn.builder with current := k }) :=
  ⟨h.wired.switch hs (h.made k hm).2, h.sealed.congr rfl rfl, h.framed.switch hk, h.made, h.floor,
    h.loops, h.returns⟩

theorem addShared (h : Guard w s) (label : String) {t : Terminator} (hts : t.successors = [])
    (ht : t ≠ .invalid) {s' : GenState} (hb : s'.fn.builder = s.fn.builder.addClosed label t)
    (hl : s'.fn.loops = s.fn.loops) (hr : s'.fn.returnTargets = s.fn.returnTargets)
    (hs : ∀ k ∈ s'.fn.shared, k ∈ s.fn.shared ∨ k = s.fn.builder.fn.body.nextId) : Guard w s' := by
  refine ⟨h.wired.addShared label hts ht hb hl hr hs, h.sealed.addShared label hts hb hl hr hs,
    h.framed.addClosed label t hb, fun k hk => ?_, ?_, hl.trans h.loops, hr.trans h.returns⟩ <;>
    simp only [hb, addClosed_nextId]
  · have := h.made k hk
    refine ⟨by omega, fun hks => ?_⟩
    rcases hs k hks with hks | rfl
    · exact this.2 hks
    · omega
  · have := h.floor
    omega

theorem retarget (h : Guard w s) {s' : GenState} {L : List LoopTargets} {T : List Nat}
    (hb : s'.fn.builder = s.fn.builder) (hs : s'.fn.shared = s.fn.shared) (hL : s'.fn.loops = L)
    (hT : s'.fn.returnTargets = T)
    (hnew : ∀ k ∈ loopTargets L ++ T,
      (k < s.fn.builder.fn.body.nextId ∧ k ∉ s.fn.shared) ∧ k ∉ w.sealed) :
    Guard { w with loops := L, returns := T } s' := by
  subst hL hT
  refine ⟨h.wired.retarget hb hs fun k hk => (hnew k hk).1, h.sealed.retarget hb hs fun k hk => (hnew k hk).2,
    h.framed.congr (by rw [hb]) (by rw [hb]), ?_, ?_, rfl, rfl⟩ <;> rw [hb]
  · rw [hs]
    exact h.made
  · exact h.floor

end Guard

namespace Confines

variable {α β : Type} {x y : Gen α}

theorem pure (a : α) : Confines (Pure.pure a : Gen α) := fun _ => Ensures.pure fun _ h => h

theorem bind {f : α → Gen β} (hx : Confines x) (hf : ∀ a, Confines (f a)) : Confines (x >>= f) :=
  fun w => (hx w).bind fun a => hf a w

theorem throw {e : LowerError} : Confines (MonadExcept.throw e : Gen α) := fun _ => Ensures.throw

theorem throw_bind {e : LowerError} (f : α → Gen β) : Confines (MonadExcept.throw e >>= f) :=
  fun _ => Ensures.throw_bind f

theorem ite {c : Prop} {h : Decidable c} (hx : Confines x) (hy : Confines y) :
    Confines (if c then x else y) :=
  fun w => Ensures.ite (hx w) (hy w)

theorem discard (hx : Confines x) : Confines (Functor.discard x) := fun w => (hx w).discard

theorem lift {x : Except LowerError α} : Confines (x : Gen α) := fun _ => Ensures.lift fun _ _ h => h

theorem forIn {xs : List α} {f : α → β → Gen (ForInStep β)} (hf : ∀ a b, Confines (f a b))
    (init : β) : Confines (ForIn.forIn xs init f) :=
  fun w => Ensures.forIn (fun a b => hf a b w) init

theorem forInArray {xs : Array α} {f : α → β → Gen (ForInStep β)} (hf : ∀ a b, Confines (f a b))
    (init : β) : Confines (ForIn.forIn xs init f) := by
  rw [← Array.forIn_toList]
  exact forIn hf init

theorem forM {xs : List α} {f : α → Gen PUnit} (hf : ∀ a, Confines (f a)) : Confines (xs.forM f) :=
  fun w => Ensures.forM fun a => hf a w

theorem mapM {xs : List α} {f : α → Gen β} (hf : ∀ a, Confines (f a)) : Confines (xs.mapM f) :=
  fun w => Ensures.mapM fun a => hf a w

theorem anyM {xs : List α} {f : α → Gen Bool} (hf : ∀ a, Confines (f a)) : Confines (xs.anyM f) :=
  fun w => Ensures.anyM fun a => hf a w

theorem of_fnFixed {m : Gen α} (h : FnFixed m) : Confines m := by
  intro w env s a s' hs hrun
  have hfn := h s.fn env s rfl
  rw [hrun] at hfn
  exact hs.of_fn_eq hfn

end Confines

/-- Lowering code that keeps every watch whose sealed region misses block `k`: code that may
jump to `k`. -/
def ConfinesAt {α : Type} (k : Nat) (m : Gen α) : Prop :=
  ∀ w, k ∉ w.sealed → Ensures (Guard w) m fun _ => Guard w

theorem ConfinesAt.bind {α β : Type} {k : Nat} {x : Gen α} {f : α → Gen β} (hx : ConfinesAt k x)
    (hf : ∀ a, Confines (f a)) : ConfinesAt k (x >>= f) :=
  fun w hk => (hx w hk).bind fun a => hf a w

theorem Confines.bind_confinesAt {α β : Type} {k : Nat} {x : Gen α} {f : α → Gen β}
    (hx : Confines x) (hf : ∀ a, ConfinesAt k (f a)) : ConfinesAt k (x >>= f) :=
  fun w hk => (hx w).bind fun a => hf a w hk

namespace Gen

variable {w : Watch} {env : Env} {s s' : GenState} {α : Type}

theorem liftIr_ok {x : Except IrError α} {a : α} (h : liftIr x env s = .ok (a, s')) :
    x = .ok a ∧ s' = s := by
  cases x with
  | error e => cases h
  | ok b =>
    cases h
    exact ⟨rfl, rfl⟩

theorem checkOpen_ok {u : Unit} (h : checkOpen env s = .ok (u, s')) :
    s' = s ∧ s.fn.builder.isTerminated = false := by
  unfold checkOpen at h
  rw [bind_run_ok (get_run env s)] at h
  obtain ⟨hc, rfl⟩ := liftIr_ok h
  refine ⟨rfl, ?_⟩
  unfold FnBuilder.checkOpen at hc
  split at hc
  · cases hc
  · rename_i hne
    simpa using hne

theorem tryBuilder_ok {f : FnBuilder → Except IrError FnBuilder} {u : Unit}
    (h : tryBuilder f env s = .ok (u, s')) : ∃ b, f s.fn.builder = .ok b ∧ s' = s.withBuilder b := by
  unfold tryBuilder at h
  rw [bind_run_ok (get_run env s)] at h
  obtain ⟨b, s₁, h₁, h₂⟩ := bind_ok h
  obtain ⟨hb, rfl⟩ := liftIr_ok h₁
  rw [modifyBuilder_run] at h₂
  cases h₂
  exact ⟨b, hb, rfl⟩

theorem switchTo_ok {k : Nat} {u : Unit} (h : switchTo k env s = .ok (u, s')) :
    (s.fn.builder.block? k).isSome ∧ s' = s.withBuilder { s.fn.builder with current := k } := by
  obtain ⟨b, hb, rfl⟩ := tryBuilder_ok h
  unfold FnBuilder.switchTo at hb
  split at hb
  · rename_i hk
    cases hb
    rw [OrderedMap.contains_eq] at hk
    exact ⟨hk, rfl⟩
  · cases hb

theorem terminate_ok {t : Terminator} {u : Unit} (h : terminate t env s = .ok (u, s')) :
    (∀ x ∈ t.successors, (s.fn.builder.block? x).isSome) ∧ ∃ blk,
      s.fn.builder.block? s.fn.builder.current = some blk ∧ blk.term = .invalid ∧
        s' = s.withBuilder (s.fn.builder.setTerm t blk) := by
  obtain ⟨b, hb, rfl⟩ := tryBuilder_ok h
  obtain ⟨hts, blk, hblk, ho, rfl⟩ := FnBuilder.terminate_inv hb
  exact ⟨hts, blk, hblk, ho, rfl⟩

theorem terminalBlock_ok {label : String} {t : Terminator} {k : Nat}
    (h : terminalBlock label t env s = .ok (k, s')) :
    k = s.fn.builder.fn.body.nextId ∧ s' = s.withBuilder (s.fn.builder.addClosed label t) := by
  unfold terminalBlock at h
  rw [bind_run_ok (currentBlock_run env s), bind_run_ok (createBlock_run label env s)] at h
  obtain ⟨u, s₁, h₁, h⟩ := bind_ok h
  obtain ⟨-, rfl⟩ := switchTo_ok h₁
  obtain ⟨u, s₂, h₂, h⟩ := bind_ok h
  obtain ⟨-, blk, hblk, -, rfl⟩ := terminate_ok h₂
  obtain ⟨u, s₃, h₃, h⟩ := bind_ok h
  obtain ⟨-, rfl⟩ := switchTo_ok h₃
  -- the block just closed is the fresh one
  have hnew : blk = { id := s.fn.builder.fn.body.nextId, label := label } := by
    have hb : (s.fn.builder.createBlock label).2.block? s.fn.builder.fn.body.nextId = some blk := hblk
    rw [block?_createBlock, if_pos rfl] at hb
    exact (Option.some.inj hb).symm
  subst hnew
  cases h
  exact ⟨rfl, rfl⟩

end Gen

namespace Gen

variable {w : Watch} {α : Type}

theorem confines_emitUnit (i : Instr) : Confines (emitUnit i) := by
  intro w env s a s' h hrun
  unfold emitUnit at hrun
  obtain ⟨u, s₁, h₁, h₂⟩ := bind_ok hrun
  obtain ⟨rfl, ho⟩ := checkOpen_ok h₁
  rw [modifyBuilder_run] at h₂
  cases h₂
  exact h.push ho i

theorem confines_emit (mk : Value → Instr) : Confines (emit mk) := by
  intro w env s a s' h hrun
  unfold emit at hrun
  obtain ⟨u, s₁, h₁, h₂⟩ := bind_ok hrun
  obtain ⟨hs₁, ho⟩ := checkOpen_ok h₁
  rw [hs₁, withBuilder_run, emit_eq] at h₂
  cases h₂
  have hn : Guard w (s.withBuilder s.fn.builder.newTemp.2) := h.of_builder rfl rfl
  exact hn.push ho _

theorem confines_emitMany (n : Nat) (mk : List Value → Instr) : Confines (emitMany n mk) := by
  intro w env s a s' h hrun
  unfold emitMany at hrun
  obtain ⟨u, s₁, h₁, hrun⟩ := bind_ok hrun
  obtain ⟨hs₁, ho⟩ := checkOpen_ok h₁
  rw [hs₁, bind_run_ok (withBuilder_run _ env s), bind_run_ok (modifyBuilder_run _ env _)] at hrun
  cases hrun
  obtain ⟨hfn, hcur⟩ := Gen.newTemps_fn s.fn.builder n
  have hn : Guard w (s.withBuilder (s.fn.builder.newTemps n).2) := h.of_builder (by rw [hfn]) hcur
  have ho' : (s.fn.builder.newTemps n).2.isTerminated = false := by
    rw [← ho]
    unfold FnBuilder.isTerminated
    rw [hfn, hcur]
  exact hn.push ho' _

theorem confines_binary (op : IR.BinOp) (l r : Value) : Confines (binary op l r) := confines_emit _

theorem confines_unary (op : IR.UnOp) (v : Value) : Confines (unary op v) := confines_emit _

theorem confines_context (v : IR.ContextVar) : Confines (context v) := confines_emit _

theorem confines_modifyFn (f : FnState → FnState) (hb : ∀ c, (f c).builder = c.builder)
    (hl : ∀ c, (f c).loops = c.loops) (hr : ∀ c, (f c).returnTargets = c.returnTargets)
    (hs : ∀ c, (f c).shared = c.shared) : Confines (modifyFn f) := by
  intro w env s a s' h hrun
  rw [modifyFn_run] at hrun
  cases hrun
  exact h.of_fn (hb s.fn) (hl s.fn) (hr s.fn) (hs s.fn)

theorem confines_freshName (base : String) : Confines (freshName base) := by
  intro w env s a s' h hrun
  rw [freshName_run] at hrun
  cases hrun
  exact h.of_fn rfl rfl rfl rfl

theorem confines_freshLocal (base : String) : Confines (freshLocal base) := by
  intro w env s a s' h hrun
  rw [freshLocal_run] at hrun
  cases hrun
  exact h.of_fn rfl rfl rfl rfl

theorem confines_declareVar (v : Nat) (x : Value) : Confines (declareVar v x) := by
  refine confines_modifyFn _ (fun c => ?_) (fun c => ?_) (fun c => ?_) (fun c => ?_) <;>
    cases c.layers <;> rfl

theorem confines_declareInFunctionScope (v : Nat) (x : Value) :
    Confines (declareInFunctionScope v x) :=
  confines_modifyFn _ (fun _ => rfl) (fun _ => rfl) (fun _ => rfl) (fun _ => rfl)

theorem confines_pushLayer : Confines pushLayer :=
  confines_modifyFn _ (fun _ => rfl) (fun _ => rfl) (fun _ => rfl) (fun _ => rfl)

theorem confines_popLayer : Confines popLayer :=
  confines_modifyFn _ (fun _ => rfl) (fun _ => rfl) (fun _ => rfl) (fun _ => rfl)

theorem createBlock_ensures (label : String) :
    Ensures (Guard w) (createBlock label) fun k s =>
      Guard { w with made := insert k w.made } s ∧ k ∉ w.sealed ∧ k ∉ w.kept := by
  intro env s k s' h hrun
  rw [createBlock_run] at hrun
  cases hrun
  exact ⟨h.createBlock label, h.nextId_not_sealed, h.nextId_not_kept⟩

theorem terminate_ensures {t : Terminator} (hts : ∀ x ∈ t.successors, x ∉ w.sealed) :
    Ensures (Guard w) (terminate t) fun _ => Guard w := by
  intro env s u s' h hrun
  obtain ⟨hex, blk, hblk, ho, rfl⟩ := terminate_ok hrun
  exact h.setTerm hblk ho hex (.inr hts)

theorem terminate_ensures_inside (t : Terminator) :
    Ensures (fun s => Guard w s ∧ s.fn.builder.current ∈ w.sealed) (terminate t) fun _ => Guard w := by
  rintro env s u s' ⟨h, hc⟩ hrun
  obtain ⟨hex, blk, hblk, ho, rfl⟩ := terminate_ok hrun
  exact h.setTerm hblk ho hex (.inl hc)

theorem confines_terminate {t : Terminator} (hts : t.successors = []) : Confines (terminate t) :=
  fun _ => terminate_ensures (by simp [hts])

theorem switchTo_ensures {k : Nat} (hk : k ∉ w.kept) (hm : k ∈ w.made) :
    Ensures (Guard w) (switchTo k) fun _ => Guard w := by
  intro env s u s' h hrun
  obtain ⟨hs, rfl⟩ := switchTo_ok hrun
  exact h.switch hk hm hs

theorem confines_isTerminated : Confines isTerminated := Confines.of_fnFixed fnFixed_isTerminated

theorem confinesAt_jumpIfOpen (target : Nat) : ConfinesAt target (jumpIfOpen target) := by
  intro w ht
  unfold jumpIfOpen
  refine (confines_isTerminated w).bind fun b => Ensures.ite ?_ (Ensures.pure fun _ h => h)
  exact terminate_ensures (by simpa [Terminator.successors] using ht)

theorem startBlock_ensures (label : String) :
    Ensures (Guard w) (startBlock label) fun k s =>
      Guard { w with made := insert k w.made } s ∧ k ∉ w.sealed ∧ k ∉ w.kept := by
  intro env s k s' h hrun
  rw [startBlock_run] at hrun
  cases hrun
  have hs : ((s.fn.builder.createBlock label).2.block? s.fn.builder.fn.body.nextId).isSome := by
    rw [block?_createBlock, if_pos rfl]
    rfl
  exact ⟨(h.createBlock label).switch h.nextId_not_kept (.inl rfl) hs, h.nextId_not_sealed,
    h.nextId_not_kept⟩

theorem confines_startBlock (label : String) : Confines (startBlock label) := fun w =>
  (startBlock_ensures label).mono fun k _ h => h.1.forget (Set.subset_insert k w.made)

theorem confinesAt_jumpAndDetach (target : Nat) : ConfinesAt target (jumpAndDetach target) := by
  intro w ht
  unfold jumpAndDetach
  exact (terminate_ensures (by simpa [Terminator.successors] using ht)).bind fun _ =>
    (confines_startBlock _).discard w

theorem confinesAt_failIf (cond : Value) (failure : Nat) (label : String) :
    ConfinesAt failure (failIf cond failure label) := by
  intro w hf
  unfold failIf
  split
  · exact Ensures.ite (Ensures.pure fun _ h => h) (confinesAt_jumpAndDetach failure w hf)
  · refine (createBlock_ensures label).bind fun next => Ensures.of_fact fun hn => ?_
    obtain ⟨hs, hk⟩ := hn
    refine (terminate_ensures ?_).bind fun _ =>
      (switchTo_ensures (w := { w with made := insert next w.made }) hk (.inl rfl)).mono fun _ _ h =>
        h.forget (Set.subset_insert next w.made)
    simp [Terminator.successors, hf, hs]

theorem confines_terminate_detach {t : Terminator} (hts : t.successors = []) (label : String)
    {f : Unit → Gen α} (hf : ∀ u, Confines (f u)) :
    Confines (terminate t >>= fun _ => discard (startBlock label) >>= f) :=
  (confines_terminate hts).bind fun _ => ((confines_startBlock label).discard).bind hf

end Gen

namespace Gen

variable {w : Watch} {α : Type}

theorem revertBlock_ensures : Ensures (Guard w) revertBlock fun k s => Guard w s ∧ k ∉ w.sealed := by
  intro env s k s' h hrun
  unfold revertBlock at hrun
  rw [bind_run_ok (get_run env s)] at hrun
  cases hr : s.fn.revertBlock with
  | some a =>
    simp only [hr] at hrun
    cases hrun
    exact ⟨h, h.not_sealed_of_target (by simp [FnState.targets, hr])⟩
  | none =>
    simp only [hr] at hrun
    obtain ⟨b, s₁, h₁, hrun⟩ := bind_ok hrun
    obtain ⟨rfl, rfl⟩ := terminalBlock_ok h₁
    rw [bind_run_ok (modifyFn_run _ env _)] at hrun
    cases hrun
    refine ⟨h.addShared "revert" rfl (by simp) rfl rfl rfl fun j hj => ?_, h.nextId_not_sealed⟩
    simp only [FnState.shared, List.mem_append, Option.toList_some, List.mem_singleton] at hj ⊢
    tauto

theorem assertFailBlock_ensures :
    Ensures (Guard w) assertFailBlock fun k s => Guard w s ∧ k ∉ w.sealed := by
  intro env s k s' h hrun
  unfold assertFailBlock at hrun
  rw [bind_run_ok (get_run env s)] at hrun
  cases hr : s.fn.assertFailBlock with
  | some a =>
    simp only [hr] at hrun
    cases hrun
    exact ⟨h, h.not_sealed_of_target (by simp [FnState.targets, hr])⟩
  | none =>
    simp only [hr] at hrun
    obtain ⟨b, s₁, h₁, hrun⟩ := bind_ok hrun
    obtain ⟨rfl, rfl⟩ := terminalBlock_ok h₁
    rw [bind_run_ok (modifyFn_run _ env _)] at hrun
    cases hrun
    refine ⟨h.addShared "assert.fail" rfl (by simp) rfl rfl rfl fun j hj => ?_, h.nextId_not_sealed⟩
    simp only [FnState.shared, List.mem_append, Option.toList_some, List.mem_singleton] at hj ⊢
    tauto

theorem statusRevertBlock_ensures :
    Ensures (Guard w) statusRevertBlock fun p s => Guard w s ∧ p.1 ∉ w.sealed := by
  intro env s p s' h hrun
  unfold statusRevertBlock at hrun
  rw [bind_run_ok (get_run env s)] at hrun
  cases hr : s.fn.statusRevert with
  | some a =>
    simp only [hr] at hrun
    cases hrun
    exact ⟨h, h.not_sealed_of_target (by simp [FnState.targets, hr])⟩
  | none =>
    simp only [hr] at hrun
    obtain ⟨status, s₁, h₁, hrun⟩ := bind_ok hrun
    have g₁ := confines_freshLocal "status" w env s status s₁ h h₁
    obtain ⟨b, s₂, h₂, hrun⟩ := bind_ok hrun
    obtain ⟨rfl, rfl⟩ := terminalBlock_ok h₂
    rw [bind_run_ok (modifyFn_run _ env _)] at hrun
    cases hrun
    refine ⟨g₁.addShared "revert.status" rfl (by simp) rfl rfl rfl fun j hj => ?_,
      g₁.nextId_not_sealed⟩
    simp only [FnState.shared, List.mem_append, Option.map_some, Option.toList_some,
      List.mem_singleton] at hj ⊢
    tauto

theorem confines_revertBlock_bind {f : Nat → Gen α} (hf : ∀ k, ConfinesAt k (f k)) :
    Confines (revertBlock >>= f) :=
  fun w => revertBlock_ensures.bind fun k => Ensures.of_fact fun hk => hf k w hk

theorem confines_assertFailBlock_bind {f : Nat → Gen α} (hf : ∀ k, ConfinesAt k (f k)) :
    Confines (assertFailBlock >>= f) :=
  fun w => assertFailBlock_ensures.bind fun k => Ensures.of_fact fun hk => hf k w hk

theorem confines_statusRevertBlock_bind {f : Nat × Value → Gen α} (hf : ∀ p, ConfinesAt p.1 (f p)) :
    Confines (statusRevertBlock >>= f) :=
  fun w => statusRevertBlock_ensures.bind fun p => Ensures.of_fact fun hp => hf p w hp

theorem pushLoop_ensures {b c : Nat} (hb : b ∈ w.made ∧ b ∉ w.sealed) (hc : c ∈ w.made ∧ c ∉ w.sealed) :
    Ensures (Guard w) (pushLoop b c) fun _ => Guard { w with loops := ⟨b, c⟩ :: w.loops } := by
  intro env s u s' h hrun
  rw [pushLoop, modifyFn_run] at hrun
  cases hrun
  refine h.retarget rfl rfl (congrArg (List.cons _) h.loops) h.returns fun k hk => ?_
  rw [loopTargets, List.flatMap_cons, List.append_assoc, List.mem_append] at hk
  rcases hk with hk | hk
  · simp only [List.mem_cons, List.not_mem_nil, or_false] at hk
    rcases hk with rfl | rfl
    · exact ⟨h.made _ hb.1, hb.2⟩
    · exact ⟨h.made _ hc.1, hc.2⟩
  · exact h.watched_target hk

theorem popLoop_ensures : Ensures (Guard w) popLoop fun _ => Guard { w with loops := w.loops.drop 1 } := by
  intro env s u s' h hrun
  rw [popLoop, modifyFn_run] at hrun
  cases hrun
  refine h.retarget rfl rfl (congrArg (List.drop 1) h.loops) h.returns fun k hk => ?_
  rcases List.mem_append.mp hk with hk | hk
  · exact h.watched_target (List.mem_append_left _ (mem_loopTargets_drop hk))
  · exact h.watched_target (List.mem_append_right _ hk)

theorem pushReturnTarget_ensures {b : Nat} (hb : b ∈ w.made ∧ b ∉ w.sealed) :
    Ensures (Guard w) (pushReturnTarget b) fun _ => Guard { w with returns := b :: w.returns } := by
  intro env s u s' h hrun
  rw [pushReturnTarget, modifyFn_run] at hrun
  cases hrun
  refine h.retarget rfl rfl h.loops (congrArg (List.cons _) h.returns) fun k hk => ?_
  simp only [List.mem_append, List.mem_cons] at hk
  rcases hk with hk | rfl | hk
  · exact h.watched_target (List.mem_append_left _ hk)
  · exact ⟨h.made _ hb.1, hb.2⟩
  · exact h.watched_target (List.mem_append_right _ hk)

theorem popReturnTarget_ensures :
    Ensures (Guard w) popReturnTarget fun _ => Guard { w with returns := w.returns.drop 1 } := by
  intro env s u s' h hrun
  rw [popReturnTarget, modifyFn_run] at hrun
  cases hrun
  refine h.retarget rfl rfl h.loops (congrArg (List.drop 1) h.returns) fun k hk => ?_
  rcases List.mem_append.mp hk with hk | hk
  · exact h.watched_target (List.mem_append_left _ hk)
  · exact h.watched_target (List.mem_append_right _ (List.mem_of_mem_drop hk))

theorem takeLoops_ensures :
    Ensures (Guard w) takeLoops fun ls s =>
      Guard { w with loops := [], made := w.made ∪ {k | k ∈ loopTargets w.loops} } s ∧ ls = w.loops ∧
        ∀ k ∈ loopTargets ls, k ∉ w.sealed := by
  intro env s ls s' h hrun
  unfold takeLoops at hrun
  rw [bind_run_ok (get_run env s), bind_run_ok (modifyFn_run _ env s)] at hrun
  cases hrun
  have hold : ∀ k ∈ loopTargets w.loops,
      (k < s.fn.builder.fn.body.nextId ∧ k ∉ s.fn.shared) ∧ k ∉ w.sealed :=
    fun k hk => h.watched_target (List.mem_append_left _ hk)
  have g : Guard { w with loops := [] } { s with fn := { s.fn with loops := [] } } :=
    h.retarget rfl rfl rfl h.returns fun k hk =>
      h.watched_target (List.mem_append_right _ (by simpa [loopTargets] using hk))
  refine ⟨⟨g.wired, g.sealed, g.framed, fun k hk => ?_, g.floor, g.loops, g.returns⟩, h.loops,
    fun k hk => (hold k (h.loops ▸ hk)).2⟩
  rcases hk with hk | hk
  · exact h.made k hk
  · exact (hold k hk).1

theorem restoreLoops_ensures {ls : List LoopTargets} (hls : ∀ k ∈ loopTargets ls, k ∈ w.made ∧ k ∉ w.sealed) :
    Ensures (Guard w) (restoreLoops ls) fun _ => Guard { w with loops := ls } := by
  intro env s u s' h hrun
  rw [restoreLoops, modifyFn_run] at hrun
  cases hrun
  refine h.retarget rfl rfl rfl h.returns fun k hk => ?_
  rcases List.mem_append.mp hk with hk | hk
  · exact ⟨h.made k (hls k hk).1, (hls k hk).2⟩
  · exact h.watched_target (List.mem_append_right _ hk)

end Gen

end ContractCfg.Lower
