import ContractCfg.IR.Builder
import ContractCfg.Proofs.OrderedMap

namespace ContractCfg.IR.FnBuilder

/-- The block `k` of the function under construction. -/
def block? (b : FnBuilder) (k : Nat) : Option Block := b.fn.body.blocks.get? k

/-- The instructions of block `k`, none for a missing block. -/
def instrsOf (b : FnBuilder) (k : Nat) : List Instr := ((b.block? k).map (·.instrs.toList)).getD []

/-- The current block after `i` is appended to it. -/
def Block.pushInstr (i : Instr) (blk : Block) : Block := { blk with instrs := blk.instrs.push i }

variable (b : FnBuilder)

@[simp] theorem push_current (i : Instr) : (b.push i).current = b.current := rfl
@[simp] theorem push_nextTemp (i : Instr) : (b.push i).nextTemp = b.nextTemp := rfl
@[simp] theorem push_nextId (i : Instr) : (b.push i).fn.body.nextId = b.fn.body.nextId := rfl
@[simp] theorem push_entry (i : Instr) : (b.push i).fn.body.entry = b.fn.body.entry := rfl
@[simp] theorem push_sig (i : Instr) : (b.push i).fn.sig = b.fn.sig := rfl

theorem block?_push (i : Instr) (k : Nat) :
    (b.push i).block? k = if b.current = k then (b.block? k).map (Block.pushInstr i) else b.block? k := by
  unfold block? push
  rw [OrderedMap.get?_modify]
  split
  · subst_vars; rfl
  · rfl

theorem keys_push (i : Instr) : (b.push i).fn.body.blocks.keys = b.fn.body.blocks.keys :=
  OrderedMap.keys_modify _ _ _

@[simp] theorem newTemp_fst : b.newTemp.1 = .reg (toString b.nextTemp) := rfl
@[simp] theorem newTemp_current : b.newTemp.2.current = b.current := rfl
@[simp] theorem newTemp_nextTemp : b.newTemp.2.nextTemp = b.nextTemp + 1 := rfl
@[simp] theorem newTemp_fn : b.newTemp.2.fn = b.fn := rfl

theorem emit_eq (mk : Value → Instr) :
    b.emit mk = (.reg (toString b.nextTemp), b.newTemp.2.push (mk (.reg (toString b.nextTemp)))) := rfl

@[simp] theorem createBlock_fst (label : String) : (b.createBlock label).1 = b.fn.body.nextId := rfl
@[simp] theorem createBlock_current (label : String) : (b.createBlock label).2.current = b.current := rfl
@[simp] theorem createBlock_nextTemp (label : String) :
    (b.createBlock label).2.nextTemp = b.nextTemp := rfl
@[simp] theorem createBlock_nextId (label : String) :
    (b.createBlock label).2.fn.body.nextId = b.fn.body.nextId + 1 := rfl
@[simp] theorem createBlock_entry (label : String) :
    (b.createBlock label).2.fn.body.entry = b.fn.body.entry := rfl
@[simp] theorem createBlock_sig (label : String) : (b.createBlock label).2.fn.sig = b.fn.sig := rfl

theorem block?_createBlock (label : String) (k : Nat) :
    (b.createBlock label).2.block? k =
      if b.fn.body.nextId = k then some { id := b.fn.body.nextId, label := label } else b.block? k := by
  unfold block? createBlock
  exact OrderedMap.get?_insert _ _ _ _

/-- Closes the current block with `t`, as `terminate` does once its checks pass. -/
def setTerm (t : Terminator) (blk : Block) : FnBuilder :=
  { b with fn := { b.fn with body := { b.fn.body with
    blocks := b.fn.body.blocks.insert b.current { blk with term := t } } } }

theorem terminate_eq {t : Terminator} {blk : Block} (hts : ∀ x ∈ t.successors, (b.block? x).isSome)
    (hb : b.block? b.current = some blk) (ho : blk.term = .invalid) :
    b.terminate t = .ok (b.setTerm t blk) := by
  have hc : ∀ x ∈ t.successors, b.fn.body.blocks.contains x = true := by
    intro x hx; rw [OrderedMap.contains_eq]; exact hts x hx
  unfold terminate
  generalize t.successors = xs at hc
  induction xs with
  | nil =>
    simp only [block?] at hb
    simp [hb, Block.isTerminated, ho, setTerm]
    rfl
  | cons x xs ih =>
    have hx := hc x (by simp)
    have := ih (fun y hy => hc y (by simp [hy]))
    simp only [List.forIn_cons, hx, Bool.not_true] at this ⊢
    exact this

variable {b}

@[simp] theorem setTerm_current (t : Terminator) (blk : Block) : (b.setTerm t blk).current = b.current := rfl
@[simp] theorem setTerm_nextTemp (t : Terminator) (blk : Block) :
    (b.setTerm t blk).nextTemp = b.nextTemp := rfl
@[simp] theorem setTerm_nextId (t : Terminator) (blk : Block) :
    (b.setTerm t blk).fn.body.nextId = b.fn.body.nextId := rfl
@[simp] theorem setTerm_entry (t : Terminator) (blk : Block) :
    (b.setTerm t blk).fn.body.entry = b.fn.body.entry := rfl
@[simp] theorem setTerm_sig (t : Terminator) (blk : Block) : (b.setTerm t blk).fn.sig = b.fn.sig := rfl

theorem block?_setTerm (t : Terminator) (blk : Block) (k : Nat) :
    (b.setTerm t blk).block? k = if b.current = k then some { blk with term := t } else b.block? k := by
  unfold block? setTerm
  exact OrderedMap.get?_insert _ _ _ _

theorem keys_setTerm {t : Terminator} {blk blk' : Block} (h : b.block? b.current = some blk') :
    (b.setTerm t blk).fn.body.blocks.keys = b.fn.body.blocks.keys := by
  apply OrderedMap.keys_insert_of_contains
  rw [OrderedMap.contains_eq]
  simp [block?] at h
  simp [h]

theorem keys_createBlock {label : String} (h : b.block? b.fn.body.nextId = none) :
    (b.createBlock label).2.fn.body.blocks.keys = b.fn.body.blocks.keys ++ [b.fn.body.nextId] := by
  apply OrderedMap.keys_insert_of_not_contains
  rw [OrderedMap.contains_eq]
  simp [block?] at h
  simp [h]

theorem switchTo_eq {id : Nat} (h : (b.block? id).isSome) : b.switchTo id = .ok { b with current := id } := by
  unfold switchTo
  rw [OrderedMap.contains_eq]
  simp [block?] at h
  simp [h]

theorem checkOpen_eq {blk : Block} (h : b.block? b.current = some blk) (ho : blk.term = .invalid) :
    b.checkOpen = .ok () := by
  simp only [block?] at h
  simp [checkOpen, isTerminated, h, Block.isTerminated, ho]

theorem isTerminated_eq {blk : Block} (h : b.block? b.current = some blk) :
    b.isTerminated = blk.isTerminated := by
  simp only [block?] at h
  simp [isTerminated, h]

end ContractCfg.IR.FnBuilder

namespace ContractCfg.IR.FnBuilder

/-- Every block id is below the next one. -/
def Below (b : FnBuilder) : Prop := ∀ k, (b.block? k).isSome → k < b.fn.body.nextId

/-- The current block exists and is open. -/
def IsOpen (b : FnBuilder) : Prop := ∃ blk, b.block? b.current = some blk ∧ blk.term = .invalid

/-- What building code may do to a builder, relative to the blocks below `n` (those that
existed when the code started): counters only rise, no block below `n` changes except the
current one, which only gains instructions and, once control has left it, its terminator,
and control only moves to blocks from `n` on. -/
structure Grows (n : Nat) (b b' : FnBuilder) : Prop where
  nextTemp : b.nextTemp ≤ b'.nextTemp
  nextId : b.fn.body.nextId ≤ b'.fn.body.nextId
  entry : b'.fn.body.entry = b.fn.body.entry
  sig : b'.fn.sig = b.fn.sig
  others : ∀ k < n, k ≠ b.current → b'.block? k = b.block? k
  current : b.current < n → ∀ blk, b.block? b.current = some blk → ∃ blk',
    b'.block? b.current = some blk' ∧ blk.instrs.toList <+: blk'.instrs.toList ∧
      (b'.current ≠ b.current → blk'.term ≠ .invalid)
  moved : b'.current = b.current ∨ n ≤ b'.current

namespace Grows

variable {n : Nat} {b b₁ b₂ : FnBuilder}

theorem refl (n : Nat) (b : FnBuilder) : Grows n b b := by
  refine ⟨Nat.le_refl _, Nat.le_refl _, rfl, rfl, fun _ _ _ => rfl, ?_, Or.inl rfl⟩
  intro _ blk hb
  exact ⟨blk, hb, List.prefix_refl _, fun h => absurd rfl h⟩

theorem mono {m : Nat} (hmn : m ≤ n) (h : Grows n b b₁) : Grows m b b₁ := by
  refine ⟨h.nextTemp, h.nextId, h.entry, h.sig, fun k hk => h.others k (by omega),
    fun hc => h.current (by omega), ?_⟩
  rcases h.moved with heq | hge
  · exact Or.inl heq
  · exact Or.inr (by omega)

theorem trans (h₁ : Grows n b b₁) (h₂ : Grows n b₁ b₂) : Grows n b b₂ := by
  refine ⟨Nat.le_trans h₁.nextTemp h₂.nextTemp, Nat.le_trans h₁.nextId h₂.nextId,
    h₂.entry.trans h₁.entry, h₂.sig.trans h₁.sig, ?_, ?_, ?_⟩
  · intro k hk hne
    have hne₁ : k ≠ b₁.current := by
      rcases h₁.moved with heq | hge
      · rw [heq]; exact hne
      · omega
    rw [h₂.others k hk hne₁, h₁.others k hk hne]
  · intro hc blk hb
    obtain ⟨blk₁, hb₁, hp₁, ht₁⟩ := h₁.current hc blk hb
    by_cases hstay : b₁.current = b.current
    · obtain ⟨blk₂, hb₂, hp₂, ht₂⟩ := h₂.current (hstay ▸ hc) blk₁ (hstay ▸ hb₁)
      refine ⟨blk₂, hstay ▸ hb₂, hp₁.trans hp₂, fun hne => ht₂ ?_⟩
      rw [hstay]; exact hne
    · have hkeep := h₂.others b.current hc (Ne.symm hstay)
      exact ⟨blk₁, hkeep.trans hb₁, hp₁, fun _ => ht₁ hstay⟩
  · rcases h₂.moved with heq | hge
    · rw [heq]; exact h₁.moved
    · exact Or.inr hge

end Grows

variable {n : Nat} {b : FnBuilder}

theorem grows_push (i : Instr) : Grows n b (b.push i) := by
  refine ⟨Nat.le_refl _, Nat.le_refl _, rfl, rfl, ?_, ?_, Or.inl rfl⟩
  · intro k _ hne
    rw [block?_push, if_neg (Ne.symm hne)]
  · intro _ blk hb
    refine ⟨Block.pushInstr i blk, by rw [block?_push, if_pos rfl, hb]; rfl, ?_, fun h => absurd rfl h⟩
    simp [Block.pushInstr]

theorem grows_newTemp : Grows n b b.newTemp.2 := by
  refine ⟨by simp, Nat.le_refl _, rfl, rfl, fun _ _ _ => rfl, ?_, Or.inl rfl⟩
  intro _ blk hb
  exact ⟨blk, hb, List.prefix_refl _, fun h => absurd rfl h⟩

theorem grows_createBlock (label : String) (hn : n ≤ b.fn.body.nextId) :
    Grows n b (b.createBlock label).2 := by
  refine ⟨Nat.le_refl _, by simp, rfl, rfl, ?_, ?_, Or.inl rfl⟩
  · intro k hk _
    rw [block?_createBlock, if_neg (by omega)]
  · intro hc blk hb
    refine ⟨blk, ?_, List.prefix_refl _, fun h => absurd rfl h⟩
    rw [block?_createBlock, if_neg (by omega), hb]

theorem grows_setTerm (t : Terminator) {blk : Block} (hb : b.block? b.current = some blk) :
    Grows n b (b.setTerm t blk) := by
  refine ⟨Nat.le_refl _, Nat.le_refl _, rfl, rfl, ?_, ?_, Or.inl rfl⟩
  · intro k _ hne
    rw [block?_setTerm, if_neg (Ne.symm hne)]
  · intro _ blk' hb'
    rw [hb] at hb'
    cases hb'
    exact ⟨{ blk with term := t }, by rw [block?_setTerm, if_pos rfl], List.prefix_refl _,
      fun h => absurd rfl h⟩

theorem grows_switch {id : Nat} (hid : n ≤ id)
    (hc : ∀ blk, b.block? b.current = some blk → blk.term ≠ .invalid) :
    Grows n b { b with current := id } := by
  refine ⟨Nat.le_refl _, Nat.le_refl _, rfl, rfl, fun _ _ _ => rfl, ?_, Or.inr hid⟩
  intro _ blk hb
  exact ⟨blk, hb, List.prefix_refl _, fun _ => hc blk hb⟩

/-- The final function `f` finishes what `b` has built: every closed block is final, and the
instructions of the current block so far begin its final version. -/
structure Completes (f : Function) (b : FnBuilder) : Prop where
  closed : ∀ k blk, b.block? k = some blk → blk.term ≠ .invalid → f.body.blocks.get? k = some blk
  current : ∀ blk, b.block? b.current = some blk → ∃ blkF,
    f.body.blocks.get? b.current = some blkF ∧ blk.instrs.toList <+: blkF.instrs.toList

namespace Completes

variable {f : Function} {b' : FnBuilder}

theorem of_grows (hs : Below b) (ho : IsOpen b) (hg : Grows b.fn.body.nextId b b')
    (hc : Completes f b') : Completes f b := by
  obtain ⟨cur, hcur, hopen⟩ := ho
  have hlt : b.current < b.fn.body.nextId := hs _ (by simp [hcur])
  refine ⟨?_, ?_⟩
  · intro k blk hb ht
    have hne : k ≠ b.current := by
      rintro rfl
      rw [hcur] at hb
      cases hb
      exact ht hopen
    have hk : k < b.fn.body.nextId := hs k (by simp [hb])
    exact hc.closed k blk (by rw [hg.others k hk hne, hb]) ht
  · intro blk hb
    obtain ⟨blk', hb', hp, ht⟩ := hg.current hlt blk hb
    by_cases hstay : b'.current = b.current
    · obtain ⟨blkF, hF, hpF⟩ := hc.current blk' (hstay ▸ hb')
      exact ⟨blkF, hstay ▸ hF, hp.trans hpF⟩
    · exact ⟨blk', hc.closed _ _ hb' (ht hstay), hp⟩

theorem instr_at {i : Instr} (hc : Completes f (b.push i)) {blk : Block}
    (hb : b.block? b.current = some blk) : ∃ blkF, f.body.blocks.get? b.current = some blkF ∧
      blkF.instrs.toList[blk.instrs.size]? = some i := by
  have hb' : (b.push i).block? (b.push i).current = some (Block.pushInstr i blk) := by
    rw [block?_push]; simp [hb]
  obtain ⟨blkF, hF, hp⟩ := hc.current _ hb'
  refine ⟨blkF, hF, ?_⟩
  obtain ⟨rest, hrest⟩ := hp
  rw [← hrest]
  simp [Block.pushInstr]

end Completes

end ContractCfg.IR.FnBuilder

namespace ContractCfg.IR.FnBuilder

/-- `b` with one more block, labelled `label` and closed by `t`; the current block stays. -/
def addClosed (b : FnBuilder) (label : String) (t : Terminator) : FnBuilder :=
  { ({ (b.createBlock label).2 with current := b.fn.body.nextId }.setTerm t
      { id := b.fn.body.nextId, label := label }) with current := b.current }

variable (b : FnBuilder) (label : String) (t : Terminator)

@[simp] theorem addClosed_current : (b.addClosed label t).current = b.current := rfl
@[simp] theorem addClosed_nextTemp : (b.addClosed label t).nextTemp = b.nextTemp := rfl
@[simp] theorem addClosed_nextId : (b.addClosed label t).fn.body.nextId = b.fn.body.nextId + 1 := rfl
@[simp] theorem addClosed_entry : (b.addClosed label t).fn.body.entry = b.fn.body.entry := rfl
@[simp] theorem addClosed_sig : (b.addClosed label t).fn.sig = b.fn.sig := rfl

theorem block?_addClosed (k : Nat) : (b.addClosed label t).block? k =
    if b.fn.body.nextId = k then some { id := b.fn.body.nextId, label := label, term := t }
    else b.block? k := by
  show (({ (b.createBlock label).2 with current := b.fn.body.nextId }).setTerm t _).block? k = _
  rw [block?_setTerm]
  split
  · rfl
  · rename_i hne
    have := block?_createBlock b label k
    rw [if_neg hne] at this
    exact this

variable {b label t} {n : Nat}

theorem grows_addClosed (hn : n ≤ b.fn.body.nextId) : Grows n b (b.addClosed label t) := by
  refine ⟨Nat.le_refl _, by simp, rfl, rfl, ?_, ?_, Or.inl rfl⟩
  · intro k hk _
    rw [block?_addClosed, if_neg (by omega)]
  · intro hc blk hb
    refine ⟨blk, ?_, List.prefix_refl _, fun h => absurd rfl h⟩
    rw [block?_addClosed, if_neg (by omega), hb]

end ContractCfg.IR.FnBuilder

namespace ContractCfg.IR.FnBuilder

variable {b : FnBuilder}

/-- The block ids of the builder are pairwise distinct. -/
def KeysNodup (b : FnBuilder) : Prop := b.fn.body.blocks.keys.Nodup

theorem Below.push (h : Below b) (i : Instr) : Below (b.push i) := by
  intro k hk
  rw [block?_push] at hk
  split at hk
  · exact h k (by simpa using hk)
  · exact h k hk

theorem Below.createBlock (h : Below b) (label : String) : Below (b.createBlock label).2 := by
  intro k hk
  rw [block?_createBlock] at hk
  simp only [createBlock_nextId]
  split at hk
  · omega
  · have := h k hk; omega

theorem Below.setTerm (h : Below b) (t : Terminator) {blk : Block}
    (hb : b.block? b.current = some blk) : Below (b.setTerm t blk) := by
  intro k hk
  rw [block?_setTerm] at hk
  split at hk
  · subst k; exact h _ (by simp [hb])
  · exact h k hk

theorem Below.switch (h : Below b) (id : Nat) : Below { b with current := id } := h

theorem Below.addClosed (h : Below b) (label : String) (t : Terminator) :
    Below (b.addClosed label t) := by
  intro k hk
  rw [block?_addClosed] at hk
  simp only [addClosed_nextId]
  split at hk
  · omega
  · have := h k hk; omega

theorem IsOpen.push (h : IsOpen b) (i : Instr) : IsOpen (b.push i) := by
  obtain ⟨blk, hb, ho⟩ := h
  exact ⟨Block.pushInstr i blk, by rw [block?_push, push_current, if_pos rfl, hb]; rfl, ho⟩

theorem IsOpen.createBlock (h : IsOpen b) (hb : Below b) (label : String) :
    IsOpen (b.createBlock label).2 := by
  obtain ⟨blk, hcur, ho⟩ := h
  have hlt := hb b.current (by simp [hcur])
  exact ⟨blk, by rw [createBlock_current, block?_createBlock, if_neg (by omega), hcur], ho⟩

theorem IsOpen.addClosed (h : IsOpen b) (hb : Below b) (label : String) (t : Terminator) :
    IsOpen (b.addClosed label t) := by
  obtain ⟨blk, hcur, ho⟩ := h
  have hlt := hb b.current (by simp [hcur])
  exact ⟨blk, by rw [addClosed_current, block?_addClosed, if_neg (by omega), hcur], ho⟩

theorem IsOpen.switch {p : Nat} {blk : Block} (hp : b.block? p = some blk) (ho : blk.term = .invalid) :
    IsOpen { b with current := p } := ⟨blk, hp, ho⟩

theorem KeysNodup.push (h : KeysNodup b) (i : Instr) : KeysNodup (b.push i) := by
  unfold KeysNodup
  rw [keys_push]
  exact h

theorem KeysNodup.createBlock (h : KeysNodup b) (hb : Below b) (label : String) :
    KeysNodup (b.createBlock label).2 := by
  have hnone : b.block? b.fn.body.nextId = none := by
    cases hk : b.block? b.fn.body.nextId with
    | none => rfl
    | some _ => have := hb b.fn.body.nextId (by simp [hk]); omega
  have hfresh : b.fn.body.nextId ∉ b.fn.body.blocks.keys := by
    intro hx
    have : (b.block? b.fn.body.nextId).isSome := by
      unfold block?
      rw [← OrderedMap.contains_eq]
      exact (OrderedMap.contains_iff_mem_keys _ _).mpr hx
    rw [hnone] at this
    cases this
  unfold KeysNodup
  rw [keys_createBlock hnone]
  exact List.nodup_append.mpr ⟨h, by simp, fun x hx y hy hxy => by simp_all⟩

theorem KeysNodup.setTerm (h : KeysNodup b) (t : Terminator) {blk blk' : Block}
    (hb : b.block? b.current = some blk') : KeysNodup (b.setTerm t blk) := by
  unfold KeysNodup
  rw [keys_setTerm hb]
  exact h

theorem KeysNodup.switch (h : KeysNodup b) (p : Nat) : KeysNodup { b with current := p } := h

theorem KeysNodup.addClosed (h : KeysNodup b) (hb : Below b) (label : String) (t : Terminator) :
    KeysNodup (b.addClosed label t) := by
  have h₁ := h.createBlock hb label
  have hnew : ({ (b.createBlock label).2 with current := b.fn.body.nextId } : FnBuilder).block?
      b.fn.body.nextId = some { id := b.fn.body.nextId, label := label } := by
    show (b.createBlock label).2.block? _ = _
    simp [block?_createBlock]
  have h₂ : KeysNodup ({ (b.createBlock label).2 with current := b.fn.body.nextId } : FnBuilder) := h₁
  exact h₂.setTerm t hnew

end ContractCfg.IR.FnBuilder

namespace ContractCfg.IR.FnBuilder

/-- The code from `b` to `b'` leaves no block open away from the current position but those
already open so in `b`, unchanged: every block it opens is closed again or is where it ends. -/
def Settles (b b' : FnBuilder) : Prop :=
  ∀ k blk, b'.block? k = some blk → blk.term = .invalid → k ≠ b'.current →
    b.block? k = some blk ∧ k ≠ b.current

namespace Settles

variable {b b₁ b₂ : FnBuilder}

theorem refl (b : FnBuilder) : Settles b b := fun _ _ hk _ hne => ⟨hk, hne⟩

theorem trans (h₁ : Settles b b₁) (h₂ : Settles b₁ b₂) : Settles b b₂ := by
  intro k blk hk ho hne
  obtain ⟨hk₁, hne₁⟩ := h₂ k blk hk ho hne
  exact h₁ k blk hk₁ ho hne₁

end Settles

variable {b b' : FnBuilder} {k : Nat} {blk : Block}

theorem settles_push (i : Instr) : Settles b (b.push i) := by
  intro k blk hk _ hne
  simp only [push_current] at hne
  rw [block?_push, if_neg (Ne.symm hne)] at hk
  exact ⟨hk, hne⟩

theorem settles_newTemp : Settles b b.newTemp.2 := fun _ _ hk _ hne => ⟨hk, hne⟩

end ContractCfg.IR.FnBuilder
