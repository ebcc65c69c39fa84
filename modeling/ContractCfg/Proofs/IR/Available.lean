import ContractCfg.Proofs.IR.Builder

namespace ContractCfg.IR

/-- The register names among operands. -/
def regs (vs : List Value) : List String := vs.filterMap Value.asReg?

/-- The registers a list of instructions writes. -/
def writes (is : List Instr) : List String := is.flatMap fun i => regs i.results

@[simp] theorem writes_nil : writes [] = [] := rfl

@[simp] theorem writes_append (is js : List Instr) : writes (is ++ js) = writes is ++ writes js := by
  simp [writes]

@[simp] theorem writes_singleton (i : Instr) : writes [i] = regs i.results := by
  simp [writes]

@[simp] theorem regs_nil : regs [] = [] := rfl

@[simp] theorem regs_reg (x : String) : regs [.reg x] = [x] := rfl

@[simp] theorem regs_const (c : Constant) : regs [.const c] = [] := rfl

theorem mem_regs {x : String} {vs : List Value} : x ∈ regs vs ↔ .reg x ∈ vs := by
  unfold regs
  rw [List.mem_filterMap]
  constructor
  · rintro ⟨v, hv, hx⟩
    cases v with
    | reg y => cases hx; exact hv
    | const _ => cases hx
  · intro h
    exact ⟨.reg x, h, rfl⟩

theorem mem_regs_singleton {x : String} {v : Value} : x ∈ regs [v] ↔ v = .reg x := by
  rw [mem_regs, List.mem_singleton, eq_comm]

theorem mem_regs_const {x : String} {v : Value} {c : Constant} : x ∈ regs [v, .const c] ↔ v = .reg x := by
  rw [mem_regs]
  simp [eq_comm]

/-- Each instruction reads only registers of `d` or registers written by the instructions
before it. -/
def Covers (d : String → Prop) : List Instr → Prop
  | [] => True
  | i :: is => (∀ x ∈ regs i.operands, d x) ∧ Covers (fun x => d x ∨ x ∈ regs i.results) is

theorem covers_append_singleton {d : String → Prop} {is : List Instr} {i : Instr} :
    Covers d (is ++ [i]) ↔ Covers d is ∧ ∀ x ∈ regs i.operands, d x ∨ x ∈ writes is := by
  induction is generalizing d with
  | nil => simp [Covers]
  | cons j js ih =>
    simp only [List.cons_append, Covers, ih, writes, List.flatMap_cons, List.mem_append]
    constructor
    · rintro ⟨hj, hjs, hi⟩
      exact ⟨⟨hj, hjs⟩, fun x hx => (hi x hx).elim (·.elim .inl (.inr ∘ .inl)) (.inr ∘ .inr)⟩
    · rintro ⟨⟨hj, hjs⟩, hi⟩
      refine ⟨hj, hjs, fun x hx => ?_⟩
      rcases hi x hx with h | h | h
      · exact .inl (.inl h)
      · exact .inl (.inr h)
      · exact .inr h

/-- Block `blk` at `k` reads only what is available on entry (`D k`) or written before the
read, and each successor expects on entry only what is available at the end. -/
structure BlockCovered (D : Nat → String → Prop) (k : Nat) (blk : Block) : Prop where
  instrs : Covers (D k) blk.instrs.toList
  term : ∀ x ∈ regs blk.term.operands, D k x ∨ x ∈ writes blk.instrs.toList
  succ : ∀ t ∈ blk.term.successors, ∀ x, D t x → D k x ∨ x ∈ writes blk.instrs.toList

theorem BlockCovered.congr {D' : Nat → String → Prop} {k : Nat} {blk : Block}
    (h : BlockCovered D k blk) (hk : D' k = D k) (ht : ∀ t ∈ blk.term.successors, D' t = D t) :
    BlockCovered D' k blk := by
  refine ⟨hk ▸ h.instrs, hk ▸ h.term, fun t hmem x hx => ?_⟩
  rw [hk]
  exact h.succ t hmem x (ht t hmem ▸ hx)

namespace FnBuilder

/-- The registers available at the end of the current block so far. -/
def Avail (D : Nat → String → Prop) (b : FnBuilder) (x : String) : Prop :=
  D b.current x ∨ x ∈ writes (b.instrsOf b.current)

/-- The builder respects the availability map `D`: closed blocks are covered and jump only to
blocks that exist, open blocks other than the current one are still empty, and the current
block's instructions read only available registers. -/
structure Static (D : Nat → String → Prop) (b : FnBuilder) : Prop where
  closed : ∀ k blk, b.block? k = some blk → blk.term ≠ .invalid → BlockCovered D k blk
  targets : ∀ k blk, b.block? k = some blk → ∀ t ∈ blk.term.successors, (b.block? t).isSome
  pending : ∀ k blk, k ≠ b.current → b.block? k = some blk → blk.term = .invalid → blk.instrs = #[]
  current : ∀ blk, b.block? b.current = some blk → Covers (D b.current) blk.instrs.toList

variable {D : Nat → String → Prop} {b : FnBuilder}

theorem instrsOf_eq {k : Nat} {blk : Block} (h : b.block? k = some blk) :
    b.instrsOf k = blk.instrs.toList := by
  simp [instrsOf, h]

theorem Static.newTemp (hs : Static D b) : Static D b.newTemp.2 :=
  ⟨hs.closed, hs.targets, hs.pending, hs.current⟩

theorem avail_newTemp (x : String) : Avail D b.newTemp.2 x ↔ Avail D b x := Iff.rfl

theorem isSome_block?_push (i : Instr) (k : Nat) :
    ((b.push i).block? k).isSome = (b.block? k).isSome := by
  rw [block?_push]
  split <;> simp

theorem Static.push (hs : Static D b) (ho : b.IsOpen) {i : Instr}
    (hr : ∀ x ∈ regs i.operands, Avail D b x) : Static D (b.push i) := by
  obtain ⟨cur, hcur, hopen⟩ := ho
  refine ⟨?_, ?_, ?_, ?_⟩
  · intro k blk hb ht
    rw [block?_push] at hb
    split at hb
    · subst k
      rw [hcur] at hb
      cases hb
      exact absurd hopen ht
    · exact hs.closed k blk hb ht
  · intro k blk hb t ht
    rw [isSome_block?_push]
    rw [block?_push] at hb
    split at hb
    · obtain ⟨blk₀, hb₀, rfl⟩ := Option.map_eq_some_iff.mp hb
      exact hs.targets k blk₀ hb₀ t ht
    · exact hs.targets k blk hb t ht
  · intro k blk hne hb ht
    simp only [push_current] at hne
    rw [block?_push, if_neg (Ne.symm hne)] at hb
    exact hs.pending k blk hne hb ht
  · intro blk hb
    simp only [push_current] at hb ⊢
    rw [block?_push, if_pos rfl] at hb
    obtain ⟨blk₀, hb₀, rfl⟩ := Option.map_eq_some_iff.mp hb
    simp only [Block.pushInstr, Array.toList_push]
    rw [covers_append_singleton]
    refine ⟨hs.current blk₀ hb₀, fun x hx => ?_⟩
    have := hr x hx
    rwa [Avail, instrsOf_eq hb₀] at this

theorem avail_push {i : Instr} {blk : Block} (hb : b.block? b.current = some blk) (x : String) :
    Avail D (b.push i) x ↔ Avail D b x ∨ x ∈ regs i.results := by
  have hb' : (b.push i).block? b.current = some (Block.pushInstr i blk) := by
    rw [block?_push, if_pos rfl, hb]; rfl
  rw [Avail, Avail, push_current, instrsOf_eq hb', instrsOf_eq hb]
  simp only [Block.pushInstr, Array.toList_push, writes_append, writes_singleton, List.mem_append,
    or_assoc]

theorem Static.congr {D' : Nat → String → Prop} (hs : Static D b) (hb : Below b)
    (hD : ∀ k < b.fn.body.nextId, D' k = D k) : Static D' b := by
  refine ⟨?_, hs.targets, hs.pending, ?_⟩
  · intro k blk hk ht
    refine (hs.closed k blk hk ht).congr (hD k (hb k (by simp [hk]))) fun t hmem => ?_
    exact hD t (hb t (hs.targets k blk hk t hmem))
  · intro blk hk
    rw [hD _ (hb _ (by simp [hk]))]
    exact hs.current blk hk

theorem Static.createBlock (hs : Static D b) (hb : Below b) (label : String) :
    Static D (b.createBlock label).2 := by
  have hnew : ∀ k, k ≠ b.fn.body.nextId → (b.createBlock label).2.block? k = b.block? k := by
    intro k hk
    rw [block?_createBlock, if_neg (Ne.symm hk)]
  have hfresh : ∀ k blk, b.block? k = some blk → k ≠ b.fn.body.nextId := by
    intro k blk hk heq
    have := hb k (by simp [hk])
    omega
  refine ⟨?_, ?_, ?_, ?_⟩
  · intro k blk hk ht
    by_cases heq : k = b.fn.body.nextId
    · rw [block?_createBlock, if_pos heq.symm] at hk
      cases hk
      exact absurd rfl ht
    · rw [hnew k heq] at hk
      exact hs.closed k blk hk ht
  · intro k blk hk t ht
    by_cases heq : k = b.fn.body.nextId
    · rw [block?_createBlock, if_pos heq.symm] at hk
      cases hk
      simp [Terminator.successors] at ht
    · rw [hnew k heq] at hk
      have := hs.targets k blk hk t ht
      rw [block?_createBlock]
      split <;> simp_all
  · intro k blk hne hk ht
    by_cases heq : k = b.fn.body.nextId
    · rw [block?_createBlock, if_pos heq.symm] at hk
      cases hk
      rfl
    · rw [hnew k heq] at hk
      exact hs.pending k blk hne hk ht
  · intro blk hk
    by_cases heq : b.current = b.fn.body.nextId
    · rw [createBlock_current, block?_createBlock, if_pos heq.symm] at hk
      cases hk
      simp [Covers]
    · rw [createBlock_current, hnew _ heq] at hk
      exact hs.current blk hk

theorem avail_createBlock (hb : Below b) (ho : b.IsOpen) (label : String) (x : String) :
    Avail D (b.createBlock label).2 x ↔ Avail D b x := by
  obtain ⟨cur, hcur, -⟩ := ho
  have hlt := hb b.current (by simp [hcur])
  have hcur' : (b.createBlock label).2.block? b.current = some cur := by
    rw [block?_createBlock, if_neg (by omega), hcur]
  rw [Avail, Avail, createBlock_current, instrsOf_eq hcur', instrsOf_eq hcur]

theorem avail_congr {D' : Nat → String → Prop} (h : D' b.current = D b.current) (x : String) :
    Avail D' b x ↔ Avail D b x := by
  simp only [Avail, h]

theorem Static.addClosed (hs : Static D b) (hb : Below b) {D' : Nat → String → Prop}
    (hD : ∀ k < b.fn.body.nextId, D' k = D k) {label : String} {t : Terminator}
    (hr : regs t.operands = []) (hts : t.successors = []) : Static D' (b.addClosed label t) := by
  have hs' := hs.congr hb hD
  have hnew : ∀ k, k ≠ b.fn.body.nextId → (b.addClosed label t).block? k = b.block? k := by
    intro k hk
    rw [block?_addClosed, if_neg (Ne.symm hk)]
  refine ⟨?_, ?_, ?_, ?_⟩
  · intro k blk hk ht
    by_cases heq : k = b.fn.body.nextId
    · rw [block?_addClosed, if_pos heq.symm] at hk
      cases hk
      refine ⟨by simp [Covers], fun x hx => ?_, fun s hs => ?_⟩
      · simp [hr] at hx
      · simp [hts] at hs
    · rw [hnew k heq] at hk
      exact hs'.closed k blk hk ht
  · intro k blk hk s hsucc
    by_cases heq : k = b.fn.body.nextId
    · rw [block?_addClosed, if_pos heq.symm] at hk
      cases hk
      simp [hts] at hsucc
    · rw [hnew k heq] at hk
      have := hs'.targets k blk hk s hsucc
      rw [block?_addClosed]
      split <;> simp_all
  · intro k blk hne hk ht
    by_cases heq : k = b.fn.body.nextId
    · rw [block?_addClosed, if_pos heq.symm] at hk
      cases hk
      rfl
    · rw [hnew k heq] at hk
      exact hs'.pending k blk hne hk ht
  · intro blk hk
    rw [addClosed_current] at hk
    by_cases heq : b.current = b.fn.body.nextId
    · rw [block?_addClosed, if_pos heq.symm] at hk
      cases hk
      simp [Covers]
    · rw [hnew _ heq] at hk
      exact hs'.current blk hk

theorem Static.setTerm (hs : Static D b) {blk : Block} (hcur : b.block? b.current = some blk)
    {t : Terminator} (hr : ∀ x ∈ regs t.operands, Avail D b x)
    (hex : ∀ s ∈ t.successors, (b.block? s).isSome)
    (hsucc : ∀ s ∈ t.successors, ∀ x, D s x → Avail D b x) : Static D (b.setTerm t blk) := by
  have hw : b.instrsOf b.current = blk.instrs.toList := instrsOf_eq hcur
  have hsame : ∀ k, k ≠ b.current → (b.setTerm t blk).block? k = b.block? k := by
    intro k hk
    rw [block?_setTerm, if_neg (Ne.symm hk)]
  refine ⟨?_, ?_, ?_, ?_⟩
  · intro k blk' hk ht
    by_cases heq : k = b.current
    · subst heq
      rw [block?_setTerm, if_pos rfl] at hk
      cases hk
      refine ⟨hs.current blk hcur, fun x hx => ?_, fun s hs' x hx => ?_⟩
      · have := hr x hx
        rwa [Avail, hw] at this
      · have := hsucc s hs' x hx
        rwa [Avail, hw] at this
    · rw [hsame k heq] at hk
      exact hs.closed k blk' hk ht
  · intro k blk' hk s hs'
    have hex' : ∀ s, (b.block? s).isSome → ((b.setTerm t blk).block? s).isSome := by
      intro s h
      rw [block?_setTerm]
      split <;> simp_all
    by_cases heq : k = b.current
    · subst heq
      rw [block?_setTerm, if_pos rfl] at hk
      cases hk
      exact hex' s (hex s hs')
    · rw [hsame k heq] at hk
      exact hex' s (hs.targets k blk' hk s hs')
  · intro k blk' hne hk ht
    rw [setTerm_current] at hne
    rw [hsame k hne] at hk
    exact hs.pending k blk' hne hk ht
  · intro blk' hk
    rw [setTerm_current, block?_setTerm, if_pos rfl] at hk
    cases hk
    exact hs.current blk hcur

theorem Static.switch (hs : Static D b) (hclosed : ∀ blk, b.block? b.current = some blk → blk.term ≠ .invalid)
    {p : Nat} {blk : Block} (hp : b.block? p = some blk) (hopen : blk.term = .invalid) :
    Static D { b with current := p } := by
  have hne : p ≠ b.current := by
    rintro rfl
    exact hclosed blk hp hopen
  refine ⟨hs.closed, hs.targets, ?_, ?_⟩
  · intro k blk' hk hb ht
    by_cases heq : k = b.current
    · subst heq
      exact absurd ht (hclosed blk' hb)
    · exact hs.pending k blk' heq hb ht
  · intro blk' hb
    change b.block? p = some blk' at hb
    rw [hp] at hb
    cases hb
    rw [hs.pending p blk hne hp hopen]
    simp [Covers]

theorem avail_switch {p : Nat} {blk : Block} (hp : b.block? p = some blk) (hempty : blk.instrs = #[])
    (x : String) : Avail D { b with current := p } x ↔ D p x := by
  have : ({ b with current := p } : FnBuilder).instrsOf p = [] := by
    simp [instrsOf, block?] at hp ⊢
    simp [hp, hempty]
  simp [Avail, this]

end FnBuilder

end ContractCfg.IR
