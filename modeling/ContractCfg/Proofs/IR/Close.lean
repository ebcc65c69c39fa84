import ContractCfg.Proofs.IR.Available

namespace ContractCfg.IR.FnBuilder

/-- The open current block `blk` closed by `t`, the code going on in a fresh block labelled
`label`. -/
def closeInto (b : FnBuilder) (label : String) (t : Terminator) (blk : Block) : FnBuilder :=
  { ((b.createBlock label).2.setTerm t blk) with current := b.fn.body.nextId }

variable {b : FnBuilder} {label : String} {t : Terminator} {blk : Block} {D : Nat → String → Prop}

@[simp] theorem closeInto_current : (b.closeInto label t blk).current = b.fn.body.nextId := rfl
@[simp] theorem closeInto_nextTemp : (b.closeInto label t blk).nextTemp = b.nextTemp := rfl
@[simp] theorem closeInto_nextId :
    (b.closeInto label t blk).fn.body.nextId = b.fn.body.nextId + 1 := rfl
@[simp] theorem closeInto_entry : (b.closeInto label t blk).fn.body.entry = b.fn.body.entry := rfl
@[simp] theorem closeInto_sig : (b.closeInto label t blk).fn.sig = b.fn.sig := rfl

theorem block?_closeInto (k : Nat) : (b.closeInto label t blk).block? k =
    if b.current = k then some { blk with term := t }
    else if b.fn.body.nextId = k then some { id := b.fn.body.nextId, label := label }
    else b.block? k := by
  show ((b.createBlock label).2.setTerm t blk).block? k = _
  rw [block?_setTerm, createBlock_current, block?_createBlock]

theorem Below.block?_nextId (hb : Below b) : b.block? b.fn.body.nextId = none := by
  cases hk : b.block? b.fn.body.nextId with
  | none => rfl
  | some _ =>
    have := hb b.fn.body.nextId (by simp [hk])
    omega

theorem Below.current_lt (hb : Below b) (hcur : b.block? b.current = some blk) :
    b.current < b.fn.body.nextId :=
  hb _ (by simp [hcur])

theorem setTerm_createBlock (hb : Below b) {blk' : Block} (hcur : b.block? b.current = some blk')
    (t : Terminator) (blk : Block) (label : String) :
    ((b.setTerm t blk).createBlock label).2 = (b.createBlock label).2.setTerm t blk := by
  have hin : b.fn.body.blocks.contains b.current = true := by
    rw [OrderedMap.contains_eq]
    exact Option.isSome_iff_exists.mpr ⟨blk', hcur⟩
  have hout : b.fn.body.blocks.contains b.fn.body.nextId = false := by
    rw [OrderedMap.contains_eq]
    have := hb.block?_nextId
    simp only [block?] at this
    simp [this]
  unfold setTerm createBlock
  simp only
  rw [OrderedMap.insert_comm_of_contains _ hin hout]

theorem block?_closeInto_current :
    (b.closeInto label t blk).block? b.current = some { blk with term := t } := by
  rw [block?_closeInto, if_pos rfl]

theorem block?_closeInto_new (hb : Below b) (hcur : b.block? b.current = some blk) :
    (b.closeInto label t blk).block? b.fn.body.nextId =
      some { id := b.fn.body.nextId, label := label } := by
  have hlt := hb.current_lt hcur
  rw [block?_closeInto, if_neg (by omega), if_pos rfl]

theorem block?_createBlock_current (hb : Below b) (hcur : b.block? b.current = some blk) :
    (b.createBlock label).2.block? (b.createBlock label).2.current = some blk := by
  have hlt := hb.current_lt hcur
  rw [createBlock_current, block?_createBlock, if_neg (by omega), hcur]

theorem grows_closeInto (hb : Below b) (hcur : b.block? b.current = some blk) (ht : t ≠ .invalid)
    {n : Nat} (hn : n ≤ b.fn.body.nextId) :
    Grows n b (b.closeInto label t blk) := by
  have hclosed : ∀ blk', ((b.createBlock label).2.setTerm t blk).block?
      ((b.createBlock label).2.setTerm t blk).current = some blk' → blk'.term ≠ .invalid := by
    intro blk' h
    rw [setTerm_current, block?_setTerm, if_pos rfl] at h
    cases h
    exact ht
  exact (grows_createBlock label hn).trans
    ((grows_setTerm t (block?_createBlock_current hb hcur)).trans (grows_switch hn hclosed))

theorem Below.closeInto (hb : Below b) (hcur : b.block? b.current = some blk) :
    Below (b.closeInto label t blk) :=
  Below.switch (Below.setTerm (hb.createBlock label) t (block?_createBlock_current hb hcur)) _

theorem IsOpen.closeInto (hb : Below b) (hcur : b.block? b.current = some blk) :
    IsOpen (b.closeInto label t blk) :=
  ⟨_, block?_closeInto_new hb hcur, rfl⟩

theorem KeysNodup.closeInto (hn : KeysNodup b) (hb : Below b)
    (hcur : b.block? b.current = some blk) : KeysNodup (b.closeInto label t blk) :=
  KeysNodup.switch ((hn.createBlock hb label).setTerm t (block?_createBlock_current hb hcur)) _

/-- The map that asks of the fresh block what was available where the current one closed. -/
def closeMap (D : Nat → String → Prop) (b : FnBuilder) : Nat → String → Prop :=
  fun k => if k = b.fn.body.nextId then Avail D b else D k

theorem closeMap_old {k : Nat} (hk : k < b.fn.body.nextId) : closeMap D b k = D k :=
  if_neg (by omega)

theorem Static.closeInto (hs : Static D b) (hb : Below b) (hcur : b.block? b.current = some blk)
    (hopen : blk.term = .invalid) (ht : t ≠ .invalid)
    (hr : ∀ x ∈ regs t.operands, Avail D b x)
    (hex : ∀ s ∈ t.successors, s = b.fn.body.nextId ∨ (b.block? s).isSome)
    (hsucc : ∀ s ∈ t.successors, s ≠ b.fn.body.nextId → ∀ x, D s x → Avail D b x) :
    Static (closeMap D b) (b.closeInto label t blk) := by
  have hlt := hb.current_lt hcur
  have hs₁ : Static (closeMap D b) (b.createBlock label).2 :=
    (hs.congr hb fun k hk => closeMap_old hk).createBlock hb label
  have hav : ∀ x, Avail (closeMap D b) (b.createBlock label).2 x ↔ Avail D b x := fun x =>
    (avail_createBlock hb ⟨blk, hcur, hopen⟩ label x).trans (avail_congr (closeMap_old hlt) x)
  have hs₂ : Static (closeMap D b) ((b.createBlock label).2.setTerm t blk) := by
    refine hs₁.setTerm (block?_createBlock_current hb hcur) (fun x hx => (hav x).mpr (hr x hx)) ?_ ?_
    · intro s hs
      rw [block?_createBlock]
      rcases hex s hs with rfl | h
      · simp
      · split <;> simp [h]
    · intro s hs x hx
      refine (hav x).mpr ?_
      by_cases hsn : s = b.fn.body.nextId
      · subst hsn
        simpa [closeMap] using hx
      · rw [closeMap, if_neg hsn] at hx
        exact hsucc s hs hsn x hx
  refine hs₂.switch ?_ (block?_closeInto_new hb hcur) rfl
  intro blk' h
  rw [setTerm_current, block?_setTerm, if_pos rfl] at h
  cases h
  exact ht

theorem avail_closeInto (hb : Below b) (hcur : b.block? b.current = some blk) (x : String) :
    Avail (closeMap D b) (b.closeInto label t blk) x ↔ Avail D b x := by
  have h : Avail (closeMap D b) (b.closeInto label t blk) x ↔ closeMap D b b.fn.body.nextId x :=
    avail_switch (block?_closeInto_new hb hcur) rfl x
  rw [h]
  simp [closeMap]

theorem Completes.closeInto_current {f : Function} (hc : Completes f (b.closeInto label t blk))
    (ht : t ≠ .invalid) : f.body.blocks.get? b.current = some { blk with term := t } :=
  hc.closed _ _ block?_closeInto_current ht

end ContractCfg.IR.FnBuilder
