import ContractCfg.Proofs.Machine.Layout

/-!
The deep copies follow the layout. Clearing a storage object leaves it reading as the zero
object and only zeroes slots of its layout. Copying a memory object into storage, or a storage
object over another one, leaves the destination reading as the source read before, as long as
the destination's layout is separated and, for two storage objects, the two layouts are apart;
a null memory reference clears. Copying storage into memory builds a fresh object that reads as
the storage object, changes no storage and writes no cell that was allocated before.

The copies walk a struct's fields, a static array's elements and a dynamic array's elements in
order. What each part writes lies in its own leaves, so the parts written before keep what they
read (`foldlM_reads`); a clear writes only zeroes, so what reads as zero stays so
(`foldlM_zeroes`).
-/

namespace ContractCfg.Machine

open ContractCfg.IR

variable {reg : TypeRegistry}

@[simp] theorem ok_bind {α β : Type} (a : α) (f : α → Except Fault β) : (Except.ok a >>= f) = f a := rfl

theorem sload_changed {st m st' : State} {x : Int} (hx : st'.sload x ≠ st.sload x) :
    m.sload x ≠ st.sload x ∨ st'.sload x ≠ m.sload x := by
  by_cases h₁ : m.sload x = st.sload x
  · exact .inr (h₁ ▸ hx)
  · exact .inl h₁

section Folds

variable {α : Type} {f : State → α → Except Fault State} {L : α → Int → Prop}

theorem foldlM_touches (hstep : ∀ a, ∀ st₁ st₂, f st₁ a = .ok st₂ →
      (∀ x, st₂.sload x ≠ st₁.sload x → L a x) ∧ st₂.memory = st₁.memory) :
    ∀ {xs : List α} {st st' : State}, xs.foldlM f st = .ok st' →
      (∀ x, st'.sload x ≠ st.sload x → ∃ a ∈ xs, L a x) ∧ st'.memory = st.memory
  | [], st, st', h => by
    cases h
    exact ⟨fun x hx => absurd rfl hx, rfl⟩
  | a :: rest, st, st', h => by
    rw [List.foldlM_cons] at h
    obtain ⟨st₁, h₁, h⟩ := bind_eq_ok.mp h
    obtain ⟨ht₁, hm₁⟩ := hstep a st st₁ h₁
    obtain ⟨ht, hm⟩ := foldlM_touches hstep h
    refine ⟨fun x hx => ?_, hm.trans hm₁⟩
    rcases sload_changed (m := st₁) hx with hx₁ | hx'
    · exact ⟨a, List.mem_cons_self, ht₁ x hx₁⟩
    · obtain ⟨b, hb, hbx⟩ := ht x hx'
      exact ⟨b, List.mem_cons_of_mem a hb, hbx⟩

theorem foldlM_reads {S : α → Except Fault Obj} {D : State → α → Except Fault Obj}
    {I : State → Prop}
    (hframe : ∀ a st₁ st₂, (∀ x, L a x → st₂.sload x = st₁.sload x) → D st₂ a = D st₁ a) :
    ∀ {xs : List α}, (∀ a ∈ xs, ∀ st₁ st₂, I st₁ → f st₁ a = .ok st₂ →
        I st₂ ∧ D st₂ a = S a ∧ ∀ x, st₂.sload x ≠ st₁.sload x → L a x) →
      xs.Pairwise (fun a b => ∀ x, L a x → L b x → False) →
      ∀ {st st' : State}, I st → xs.foldlM f st = .ok st' →
        I st' ∧ xs.mapM (D st') = xs.mapM S ∧ ∀ x, st'.sload x ≠ st.sload x → ∃ a ∈ xs, L a x
  | [], _, _, st, st', hinv, h => by
    cases h
    exact ⟨hinv, rfl, fun x hx => absurd rfl hx⟩
  | a :: rest, hstep, hdisj, st, st', hinv, h => by
    rw [List.foldlM_cons] at h
    obtain ⟨st₁, h₁, h⟩ := bind_eq_ok.mp h
    obtain ⟨hinv₁, hdst, ht₁⟩ := hstep a List.mem_cons_self st st₁ hinv h₁
    obtain ⟨hinv', hdsts, ht⟩ := foldlM_reads hframe
      (fun b hb => hstep b (List.mem_cons_of_mem a hb)) (List.pairwise_cons.mp hdisj).2 hinv₁ h
    -- the later parts write only their own slots, so the first part still reads back
    have hkeep : D st' a = S a := by
      rw [hframe a st₁ st' fun x hx => ?_, hdst]
      refine Classical.byContradiction fun hne => ?_
      obtain ⟨b, hb, hbx⟩ := ht x hne
      exact (List.pairwise_cons.mp hdisj).1 b hb x hx hbx
    refine ⟨hinv', by simp only [List.mapM_cons, hkeep, hdsts], fun x hx => ?_⟩
    rcases sload_changed (m := st₁) hx with hx₁ | hx'
    · exact ⟨a, List.mem_cons_self, ht₁ x hx₁⟩
    · obtain ⟨b, hb, hbx⟩ := ht x hx'
      exact ⟨b, List.mem_cons_of_mem a hb, hbx⟩

theorem foldlM_zeroes {Z : α → Except Fault Obj} {D : State → α → Except Fault Obj}
    (hstable : ∀ a o st₁ st₂, Z a = .ok o → D st₁ a = .ok o →
      (∀ x, st₂.sload x ≠ st₁.sload x → st₂.sload x = 0) → D st₂ a = .ok o)
    (hstep : ∀ a, ∀ st₁ st₂, f st₁ a = .ok st₂ →
      (∃ o, Z a = .ok o ∧ D st₂ a = .ok o) ∧
        (∀ x, st₂.sload x ≠ st₁.sload x → L a x ∧ st₂.sload x = 0) ∧ st₂.memory = st₁.memory) :
    ∀ {xs : List α} {st st' : State}, xs.foldlM f st = .ok st' →
      (∃ os, xs.mapM Z = .ok os ∧ xs.mapM (D st') = .ok os) ∧
        (∀ x, st'.sload x ≠ st.sload x → (∃ a ∈ xs, L a x) ∧ st'.sload x = 0) ∧ st'.memory = st.memory
  | [], st, st', h => by
    cases h
    exact ⟨⟨[], rfl, rfl⟩, fun x hx => absurd rfl hx, rfl⟩
  | a :: rest, st, st', h => by
    rw [List.foldlM_cons] at h
    obtain ⟨st₁, h₁, h⟩ := bind_eq_ok.mp h
    obtain ⟨⟨o, hzero, hdst⟩, ht₁, hm₁⟩ := hstep a st st₁ h₁
    obtain ⟨⟨os, hzeros, hdsts⟩, ht, hm⟩ := foldlM_zeroes hstable hstep h
    have hkeep : D st' a = .ok o := hstable a o st₁ st' hzero hdst fun x hx => (ht x hx).2
    refine ⟨⟨o :: os, ?_, ?_⟩, fun x hx => ?_, hm.trans hm₁⟩
    · simp only [List.mapM_cons, hzero, hzeros]
      rfl
    · simp only [List.mapM_cons, hkeep, hdsts]
      rfl
    · rcases sload_changed (m := st₁) hx with hx₁ | hx'
      · obtain ⟨hax, hz₁⟩ := ht₁ x hx₁
        refine ⟨⟨a, List.mem_cons_self, hax⟩, ?_⟩
        -- a later clear either leaves the slot at the zero written here or writes zero itself
        by_cases hx' : st'.sload x = st₁.sload x
        · rw [hx', hz₁]
        · exact (ht x hx').2
      · obtain ⟨⟨b, hb, hbx⟩, hz⟩ := ht x hx'
        exact ⟨⟨b, List.mem_cons_of_mem a hb, hbx⟩, hz⟩

end Folds

theorem clearStorage_spec : ∀ {k : Nat} {st st' : State} {d : Int} {t : Ty},
    clearStorage reg k st d t = .ok st' →
      (∃ o, zeroObj reg k t = .ok o ∧ readStorage reg k st' d t = .ok o) ∧
        (∀ x, st'.sload x ≠ st.sload x → Leaf reg d t x ∧ st'.sload x = 0) ∧ st'.memory = st.memory
  | 0, _, _, _, _, h => by cases h
  | k + 1, st, st', d, t, h => by
    rcases Ty.layout_cases t with ⟨_, _, rfl⟩ | ⟨id, rfl⟩ | ⟨e, n, rfl⟩ | ⟨e, rfl⟩ | ht
    · simp only [clearStorage] at h
      cases h
      exact ⟨⟨.mapping, rfl, rfl⟩, fun x hx => absurd rfl hx, rfl⟩
    · simp only [clearStorage] at h
      obtain ⟨fs, hfs, h⟩ := bind_eq_ok.mp h
      obtain ⟨⟨os, hz, hr⟩, hch, hm⟩ := foldlM_zeroes (L := fun a => Leaf reg (d + a.2.1) a.2.2)
        (Z := fun a => zeroObj reg k a.2.2) (D := fun st a => readStorage reg k st (d + a.2.1) a.2.2)
        (fun _ _ _ _ hz hd hzero => readStorage_zero_stable hzero hz hd)
        (fun _ _ _ hstep => clearStorage_spec hstep) h
      refine ⟨⟨.parts os, bind_eq_ok.mpr ⟨fs, hfs, by rw [hz]; rfl⟩,
        bind_eq_ok.mpr ⟨fs, hfs, by rw [hr]; rfl⟩⟩, fun x hx => ?_, hm⟩
      obtain ⟨⟨a, ha, hax⟩, hx0⟩ := hch x hx
      exact ⟨hax.field hfs ha, hx0⟩
    · simp only [clearStorage] at h
      obtain ⟨size, hs, h⟩ := bind_eq_ok.mp h
      rw [forRange_eq_foldlM] at h
      obtain ⟨⟨os, hz, hr⟩, hch, hm⟩ := foldlM_zeroes (L := fun i => Leaf reg (d + elementOffset i size) e)
        (Z := fun _ => zeroObj reg k e) (D := fun st i => readStorage reg k st (d + elementOffset i size) e)
        (fun _ _ _ _ hz hd hzero => readStorage_zero_stable hzero hz hd)
        (fun _ _ _ hstep => clearStorage_spec hstep) h
      refine ⟨⟨.parts os, by simp only [zeroObj]; rw [hz]; rfl,
        bind_eq_ok.mpr ⟨size, hs, by rw [hr]; rfl⟩⟩, fun x hx => ?_, hm⟩
      obtain ⟨⟨i, hi, hix⟩, hx0⟩ := hch x hx
      exact ⟨hix.elem hs (List.mem_range.mp hi), hx0⟩
    · simp only [clearStorage] at h
      obtain ⟨len, hl, h⟩ := bind_eq_ok.mp h
      obtain ⟨size, hs, h⟩ := bind_eq_ok.mp h
      obtain ⟨st₁, h₁, h⟩ := bind_eq_ok.mp h
      cases h
      rw [forRange_eq_foldlM] at h₁
      have hlen := (copyLength_ok hl).2
      obtain ⟨-, hch, hm⟩ := foldlM_zeroes (L := fun i => Leaf reg (dataSlot d + elementOffset i size) e)
        (Z := fun _ => zeroObj reg k e) (D := fun st i => readStorage reg k st (dataSlot d + elementOffset i size) e)
        (fun _ _ _ _ hz hd hzero => readStorage_zero_stable hzero hz hd)
        (fun _ _ _ hstep => clearStorage_spec hstep) h₁
      -- the length is zeroed last, so the array reads as empty whatever its elements hold
      refine ⟨⟨.parts [], rfl, ?_⟩, fun x hx => ?_, hm⟩
      · simp only [readStorage, State.sload_sstore, if_true]
        exact bind_eq_ok.mpr ⟨0, rfl, bind_eq_ok.mpr ⟨size, hs, rfl⟩⟩
      · simp only [State.sload_sstore] at hx ⊢
        by_cases hxd : x = d
        · subst hxd
          exact ⟨⟨[], .length⟩, by simp⟩
        · simp only [hxd, if_false] at hx ⊢
          obtain ⟨⟨i, hi, hix⟩, hx0⟩ := hch x hx
          exact ⟨hix.data hs (Nat.lt_of_lt_of_le (List.mem_range.mp hi) hlen), hx0⟩
    · have hv : clearStorage reg (k + 1) st d t = .ok (st.sstore d 0) := by
        cases t <;> first | rfl | cases ht
      rw [hv] at h
      cases h
      refine ⟨⟨.word 0, zeroObj_value ht k, by rw [readStorage_value ht]; simp⟩, fun x hx => ?_, rfl⟩
      simp only [State.sload_sstore] at hx ⊢
      by_cases hxd : x = d
      · subst hxd
        exact ⟨⟨[], .value ht⟩, by simp⟩
      · simp [hxd] at hx

section Parts

variable {I : State → Prop} {k : Nat} {st st' : State} {d : Int}

theorem fields_read_back {f : State → Nat × Nat × Ty → Except Fault State}
    {S : Nat × Nat × Ty → Except Fault Obj} {id : Nat} {fs : List (Nat × Nat × Ty)}
    (hsep : Separated reg d (.struct id)) (hfs : fieldOffsets reg (.struct id) id = .ok fs)
    (hstep : ∀ a ∈ fs, ∀ st₁ st₂, I st₁ → f st₁ a = .ok st₂ →
      I st₂ ∧ readStorage reg k st₂ (d + a.2.1) a.2.2 = S a ∧
        ∀ x, st₂.sload x ≠ st₁.sload x → Leaf reg (d + a.2.1) a.2.2 x)
    (hinv : I st) (h : fs.foldlM f st = .ok st') :
    I st' ∧ readStorage reg (k + 1) st' d (.struct id) = .parts <$> fs.mapM S ∧
      ∀ x, st'.sload x ≠ st.sload x → Leaf reg d (.struct id) x := by
  obtain ⟨hinv', hread, hch⟩ := foldlM_reads (L := fun a => Leaf reg (d + a.2.1) a.2.2)
    (D := fun st a => readStorage reg k st (d + a.2.1) a.2.2)
    (fun _ _ _ h => readStorage_congr k _ _ h) hstep
    ((fieldOffsets_pairwise hfs).imp_of_mem fun ha hb hne => hsep.fields_apart hfs ha hb hne)
    hinv h
  refine ⟨hinv', ?_, fun x hx => ?_⟩
  · simp only [readStorage, hfs, ok_bind]
    exact congrArg _ hread
  · obtain ⟨⟨i, off, ft⟩, ha, hax⟩ := hch x hx
    exact hax.field hfs ha

theorem elems_read_back {f : Nat → State → Except Fault State} {S : Nat → Except Fault Obj}
    {e : Ty} {n size : Nat}
    (hsep : Separated reg d (.array e (some n))) (hs : sizeOf' reg e = .ok size)
    (hstep : ∀ i < n, ∀ st₁ st₂, I st₁ → f i st₁ = .ok st₂ →
      I st₂ ∧ readStorage reg k st₂ (d + elementOffset i size) e = S i ∧
        ∀ x, st₂.sload x ≠ st₁.sload x → Leaf reg (d + elementOffset i size) e x)
    (hinv : I st) (h : forRange n st f = .ok st') :
    I st' ∧ readStorage reg (k + 1) st' d (.array e (some n)) = .parts <$> (List.range n).mapM S ∧
      ∀ x, st'.sload x ≠ st.sload x → Leaf reg d (.array e (some n)) x := by
  rw [forRange_eq_foldlM] at h
  obtain ⟨hinv', hread, hch⟩ := foldlM_reads (L := fun i => Leaf reg (d + elementOffset i size) e)
    (D := fun st i => readStorage reg k st (d + elementOffset i size) e)
    (fun _ _ _ h => readStorage_congr k _ _ h) (fun i hi => hstep i (List.mem_range.mp hi))
    (List.Pairwise.imp_of_mem (fun hi hj hne =>
      hsep.elems_apart hs (List.mem_range.mp hi) (List.mem_range.mp hj) hne) List.nodup_range)
    hinv h
  refine ⟨hinv', ?_, fun x hx => ?_⟩
  · simp only [readStorage, hs, ok_bind]
    exact congrArg _ hread
  · obtain ⟨i, hi, hix⟩ := hch x hx
    exact hix.elem hs (List.mem_range.mp hi)

theorem tail_cleared {e : Ty} {len oldLen size : Nat}
    (h : forRange (oldLen - len) st
      (fun j st => clearStorage reg k st (dataSlot d + elementOffset (len + j) size) e) = .ok st') :
    (∀ x, st'.sload x ≠ st.sload x →
      ∃ j, len ≤ j ∧ j < oldLen ∧ Leaf reg (dataSlot d + elementOffset j size) e x) ∧
      st'.memory = st.memory := by
  rw [forRange_eq_foldlM] at h
  obtain ⟨hch, hm⟩ := foldlM_touches (L := fun j => Leaf reg (dataSlot d + elementOffset (len + j) size) e)
    (fun _ _ _ hc => ⟨fun x hx => ((clearStorage_spec hc).2.1 x hx).1, (clearStorage_spec hc).2.2⟩) h
  refine ⟨fun x hx => ?_, hm⟩
  obtain ⟨j, hj, hjx⟩ := hch x hx
  have := List.mem_range.mp hj
  exact ⟨len + j, by omega, by omega, hjx⟩

theorem data_read_back {f : Nat → State → Except Fault State} {S : Nat → Except Fault Obj}
    {e : Ty} {len oldLen size : Nat} {st₁ : State}
    (hsep : Separated reg d (.array e none)) (hs : sizeOf' reg e = .ok size)
    (hlen : len ≤ copyLimit) (hold : oldLen ≤ copyLimit)
    (hstep : ∀ i < len, ∀ st₁ st₂, I st₁ → f i st₁ = .ok st₂ →
      I st₂ ∧ readStorage reg k st₂ (dataSlot d + elementOffset i size) e = S i ∧
        ∀ x, st₂.sload x ≠ st₁.sload x → Leaf reg (dataSlot d + elementOffset i size) e x)
    (hinv : I (st.sstore d len)) (h₁ : forRange len (st.sstore d len) f = .ok st₁)
    (h₂ : forRange (oldLen - len) st₁
      (fun j st => clearStorage reg k st (dataSlot d + elementOffset (len + j) size) e) = .ok st') :
    I st₁ ∧ readStorage reg (k + 1) st' d (.array e none) = .parts <$> (List.range len).mapM S ∧
      (∀ x, st'.sload x ≠ st.sload x → Leaf reg d (.array e none) x) ∧ st'.memory = st₁.memory := by
  rw [forRange_eq_foldlM] at h₁
  have hlim : ∀ {i}, i ∈ List.range len → i < copyLimit := fun hi =>
    Nat.lt_of_lt_of_le (List.mem_range.mp hi) hlen
  obtain ⟨hinv₁, hread, hch₁⟩ := foldlM_reads (L := fun i => Leaf reg (dataSlot d + elementOffset i size) e)
    (D := fun st i => readStorage reg k st (dataSlot d + elementOffset i size) e)
    (fun _ _ _ h => readStorage_congr k _ _ h) (fun i hi => hstep i (List.mem_range.mp hi))
    (List.Pairwise.imp_of_mem (fun hi hj hne => hsep.data_apart hs (hlim hi) (hlim hj) hne)
      List.nodup_range)
    hinv h₁
  obtain ⟨hch₂, hm⟩ := tail_cleared h₂
  -- the element writes leave the length slot alone
  have hd₁ : st₁.sload d = len := by
    by_cases hd : st₁.sload d = (st.sstore d len).sload d
    · simpa using hd
    · obtain ⟨i, hi, hix⟩ := hch₁ d hd
      exact absurd hix (hsep.length_apart hs (hlim hi))
  -- the tail lies past the first `len` elements and off the length slot
  have hkeep : ∀ x, (x = d ∨ ∃ i < len, Leaf reg (dataSlot d + elementOffset i size) e x) →
      st'.sload x = st₁.sload x := fun x hx => by
    refine Classical.byContradiction fun hne => ?_
    obtain ⟨j, hlj, hj, hjx⟩ := hch₂ x hne
    rcases hx with rfl | ⟨i, hi, hix⟩
    · exact hsep.length_apart hs (by omega) hjx
    · exact hsep.data_apart hs (by omega) (by omega) (by omega) x hix hjx
  refine ⟨hinv₁, ?_, fun x hx => ?_, hm⟩
  · simp only [readStorage, hkeep d (.inl rfl), hd₁, copyLength_natCast hlen, hs, ok_bind]
    rw [← hread, mapM_congr_mem fun i hi => readStorage_congr k _ e fun x hx =>
      hkeep x (.inr ⟨i, List.mem_range.mp hi, hx⟩)]
  · rcases sload_changed (m := st₁) hx with hx₁ | hx₂
    · rcases sload_changed (m := st.sstore d len) hx₁ with hx₀ | hx₁
      · have hxd : x = d := Classical.byContradiction fun hne => hx₀ (by simp [hne])
        exact hxd ▸ ⟨[], .length⟩
      · obtain ⟨i, hi, hix⟩ := hch₁ x hx₁
        exact hix.data hs (hlim hi)
    · obtain ⟨j, -, hj, hjx⟩ := hch₂ x hx₂
      exact hjx.data hs (by omega)

end Parts

theorem readMemory_null {t : Ty} (ht : t.isValueType = false) (k : Nat) (st : State) :
    readMemory reg (k + 1) st 0 t = zeroObj reg k t := by
  rcases Ty.layout_cases t with ⟨_, _, rfl⟩ | ⟨id, rfl⟩ | ⟨e, n, rfl⟩ | ⟨e, rfl⟩ | hv
  · cases k <;> rfl
  · simp [readMemory, ht]
  · simp [readMemory, ht]
  · simp [readMemory, ht]
  · exact absurd hv (by simp [ht])

theorem copyMemoryToStorage_spec : ∀ {k : Nat} {st st' : State} {d p : Int} {t : Ty},
    Separated reg d t → copyMemoryToStorage reg k st d p t = .ok st' →
      readStorage reg k st' d t = readMemory reg k st p t ∧
        (∀ x, st'.sload x ≠ st.sload x → Leaf reg d t x) ∧ st'.memory = st.memory
  | 0, _, _, _, _, _, _, h => by cases h
  | k + 1, st, st', d, p, t, hsep, h => by
    by_cases hv : t.isValueType
    · -- a value is stored as it is
      simp only [copyMemoryToStorage, hv, if_true] at h
      cases h
      refine ⟨by rw [readStorage_value hv, readMemory_value hv]; simp, fun x hx => ?_, rfl⟩
      have hxd : x = d := Classical.byContradiction fun hne => hx (by simp [hne])
      exact hxd ▸ ⟨[], .value hv⟩
    have hv : t.isValueType = false := by simpa using hv
    by_cases hp : p = 0
    · -- a null reference clears the destination
      subst hp
      simp only [copyMemoryToStorage, hv, Bool.false_eq_true, if_false, beq_self_eq_true,
        if_true] at h
      obtain ⟨⟨o, hz, hr⟩, hch, hm⟩ := clearStorage_spec h
      exact ⟨by rw [readStorage_succ hr, readMemory_null hv, hz], fun x hx => (hch x hx).1, hm⟩
    -- the parts are copied with memory untouched, so each reads its source cell as before
    have hcell : ∀ {st₁ st₂ : State} {a d' : Int} {t' : Ty}, st₁.memory = st.memory →
        Separated reg d' t' →
        (do copyMemoryToStorage reg k st₁ d' (← st₁.mload a) t') = .ok st₂ →
        st₂.memory = st.memory ∧
          readStorage reg k st₂ d' t' = (do readMemory reg k st (← st.mload a) t') ∧
          ∀ x, st₂.sload x ≠ st₁.sload x → Leaf reg d' t' x := fun hinv hsep' h₂ => by
      obtain ⟨c, hc, h₂⟩ := bind_eq_ok.mp h₂
      obtain ⟨hr, hch, hm⟩ := copyMemoryToStorage_spec hsep' h₂
      refine ⟨hm.trans hinv, ?_, hch⟩
      rw [hr, readMemory_congr hinv, ← State.mload_congr hinv, hc, ok_bind]
    rcases Ty.layout_cases t with ⟨_, _, rfl⟩ | ⟨id, rfl⟩ | ⟨e, n, rfl⟩ | ⟨e, rfl⟩ | ht
    · simp only [copyMemoryToStorage, Ty.isValueType, Bool.false_eq_true, if_false, beq_iff_eq,
        hp] at h
      cases h
      exact ⟨rfl, fun x hx => absurd rfl hx, rfl⟩
    · simp only [copyMemoryToStorage, Ty.isValueType, Bool.false_eq_true, if_false, beq_iff_eq,
        hp] at h
      obtain ⟨fs, hfs, h⟩ := bind_eq_ok.mp h
      obtain ⟨hm, hread, hch⟩ := fields_read_back (I := fun st₁ => st₁.memory = st.memory)
        hsep hfs (fun _ ha _ _ hinv h₂ => hcell hinv (hsep.field hfs ha) h₂) rfl h
      refine ⟨?_, hch, hm⟩
      simp only [readMemory, Ty.isValueType, Bool.false_eq_true, if_false, hp, hfs, ok_bind, hread]
    · simp only [copyMemoryToStorage, Ty.isValueType, Bool.false_eq_true, if_false, beq_iff_eq,
        hp] at h
      obtain ⟨size, hs, h⟩ := bind_eq_ok.mp h
      obtain ⟨hm, hread, hch⟩ := elems_read_back (I := fun st₁ => st₁.memory = st.memory)
        hsep hs (fun i hi _ _ hinv h₂ => hcell hinv (hsep.elem hs hi) h₂) rfl h
      refine ⟨?_, hch, hm⟩
      simp only [readMemory, Ty.isValueType, Bool.false_eq_true, if_false, hp, hread]
    · simp only [copyMemoryToStorage, Ty.isValueType, Bool.false_eq_true, if_false, beq_iff_eq,
        hp] at h
      obtain ⟨v, hv, h⟩ := bind_eq_ok.mp h
      obtain ⟨len, hl, h⟩ := bind_eq_ok.mp h
      obtain ⟨oldLen, hol, h⟩ := bind_eq_ok.mp h
      obtain ⟨size, hs, h⟩ := bind_eq_ok.mp h
      obtain ⟨st₁, h₁, h₂⟩ := bind_eq_ok.mp h
      have hlen := (copyLength_ok hl).2
      obtain ⟨hm₁, hread, hch, hm⟩ := data_read_back (I := fun st₁ => st₁.memory = st.memory)
        hsep hs hlen (copyLength_ok hol).2
        (fun i hi _ _ hinv h₂ => hcell hinv (hsep.data hs (Nat.lt_of_lt_of_le hi hlen)) h₂) rfl h₁ h₂
      refine ⟨?_, hch, hm.trans hm₁⟩
      simp only [readMemory, Ty.isValueType, Bool.false_eq_true, if_false, hp, hv, hl, ok_bind, hread]
    · exact absurd ht (by simp [hv])

theorem copyStorageToStorage_self {k : Nat} {st st' : State} {d : Int} {t : Ty}
    (h : copyStorageToStorage reg k st d d t = .ok st') : st' = st := by
  cases k with
  | zero => cases h
  | succ k =>
    simp only [copyStorageToStorage, beq_self_eq_true, if_true] at h
    exact (Except.ok.inj h).symm

theorem copyStorageToStorage_spec : ∀ {k : Nat} {st st' : State} {d s : Int} {t : Ty},
    Apart reg d s t → Separated reg d t → copyStorageToStorage reg k st d s t = .ok st' →
      readStorage reg k st' d t = readStorage reg k st s t ∧
        (∀ x, st'.sload x ≠ st.sload x → Leaf reg d t x) ∧ st'.memory = st.memory
  | 0, _, _, _, _, _, _, _, h => by cases h
  | k + 1, st, st', d, s, t, hap, hsep, h => by
    by_cases hds : d = s
    · subst hds
      cases copyStorageToStorage_self h
      exact ⟨rfl, fun x hx => absurd rfl hx, rfl⟩
    -- a part copied keeps the source unchanged, since it writes only destination slots
    have hpart : ∀ {st₁ st₂ : State} {d' s' : Int} {t' : Ty},
        (∀ x, Leaf reg s t x → st₁.sload x = st.sload x) ∧ st₁.memory = st.memory →
        (∀ x, Leaf reg d' t' x → Leaf reg d t x) → (∀ x, Leaf reg s' t' x → Leaf reg s t x) →
        Apart reg d' s' t' → Separated reg d' t' →
        copyStorageToStorage reg k st₁ d' s' t' = .ok st₂ →
        ((∀ x, Leaf reg s t x → st₂.sload x = st.sload x) ∧ st₂.memory = st.memory) ∧
          readStorage reg k st₂ d' t' = readStorage reg k st s' t' ∧
          ∀ x, st₂.sload x ≠ st₁.sload x → Leaf reg d' t' x := fun {st₁ st₂ d' s' t'} hinv hd hs hap' hsep' h₂ => by
      obtain ⟨hr, hch, hm⟩ := copyStorageToStorage_spec hap' hsep' h₂
      refine ⟨⟨fun x hx => ?_, hm.trans hinv.2⟩, ?_, hch⟩
      · by_cases hx₂ : st₂.sload x = st₁.sload x
        · rw [hx₂, hinv.1 x hx]
        · exact absurd hx (hap x (hd x (hch x hx₂)))
      · rw [hr]
        exact readStorage_congr k s' t' fun x hx => hinv.1 x (hs x hx)
    rcases Ty.layout_cases t with ⟨_, _, rfl⟩ | ⟨id, rfl⟩ | ⟨e, n, rfl⟩ | ⟨e, rfl⟩ | ht
    · simp only [copyStorageToStorage, beq_iff_eq, hds, if_false] at h
      cases h
      exact ⟨rfl, fun x hx => absurd rfl hx, rfl⟩
    · simp only [copyStorageToStorage, beq_iff_eq, hds, if_false] at h
      obtain ⟨fs, hfs, h⟩ := bind_eq_ok.mp h
      obtain ⟨hinv, hread, hch⟩ := fields_read_back
        (I := fun st₁ => (∀ x, Leaf reg s (.struct id) x → st₁.sload x = st.sload x) ∧
          st₁.memory = st.memory)
        hsep hfs (fun _ ha _ _ hinv h₂ => hpart hinv (fun _ hx => hx.field hfs ha)
          (fun _ hx => hx.field hfs ha) (hap.field hfs ha) (hsep.field hfs ha) h₂)
        ⟨fun _ _ => rfl, rfl⟩ h
      refine ⟨?_, hch, hinv.2⟩
      rw [hread]
      simp only [readStorage, hfs, ok_bind]
    · simp only [copyStorageToStorage, beq_iff_eq, hds, if_false] at h
      obtain ⟨size, hs, h⟩ := bind_eq_ok.mp h
      obtain ⟨hinv, hread, hch⟩ := elems_read_back
        (I := fun st₁ => (∀ x, Leaf reg s (.array e (some n)) x → st₁.sload x = st.sload x) ∧
          st₁.memory = st.memory)
        hsep hs (fun i hi _ _ hinv h₂ => hpart hinv (fun _ hx => hx.elem hs hi)
          (fun _ hx => hx.elem hs hi) (hap.elem hs hi) (hsep.elem hs hi) h₂)
        ⟨fun _ _ => rfl, rfl⟩ h
      refine ⟨?_, hch, hinv.2⟩
      rw [hread]
      simp only [readStorage, hs, ok_bind]
    · simp only [copyStorageToStorage, beq_iff_eq, hds, if_false] at h
      obtain ⟨len, hl, h⟩ := bind_eq_ok.mp h
      obtain ⟨oldLen, hol, h⟩ := bind_eq_ok.mp h
      obtain ⟨size, hs, h⟩ := bind_eq_ok.mp h
      obtain ⟨st₁, h₁, h₂⟩ := bind_eq_ok.mp h
      have hlen := (copyLength_ok hl).2
      -- the new length goes to the destination's length slot, which is no slot of the source
      have hinv₀ : ∀ x, Leaf reg s (.array e none) x → (st.sstore d len).sload x = st.sload x :=
        fun x hx => by
          have hxd : x ≠ d := fun hxd => hap d ⟨[], .length⟩ (hxd ▸ hx)
          simp [hxd]
      obtain ⟨hinv, hread, hch, hm⟩ := data_read_back
        (I := fun st₁ => (∀ x, Leaf reg s (.array e none) x → st₁.sload x = st.sload x) ∧
          st₁.memory = st.memory)
        hsep hs hlen (copyLength_ok hol).2
        (fun i hi _ _ hinv h₂ =>
          have hi' : i < copyLimit := Nat.lt_of_lt_of_le hi hlen
          hpart hinv (fun _ hx => hx.data hs hi') (fun _ hx => hx.data hs hi') (hap.data hs hi')
            (hsep.data hs hi') h₂)
        ⟨hinv₀, rfl⟩ h₁ h₂
      refine ⟨?_, hch, hm.trans hinv.2⟩
      rw [hread]
      simp only [readStorage, hl, hs, ok_bind]
    · have hc : copyStorageToStorage reg (k + 1) st d s t = .ok (st.sstore d (st.sload s)) := by
        cases t <;> first | (simp [copyStorageToStorage, hds]; done) | cases ht
      rw [hc] at h
      cases h
      refine ⟨by simp [readStorage_value ht], fun x hx => ?_, rfl⟩
      have hxd : x = d := Classical.byContradiction fun hne => hx (by simp [hne])
      exact hxd ▸ ⟨[], .value ht⟩

end ContractCfg.Machine
