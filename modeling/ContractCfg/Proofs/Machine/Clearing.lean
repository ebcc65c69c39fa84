import ContractCfg.Proofs.Machine.Fresh

/-!
Clearing a storage object, as `delete` does, runs to its end whenever the object can be read:
a read and a clear stop at the same unknown structs, types that contain themselves and overlong
dynamic arrays, and a clear writes only zeroes, which keep every read possible
(`clearStorage_ok`). When the object's layout is separated, the clear zeroes every slot the
object held before it (`Live`): besides the words it now reads as zero, the former elements of
every dynamic array, down to their own former elements.
-/

namespace ContractCfg.Machine

open ContractCfg.IR

variable {reg : TypeRegistry}

namespace State

/-- `st'` differs from `st` only in slots it has set to zero. -/
def Zeroes (st st' : State) : Prop := ∀ x, st'.sload x ≠ st.sload x → st'.sload x = 0

theorem Zeroes.refl (st : State) : st.Zeroes st := fun _ h => absurd rfl h

theorem Zeroes.zero {st st' : State} (h : st.Zeroes st') {x : Int} (hx : st.sload x = 0) :
    st'.sload x = 0 := by
  by_cases h' : st'.sload x = st.sload x
  · rw [h', hx]
  · exact h x h'

theorem Zeroes.trans {st₁ st₂ st₃ : State} (h₁ : st₁.Zeroes st₂) (h₂ : st₂.Zeroes st₃) :
    st₁.Zeroes st₃ := fun x hx => by
  rcases sload_changed (m := st₂) hx with hx₁ | hx₂
  · exact h₂.zero (h₁ x hx₁)
  · exact h₂ x hx₂

end State

theorem mapM_ok_mem {α β : Type} {f : α → Except Fault β} :
    ∀ {xs : List α} {ys : List β}, xs.mapM f = .ok ys → ∀ a ∈ xs, ∃ b, f a = .ok b
  | [], _, _, a, ha => absurd ha List.not_mem_nil
  | x :: rest, ys, h, a, ha => by
    simp only [List.mapM_cons] at h
    obtain ⟨b, hb, h⟩ := bind_eq_ok.mp h
    obtain ⟨bs, hbs, -⟩ := bind_eq_ok.mp h
    rcases List.mem_cons.mp ha with rfl | ha
    · exact ⟨b, hb⟩
    · exact mapM_ok_mem hbs a ha

theorem map_parts_ok {α : Type} {xs : List α} {f : α → Except Fault Obj}
    (h : ∀ a ∈ xs, ∃ b, f a = .ok b) : ∃ o, Obj.parts <$> xs.mapM f = .ok o := by
  obtain ⟨ys, hys⟩ := mapM_exists_ok h
  exact ⟨.parts ys, by rw [hys]; rfl⟩

theorem foldlM_ok_of_imp {α : Type} {f g : State → α → Except Fault State}
    (h : ∀ a st st', f st a = .ok st' → g st a = .ok st') :
    ∀ {xs : List α} {st st' : State}, xs.foldlM f st = .ok st' → xs.foldlM g st = .ok st'
  | [], _, _, hf => hf
  | a :: rest, st, st', hf => by
    rw [List.foldlM_cons] at hf ⊢
    obtain ⟨st₁, h₁, hf⟩ := bind_eq_ok.mp hf
    rw [h a st st₁ h₁, ok_bind]
    exact foldlM_ok_of_imp h hf

theorem foldlM_ok_of_zeroes {α : Type} {f : State → α → Except Fault State} {R : State → α → Prop}
    (hR : ∀ a st st', R st a → st.Zeroes st' → R st' a)
    (hf : ∀ a st, R st a → ∃ st', f st a = .ok st' ∧ st.Zeroes st') :
    ∀ {xs : List α} {st : State}, (∀ a ∈ xs, R st a) →
      ∃ st', xs.foldlM f st = .ok st' ∧ st.Zeroes st'
  | [], st, _ => ⟨st, rfl, State.Zeroes.refl st⟩
  | a :: rest, st, h => by
    obtain ⟨st₁, h₁, hz₁⟩ := hf a st (h a List.mem_cons_self)
    obtain ⟨st', h', hz'⟩ := foldlM_ok_of_zeroes hR hf
      fun b (hb : b ∈ rest) => hR b st st₁ (h b (List.mem_cons_of_mem a hb)) hz₁
    refine ⟨st', ?_, hz₁.trans hz'⟩
    rw [List.foldlM_cons, h₁, ok_bind]
    exact h'

theorem readStorage_ok_of_zeroes {st st' : State} (hz : st.Zeroes st') :
    ∀ {k : Nat} {d : Int} {t : Ty} {o : Obj}, readStorage reg k st d t = .ok o →
      ∃ o', readStorage reg k st' d t = .ok o'
  | 0, d, t, o, h => ⟨o, by cases t <;> exact h⟩
  | k + 1, d, t, o, h => by
    rcases Ty.layout_cases t with ⟨_, _, rfl⟩ | ⟨id, rfl⟩ | ⟨e, n, rfl⟩ | ⟨e, rfl⟩ | ht
    · exact ⟨_, rfl⟩
    · simp only [readStorage] at h ⊢
      obtain ⟨fs, hfs, h⟩ := bind_eq_ok.mp h
      obtain ⟨os, hos, -⟩ := map_eq_ok.mp h
      rw [hfs, ok_bind]
      refine map_parts_ok fun a ha => ?_
      obtain ⟨b, hb⟩ := mapM_ok_mem hos a ha
      obtain ⟨i, off, ft⟩ := a
      exact readStorage_ok_of_zeroes hz hb
    · simp only [readStorage] at h ⊢
      obtain ⟨size, hs, h⟩ := bind_eq_ok.mp h
      obtain ⟨os, hos, -⟩ := map_eq_ok.mp h
      rw [hs, ok_bind]
      refine map_parts_ok fun i hi => ?_
      obtain ⟨b, hb⟩ := mapM_ok_mem hos i hi
      exact readStorage_ok_of_zeroes hz hb
    · simp only [readStorage] at h ⊢
      obtain ⟨len, hl, h⟩ := bind_eq_ok.mp h
      obtain ⟨size, hs, h⟩ := bind_eq_ok.mp h
      obtain ⟨os, hos, -⟩ := map_eq_ok.mp h
      by_cases hd : st'.sload d = st.sload d
      · rw [hd, hl, ok_bind, hs, ok_bind]
        refine map_parts_ok fun i hi => ?_
        obtain ⟨b, hb⟩ := mapM_ok_mem hos i hi
        exact readStorage_ok_of_zeroes hz hb
      · -- the length was set to zero: no elements are read
        have h0 : copyLength 0 = .ok 0 := copyLength_natCast (Nat.zero_le _)
        rw [hz d hd, h0, ok_bind, hs, ok_bind]
        exact ⟨.parts [], rfl⟩
    · exact ⟨_, readStorage_value ht k st' d⟩

theorem clearStorage_zeroes {k : Nat} {st st' : State} {d : Int} {t : Ty}
    (h : clearStorage reg k st d t = .ok st') : st.Zeroes st' :=
  fun x hx => ((clearStorage_spec h).2.1 x hx).2

theorem clearStorage_value {t : Ty} (ht : t.isValueType = true) (k : Nat) (st : State) (d : Int) :
    clearStorage reg (k + 1) st d t = .ok (st.sstore d 0) := by
  cases t <;> first | rfl | cases ht

theorem clearStorage_succ : ∀ {k : Nat} {st st' : State} {d : Int} {t : Ty},
    clearStorage reg k st d t = .ok st' → clearStorage reg (k + 1) st d t = .ok st'
  | 0, _, _, _, _, h => by cases h
  | k + 1, st, st', d, t, h => by
    rcases Ty.layout_cases t with ⟨_, _, rfl⟩ | ⟨id, rfl⟩ | ⟨e, n, rfl⟩ | ⟨e, rfl⟩ | ht
    · exact h
    · simp only [clearStorage] at h ⊢
      obtain ⟨fs, hfs, h⟩ := bind_eq_ok.mp h
      rw [hfs, ok_bind]
      refine foldlM_ok_of_imp (fun a _ _ hc => ?_) h
      obtain ⟨_, _, _⟩ := a
      exact clearStorage_succ hc
    · simp only [clearStorage] at h ⊢
      obtain ⟨size, hs, h⟩ := bind_eq_ok.mp h
      rw [hs, ok_bind, forRange_eq_foldlM]
      rw [forRange_eq_foldlM] at h
      exact foldlM_ok_of_imp (fun _ _ _ hc => clearStorage_succ hc) h
    · simp only [clearStorage] at h
      obtain ⟨len, hl, h⟩ := bind_eq_ok.mp h
      obtain ⟨size, hs, h⟩ := bind_eq_ok.mp h
      obtain ⟨st₁, h₁, h⟩ := bind_eq_ok.mp h
      rw [forRange_eq_foldlM] at h₁
      rw [clearStorage]
      simp only [hl, hs, ok_bind, forRange_eq_foldlM]
      rw [foldlM_ok_of_imp (fun _ _ _ hc => clearStorage_succ hc) h₁, ok_bind]
      exact h
    · rw [clearStorage_value ht] at h ⊢
      exact h

theorem clearStorage_mono {k k' : Nat} (hk : k ≤ k') {st st' : State} {d : Int} {t : Ty}
    (h : clearStorage reg k st d t = .ok st') : clearStorage reg k' st d t = .ok st' := by
  obtain ⟨j, rfl⟩ := Nat.exists_eq_add_of_le hk
  induction j with
  | zero => exact h
  | succ j ih => exact clearStorage_succ (ih (Nat.le_add_right k j))

theorem clearStorage_ok : ∀ {k : Nat} {st : State} {d : Int} {t : Ty} {o : Obj},
    readStorage reg k st d t = .ok o → ∃ st', clearStorage reg (k + 1) st d t = .ok st'
  | 0, st, d, t, o, h => by
    cases t <;> first | exact ⟨st, rfl⟩ | cases h
  | k + 1, st, d, t, o, h => by
    -- a part that can be read is cleared, writing only zeroes
    have hpart : ∀ {st : State} {d' : Int} {t' : Ty}, (∃ o, readStorage reg k st d' t' = .ok o) →
        ∃ st', clearStorage reg (k + 1) st d' t' = .ok st' ∧ st.Zeroes st' := by
      intro _ _ _ hr
      obtain ⟨_, ho⟩ := hr
      obtain ⟨st', hc⟩ := clearStorage_ok ho
      exact ⟨st', hc, clearStorage_zeroes hc⟩
    have hready : ∀ {st st' : State} {d' : Int} {t' : Ty}, (∃ o, readStorage reg k st d' t' = .ok o) →
        st.Zeroes st' → ∃ o, readStorage reg k st' d' t' = .ok o := by
      intro _ _ _ _ hr hz
      obtain ⟨_, ho⟩ := hr
      exact readStorage_ok_of_zeroes hz ho
    rcases Ty.layout_cases t with ⟨_, _, rfl⟩ | ⟨id, rfl⟩ | ⟨e, n, rfl⟩ | ⟨e, rfl⟩ | ht
    · exact ⟨st, rfl⟩
    · simp only [readStorage] at h
      obtain ⟨fs, hfs, h⟩ := bind_eq_ok.mp h
      obtain ⟨os, hos, -⟩ := map_eq_ok.mp h
      rw [clearStorage]
      simp only [hfs, ok_bind]
      obtain ⟨st', h', -⟩ := foldlM_ok_of_zeroes
        (f := fun st (a : Nat × Nat × Ty) => clearStorage reg (k + 1) st (d + a.2.1) a.2.2)
        (R := fun st (a : Nat × Nat × Ty) => ∃ o, readStorage reg k st (d + a.2.1) a.2.2 = .ok o)
        (fun _ _ _ hr hz => hready hr hz) (fun _ _ hr => hpart hr)
        fun a (ha : a ∈ fs) => by
          obtain ⟨b, hb⟩ := mapM_ok_mem hos a ha
          obtain ⟨i, off, ft⟩ := a
          exact ⟨b, hb⟩
      exact ⟨st', h'⟩
    · simp only [readStorage] at h
      obtain ⟨size, hs, h⟩ := bind_eq_ok.mp h
      obtain ⟨os, hos, -⟩ := map_eq_ok.mp h
      rw [clearStorage]
      simp only [hs, ok_bind, forRange_eq_foldlM]
      obtain ⟨st', h', -⟩ := foldlM_ok_of_zeroes
        (R := fun st i => ∃ o, readStorage reg k st (d + elementOffset i size) e = .ok o)
        (fun _ _ _ hr hz => hready hr hz) (fun _ _ hr => hpart hr)
        fun i (hi : i ∈ List.range n) => mapM_ok_mem hos i hi
      exact ⟨st', h'⟩
    · simp only [readStorage] at h
      obtain ⟨len, hl, h⟩ := bind_eq_ok.mp h
      obtain ⟨size, hs, h⟩ := bind_eq_ok.mp h
      obtain ⟨os, hos, -⟩ := map_eq_ok.mp h
      rw [clearStorage]
      simp only [hl, hs, ok_bind, forRange_eq_foldlM]
      obtain ⟨st₁, h₁, -⟩ := foldlM_ok_of_zeroes
        (R := fun st i => ∃ o, readStorage reg k st (dataSlot d + elementOffset i size) e = .ok o)
        (fun _ _ _ hr hz => hready hr hz) (fun _ _ hr => hpart hr)
        fun i (hi : i ∈ List.range len) => mapM_ok_mem hos i hi
      exact ⟨st₁.sstore d 0, by rw [h₁]; rfl⟩
    · exact ⟨_, clearStorage_value ht (k + 1) st d⟩

/-- `Live reg st d t x`: slot `x` holds a word of the storage object of type `t` at `d` as `st`
holds it: a value, a dynamic array's length, or a word of a field, of an element of a static
array, or of an element a dynamic array holds below its length. -/
inductive Live (reg : TypeRegistry) (st : State) : Int → Ty → Int → Prop
  | value {d : Int} {t : Ty} : t.isValueType → Live reg st d t d
  | length {d : Int} {e : Ty} : Live reg st d (.array e none) d
  | field {d : Int} {id : Nat} {fs : List (Nat × Nat × Ty)} {i off : Nat} {ft : Ty} {x : Int} :
      fieldOffsets reg (.struct id) id = .ok fs → (i, off, ft) ∈ fs →
      Live reg st (d + off) ft x → Live reg st d (.struct id) x
  | elem {d : Int} {e : Ty} {n size i : Nat} {x : Int} :
      sizeOf' reg e = .ok size → i < n →
      Live reg st (d + elementOffset i size) e x → Live reg st d (.array e (some n)) x
  | data {d : Int} {e : Ty} {len size i : Nat} {x : Int} :
      copyLength (st.sload d) = .ok len → sizeOf' reg e = .ok size → i < len →
      Live reg st (dataSlot d + elementOffset i size) e x → Live reg st d (.array e none) x

namespace Live

variable {st st' : State} {d x : Int} {t : Ty}

theorem leaf (h : Live reg st d t x) : Leaf reg d t x := by
  induction h with
  | value hv => exact ⟨[], .value hv⟩
  | length => exact ⟨[], .length⟩
  | field hfs hmem _ ih => exact ih.field hfs hmem
  | elem hs hi _ ih => exact ih.elem hs hi
  | data hl hs hi _ ih => exact ih.data hs (Nat.lt_of_lt_of_le hi (copyLength_ok hl).2)

theorem congr (h : Live reg st d t x) :
    (∀ y, Leaf reg d t y → st'.sload y = st.sload y) → Live reg st' d t x := by
  induction h with
  | value hv => exact fun _ => .value hv
  | length => exact fun _ => .length
  | field hfs hmem _ ih => exact fun hs => .field hfs hmem (ih fun y hy => hs y (hy.field hfs hmem))
  | elem hsz hi _ ih => exact fun hs => .elem hsz hi (ih fun y hy => hs y (hy.elem hsz hi))
  | data hl hsz hi _ ih =>
    intro hs
    have hlen := Nat.lt_of_lt_of_le hi (copyLength_ok hl).2
    refine .data ?_ hsz hi (ih fun y hy => hs y (hy.data hsz hlen))
    rw [hs _ ⟨[], .length⟩]
    exact hl

end Live

theorem foldlM_clears {α : Type} {f : State → α → Except Fault State} {L : α → Int → Prop}
    {V : State → α → Int → Prop}
    (hV : ∀ a st₁ st₂, (∀ y, L a y → st₂.sload y = st₁.sload y) → ∀ x, V st₁ a x → V st₂ a x) :
    ∀ {xs : List α}, (∀ a ∈ xs, ∀ st₁ st₂, f st₁ a = .ok st₂ →
        (∀ x, V st₁ a x → st₂.sload x = 0) ∧ ∀ x, st₂.sload x ≠ st₁.sload x → L a x ∧ st₂.sload x = 0) →
      xs.Pairwise (fun a b => ∀ x, L a x → L b x → False) →
      ∀ {st st' : State}, xs.foldlM f st = .ok st' →
        (∀ a ∈ xs, ∀ x, V st a x → st'.sload x = 0) ∧
          ∀ x, st'.sload x ≠ st.sload x → (∃ a ∈ xs, L a x) ∧ st'.sload x = 0
  | [], _, _, st, st', h => by
    cases h
    exact ⟨fun _ ha => absurd ha List.not_mem_nil, fun x hx => absurd rfl hx⟩
  | a :: rest, hstep, hdisj, st, st', h => by
    rw [List.foldlM_cons] at h
    obtain ⟨st₁, h₁, h⟩ := bind_eq_ok.mp h
    obtain ⟨hV₁, hch₁⟩ := hstep a List.mem_cons_self st st₁ h₁
    obtain ⟨hVs, hchs⟩ := foldlM_clears hV (fun b hb => hstep b (List.mem_cons_of_mem a hb))
      (List.pairwise_cons.mp hdisj).2 h
    have hz : st₁.Zeroes st' := fun x hx => (hchs x hx).2
    refine ⟨fun b hb x hx => ?_, fun x hx => ?_⟩
    · rcases List.mem_cons.mp hb with rfl | hb
      · exact hz.zero (hV₁ x hx)
      · -- the first clear wrote only its own part's slots, so `b` holds what it held
        refine hVs b hb x (hV b st st₁ (fun y hy => Classical.byContradiction fun hne => ?_) x hx)
        exact (List.pairwise_cons.mp hdisj).1 b hb y (hch₁ y hne).1 hy
    · rcases sload_changed (m := st₁) hx with hx₁ | hx'
      · obtain ⟨hax, h0⟩ := hch₁ x hx₁
        exact ⟨⟨a, List.mem_cons_self, hax⟩, hz.zero h0⟩
      · obtain ⟨⟨b, hb, hbx⟩, h0⟩ := hchs x hx'
        exact ⟨⟨b, List.mem_cons_of_mem a hb, hbx⟩, h0⟩

theorem clearStorage_clears_live : ∀ {k : Nat} {st st' : State} {d : Int} {t : Ty},
    Separated reg d t → clearStorage reg k st d t = .ok st' → ∀ x, Live reg st d t x → st'.sload x = 0
  | 0, _, _, _, _, _, h, _, _ => by cases h
  | k + 1, st, st', d, t, hsep, h, x, hx => by
    rcases Ty.layout_cases t with ⟨_, _, rfl⟩ | ⟨id, rfl⟩ | ⟨e, n, rfl⟩ | ⟨e, rfl⟩ | ht
    · cases hx with
      | value hv => cases hv
    · simp only [clearStorage] at h
      obtain ⟨fs, hfs, h⟩ := bind_eq_ok.mp h
      have hparts := foldlM_clears (L := fun a => Leaf reg (d + a.2.1) a.2.2)
        (V := fun st a => Live reg st (d + a.2.1) a.2.2) (fun _ _ _ hs _ hx => hx.congr hs)
        (fun a ha _ _ hc => by
          obtain ⟨_, _, _⟩ := a
          exact ⟨clearStorage_clears_live (hsep.field hfs ha) hc, (clearStorage_spec hc).2.1⟩)
        ((fieldOffsets_pairwise hfs).imp_of_mem fun ha hb hne => hsep.fields_apart hfs ha hb hne) h
      cases hx with
      | value hv => cases hv
      | field hfs' hmem hx =>
        rw [hfs] at hfs'
        cases hfs'
        exact hparts.1 _ hmem x hx
    · simp only [clearStorage] at h
      obtain ⟨size, hs, h⟩ := bind_eq_ok.mp h
      rw [forRange_eq_foldlM] at h
      have hparts := foldlM_clears (L := fun i => Leaf reg (d + elementOffset i size) e)
        (V := fun st i => Live reg st (d + elementOffset i size) e) (fun _ _ _ hs _ hx => hx.congr hs)
        (fun i hi _ _ hc =>
          ⟨clearStorage_clears_live (hsep.elem hs (List.mem_range.mp hi)) hc, (clearStorage_spec hc).2.1⟩)
        (List.Pairwise.imp_of_mem (fun hi hj hne =>
          hsep.elems_apart hs (List.mem_range.mp hi) (List.mem_range.mp hj) hne) List.nodup_range) h
      cases hx with
      | value hv => cases hv
      | elem hs' hi hx =>
        rw [hs] at hs'
        cases hs'
        exact hparts.1 _ (List.mem_range.mpr hi) x hx
    · simp only [clearStorage] at h
      obtain ⟨len, hl, h⟩ := bind_eq_ok.mp h
      obtain ⟨size, hs, h⟩ := bind_eq_ok.mp h
      obtain ⟨st₁, h₁, h⟩ := bind_eq_ok.mp h
      cases h
      rw [forRange_eq_foldlM] at h₁
      have hlim : ∀ {i}, i ∈ List.range len → i < copyLimit := fun hi =>
        Nat.lt_of_lt_of_le (List.mem_range.mp hi) (copyLength_ok hl).2
      have hparts := foldlM_clears (L := fun i => Leaf reg (dataSlot d + elementOffset i size) e)
        (V := fun st i => Live reg st (dataSlot d + elementOffset i size) e)
        (fun _ _ _ hs _ hx => hx.congr hs)
        (fun i hi _ _ hc => ⟨clearStorage_clears_live (hsep.data hs (hlim hi)) hc, (clearStorage_spec hc).2.1⟩)
        (List.Pairwise.imp_of_mem (fun hi hj hne => hsep.data_apart hs (hlim hi) (hlim hj) hne)
          List.nodup_range) h₁
      -- the length is zeroed last, over the cleared elements
      simp only [State.sload_sstore]
      split
      · rfl
      · cases hx with
        | value hv => cases hv
        | length => contradiction
        | data hl' hs' hi hx =>
          rw [hl] at hl'
          rw [hs] at hs'
          cases hl'
          cases hs'
          exact hparts.1 _ (List.mem_range.mpr hi) x hx
    · rw [clearStorage_value ht] at h
      cases h
      have hxd : x = d := by
        cases hx <;> first | rfl | cases ht
      simp [hxd]

theorem clear_readable {k k' : Nat} (hk : k < k') {st : State} {d : Int} {t : Ty} {o : Obj}
    (h : readStorage reg k st d t = .ok o) :
    ∃ st', clearStorage reg k' st d t = .ok st' ∧
      (∃ z, zeroObj reg (k + 1) t = .ok z ∧ readStorage reg k st' d t = .ok z) ∧
      (∀ x, st'.sload x ≠ st.sload x → Leaf reg d t x ∧ st'.sload x = 0) ∧ st'.memory = st.memory ∧
      (Separated reg d t → ∀ x, Live reg st d t x → st'.sload x = 0) := by
  obtain ⟨st', hc⟩ := clearStorage_ok h
  obtain ⟨⟨z, hz, hr⟩, hch, hm⟩ := clearStorage_spec hc
  -- the cleared object reads at depth `k` as it reads at `k + 1`
  obtain ⟨o', ho'⟩ := readStorage_ok_of_zeroes (clearStorage_zeroes hc) h
  have hz' : o' = z := by
    rw [readStorage_succ ho'] at hr
    exact Except.ok.inj hr
  subst hz'
  exact ⟨st', clearStorage_mono hk hc, ⟨o', hz, ho'⟩, hch, hm,
    fun hsep => clearStorage_clears_live hsep hc⟩

theorem copyMemoryToStorage_null {t : Ty} (ht : t.isValueType = false) (k : Nat) (st : State) (d : Int) :
    copyMemoryToStorage reg (k + 1) st d 0 t = clearStorage reg k st d t := by
  simp [copyMemoryToStorage, ht]

end ContractCfg.Machine
