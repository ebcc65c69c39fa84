import ContractCfg.Proofs.Machine.Copies

/-!
Copying a storage object into memory builds a fresh object. Every cell the copy writes lies past
the end memory had when it started, so the cells that were there keep their values and storage
is untouched; the pointer it returns reads as the storage object, and keeps reading so in every
memory that holds the cells the copy allocated.

Memory ends are 64-bit words (`State.allocate`): an allocation whose end wraps around cuts memory
back. A copy that succeeds never wraps. No successful allocation leaves more than
`memoryLimit + 1` cells, and every cell an object reserves is written before the copy returns,
so the last of them lies below that bound and the end it was allocated with did not wrap.
-/

namespace ContractCfg.Machine

open ContractCfg.IR

namespace State

/-- `st'` holds every cell of `st` from index `lo` on. -/
def Holds (st st' : State) (lo : Nat) : Prop :=
  ∀ j, lo ≤ j → j < st.memory.size → st'.memory[j]? = st.memory[j]?

theorem Holds.refl (st : State) (lo : Nat) : st.Holds st lo := fun _ _ _ => rfl

theorem Holds.mono {st st' : State} {lo lo' : Nat} (h : st.Holds st' lo) (hle : lo ≤ lo') :
    st.Holds st' lo' := fun j hj hlt => h j (Nat.le_trans hle hj) hlt

theorem Holds.lt_size {st st' : State} {lo j : Nat} (h : st.Holds st' lo) (hj : lo ≤ j)
    (hlt : j < st.memory.size) : j < st'.memory.size :=
  (Array.getElem?_eq_some_iff.mp ((h j hj hlt).trans (Array.getElem?_eq_getElem hlt))).1

theorem Holds.trans {st₁ st₂ st₃ : State} {lo : Nat} (h₁ : st₁.Holds st₂ lo) (h₂ : st₂.Holds st₃ lo) :
    st₁.Holds st₃ lo := fun j hj hlt => by
  rw [h₂ j hj (h₁.lt_size hj hlt), h₁ j hj hlt]

theorem Holds.size {st st' : State} (h : st.Holds st' 0) : st.memory.size ≤ st'.memory.size := by
  rcases Nat.eq_zero_or_pos st.memory.size with h0 | hpos
  · omega
  · have := h.lt_size (Nat.zero_le _) (Nat.sub_lt hpos Nat.one_pos)
    omega

theorem Holds.mload {st st' : State} {lo : Nat} (h : st.Holds st' lo) {a : Int} (hlo : lo ≤ a)
    (ha : a < st.memory.size) : st'.mload a = st.mload a := by
  unfold State.mload cellIndex
  by_cases ha0 : 0 < a
  · have hj : a.toNat < st.memory.size := by omega
    have hj' := h.lt_size (by omega) hj
    rw [if_pos ⟨ha0, by omega⟩, if_pos ⟨ha0, ha⟩]
    simp only [ok_bind, getElem!_def, h a.toNat (by omega) hj]
  · rw [if_neg (by omega), if_neg (by omega)]
    rfl

theorem mstore_ok {st st' : State} {w : Nat} {v : Int} (h : st.mstore w v = .ok st') :
    0 < w ∧ w < st.memory.size ∧ st'.storage = st.storage ∧ st'.memory.size = st.memory.size ∧
      st'.memory[w]? = some v ∧ ∀ j, j ≠ w → st'.memory[j]? = st.memory[j]? := by
  unfold mstore cellIndex at h
  split at h
  · next hw =>
    cases h
    refine ⟨by omega, by omega, rfl, ?_, ?_, fun j hj => ?_⟩ <;>
      simp only [Int.toNat_natCast, Array.set!_eq_setIfInBounds]
    · exact Array.size_setIfInBounds
    · rw [Array.getElem?_setIfInBounds, if_pos rfl, if_pos (by omega)]
    · rw [Array.getElem?_setIfInBounds, if_neg (Ne.symm hj)]
  · cases h

theorem allocate_ok {st st' : State} {size ptr : Int} (h : st.allocate size = .ok (ptr, st')) :
    ptr = (max st.memory.size 1 : Nat) ∧ st'.storage = st.storage ∧
      st'.memory.size = (max st.memory.size 1 + max size.toNat 1) % addressModulus ∧
      st'.memory.size ≤ memoryLimit + 1 ∧
      (max st.memory.size 1 + max size.toNat 1 < addressModulus → st.Holds st' 0) := by
  -- allocation starts from `#[0]` when memory is empty, so the first address is at least 1
  have hbase : (if st.memory.isEmpty then st.clearMemory else st).memory.size = max st.memory.size 1 := by
    by_cases he : st.memory.isEmpty
    · simp only [he, if_true, clearMemory, List.size_toArray, List.length_cons, List.length_nil]
      have := Array.isEmpty_iff.mp he
      simp [this]
    · simp only [he, Bool.false_eq_true, if_false]
      have : st.memory.size ≠ 0 := fun h0 => he (Array.isEmpty_iff.mpr (Array.eq_empty_of_size_eq_zero h0))
      omega
  -- the old cells lie below the end when memory was not empty, and there are none otherwise
  have hhold : ∀ n, max st.memory.size 1 < n →
      st.Holds { (if st.memory.isEmpty then st.clearMemory else st) with
        memory := resizeCells (if st.memory.isEmpty then st.clearMemory else st).memory n } 0 := by
    intro n hn j _ hj
    by_cases he : st.memory.isEmpty
    · simp [Array.isEmpty_iff.mp he] at hj
    · simp only [he, Bool.false_eq_true, if_false, resizeCells]
      rw [if_neg (by omega)]
      exact Array.getElem?_append_left hj
  unfold allocate at h
  simp only [hbase] at h
  split at h
  · next hc =>
    obtain ⟨rfl, rfl⟩ := Prod.mk.inj (Except.ok.inj h)
    have hM : addressModulus = 18446744073709551616 := rfl
    have hL : memoryLimit = 16777216 := rfl
    refine ⟨rfl, by split <;> rfl, by rw [resizeCells_size], ?_, fun hw => ?_⟩
    · rw [resizeCells_size]
      simp only [hM, hL] at hc ⊢
      omega
    · exact hhold _ (by rw [Nat.mod_eq_of_lt hw]; omega)
  · cases h

theorem mload_of_getElem? {st : State} {w : Nat} {v : Int} (hw : 0 < w) (h : st.memory[w]? = some v) :
    st.mload w = .ok v := by
  have hlt := (Array.getElem?_eq_some_iff.mp h).1
  unfold mload cellIndex
  rw [if_pos ⟨by omega, by omega⟩]
  simp only [ok_bind, Int.toNat_natCast, getElem!_def, h]
  rfl

end State

theorem readStorage_storage {st st' : State} (h : st'.storage = st.storage) (k : Nat) (d : Int) (t : Ty) :
    readStorage reg k st' d t = readStorage reg k st d t :=
  readStorage_congr k d t fun x _ => by simp only [State.sload, h]

theorem mapM_exists_ok {α β : Type} {f : α → Except Fault β} :
    ∀ {xs : List α}, (∀ a ∈ xs, ∃ b, f a = .ok b) → ∃ ys, xs.mapM f = .ok ys
  | [], _ => ⟨[], rfl⟩
  | a :: rest, h => by
    obtain ⟨b, hb⟩ := h a List.mem_cons_self
    obtain ⟨ys, hys⟩ := mapM_exists_ok fun a' ha' => h a' (List.mem_cons_of_mem a ha')
    exact ⟨b :: ys, by simp only [List.mapM_cons, hb, hys, ok_bind]; rfl⟩

theorem fieldOffsets_indices {t : Ty} {id : Nat} {d : StructDef} {fs : List (Nat × Nat × Ty)}
    (hd : reg.get? id = some d) (h : fieldOffsets reg t id = .ok fs) :
    fs.map (·.1) = List.range d.fields.length := by
  unfold fieldOffsets at h
  rw [hd] at h
  have hidx := mapM_ok_map (g := fun y : Nat × Nat × Ty => y.1) (h := fun x => x.2)
    (fun x y hxy => by
      obtain ⟨⟨_, ft⟩, i⟩ := x
      dsimp only at hxy
      split at hxy <;> cases hxy
      rfl) h
  rw [hidx, List.zipIdx_map_snd, List.range_eq_range']

section Keeps

variable {α : Type} {f : State → α → Except Fault State}

theorem foldlM_keeps {Q : State → α → Prop} {R : α → α → Prop} {I : State → Prop} :
    ∀ {xs : List α}, (∀ a ∈ xs, ∀ st₁ st₂, I st₁ → f st₁ a = .ok st₂ →
        I st₂ ∧ Q st₂ a ∧ ∀ b, R b a → Q st₁ b → Q st₂ b) →
      xs.Pairwise R → ∀ {st st' : State}, I st → xs.foldlM f st = .ok st' →
        I st' ∧ (∀ a ∈ xs, Q st' a) ∧ ∀ b, (∀ a ∈ xs, R b a) → Q st b → Q st' b
  | [], _, _, st, st', hinv, h => by
    cases h
    exact ⟨hinv, fun _ ha => absurd ha List.not_mem_nil, fun _ _ hb => hb⟩
  | a :: rest, hstep, hR, st, st', hinv, h => by
    rw [List.foldlM_cons] at h
    obtain ⟨st₁, h₁, h⟩ := bind_eq_ok.mp h
    obtain ⟨hinv₁, hQ₁, hkeep₁⟩ := hstep a List.mem_cons_self st st₁ hinv h₁
    obtain ⟨hinv', hQ, hkeep⟩ := foldlM_keeps (fun b hb => hstep b (List.mem_cons_of_mem a hb))
      (List.pairwise_cons.mp hR).2 hinv₁ h
    refine ⟨hinv', fun b hb => ?_, fun b hbR hQb => ?_⟩
    · rcases List.mem_cons.mp hb with rfl | hb
      · -- the later steps all keep what the first one established
        exact hkeep b (List.pairwise_cons.mp hR).1 hQ₁
      · exact hQ b hb
    · exact hkeep b (fun c hc => hbR c (List.mem_cons_of_mem a hc))
        (hkeep₁ b (hbR a List.mem_cons_self) hQb)

end Keeps

/-- What a copy out of storage guarantees: storage untouched, every old cell held, memory within
`memoryLimit + 1` cells, and the returned pointer reading as the storage object in every memory
that holds the cells the copy added. -/
def CopiedOut (reg : TypeRegistry) (k : Nat) (st : State) (s : Int) (t : Ty) (q : Int) (st' : State) :
    Prop :=
  st'.storage = st.storage ∧ st.Holds st' 0 ∧ st'.memory.size ≤ memoryLimit + 1 ∧
    ∃ o, readStorage reg k st s t = .ok o ∧
      ∀ st'', st'.Holds st'' st.memory.size → readMemory reg k st'' q t = .ok o

section Fill

variable {α : Type} {xs : List α} {f : State → α → Except Fault State} {k p : Nat}
  {g : α → Nat} {loc : α → Int} {ty : α → Ty}

theorem part_step {st₁ st₃ : State} {a : α} {A : Nat}
    (hf : ∀ st₁ st₃, f st₁ a = .ok st₃ → ∃ c st₂,
      copyStorageToMemory reg k st₁ (loc a) (ty a) = .ok (c, st₂) ∧ st₂.mstore (p + g a : Nat) c = .ok st₃)
    (hcopy : ∀ {st₁ q st₂}, st₁.memory.size ≤ memoryLimit + 1 →
      copyStorageToMemory reg k st₁ (loc a) (ty a) = .ok (q, st₂) → CopiedOut reg k st₁ (loc a) (ty a) q st₂)
    (hst : st₁.memory.size ≤ memoryLimit + 1) (h : f st₁ a = .ok st₃) :
    st₃.storage = st₁.storage ∧ st₃.memory.size ≤ memoryLimit + 1 ∧
      st₁.memory.size ≤ st₃.memory.size ∧ p + g a < memoryLimit + 1 ∧
      (∀ j, j ≠ p + g a → j < st₁.memory.size → st₃.memory[j]? = st₁.memory[j]?) ∧
      (p + g a < A → A ≤ st₁.memory.size → ∃ c o, st₃.memory[p + g a]? = some c ∧
        readStorage reg k st₁ (loc a) (ty a) = .ok o ∧
        ∀ st'', st₃.Holds st'' A → readMemory reg k st'' c (ty a) = .ok o) := by
  obtain ⟨c, st₂, hc, hm⟩ := hf st₁ st₃ h
  obtain ⟨hstor, hhold, hsize, o, hread, hback⟩ := hcopy hst hc
  obtain ⟨-, hw, hstor', hsize', hcell, hother⟩ := State.mstore_ok hm
  have hgrow := hhold.size
  refine ⟨hstor'.trans hstor, by omega, by omega, by omega, fun j hj hlt => ?_, fun hwA hA => ?_⟩
  · rw [hother j hj, hhold j (Nat.zero_le j) hlt]
  · refine ⟨c, o, hcell, hread, fun st'' h'' => hback st'' fun j hj hlt => ?_⟩
    -- the cells the part added lie past `A`, where the store did not write
    rw [h'' j (by omega) (by omega), hother j (by omega)]

theorem fill_bound
    (hf : ∀ a ∈ xs, ∀ st₁ st₃, f st₁ a = .ok st₃ → ∃ c st₂,
      copyStorageToMemory reg k st₁ (loc a) (ty a) = .ok (c, st₂) ∧ st₂.mstore (p + g a : Nat) c = .ok st₃)
    (hcopy : ∀ a ∈ xs, ∀ {st₁ q st₂}, st₁.memory.size ≤ memoryLimit + 1 →
      copyStorageToMemory reg k st₁ (loc a) (ty a) = .ok (q, st₂) → CopiedOut reg k st₁ (loc a) (ty a) q st₂)
    {st st' : State} (hst : st.memory.size ≤ memoryLimit + 1) (h : xs.foldlM f st = .ok st') :
    ∀ a ∈ xs, p + g a < memoryLimit + 1 :=
  (foldlM_keeps (Q := fun _ a => p + g a < memoryLimit + 1) (R := fun _ _ => True)
    (I := fun st => st.memory.size ≤ memoryLimit + 1)
    (fun a ha _ _ hinv h₁ =>
      have hs := part_step (A := 0) (hf a ha) (hcopy a ha) hinv h₁
      ⟨hs.2.1, hs.2.2.2.1, fun _ _ hb => hb⟩)
    (List.pairwise_of_forall fun _ _ => trivial) hst h).2.1

theorem fill_reads {A : Nat}
    (hf : ∀ a ∈ xs, ∀ st₁ st₃, f st₁ a = .ok st₃ → ∃ c st₂,
      copyStorageToMemory reg k st₁ (loc a) (ty a) = .ok (c, st₂) ∧ st₂.mstore (p + g a : Nat) c = .ok st₃)
    (hcopy : ∀ a ∈ xs, ∀ {st₁ q st₂}, st₁.memory.size ≤ memoryLimit + 1 →
      copyStorageToMemory reg k st₁ (loc a) (ty a) = .ok (q, st₂) → CopiedOut reg k st₁ (loc a) (ty a) q st₂)
    (hg : xs.Pairwise fun a b => g a ≠ g b) (hA : ∀ a ∈ xs, p + g a < A)
    {st st' : State} (hst : st.memory.size ≤ memoryLimit + 1) (hA₀ : A ≤ st.memory.size)
    (h : xs.foldlM f st = .ok st') :
    st'.storage = st.storage ∧ st'.memory.size ≤ memoryLimit + 1 ∧ st.memory.size ≤ st'.memory.size ∧
      (∀ j, (∀ a ∈ xs, j ≠ p + g a) → j < st.memory.size → st'.memory[j]? = st.memory[j]?) ∧
      ∀ a ∈ xs, ∃ c o, st'.memory[p + g a]? = some c ∧ readStorage reg k st (loc a) (ty a) = .ok o ∧
        ∀ st'', st'.Holds st'' A → readMemory reg k st'' c (ty a) = .ok o := by
  -- the invariant: storage, the memory bound, growth past `A`, and the cells no step writes
  obtain ⟨⟨hstor, hsize, hgrow, -, hkeep⟩, hparts, -⟩ := foldlM_keeps
    (Q := fun st₁ a => ∃ c o, st₁.memory[p + g a]? = some c ∧ readStorage reg k st (loc a) (ty a) = .ok o ∧
      ∀ st'', st₁.Holds st'' A → readMemory reg k st'' c (ty a) = .ok o)
    (R := fun b a => g b ≠ g a)
    (I := fun st₁ => st₁.storage = st.storage ∧ st₁.memory.size ≤ memoryLimit + 1 ∧
      st.memory.size ≤ st₁.memory.size ∧ A ≤ st₁.memory.size ∧
      ∀ j, (∀ a ∈ xs, j ≠ p + g a) → j < st.memory.size → st₁.memory[j]? = st.memory[j]?)
    (fun a ha st₁ st₃ ⟨hstor₁, hsize₁, hgrow₁, hA₁, hkeep₁⟩ h₁ => by
      obtain ⟨hstor₃, hsize₃, hgrow₃, -, hother, hpart⟩ := part_step (A := A) (hf a ha) (hcopy a ha) hsize₁ h₁
      obtain ⟨c, o, hcell, hread, hback⟩ := hpart (hA a ha) hA₁
      refine ⟨⟨hstor₃.trans hstor₁, hsize₃, by omega, by omega, fun j hj hlt => ?_⟩,
        ⟨c, o, hcell, by rwa [readStorage_storage hstor₁] at hread, hback⟩, fun b hb => ?_⟩
      · rw [hother j (hj a ha) (by omega), hkeep₁ j hj hlt]
      · -- part `b` sits in another cell below `A`, and its own cells lie past `A`
        rintro ⟨c', o', hcell', hread', hback'⟩
        have hlt' := (Array.getElem?_eq_some_iff.mp hcell').1
        refine ⟨c', o', by rw [hother _ (by omega) hlt', hcell'], hread', fun st'' h'' => hback' st'' ?_⟩
        intro j hj hlt
        rw [h'' j hj (by omega), hother j (by have := hA a ha; omega) hlt])
    hg ⟨rfl, hst, Nat.le_refl _, hA₀, fun _ _ _ => rfl⟩ h
  exact ⟨hstor, hsize, hgrow, hkeep, hparts⟩

end Fill

theorem copyStruct_spec {k : Nat} {st st' : State} {s q : Int} {id : Nat}
    (hcopy : ∀ {st₁ st₂ : State} {s' q' : Int} {t' : Ty}, st₁.memory.size ≤ memoryLimit + 1 →
      copyStorageToMemory reg k st₁ s' t' = .ok (q', st₂) → CopiedOut reg k st₁ s' t' q' st₂)
    (hst : st.memory.size ≤ memoryLimit + 1)
    (h : copyStorageToMemory reg (k + 1) st s (.struct id) = .ok (q, st')) :
    CopiedOut reg (k + 1) st s (.struct id) q st' := by
  simp only [copyStorageToMemory] at h
  cases hd : reg.get? id with
  | none => simp only [hd] at h; cases h
  | some d =>
  simp only [hd] at h
  obtain ⟨⟨ptr, st₁⟩, hal, h⟩ := bind_eq_ok.mp h
  obtain ⟨fs, hfs, h⟩ := bind_eq_ok.mp h
  obtain ⟨st₂, hfold, h⟩ := bind_eq_ok.mp h
  obtain ⟨rfl, rfl⟩ := Prod.mk.inj (Except.ok.inj h)
  obtain ⟨hptr, hstor₁, hsize₁, hbound₁, hhold₁⟩ := State.allocate_ok hal
  generalize hp : max st.memory.size 1 = p at hptr hsize₁ hhold₁
  subst hptr
  simp only [Int.toNat_natCast] at hsize₁ hhold₁
  have hf : ∀ a ∈ fs, ∀ st₃ st₄,
      (fun st (x : Nat × Nat × Ty) => copyStorageToMemory reg k st (s + x.2.1) x.2.2 >>= fun r =>
        r.2.mstore ((p : Int) + x.1) r.1) st₃ a = .ok st₄ →
      ∃ c st₅, copyStorageToMemory reg k st₃ (s + a.2.1) a.2.2 = .ok (c, st₅) ∧
        st₅.mstore (p + a.1 : Nat) c = .ok st₄ := fun a _ st₃ st₄ h₃ => by
    obtain ⟨⟨c, st₅⟩, hc, hm⟩ := bind_eq_ok.mp h₃
    have haddr : ((p + a.1 : Nat) : Int) = (p : Int) + a.1 := by omega
    exact ⟨c, st₅, hc, by rw [haddr]; exact hm⟩
  have hparts := fun (a : Nat × Nat × Ty) (_ : a ∈ fs) {st₃ q st₄} hst₃
    (h₃ : copyStorageToMemory reg k st₃ (s + a.2.1) a.2.2 = .ok (q, st₄)) => hcopy hst₃ h₃
  have hb := fill_bound hf hparts hbound₁ hfold
  have hidx := fieldOffsets_indices hd hfs
  have hmem : ∀ i, i < d.fields.length → ∃ a ∈ fs, a.1 = i := fun i hi => by
    have : i ∈ fs.map (·.1) := hidx ▸ List.mem_range.mpr hi
    simpa using this
  -- the last field's cell was stored below the limit, so the reserved end did not wrap
  have hend : p + max d.fields.length 1 ≤ memoryLimit + 2 := by
    rcases Nat.eq_zero_or_pos d.fields.length with h0 | hpos
    · have : memoryLimit = 16777216 := rfl
      omega
    · obtain ⟨a, ha, hai⟩ := hmem (d.fields.length - 1) (by omega)
      have := hb a ha
      omega
  have hM : addressModulus = 18446744073709551616 := rfl
  have hL : memoryLimit = 16777216 := rfl
  have hA : st₁.memory.size = p + max d.fields.length 1 := by
    rw [hsize₁, Nat.mod_eq_of_lt (by omega)]
  have hlt : ∀ a ∈ fs, a.1 < d.fields.length := fun a ha =>
    List.mem_range.mp (hidx ▸ List.mem_map_of_mem (f := (·.1)) ha)
  obtain ⟨hstor₂, hsize₂, hgrow₂, hkeep₂, hfilled⟩ := fill_reads (A := p + max d.fields.length 1)
    hf hparts (fieldOffsets_pairwise hfs) (fun a ha => by have := hlt a ha; omega) hbound₁ (Nat.le_of_eq hA.symm) hfold
  have hhold : st.Holds st₁ 0 := hhold₁ (by omega)
  refine ⟨hstor₂.trans hstor₁, fun j _ hj => ?_, hsize₂, ?_⟩
  · rw [hkeep₂ j (fun a _ => by omega) (hhold.lt_size (Nat.zero_le j) hj), hhold j (Nat.zero_le j) hj]
  -- every field reads back from its cell
  have hfield : ∀ a ∈ fs, ∃ c o, st₂.memory[p + a.1]? = some c ∧
      readStorage reg k st (s + a.2.1) a.2.2 = .ok o ∧
      ∀ st'', st₂.Holds st'' st.memory.size → readMemory reg k st'' c a.2.2 = .ok o := fun a ha => by
    obtain ⟨c, o, hcell, hread, hback⟩ := hfilled a ha
    exact ⟨c, o, hcell, by rwa [readStorage_storage hstor₁] at hread,
      fun st'' h'' => hback st'' (h''.mono (by omega))⟩
  obtain ⟨os, hos⟩ := mapM_exists_ok (f := fun a : Nat × Nat × Ty => readStorage reg k st (s + a.2.1) a.2.2)
    fun a ha => let ⟨_, o, _, hread, _⟩ := hfield a ha; ⟨o, hread⟩
  refine ⟨.parts os, ?_, fun st'' h'' => ?_⟩
  · simp only [readStorage, hfs, ok_bind, hos]
    rfl
  · have hp0 : (p : Int) ≠ 0 := by omega
    simp only [readMemory, Ty.isValueType, Bool.false_eq_true, if_false, hp0, hfs, ok_bind]
    rw [mapM_ok_of_imp (fun a ha b hb => ?_) hos]
    · rfl
    obtain ⟨c, o, hcell, hread, hback⟩ := hfield a ha
    have hlt' := (Array.getElem?_eq_some_iff.mp hcell).1
    have hload : st''.mload ((p : Int) + a.1) = .ok c := by
      have haddr : ((p + a.1 : Nat) : Int) = (p : Int) + a.1 := by omega
      rw [← haddr, h''.mload (by omega) (by omega), State.mload_of_getElem? (by omega) hcell]
    rw [hread] at hb
    cases hb
    simp only [hload, ok_bind, hback st'' h'']

theorem copyElements_spec {k : Nat} {st st' : State} {first q : Int} {len size : Nat} {e : Ty}
    (hcopy : ∀ {st₁ st₂ : State} {s' q' : Int}, st₁.memory.size ≤ memoryLimit + 1 →
      copyStorageToMemory reg k st₁ s' e = .ok (q', st₂) → CopiedOut reg k st₁ s' e q' st₂)
    (hst : st.memory.size ≤ memoryLimit + 1) (h : copyElements reg (k + 1) st first len size e = .ok (q, st')) :
    st'.storage = st.storage ∧ st.Holds st' 0 ∧ st'.memory.size ≤ memoryLimit + 1 ∧ q ≠ 0 ∧
      ∃ os, (List.range len).mapM (fun i => readStorage reg (k + 1) st (first + elementOffset i size) e) = .ok os ∧
        ∀ st'', st'.Holds st'' st.memory.size → st''.mload q = .ok len ∧
          (List.range len).mapM (fun (i : Nat) => do readMemory reg (k + 1) st'' (← st''.mload (q + 1 + i)) e) = .ok os := by
  simp only [copyElements] at h
  obtain ⟨⟨ptr, st₁⟩, hal, h⟩ := bind_eq_ok.mp h
  obtain ⟨st₂, hm, h⟩ := bind_eq_ok.mp h
  obtain ⟨st₃, hfold, h⟩ := bind_eq_ok.mp h
  obtain ⟨rfl, rfl⟩ := Prod.mk.inj (Except.ok.inj h)
  obtain ⟨hptr, hstor₁, hsize₁, hbound₁, hhold₁⟩ := State.allocate_ok hal
  generalize hp : max st.memory.size 1 = p at hptr hsize₁ hhold₁
  subst hptr
  obtain ⟨-, hpA, hstor₂, hsize₂, hcell₂, hother₂⟩ := State.mstore_ok hm
  rw [forRange_eq_foldlM] at hfold
  have hf : ∀ i ∈ List.range len, ∀ st₄ st₅,
      (fun st (i : Nat) => copyStorageToMemory reg k st (first + elementOffset i size) e >>= fun r =>
        r.2.mstore ((p : Int) + 1 + i) r.1) st₄ i = .ok st₅ →
      ∃ c st₆, copyStorageToMemory reg k st₄ (first + elementOffset i size) e = .ok (c, st₆) ∧
        st₆.mstore (p + (1 + i) : Nat) c = .ok st₅ := fun i _ st₄ st₅ h₄ => by
    obtain ⟨⟨c, st₆⟩, hc, hm⟩ := bind_eq_ok.mp h₄
    have haddr : ((p + (1 + i) : Nat) : Int) = (p : Int) + 1 + i := by omega
    exact ⟨c, st₆, hc, by rw [haddr]; exact hm⟩
  have hparts := fun (i : Nat) (_ : i ∈ List.range len) {st₄ q st₅} hst₄
    (h₄ : copyStorageToMemory reg k st₄ (first + elementOffset i size) e = .ok (q, st₅)) => hcopy hst₄ h₄
  have hb := fill_bound hf hparts (hsize₂ ▸ hbound₁) hfold
  have hM : addressModulus = 18446744073709551616 := rfl
  have hL : memoryLimit = 16777216 := rfl
  have hS : slotModulus = 18446744073709551616 := rfl
  -- the last element's cell was stored below the limit, so the reserved end did not wrap
  have hend : p + (len + 1) ≤ memoryLimit + 2 := by
    rcases Nat.eq_zero_or_pos len with h0 | hpos
    · omega
    · have := hb (len - 1) (List.mem_range.mpr (by omega))
      omega
  have hsz : (((len : Int) + 1) % (slotModulus : Int)).toNat = len + 1 := by
    rw [hS]
    omega
  rw [hsz] at hsize₁ hhold₁
  have hA : st₂.memory.size = p + (len + 1) := by
    rw [hsize₂, hsize₁, Nat.mod_eq_of_lt (by omega)]
    omega
  obtain ⟨hstor₃, hsize₃, hgrow₃, hkeep₃, hfilled⟩ := fill_reads (A := p + (len + 1)) hf hparts
    (List.Pairwise.imp_of_mem (fun _ _ hne => by omega) List.nodup_range)
    (fun i hi => by have := List.mem_range.mp hi; omega) (hsize₂ ▸ hbound₁) (Nat.le_of_eq hA.symm) hfold
  have hhold : st.Holds st₁ 0 := hhold₁ (by omega)
  -- the length cell and the cells before it are no element's cell
  have hkeep : ∀ j, j ≤ p → j < st₂.memory.size → st₃.memory[j]? = st₂.memory[j]? := fun j hj hlt =>
    hkeep₃ j (fun i _ => by omega) hlt
  refine ⟨hstor₃.trans (hstor₂.trans hstor₁), fun j _ hj => ?_, hsize₃, by omega, ?_⟩
  · have hj₁ := hhold.lt_size (Nat.zero_le j) hj
    rw [hkeep j (by omega) (by omega), hother₂ j (by omega), hhold j (Nat.zero_le j) hj]
  have helem : ∀ i ∈ List.range len, ∃ c o, st₃.memory[p + (1 + i)]? = some c ∧
      readStorage reg (k + 1) st (first + elementOffset i size) e = .ok o ∧
      ∀ st'', st₃.Holds st'' st.memory.size → readMemory reg (k + 1) st'' c e = .ok o := fun i hi => by
    obtain ⟨c, o, hcell, hread, hback⟩ := hfilled i hi
    rw [readStorage_storage (hstor₂.trans hstor₁)] at hread
    exact ⟨c, o, hcell, readStorage_succ hread,
      fun st'' h'' => readMemory_succ (hback st'' (h''.mono (by omega)))⟩
  obtain ⟨os, hos⟩ := mapM_exists_ok (f := fun i => readStorage reg (k + 1) st (first + elementOffset i size) e)
    fun i hi => let ⟨_, o, _, hread, _⟩ := helem i hi; ⟨o, hread⟩
  refine ⟨os, hos, fun st'' h'' => ⟨?_, ?_⟩⟩
  · rw [h''.mload (by omega) (by omega), State.mload_of_getElem? (by omega)]
    rw [hkeep p (Nat.le_refl p) (by omega), hcell₂]
  · refine mapM_ok_of_imp (fun i hi b hb => ?_) hos
    obtain ⟨c, o, hcell, hread, hback⟩ := helem i hi
    have hlt' := (Array.getElem?_eq_some_iff.mp hcell).1
    have haddr : ((p + (1 + i) : Nat) : Int) = (p : Int) + 1 + i := by omega
    have hload : st''.mload ((p : Int) + 1 + i) = .ok c := by
      rw [← haddr, h''.mload (by omega) (by omega), State.mload_of_getElem? (by omega) hcell]
    rw [hread] at hb
    cases hb
    simp only [hload, ok_bind, hback st'' h'']

theorem copyStorageToMemory_spec : ∀ {k : Nat} {st st' : State} {s q : Int} {t : Ty},
    st.memory.size ≤ memoryLimit + 1 → copyStorageToMemory reg k st s t = .ok (q, st') →
      CopiedOut reg k st s t q st'
  | 0, _, _, _, _, _, _, h => by cases h
  | k + 1, st, st', s, q, t, hst, h => by
    rcases Ty.layout_cases t with ⟨_, _, rfl⟩ | ⟨id, rfl⟩ | ⟨e, n, rfl⟩ | ⟨e, rfl⟩ | ht
    · -- a mapping copies as the null pointer
      simp only [copyStorageToMemory] at h
      obtain ⟨rfl, rfl⟩ := Prod.mk.inj (Except.ok.inj h)
      exact ⟨rfl, State.Holds.refl _ _, hst, .mapping, rfl, fun _ _ => rfl⟩
    · exact copyStruct_spec (fun hst₁ h₁ => copyStorageToMemory_spec hst₁ h₁) hst h
    · simp only [copyStorageToMemory] at h
      obtain ⟨size, hs, h⟩ := bind_eq_ok.mp h
      cases k with
      | zero => cases h
      | succ k =>
      obtain ⟨hstor, hhold, hsize, hq, os, hread, hback⟩ :=
        copyElements_spec (fun hst₁ h₁ => copyStorageToMemory_spec hst₁ h₁) hst h
      refine ⟨hstor, hhold, hsize, .parts os, ?_, fun st'' h'' => ?_⟩
      · simp only [readStorage, hs, ok_bind, hread]
        rfl
      · simp only [readMemory, Ty.isValueType, Bool.false_eq_true, if_false, hq, (hback st'' h'').2]
        rfl
    · simp only [copyStorageToMemory] at h
      obtain ⟨len, hl, h⟩ := bind_eq_ok.mp h
      obtain ⟨size, hs, h⟩ := bind_eq_ok.mp h
      cases k with
      | zero => cases h
      | succ k =>
      obtain ⟨hstor, hhold, hsize, hq, os, hread, hback⟩ :=
        copyElements_spec (fun hst₁ h₁ => copyStorageToMemory_spec hst₁ h₁) hst h
      refine ⟨hstor, hhold, hsize, .parts os, ?_, fun st'' h'' => ?_⟩
      · simp only [readStorage, hl, hs, ok_bind, hread]
        rfl
      · obtain ⟨hlen, helems⟩ := hback st'' h''
        simp only [readMemory, Ty.isValueType, Bool.false_eq_true, if_false, hq, hlen,
          copyLength_natCast (copyLength_ok hl).2, ok_bind, helems]
        rfl
    · have hc : copyStorageToMemory reg (k + 1) st s t = .ok (st.sload s, st) := by
        cases t <;> first | rfl | cases ht
      rw [hc] at h
      obtain ⟨rfl, rfl⟩ := Prod.mk.inj (Except.ok.inj h)
      exact ⟨rfl, State.Holds.refl _ _, hst, .word (st.sload s), readStorage_value ht k st s,
        fun st'' _ => readMemory_value ht k st'' _⟩

theorem deep_copies_follow_layout (reg : TypeRegistry) (k : Nat) :
    (∀ (st st' : State) (d p : Int) (t : Ty), Separated reg d t →
      copyMemoryToStorage reg k st d p t = .ok st' →
        readStorage reg k st' d t = readMemory reg k st p t ∧
          (∀ x, st'.sload x ≠ st.sload x → Leaf reg d t x) ∧ st'.memory = st.memory) ∧
    (∀ (st st' : State) (d : Int) (t : Ty), t.isValueType = false →
      copyMemoryToStorage reg (k + 1) st d 0 t = .ok st' →
        ∃ o, zeroObj reg k t = .ok o ∧ readStorage reg (k + 1) st' d t = .ok o) ∧
    (∀ (st st' : State) (s q : Int) (t : Ty), st.memory.size ≤ memoryLimit + 1 →
      copyStorageToMemory reg k st s t = .ok (q, st') →
        st'.storage = st.storage ∧ st.Holds st' 0 ∧
          ∃ o, readStorage reg k st s t = .ok o ∧ readMemory reg k st' q t = .ok o) ∧
    (∀ (st st' : State) (d s : Int) (t : Ty), (d = s ∨ Apart reg d s t ∧ Separated reg d t) →
      copyStorageToStorage reg k st d s t = .ok st' →
        readStorage reg k st' d t = readStorage reg k st s t ∧
          ∀ x, st'.sload x ≠ st.sload x → Leaf reg d t x) ∧
    (∀ (st st' : State) (d : Int) (t : Ty), clearStorage reg k st d t = .ok st' →
      (∃ o, zeroObj reg k t = .ok o ∧ readStorage reg k st' d t = .ok o) ∧
        ∀ x, st'.sload x ≠ st.sload x → Leaf reg d t x ∧ st'.sload x = 0) := by
  refine ⟨fun st st' d p t hsep h => copyMemoryToStorage_spec hsep h, fun st st' d t hv h => ?_,
    fun st st' s q t hst h => ?_, fun st st' d s t hds h => ?_,
    fun st st' d t h => ⟨(clearStorage_spec h).1, (clearStorage_spec h).2.1⟩⟩
  · -- a null reference is a clear
    simp only [copyMemoryToStorage, hv, Bool.false_eq_true, if_false, beq_self_eq_true, if_true] at h
    obtain ⟨⟨o, hz, hr⟩, -⟩ := clearStorage_spec h
    exact ⟨o, hz, readStorage_succ hr⟩
  · obtain ⟨hstor, hhold, -, o, hread, hback⟩ := copyStorageToMemory_spec hst h
    exact ⟨hstor, hhold, o, hread, hback st' (State.Holds.refl _ _)⟩
  · rcases hds with rfl | ⟨hap, hsep⟩
    · cases copyStorageToStorage_self h
      exact ⟨rfl, fun x hx => absurd rfl hx⟩
    · obtain ⟨hread, hch, -⟩ := copyStorageToStorage_spec hap hsep h
      exact ⟨hread, hch⟩

theorem sizeOf_word : sizeOf' ({} : TypeRegistry) (.uint 256) = .ok 1 := by
  simp [sizeOf', TypeRegistry.storageSize, TypeRegistry.sizeWith]

theorem leafAt_wordPair {d x : Int} {p : List Nat}
    (h : LeafAt {} d (.array (.uint 256) (some 2)) p x) : ∃ i, i < 2 ∧ p = [i] ∧ x = d + i := by
  cases h with
  | value hv => cases hv
  | @elem _ _ _ size i _ _ hs hi hp =>
    rw [sizeOf_word] at hs
    cases hs
    cases hp with
    | value _ =>
      refine ⟨i, hi, rfl, ?_⟩
      have hS : slotModulus = 18446744073709551616 := rfl
      have : elementOffset i 1 = i := by
        simp only [elementOffset, Nat.mul_one, hS]
        omega
      rw [this]

theorem wordPair_separated (d : Int) : Separated {} d (.array (.uint 256) (some 2)) := by
  intro p q x hp hq
  obtain ⟨i, -, rfl, rfl⟩ := leafAt_wordPair hp
  obtain ⟨j, -, rfl, hx⟩ := leafAt_wordPair hq
  have : i = j := by omega
  rw [this]

theorem wordPair_copies :
    Separated {} 0 (.array (.uint 256) (some 2)) ∧
      readStorage {} 2 ((({ memory := #[0, 0, 7, 9] } : State).sstore 0 7).sstore 1 9) 0
          (.array (.uint 256) (some 2)) =
        readMemory {} 2 { memory := #[0, 0, 7, 9] } 1 (.array (.uint 256) (some 2)) ∧
      ((({ memory := #[0, 0, 7, 9] } : State).sstore 0 7).sstore 1 9).memory.size ≤ memoryLimit + 1 ∧
      readMemory {} 3 { ((({ memory := #[0, 0, 7, 9] } : State).sstore 0 7).sstore 1 9) with
          memory := #[0, 0, 7, 9, 2, 7, 9] } 4 (.array (.uint 256) (some 2)) =
        readStorage {} 3 ((({ memory := #[0, 0, 7, 9] } : State).sstore 0 7).sstore 1 9) 0
          (.array (.uint 256) (some 2)) ∧
      Apart {} 2 0 (.array (.uint 256) (some 2)) ∧
      readStorage {} 2 ((((({ memory := #[0, 0, 7, 9] } : State).sstore 0 7).sstore 1 9).sstore 2 7).sstore 3 9)
          2 (.array (.uint 256) (some 2)) =
        readStorage {} 2 ((({ memory := #[0, 0, 7, 9] } : State).sstore 0 7).sstore 1 9) 0
          (.array (.uint 256) (some 2)) := by
  have hap : Apart {} 2 0 (.array (.uint 256) (some 2)) := fun x ⟨_, hp⟩ ⟨_, hq⟩ => by
    obtain ⟨i, hi, -, rfl⟩ := leafAt_wordPair hp
    obtain ⟨j, hj, -, hx⟩ := leafAt_wordPair hq
    omega
  have hin : copyMemoryToStorage {} 2 { memory := #[0, 0, 7, 9] } 0 1 (.array (.uint 256) (some 2)) =
      .ok ((({ memory := #[0, 0, 7, 9] } : State).sstore 0 7).sstore 1 9) := by
    simp only [copyMemoryToStorage, Ty.isValueType, Bool.false_eq_true, if_false, sizeOf_word]
    rfl
  have hout : copyStorageToMemory {} 3 ((({ memory := #[0, 0, 7, 9] } : State).sstore 0 7).sstore 1 9) 0
      (.array (.uint 256) (some 2)) = .ok (4, { ((({ memory := #[0, 0, 7, 9] } : State).sstore 0 7).sstore 1 9) with
          memory := #[0, 0, 7, 9, 2, 7, 9] }) := by
    simp only [copyStorageToMemory, sizeOf_word]
    rfl
  have hover : copyStorageToStorage {} 2 ((({ memory := #[0, 0, 7, 9] } : State).sstore 0 7).sstore 1 9) 2 0
      (.array (.uint 256) (some 2)) =
        .ok ((((({ memory := #[0, 0, 7, 9] } : State).sstore 0 7).sstore 1 9).sstore 2 7).sstore 3 9) := by
    simp only [copyStorageToStorage, sizeOf_word]
    rfl
  have hlayout := deep_copies_follow_layout {} 2
  obtain ⟨-, -, o, hread, hmem⟩ :=
    (deep_copies_follow_layout {} 3).2.2.1 _ _ 0 4 _ (by decide) hout
  refine ⟨wordPair_separated 0, (hlayout.1 _ _ 0 1 _ (wordPair_separated 0) hin).1, by decide,
    by rw [hread, hmem], hap, (hlayout.2.2.2.1 _ _ 2 0 _ (.inr ⟨hap, wordPair_separated 2⟩) hover).1⟩

end ContractCfg.Machine
