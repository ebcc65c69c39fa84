import ContractCfg.Machine.Copy

/-!
The storage and memory layouts, read back. `readStorage` reads the object of a type at a slot
the way the struct registry lays it out: a value in its slot, a struct's fields at their
offsets, a static array's elements one after another, a dynamic array's length at its root and
its elements from the hash of the root; a mapping reads as nothing. `readMemory` reads the
object at a memory pointer: a value is the pointer itself, a struct one cell per field, an array
its length cell and then one cell per element, and a null reference the zero object of its type.

The slots an object can occupy are its leaves (`LeafAt`): a value slot or a length slot, named by
the path of fields and indices down to it. A layout is separated when no two paths meet in one
slot. Offsets are 64-bit words and data regions are hashes, so a layout can collide with itself:
being separated is what the copies between storage and memory need of the slots they write.
-/

namespace ContractCfg.Machine

open ContractCfg.IR

/-- An object read whole: a word, the parts of a struct or an array in order, or a mapping,
whose entries no copy reads. -/
inductive Obj where
  | word (v : Int)
  | parts (xs : List Obj)
  | mapping
  deriving Repr

/-- The zero object of a type: what a cleared storage object and a null memory reference read
as. Each level of nesting takes one unit of `fuel`. -/
def zeroObj (reg : TypeRegistry) : Nat → Ty → Except Fault Obj
  | _, .mapping .. => .ok .mapping
  | 0, _ => .error .unbounded
  | fuel + 1, .struct id => do
    let fields ← fieldOffsets reg (.struct id) id
    .parts <$> fields.mapM fun (_, _, ft) => zeroObj reg fuel ft
  | fuel + 1, .array e (some n) => .parts <$> (List.range n).mapM fun _ => zeroObj reg fuel e
  | _ + 1, .array _ none => .ok (.parts [])
  | _ + 1, _ => .ok (.word 0)

/-- The storage object of type `t` at slot `d`. -/
def readStorage (reg : TypeRegistry) : Nat → State → Int → Ty → Except Fault Obj
  | _, _, _, .mapping .. => .ok .mapping
  | 0, _, _, _ => .error .unbounded
  | fuel + 1, st, d, .struct id => do
    let fields ← fieldOffsets reg (.struct id) id
    .parts <$> fields.mapM fun (_, off, ft) => readStorage reg fuel st (d + off) ft
  | fuel + 1, st, d, .array e (some n) => do
    let size ← sizeOf' reg e
    .parts <$> (List.range n).mapM fun i => readStorage reg fuel st (d + elementOffset i size) e
  | fuel + 1, st, d, .array e none => do
    let len ← copyLength (st.sload d)
    let size ← sizeOf' reg e
    .parts <$> (List.range len).mapM fun i =>
      readStorage reg fuel st (dataSlot d + elementOffset i size) e
  | _ + 1, st, d, _ => .ok (.word (st.sload d))

/-- The memory object of type `t` at pointer `p`; for a value type the pointer is the value. -/
def readMemory (reg : TypeRegistry) : Nat → State → Int → Ty → Except Fault Obj
  | _, _, _, .mapping .. => .ok .mapping
  | 0, _, _, _ => .error .unbounded
  | fuel + 1, st, p, t =>
    if t.isValueType then .ok (.word p)
    else if p = 0 then zeroObj reg fuel t
    else match t with
      | .struct id => do
        let fields ← fieldOffsets reg t id
        .parts <$> fields.mapM fun (i, _, ft) => do readMemory reg fuel st (← st.mload (p + i)) ft
      | .array e (some n) =>
        .parts <$> (List.range n).mapM fun (i : Nat) => do
          readMemory reg fuel st (← st.mload (p + 1 + i)) e
      | .array e none => do
        let len ← copyLength (← st.mload p)
        .parts <$> (List.range len).mapM fun (i : Nat) => do
          readMemory reg fuel st (← st.mload (p + 1 + i)) e
      | _ => .ok (.word p)

/-- `LeafAt reg d t path x`: going down `path` (field positions and element indices) from the
storage object of type `t` at slot `d` ends at slot `x`, which holds a word of the object: a
value or the length of a dynamic array. A dynamic array's elements count up to the copy limit,
the longest any copy writes. -/
inductive LeafAt (reg : TypeRegistry) : Int → Ty → List Nat → Int → Prop
  | value {d : Int} {t : Ty} : t.isValueType → LeafAt reg d t [] d
  | length {d : Int} {e : Ty} : LeafAt reg d (.array e none) [] d
  | field {d : Int} {id : Nat} {fs : List (Nat × Nat × Ty)} {i off : Nat} {ft : Ty} {p : List Nat} {x : Int} :
      fieldOffsets reg (.struct id) id = .ok fs → (i, off, ft) ∈ fs →
      LeafAt reg (d + off) ft p x → LeafAt reg d (.struct id) (i :: p) x
  | elem {d : Int} {e : Ty} {n size i : Nat} {p : List Nat} {x : Int} :
      sizeOf' reg e = .ok size → i < n →
      LeafAt reg (d + elementOffset i size) e p x → LeafAt reg d (.array e (some n)) (i :: p) x
  | data {d : Int} {e : Ty} {size i : Nat} {p : List Nat} {x : Int} :
      sizeOf' reg e = .ok size → i < copyLimit →
      LeafAt reg (dataSlot d + elementOffset i size) e p x → LeafAt reg d (.array e none) (i :: p) x

/-- A slot the storage object of type `t` at `d` can occupy. -/
def Leaf (reg : TypeRegistry) (d : Int) (t : Ty) (x : Int) : Prop := ∃ p, LeafAt reg d t p x

/-- No two paths of the layout of `t` at `d` meet in one slot. -/
def Separated (reg : TypeRegistry) (d : Int) (t : Ty) : Prop :=
  ∀ p q x, LeafAt reg d t p x → LeafAt reg d t q x → p = q

/-- The layouts of `t` at `d` and at `s` share no slot. -/
def Apart (reg : TypeRegistry) (d s : Int) (t : Ty) : Prop :=
  ∀ x, Leaf reg d t x → Leaf reg s t x → False

end ContractCfg.Machine

namespace ContractCfg.Machine

open ContractCfg.IR

namespace State

@[simp] theorem sload_sstore (st : State) (a v x : Int) :
    (st.sstore a v).sload x = if x = a then v else st.sload x := by
  by_cases hv : v = 0
  · subst hv
    simp only [sload, sstore, beq_self_eq_true, if_true, Std.TreeMap.getD_erase, Std.compare_eq_iff_eq]
    by_cases hx : x = a
    · simp [hx]
    · simp [hx, Ne.symm hx]
  · simp only [sload, sstore, beq_iff_eq, hv, if_false, Std.TreeMap.getD_insert, Std.compare_eq_iff_eq]
    by_cases hx : x = a
    · simp [hx]
    · simp [hx, Ne.symm hx]

@[simp] theorem sstore_memory (st : State) (a v : Int) : (st.sstore a v).memory = st.memory := rfl

theorem mload_congr {st st' : State} (h : st'.memory = st.memory) (a : Int) : st'.mload a = st.mload a := by
  simp only [mload, cellIndex, h]

end State

theorem bind_eq_ok {α β : Type} {x : Except Fault α} {f : α → Except Fault β} {b : β} :
    x >>= f = .ok b ↔ ∃ a, x = .ok a ∧ f a = .ok b := by
  cases x with
  | error e => simp [bind, Except.bind]
  | ok a => simp [bind, Except.bind]

theorem bind_congr_ok {α β : Type} {x : Except Fault α} {f g : α → Except Fault β}
    (h : ∀ a, x = .ok a → f a = g a) : x >>= f = x >>= g := by
  cases x with
  | error e => rfl
  | ok a => exact h a rfl

theorem map_eq_ok {α β : Type} {x : Except Fault α} {f : α → β} {b : β} :
    f <$> x = .ok b ↔ ∃ a, x = .ok a ∧ f a = b := by
  cases x with
  | error e => simp [Functor.map, Except.map]
  | ok a => simp [Functor.map, Except.map]

theorem mapM_congr_mem {α β : Type} {xs : List α} {f g : α → Except Fault β}
    (h : ∀ a ∈ xs, f a = g a) : xs.mapM f = xs.mapM g := by
  induction xs with
  | nil => rfl
  | cons a rest ih =>
    simp only [List.mapM_cons, h a List.mem_cons_self,
      ih fun b hb => h b (List.mem_cons_of_mem a hb)]

theorem mapM_ok_of_imp {α β : Type} {f g : α → Except Fault β} :
    ∀ {xs : List α} {ys : List β}, (∀ a ∈ xs, ∀ b, f a = .ok b → g a = .ok b) →
      xs.mapM f = .ok ys → xs.mapM g = .ok ys
  | [], ys, _, hm => hm
  | a :: rest, ys, h, hm => by
    simp only [List.mapM_cons] at hm ⊢
    obtain ⟨b, hb, hm⟩ := bind_eq_ok.mp hm
    obtain ⟨bs, hbs, hm⟩ := bind_eq_ok.mp hm
    rw [h a List.mem_cons_self b hb,
      mapM_ok_of_imp (fun a' ha' => h a' (List.mem_cons_of_mem a ha')) hbs]
    exact hm

theorem mapM_agree {α β : Type} {f g : α → Except Fault β} :
    ∀ {xs : List α} {ys : List β}, xs.mapM f = .ok ys → xs.mapM g = .ok ys →
      ∀ a ∈ xs, ∀ b, f a = .ok b → g a = .ok b
  | [], _, _, _, a, ha, _, _ => absurd ha List.not_mem_nil
  | x :: rest, ys, hf, hg, a, ha, b, hb => by
    simp only [List.mapM_cons] at hf hg
    obtain ⟨y, hy, hf⟩ := bind_eq_ok.mp hf
    obtain ⟨ys', hys', hf⟩ := bind_eq_ok.mp hf
    obtain ⟨y', hy', hg⟩ := bind_eq_ok.mp hg
    obtain ⟨ys'', hys'', hg⟩ := bind_eq_ok.mp hg
    cases hf
    simp only [pure, Except.pure, Except.ok.injEq, List.cons.injEq] at hg
    obtain ⟨rfl, rfl⟩ := hg
    rcases List.mem_cons.mp ha with rfl | ha
    · rw [hy] at hb
      cases hb
      exact hy'
    · exact mapM_agree hys' hys'' a ha b hb

theorem forRange_eq_foldlM {σ : Type} (n : Nat) (st : σ) (f : Nat → σ → Except Fault σ) :
    forRange n st f = (List.range n).foldlM (fun st i => f i st) st := by
  unfold forRange
  suffices h : ∀ i st, forRange.go f n i st = (List.range' i n).foldlM (fun st i => f i st) st by
    rw [h, List.range_eq_range']
  induction n with
  | zero => intro i st; rfl
  | succ k ih =>
    intro i st
    rw [forRange.go, List.range'_succ, List.foldlM_cons]
    cases f i st with
    | ok st' => exact ih (i + 1) st'
    | error e => rfl

theorem copyLength_ok {v : Int} {n : Nat} (h : copyLength v = .ok n) : v = n ∧ n ≤ copyLimit := by
  unfold copyLength at h
  split at h
  · cases h
    omega
  · cases h

theorem copyLength_natCast {n : Nat} (h : n ≤ copyLimit) : copyLength (n : Int) = .ok n := by
  unfold copyLength
  rw [if_pos (by omega)]
  rfl

theorem mapM_ok_map {α β γ : Type} {f : α → Except Fault β} {g : β → γ} {h : α → γ}
    (hf : ∀ a b, f a = .ok b → g b = h a) :
    ∀ {xs : List α} {ys : List β}, xs.mapM f = .ok ys → ys.map g = xs.map h
  | [], ys, hm => by cases hm; rfl
  | a :: rest, ys, hm => by
    simp only [List.mapM_cons] at hm
    obtain ⟨b, hb, hm⟩ := bind_eq_ok.mp hm
    obtain ⟨bs, hbs, hm⟩ := bind_eq_ok.mp hm
    cases hm
    simp only [List.map_cons, hf a b hb, mapM_ok_map hf hbs]

theorem mapM_ok_length {α β : Type} {f : α → Except Fault β} {xs : List α} {ys : List β}
    (h : xs.mapM f = .ok ys) : ys.length = xs.length := by
  simpa using congrArg List.length (mapM_ok_map (g := fun _ => ()) (h := fun _ => ()) (fun _ _ _ => rfl) h)

theorem fieldOffsets_pairwise {reg : TypeRegistry} {t : Ty} {id : Nat} {fs : List (Nat × Nat × Ty)}
    (h : fieldOffsets reg t id = .ok fs) : fs.Pairwise fun a b => a.1 ≠ b.1 := by
  unfold fieldOffsets at h
  split at h
  · have hidx := mapM_ok_map (g := fun y : Nat × Nat × Ty => y.1) (h := fun x => x.2)
      (fun x y hxy => by
        obtain ⟨⟨_, ft⟩, i⟩ := x
        dsimp only at hxy
        split at hxy <;> cases hxy
        rfl) h
    have hnd : (fs.map (·.1)).Nodup := by
      rw [hidx, List.zipIdx_map_snd]
      exact List.nodup_range'
    exact List.pairwise_map.mp hnd
  · cases h

theorem Ty.layout_cases (t : Ty) :
    (∃ k v, t = .mapping k v) ∨ (∃ id, t = .struct id) ∨ (∃ e n, t = .array e (some n)) ∨
      (∃ e, t = .array e none) ∨ t.isValueType = true := by
  cases t with
  | mapping k v => exact .inl ⟨k, v, rfl⟩
  | struct id => exact .inr (.inl ⟨id, rfl⟩)
  | array e len =>
    cases len with
    | some n => exact .inr (.inr (.inl ⟨e, n, rfl⟩))
    | none => exact .inr (.inr (.inr (.inl ⟨e, rfl⟩)))
  | bool | uint _ | int _ | address | fixedBytes _ | contract _ => exact .inr (.inr (.inr (.inr rfl)))

section Leaves

variable {reg : TypeRegistry}

theorem zeroObj_value {t : Ty} (ht : t.isValueType = true) (k : Nat) :
    zeroObj reg (k + 1) t = .ok (.word 0) := by
  cases t <;> first | rfl | cases ht

theorem readStorage_value {t : Ty} (ht : t.isValueType = true) (k : Nat) (st : State) (d : Int) :
    readStorage reg (k + 1) st d t = .ok (.word (st.sload d)) := by
  cases t <;> first | rfl | cases ht

theorem readMemory_value {t : Ty} (ht : t.isValueType = true) (k : Nat) (st : State) (p : Int) :
    readMemory reg (k + 1) st p t = .ok (.word p) := by
  cases t <;> first | rfl | cases ht

theorem Leaf.field {d : Int} {id : Nat} {fs : List (Nat × Nat × Ty)} {i off : Nat} {ft : Ty} {x : Int}
    (hfs : fieldOffsets reg (.struct id) id = .ok fs) (hmem : (i, off, ft) ∈ fs)
    (h : Leaf reg (d + off) ft x) : Leaf reg d (.struct id) x :=
  let ⟨p, hp⟩ := h
  ⟨i :: p, .field hfs hmem hp⟩

theorem Leaf.elem {d : Int} {e : Ty} {n size i : Nat} {x : Int} (hs : sizeOf' reg e = .ok size)
    (hi : i < n) (h : Leaf reg (d + elementOffset i size) e x) : Leaf reg d (.array e (some n)) x :=
  let ⟨p, hp⟩ := h
  ⟨i :: p, .elem hs hi hp⟩

theorem Leaf.data {d : Int} {e : Ty} {size i : Nat} {x : Int} (hs : sizeOf' reg e = .ok size)
    (hi : i < copyLimit) (h : Leaf reg (dataSlot d + elementOffset i size) e x) :
    Leaf reg d (.array e none) x :=
  let ⟨p, hp⟩ := h
  ⟨i :: p, .data hs hi hp⟩

theorem Separated.field {d : Int} {id : Nat} {fs : List (Nat × Nat × Ty)} {i off : Nat} {ft : Ty}
    (h : Separated reg d (.struct id)) (hfs : fieldOffsets reg (.struct id) id = .ok fs)
    (hmem : (i, off, ft) ∈ fs) : Separated reg (d + off) ft := fun _ _ _ hp hq =>
  List.cons.inj (h _ _ _ (.field hfs hmem hp) (.field hfs hmem hq)) |>.2

theorem Separated.elem {d : Int} {e : Ty} {n size i : Nat} (h : Separated reg d (.array e (some n)))
    (hs : sizeOf' reg e = .ok size) (hi : i < n) : Separated reg (d + elementOffset i size) e :=
  fun _ _ _ hp hq => List.cons.inj (h _ _ _ (.elem hs hi hp) (.elem hs hi hq)) |>.2

theorem Separated.data {d : Int} {e : Ty} {size i : Nat} (h : Separated reg d (.array e none))
    (hs : sizeOf' reg e = .ok size) (hi : i < copyLimit) :
    Separated reg (dataSlot d + elementOffset i size) e :=
  fun _ _ _ hp hq => List.cons.inj (h _ _ _ (.data hs hi hp) (.data hs hi hq)) |>.2

theorem Separated.fields_apart {d : Int} {id : Nat} {fs : List (Nat × Nat × Ty)}
    (h : Separated reg d (.struct id)) (hfs : fieldOffsets reg (.struct id) id = .ok fs)
    {a b : Nat × Nat × Ty} (ha : a ∈ fs) (hb : b ∈ fs) (hne : a.1 ≠ b.1) (x : Int) :
    Leaf reg (d + a.2.1) a.2.2 x → Leaf reg (d + b.2.1) b.2.2 x → False := by
  rintro ⟨p, hp⟩ ⟨q, hq⟩
  exact hne (List.cons.inj (h _ _ _ (.field hfs ha hp) (.field hfs hb hq))).1

theorem Separated.elems_apart {d : Int} {e : Ty} {n size : Nat} (h : Separated reg d (.array e (some n)))
    (hs : sizeOf' reg e = .ok size) {i j : Nat} (hi : i < n) (hj : j < n) (hne : i ≠ j) (x : Int) :
    Leaf reg (d + elementOffset i size) e x → Leaf reg (d + elementOffset j size) e x → False := by
  rintro ⟨p, hp⟩ ⟨q, hq⟩
  exact hne (List.cons.inj (h _ _ _ (.elem hs hi hp) (.elem hs hj hq))).1

theorem Separated.data_apart {d : Int} {e : Ty} {size : Nat} (h : Separated reg d (.array e none))
    (hs : sizeOf' reg e = .ok size) {i j : Nat} (hi : i < copyLimit) (hj : j < copyLimit)
    (hne : i ≠ j) (x : Int) :
    Leaf reg (dataSlot d + elementOffset i size) e x →
      Leaf reg (dataSlot d + elementOffset j size) e x → False := by
  rintro ⟨p, hp⟩ ⟨q, hq⟩
  exact hne (List.cons.inj (h _ _ _ (.data hs hi hp) (.data hs hj hq))).1

theorem Separated.length_apart {d : Int} {e : Ty} {size i : Nat} (h : Separated reg d (.array e none))
    (hs : sizeOf' reg e = .ok size) (hi : i < copyLimit) :
    ¬ Leaf reg (dataSlot d + elementOffset i size) e d := by
  rintro ⟨p, hp⟩
  cases h _ _ _ .length (.data hs hi hp)

theorem Apart.field {d s : Int} {id : Nat} {fs : List (Nat × Nat × Ty)} {i off : Nat} {ft : Ty}
    (h : Apart reg d s (.struct id)) (hfs : fieldOffsets reg (.struct id) id = .ok fs)
    (hmem : (i, off, ft) ∈ fs) : Apart reg (d + off) (s + off) ft :=
  fun x hd hs => h x (hd.field hfs hmem) (hs.field hfs hmem)

theorem Apart.elem {d s : Int} {e : Ty} {n size i : Nat} (h : Apart reg d s (.array e (some n)))
    (hs : sizeOf' reg e = .ok size) (hi : i < n) :
    Apart reg (d + elementOffset i size) (s + elementOffset i size) e :=
  fun x hd hs' => h x (hd.elem hs hi) (hs'.elem hs hi)

theorem Apart.data {d s : Int} {e : Ty} {size i : Nat} (h : Apart reg d s (.array e none))
    (hs : sizeOf' reg e = .ok size) (hi : i < copyLimit) :
    Apart reg (dataSlot d + elementOffset i size) (dataSlot s + elementOffset i size) e :=
  fun x hd hs' => h x (hd.data hs hi) (hs'.data hs hi)

end Leaves

section Reads

variable {reg : TypeRegistry}

theorem readStorage_congr {st st' : State} :
    ∀ (k : Nat) (d : Int) (t : Ty), (∀ x, Leaf reg d t x → st'.sload x = st.sload x) →
      readStorage reg k st' d t = readStorage reg k st d t
  | 0, d, t, _ => by cases t <;> rfl
  | k + 1, d, t, h => by
    rcases Ty.layout_cases t with ⟨_, _, rfl⟩ | ⟨id, rfl⟩ | ⟨e, n, rfl⟩ | ⟨e, rfl⟩ | ht
    · rfl
    · refine bind_congr_ok fun fs hfs => congrArg _ (mapM_congr_mem ?_)
      rintro ⟨i, off, ft⟩ hmem
      exact readStorage_congr k _ ft fun x hx => h x (hx.field hfs hmem)
    · refine bind_congr_ok fun size hs => congrArg _ (mapM_congr_mem fun i hi => ?_)
      exact readStorage_congr k _ e fun x hx => h x (hx.elem hs (List.mem_range.mp hi))
    · -- the length slot is a leaf, so both reads see the same elements
      have hlen : st'.sload d = st.sload d := h d ⟨[], .length⟩
      show (do let len ← copyLength (st'.sload d); _) = (do let len ← copyLength (st.sload d); _)
      rw [hlen]
      refine bind_congr_ok fun len hl => bind_congr_ok fun size hs => congrArg _ (mapM_congr_mem fun i hi => ?_)
      have hi' : i < copyLimit := Nat.lt_of_lt_of_le (List.mem_range.mp hi) (copyLength_ok hl).2
      exact readStorage_congr k _ e fun x hx => h x (hx.data hs hi')
    · rw [readStorage_value ht, readStorage_value ht, h d ⟨[], .value ht⟩]

theorem readMemory_congr {st st' : State} (hm : st'.memory = st.memory) :
    ∀ (k : Nat) (p : Int) (t : Ty), readMemory reg k st' p t = readMemory reg k st p t
  | 0, p, t => by cases t <;> rfl
  | k + 1, p, t => by
    rcases Ty.layout_cases t with ⟨_, _, rfl⟩ | ⟨id, rfl⟩ | ⟨e, n, rfl⟩ | ⟨e, rfl⟩ | ht
    · rfl
    · simp only [readMemory, State.mload_congr hm, readMemory_congr hm k]
    · simp only [readMemory, State.mload_congr hm, readMemory_congr hm k]
    · simp only [readMemory, State.mload_congr hm, readMemory_congr hm k]
    · rw [readMemory_value ht, readMemory_value ht]

theorem zeroObj_succ : ∀ {k : Nat} {t : Ty} {o : Obj}, zeroObj reg k t = .ok o → zeroObj reg (k + 1) t = .ok o
  | 0, t, o, h => by cases t <;> first | exact h | cases h
  | k + 1, t, o, h => by
    rcases Ty.layout_cases t with ⟨_, _, rfl⟩ | ⟨id, rfl⟩ | ⟨e, n, rfl⟩ | ⟨e, rfl⟩ | ht
    · exact h
    · simp only [zeroObj] at h ⊢
      obtain ⟨fs, hfs, h⟩ := bind_eq_ok.mp h
      obtain ⟨os, hos, rfl⟩ := map_eq_ok.mp h
      refine bind_eq_ok.mpr ⟨fs, hfs, ?_⟩
      rw [mapM_ok_of_imp (fun _ _ _ h => zeroObj_succ h) hos]
      rfl
    · simp only [zeroObj] at h ⊢
      obtain ⟨os, hos, rfl⟩ := map_eq_ok.mp h
      rw [mapM_ok_of_imp (fun _ _ _ h => zeroObj_succ h) hos]
      rfl
    · exact h
    · rw [zeroObj_value ht] at h ⊢
      exact h

theorem readStorage_succ {st : State} :
    ∀ {k : Nat} {d : Int} {t : Ty} {o : Obj}, readStorage reg k st d t = .ok o →
      readStorage reg (k + 1) st d t = .ok o
  | 0, d, t, o, h => by cases t <;> first | exact h | cases h
  | k + 1, d, t, o, h => by
    rcases Ty.layout_cases t with ⟨_, _, rfl⟩ | ⟨id, rfl⟩ | ⟨e, n, rfl⟩ | ⟨e, rfl⟩ | ht
    · exact h
    · simp only [readStorage] at h ⊢
      obtain ⟨fs, hfs, h⟩ := bind_eq_ok.mp h
      obtain ⟨os, hos, rfl⟩ := map_eq_ok.mp h
      refine bind_eq_ok.mpr ⟨fs, hfs, ?_⟩
      rw [mapM_ok_of_imp (fun _ _ _ h => readStorage_succ h) hos]
      rfl
    · simp only [readStorage] at h ⊢
      obtain ⟨size, hs, h⟩ := bind_eq_ok.mp h
      obtain ⟨os, hos, rfl⟩ := map_eq_ok.mp h
      refine bind_eq_ok.mpr ⟨size, hs, ?_⟩
      rw [mapM_ok_of_imp (fun _ _ _ h => readStorage_succ h) hos]
      rfl
    · simp only [readStorage] at h ⊢
      obtain ⟨len, hl, h⟩ := bind_eq_ok.mp h
      obtain ⟨size, hs, h⟩ := bind_eq_ok.mp h
      obtain ⟨os, hos, rfl⟩ := map_eq_ok.mp h
      refine bind_eq_ok.mpr ⟨len, hl, bind_eq_ok.mpr ⟨size, hs, ?_⟩⟩
      rw [mapM_ok_of_imp (fun _ _ _ h => readStorage_succ h) hos]
      rfl
    · rw [readStorage_value ht] at h ⊢
      exact h

theorem readMemory_succ {st : State} :
    ∀ {k : Nat} {p : Int} {t : Ty} {o : Obj}, readMemory reg k st p t = .ok o →
      readMemory reg (k + 1) st p t = .ok o
  | 0, p, t, o, h => by cases t <;> first | exact h | cases h
  | k + 1, p, t, o, h => by
    have hcell : ∀ {e : Ty} {a : Int} {o : Obj},
        (do readMemory reg k st (← st.mload a) e) = .ok o →
          (do readMemory reg (k + 1) st (← st.mload a) e) = .ok o := fun ha => by
      obtain ⟨c, hc, ha⟩ := bind_eq_ok.mp ha
      exact bind_eq_ok.mpr ⟨c, hc, readMemory_succ ha⟩
    rcases Ty.layout_cases t with ⟨_, _, rfl⟩ | ⟨id, rfl⟩ | ⟨e, n, rfl⟩ | ⟨e, rfl⟩ | ht
    · exact h
    · by_cases hp : p = 0
      · simp only [readMemory, Ty.isValueType, Bool.false_eq_true, hp, if_true, if_false] at h ⊢
        exact zeroObj_succ h
      · simp only [readMemory, Ty.isValueType, Bool.false_eq_true, hp, if_false] at h ⊢
        obtain ⟨fs, hfs, h⟩ := bind_eq_ok.mp h
        obtain ⟨os, hos, rfl⟩ := map_eq_ok.mp h
        refine bind_eq_ok.mpr ⟨fs, hfs, ?_⟩
        rw [mapM_ok_of_imp (fun _ _ _ ha => hcell ha) hos]
        rfl
    · by_cases hp : p = 0
      · simp only [readMemory, Ty.isValueType, Bool.false_eq_true, hp, if_true, if_false] at h ⊢
        exact zeroObj_succ h
      · simp only [readMemory, Ty.isValueType, Bool.false_eq_true, hp, if_false] at h ⊢
        obtain ⟨os, hos, rfl⟩ := map_eq_ok.mp h
        rw [mapM_ok_of_imp (fun _ _ _ ha => hcell ha) hos]
        rfl
    · by_cases hp : p = 0
      · simp only [readMemory, Ty.isValueType, Bool.false_eq_true, hp, if_true, if_false] at h ⊢
        exact zeroObj_succ h
      · simp only [readMemory, Ty.isValueType, Bool.false_eq_true, hp, if_false] at h ⊢
        obtain ⟨c, hc, h⟩ := bind_eq_ok.mp h
        obtain ⟨len, hl, h⟩ := bind_eq_ok.mp h
        obtain ⟨os, hos, rfl⟩ := map_eq_ok.mp h
        refine bind_eq_ok.mpr ⟨c, hc, bind_eq_ok.mpr ⟨len, hl, ?_⟩⟩
        rw [mapM_ok_of_imp (fun _ _ _ ha => hcell ha) hos]
        rfl
    · rw [readMemory_value ht] at h ⊢
      exact h

theorem readStorage_zero_stable {st st' : State} (hz : ∀ x, st'.sload x ≠ st.sload x → st'.sload x = 0) :
    ∀ {k : Nat} {d : Int} {t : Ty} {o : Obj}, zeroObj reg k t = .ok o → readStorage reg k st d t = .ok o →
      readStorage reg k st' d t = .ok o
  | 0, d, t, o, _, h => by cases t <;> exact h
  | k + 1, d, t, o, h0, h => by
    -- a slot that read zero reads zero still
    have hslot : ∀ x, st.sload x = 0 → st'.sload x = 0 := fun x hx => by
      by_cases hx' : st'.sload x = st.sload x
      · rw [hx', hx]
      · exact hz x hx'
    rcases Ty.layout_cases t with ⟨_, _, rfl⟩ | ⟨id, rfl⟩ | ⟨e, n, rfl⟩ | ⟨e, rfl⟩ | ht
    · exact h
    · simp only [zeroObj, readStorage] at h0 h ⊢
      obtain ⟨fs, hfs, h0⟩ := bind_eq_ok.mp h0
      obtain ⟨zs, hzs, rfl⟩ := map_eq_ok.mp h0
      rw [hfs] at h
      obtain ⟨rs, hrs, hr⟩ := map_eq_ok.mp h
      cases hr
      refine bind_eq_ok.mpr ⟨fs, hfs, congrArg _ (mapM_ok_of_imp (fun a ha b hb => ?_) hrs)⟩
      obtain ⟨i, off, ft⟩ := a
      exact readStorage_zero_stable hz (mapM_agree hrs hzs _ ha b hb) hb
    · simp only [zeroObj, readStorage] at h0 h ⊢
      obtain ⟨zs, hzs, rfl⟩ := map_eq_ok.mp h0
      obtain ⟨size, hs, h⟩ := bind_eq_ok.mp h
      obtain ⟨rs, hrs, hr⟩ := map_eq_ok.mp h
      cases hr
      refine bind_eq_ok.mpr ⟨size, hs, congrArg _ (mapM_ok_of_imp (fun i hi b hb => ?_) hrs)⟩
      exact readStorage_zero_stable hz (mapM_agree hrs hzs i hi b hb) hb
    · simp only [zeroObj, readStorage] at h0 h ⊢
      cases h0
      obtain ⟨len, hl, h⟩ := bind_eq_ok.mp h
      obtain ⟨size, hs, h⟩ := bind_eq_ok.mp h
      obtain ⟨rs, hrs, hr⟩ := map_eq_ok.mp h
      cases hr
      have hlen : len = 0 := by simpa using (mapM_ok_length hrs).symm
      subst hlen
      have hd : st'.sload d = 0 := hslot d (copyLength_ok hl).1
      rw [hd]
      exact bind_eq_ok.mpr ⟨0, rfl, bind_eq_ok.mpr ⟨size, hs, hrs ▸ rfl⟩⟩
    · rw [zeroObj_value ht] at h0
      rw [readStorage_value ht] at h ⊢
      cases h0
      have hd : st.sload d = 0 := Obj.word.inj (Except.ok.inj h)
      rw [hslot d hd]

end Reads

end ContractCfg.Machine
