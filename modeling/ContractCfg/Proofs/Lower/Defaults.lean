import ContractCfg.Lower.Types
import ContractCfg.Proofs.Lower.Straight

/-!
Default values. The value a variable holds before any assignment is `false` or zero for a value
type, a storage reference or a mapping, and for a memory struct or array a fresh zero object: a
pointer to cells allocated just past the memory in use, whose value cells hold zero, whose length
cell holds the static length (zero for a dynamic array), and whose memory members and elements
point to zero objects of their own, laid on the cells that follow, one after another.

`zeroCells` counts the cells such an object takes, `ZeroAt` says that memory holds one at a given
pointer on given cells, and `Lays` says what the code computing a default value does on the
machine: with room below the memory limit and steps left, it lays the object past the old end
of memory, keeps every old cell, and changes only the temporaries it was handed.
-/

namespace ContractCfg.Lower

open ContractCfg.IR ContractCfg.Machine ContractCfg.Machine.Vm ContractCfg.Source

/-- The members of struct `d` as a memory object holds them. -/
def memoryMembers (d : Source.StructDef) : List TypeName := d.members.map (·.ty.withLocation .memory)

/-- The cells objects of the types `ts` take one after another, `size` cells each. -/
def cellsOf (size : TypeName → Nat) (ts : List TypeName) : Nat := ts.foldr (fun t n => size t + n) 0

@[simp] theorem cellsOf_nil (size : TypeName → Nat) : cellsOf size [] = 0 := rfl

@[simp] theorem cellsOf_cons (size : TypeName → Nat) (t : TypeName) (ts : List TypeName) :
    cellsOf size (t :: ts) = size t + cellsOf size ts := rfl

theorem cellsOf_replicate (size : TypeName → Nat) (n : Nat) (t : TypeName) :
    cellsOf size (List.replicate n t) = n * size t := by
  induction n with
  | zero => simp
  | succ n ih => rw [List.replicate_succ, cellsOf_cons, ih, Nat.succ_mul, Nat.add_comm]

/-- The cells the zero object of type `t` takes in memory: for a memory struct one per member,
at least one, and for a memory array one for the length and one per element, then the cells of
the nested memory objects; none for any other type. `fuel` bounds the nesting as in
`defaultValueWith`. -/
def zeroCells (u : SourceUnit) : Nat → TypeName → Nat
  | k + 1, .struct id .memory =>
    (u.struct? id).elim 0 fun d => max (memoryMembers d).length 1 + cellsOf (zeroCells u k) (memoryMembers d)
  | k + 1, .array base length .memory => length.getD 0 + 1 + length.getD 0 * zeroCells u k base
  | _, _ => 0

/-- Cells `c, c + 1, …` of `m` hold objects of the types `ts`: each satisfies `Z` for its type
on its own cells from `next` on, and the next one's cells follow its `size` cells. -/
def Laid (Z : TypeName → Int → Nat → Prop) (size : TypeName → Nat) (m : Array Int) :
    List TypeName → Nat → Nat → Prop
  | [], _, _ => True
  | t :: ts, c, next => (∃ q, m[c]? = some q ∧ Z t q next) ∧ Laid Z size m ts (c + 1) (next + size t)

/-- `ZeroAt u m k t p lo`: `p` is the zero object of type `t` in memory `m`, laid on the cells
from `lo` on. A value, a storage reference or a mapping is 0. A memory struct is the pointer
`lo`, its member cells from `lo` on, each holding the zero object of the member's type, laid past
the struct's own cells one after another; a memory array is the pointer `lo`, its length cell
there holding the static length (0 for a dynamic array), its element cells after it holding zero
objects of the element type, laid past the array's own cells. -/
def ZeroAt (u : SourceUnit) (m : Array Int) : Nat → TypeName → Int → Nat → Prop
  | k + 1, .struct id .memory, p, lo => ∃ d, u.struct? id = some d ∧ p = lo ∧ 0 < lo ∧
      Laid (ZeroAt u m k) (zeroCells u k) m (memoryMembers d) lo (lo + max (memoryMembers d).length 1)
  | k + 1, .array base length .memory, p, lo => p = lo ∧ 0 < lo ∧ m[lo]? = some (length.getD 0 : Int) ∧
      Laid (ZeroAt u m k) (zeroCells u k) m (List.replicate (length.getD 0) base) (lo + 1)
        (lo + 1 + length.getD 0)
  | _, t, p, _ => t.isInMemory = false ∧ p = 0

section Zero

variable {u : SourceUnit} {m m' : Array Int} {k : Nat} {t : TypeName}

theorem TypeName.inMemory_cases (h : t.isInMemory = true) :
    (∃ id, t = .struct id .memory) ∨ ∃ base length, t = .array base length .memory := by
  cases t with
  | struct id loc => cases loc <;> simp_all [TypeName.isInMemory, TypeName.location]
  | array base length loc => cases loc <;> simp_all [TypeName.isInMemory, TypeName.location]
  | _ => simp [TypeName.isInMemory, TypeName.location] at h

theorem zeroCells_of_not_memory (ht : t.isInMemory = false) (k : Nat) : zeroCells u k t = 0 := by
  cases k with
  | zero => rfl
  | succ k =>
    cases t with
    | struct id loc => cases loc <;> simp_all [zeroCells, TypeName.isInMemory, TypeName.location]
    | array base length loc => cases loc <;> simp_all [zeroCells, TypeName.isInMemory, TypeName.location]
    | _ => rfl

theorem zeroCells_struct {id : Nat} {d : Source.StructDef} (hd : u.struct? id = some d) (k : Nat) :
    zeroCells u (k + 1) (.struct id .memory) =
      max (memoryMembers d).length 1 + cellsOf (zeroCells u k) (memoryMembers d) := by
  simp [zeroCells, hd]

theorem zeroCells_array (base : TypeName) (length : Option Nat) (k : Nat) :
    zeroCells u (k + 1) (.array base length .memory) =
      length.getD 0 + 1 + length.getD 0 * zeroCells u k base := rfl

theorem zeroAt_of_not_memory (ht : t.isInMemory = false) {p : Int} {lo : Nat} :
    ZeroAt u m k t p lo ↔ p = 0 := by
  cases k with
  | zero => simp [ZeroAt, ht]
  | succ k =>
    cases t with
    | struct id loc => cases loc <;> simp_all [ZeroAt, TypeName.isInMemory, TypeName.location]
    | array base length loc => cases loc <;> simp_all [ZeroAt, TypeName.isInMemory, TypeName.location]
    | _ => simp [ZeroAt, TypeName.isInMemory, TypeName.location]

theorem Laid.congr {Z Z' : TypeName → Int → Nat → Prop} {size : TypeName → Nat} :
    ∀ {ts : List TypeName} {c next : Nat}, Laid Z size m ts c next →
      (∀ j, c ≤ j → j < c + ts.length → m'[j]? = m[j]?) →
      (∀ t ∈ ts, ∀ q nx, next ≤ nx → nx + size t ≤ next + cellsOf size ts → Z t q nx → Z' t q nx) →
      Laid Z' size m' ts c next
  | [], _, _, _, _, _ => trivial
  | t :: ts, c, next, h, hcells, hZ => by
    obtain ⟨⟨q, hq, hz⟩, hrest⟩ := h
    refine ⟨⟨q, by rw [hcells c (Nat.le_refl _) (by simp)]; exact hq, ?_⟩, ?_⟩
    · exact hZ t List.mem_cons_self q next (Nat.le_refl _) (by simp) hz
    · refine Laid.congr hrest (fun j hj hj' => hcells j (by omega) (by simp; omega)) ?_
      intro t' ht' q' nx hnx hnx' hz'
      exact hZ t' (List.mem_cons_of_mem t ht') q' nx (by omega) (by simp; omega) hz'

theorem ZeroAt.congr : ∀ {k : Nat} {t : TypeName} {p : Int} {lo : Nat}, ZeroAt u m k t p lo →
    (∀ j, lo ≤ j → j < lo + zeroCells u k t → m'[j]? = m[j]?) → ZeroAt u m' k t p lo
  | 0, t, p, lo, h, _ => h
  | k + 1, t, p, lo, h, hcells => by
    by_cases hm : t.isInMemory
    · rcases TypeName.inMemory_cases hm with ⟨id, rfl⟩ | ⟨base, length, rfl⟩
      · obtain ⟨d, hd, hp, hlo, hlaid⟩ := h
        rw [zeroCells_struct hd] at hcells
        refine ⟨d, hd, hp, hlo, hlaid.congr (fun j hj hj' => hcells j hj (by omega)) ?_⟩
        intro t' _ q nx hnx hnx' hz
        exact hz.congr fun j hj hj' => hcells j (by omega) (by omega)
      · obtain ⟨hp, hlo, hlen, hlaid⟩ := h
        rw [zeroCells_array] at hcells
        refine ⟨hp, hlo, by rw [hcells lo (Nat.le_refl _) (by omega)]; exact hlen, ?_⟩
        refine hlaid.congr (fun j hj hj' => hcells j (by omega) (by simp at hj'; omega)) ?_
        intro t' ht' q nx hnx hnx' hz
        rw [cellsOf_replicate] at hnx'
        exact hz.congr fun j hj hj' => hcells j (by omega) (by omega)
    · have hm : t.isInMemory = false := by simpa using hm
      exact (zeroAt_of_not_memory hm).mpr ((zeroAt_of_not_memory hm).mp h)

theorem laid_zeros : ∀ {ts : List TypeName} {c next : Nat}, (∀ t ∈ ts, t.isInMemory = false) →
    (∀ j < ts.length, m[c + j]? = some 0) → Laid (ZeroAt u m k) (zeroCells u k) m ts c next
  | [], _, _, _, _ => trivial
  | t :: ts, c, next, hts, hz => by
    have ht := hts t List.mem_cons_self
    refine ⟨⟨0, by simpa using hz 0 (by simp), (zeroAt_of_not_memory ht).mpr rfl⟩, ?_⟩
    refine laid_zeros (fun t' ht' => hts t' (List.mem_cons_of_mem t ht')) fun j hj => ?_
    rw [Nat.add_assoc, Nat.add_comm 1 j]
    exact hz (j + 1) (by simp; omega)

end Zero

/-- The code `is` lays out the zero object of type `t` and leaves it in `v`. Run from registers
`ls` on a machine with memory in use (at least the reserved cell), room below the memory limit
for the object's cells and steps left for the code, it goes on with the object laid on the cells
just past the old end of memory, every old cell as it was, one step counted per instruction and
nothing else of the machine changed, `v` reading the object, and no register changed but the
temporaries from `n` on. -/
def Lays (u : SourceUnit) (k : Nat) (t : TypeName) (n : Nat) (is : List Instr) (v : Value) : Prop :=
  ∀ (vm : Vm) (ls : Locals), 0 < vm.state.memory.size →
    vm.state.memory.size + zeroCells u k t ≤ memoryLimit → vm.steps + is.length ≤ vm.maxSteps →
    ∃ m ls' p, Runs is vm ls (vm.withMemory m is.length) ls' ∧
      m.size = vm.state.memory.size + zeroCells u k t ∧
      (∀ c < vm.state.memory.size, m[c]? = vm.state.memory[c]?) ∧
      ZeroAt u m k t p vm.state.memory.size ∧ ls'.read v = .ok p ∧
      Agree (fun x => ¬ FreshFrom n x) ls ls'

/-- The code `is` fills the cells from `ptr + i` on with zero objects of the types `ts`. Run from
registers where `ptr` reads an address `lo` whose cells `lo + i, …` are allocated and hold zero,
with room and steps as for `Lays`, it goes on with those cells holding zero objects of their
types laid past the old end of memory one after another, no other old cell changed, and no
register changed but the temporaries from `n` on. -/
def Fills (u : SourceUnit) (k : Nat) (ptr : Value) (i : Nat) (ts : List TypeName) (n : Nat)
    (is : List Instr) : Prop :=
  ∀ (vm : Vm) (ls : Locals) (lo : Nat), ls.read ptr = .ok lo → 0 < lo →
    lo + i + ts.length ≤ vm.state.memory.size →
    (∀ j < ts.length, vm.state.memory[lo + i + j]? = some 0) →
    vm.state.memory.size + cellsOf (zeroCells u k) ts ≤ memoryLimit →
    vm.steps + is.length ≤ vm.maxSteps →
    ∃ m ls', Runs is vm ls (vm.withMemory m is.length) ls' ∧
      m.size = vm.state.memory.size + cellsOf (zeroCells u k) ts ∧
      (∀ c < vm.state.memory.size, (c < lo + i ∨ lo + i + ts.length ≤ c) → m[c]? = vm.state.memory[c]?) ∧
      Laid (ZeroAt u m k) (zeroCells u k) m ts (lo + i) vm.state.memory.size ∧
      Agree (fun x => ¬ FreshFrom n x) ls ls'

section Code

variable {u : SourceUnit} {k : Nat}

theorem lays_const {t : TypeName} (ht : t.isInMemory = false) (n : Nat) {c : Constant}
    (hc : c.toInt = 0) : Lays u k t n [] (.const c) := by
  intro vm ls _ _ _
  refine ⟨vm.state.memory, ls, 0, .nil vm ls, ?_, fun _ _ => rfl, (zeroAt_of_not_memory ht).mpr rfl,
    by rw [read_const, hc], Agree.refl _ ls⟩
  rw [zeroCells_of_not_memory ht, Nat.add_zero]

theorem fills_nil (ptr : Value) (i n : Nat) : Fills u k ptr i [] n [] := by
  intro vm ls lo _ _ _ _ _ _
  exact ⟨vm.state.memory, ls, .nil vm ls, by simp, fun _ _ _ => rfl, trivial, Agree.refl _ ls⟩

theorem fills_skip {ptr : Value} {i n : Nat} {t : TypeName} {ts : List TypeName} {is : List Instr}
    (ht : t.isInMemory = false) (h : Fills u k ptr (i + 1) ts n is) : Fills u k ptr i (t :: ts) n is := by
  intro vm ls lo hptr hlo hcells hzero hroom hsteps
  have hz : zeroCells u k t = 0 := zeroCells_of_not_memory ht k
  obtain ⟨m, ls', hruns, hsize, hframe, hlaid, hagree⟩ := h vm ls lo hptr hlo
    (by simp at hcells; omega) (fun j hj => by
      rw [show lo + (i + 1) + j = lo + i + (j + 1) by omega]
      exact hzero (j + 1) (by simp; omega))
    (by simp [hz] at hroom; omega) hsteps
  refine ⟨m, ls', hruns, by simp [hsize, hz], fun c hc hc' => hframe c hc (by simp at hc'; omega), ?_, hagree⟩
  -- the member's own cell is below the old end and off the rest's cells
  have hcell : m[lo + i]? = some 0 := by
    rw [hframe (lo + i) (by simp at hcells; omega) (.inl (by omega))]
    simpa using hzero 0 (by simp)
  refine ⟨⟨0, hcell, (zeroAt_of_not_memory ht).mpr rfl⟩, ?_⟩
  rw [hz, Nat.add_zero, show lo + i + 1 = lo + (i + 1) by omega]
  exact hlaid

end Code

theorem getElem?_grown_old {m : Array Int} {c j : Nat} (hj : j < m.size) :
    (m ++ Array.replicate c 0)[j]? = m[j]? := Array.getElem?_append_left hj

theorem getElem?_grown_new {m : Array Int} {c j : Nat} (hj : m.size ≤ j) (hj' : j < m.size + c) :
    (m ++ Array.replicate c 0)[j]? = some 0 := by
  rw [Array.getElem?_append_right hj, Array.getElem?_replicate, if_pos (by omega)]

theorem getElem?_stored_self {m : Array Int} {w : Nat} {x : Int} (hw : w < m.size) :
    (m.set! w x)[w]? = some x := by
  rw [Array.set!_eq_setIfInBounds, Array.getElem?_setIfInBounds, if_pos rfl, if_pos hw]

theorem getElem?_stored_other {m : Array Int} {w j : Nat} {x : Int} (hj : j ≠ w) :
    (m.set! w x)[j]? = m[j]? := by
  rw [Array.set!_eq_setIfInBounds, Array.getElem?_setIfInBounds, if_neg (Ne.symm hj)]

section Laying

variable {u : SourceUnit} {k : Nat}

theorem fills_child {ptr v : Value} {i n n₁ n₂ : Nat} {t : TypeName} {ts : List TypeName}
    {is₁ is₃ : List Instr} (hptr : Value.Below n ptr) (hn₁ : n ≤ n₁) (hn₂ : n₁ ≤ n₂)
    (hchild : Lays u k t n₁ is₁ v) (hv : Value.Below n₂ v)
    (hrest : Fills u k ptr (i + 1) ts (n₂ + 1) is₃) :
    Fills u k ptr i (t :: ts) n
      (is₁ ++ [.binary (.reg (toString n₂)) .add ptr (.ofInt i),
        .memoryStore (.reg (toString n₂)) v] ++ is₃) := by
  intro vm ls lo hptr₀ hlo hcells hzero hroom hsteps
  have hlen : (is₁ ++ [Instr.binary (.reg (toString n₂)) .add ptr (.ofInt i),
      Instr.memoryStore (.reg (toString n₂)) v] ++ is₃).length = is₁.length + 2 + is₃.length := by
    simp only [List.length_append, List.length_cons, List.length_nil]
  simp only [cellsOf_cons, List.length_cons] at hroom hcells ⊢
  rw [hlen] at hsteps ⊢
  -- the member's zero object, laid past the old end
  obtain ⟨m₁, ls₁, p, hrun₁, hsize₁, hold₁, hzero₁, hread₁, hagree₁⟩ :=
    hchild vm ls (by omega) (by omega) (by omega)
  have hptr₁ : ls₁.read ptr = .ok lo := hagree₁.read_below (hptr.mono hn₁) hptr₀
  -- its address in a fresh temporary, then the store
  have hagree₂ : Agree (fun x => ¬ FreshFrom n₂ x) ls₁ (ls₁.insert (toString n₂) ((lo + i : Nat) : Int)) :=
    Agree.insert (fun h => h (freshFrom_temp (Nat.le_refl _))) _
  have hcell : lo + i < m₁.size := by omega
  have hrun₂ : Runs [.binary (.reg (toString n₂)) .add ptr (.ofInt i), .memoryStore (.reg (toString n₂)) v]
      (vm.withMemory m₁ is₁.length) ls₁ (vm.withMemory (m₁.set! (lo + i) p) (is₁.length + 2))
      (ls₁.insert (toString n₂) ((lo + i : Nat) : Int)) :=
    .cons (plain_binary _ _ _ _) (by simp only [withMemory_steps, withMemory_maxSteps]; omega)
      (step_binary hptr₁ rfl rfl)
      (.cons (plain_memoryStore _ _) (by simp only [withMemory_steps, withMemory_maxSteps]; omega)
        (step_memoryStore (by simp [read_reg, Constant.toInt]) (hagree₂.read_below hv hread₁) (by omega) hcell)
        (.nil _ _))
  -- the rest, on memory where only the member's cell changed
  obtain ⟨m₃, ls₃, hrun₃, hsize₃, hframe₃, hlaid₃, hagree₃⟩ :=
    hrest (vm.withMemory (m₁.set! (lo + i) p) (is₁.length + 2)) _ lo
      (hagree₂.read_below (hptr.mono (by omega)) hptr₁) hlo (by simp; omega)
      (fun j hj => by
        simp only [withMemory_memory]
        rw [getElem?_stored_other (by omega), hold₁ _ (by omega),
          show lo + (i + 1) + j = lo + i + (j + 1) by omega]
        exact hzero (j + 1) (by simp only [List.length_cons]; omega))
      (by simp only [withMemory_memory, Array.size_set!]; omega)
      (by simp only [withMemory_steps, withMemory_maxSteps]; omega)
  simp only [withMemory_memory, withMemory_withMemory, Array.size_set!] at hrun₃ hsize₃ hframe₃ hlaid₃
  refine ⟨m₃, ls₃, ?_, by omega, fun c hc hc' => ?_, ⟨⟨p, ?_, ?_⟩, ?_⟩, ?_⟩
  · exact (hrun₁.append hrun₂).append hrun₃
  · rw [hframe₃ c (by omega) (by omega), getElem?_stored_other (by omega), hold₁ c hc]
  · rw [hframe₃ (lo + i) (by omega) (.inl (by omega)), getElem?_stored_self hcell]
  · -- the member's object lies past the old end, where neither the store nor the rest wrote
    refine hzero₁.congr fun j hj hj' => ?_
    rw [hframe₃ j (by omega) (.inr (by omega)), getElem?_stored_other (by omega)]
  · rw [show lo + i + 1 = lo + (i + 1) by omega, ← hsize₁]
    exact hlaid₃
  · exact (hagree₁.fresh_mono hn₁).trans ((hagree₂.fresh_mono (by omega)).trans (hagree₃.fresh_mono (by omega)))

theorem lays_struct {id n₀ : Nat} {d : Source.StructDef} (hd : u.struct? id = some d)
    {is : List Instr} (hfill : Fills u k (.reg (toString n₀)) 0 (memoryMembers d) (n₀ + 1) is) :
    Lays u (k + 1) (.struct id .memory) n₀
      (.allocate (.reg (toString n₀)) (.ofInt (max (memoryMembers d).length 1)) :: is)
      (.reg (toString n₀)) := by
  intro vm ls hm hroom hsteps
  rw [zeroCells_struct hd] at hroom ⊢
  rw [show max ((memoryMembers d).length : Int) 1 = ((max (memoryMembers d).length 1 : Nat) : Int) by omega]
  simp only [List.length_cons] at hsteps ⊢
  have hN : 0 < max (memoryMembers d).length 1 := by omega
  have hsize₁ : (vm.state.memory ++ Array.replicate (max (memoryMembers d).length 1) 0).size =
      vm.state.memory.size + max (memoryMembers d).length 1 := by simp
  -- the struct's own cells, allocated past the old end
  have hrun₁ := @runs_allocate vm ls (toString n₀) _ (by omega) hm hN (by omega)
  obtain ⟨m, ls', hrun, hsize, hframe, hlaid, hagree⟩ :=
    hfill (vm.withMemory (vm.state.memory ++ Array.replicate (max (memoryMembers d).length 1) 0) 1)
      (ls.insert (toString n₀) vm.state.memory.size) vm.state.memory.size
      (by simp [read_reg]) hm (by simp only [withMemory_memory, hsize₁]; omega)
      (fun j hj => by
        simp only [withMemory_memory]
        exact getElem?_grown_new (by omega) (by omega))
      (by simp only [withMemory_memory, hsize₁]; omega)
      (by simp only [withMemory_steps, withMemory_maxSteps]; omega)
  simp only [withMemory_memory, withMemory_withMemory, hsize₁] at hrun hsize hframe hlaid
  refine ⟨m, ls', vm.state.memory.size, ?_, by omega, fun c hc => ?_, ?_, ?_, ?_⟩
  · have := hrun₁.append hrun
    rwa [Nat.add_comm 1] at this
  · rw [hframe c (by omega) (.inl (by omega)), getElem?_grown_old hc]
  · exact ⟨d, hd, rfl, hm, by simpa using hlaid⟩
  · rw [read_reg, hagree _ (not_freshFrom_temp (Nat.lt_succ_self n₀))]
    simp
  · exact (Agree.insert (fun h => h (freshFrom_temp (Nat.le_refl _))) _).trans
      (hagree.fresh_mono (Nat.le_succ n₀))

theorem runs_length_cell {vm : Vm} {ls : Locals} {p : Value} {w L : Nat} (hp : ls.read p = .ok w)
    (hw : 0 < w) (hws : w < vm.state.memory.size) (hz : vm.state.memory[w]? = some 0)
    (hs : vm.steps + (if L > 0 then [Instr.memoryStore p (.ofInt L)] else []).length ≤ vm.maxSteps) :
    ∃ m, Runs (if L > 0 then [.memoryStore p (.ofInt L)] else []) vm ls
        (vm.withMemory m (if L > 0 then [Instr.memoryStore p (.ofInt L)] else []).length) ls ∧
      m.size = vm.state.memory.size ∧ m[w]? = some (L : Int) ∧ ∀ j, j ≠ w → m[j]? = vm.state.memory[j]? := by
  by_cases hpos : L > 0
  · simp only [if_pos hpos, List.length_cons, List.length_nil] at hs ⊢
    exact ⟨_, runs_memoryStore (by omega) hp rfl hw hws, by simp, getElem?_stored_self hws,
      fun j hj => getElem?_stored_other hj⟩
  · have hL0 : L = 0 := by omega
    subst hL0
    simp only [if_neg hpos, List.length_nil]
    exact ⟨_, .nil _ _, rfl, hz, fun _ _ => rfl⟩

theorem lays_array {base : TypeName} {length : Option Nat} {n₀ : Nat} {is : List Instr}
    (hfill : Fills u k (.reg (toString n₀)) 1 (List.replicate (length.getD 0) base) (n₀ + 1) is) :
    Lays u (k + 1) (.array base length .memory) n₀
      (.allocate (.reg (toString n₀)) (.ofInt ((length.getD 0 + 1) % slotModulus)) ::
        ((if length.getD 0 > 0 then [.memoryStore (.reg (toString n₀)) (.ofInt (length.getD 0))]
          else []) ++ is))
      (.reg (toString n₀)) := by
  intro vm ls hm hroom hsteps
  rw [zeroCells_array] at hroom ⊢
  have hM : slotModulus = 18446744073709551616 := rfl
  have hlim : memoryLimit = 16777216 := rfl
  -- the allocated size does not wrap: the object fits below the memory limit
  rw [show ((length.getD 0 : Int) + 1) % (slotModulus : Int) = ((length.getD 0 + 1 : Nat) : Int) by
    rw [hM]; omega]
  generalize hL : length.getD 0 = L at hroom hfill hsteps ⊢
  simp only [List.length_cons, List.length_append] at hsteps ⊢
  have hsize₁ : (vm.state.memory ++ Array.replicate (L + 1) 0).size = vm.state.memory.size + (L + 1) := by simp
  have hrun₁ := @runs_allocate vm ls (toString n₀) (L + 1) (by omega) hm (by omega) (by omega)
  have hread₁ : Locals.read (ls.insert (toString n₀) vm.state.memory.size) (.reg (toString n₀)) =
      .ok vm.state.memory.size := by simp [read_reg]
  -- the length cell, the first of the allocation, then holds the static length
  obtain ⟨m₂, hrun₂, hsize₂, hlen₂, hother₂⟩ :=
    @runs_length_cell (vm.withMemory (vm.state.memory ++ Array.replicate (L + 1) 0) 1) _ _ _ L hread₁ hm
      (by simp only [withMemory_memory, hsize₁]; omega) (getElem?_grown_new (Nat.le_refl _) (by omega))
      (by simp only [withMemory_steps, withMemory_maxSteps]; omega)
  simp only [withMemory_memory, withMemory_withMemory, hsize₁] at hrun₂ hsize₂ hother₂
  generalize (if L > 0 then [Instr.memoryStore (.reg (toString n₀)) (.ofInt L)] else []) = lc at hrun₂ hsteps ⊢
  -- the elements, on the cells after the length
  obtain ⟨m₃, ls₃, hrun₃, hsize₃, hframe₃, hlaid₃, hagree₃⟩ :=
    hfill (vm.withMemory m₂ (1 + lc.length)) _ vm.state.memory.size hread₁ hm
      (by simp only [withMemory_memory, List.length_replicate]; omega)
      (fun j hj => by
        simp only [withMemory_memory]
        simp only [List.length_replicate] at hj
        rw [hother₂ _ (by omega)]
        exact getElem?_grown_new (by omega) (by omega))
      (by simp only [withMemory_memory, hsize₂, cellsOf_replicate]; omega)
      (by simp only [withMemory_steps, withMemory_maxSteps]; omega)
  simp only [withMemory_memory, withMemory_withMemory, hsize₂] at hrun₃ hsize₃ hframe₃ hlaid₃
  refine ⟨m₃, ls₃, vm.state.memory.size, ?_, ?_, fun c hc => ?_, ⟨rfl, hm, ?_, ?_⟩, ?_, ?_⟩
  · have := hrun₁.append (hrun₂.append hrun₃)
    rwa [show 1 + lc.length + is.length = lc.length + is.length + 1 by omega] at this
  · rw [cellsOf_replicate] at hsize₃
    omega
  · rw [hframe₃ c (by omega) (.inl (by omega)), hother₂ c (by omega), getElem?_grown_old hc]
  · rw [hframe₃ _ (by omega) (.inl (by omega)), hlen₂, hL]
  · rw [hL, show vm.state.memory.size + 1 + L = vm.state.memory.size + (L + 1) by omega]
    exact hlaid₃
  · rw [read_reg, hagree₃ _ (not_freshFrom_temp (Nat.lt_succ_self n₀))]
    simp
  · exact (Agree.insert (fun h => h (freshFrom_temp (Nat.le_refl _))) _).trans
      (hagree₃.fresh_mono (Nat.le_succ n₀))

theorem fills_outside {ptr : Value} {n : Nat} : ∀ {ts : List TypeName} {i : Nat},
    (∀ t ∈ ts, t.isInMemory = false) → Fills u k ptr i ts n []
  | [], i, _ => fills_nil ptr i n
  | t :: _, _, hts => fills_skip (hts t List.mem_cons_self)
      (fills_outside fun t' ht' => hts t' (List.mem_cons_of_mem t ht'))

end Laying

theorem Gen.pure_ok {α : Type} {env : Env} {a b : α} {s s' : GenState}
    (h : (pure a : Gen α) env s = .ok (b, s')) : a = b ∧ s' = s := by
  rw [Gen.pure_run] at h
  simp only [Except.ok.injEq, Prod.mk.injEq] at h
  exact ⟨h.1, h.2.symm⟩

theorem defaultValueWith_outside {t : TypeName} (ht : t.isInMemory = false) (k n : Nat) :
    ∃ c : Constant, c.toInt = 0 ∧ Gen.defaultValueWith (k + 1) t n = pure (.const c) := by
  cases t with
  | bool => exact ⟨.bool false, rfl, by unfold Gen.defaultValueWith; rfl⟩
  | struct id loc =>
    cases loc <;> simp [TypeName.isInMemory, TypeName.location] at ht <;>
      exact ⟨.int 0, rfl, by unfold Gen.defaultValueWith; rfl⟩
  | array base length loc =>
    cases loc <;> simp [TypeName.isInMemory, TypeName.location] at ht <;>
      exact ⟨.int 0, rfl, by unfold Gen.defaultValueWith; rfl⟩
  | _ => exact ⟨.int 0, rfl, by unfold Gen.defaultValueWith; rfl⟩

section Lowering

variable {env : Env} {node k : Nat}

/-- What lowering a default value of type `t` with `fuel` guarantees: from a state whose
current block is open, when it succeeds, it has appended code to that block that lays the zero
object of `t` out, and its result reads the object and names no temporary handed out later. -/
def DefaultLays (env : Env) (fuel : Nat) (t : TypeName) (node : Nat) : Prop :=
  ∀ (s s' : GenState) (v : Value), s.fn.builder.IsOpen →
    Gen.defaultValueWith fuel t node env s = .ok (v, s') →
    ∃ is, s.Appends s' is ∧ Value.Below s'.fn.builder.nextTemp v ∧
      Lays env.unit fuel t s.fn.builder.nextTemp is v

theorem child_appends {t : TypeName} {ptr : Value} {i : Nat} (hdv : DefaultLays env k t node)
    {β : Type} {K : Unit → Gen β} {b : β} {s s' : GenState} (ho : s.fn.builder.IsOpen)
    (h : (Gen.defaultValueWith k t node >>= fun child => Gen.binary .add ptr (.ofInt i) >>= fun addr =>
      Gen.emitUnit (.memoryStore addr child) >>= K) env s = .ok (b, s')) :
    ∃ s₁ is v n₂, s.Appends s₁ (is ++ [.binary (.reg (toString n₂)) .add ptr (.ofInt i),
        .memoryStore (.reg (toString n₂)) v]) ∧
      s₁.fn.builder.nextTemp = n₂ + 1 ∧ Value.Below n₂ v ∧ s.fn.builder.nextTemp ≤ n₂ ∧
      Lays env.unit k t s.fn.builder.nextTemp is v ∧ K () env s₁ = .ok (b, s') := by
  obtain ⟨v, s₂, hc, h⟩ := Gen.bind_ok h
  obtain ⟨addr, s₃, ha, h⟩ := Gen.bind_ok h
  obtain ⟨_, s₁, hst, hK⟩ := Gen.bind_ok h
  obtain ⟨is, happ, hvb, hlays⟩ := hdv s s₂ v ho hc
  have ho₂ := happ.2.isOpen ho
  obtain ⟨rfl, rfl⟩ := Gen.emit_ok ho₂ ha
  have happ₂ := GenState.Appends.withBuilder (FnBuilder.Appends.emit s₂.fn.builder
    fun x => .binary x .add ptr (.ofInt i))
  have hs₁ := Gen.emitUnit_ok (happ₂.2.isOpen ho₂) hst
  subst hs₁
  refine ⟨_, is, v, s₂.fn.builder.nextTemp, ?_, rfl, hvb, happ.2.nextTemp_le, hlays, hK⟩
  have h₂ := (happ.trans happ₂).trans
    (GenState.Appends.withBuilder (FnBuilder.Appends.push _ (.memoryStore (.reg (toString s₂.fn.builder.nextTemp)) v)))
  simpa using h₂

theorem defaultMembers_fills {ptr : Value} (hdv : ∀ t, DefaultLays env k t node) :
    ∀ (ms : List TypeName) (i : Nat) (s s' : GenState) (u : Unit), s.fn.builder.IsOpen →
      Value.Below s.fn.builder.nextTemp ptr → Gen.defaultMembers k ptr node i ms env s = .ok (u, s') →
      ∃ is, s.Appends s' is ∧ Fills env.unit k ptr i ms s.fn.builder.nextTemp is
  | [], i, s, s', _, _, _, h => by
    unfold Gen.defaultMembers at h
    obtain ⟨-, rfl⟩ := Gen.pure_ok h
    exact ⟨[], GenState.Appends.refl _, fills_nil ptr i _⟩
  | m :: ms, i, s, s', _, ho, hptr, h => by
    unfold Gen.defaultMembers at h
    by_cases hm : m.isInMemory = true
    · simp only [hm, if_true] at h
      obtain ⟨s₁, is₁, v, n₂, happ₁, hnext, hvb, hle, hlays, h₂⟩ := child_appends (hdv m) ho h
      obtain ⟨is₃, happ₃, hfill⟩ := defaultMembers_fills hdv ms (i + 1) s₁ s' _ (happ₁.2.isOpen ho)
        (hptr.mono happ₁.2.nextTemp_le) h₂
      rw [hnext] at hfill
      exact ⟨_, happ₁.trans happ₃, fills_child hptr (Nat.le_refl _) hle hlays hvb hfill⟩
    · simp only [hm] at h
      obtain ⟨is, happ, hfill⟩ := defaultMembers_fills hdv ms (i + 1) s s' _ ho hptr h
      exact ⟨is, happ, fills_skip (by simpa using hm) hfill⟩

theorem defaultElements_fills {ptr : Value} {base : TypeName} (hdv : DefaultLays env k base node) :
    ∀ (n i : Nat) (s s' : GenState) (u : Unit), s.fn.builder.IsOpen →
      Value.Below s.fn.builder.nextTemp ptr → Gen.defaultElements k ptr base node i n env s = .ok (u, s') →
      ∃ is, s.Appends s' is ∧ Fills env.unit k ptr i (List.replicate n base) s.fn.builder.nextTemp is
  | 0, i, s, s', _, _, _, h => by
    unfold Gen.defaultElements at h
    obtain ⟨-, rfl⟩ := Gen.pure_ok h
    exact ⟨[], GenState.Appends.refl _, fills_nil ptr i _⟩
  | n + 1, i, s, s', _, ho, hptr, h => by
    unfold Gen.defaultElements at h
    obtain ⟨s₁, is₁, v, n₂, happ₁, hnext, hvb, hle, hlays, h₂⟩ := child_appends hdv ho h
    obtain ⟨is₃, happ₃, hfill⟩ := defaultElements_fills hdv n (i + 1) s₁ s' _ (happ₁.2.isOpen ho)
      (hptr.mono happ₁.2.nextTemp_le) h₂
    rw [hnext] at hfill
    exact ⟨_, happ₁.trans happ₃, fills_child hptr (Nat.le_refl _) hle hlays hvb hfill⟩

theorem outside_lays {t : TypeName} (ht : t.isInMemory = false) : DefaultLays env (k + 1) t node := by
  intro s s' v _ h
  obtain ⟨c, hc, hdv⟩ := defaultValueWith_outside ht k node
  rw [hdv] at h
  obtain ⟨rfl, rfl⟩ := Gen.pure_ok h
  exact ⟨[], GenState.Appends.refl _, Value.below_const _ c, lays_const ht _ hc⟩

theorem struct_lays (ih : ∀ t, DefaultLays env k t node) (id : Nat) :
    DefaultLays env (k + 1) (.struct id .memory) node := by
  intro s s' v ho h
  unfold Gen.defaultValueWith at h
  obtain ⟨d, s₁, hd, h₁⟩ := Gen.bind_ok h
  obtain ⟨hsd, rfl⟩ := Gen.structDef_ok hd
  obtain ⟨ptr, s₂, ha, h₂⟩ := Gen.bind_ok h₁
  obtain ⟨rfl, rfl⟩ := Gen.emit_ok ho ha
  have happ₁ := GenState.Appends.withBuilder (FnBuilder.Appends.emit s₁.fn.builder
    fun r => .allocate r (.ofInt (max (memoryMembers d).length 1)))
  obtain ⟨_, s₃, hms, h₃⟩ := Gen.bind_ok h₂
  obtain ⟨is, happ₂, hfill⟩ := defaultMembers_fills ih _ 0 _ s₃ _ (happ₁.2.isOpen ho)
    (Value.below_temp (Nat.lt_succ_self _)) hms
  obtain ⟨rfl, rfl⟩ := Gen.pure_ok h₃
  exact ⟨_, happ₁.trans happ₂, Value.below_temp (Nat.lt_of_lt_of_le (Nat.lt_succ_self _) happ₂.2.nextTemp_le),
    lays_struct hsd hfill⟩

theorem elements_fill {base : TypeName} (hdv : DefaultLays env k base node) {n₀ L : Nat}
    {s s' : GenState} {v : Value} (ho : s.fn.builder.IsOpen) (hn : s.fn.builder.nextTemp = n₀ + 1)
    (h : (if base.isInMemory = true then
      Gen.defaultElements k (.reg (toString n₀)) base node 1 L >>= fun _ => pure (.reg (toString n₀))
    else pure (.reg (toString n₀))) env s = .ok (v, s')) :
    v = .reg (toString n₀) ∧ ∃ is, s.Appends s' is ∧
      Fills env.unit k (.reg (toString n₀)) 1 (List.replicate L base) (n₀ + 1) is := by
  by_cases hb : base.isInMemory = true
  · rw [if_pos hb] at h
    obtain ⟨_, s₁, hes, h₁⟩ := Gen.bind_ok h
    obtain ⟨rfl, rfl⟩ := Gen.pure_ok h₁
    obtain ⟨is, happ, hfill⟩ := defaultElements_fills hdv _ 1 _ _ _ ho (Value.below_temp (by omega)) hes
    rw [hn] at hfill
    exact ⟨rfl, is, happ, hfill⟩
  · rw [if_neg hb] at h
    obtain ⟨rfl, rfl⟩ := Gen.pure_ok h
    refine ⟨rfl, [], GenState.Appends.refl _, fills_outside fun t ht => ?_⟩
    rw [List.eq_of_mem_replicate ht]
    simpa using hb

theorem array_lays (ih : ∀ t, DefaultLays env k t node) (base : TypeName) (length : Option Nat) :
    DefaultLays env (k + 1) (.array base length .memory) node := by
  intro s s' v ho h
  unfold Gen.defaultValueWith at h
  obtain ⟨ptr, s₁, ha, h₁⟩ := Gen.bind_ok h
  obtain ⟨rfl, rfl⟩ := Gen.emit_ok ho ha
  have happ₁ := GenState.Appends.withBuilder (FnBuilder.Appends.emit s.fn.builder
    fun r => .allocate r (.ofInt ((length.getD 0 + 1) % slotModulus)))
  -- the static length is stored only when positive; the cell holds zero from the allocation
  by_cases hpos : length.getD 0 > 0
  · simp only [hpos, if_true] at h₁
    obtain ⟨_, s₂, hst, h₂⟩ := Gen.bind_ok h₁
    have hs₂ := Gen.emitUnit_ok (happ₁.2.isOpen ho) hst
    subst hs₂
    have happ₂ := happ₁.trans (GenState.Appends.withBuilder (FnBuilder.Appends.push _
      (.memoryStore (.reg (toString s.fn.builder.nextTemp)) (.ofInt (length.getD 0)))))
    obtain ⟨rfl, is, happ₃, hfill⟩ := elements_fill (ih base) (happ₂.2.isOpen ho) rfl h₂
    have hlays := lays_array hfill
    rw [if_pos hpos] at hlays
    exact ⟨_, happ₂.trans happ₃,
      Value.below_temp (Nat.lt_of_lt_of_le (Nat.lt_succ_self _) happ₃.2.nextTemp_le), hlays⟩
  · simp only [hpos, if_false] at h₁
    obtain ⟨rfl, is, happ₃, hfill⟩ := elements_fill (ih base) (happ₁.2.isOpen ho) rfl h₁
    have hlays := lays_array hfill
    rw [if_neg hpos] at hlays
    exact ⟨_, happ₁.trans happ₃,
      Value.below_temp (Nat.lt_of_lt_of_le (Nat.lt_succ_self _) happ₃.2.nextTemp_le), hlays⟩

theorem defaultValueWith_lays : ∀ (fuel : Nat) (t : TypeName), DefaultLays env fuel t node
  | 0, t => fun s s' v _ h => by
    unfold Gen.defaultValueWith at h
    cases h
  | k + 1, t => by
    by_cases hm : t.isInMemory = true
    · rcases TypeName.inMemory_cases hm with ⟨id, rfl⟩ | ⟨base, length, rfl⟩
      · exact struct_lays (defaultValueWith_lays k) id
      · exact array_lays (defaultValueWith_lays k) base length
    · exact outside_lays (by simpa using hm)

theorem defaultValue_lays (t : TypeName) {s s' : GenState} {v : Value} (ho : s.fn.builder.IsOpen)
    (h : Gen.defaultValue t node env s = .ok (v, s')) :
    ∃ is, s.Appends s' is ∧ Value.Below s'.fn.builder.nextTemp v ∧
      Lays env.unit (env.unit.typeBound t) t s.fn.builder.nextTemp is v := by
  unfold Gen.defaultValue at h
  rw [Gen.bind_run_ok (Gen.unit_run env s)] at h
  exact defaultValueWith_lays _ t s s' v ho h

end Lowering

end ContractCfg.Lower
