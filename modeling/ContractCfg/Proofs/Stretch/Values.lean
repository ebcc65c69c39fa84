import ContractCfg.Proofs.Stretch.Steps

/-!
The code of values as stretches. Operators, conversions, element addresses, loads, stores,
default values, deletes and updates build: run from a poised state, their code is a stretch
that writes only the temporaries it takes and, when it stores to a variable, that variable's
register. What they give back is a register they handed out or a constant, or, for a conversion
or an offset that changes nothing, the value they were given (`PassedOn`). A register place must
be the register of a variable (`Place.OfVariable`), which every place the lowering computes is.
-/

namespace ContractCfg.Lower

open ContractCfg.Source
open ContractCfg.IR (Value Instr)

variable {c c₁ c₂ c' : FnState} {v w : Value}

theorem FreshIn.ofInt (n : Int) : FreshIn c c' (Value.ofInt n) := FreshIn.const _

/-- `w` is `v` passed on unchanged, or a value computed between `c` and `c'`. -/
def PassedOn (c c' : FnState) (v w : Value) : Prop := w = v ∨ FreshIn c c' w

theorem PassedOn.fresh (hw : PassedOn c₁ c' v w) (hv : FreshIn c c₁ v) (h₁ : Counts c c₁)
    (h₂ : Counts c₁ c') : FreshIn c c' w := by
  rcases hw with rfl | hw
  · exact hv.right h₂
  · exact hw.left h₁

theorem PassedOn.left (h : PassedOn c₁ c' v w) (he : Counts c c₁) : PassedOn c c' v w :=
  h.imp_right fun h => h.left he

theorem PassedOn.trans {u : Value} (h₁ : PassedOn c c₁ v u) (h₂ : PassedOn c₁ c' u w) (he₁ : Counts c c₁)
    (he₂ : Counts c₁ c') : PassedOn c c' v w := by
  rcases h₂ with rfl | h₂
  · exact h₁.imp_right fun h => h.right he₂
  · exact .inr (h₂.left he₁)

/-- A place whose register, if it is one, is the register of a variable. -/
def Place.OfVariable (c : FnState) : Place → Prop
  | .register x _ => ∃ u, c.lookup u = some x
  | _ => True

theorem Place.OfVariable.extend {p : Place} (hp : p.OfVariable c) (he : Counts c c') : p.OfVariable c' := by
  cases p with
  | register x t =>
    obtain ⟨u, hu⟩ := hp
    exact ⟨u, by rw [he.lookup]; exact hu⟩
  | memory => trivial
  | storage => trivial

/-- What a load of `p` between `c` and `c'` gives: a fresh value, or the slot of a storage
object of reference type. -/
def Loaded (c c' : FnState) (p : Place) (w : Value) : Prop := FreshIn c c' w ∨ ∃ t, p = .storage w t

namespace Builds

variable {α β : Type} {P : FnState → Prop} {Q : FnState → α → FnState → Prop}
  {R : FnState → β → FnState → Prop}

theorem post {m : Gen α} {Q' : FnState → α → FnState → Prop} (h : Builds P m Q)
    (hQ : ∀ c a c', Q c a c' → Q' c a c') : Builds P m Q' :=
  h.mono (fun _ h => h) fun c a c' _ _ hq => hQ c a c' hq

theorem pre {m : Gen α} {P' : FnState → Prop} (h : Builds P m Q) (hP : ∀ c, P' c → P c) : Builds P' m Q :=
  h.mono hP fun _ _ _ _ _ hq => hq

theorem andThen {x : Gen α} {f : α → Gen β} {T : α → FnState → β → FnState → Prop} (hx : Builds P x Q)
    (hf : ∀ a, Builds (fun _ => True) (f a) (T a))
    (h : ∀ c a c₁ b c', Stretch c c₁ → Q c a c₁ → Stretch c₁ c' → T a c₁ b c' → R c b c') :
    Builds P (x >>= f) R :=
  hx.bind hf (fun _ _ _ _ _ _ => trivial) fun c a c₁ b c' _ h₁ hq h₂ hq₂ => h c a c₁ b c' h₁ hq h₂ hq₂

theorem fresh {x : Gen α} {f : α → Gen Value} (hx : Builds P x Q)
    (hf : ∀ a, Builds (fun _ => True) (f a) fun c w c' => FreshIn c c' w) :
    Builds P (x >>= f) fun c w c' => FreshIn c c' w :=
  hx.andThen hf fun _ _ _ _ _ h₁ _ _ hw => hw.left h₁.counts

theorem pass {x : Gen Value} {f : Value → Gen Value} (hx : Builds P x fun c v c' => FreshIn c c' v)
    (hf : ∀ v, Builds (fun _ => True) (f v) fun c w c' => PassedOn c c' v w) :
    Builds P (x >>= f) fun c w c' => FreshIn c c' w :=
  hx.andThen hf fun _ _ _ _ _ h₁ hv h₂ hw => hw.fresh hv h₁.counts h₂.counts

theorem skip {x : Gen α} {f : α → Gen β} (hx : Builds P x Q)
    (hf : ∀ a, Builds (fun _ => True) (f a) fun _ _ _ => True) : Builds P (x >>= f) fun _ _ _ => True :=
  hx.andThen hf fun _ _ _ _ _ _ _ _ _ => trivial

theorem fnFixed_bind {x : Gen α} {f : α → Gen β} (hx : FnFixed x) (hf : ∀ a, Builds P (f a) R) :
    Builds P (x >>= f) R := by
  intro env s b s' hp hP hrun
  obtain ⟨a, s₁, h₁, h₂⟩ := Gen.bind_ok hrun
  have hfn : s₁.fn = s.fn := by
    have := hx s.fn env s rfl
    rw [h₁] at this
    exact this
  have h := hf a env s₁ b s' (by rw [hfn]; exact hp) (by rw [hfn]; exact hP) h₂
  rw [hfn] at h
  exact h

theorem pure_then {a : α} {f : α → Gen β} (h : Builds P (f a) R) : Builds P (Pure.pure a >>= f) R := by
  rw [LawfulMonad.pure_bind]
  exact h

theorem discard {x : Gen α} (h : Builds P x Q) : Builds P (Functor.discard x) fun _ _ _ => True := by
  intro env s u s' hp hP hrun
  change (x env s >>= fun p => Pure.pure ((), p.2)) = _ at hrun
  cases hx : x env s with
  | error e =>
    rw [hx] at hrun
    cases hrun
  | ok p =>
    rw [hx] at hrun
    cases hrun
    obtain ⟨hp', hst, -⟩ := h env s p.1 p.2 hp hP hx
    exact ⟨hp', hst, trivial⟩

theorem forIn {xs : List α} {f : α → β → Gen (ForInStep β)} {I : β → FnState → Prop}
    (hf : ∀ a b, Builds (I b) (f a b) fun _ r c' => I r.value c') (init : β) :
    Builds (I init) (ForIn.forIn xs init f) fun _ b c' => I b c' := by
  induction xs generalizing init with
  | nil => exact Builds.pure fun _ h => h
  | cons x xs ih =>
    rw [List.forIn_cons]
    refine (hf x init).bind (S := fun r c => I r.value c) (fun r => ?_) (fun _ _ _ _ _ h => h)
      fun _ _ _ _ _ _ _ _ _ h => h
    cases r with
    | done b => exact Builds.pure fun _ h => h
    | yield b => exact ih b

theorem forInArray {xs : Array α} {f : α → β → Gen (ForInStep β)} {I : β → FnState → Prop}
    (hf : ∀ a b, Builds (I b) (f a b) fun _ r c' => I r.value c') (init : β) :
    Builds (I init) (ForIn.forIn xs init f) fun _ b c' => I b c' := by
  rw [← Array.forIn_toList]
  exact forIn hf init

theorem mapM {xs : List α} {f : α → Gen Value}
    (hf : ∀ a, Builds (fun _ => True) (f a) fun c v c' => FreshIn c c' v) :
    Builds (fun _ => True) (xs.mapM f) fun c vs c' => ∀ v ∈ vs, FreshIn c c' v := by
  induction xs with
  | nil => exact Builds.pure fun _ _ v hv => by cases hv
  | cons x xs ih =>
    intro env s vs s' hp _ hrun
    rw [List.mapM_cons] at hrun
    obtain ⟨v, s₁, h₁, hrun⟩ := Gen.bind_ok hrun
    obtain ⟨bs, s₂, h₂, hrun⟩ := Gen.bind_ok hrun
    cases hrun
    obtain ⟨hp₁, hst₁, hv⟩ := hf x env s v s₁ hp trivial h₁
    obtain ⟨hp₂, hst₂, hbs⟩ := ih env s₁ bs _ hp₁ trivial h₂
    refine ⟨hp₂, hst₁.trans hp₁ hst₂, fun w hw => ?_⟩
    rcases List.mem_cons.mp hw with rfl | hw
    · exact hv.right hst₂.counts
    · exact (hbs w hw).left hst₁.counts

end Builds

namespace Gen

theorem builds_binary (op : IR.BinOp) (l r : Value) :
    Builds (fun _ => True) (binary op l r) fun c w c' => FreshIn c c' w :=
  builds_emit _ fun _ => rfl

theorem builds_unary (op : IR.UnOp) (v : Value) :
    Builds (fun _ => True) (unary op v) fun c w c' => FreshIn c c' w :=
  builds_emit _ fun _ => rfl

theorem builds_context (x : IR.ContextVar) :
    Builds (fun _ => True) (context x) fun c w c' => FreshIn c c' w :=
  builds_emit _ fun _ => rfl

theorem builds_passes_of_fresh {P : FnState → Prop} {m : Gen Value} (v : Value)
    (h : Builds P m fun c w c' => FreshIn c c' w) : Builds P m fun c w c' => PassedOn c c' v w :=
  h.post fun _ _ _ hw => .inr hw

theorem builds_pure_passes (v : Value) :
    Builds (fun _ => True) (Pure.pure v : Gen Value) fun c w c' => PassedOn c c' v w :=
  Builds.pure fun _ _ => .inl rfl

theorem builds_pure_const (k : IR.Constant) :
    Builds (fun _ => True) (Pure.pure (Value.const k) : Gen Value) fun c w c' => FreshIn c c' w :=
  Builds.pure fun _ _ => FreshIn.const k

theorem builds_mask (v : Value) (t : TypeName) :
    Builds (fun _ => True) (mask v t) fun c w c' => PassedOn c c' v w := by
  unfold mask
  split
  · exact builds_pure_passes v
  · split
    · exact builds_passes_of_fresh _ (builds_pure_const _)
    · exact Builds.ite (fun _ => builds_passes_of_fresh _ (builds_emit _ fun _ => rfl))
        fun _ => builds_passes_of_fresh _ (builds_emit _ fun _ => rfl)

theorem builds_convert (v : Value) (src dst : TypeName) :
    Builds (fun _ => True) (convert v src dst) fun c w c' => PassedOn c c' v w := by
  unfold convert
  refine Builds.ite (fun _ => builds_pure_passes v) fun _ => ?_
  split
  · exact Builds.ite (fun _ => builds_passes_of_fresh _ (builds_binary _ _ _))
      fun _ => builds_passes_of_fresh _ (builds_binary _ _ _)
  · exact builds_pure_passes v
  · exact builds_mask _ _

theorem builds_shared_bind {β : Type} {x : Gen Nat} {f : Nat → Gen β} {R : FnState → β → FnState → Prop}
    (hx : Builds (fun _ => True) x fun _ a c' => a ∈ c'.shared)
    (hf : ∀ a, Builds (fun c => a ∈ c.shared) (f a) R)
    (hR : ∀ c c₁ b c', Stretch c c₁ → R c₁ b c' → R c b c') : Builds (fun _ => True) (x >>= f) R :=
  hx.bind hf (fun _ _ _ _ _ h => h) fun _ _ _ _ _ _ h₁ _ _ hr => hR _ _ _ _ h₁ hr

theorem builds_binaryOperation (op : BinaryOp) (l r : Value) (t : TypeName) (node : Nat) :
    Builds (fun _ => True) (binaryOperation op l r t node) fun c w c' => FreshIn c c' w := by
  unfold binaryOperation
  dsimp only
  split
  · rename_i ir _
    -- the operation itself, after the check for a zero divisor if there is one
    have hop : Builds (fun _ => True) (binary ir l r >>= fun result =>
        if op.mayOverflow = true then mask result t else Pure.pure result) fun c w c' => FreshIn c c' w :=
      (builds_binary _ _ _).pass fun _ => Builds.ite (fun _ => builds_mask _ _) fun _ => builds_pure_passes _
    have hcheck : ∀ isZero, Builds (fun _ => True) (assertFailBlock >>= fun fail =>
        failIf isZero fail "div.ok" >>= fun _ => binary ir l r >>= fun result =>
          if op.mayOverflow = true then mask result t else Pure.pure result) fun c w c' => FreshIn c c' w :=
      fun isZero => builds_shared_bind builds_assertFailBlock
        (fun fail => (builds_failIf isZero fail _).fresh fun _ => hop) fun _ _ _ _ h₁ hw => hw.left h₁.counts
    refine Builds.fnFixed_bind fnFixed_read fun _ => Builds.ite (fun _ => ?_) fun _ => hop
    split
    · exact (Builds.pure (Q := fun _ _ _ => True) fun _ _ => trivial).fresh hcheck
    · exact (builds_unary _ _).fresh hcheck
  · exact Builds.throw

theorem builds_emitUnit_of_results (i : Instr) (hi : i.results = []) :
    Builds (fun _ => True) (emitUnit i) fun _ _ _ => True :=
  (builds_emitUnit i).pre fun _ _ y hy => by rw [hi] at hy; cases hy

theorem builds_offset (base by_ : Value) :
    Builds (fun _ => True) (offset base by_) fun c w c' => PassedOn c c' base w := by
  unfold offset
  split
  · exact builds_pure_passes _
  · exact builds_passes_of_fresh _ (builds_pure_const _)
  · exact builds_passes_of_fresh _ (builds_binary _ _ _)

theorem builds_scale (index : Value) (size : Nat) :
    Builds (fun _ => True) (scale index size) fun c w c' => PassedOn c c' index w := by
  unfold scale
  refine Builds.ite (fun _ => builds_pure_passes _) fun _ => ?_
  split
  · exact builds_passes_of_fresh _ (builds_pure_const _)
  · exact builds_passes_of_fresh _ (builds_binary _ _ _)

theorem builds_checkBounds (index length : Value) :
    Builds (fun _ => True) (checkBounds index length) fun _ _ _ => True := by
  unfold checkBounds
  dsimp only
  refine Builds.fnFixed_bind fnFixed_read fun _ => Builds.ite
      (fun _ => Builds.pure fun _ _ => trivial) fun _ => ?_
  have hfail : ∀ outOfRange, Builds (fun _ => True)
      (assertFailBlock >>= fun fail => failIf outOfRange fail "index.ok") fun _ _ _ => True :=
    fun _ => builds_shared_bind builds_assertFailBlock (fun fail => builds_failIf _ fail _)
        fun _ _ _ _ _ h => h
  split
  · exact (Builds.pure (Q := fun _ _ _ => True) fun _ _ => trivial).skip hfail
  · exact (builds_binary _ _ _).skip hfail

theorem builds_storageElementSlot (base : Value) (array : TypeName) (index : Value) (node : Nat) :
    Builds (fun _ => True) (storageElementSlot base array index node) fun c w c' => PassedOn c c' base w := by
  unfold storageElementSlot
  dsimp only
  split
  · refine Builds.fnFixed_bind (fnFixed_storageSize _ node) fun size => ?_
    -- the elements start at the base, or at the data slot of a dynamic array
    have hrest : ∀ start, Builds (fun _ => True)
        (scale index size >>= fun scaled => offset start scaled) fun c w c' => PassedOn c c' start w :=
      fun start => (builds_scale _ _).andThen (fun _ => builds_offset _ _) fun _ _ _ _ _ h₁ _ _ hw =>
        hw.left h₁.counts
    split
    · exact (builds_checkBounds _ _).andThen (fun _ => Builds.pure_then (hrest base))
        fun _ _ _ _ _ h₁ _ _ hw => hw.left h₁.counts
    · refine (builds_emit _ fun _ => rfl).andThen (T := fun _ c₁ w c' => PassedOn c₁ c' base w) (fun _ => ?_)
        fun _ _ _ _ _ h₁ _ _ hw => hw.left h₁.counts
      exact (builds_checkBounds _ _).andThen (fun _ => (builds_emit _ fun _ => rfl).pass hrest)
        fun _ _ _ _ _ h₁ _ _ hw => .inr (hw.left h₁.counts)
  · exact Builds.throw

theorem builds_memoryElementAddress (ptr index : Value) :
    Builds (fun _ => True) (memoryElementAddress ptr index) fun _ _ _ => True :=
  (builds_emit _ fun _ => rfl).skip fun _ => (builds_checkBounds _ _).skip fun _ =>
    (builds_offset _ _).skip fun _ => (builds_offset _ _).post fun _ _ _ _ => trivial

theorem builds_load (p : Place) : Builds (fun _ => True) (load p) fun c w c' => Loaded c c' p w := by
  cases p with
  | register x t => exact (builds_emit _ fun _ => rfl).post fun _ _ _ h => .inl h
  | memory a t => exact (builds_emit _ fun _ => rfl).post fun _ _ _ h => .inl h
  | storage s t =>
    exact Builds.ite (fun _ => (builds_emit _ fun _ => rfl).post fun _ _ _ h => .inl h)
      fun _ => Builds.pure fun _ _ => .inr ⟨t, rfl⟩

theorem builds_prepareValue (v : Value) (src dst : TypeName) (node : Nat) :
    Builds (fun _ => True) (prepareValue v src dst node) fun c w c' => PassedOn c c' v w := by
  unfold prepareValue
  exact Builds.ite (fun _ => Builds.fnFixed_bind (fnFixed_irType _ _) fun _ =>
      builds_passes_of_fresh _ (builds_emit _ fun _ => rfl))
    fun _ => Builds.ite (fun _ => builds_convert _ _ _) fun _ => builds_pure_passes _

theorem builds_assign_variable {x : Value} (v : Value) :
    Builds (fun c => ∃ u, c.lookup u = some x) (emitUnit (.assign x v)) fun _ _ _ => True :=
  (builds_emitUnit _).pre fun _ ⟨u, hu⟩ y hy => ⟨u, by rw [hu, List.mem_singleton.mp hy]⟩

theorem builds_store (p : Place) (v : Value) (src : TypeName) (node : Nat) :
    Builds (fun c => p.OfVariable c) (store p v src node) fun _ _ _ => True := by
  cases p with
  | register x t =>
    exact ((builds_prepareValue _ _ _ _).pre fun _ _ => trivial).bind
        (S := fun _ c => ∃ u, c.lookup u = some x)
      (fun _ => builds_assign_variable _) (fun _ _ _ hx hst _ => (Place.OfVariable.extend hx hst.counts :))
      fun _ _ _ _ _ _ _ _ _ _ => trivial
  | memory a t =>
    exact ((builds_prepareValue _ _ _ _).pre fun _ _ => trivial).skip fun _ =>
      builds_emitUnit_of_results _ rfl
  | storage s t =>
    refine (Builds.ite (fun _ => (builds_convert _ _ _).skip fun _ => builds_emitUnit_of_results _ rfl)
      fun _ => Builds.fnFixed_bind (fnFixed_irType _ _) fun _ => Builds.ite
        (fun _ => builds_emitUnit_of_results _ rfl) fun _ => Builds.ite
          (fun _ => builds_emitUnit_of_results _ rfl) fun _ => Builds.throw).pre fun _ _ => trivial

section Defaults

variable {fuel : Nat}
  (hv : ∀ t node, Builds (fun _ => True) (defaultValueWith fuel t node) fun c w c' => FreshIn c c' w)
include hv

theorem builds_defaultMembers (ptr : Value) (node : Nat) :
    ∀ (ms : List TypeName) (i : Nat), Builds (fun _ => True) (defaultMembers fuel ptr node i ms)
    fun _ _ _ => True
  | [], i => by
    rw [defaultMembers]
    exact Builds.pure fun _ _ => trivial
  | m :: ms, i => by
    have ih := builds_defaultMembers ptr node ms (i + 1)
    rw [defaultMembers]
    dsimp only
    exact Builds.ite (fun _ => (hv m node).skip fun _ => (builds_binary _ _ _).skip fun _ =>
      (builds_emitUnit_of_results _ rfl).skip fun _ => ih) fun _ => ih

theorem builds_defaultElements (ptr : Value) (base : TypeName) (node : Nat) :
    ∀ (n i : Nat), Builds (fun _ => True) (defaultElements fuel ptr base node i n) fun _ _ _ => True
  | 0, i => by
    rw [defaultElements]
    exact Builds.pure fun _ _ => trivial
  | n + 1, i => by
    rw [defaultElements]
    exact (hv base node).skip fun _ => (builds_binary _ _ _).skip fun _ =>
      (builds_emitUnit_of_results _ rfl).skip fun _ => builds_defaultElements ptr base node n (i + 1)

end Defaults

theorem builds_defaultValueWith : ∀ (fuel : Nat) (t : TypeName) (node : Nat),
    Builds (fun _ => True) (defaultValueWith fuel t node) fun c w c' => FreshIn c c' w
  | 0, t, node => by
    rw [defaultValueWith]
    exact Builds.throw
  | fuel + 1, t, node => by
    have hv := builds_defaultValueWith fuel
    unfold defaultValueWith
    split
    · exact builds_pure_const _
    · exact Builds.fnFixed_bind (fnFixed_structDef _) fun _ => (builds_emit _ fun _ => rfl).pass fun ptr =>
        (builds_defaultMembers hv _ node _ 0).andThen (fun _ => builds_pure_passes ptr)
          fun _ _ _ _ _ h₁ _ _ hw => hw.left h₁.counts
    · rename_i base length
      dsimp only
      -- the length cell when the length is fixed, then the elements when they live in memory
      have hrest : ∀ ptr, Builds (fun _ => True) (if base.isInMemory = true then
          defaultElements fuel ptr base node 1 (length.getD 0) >>= fun _ => Pure.pure ptr else Pure.pure ptr)
          fun c w c' => PassedOn c c' ptr w := fun ptr =>
        Builds.ite (fun _ => (builds_defaultElements hv _ _ node _ 1).andThen
            (fun _ => builds_pure_passes ptr)
          fun _ _ _ _ _ h₁ _ _ hw => hw.left h₁.counts) fun _ => builds_pure_passes ptr
      exact (builds_emit _ fun _ => rfl).pass fun ptr => Builds.ite (fun _ =>
        (builds_emitUnit_of_results _ rfl).andThen (fun _ => hrest ptr) fun _ _ _ _ _ h₁ _ _ hw =>
            hw.left h₁.counts)
        fun _ => hrest ptr
    · exact builds_pure_const _

theorem builds_defaultValue (t : TypeName) (node : Nat) :
    Builds (fun _ => True) (defaultValue t node) fun c w c' => FreshIn c c' w :=
  Builds.fnFixed_bind fnFixed_unit fun _ => builds_defaultValueWith _ t node

theorem builds_delete (p : Place) (node : Nat) :
    Builds (fun c => p.OfVariable c) (delete p node) fun _ _ _ => True := by
  unfold delete
  split
  · exact Builds.throw
  · exact (Builds.ite (fun _ => Builds.fnFixed_bind (fnFixed_irType _ _) fun _ =>
      builds_emitUnit_of_results _ rfl)
      fun _ => (builds_defaultValue _ _).skip fun _ =>
          builds_emitUnit_of_results _ rfl).pre fun _ _ => trivial
  · exact ((builds_defaultValue _ _).pre fun _ _ => trivial).bind (S := fun _ c => ∃ u, c.lookup u = some _)
      (fun _ => builds_assign_variable _) (fun _ _ _ hx hst _ => (Place.OfVariable.extend hx hst.counts :))
      fun _ _ _ _ _ _ _ _ _ _ => trivial
  · exact ((builds_defaultValue _ _).pre fun _ _ => trivial).skip fun _ => builds_emitUnit_of_results _ rfl

theorem Loaded.right {p : Place} (h : Loaded c c₁ p w) (he : Counts c₁ c') : Loaded c c' p w :=
  h.imp_left fun h => h.right he

theorem builds_update (p : Place) (op : BinaryOp) (rhs : Value) (rhsTy : TypeName) (node : Nat) :
    Builds (fun c => p.OfVariable c) (update p op rhs rhsTy node)
      fun c r c' => Loaded c c' p r.1 ∧ FreshIn c c' r.2 := by
  unfold update
  dsimp only
  -- after the load and the conversion: the operation, the store back, and the pair
  have hrest : ∀ old rhs', Builds (fun c => p.OfVariable c)
      (binaryOperation op old rhs' p.ty node >>= fun new => store p new p.ty node >>= fun _ =>
        Pure.pure (old, new)) fun c r c' => r.1 = old ∧ FreshIn c c' r.2 := fun old rhs' =>
    ((builds_binaryOperation _ _ _ _ _).pre fun _ _ => trivial).bind (S := fun _ c => p.OfVariable c)
      (fun new => (builds_store _ _ _ _).andThen (fun _ => Builds.pure (Q := fun _ r _ => r = (old, new))
        fun _ _ => rfl) fun _ _ _ _ _ _ _ _ h => h)
      (fun _ _ _ hx hst _ => hx.extend hst.counts)
      fun _ _ _ _ _ _ _ hnew h₂ hr => by subst hr; exact ⟨rfl, hnew.right h₂.counts⟩
  refine ((builds_load p).pre fun _ _ => trivial).bind (S := fun _ c => p.OfVariable c)
    (T := fun old c₁ r c' => r.1 = old ∧ FreshIn c₁ c' r.2) (fun old => ?_)
    (fun _ _ _ hx hst _ => hx.extend hst.counts)
    fun _ _ _ _ _ _ h₁ hl h₂ hr => ⟨hr.1 ▸ Loaded.right hl h₂.counts, hr.2.left h₁.counts⟩
  exact Builds.ite (fun _ => Builds.pure_then (hrest old rhs)) fun _ =>
    ((builds_convert _ _ _).pre fun _ _ => trivial).bind (S := fun _ c => p.OfVariable c) (hrest old)
      (fun _ _ _ hx hst _ => hx.extend hst.counts)
      fun _ _ _ _ _ _ h₁ _ _ hr => ⟨hr.1, hr.2.left h₁.counts⟩

end Gen

end ContractCfg.Lower
