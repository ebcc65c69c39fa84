import ContractCfg.Proofs.Stretch.Values
import ContractCfg.Proofs.Machine.Fresh

/-!
Code that writes no storage. Besides the code of its operands, lowering an expression emits
conversions, offsets, allocations and copies into memory, register copies, and branches: none of
them stores into storage or calls a function. Such code is calm: every run of it gets to its
end with storage as it was, or ends the call. The instructions that may write storage are the
stores, the copies into storage and the calls; a copy out of storage only allocates and writes
memory.
-/

namespace ContractCfg.IR

/-- Whether an instruction may write storage: a store, a copy into storage, or a call, which runs
other code. -/
def Instr.writesStorage : Instr → Bool
  | .storageStore .. | .copyStorageToStorage .. | .copyMemoryToStorage .. | .call .. => true
  | _ => false

end ContractCfg.IR

namespace ContractCfg.Machine

open ContractCfg.IR

theorem State.mstore_storage {st st' : State} {a v : Int} (h : st.mstore a v = .ok st') :
    st'.storage = st.storage := by
  unfold State.mstore at h
  cases hc : st.cellIndex a with
  | error e => rw [hc] at h; cases h
  | ok i => rw [hc] at h; cases h; rfl

theorem Vm.tick_state {vm vm' : Vm} (h : vm.tick = .ok vm') : vm'.state = vm.state := by
  unfold Vm.tick at h
  split at h
  · cases h
  · cases h; rfl

theorem Vm.builtin_state {vm vm' : Vm} {f : Builtin} {args : List Int} {v : Option Int}
    (h : vm.builtin f args = .ok (v, vm')) : vm'.state = vm.state := by
  cases f <;> simp only [Vm.builtin, bind_eq_ok, pure, Except.pure, Except.ok.injEq, Prod.mk.injEq] at h
  all_goals grind

theorem foldlM_invariant {α : Type} {f : State → α → Except Fault State} {I : State → Prop}
    (hf : ∀ a st st', I st → f st a = .ok st' → I st') :
    ∀ {xs : List α} {st st' : State}, I st → xs.foldlM f st = .ok st' → I st'
  | [], _, _, hst, h => by cases h; exact hst
  | a :: rest, st, st', hst, h => by
    rw [List.foldlM_cons] at h
    obtain ⟨st₁, h₁, h⟩ := bind_eq_ok.mp h
    exact foldlM_invariant hf (hf a st st₁ hst h₁) h

theorem copies_out_keep_storage (reg : TypeRegistry) : ∀ fuel,
    (∀ st s t q st', copyStorageToMemory reg fuel st s t = .ok (q, st') → st'.storage = st.storage) ∧
    (∀ st first len size e q st', copyElements reg fuel st first len size e = .ok (q, st') →
      st'.storage = st.storage)
  | 0 => ⟨fun _ _ _ _ _ h => (by cases h), fun _ _ _ _ _ _ _ h => (by cases h)⟩
  | fuel + 1 => by
    obtain ⟨ih, ihe⟩ := copies_out_keep_storage reg fuel
    -- one part: a copy one level down, then the store of its pointer
    have hpart : ∀ (src ptr : Int) (t : Ty) (st st' : State),
        (copyStorageToMemory reg fuel st src t >>= fun r => r.2.mstore ptr r.1) = Except.ok st' →
          st'.storage = st.storage := by
      intro src ptr t st st' h
      obtain ⟨⟨cell, st₁⟩, h₁, h⟩ := bind_eq_ok.mp h
      exact (State.mstore_storage h).trans (ih _ _ _ _ _ h₁)
    refine ⟨fun st s t q st' h => ?_, fun st first len size e q st' h => ?_⟩
    · rcases Ty.layout_cases t with ⟨_, _, rfl⟩ | ⟨id, rfl⟩ | ⟨e, n, rfl⟩ | ⟨e, rfl⟩ | ht
      · simp only [copyStorageToMemory] at h
        obtain ⟨-, rfl⟩ := Prod.mk.inj (Except.ok.inj h)
        rfl
      · simp only [copyStorageToMemory] at h
        cases hd : reg.get? id with
        | none => simp only [hd] at h; cases h
        | some d =>
        simp only [hd] at h
        obtain ⟨⟨ptr, st₁⟩, hal, h⟩ := bind_eq_ok.mp h
        obtain ⟨fs, -, h⟩ := bind_eq_ok.mp h
        obtain ⟨st₂, hfold, h⟩ := bind_eq_ok.mp h
        obtain ⟨-, rfl⟩ := Prod.mk.inj (Except.ok.inj h)
        refine (foldlM_invariant (I := fun st => st.storage = st₁.storage) ?_ rfl hfold).trans
          (State.allocate_ok hal).2.1
        rintro ⟨i, off, ft⟩ st₃ st₄ h₃ h₄
        exact (hpart _ _ _ _ _ h₄).trans h₃
      · simp only [copyStorageToMemory] at h
        obtain ⟨size, -, h⟩ := bind_eq_ok.mp h
        exact ihe _ _ _ _ _ _ _ h
      · simp only [copyStorageToMemory] at h
        obtain ⟨len, -, h⟩ := bind_eq_ok.mp h
        obtain ⟨size, -, h⟩ := bind_eq_ok.mp h
        exact ihe _ _ _ _ _ _ _ h
      · have hc : copyStorageToMemory reg (fuel + 1) st s t = .ok (st.sload s, st) := by
          cases t <;> first | rfl | cases ht
        rw [hc] at h
        obtain ⟨-, rfl⟩ := Prod.mk.inj (Except.ok.inj h)
        rfl
    · simp only [copyElements] at h
      obtain ⟨⟨ptr, st₁⟩, hal, h⟩ := bind_eq_ok.mp h
      obtain ⟨st₂, hst, h⟩ := bind_eq_ok.mp h
      obtain ⟨st₃, hrange, h⟩ := bind_eq_ok.mp h
      obtain ⟨-, rfl⟩ := Prod.mk.inj (Except.ok.inj h)
      rw [forRange_eq_foldlM] at hrange
      refine (foldlM_invariant (I := fun st => st.storage = st₂.storage) ?_ rfl hrange).trans
        ((State.mstore_storage hst).trans (State.allocate_ok hal).2.1)
      intro i st₄ st₅ h₄ h₅
      exact (hpart _ _ _ _ _ h₅).trans h₄

theorem Vm.step_storage {vm vm' : Vm} {ls ls' : Locals} {i : Instr} (hi : i.writesStorage = false)
    (h : Vm.step vm ls i = .ok (vm', ls')) : vm'.state.storage = vm.state.storage := by
  cases i <;> simp only [Instr.writesStorage, Bool.true_eq_false] at hi <;>
    simp only [Vm.step, bind_eq_ok, pure, Except.pure, Except.ok.injEq, Prod.mk.injEq] at h
  case memoryStore =>
    obtain ⟨_, -, _, -, st, hst, rfl, -⟩ := h
    exact State.mstore_storage hst
  case allocate =>
    obtain ⟨_, -, ⟨p, st⟩, hst, _, -, rfl, -⟩ := h
    exact (State.allocate_ok hst).2.1
  case copyStorageToMemory =>
    obtain ⟨_, -, ⟨p, st⟩, hst, _, -, rfl, -⟩ := h
    exact (copies_out_keep_storage _ _).1 _ _ _ _ _ hst
  case builtin =>
    obtain ⟨_, -, ⟨v, vm₁⟩, hb, h⟩ := h
    have hvm : vm₁ = vm' := by
      split at h
      · obtain ⟨_, -, h⟩ := bind_eq_ok.mp h
        exact (Prod.mk.inj (Except.ok.inj h)).1
      · exact (Prod.mk.inj (Except.ok.inj h)).1
    rw [← hvm, Vm.builtin_state hb]
  case callExternal | create => cases h
  -- the other instructions give the machine back as it was
  all_goals grind

end ContractCfg.Machine

namespace ContractCfg.Machine.Vm.Exit

open ContractCfg.IR

/-- A run that got to the end left storage as it was in `vm`. -/
def Still (vm : Vm) : Exit → Prop
  | .reach vm' _ _ => vm'.state.storage = vm.state.storage
  | .stop _ => True

theorem Still.bind {vm : Vm} {x : Exit} {g : Vm → Locals → Nat → Exit} (hx : x.Still vm)
    (hg : ∀ vm₁ ls₁ fuel₁, x = .reach vm₁ ls₁ fuel₁ → (g vm₁ ls₁ fuel₁).Still vm₁) : (x.bind g).Still vm := by
  cases x with
  | reach vm₁ ls₁ fuel₁ =>
    show (g vm₁ ls₁ fuel₁).Still vm
    have hg₁ := hg vm₁ ls₁ fuel₁ rfl
    cases hgx : g vm₁ ls₁ fuel₁ with
    | reach vm₂ ls₂ fuel₂ =>
      rw [hgx] at hg₁
      exact hg₁.trans hx
    | stop r => trivial
  | stop r => trivial

theorem instr_still (vm : Vm) (ls : Locals) (fuel : Nat) {i : Instr} (hi : i.writesStorage = false) :
    (Exit.instr vm ls fuel i).Still vm := by
  unfold instr
  cases ht : vm.tick with
  | error e => trivial
  | ok vm₁ =>
    cases i
    case call => cases hi
    all_goals
      simp only
      rcases hs : step vm₁ ls _ with e | ⟨vm₂, ls₂⟩
      · trivial
      · exact (step_storage hi hs).trans (congrArg State.storage (tick_state ht))

end ContractCfg.Machine.Vm.Exit

namespace ContractCfg.Lower

open ContractCfg.IR ContractCfg.IR.FnBuilder ContractCfg.Machine ContractCfg.Machine.Vm
open ContractCfg.Source (TypeName)

variable {c c₁ c₂ c' : FnState}

/-- The code between `c` and `c'` writes no storage: the state extends, and every run of the code
gets to the end of it with storage as it was, or ends the call. -/
structure Calm (c c' : FnState) : Prop where
  grows : Extends c c'
  still : ∀ vm ls fuel, ∃ x, Crosses c.builder c'.builder vm ls fuel x ∧ x.Still vm

namespace Calm

theorem stay (he : Extends c c') (hc : c'.builder.current = c.builder.current)
    (hp : c'.builder.pos = c.builder.pos) : Calm c c' :=
  ⟨he, fun vm _ _ => ⟨_, Crosses.stay hc hp, (rfl : vm.state.storage = vm.state.storage)⟩⟩

theorem refl (c : FnState) : Calm c c := stay (Extends.refl c) rfl rfl

theorem trans (h₁ : Calm c c₁) (hp : Poised c₁) (h₂ : Calm c₁ c₂) : Calm c c₂ := by
  refine ⟨h₁.grows.trans h₂.grows, fun vm ls fuel => ?_⟩
  obtain ⟨x, hx, hs⟩ := h₁.still vm ls fuel
  -- the second stretch from wherever the first one ends
  let g : Vm → Locals → Nat → Exit := fun vm₁ ls₁ fuel₁ => Classical.choose (h₂.still vm₁ ls₁ fuel₁)
  have hg : ∀ vm₁ ls₁ fuel₁, Crosses c₁.builder c₂.builder vm₁ ls₁ fuel₁ (g vm₁ ls₁ fuel₁) ∧
      (g vm₁ ls₁ fuel₁).Still vm₁ :=
    fun vm₁ ls₁ fuel₁ => Classical.choose_spec (h₂.still vm₁ ls₁ fuel₁)
  exact ⟨x.bind g, hx.trans (fun _ => hp.completes h₂.grows) fun vm₁ ls₁ fuel₁ _ => (hg vm₁ ls₁ fuel₁).1,
    hs.bind fun vm₁ ls₁ fuel₁ _ => (hg vm₁ ls₁ fuel₁).2⟩

end Calm

/-- Lowering code whose code writes no storage: run from a poised state, it ends poised and the
code it lowers is calm. -/
def Calmly {α : Type} (m : Gen α) : Prop :=
  ∀ env s a s', Poised s.fn → m env s = .ok (a, s') → Poised s'.fn ∧ Calm s.fn s'.fn

namespace Calmly

variable {α β : Type}

theorem pure (a : α) : Calmly (Pure.pure a : Gen α) := by
  intro env s b s' hp hrun
  cases hrun
  exact ⟨hp, Calm.refl _⟩

theorem bind {x : Gen α} {f : α → Gen β} (hx : Calmly x) (hf : ∀ a, Calmly (f a)) : Calmly (x >>= f) := by
  intro env s b s' hp hrun
  obtain ⟨a, s₁, h₁, h₂⟩ := Gen.bind_ok hrun
  obtain ⟨hp₁, hc₁⟩ := hx env s a s₁ hp h₁
  obtain ⟨hp', hc₂⟩ := hf a env s₁ b s' hp₁ h₂
  exact ⟨hp', hc₁.trans hp₁ hc₂⟩

theorem throw (e : LowerError) : Calmly (MonadExcept.throw e : Gen α) := by
  intro env s a s' _ hrun
  cases hrun

theorem ite {p : Prop} {h : Decidable p} {x y : Gen α} (hx : p → Calmly x) (hy : ¬ p → Calmly y) :
    Calmly (if p then x else y) := by
  by_cases hc : p
  · rw [if_pos hc]; exact hx hc
  · rw [if_neg hc]; exact hy hc

theorem of_fnFixed {m : Gen α} (h : FnFixed m) : Calmly m := by
  intro env s a s' hp hrun
  have hfn : s'.fn = s.fn := by
    have := h s.fn env s rfl
    rw [hrun] at this
    exact this
  rw [hfn]
  exact ⟨hp, Calm.refl _⟩

end Calmly

namespace Gen

variable {env : Env} {s s' : GenState}

theorem calmly_emit (mk : Value → Instr) (hmk : ∀ v, (mk v).writesStorage = false) : Calmly (emit mk) := by
  intro env s v s' hp h
  obtain ⟨hp', he, -, hx⟩ := emit_stretch hp h
  exact ⟨hp', he, fun vm ls fuel => ⟨_, hx vm ls fuel, Exit.instr_still vm ls fuel (hmk v)⟩⟩

theorem calmly_emitUnit (i : Instr) (hi : i.writesStorage = false) : Calmly (emitUnit i) := by
  intro env s u s' hp h
  obtain ⟨rfl, hp', he, -⟩ := emitUnit_stretch hp h
  obtain ⟨blk, hb, -⟩ := hp.isOpen
  exact ⟨hp', he, fun vm ls fuel => ⟨_, Crosses.push hb i, Exit.instr_still vm ls fuel hi⟩⟩

theorem calmly_binary (op : BinOp) (l r : Value) : Calmly (binary op l r) :=
  calmly_emit _ fun _ => rfl

theorem calmly_unary (op : UnOp) (v : Value) : Calmly (unary op v) :=
  calmly_emit _ fun _ => rfl

theorem calmly_mask (v : Value) (t : TypeName) : Calmly (mask v t) := by
  unfold mask
  split
  · exact Calmly.pure v
  · split
    · exact Calmly.pure _
    · exact Calmly.ite (fun _ => calmly_emit _ fun _ => rfl) fun _ => calmly_emit _ fun _ => rfl

theorem calmly_convert (v : Value) (src dst : TypeName) : Calmly (convert v src dst) := by
  unfold convert
  refine Calmly.ite (fun _ => Calmly.pure v) fun _ => ?_
  split
  · exact Calmly.ite (fun _ => calmly_binary _ _ _) fun _ => calmly_binary _ _ _
  · exact Calmly.pure v
  · exact calmly_mask _ _

theorem calmly_offset (base by_ : Value) : Calmly (offset base by_) := by
  unfold offset
  split
  · exact Calmly.pure _
  · exact Calmly.pure _
  · exact calmly_binary _ _ _

theorem calmly_prepareValue (v : Value) (src dst : TypeName) (node : Nat) :
    Calmly (prepareValue v src dst node) := by
  unfold prepareValue
  exact Calmly.ite (fun _ => (Calmly.of_fnFixed (fnFixed_irType _ _)).bind fun _ =>
      calmly_emit _ fun _ => rfl)
    fun _ => Calmly.ite (fun _ => calmly_convert _ _ _) fun _ => Calmly.pure v

theorem calmly_freshLocal {base : String} (hb : GoodName base) : Calmly (freshLocal base) := by
  intro env s v s' hp h
  obtain ⟨hp', hst, -⟩ := builds_freshLocal hb env s v s' hp trivial h
  refine ⟨hp', Calm.stay hst.grows ?_ ?_⟩
  all_goals
    unfold freshLocal at h
    obtain ⟨x, s₁, h₁, h₂⟩ := Gen.bind_ok h
    cases h₂
    rw [freshName_run] at h₁
    cases h₁
    rfl

theorem calmly_createBlock (label : String) : Calmly (createBlock label) := by
  intro env s k s' hp h
  obtain ⟨-, rfl, hp', hst⟩ := createBlock_stretch label hp h
  exact ⟨hp', Calm.stay hst.grows rfl (pos_createBlock hp.below hp.isOpen label)⟩

end Gen

end ContractCfg.Lower
