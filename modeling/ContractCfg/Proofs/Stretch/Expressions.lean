import ContractCfg.Proofs.Stretch.Forks

/-!
The code of every expression is a stretch. The lowering of calls, operators, assignments,
places and builtins builds whenever the evaluators it calls back into build (`EvalBuilds`), and
the evaluators build at every fuel, by induction on the fuel. An external call or a creation is
an instruction the machine does not run: every run of its code ends the call there, so the
check of its status, which writes the shared status register, is never reached.
-/

namespace ContractCfg.Machine.Vm

open ContractCfg.IR

/-- An instruction every run of which ends the call. -/
def Halts (i : Instr) : Prop := ∀ vm ls fuel, ∃ r, Exit.instr vm ls fuel i = .stop r

theorem halts_callExternal (status : Value) (rs : List Value) (address : Value) (sig : String)
    (args : List Value) (amount gas : Value) :
    Halts (.callExternal status rs address sig args amount gas) := by
  intro vm ls fuel
  unfold Exit.instr
  cases vm.tick with
  | error e => exact ⟨_, rfl⟩
  | ok vm₁ => exact ⟨_, rfl⟩

theorem halts_create (status result : Value) (name : String) (args : List Value) (amount : Value) :
    Halts (.create status result name args amount) := by
  intro vm ls fuel
  unfold Exit.instr
  cases vm.tick with
  | error e => exact ⟨_, rfl⟩
  | ok vm₁ => exact ⟨_, rfl⟩

end ContractCfg.Machine.Vm

namespace ContractCfg.Lower

open ContractCfg.IR ContractCfg.IR.FnBuilder ContractCfg.Machine ContractCfg.Machine.Vm
open ContractCfg.Source (Expr TypeName BinaryOp UnaryOp CallKind)

variable {c c₁ c' : FnState}

theorem PassedOn.right {v w : Value} (h : PassedOn c c₁ v w) (he : Counts c₁ c') : PassedOn c c' v w :=
  h.imp_right fun h => h.right he

theorem PlaceIn.left {p : Place} (h : PlaceIn c₁ c' p) (he : Counts c c₁) : PlaceIn c c' p := by
  cases p with
  | register x t =>
    obtain ⟨u, hu⟩ := h
    exact ⟨u, by rw [← he.lookup]; exact hu⟩
  | memory => trivial
  | storage s t => exact FreshIn.left (h : FreshIn c₁ c' s) he

theorem Loaded.left {p : Place} {w : Value} (h : Loaded c₁ c' p w) (he : Counts c c₁) : Loaded c c' p w :=
  h.imp_left fun h => h.left he

/-- A place computed from the value `b`: a memory cell, or a storage object at a slot that is `b`
or computed in between. -/
def PlaceFrom (c c' : FnState) (b : Value) : Place → Prop
  | .register _ _ => False
  | .memory _ _ => True
  | .storage slot _ => PassedOn c c' b slot

theorem PlaceFrom.right {b : Value} {p : Place} (h : PlaceFrom c c₁ b p) (he : Counts c₁ c') :
    PlaceFrom c c' b p := by
  cases p with
  | register => exact h.elim
  | memory => trivial
  | storage slot t => exact PassedOn.right (h : PassedOn c c₁ b slot) he

theorem PlaceFrom.left {b : Value} {p : Place} (h : PlaceFrom c₁ c' b p) (he : Counts c c₁) :
    PlaceFrom c c' b p := by
  cases p with
  | register => exact h.elim
  | memory => trivial
  | storage slot t => exact PassedOn.left (h : PassedOn c₁ c' b slot) he

theorem PlaceFrom.placeIn {b : Value} {p : Place} (h : PlaceFrom c₁ c' b p) (hb : FreshIn c c₁ b)
    (h₁ : Counts c c₁)
    (h₂ : Counts c₁ c') : PlaceIn c c' p := by
  cases p with
  | register => exact h.elim
  | memory => trivial
  | storage slot t => exact PassedOn.fresh (h : PassedOn c₁ c' b slot) hb h₁ h₂

theorem freshIn_after_stretch : ∀ c c₁ (vs : List Value) c', Stretch c c₁ →
    (∀ v ∈ vs, FreshIn c₁ c' v) → ∀ v ∈ vs, FreshIn c c' v :=
  fun _ _ _ _ h₁ h v hv => (h v hv).left h₁.counts

namespace Builds

variable {α : Type} {P : FnState → Prop} {Q : FnState → α → FnState → Prop}

theorem freshList {x : Gen α} {f : α → Gen (List Value)} (hx : Builds P x Q)
    (hf : ∀ a, Builds (fun _ => True) (f a) fun c vs c' => ∀ v ∈ vs, FreshIn c c' v) :
    Builds P (x >>= f) fun c vs c' => ∀ v ∈ vs, FreshIn c c' v :=
  hx.andThen hf fun _ _ _ _ _ h₁ _ _ hw v hv => (hw v hv).left h₁.counts

theorem result {β : Type} {x : Gen α} {f : α → Gen β} {R : β → Prop} (hx : Builds P x Q)
    (hf : ∀ a, Builds (fun _ => True) (f a) fun _ b _ => R b) : Builds P (x >>= f) fun _ b _ => R b :=
  hx.andThen hf fun _ _ _ _ _ _ _ _ h => h

theorem pure_eq {a : α} : Builds P (Pure.pure a : Gen α) fun _ b _ => b = a := Builds.pure fun _ _ => rfl

theorem freshValue {x : Gen Value} {f : Value → Gen Value} (hx : Builds P x fun c v c' => FreshIn c c' v)
    (hf : ∀ v, Builds (fun _ => True) (f v) fun _ w _ => w = v) :
    Builds P (x >>= f) fun c w c' => FreshIn c c' w :=
  hx.andThen hf fun _ _ _ _ _ _ hv h₂ hw => hw ▸ hv.right h₂.counts

theorem freshResult {x : Gen Value} {f : Value → Gen (List Value)}
    (hx : Builds P x fun c v c' => FreshIn c c' v)
    (hf : ∀ v, Builds (fun _ => True) (f v) fun _ vs _ => vs = [v]) :
    Builds P (x >>= f) fun c vs c' => ∀ v ∈ vs, FreshIn c c' v :=
  hx.andThen hf fun _ _ _ _ _ _ hv h₂ hvs w hw => by
    subst hvs
    rw [List.mem_singleton.mp hw]
    exact hv.right h₂.counts

theorem singleton {m : Gen Value} (h : Builds P m fun c v c' => FreshIn c c' v) :
    Builds P (m >>= fun v => Pure.pure [v]) fun c vs c' => ∀ v ∈ vs, FreshIn c c' v :=
  h.freshResult fun _ => pure_eq

theorem nil {m : Gen α} (h : Builds P m Q) :
    Builds P (m >>= fun _ => Pure.pure []) fun c vs c' => ∀ v ∈ vs, FreshIn c c' v :=
  h.andThen (fun _ => Builds.pure (Q := fun _ vs _ => vs = []) fun _ _ => rfl)
    fun _ _ _ _ _ _ _ _ hvs w hw => by subst hvs; cases hw

theorem pure_any {a : α} : Builds P (Pure.pure a : Gen α) fun _ _ _ => True := Builds.pure fun _ _ => trivial

theorem pure_nil : Builds P (Pure.pure [] : Gen (List Value)) fun c vs c' => ∀ v ∈ vs, FreshIn c c' v :=
  Builds.pure fun _ _ _ hv => by cases hv

theorem lift (x : Except LowerError α) (hQ : ∀ c a, P c → Q c a c) : Builds P (x : Gen α) Q := by
  intro env s a s' hp hP hrun
  cases x with
  | error e => cases hrun
  | ok b =>
    simp only [liftM, monadLift, MonadLift.monadLift, StateT.lift] at hrun
    cases hrun
    exact ⟨hp, Stretch.refl _, hQ _ _ hP⟩

theorem passList {x : Gen Value} {f : Value → Gen (List Value)} (hx : Builds P x fun c v c' => FreshIn c c' v)
    (hf : ∀ v, Builds (fun _ => True) (f v) fun c ws c' => ∀ w ∈ ws, PassedOn c c' v w) :
    Builds P (x >>= f) fun c vs c' => ∀ v ∈ vs, FreshIn c c' v :=
  hx.andThen hf fun _ _ _ _ _ h₁ hv h₂ hw w hmem => (hw w hmem).fresh hv h₁.counts h₂.counts

theorem passSingleton {m : Gen Value} {v : Value} (h : Builds P m fun c w c' => PassedOn c c' v w) :
    Builds P (m >>= fun w => Pure.pure [w]) fun c ws c' => ∀ w ∈ ws, PassedOn c c' v w :=
  h.andThen (fun _ => pure_eq) fun _ _ _ _ _ _ hw h₂ hws u hu => by
    subst hws
    rw [List.mem_singleton.mp hu]
    exact hw.right h₂.counts

theorem placed {x : Gen α} {f : α → Gen Place} (hx : Builds P x Q)
    (hf : ∀ a, Builds (fun _ => True) (f a) fun c p c' => PlaceIn c c' p) :
    Builds P (x >>= f) fun c p c' => PlaceIn c c' p :=
  hx.andThen hf fun _ _ _ _ _ h₁ _ _ hp => hp.left h₁.counts

theorem placeOf {x : Gen Value} {f : Value → Gen Place} (hx : Builds P x fun c v c' => FreshIn c c' v)
    (hf : ∀ b, Builds (fun _ => True) (f b) fun c p c' => PlaceFrom c c' b p) :
    Builds P (x >>= f) fun c p c' => PlaceIn c c' p :=
  hx.andThen hf fun _ _ _ _ _ h₁ hb h₂ hp => hp.placeIn hb h₁.counts h₂.counts

theorem inStorage {x : Gen Value} {b : Value} (hx : Builds P x fun c v c' => PassedOn c c' b v)
    (t : TypeName) :
    Builds P (x >>= fun slot => Pure.pure (Place.inStorage slot t)) fun c p c' => PlaceFrom c c' b p :=
  hx.andThen (fun _ => pure_eq) fun _ _ _ _ _ _ hs h₂ hp => by
    subst hp
    exact PassedOn.right hs h₂.counts

theorem placeThen {m : Gen Place} {f : Place → Gen (List Value)}
    (hm : Builds P m fun c p c' => PlaceIn c c' p)
    (hf : ∀ p, Builds (fun c => p.OfVariable c) (f p) fun c vs c' => ∀ w ∈ vs, Loaded c c' p w) :
    Builds P (m >>= f) fun c vs c' => ∀ v ∈ vs, FreshIn c c' v :=
  hm.bind hf (fun _ _ _ _ h₁ hp => hp.ofVariable.extend h₁.counts)
    fun _ _ _ _ _ _ h₁ hp h₂ hvs w hw => (hvs w hw).fresh hp h₁.counts h₂.counts

theorem throw_bind {β : Type} {R : FnState → β → FnState → Prop} {e : LowerError} {f : α → Gen β} :
    Builds P (MonadExcept.throw e >>= f) R := by
  intro env s b s' _ _ hrun
  obtain ⟨_, _, h₁, -⟩ := Gen.bind_ok hrun
  cases h₁

theorem ask_bind {β : Type} {R : FnState → β → FnState → Prop} {f : Env → Except LowerError α}
    {g : α → Gen β} (hg : ∀ a, Builds P (g a) R) : Builds P (Gen.ask f >>= g) R := by
  intro env s b s' hp hP hrun
  obtain ⟨a, s₁, h₁, h₂⟩ := Gen.bind_ok hrun
  obtain rfl : s₁ = s := by
    unfold Gen.ask at h₁
    obtain ⟨e, s₀, h₀, h₁⟩ := Gen.bind_ok h₁
    cases h₀
    cases hx : f env with
    | error err => simp [hx, liftM, monadLift, MonadLift.monadLift, StateT.lift] at h₁
    | ok a' =>
      simp only [hx, liftM, monadLift, MonadLift.monadLift, StateT.lift] at h₁
      cases h₁
      rfl
  exact hg a env s₁ b s' hp hP h₂

theorem lift_bind {β : Type} {R : FnState → β → FnState → Prop} {x : Except LowerError α} {g : α → Gen β}
    (hg : ∀ a, Builds P (g a) R) : Builds P (liftM x >>= g) R := by
  intro env s b s' hp hP hrun
  obtain ⟨a, s₁, h₁, h₂⟩ := Gen.bind_ok hrun
  obtain rfl : s₁ = s := by
    cases x with
    | error err => cases h₁
    | ok a' =>
      simp only [liftM, monadLift, MonadLift.monadLift, StateT.lift] at h₁
      cases h₁
      rfl
  exact hg a env s₁ b s' hp hP h₂

theorem forIn_mem {β : Type} {xs : List α} {f : α → β → Gen (ForInStep β)} {I : β → FnState → Prop}
    (hf : ∀ a ∈ xs, ∀ b, Builds (I b) (f a b) fun _ r c' => I r.value c') (init : β) :
    Builds (I init) (ForIn.forIn xs init f) fun _ b c' => I b c' := by
  induction xs generalizing init with
  | nil => exact Builds.pure fun _ h => h
  | cons x xs ih =>
    rw [List.forIn_cons]
    refine (hf x List.mem_cons_self init).bind (S := fun r c => I r.value c) (fun r => ?_)
      (fun _ _ _ _ _ h => h) fun _ _ _ _ _ _ _ _ _ h => h
    cases r with
    | done b => exact Builds.pure fun _ h => h
    | yield b => exact ih (fun a ha => hf a (List.mem_cons_of_mem _ ha)) b

theorem forInArray_mem {β : Type} {xs : Array α} {f : α → β → Gen (ForInStep β)} {I : β → FnState → Prop}
    (hf : ∀ a ∈ xs, ∀ b, Builds (I b) (f a b) fun _ r c' => I r.value c') (init : β) :
    Builds (I init) (ForIn.forIn xs init f) fun _ b c' => I b c' := by
  rw [← Array.forIn_toList]
  exact forIn_mem (fun a ha => hf a (Array.mem_toList_iff.mp ha)) init

theorem expectArgs_bind {β : Type} {R : FnState → β → FnState → Prop} {node : Nat} {args : List Expr}
    {n : Nat} {g : Unit → Gen β} (hg : Builds P (g ()) R) :
    Builds P (Gen.expectArgs node args n >>= g) R := by
  unfold Gen.expectArgs
  split
  · exact throw_bind
  · exact Builds.pure_then hg

end Builds

namespace Gen

variable {env : Env} {s s' : GenState}

theorem builds_emitMany_halts {n : Nat} {mk : List Value → Instr} (hmk : ∀ rs, Halts (mk rs))
    {f : List Value → Gen (List Value)}
    (hf : ∀ rs env s vs s', Poised s.fn → f rs env s = .ok (vs, s') →
      Poised s'.fn ∧ Extends s.fn s'.fn ∧ ∀ v ∈ vs, v ∈ rs ∨ FreshIn s.fn s'.fn v) :
    Builds (fun _ => True) (emitMany n mk >>= f) fun c vs c' => ∀ v ∈ vs, FreshIn c c' v := by
  intro env s vs s' hp _ h
  obtain ⟨rs, s₁, h₁, h₂⟩ := Gen.bind_ok h
  obtain ⟨hp₁, he₁, hrs, hx⟩ := emitMany_stretch hp h₁
  obtain ⟨hp', he₂, hvs⟩ := hf rs env s₁ vs s' hp₁ h₂
  refine ⟨hp', ⟨he₁.trans he₂, Spans.trans_stop (fun vm ls fuel => ?_) fun f hf => hp₁.completes he₂ hf⟩,
    fun v hv => ?_⟩
  · obtain ⟨r, hr⟩ := hmk rs vm ls fuel
    exact ⟨r, hr ▸ hx vm ls fuel⟩
  · rcases hvs v hv with hv | hv
    · exact (hrs v hv).right he₂.counts
    · exact hv.left he₁.counts

theorem builds_emit_halts {mk : Value → Instr} (hmk : ∀ v, Halts (mk v)) {f : Value → Gen (List Value)}
    (hf : ∀ v env s vs s', Poised s.fn → f v env s = .ok (vs, s') →
      Poised s'.fn ∧ Extends s.fn s'.fn ∧ ∀ w ∈ vs, FreshIn s.fn s'.fn w) :
    Builds (fun _ => True) (emit mk >>= f) fun c vs c' => ∀ v ∈ vs, FreshIn c c' v := by
  intro env s vs s' hp _ h
  obtain ⟨v, s₁, h₁, h₂⟩ := Gen.bind_ok h
  obtain ⟨hp₁, he₁, -, hx⟩ := emit_stretch hp h₁
  obtain ⟨hp', he₂, hvs⟩ := hf v env s₁ vs s' hp₁ h₂
  refine ⟨hp', ⟨he₁.trans he₂, Spans.trans_stop (fun vm ls fuel => ?_) fun f hf => hp₁.completes he₂ hf⟩,
    fun w hw => (hvs w hw).left he₁.counts⟩
  obtain ⟨r, hr⟩ := hmk v vm ls fuel
  exact ⟨r, hr ▸ hx vm ls fuel⟩

theorem leave_stretch {t : Terminator} (ht : t.Leaves) {u u' : Unit} {s₁ : GenState} (hp : Poised s.fn)
    (h₁ : terminate t env s = .ok (u, s₁)) (h₂ : discard (startBlock "unreachable") env s₁ = .ok (u', s')) :
    Poised s'.fn ∧ Extends s.fn s'.fn ∧ ∀ vm ls fuel, ∃ r,
    Crosses s.fn.builder s'.fn.builder vm ls fuel (.stop r) := by
  obtain ⟨blk, hcur, hopen⟩ := hp.isOpen
  have hts : t.successors = [] := by
    rcases ht with rfl | ⟨_, rfl⟩ | ⟨_, rfl⟩ <;> rfl
  rw [terminate_run (by simp [hts]) hcur hopen] at h₁
  cases h₁
  obtain rfl : s' = s.withBuilder (s.fn.builder.closeInto "unreachable" t blk) := by
    have h : startBlock "unreachable" env (s.withBuilder (s.fn.builder.setTerm t blk)) =
        .ok (s.fn.builder.fn.body.nextId, s.withBuilder (s.fn.builder.closeInto "unreachable" t blk)) := by
      rw [startBlock_run]
      simp only [GenState.withBuilder_withBuilder, GenState.withBuilder_builder,
        FnBuilder.setTerm_nextId, FnBuilder.setTerm_createBlock hp.below hcur]
      rfl
    rw [discard_run h] at h₂
    cases h₂
    rfl
  have he : Extends s.fn { s.fn with builder := s.fn.builder.closeInto "unreachable" t blk } :=
    Extends.of_builder (grows_closeInto hp.below hcur ht.ne_invalid (Nat.le_refl _))
  exact ⟨hp.step he (hp.below.closeInto hcur) (IsOpen.closeInto hp.below hcur) hp.names
      fun a ha => .inl ha, he,
    fun vm ls fuel => Crosses.leaves hcur ht fun f hf => hf.closeInto_current ht.ne_invalid⟩

theorem builds_leave {t : Terminator} (ht : t.Leaves) :
    Builds (fun _ => True) (terminate t >>= fun _ => discard (startBlock "unreachable") >>= fun _ =>
      Pure.pure ([] : List Value)) fun c vs c' => ∀ v ∈ vs, FreshIn c c' v := by
  intro env s vs s' hp _ h
  obtain ⟨u, s₁, h₁, h⟩ := Gen.bind_ok h
  obtain ⟨u', s₂, h₂, h⟩ := Gen.bind_ok h
  cases h
  obtain ⟨hp', he, hstop⟩ := leave_stretch ht hp h₁ h₂
  exact ⟨hp', ⟨he, Spans.trans_stop hstop fun _ hf => hf⟩, fun v hv => by cases hv⟩

theorem builds_loadList (p : Place) :
    Builds (fun c => p.OfVariable c) (load p >>= fun w => Pure.pure [w]) fun c vs c' => ∀ w ∈ vs,
    Loaded c c' p w :=
  ((builds_load p).pre fun _ _ => trivial).andThen (fun _ => Builds.pure_eq)
      fun _ _ _ _ _ _ hl h₂ hvs w hw => by
    subst hvs
    rw [List.mem_singleton.mp hw]
    exact Loaded.right hl h₂.counts

theorem builds_variablePlace (e : Expr) (name : String) (v : Nat) :
    Builds (fun _ => True) (variablePlace e name v) fun c p c' => PlaceIn c c' p := by
  unfold variablePlace
  refine Builds.fnFixed_bind (fnFixed_varDecl _) fun d => ?_
  extract_lets register slot
  have hregister : ∀ u, Builds (fun _ => True) (register u) fun c p c' => PlaceIn c c' p := by
    intro u env s p s' hp _ h
    obtain ⟨x, s₁, h₁, h⟩ := Gen.bind_ok h
    rw [lookupVar_run] at h₁
    cases h₁
    cases hx : s.fn.lookup v with
    | none =>
      simp only [hx] at h
      cases h
    | some x =>
      simp only [hx] at h
      cases h
      exact ⟨hp, Stretch.refl _, ⟨v, hx⟩⟩
  have hslot : ∀ u, Builds (fun _ => True) (slot u) fun c p c' => PlaceIn c c' p := fun _ =>
    Builds.ite (fun _ => Builds.fnFixed_bind fnFixed_get fun _ => by
      split
      · exact Builds.pure fun _ _ => FreshIn.ofInt _
      · exact Builds.throw_bind) fun _ => hregister ()
  exact Builds.ite (fun _ => Builds.throw_bind) fun _ => hslot ()

section Routines

variable {ev : Eval} (hev : EvalBuilds ev)
include hev

theorem builds_callArguments (node f : Nat) (args : List Expr) :
    Builds (fun _ => True) (callArguments ev node f args) fun c vs c' => ∀ v ∈ vs, FreshIn c c' v :=
  Builds.fnFixed_bind (fnFixed_functionDef _) fun _ =>
    Builds.expectArgs_bind <|
      Builds.mapM fun ⟨_, _⟩ => Builds.fnFixed_bind (fnFixed_varDecl _) fun _ =>
        (hev.single _).pass fun _ => builds_prepareValue _ _ _ _

theorem builds_internalCall (node target : Nat) (args : List Expr) :
    Builds (fun _ => True) (internalCall ev node target args) fun c vs c' => ∀ v ∈ vs, FreshIn c c' v := by
  unfold internalCall
  refine Builds.fnFixed_bind (fnFixed_functionDef _) fun _ => Builds.ask_bind fun _ =>
      Builds.ask_bind fun _ => ?_
  extract_lets call queue
  -- the call itself, under the name chosen, and the queueing of a qualified copy
  have hcall : ∀ name, Builds (fun _ => True) (call name) fun c vs c' => ∀ v ∈ vs, FreshIn c c' v := fun _ =>
    (builds_callArguments hev _ _ _).freshList fun _ => builds_emitMany _ _ fun _ _ h => h
  have hqueue : ∀ u, Builds (fun _ => True) (queue u) fun c vs c' => ∀ v ∈ vs, FreshIn c c' v := fun _ =>
    Builds.ask_bind hcall
  exact Builds.ite (fun _ => Builds.fnFixed_bind fnFixed_get fun _ =>
      Builds.ite (fun _ => Builds.fnFixed_bind (fnFixed_modifyContract _) hqueue) fun _ => hqueue ())
    fun _ => Builds.ask_bind hcall

theorem builds_staticCall (node c f : Nat) (args : List Expr) :
    Builds (fun _ => True) (staticCall ev node c f args) fun c vs c' => ∀ v ∈ vs, FreshIn c c' v := by
  unfold staticCall
  refine Builds.fnFixed_bind (fnFixed_functionDef _) fun _ =>
      Builds.fnFixed_bind (fnFixed_contractDef _) fun _ =>
    Builds.fnFixed_bind fnFixed_read fun _ => ?_
  extract_lets call checked
  have hchecked : ∀ u, Builds (fun _ => True) (checked u) fun c vs c' => ∀ v ∈ vs, FreshIn c c' v := fun _ =>
    Builds.ite (fun _ => Builds.ask_bind fun _ => Builds.throw_bind) fun _ => builds_internalCall hev _ _ _
  exact Builds.ite (fun _ => Builds.throw_bind) fun _ => hchecked ()

theorem builds_externalCall (node : Nat) (base : Expr) (f : Nat) (args : List Expr)
    (value gas : Option Expr) :
    Builds (fun _ => True) (externalCall ev node base f args value gas)
      fun c vs c' => ∀ v ∈ vs, FreshIn c c' v := by
  unfold externalCall
  refine Builds.fnFixed_bind (fnFixed_functionDef _) fun _ =>
    Builds.fnFixed_bind (FnFixed.anyM fun _ => (fnFixed_varDecl _).bind fun _ => FnFixed.pure _) fun _ => ?_
  extract_lets call
  refine Builds.ite (fun _ => Builds.throw_bind) fun _ => ?_
  refine (hev.single _).freshList fun _ => (builds_callArguments hev _ _ _).freshList fun _ => ?_
  extract_lets withAmount
  have hamount : ∀ amount, Builds (fun _ => True) (withAmount amount)
      fun c vs c' => ∀ v ∈ vs, FreshIn c c' v := by
    intro amount
    dsimp -zeta only [withAmount]
    extract_lets withGas
    -- the call, which the machine does not make, then the check of its status
    have hgas : ∀ g, Builds (fun _ => True) (withGas g) fun c vs c' => ∀ v ∈ vs, FreshIn c c' v := fun _ =>
      Builds.ask_bind fun _ => builds_emitMany_halts (fun _ => halts_callExternal _ _ _ _ _ _ _)
        fun rs env s vs s' hp h => by
          obtain ⟨u, s₁, h₁, h₂⟩ := Gen.bind_ok h
          obtain ⟨hp₁, he₁⟩ := checkStatus_extends hp h₁
          cases h₂
          exact ⟨hp₁, he₁, fun v hv => .inl (List.mem_of_mem_tail hv)⟩
    split
    · exact (hev.single _).freshList hgas
    · exact (builds_context _).freshList hgas
  split
  · exact (hev.single _).freshList hamount
  · exact Builds.pure_any.freshList hamount

theorem builds_transfer (base amount : Expr) (revertOnFailure : Bool) :
    Builds (fun _ => True) (transfer ev base amount revertOnFailure) fun c vs c' => ∀ v ∈ vs,
    FreshIn c c' v :=
  (hev.single _).freshList fun _ => (hev.single _).freshList fun _ =>
    builds_emit_halts (fun _ => halts_callExternal _ _ _ _ _ _ _) fun status env s vs s' hp h => by
      split at h
      · obtain ⟨u, s₁, h₁, h₂⟩ := Gen.bind_ok h
        obtain ⟨hp₁, he₁⟩ := checkStatus_extends hp h₁
        cases h₂
        exact ⟨hp₁, he₁, fun v hv => by cases hv⟩
      · obtain ⟨w, s₁, h₁, h₂⟩ := Gen.bind_ok h
        obtain ⟨hp₁, hst₁, hw⟩ := builds_unary _ _ env s w s₁ hp trivial h₁
        cases h₂
        exact ⟨hp₁, hst₁.grows, fun v hv => by rw [List.mem_singleton.mp hv]; exact hw⟩

theorem builds_create (node c : Nat) (args : List Expr) (value : Option Expr) :
    Builds (fun _ => True) (create ev node c args value) fun c vs c' => ∀ v ∈ vs, FreshIn c c' v := by
  unfold create
  refine Builds.fnFixed_bind (fnFixed_contractDef _) fun _ => Builds.fnFixed_bind fnFixed_read fun _ => ?_
  split
  · refine Builds.expectArgs_bind (Builds.ask_bind fun _ => ?_)
    extract_lets withValues
    have hvalues : ∀ values, Builds (fun _ => True) (withValues values)
        fun c vs c' => ∀ v ∈ vs, FreshIn c c' v := by
      intro values
      dsimp -zeta only [withValues]
      extract_lets withAmount
      -- the creation, which the machine does not make, then the check of its status
      have hamount : ∀ amount, Builds (fun _ => True) (withAmount amount)
          fun c vs c' => ∀ v ∈ vs, FreshIn c c' v := by
        intro amount
        dsimp -zeta only [withAmount]
        refine builds_emitMany_halts (fun _ => halts_create _ _ _ _ _) fun rs env s vs s' hp h => ?_
        obtain ⟨u, s₁, h₁, h⟩ := Gen.bind_ok h
        obtain ⟨hp₁, he₁⟩ := checkStatus_extends hp h₁
        obtain ⟨st, s₂, h₂, h⟩ := Gen.bind_ok h
        cases h₂
        have hvs : vs = [rs.getD 1 .zero] ∧ s'.fn = s₁.fn := by
          split at h
          · obtain ⟨u, s₃, h₃, h⟩ := Gen.bind_ok h
            cases h₃
            cases h
            exact ⟨rfl, rfl⟩
          · cases h
            exact ⟨rfl, rfl⟩
        obtain ⟨rfl, hfn⟩ := hvs
        rw [hfn]
        refine ⟨hp₁, he₁, fun v hv => ?_⟩
        rw [List.mem_singleton.mp hv, List.getD_eq_getElem?_getD]
        cases hr : rs[1]? with
        | none => exact .inr (FreshIn.const _)
        | some w => exact .inl (List.mem_of_getElem? hr)
      split
      · exact (hev.single _).freshList hamount
      · exact Builds.pure_any.freshList hamount
    split
    · exact (builds_callArguments hev _ _ _).freshList hvalues
    · exact Builds.pure_any.freshList hvalues
  · exact Builds.throw

theorem builds_push (node : Nat) (base elem : Expr) :
    Builds (fun _ => True) (push ev node base elem) fun c vs c' => ∀ v ∈ vs, FreshIn c c' v := by
  unfold push
  split
  · -- the new length, given back after the element is stored
    exact (hev.single _).freshList fun _ => (hev.single _).freshList fun _ =>
      (builds_emit _ fun _ => rfl).freshList fun _ => (builds_binary _ _ _).freshResult fun _ =>
        Builds.result (builds_emitUnit_of_results _ rfl) fun _ =>
        Builds.fnFixed_bind (fnFixed_storageSize _ _) fun _ =>
            Builds.result (builds_emit _ fun _ => rfl) fun _ =>
        Builds.result (builds_scale _ _) fun _ => Builds.result (builds_offset _ _) fun _ =>
        Builds.result ((builds_store _ _ _ _).pre fun _ _ => trivial) fun _ => Builds.pure_eq
  · exact Builds.throw

theorem builds_newMemoryArray (t : TypeName) (length : Expr) :
    Builds (fun _ => True) (newMemoryArray ev t length) fun c v c' => FreshIn c c' v := by
  unfold newMemoryArray
  split
  · exact (hev.single _).fresh fun _ => (builds_offset _ _).fresh fun _ =>
      (builds_emit _ fun _ => rfl).freshValue fun _ =>
        Builds.result (builds_emitUnit_of_results _ rfl) fun _ => Builds.pure_eq
  · exact Builds.throw

theorem builds_constructStruct (node id : Nat) (args : List Expr) :
    Builds (fun _ => True) (constructStruct ev node id args) fun c v c' => FreshIn c c' v :=
  Builds.fnFixed_bind (fnFixed_structDef _) fun _ => Builds.expectArgs_bind <|
    (builds_emit _ fun _ => rfl).freshValue fun _ =>
      Builds.result (Builds.forIn (I := fun _ _ => True) (fun ⟨⟨_, _⟩, _⟩ _ => (hev.single _).skip fun _ =>
        (builds_prepareValue _ _ _ _).skip fun _ => (builds_offset _ _).skip fun _ =>
          (builds_emitUnit_of_results _ rfl).skip fun _ => Builds.pure_any) _) fun _ => Builds.pure_eq

theorem builds_hashLike (node : Nat) (args : List Expr) (ir : IR.Builtin) (arity : Option Nat) :
    Builds (fun _ => True) (builtinCall.hashLike ev node args ir arity)
      fun c vs c' => ∀ v ∈ vs, FreshIn c c' v := by
  unfold builtinCall.hashLike
  extract_lets hash
  have hhash : ∀ u, Builds (fun _ => True) (hash u) fun c vs c' => ∀ v ∈ vs, FreshIn c c' v := fun _ =>
    (Builds.mapM fun _ => hev.single _).freshList fun _ => Builds.singleton (builds_emit _ fun _ => rfl)
  split
  · exact Builds.expectArgs_bind (hhash ())
  · exact hhash ()

theorem builds_builtinCall (node : Nat) (b : Source.Builtin) (args : List Expr) :
    Builds (fun _ => True) (builtinCall ev node b args) fun c vs c' => ∀ v ∈ vs, FreshIn c c' v := by
  cases b <;> dsimp -zeta only [builtinCall]
  case require | assert =>
    -- the join points, innermost first: the end, the failure check, the rest after the arity
    extract_lets done fail check
    have hfail : ∀ failed, Builds (fun _ => True) (fail failed) fun c vs c' => ∀ v ∈ vs, FreshIn c c' v :=
      fun failed => Builds.ite
        (fun _ => builds_shared_bind builds_revertBlock
            (fun k => Builds.nil (builds_failIf failed k _)) freshIn_after_stretch)
        fun _ => builds_shared_bind builds_assertFailBlock
            (fun k => Builds.nil (builds_failIf failed k _)) freshIn_after_stretch
    have hcheck : ∀ u, Builds (fun _ => True) (check u) fun c vs c' => ∀ v ∈ vs, FreshIn c c' v := by
      intro u
      refine (hev.single _).freshList fun cond => ?_
      extract_lets decide
      have hdecide : ∀ u, Builds (fun _ => True) (decide u) fun c vs c' => ∀ v ∈ vs, FreshIn c c' v := by
        intro u
        dsimp -zeta only [decide]
        split
        · exact Builds.pure_any.freshList hfail
        · exact (builds_unary _ _).freshList hfail
      split
      · exact (hev.values _).discard.freshList hdecide
      · exact hdecide ()
    exact Builds.ite (fun _ => Builds.throw_bind) fun _ => hcheck ()
  case revert =>
    exact builds_shared_bind builds_revertBlock (fun k => Builds.nil (builds_jumpAndDetach k))
        freshIn_after_stretch
  case gasLeft =>
    exact Builds.expectArgs_bind (Builds.singleton (builds_context _))
  case selfDestruct =>
    exact Builds.expectArgs_bind <| (hev.single _).freshList fun b =>
      (builds_emitMany 0 (fun rs => .builtin rs .selfDestruct [b]) fun _ _ h => h).discard.freshList fun _ =>
        Builds.fnFixed_bind fnFixed_returnValues fun _ => builds_leave (.inr (.inr ⟨_, rfl⟩))
  all_goals exact builds_hashLike hev _ _ _ _

theorem builds_tupleAssignment (e : Expr) (items : List (Option Expr)) (right : Expr) :
    Builds (fun _ => True) (tupleAssignment ev e items right) fun c vs c' => ∀ v ∈ vs, FreshIn c c' v := by
  unfold tupleAssignment
  refine (hev.values _).freshList fun values => Builds.lift_bind fun pairing => ?_
  -- the places of the components first, each of a variable; then the stores into them
  refine Builds.bind (S := fun (targets : Array (Place × Nat)) c => ∀ q ∈ targets, Place.OfVariable c q.1)
    (Q := fun _ (targets : Array (Place × Nat)) c' => ∀ q ∈ targets, Place.OfVariable c' q.1)
    (T := fun _ c vs c' => ∀ v ∈ vs, FreshIn c c' v) ?_ (fun targets => ?_)
    (fun _ _ _ _ _ h => h) fun _ _ _ _ _ _ h₁ _ _ h v hv => (h v hv).left h₁.counts
  · refine (Builds.forIn (I := fun (targets : Array (Place × Nat)) c => ∀ q ∈ targets, Place.OfVariable c q.1)
      (fun x targets => ?_) _).pre fun _ _ q hq => by simp at hq
    obtain ⟨item, source⟩ := x
    dsimp only
    split
    · refine ((hev.place _).pre fun _ _ => trivial).bind (S := fun _ _ => True) (fun _ => Builds.pure_eq)
        (fun _ _ _ _ _ _ => trivial) fun c p c₁ r c' hI h₁ hp h₂ hr => ?_
      subst hr
      intro q hq
      rcases Array.mem_push.mp hq with hq | rfl
      · exact (hI q hq).extend (h₁.counts.trans h₂.counts)
      · exact hp.ofVariable.extend (h₁.counts.trans h₂.counts)
    · exact Builds.pure fun _ h => h
  · refine Builds.nil (Builds.forInArray_mem (I := fun _ c => ∀ q ∈ targets, Place.OfVariable c q.1)
      (fun q hq _ => ?_) _)
    obtain ⟨p, source⟩ := q
    exact ((builds_store p _ _ _).pre fun _ h => h _ hq).bind (S := fun _ _ => True)
        (fun _ => Builds.pure_any)
      (fun _ _ _ _ _ _ => trivial) fun _ _ _ _ _ hI h₁ _ h₂ _ q hq =>
          (hI q hq).extend (h₁.counts.trans h₂.counts)

theorem builds_assignment (e : Expr) (op : Option BinaryOp) (left right : Expr) :
    Builds (fun _ => True) (assignment ev e op left right) fun c vs c' => ∀ v ∈ vs, FreshIn c c' v := by
  unfold assignment
  split
  · -- a compound assignment: the right side, the place, and the new value stored back
    exact (hev.single _).freshList fun _ => Builds.placeThen (hev.place _) fun p =>
      (builds_update p _ _ _ _).andThen (fun _ => Builds.pure_eq) fun _ r _ _ _ _ hr h₂ hvs w hw => by
        subst hvs
        rw [List.mem_singleton.mp hw]
        exact .inl (hr.2.right h₂.counts)
  · extract_lets plain
    -- the value, the place, then the store, giving back the value stored or the place's content
    have hstore : ∀ value p, Builds (fun c => p.OfVariable c) (if p.ty.isValueType = true then
        convert value right.ty p.ty >>= fun converted => store p converted p.ty e.id >>= fun _ =>
          Pure.pure [converted]
        else store p value right.ty e.id >>= fun _ => load p >>= fun w => Pure.pure [w])
        fun c vs c' => ∀ w ∈ vs, PassedOn c c' value w ∨ Loaded c c' p w := fun value p =>
      Builds.ite (fun _ => ((builds_convert _ _ _).pre fun _ _ => trivial).bind
          (S := fun _ c => p.OfVariable c)
        (T := fun converted _ vs _ => vs = [converted])
        (fun _ => Builds.result (builds_store _ _ _ _) fun _ => Builds.pure_eq)
        (fun _ _ _ hx hst _ => hx.extend hst.counts) fun _ _ _ _ _ _ _ hw h₂ hvs u hu => by
          subst hvs
          rw [List.mem_singleton.mp hu]
          exact .inl (hw.right h₂.counts))
      fun _ => (builds_store _ _ _ _).bind (S := fun _ c => p.OfVariable c) (fun _ => builds_loadList p)
        (fun _ _ _ hx hst _ => hx.extend hst.counts) fun _ _ _ _ _ _ h₁ _ _ hvs u hu =>
          .inr (Loaded.left (hvs u hu) h₁.counts)
    have hplain : ∀ u, Builds (fun _ => True) (plain u) fun c vs c' => ∀ v ∈ vs, FreshIn c c' v := fun _ =>
      (hev.single _).andThen (T := fun value c₁ vs c' => ∀ w ∈ vs, w = value ∨ FreshIn c₁ c' w)
        (fun value => Builds.bind (hev.place _) (hstore value)
            (fun _ _ _ _ h₁ hp => hp.ofVariable.extend h₁.counts)
          fun _ _ _ _ _ _ h₁ hp h₂ hvs w hw => (hvs w hw).elim
            (fun h => h.imp_right fun h => h.left h₁.counts) fun h => .inr (h.fresh hp h₁.counts h₂.counts))
        fun _ _ _ _ _ h₁ hv h₂ hvs w hw => (hvs w hw).elim (fun h => h ▸ hv.right h₂.counts) fun h =>
          h.left h₁.counts
    split
    · exact Builds.ite (fun _ => builds_tupleAssignment hev _ _ _) fun _ => hplain ()
    · exact hplain ()

theorem builds_call (e callee : Expr) (args : List Expr) (kind : CallKind) (value gas : Option Expr) :
    Builds (fun _ => True) (call ev e callee args kind value gas) fun c vs c' => ∀ v ∈ vs,
    FreshIn c c' v := by
  unfold call
  split
  · exact Builds.expectArgs_bind <| (hev.single _).passList fun _ =>
      Builds.passSingleton (builds_convert _ _ _)
  · split
    · exact Builds.singleton (builds_constructStruct hev _ _ _)
    · exact Builds.throw
  -- a regular call, by what the callee names
  split
  · exact builds_builtinCall hev _ _ _
  · exact Builds.ask_bind fun _ => builds_internalCall hev _ _ _
  · split
    · exact Builds.fnFixed_bind fnFixed_get fun _ => Builds.ask_bind fun _ => builds_internalCall hev _ _ _
    · exact builds_staticCall hev _ _ _ _
    · exact builds_externalCall hev _ _ _ _ _ _
  · split
    case h_1 => exact Builds.ite (fun _ => Builds.expectArgs_bind (builds_push hev _ _ _)) fun _ =>
        Builds.throw
    case h_2 | h_3 | h_4 | h_5 => exact Builds.expectArgs_bind (builds_transfer hev _ _ _)
    case h_6 => exact Builds.throw
  · exact builds_create hev _ _ _ _
  · exact Builds.expectArgs_bind (Builds.singleton (builds_newMemoryArray hev _ _))
  · exact Builds.throw

theorem builds_memberValue (e base : Expr) (member : String) :
    Builds (fun _ => True) (memberValue ev e base member) fun c vs c' => ∀ v ∈ vs, FreshIn c c' v := by
  unfold memberValue
  split
  case h_1 | h_2 =>
    exact (hev.single _).freshList fun _ => Builds.singleton (builds_emit _ fun _ => rfl)
  case h_3 => exact Builds.pure fun _ _ v hv => by rw [List.mem_singleton.mp hv]; exact FreshIn.ofInt _
  case h_4 =>
    exact (hev.single _).freshList fun _ => Builds.ite (fun _ =>
        Builds.singleton (builds_emit _ fun _ => rfl))
      fun _ => Builds.singleton (builds_emit _ fun _ => rfl)
  case h_5 => exact Builds.placeThen (hev.place _) builds_loadList
  case h_6 => exact Builds.throw

theorem builds_unaryOp (e : Expr) (op : UnaryOp) (isPrefix : Bool) (operand : Expr) :
    Builds (fun _ => True) (unaryOp ev e op isPrefix operand) fun c vs c' => ∀ v ∈ vs, FreshIn c c' v := by
  unfold unaryOp
  split
  case h_1 => exact (hev.single _).freshList fun _ => Builds.singleton (builds_unary _ _)
  case h_2 =>
    exact (hev.single _).freshList fun _ => (builds_unary _ _).passList fun _ =>
      Builds.passSingleton (builds_mask _ _)
  case h_3 =>
    refine (hev.single _).freshList fun v => ?_
    extract_lets masked
    have hmasked : ∀ w, Builds (fun _ => True) (masked w) fun c ws c' => ∀ u ∈ ws, PassedOn c c' w u :=
      fun _ => Builds.passSingleton (builds_mask _ _)
    split
    · exact (Builds.pure fun _ _ => FreshIn.ofInt _).passList hmasked
    · exact (builds_binary _ _ _).passList hmasked
  case h_4 | h_5 =>
    exact Builds.placeThen (hev.place _) fun p =>
      (builds_update p _ _ _ _).andThen (fun _ => Builds.pure_eq) fun _ r _ _ _ _ hr h₂ hvs w hw => by
        subst hvs
        rw [List.mem_singleton.mp hw]
        split
        · exact .inl (hr.2.right h₂.counts)
        · exact Loaded.right hr.1 h₂.counts
  case h_6 =>
    exact Builds.placeThen (hev.place _) fun p =>
      (builds_delete p _).andThen (fun _ => Builds.pure_eq) fun _ _ _ _ _ _ _ _ hvs w hw => by
        subst hvs
        cases hw

theorem builds_binaryOp (e : Expr) (op : BinaryOp) (l r : Expr) :
    Builds (fun _ => True) (binaryOp ev e op l r) fun c vs c' => ∀ v ∈ vs, FreshIn c c' v := by
  unfold binaryOp
  refine (hev.single _).freshList fun _ => (builds_convert _ _ _).freshList fun _ =>
    (hev.single _).freshList fun _ => ?_
  extract_lets operate
  have hoperate : ∀ v, Builds (fun _ => True) (operate v) fun c vs c' => ∀ v ∈ vs, FreshIn c c' v :=
    fun _ => Builds.singleton (builds_binaryOperation _ _ _ _ _)
  exact Builds.ite (fun _ => Builds.pure_any.freshList hoperate) fun _ =>
      (builds_convert _ _ _).freshList hoperate

theorem builds_indexPlace (e base : Expr) (index : Option Expr) :
    Builds (fun _ => True) (indexPlace ev e base index) fun c p c' => PlaceIn c c' p := by
  unfold indexPlace
  split
  · split
    · -- a mapping: the slot of the key, fresh
      exact (hev.single _).placed fun _ => (hev.single _).placed fun _ =>
          (builds_convert _ _ _).placed fun _ =>
        Builds.placeOf (builds_emit _ fun _ => rfl) fun slot =>
          Builds.pure fun _ _ => (.inl rfl : PassedOn _ _ slot slot)
    · refine Builds.ite (fun _ => ?_) fun _ => ?_
      · exact Builds.placeOf (hev.single _) fun bs => (hev.single _).andThen
          (fun _ => Builds.inStorage (builds_storageElementSlot bs _ _ _) _)
          fun _ _ _ _ _ h₁ _ _ hp => hp.left h₁.counts
      · exact (hev.single _).placed fun _ => (hev.single _).placed fun _ =>
          (builds_memoryElementAddress _ _).andThen (fun _ => Builds.pure (Q := fun c p c' => PlaceIn c c' p)
            fun _ _ => by exact trivial) fun _ _ _ _ _ h₁ _ _ hp => hp.left h₁.counts
    · exact Builds.throw
    · exact Builds.throw
  · exact Builds.throw

theorem builds_memberPlace (e base : Expr) (member : String) :
    Builds (fun _ => True) (memberPlace ev e base member) fun c p c' => PlaceIn c c' p := by
  unfold memberPlace
  split
  · refine Builds.fnFixed_bind (fnFixed_memberIndex _ _ _) fun _ =>
      Builds.fnFixed_bind (fnFixed_memberType _ _)
      fun _ => Builds.placeOf (hev.single _) fun b => Builds.ite (fun _ => ?_) fun _ => ?_
    · exact (builds_offset _ _).andThen (fun _ => Builds.pure (Q := fun c p c' => PlaceFrom c c' b p)
        fun _ _ => by exact trivial) fun _ _ _ _ _ h₁ _ _ hp => hp.left h₁.counts
    · exact Builds.fnFixed_bind (fnFixed_storageFieldOffset _ _ _) fun _ =>
        Builds.inStorage (builds_offset _ _) _
  · exact Builds.ite (fun _ => Builds.placeOf (hev.single _) fun slot =>
      Builds.pure fun _ _ => (.inl rfl : PassedOn _ _ slot slot)) fun _ => Builds.throw
  · exact Builds.throw

end Routines

section Step

variable {fuel : Nat} (ih : EvalBuilds ⟨values fuel, single fuel, place fuel⟩)
include ih

theorem builds_values_succ (e : Expr) :
    Builds (fun _ => True) (values (fuel + 1) e) fun c vs c' => ∀ v ∈ vs, FreshIn c c' v := by
  unfold values
  split
  case h_1 | h_2 => exact Builds.pure fun _ _ v hv => by rw [List.mem_singleton.mp hv]; exact FreshIn.const _
  case h_3 =>
    extract_lets ev viaPlace
    -- a constant is its initializer; any other variable is read from its place
    have hplace : ∀ u, Builds (fun _ => True) (viaPlace u) fun c vs c' => ∀ v ∈ vs, FreshIn c c' v :=
      fun _ => Builds.placeThen (ih.place _) builds_loadList
    refine Builds.fnFixed_bind (fnFixed_varDecl _) fun d => Builds.ite (fun _ => ?_) fun _ => hplace ()
    split
    · exact (ih.single _).passList fun _ => Builds.passSingleton (builds_convert _ _ _)
    · exact Builds.throw_bind
  case h_4 | h_5 => exact Builds.singleton (builds_context _)
  case h_6 | h_15 | h_16 => exact Builds.throw
  case h_7 => exact builds_unaryOp ih _ _ _ _
  case h_8 =>
    exact Builds.ite (fun _ => Builds.singleton (builds_shortCircuit ih _ _ _)) fun _ =>
        builds_binaryOp ih _ _ _ _
  case h_9 => exact builds_assignment ih _ _ _ _
  case h_10 => exact Builds.singleton (builds_conditional ih _ _ _ _)
  case h_11 => exact Builds.mapM fun | some _ => ih.single _ | none => Builds.throw
  case h_12 => exact builds_call ih _ _ _ _ _ _
  case h_13 =>
    extract_lets ev rest
    have hrest : ∀ u, Builds (fun _ => True) (rest u) fun c vs c' => ∀ v ∈ vs, FreshIn c c' v := by
      intro u
      dsimp -zeta only [rest]
      split
      · exact Builds.fnFixed_bind (fnFixed_varDecl _) fun _ => ih.values _
      · exact builds_memberValue ih _ _ _
    split
    · split
      · exact Builds.singleton (builds_context _)
      · exact hrest ()
    · exact hrest ()
  case h_14 => exact Builds.placeThen (ih.place _) builds_loadList

theorem builds_single_succ (e : Expr) :
    Builds (fun _ => True) (single (fuel + 1) e) fun c v c' => FreshIn c c' v := by
  unfold single
  refine (ih.values e).andThen (T := fun vs _ w _ => w ∈ vs) (fun vs => ?_)
    fun _ _ _ _ _ _ hvs h₂ hw => (hvs _ hw).right h₂.counts
  split
  · exact Builds.pure fun _ _ => List.mem_singleton_self _
  · exact Builds.throw

theorem builds_place_succ (e : Expr) :
    Builds (fun _ => True) (place (fuel + 1) e) fun c p c' => PlaceIn c c' p := by
  unfold place
  split
  · exact builds_variablePlace _ _ _
  · exact builds_indexPlace ih _ _ _
  · exact builds_memberPlace ih _ _ _
  · exact ih.place _
  · exact Builds.throw
  · exact Builds.throw

end Step

theorem evalBuilds (fuel : Nat) : EvalBuilds ⟨values fuel, single fuel, place fuel⟩ := by
  induction fuel with
  | zero =>
    refine ⟨fun _ => ?_, fun _ => ?_, fun _ => ?_⟩
    · unfold values
      exact Builds.throw
    · unfold single
      exact Builds.throw
    · unfold place
      exact Builds.throw
  | succ fuel ih => exact ⟨builds_values_succ ih, builds_single_succ ih, builds_place_succ ih⟩

end Gen

end ContractCfg.Lower
