import ContractCfg.Lower.Contract
import ContractCfg.Proofs.Cursor.Statements

/-!
Lowering a whole contract never fails with a builder error. Each function starts on a fresh
builder, whose entry block is open, is lowered by code that keeps the cursor protocol with no
block pending, and ends with a return that closes the current block. Then every block is
closed, and building the function, which drops unreachable blocks and asks that every block
left be closed, succeeds. The code around the functions does not touch the builder, and the
verifier only reports failed checks.
-/

namespace ContractCfg.IR.FnBuilder

theorem block?_new (name : String) (k : Nat) :
    (FnBuilder.new name).block? k = if k = 0 then some { id := 0, label := "entry" } else none := by
  by_cases hk : k = 0
  · subst hk
    rfl
  · simp [block?, FnBuilder.new, OrderedMap.get?, hk, Ne.symm hk]

theorem cursor_new (name : String) : (FnBuilder.new name).Cursor ∅ := by
  refine ⟨fun k hk => ?_, List.pairwise_singleton _ 0, ⟨_, rfl, rfl⟩, Set.notMem_empty _, fun k hk => ?_⟩
  · rw [block?_new] at hk
    split at hk
    · rename_i h0
      exact h0 ▸ Nat.zero_lt_one
    · cases hk
  · have hk0 : k ≠ 0 := hk
    simp only [OpenAt, block?_new, if_neg hk0, Set.mem_empty_iff_false, iff_false]
    rintro ⟨_, h, -⟩
    cases h

theorem Parked.build_ok {b : FnBuilder} (h : b.Parked ∅) : ∃ f, b.build = .ok f := by
  simp only [build, prune, Body.prune]
  rw [List.find?_eq_none.mpr fun x hx => ?_]
  · exact ⟨_, rfl⟩
  · obtain ⟨k, blk⟩ := x
    simp only [OrderedMap.filter, OrderedMap.toList, Array.toList_filter, List.mem_filter] at hx
    have hb : b.block? k = some blk := OrderedMap.get?_of_mem_toList _ h.nodup hx.1
    have hclosed : blk.term ≠ .invalid := fun ho => ((h.opened k).mp ⟨blk, hb, ho⟩).elim
    simpa [Block.isTerminated] using hclosed

end ContractCfg.IR.FnBuilder

namespace ContractCfg.IR

theorem Function.verify_error {f : Function} {e : IrError} (h : f.verify = .error e) :
    ∃ n m, e = .verification n m := by
  unfold Function.verify at h
  split at h
  · cases h
    exact ⟨_, _, rfl⟩
  · dsimp only at h
    split at h
    · cases h
      exact ⟨_, _, rfl⟩
    · cases h

theorem Contract.verify_error {c : Contract} {e : IrError} (h : c.verify = .error e) :
    ∃ n m, e = .verification n m := by
  unfold Contract.verify at h
  generalize c.functions.values = fs at h
  induction fs with
  | nil => cases h
  | cons f fs ih =>
    simp only [List.forM] at h
    cases hv : f.verify with
    | error e' =>
      rw [hv] at h
      cases h
      exact Function.verify_error hv
    | ok u =>
      rw [hv] at h
      cases hp : c.callProblem f with
      | some m =>
        rw [hp] at h
        cases h
        exact ⟨_, _, rfl⟩
      | none =>
        rw [hp] at h
        exact ih h

end ContractCfg.IR

namespace ContractCfg.Lower

open ContractCfg.Source
open ContractCfg.IR (Value)
open ContractCfg.IR.FnBuilder

/-- Lowering code that, from any state, fails with no builder error. -/
def Safe (m : Gen α) : Prop := Triple (fun _ => True) m fun _ _ => True

theorem FnFixed.safe {α : Type} {m : Gen α} (h : FnFixed m) : Safe m :=
  fun env s _ => (h s.fn env s rfl).mono fun _ _ _ => trivial

theorem FnFixed.forIn {α β : Type} {xs : List α} {f : α → β → Gen (ForInStep β)}
    (hf : ∀ a b, FnFixed (f a b)) (init : β) : FnFixed (ForIn.forIn xs init f) :=
  fun c => Preserves.forIn (fun a b => hf a b c) init

theorem Safe.forIn {α β : Type} {xs : List α} {f : α → β → Gen (ForInStep β)}
    (hf : ∀ a b, Safe (f a b)) (init : β) : Safe (ForIn.forIn xs init f) :=
  Preserves.forIn hf init

theorem Outcome.clean {α : Type} {r : Except LowerError (α × GenState)} {post : α → GenState → Prop}
    (h : Outcome r post) : Clean r := by
  intro e he
  subst he
  exact h

namespace Gen

variable {P E : Set Nat}

theorem fnFixed_ask {α : Type} {f : Env → Except LowerError α} (hf : ∀ env, Clean (f env)) :
    FnFixed (ask f) :=
  fnFixed_read.bind fun env => fnFixed_lift (hf env)

theorem startFunction_triple (name : String) (scope : Nat) :
    Triple (fun _ => True) (startFunction name scope) fun _ => Ready ∅ ∅ := by
  intro env s _
  show Ready ∅ ∅ { s with fn := FnState.new name scope }
  refine ⟨cursor_new name, fun k hk => ?_, fun k hk => hk.elim⟩
  simp [FnState.targets, FnState.new, loopTargets] at hk

theorem ret_triple (vs : List Value) : Triple (Ready P E) (terminate (.ret vs)) fun _ => Jumped P E :=
  fun _ _ h => terminate_outcome h (by simp [IR.Terminator.successors]) (by simp)

theorem finishFunction_triple : Triple (Jumped ∅ E) finishFunction fun _ _ => True := by
  intro env s h
  obtain ⟨f, hf⟩ := h.parked.build_ok
  unfold finishFunction
  rw [bind_run_ok (get_run env s), liftIr_run hf]
  trivial

theorem keeps_modifyBuilder (f : IR.FnBuilder → IR.FnBuilder) (hbody : ∀ b, (f b).fn.body = b.fn.body)
    (hcur : ∀ b, (f b).current = b.current) : Keeps (modifyBuilder f) := by
  intro P E env s h
  rw [modifyBuilder_run]
  exact h.withBuilder (h.cursor.of_body (hbody _) (hcur _)) fun k hk => by
    simpa [Has, block?, hbody] using hk

theorem keeps_param (name : String) (ty : IR.Ty) : Keeps (withBuilder (·.param name ty)) := by
  intro P E env s h
  rw [withBuilder_run]
  exact h.withBuilder (h.cursor.of_body rfl rfl) fun _ hk => hk

theorem keeps_declareParameters (params : List Nat) : Keeps (declareParameters params) := by
  unfold declareParameters
  exact (Keeps.forIn (fun _ _ => (Keeps.of_fnFixed (fnFixed_varDecl _)).bind fun _ =>
    (Keeps.of_fnFixed (fnFixed_irType _ _)).bind fun _ => (keeps_freshName _).bind fun _ =>
      (keeps_param _ _).bind fun _ => (keeps_declareInFunctionScope _ _).bind fun _ => Keeps.pure _) _).bind
    fun _ => Keeps.pure _

theorem keeps_payableCheck : Keeps payableCheck :=
  (keeps_context _).bind fun _ => (keeps_binary _ _ _).bind fun _ =>
    keeps_revertBlock_bind fun k => keepsAt_failIf _ k _

theorem safe_constructor : Safe constructor := by
  unfold constructor
  refine fnFixed_read.safe.bind fun env => (fnFixed_ask fun e => e.clean_constructorOf _).safe.bind
    fun ctor => ?_
  extract_lets body start
  -- the state variable initializers and constructor bodies of the linearization, then the end
  have hbody : ∀ u, Triple (Ready ∅ ∅) (body u) fun _ _ => True := by
    intro u
    refine (Keeps.forIn (fun c _ => ?_) _).triple.bind fun _ =>
      (ret_triple []).bind fun _ => finishFunction_triple
    refine (keeps_modifyFn _ (fun _ => by rfl) fun _ _ hk => by exact hk).bind fun _ =>
      (Keeps.of_fnFixed (fnFixed_contractDef c)).bind fun cd => (Keeps.forIn (fun v _ => ?_) _).bind
        fun _ => (keeps_ask fun e => e.clean_constructorOf _).bind fun bc => ?_
    · refine (Keeps.of_fnFixed (fnFixed_varDecl v)).bind fun d => ?_
      split
      · refine Keeps.ite (Keeps.pure _) ((Keeps.of_fnFixed fnFixed_get).bind fun _ => ?_)
        split
        · exact keeps_eval_bind fun ev hev => (hev.single _).bind fun _ =>
            (keeps_store _ _ _ _).bind fun _ => Keeps.pure _
        · exact keeps_throw_bind (by rfl) _
      · exact Keeps.pure _
    · split
      · refine (Keeps.of_fnFixed (fnFixed_functionDef _)).bind fun bd => ?_
        extract_lets run
        exact Keeps.ite (keeps_throw_bind (by rfl) _)
          (Keeps.ite ((keeps_functionBody _).bind fun _ => Keeps.pure _) (Keeps.pure _))
      · exact Keeps.pure _
  have hstart : ∀ m, Safe (start m) := by
    intro m
    refine (startFunction_triple _ _).bind fun _ => ?_
    refine (Keeps.of_fnFixed (fnFixed_contractDef _)).triple.bind fun _ => ?_
    refine (keeps_modifyBuilder _ (fun _ => by rfl) fun _ => by rfl).triple.bind fun _ => ?_
    extract_lets pay
    have hpay : ∀ u, Triple (Ready ∅ ∅) (pay u) fun _ _ => True := fun _ =>
      Triple.ite (keeps_payableCheck.triple.bind hbody) (hbody ())
    split
    · exact (Keeps.of_fnFixed (fnFixed_functionDef _)).triple.bind fun _ =>
        (keeps_declareParameters _).triple.bind hpay
    · exact hpay ()
  split
  · exact (fnFixed_functionDef _).safe.bind fun _ => (FnFixed.pure _).safe.bind hstart
  · exact (FnFixed.pure _).safe.bind hstart

theorem safe_function (f : Nat) (entry : Bool) : Safe (function f entry) := by
  unfold function
  refine (fnFixed_functionDef f).safe.bind fun d => (fnFixed_contractDef _).safe.bind fun owner => ?_
  extract_lets returnTypes finish named
  -- the body, then the return with the values of the return variables
  have hfinish : ∀ u, Triple (Ready ∅ ∅) (finish u) fun _ _ => True := fun _ =>
    (keeps_functionBody f).triple.bind fun _ => (Keeps.of_fnFixed fnFixed_returnValues).triple.bind
      fun vs => (ret_triple vs).bind fun _ => finishFunction_triple
  have hnamed : ∀ name, Safe (named name) := by
    intro name
    refine (fnFixed_ask fun e => e.clean_isEntryPoint f).safe.bind fun _ => ?_
    extract_lets start
    have hstart : ∀ v, Safe (start v) := by
      intro v
      refine (startFunction_triple _ _).bind fun _ => ?_
      refine (keeps_modifyBuilder _ (fun _ => by rfl) fun _ => by rfl).triple.bind fun _ => ?_
      refine (keeps_declareParameters _).triple.bind fun _ => ?_
      -- the return variables, each a fresh register set to its default
      refine (Keeps.forIn (fun r _ => ?_) _).triple.bind fun _ => ?_
      · exact (Keeps.of_fnFixed (fnFixed_varDecl r)).bind fun _ =>
          (Keeps.of_fnFixed (fnFixed_irType _ _)).bind fun _ => (keeps_freshLocal _).bind fun _ =>
            (keeps_defaultValue _ _).bind fun _ => (keeps_emitUnit _).bind fun _ =>
              (keeps_declareInFunctionScope _ _).bind fun _ =>
                (keeps_modifyFn _ (fun _ => by rfl) fun _ _ hk => by exact hk).bind fun _ => Keeps.pure _
      · refine (keeps_modifyBuilder _ (fun _ => by rfl) fun _ => by rfl).triple.bind fun _ => ?_
        refine (keeps_ask fun e => e.clean_rejectsValue f).triple.bind fun _ => ?_
        exact Triple.ite (keeps_payableCheck.triple.bind hfinish) (hfinish ())
    exact Triple.ite ((FnFixed.pure _).safe.bind hstart) ((FnFixed.pure _).safe.bind hstart)
  exact Triple.ite ((fnFixed_ask fun e => e.clean_functionName f).safe.bind hnamed)
    ((fnFixed_ask fun e => e.clean_qualifiedName f).safe.bind hnamed)

theorem safe_accessor (v : Nat) : Safe (accessor v) := by
  unfold accessor
  refine fnFixed_read.safe.bind fun env => (fnFixed_varDecl v).safe.bind fun d => ?_
  extract_lets node owner current returns values finish
  -- the end of a getter of a storage variable: its returns, the return, the finished function
  have hfinish : ∀ u rs vs, Triple (Ready ∅ ∅) (finish u rs vs) fun _ _ => True := fun _ _ _ =>
    (keeps_modifyBuilder _ (fun _ => by rfl) fun _ => by rfl).triple.bind fun _ =>
      (ret_triple _).bind fun _ => finishFunction_triple.bind fun _ => Triple.pure fun _ _ => trivial
  refine Triple.ite (Triple.pure fun _ _ => trivial) ?_
  generalize accessorKeys d.ty = kf
  obtain ⟨keys, final⟩ := kf
  refine (FnFixed.mapM fun k => fnFixed_ask fun e => e.clean_canonicalName k).safe.bind fun _ => ?_
  refine (FnFixed.anyM fun c => (fnFixed_contractDef c).bind fun _ => FnFixed.anyM fun f =>
    (fnFixed_functionDef f).bind fun _ => FnFixed.ite ((fnFixed_ask fun e => e.clean_signature f).bind
      fun _ => FnFixed.pure _) (FnFixed.pure _)).safe.bind fun _ => ?_
  refine Triple.ite (Triple.pure fun _ _ => trivial) ?_
  refine (fnFixed_contractDef _).safe.bind fun _ => ?_
  refine (startFunction_triple _ _).bind fun _ => ?_
  refine (keeps_modifyBuilder _ (fun _ => by rfl) fun _ => by rfl).triple.bind fun _ => ?_
  extract_lets storage
  have hstorage : ∀ u, Triple (Ready ∅ ∅) (storage u) fun _ _ => True := by
    intro u
    refine (Keeps.of_fnFixed fnFixed_get).triple.bind fun st => ?_
    split
    · refine (Keeps.forIn (fun key st => ?_) _).triple.bind fun st => ?_
      · refine (Keeps.of_fnFixed (fnFixed_irType _ _)).bind fun _ => (keeps_freshName _).bind fun _ =>
          (keeps_param _ _).bind fun _ => ?_
        split
        · exact (keeps_emit _).bind fun _ => Keeps.pure _
        · exact (keeps_storageElementSlot _ _ _ _).bind fun _ => Keeps.pure _
        · exact keeps_throw_bind (by rfl) _
      · split
        · refine (Keeps.of_fnFixed (fnFixed_structDef _)).triple.bind fun _ => ?_
          refine (Keeps.forIn (fun ⟨m, i⟩ acc => ?_) _).triple.bind fun acc => hfinish () _ _
          exact Keeps.ite (Keeps.pure _) ((Keeps.of_fnFixed (fnFixed_storageFieldOffset _ _ _)).bind
            fun _ => (keeps_offset _ _).bind fun _ => (Keeps.of_fnFixed (fnFixed_irType _ _)).bind fun _ =>
              (keeps_emit _).bind fun _ => Keeps.pure _)
        · exact Triple.ite ((Keeps.of_fnFixed (fnFixed_irType _ _)).triple.bind fun _ =>
            (keeps_emit _).triple.bind fun _ => hfinish () _ _) (Triple.throw_bind (by rfl) _)
    · exact Triple.throw (by rfl)
  -- a constant is returned as its converted initializer; anything else is read from storage
  refine Triple.ite ?_ (hstorage ())
  split
  · exact (Keeps.of_fnFixed (fnFixed_irType _ _)).triple.bind fun _ =>
      (keeps_modifyBuilder _ (fun _ => by rfl) fun _ => by rfl).triple.bind fun _ =>
        eval_triple.bind fun ev => Triple.of_fact fun hev => (hev.single _).triple.bind fun _ =>
          (keeps_convert _ _ _).triple.bind fun _ => (ret_triple _).bind fun _ =>
            finishFunction_triple.bind fun _ => Triple.pure fun _ _ => trivial
  · exact Triple.throw_bind (by rfl) _

theorem fnFixed_allocateStorage : FnFixed allocateStorage := by
  unfold allocateStorage
  refine fnFixed_read.bind fun env => (FnFixed.forIn (fun c next => ?_) _).bind fun _ => FnFixed.pure _
  refine (fnFixed_contractDef c).bind fun cd => (FnFixed.forIn (fun v next => ?_) _).bind fun _ =>
    FnFixed.pure _
  refine (fnFixed_varDecl v).bind fun d => FnFixed.ite (FnFixed.pure _)
    ((fnFixed_irType _ _).bind fun _ => fnFixed_types.bind fun _ => ?_)
  split
  · exact (fnFixed_modifyContract _).bind fun _ => FnFixed.pure _
  · exact (FnFixed.throw (by rfl)).bind fun _ => FnFixed.pure _

theorem safe_drainQueue : ∀ fuel, Safe (drainQueue fuel)
  | 0 => by
    rw [drainQueue]
    exact Triple.throw (by rfl)
  | fuel + 1 => by
    rw [drainQueue]
    refine fnFixed_get.safe.bind fun _ => ?_
    split
    · exact Triple.pure fun _ _ => trivial
    · exact (fnFixed_modifyContract _).safe.bind fun _ => (safe_function _ _).bind fun _ =>
        (fnFixed_modifyContract _).safe.bind fun _ => safe_drainQueue fuel

theorem safe_liftIr_verify (c : IR.Contract) : Safe (liftIr c.verify) := by
  intro env s _
  cases h : c.verify with
  | ok u => exact trivial
  | error e =>
    obtain ⟨n, m, rfl⟩ := IR.Contract.verify_error h
    rfl

theorem safe_contract : Safe contract := by
  unfold contract
  refine fnFixed_read.safe.bind fun env => fnFixed_allocateStorage.safe.bind fun _ =>
    safe_constructor.bind fun _ => (fnFixed_modifyContract _).safe.bind fun _ => ?_
  refine (Safe.forIn (fun c _ => ?_) _).bind fun _ => (safe_drainQueue _).bind fun _ => ?_
  · -- per contract of the linearization: its getters, then its implemented functions
    refine (fnFixed_contractDef c).safe.bind fun cd => ?_
    extract_lets functions
    have hfunctions : ∀ u, Safe (functions u) := by
      intro u
      refine (Safe.forIn (fun f _ => ?_) _).bind fun _ => Triple.pure fun _ _ => trivial
      refine (fnFixed_functionDef f).safe.bind fun _ => Triple.ite (Triple.pure fun _ _ => trivial) ?_
      refine (safe_function f true).bind fun _ => ?_
      exact (fnFixed_modifyContract _).safe.bind fun _ => Triple.pure fun _ _ => trivial
    refine Triple.ite ((Safe.forIn (fun v _ => (safe_accessor v).bind fun acc => ?_) _).bind
      fun _ => hfunctions ()) (hfunctions ())
    split
    · exact (fnFixed_modifyContract _).safe.bind fun _ => Triple.pure fun _ _ => trivial
    · exact Triple.pure fun _ _ => trivial
  · -- the queue drained: the abstractness check over the linearization, then verification
    refine fnFixed_get.safe.bind fun _ => ?_
    refine (FnFixed.mapM fun c => (fnFixed_contractDef c).bind fun _ => FnFixed.pure _).safe.bind
      fun _ => ?_
    refine (fnFixed_ask fun e => e.clean_isAbstract).safe.bind fun _ => ?_
    refine (fnFixed_contractDef _).safe.bind fun _ => ?_
    exact (safe_liftIr_verify _).bind fun _ => Triple.pure fun _ _ => trivial

end Gen

/-- Compiling a contract never fails with a builder error: every failure is an error of the
program or of the verifier. -/
theorem compileContract_ne_builderError (unit : SourceUnit) (options : Options)
    (siblings : List (Nat × IR.Contract)) (c : Nat) (msg : String) :
    compileContract unit options siblings c ≠ .error (.ir (.builderError msg)) := by
  have hclean : Clean (compileContract unit options siblings c) := by
    unfold compileContract
    refine (clean_linearize unit c).bind fun lin => ?_
    exact (Outcome.clean (Gen.safe_contract _ _ trivial)).bind fun ⟨_, _⟩ => Clean.ok _
  intro h
  exact LowerError.notBuilder_iff.mp (hclean _ h) msg rfl

end ContractCfg.Lower
