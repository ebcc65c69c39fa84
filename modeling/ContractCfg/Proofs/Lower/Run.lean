import ContractCfg.Lower.Gen
import ContractCfg.Proofs.Lower.Names
import ContractCfg.Proofs.IR.Close

namespace ContractCfg.Lower

open ContractCfg.IR

/-- The state with builder `b`. -/
def GenState.withBuilder (s : GenState) (b : IR.FnBuilder) : GenState :=
  { s with fn := { s.fn with builder := b } }

@[simp] theorem GenState.withBuilder_builder (s : GenState) (b : IR.FnBuilder) :
    (s.withBuilder b).fn.builder = b := rfl

@[simp] theorem GenState.withBuilder_withBuilder (s : GenState) (b b' : IR.FnBuilder) :
    (s.withBuilder b).withBuilder b' = s.withBuilder b' := rfl

/-- The register of variable `v`: the innermost layer binds it, or else the function scope. -/
def FnState.lookup (c : FnState) (v : Nat) : Option Value :=
  match c.layers.head?.bind (·.get? v) with
  | some x => some x
  | none => c.functionScope.get? v

namespace Gen

variable {α β : Type} {env : Env} {s : GenState}

theorem bind_run (x : Gen α) (f : α → Gen β) (env : Env) (s : GenState) :
    (x >>= f) env s = (match x env s with
      | .ok (a, s') => f a env s'
      | .error e => .error e) := by
  show (x env s >>= fun p => f p.1 env p.2) = _
  cases x env s <;> rfl

theorem bind_run_ok {x : Gen α} {f : α → Gen β} {s' : GenState} {a : α}
    (h : x env s = .ok (a, s')) : (x >>= f) env s = f a env s' := by
  rw [bind_run, h]

@[simp] theorem pure_run (a : α) (env : Env) (s : GenState) :
    (pure a : Gen α) env s = .ok (a, s) := rfl

@[simp] theorem throw_run (e : LowerError) (env : Env) (s : GenState) :
    (throw e : Gen α) env s = .error e := rfl

@[simp] theorem get_run (env : Env) (s : GenState) : (get : Gen GenState) env s = .ok (s, s) := rfl

@[simp] theorem read_run (env : Env) (s : GenState) : (read : Gen Env) env s = .ok (env, s) := rfl

@[simp] theorem modifyFn_run (f : FnState → FnState) (env : Env) (s : GenState) :
    modifyFn f env s = .ok ((), { s with fn := f s.fn }) := rfl

@[simp] theorem modifyBuilder_run (f : FnBuilder → FnBuilder) (env : Env) (s : GenState) :
    modifyBuilder f env s = .ok ((), s.withBuilder (f s.fn.builder)) := rfl

theorem withBuilder_run (f : FnBuilder → α × FnBuilder) (env : Env) (s : GenState) :
    withBuilder f env s = .ok ((f s.fn.builder).1, s.withBuilder (f s.fn.builder).2) := rfl

theorem discard_run {x : Gen α} {a : α} {s' : GenState} (h : x env s = .ok (a, s')) :
    discard x env s = .ok ((), s') := by
  show (x env s >>= fun p => pure ((), p.2)) = _
  rw [h]
  rfl

theorem liftIr_run {x : Except IrError α} {a : α} (h : x = .ok a) (env : Env) (s : GenState) :
    liftIr x env s = .ok (a, s) := by
  subst h; rfl

theorem tryBuilder_run {f : FnBuilder → Except IrError FnBuilder} {b : FnBuilder}
    (h : f s.fn.builder = .ok b) : tryBuilder f env s = .ok ((), s.withBuilder b) := by
  unfold tryBuilder
  rw [bind_run_ok (get_run env s), bind_run_ok (liftIr_run h env s)]
  rfl

theorem checkOpen_run (ho : s.fn.builder.IsOpen) : checkOpen env s = .ok ((), s) := by
  obtain ⟨blk, hb, ht⟩ := ho
  unfold checkOpen
  rw [bind_run_ok (get_run env s)]
  exact liftIr_run (FnBuilder.checkOpen_eq hb ht) env s

theorem emit_run (mk : Value → Instr) (ho : s.fn.builder.IsOpen) :
    emit mk env s = .ok (.reg (toString s.fn.builder.nextTemp), s.withBuilder (s.fn.builder.emit mk).2) := by
  unfold emit
  rw [bind_run_ok (checkOpen_run ho), withBuilder_run]
  rfl

theorem emitUnit_run (i : Instr) (ho : s.fn.builder.IsOpen) :
    emitUnit i env s = .ok ((), s.withBuilder (s.fn.builder.push i)) := by
  unfold emitUnit
  rw [bind_run_ok (checkOpen_run ho)]
  rfl

theorem freshName_run (base : String) (env : Env) (s : GenState) :
    freshName base env s = .ok (regName (nameBase base) (s.fn.names.getD (nameBase base) 0),
      { s with fn := { s.fn with
        names := s.fn.names.insert (nameBase base) (s.fn.names.getD (nameBase base) 0 + 1) } }) := by
  have h : ∀ b n, regName b n = if n == 0 then b else b ++ "." ++ toString n := by
    intro b n
    simp [regName]
  rw [h]
  rfl

theorem freshLocal_run (base : String) (env : Env) (s : GenState) :
    freshLocal base env s = .ok (.reg (regName (nameBase base) (s.fn.names.getD (nameBase base) 0)),
      { s with fn := { s.fn with
        names := s.fn.names.insert (nameBase base) (s.fn.names.getD (nameBase base) 0 + 1) } }) := by
  unfold freshLocal
  rw [bind_run_ok (freshName_run base env s)]
  rfl

theorem createBlock_run (label : String) (env : Env) (s : GenState) :
    createBlock label env s =
      .ok (s.fn.builder.fn.body.nextId, s.withBuilder (s.fn.builder.createBlock label).2) := rfl

theorem switchTo_run {id : Nat} (h : (s.fn.builder.block? id).isSome) :
    switchTo id env s = .ok ((), s.withBuilder { s.fn.builder with current := id }) :=
  tryBuilder_run (FnBuilder.switchTo_eq h)

theorem terminate_run {t : Terminator} (hts : ∀ x ∈ t.successors, (s.fn.builder.block? x).isSome)
    {blk : Block} (hb : s.fn.builder.block? s.fn.builder.current = some blk) (ho : blk.term = .invalid) :
    terminate t env s = .ok ((), s.withBuilder (s.fn.builder.setTerm t blk)) :=
  tryBuilder_run (FnBuilder.terminate_eq _ hts hb ho)

theorem currentBlock_run (env : Env) (s : GenState) :
    currentBlock env s = .ok (s.fn.builder.current, s) := rfl

theorem isTerminated_run (env : Env) (s : GenState) :
    isTerminated env s = .ok (s.fn.builder.isTerminated, s) := rfl

theorem jumpIfOpen_run {target : Nat} (ht : (s.fn.builder.block? target).isSome) {blk : Block}
    (hb : s.fn.builder.block? s.fn.builder.current = some blk) (ho : blk.term = .invalid) :
    jumpIfOpen target env s = .ok ((), s.withBuilder (s.fn.builder.setTerm (.jump target) blk)) := by
  unfold jumpIfOpen
  rw [bind_run_ok (isTerminated_run env s), FnBuilder.isTerminated_eq hb]
  simp only [Block.isTerminated, ho, bne_self_eq_false, Bool.not_false, if_true]
  exact terminate_run (by simpa [Terminator.successors] using ht) hb ho

theorem startBlock_run (label : String) (env : Env) (s : GenState) :
    startBlock label env s = .ok (s.fn.builder.fn.body.nextId,
      s.withBuilder { (s.fn.builder.createBlock label).2 with current := s.fn.builder.fn.body.nextId }) := by
  unfold startBlock
  rw [bind_run_ok (createBlock_run label env s)]
  have h : ((s.withBuilder (s.fn.builder.createBlock label).2).fn.builder.block?
      s.fn.builder.fn.body.nextId).isSome := by
    simp [FnBuilder.block?_createBlock]
  rw [bind_run_ok (switchTo_run h)]
  rfl

theorem jumpAndDetach_run {target : Nat} (ht : (s.fn.builder.block? target).isSome)
    (hbelow : s.fn.builder.Below) {blk : Block} (hb : s.fn.builder.block? s.fn.builder.current = some blk)
    (ho : blk.term = .invalid) :
    jumpAndDetach target env s =
      .ok ((), s.withBuilder (s.fn.builder.closeInto "unreachable" (.jump target) blk)) := by
  unfold jumpAndDetach
  rw [bind_run_ok (terminate_run (by simpa [Terminator.successors] using ht) hb ho)]
  have h : startBlock "unreachable" env (s.withBuilder (s.fn.builder.setTerm (.jump target) blk)) =
      .ok (s.fn.builder.fn.body.nextId,
        s.withBuilder (s.fn.builder.closeInto "unreachable" (.jump target) blk)) := by
    rw [startBlock_run]
    simp only [GenState.withBuilder_withBuilder, GenState.withBuilder_builder,
      FnBuilder.setTerm_nextId, FnBuilder.setTerm_createBlock hbelow hb]
    rfl
  exact discard_run h

theorem terminalBlock_run (label : String) {t : Terminator} (hts : t.successors = [])
    (hb : s.fn.builder.Below) (hc : (s.fn.builder.block? s.fn.builder.current).isSome) :
    terminalBlock label t env s =
      .ok (s.fn.builder.fn.body.nextId, s.withBuilder (s.fn.builder.addClosed label t)) := by
  have hlt := hb _ hc
  unfold terminalBlock
  rw [bind_run_ok (currentBlock_run env s), bind_run_ok (createBlock_run label env s),
    bind_run_ok (switchTo_run ?new), bind_run_ok (terminate_run ?succ ?blk ?ho),
    bind_run_ok (switchTo_run ?back)]
  · rfl
  case new => simp [FnBuilder.block?_createBlock]
  case succ => simp [hts]
  case ho => rfl
  case blk =>
    show (s.fn.builder.createBlock label).2.block? _ = some { id := s.fn.builder.fn.body.nextId, label := label }
    simp [FnBuilder.block?_createBlock]
  case back =>
    show ((s.fn.builder.addClosed label t).block? s.fn.builder.current).isSome
    rw [FnBuilder.block?_addClosed, if_neg (by omega)]
    exact hc

theorem assertFailBlock_run_some {a : Nat} (h : s.fn.assertFailBlock = some a) :
    assertFailBlock env s = .ok (a, s) := by
  unfold assertFailBlock
  rw [bind_run_ok (get_run env s)]
  simp only [h]
  rfl

theorem assertFailBlock_run_none (h : s.fn.assertFailBlock = none) (hb : s.fn.builder.Below)
    (hc : (s.fn.builder.block? s.fn.builder.current).isSome) :
    assertFailBlock env s = .ok (s.fn.builder.fn.body.nextId,
      { s.withBuilder (s.fn.builder.addClosed "assert.fail" .abort) with
        fn.assertFailBlock := some s.fn.builder.fn.body.nextId }) := by
  unfold assertFailBlock
  rw [bind_run_ok (get_run env s)]
  simp only [h]
  rw [bind_run_ok (terminalBlock_run "assert.fail" rfl hb hc)]
  rfl

theorem revertBlock_run_some {a : Nat} (h : s.fn.revertBlock = some a) :
    revertBlock env s = .ok (a, s) := by
  unfold revertBlock
  rw [bind_run_ok (get_run env s)]
  simp only [h]
  rfl

theorem revertBlock_run_none (h : s.fn.revertBlock = none) (hb : s.fn.builder.Below)
    (hc : (s.fn.builder.block? s.fn.builder.current).isSome) :
    revertBlock env s = .ok (s.fn.builder.fn.body.nextId,
      { s.withBuilder (s.fn.builder.addClosed "revert" (.revert (.ofInt revertStatus))) with
        fn.revertBlock := some s.fn.builder.fn.body.nextId }) := by
  unfold revertBlock
  rw [bind_run_ok (get_run env s)]
  simp only [h]
  rw [bind_run_ok (terminalBlock_run "revert" rfl hb hc)]
  rfl

theorem failIf_run_zero {c : Constant} (hc : c.isZero = true) (failure : Nat) (label : String) :
    failIf (.const c) failure label env s = .ok ((), s) := by
  simp [failIf, Value.asConst?, hc]

theorem failIf_run_nonzero {c : Constant} (hc : c.isZero = false) {failure : Nat} (label : String) :
    failIf (.const c) failure label env s = jumpAndDetach failure env s := by
  simp [failIf, Value.asConst?, hc]

theorem failIf_run_reg (x : String) {failure : Nat} (label : String)
    (hf : (s.fn.builder.block? failure).isSome) (hbelow : s.fn.builder.Below) {blk : Block}
    (hb : s.fn.builder.block? s.fn.builder.current = some blk) (ho : blk.term = .invalid) :
    failIf (.reg x) failure label env s = .ok ((), s.withBuilder
      (s.fn.builder.closeInto label (.branch (.reg x) failure s.fn.builder.fn.body.nextId) blk)) := by
  have hlt := hbelow.current_lt hb
  have hf' := hbelow failure hf
  unfold failIf
  simp only [Value.asConst?]
  rw [bind_run_ok (createBlock_run label env s), bind_run_ok (terminate_run ?succ ?cur ho),
    switchTo_run ?next]
  case succ =>
    intro y hy
    simp only [Terminator.successors, List.mem_cons, List.not_mem_nil, or_false] at hy
    rcases hy with rfl | rfl
    · simp only [GenState.withBuilder_builder]
      rw [FnBuilder.block?_createBlock, if_neg (by omega)]
      exact hf
    · simp [FnBuilder.block?_createBlock]
  case cur => exact FnBuilder.block?_createBlock_current hbelow hb
  case next =>
    simp only [GenState.withBuilder_builder]
    rw [FnBuilder.block?_setTerm, FnBuilder.createBlock_current, if_neg (by omega)]
    simp [FnBuilder.block?_createBlock]
  rfl

theorem lookupVar_run (v : Nat) (env : Env) (s : GenState) :
    lookupVar v env s = .ok (s.fn.lookup v, s) := by
  unfold lookupVar FnState.lookup
  rw [bind_run_ok (get_run env s)]
  split <;> rename_i h <;> simp only [h] <;> rfl

theorem unit_run (env : Env) (s : GenState) : unit env s = .ok (env.unit, s) := rfl

end Gen

end ContractCfg.Lower
