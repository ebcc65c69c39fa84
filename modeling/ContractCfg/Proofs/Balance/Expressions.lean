import ContractCfg.Proofs.Balance.Moves

/-!
Lowering an expression is quiet, whatever the expression: it adds code, hands out temporaries and
the registers of `&&`, `||`, `?:` and of a failed call's status, and may record the shared failure
blocks, but it opens no layer, loop or body and binds no name. The evaluator is quiet at every
fuel, by induction on the fuel.
-/

namespace ContractCfg.Lower

open ContractCfg.Source
open ContractCfg.IR (Value Instr)

/-- Evaluators whose successful runs are quiet in `env`. -/
structure EvalMoves (env : Env) (ev : Eval) : Prop where
  values : ∀ e, Moves env (Quiet env) (ev.values e)
  single : ∀ e, Moves env (Quiet env) (ev.single e)
  place : ∀ e, Moves env (Quiet env) (ev.place e)

namespace Gen

variable {env : Env}

theorem moves_expectArgs (node : Nat) (args : List Expr) (n : Nat) :
    Moves env (Quiet env) (expectArgs node args n) :=
  Moves.ite (Moves.throw _) (Moves.pure _)

theorem moves_checkStatus (status : Value) (label : String) :
    Moves env (Quiet env) (checkStatus status label) :=
  moves_statusRevertBlock.bind fun ⟨_, _⟩ => (moves_emitUnit _).bind fun _ =>
    moves_failIf status _ label

theorem moves_variablePlace (e : Expr) (name : String) (v : Nat) :
    Moves env (Quiet env) (variablePlace e name v) := by
  unfold variablePlace
  refine (moves_varDecl _).bind fun d => ?_
  extract_lets register slot
  -- a register of the layers, or else the slot of a state variable
  have hregister : ∀ u, Moves env (Quiet env) (register u) := fun _ =>
    (moves_lookupVar _).bind fun x => by
      split
      · exact Moves.pure _
      · exact Moves.throw _
  have hslot : ∀ u, Moves env (Quiet env) (slot u) := fun _ =>
    Moves.ite (moves_get.bind fun _ => by
      split
      · exact Moves.pure _
      · exact Moves.throw_bind _ _) (hregister ())
  exact Moves.ite (Moves.throw_bind _ _) (hslot ())

section Routines

variable {ev : Eval} (hev : EvalMoves env ev)
include hev

theorem moves_callArguments (node f : Nat) (args : List Expr) :
    Moves env (Quiet env) (callArguments ev node f args) :=
  (moves_functionDef f).bind fun _ => (moves_expectArgs _ _ _).bind fun _ =>
    Moves.mapM fun ⟨_, _⟩ => (moves_varDecl _).bind fun _ =>
      (hev.single _).bind fun _ => moves_prepareValue _ _ _ _

theorem moves_internalCall (node target : Nat) (args : List Expr) :
    Moves env (Quiet env) (internalCall ev node target args) := by
  unfold internalCall
  refine (moves_functionDef _).bind fun _ => (moves_ask _).bind fun _ => (moves_ask _).bind fun _ => ?_
  extract_lets call queue
  -- the call itself, under the name chosen, and the queueing of a qualified copy
  have hcall : ∀ name, Moves env (Quiet env) (call name) := fun _ =>
    (moves_callArguments hev _ _ _).bind fun _ => moves_emitMany _ _
  have hqueue : ∀ u, Moves env (Quiet env) (queue u) := fun _ => (moves_ask _).bind hcall
  exact Moves.ite (moves_get.bind fun _ =>
      Moves.ite ((moves_modifyContract _).bind hqueue) (hqueue ()))
    ((moves_ask _).bind hcall)

theorem moves_staticCall (node c f : Nat) (args : List Expr) :
    Moves env (Quiet env) (staticCall ev node c f args) := by
  unfold staticCall
  refine (moves_functionDef _).bind fun _ => (moves_contractDef _).bind fun _ =>
    moves_read.bind fun _ => ?_
  extract_lets call checked
  have hchecked : ∀ u, Moves env (Quiet env) (checked u) := fun _ =>
    Moves.ite ((moves_ask _).bind fun _ => Moves.throw_bind _ _) (moves_internalCall hev _ _ _)
  exact Moves.ite (Moves.throw_bind _ _) (hchecked ())

theorem moves_externalCall (node : Nat) (base : Expr) (f : Nat) (args : List Expr)
    (value gas : Option Expr) : Moves env (Quiet env) (externalCall ev node base f args value gas) := by
  unfold externalCall
  refine (moves_functionDef _).bind fun _ =>
    (Moves.anyM fun _ => (moves_varDecl _).bind fun _ => Moves.pure _).bind fun _ => ?_
  extract_lets call
  refine Moves.ite (Moves.throw_bind _ _) ?_
  refine (hev.single _).bind fun _ => (moves_callArguments hev _ _ _).bind fun _ => ?_
  extract_lets withAmount
  have hamount : ∀ amount, Moves env (Quiet env) (withAmount amount) := by
    intro amount
    dsimp -zeta only [withAmount]
    extract_lets withGas
    have hgas : ∀ g, Moves env (Quiet env) (withGas g) := fun _ =>
      (moves_ask _).bind fun _ => (moves_emitMany _ _).bind fun _ =>
        (moves_checkStatus _ _).bind fun _ => Moves.pure _
    split
    · exact (hev.single _).bind hgas
    · exact (moves_context _).bind hgas
  split
  · exact (hev.single _).bind hamount
  · exact (Moves.pure _).bind hamount

theorem moves_transfer (base amount : Expr) (revertOnFailure : Bool) :
    Moves env (Quiet env) (transfer ev base amount revertOnFailure) :=
  (hev.single _).bind fun _ => (hev.single _).bind fun _ => (moves_emit _).bind fun _ =>
    Moves.ite ((moves_checkStatus _ _).bind fun _ => Moves.pure _)
      ((moves_unary _ _).bind fun _ => Moves.pure _)

theorem moves_create (node c : Nat) (args : List Expr) (value : Option Expr) :
    Moves env (Quiet env) (create ev node c args value) := by
  unfold create
  refine (moves_contractDef _).bind fun _ => moves_read.bind fun _ => ?_
  split
  · refine (moves_expectArgs _ _ _).bind fun _ => (moves_ask _).bind fun _ => ?_
    extract_lets withValues
    have hvalues : ∀ values, Moves env (Quiet env) (withValues values) := by
      intro values
      dsimp -zeta only [withValues]
      extract_lets withAmount
      have hamount : ∀ amount, Moves env (Quiet env) (withAmount amount) := by
        intro amount
        dsimp -zeta only [withAmount]
        refine (moves_emitMany _ _).bind fun _ => (moves_checkStatus _ _).bind fun _ =>
          moves_get.bind fun _ => ?_
        extract_lets done
        exact Moves.ite ((moves_modifyContract _).bind fun _ => Moves.pure _) (Moves.pure _)
      split
      · exact (hev.single _).bind hamount
      · exact (Moves.pure _).bind hamount
    split
    · exact (moves_callArguments hev _ _ _).bind hvalues
    · exact (Moves.pure _).bind hvalues
  · exact Moves.throw _

theorem moves_push (node : Nat) (base elem : Expr) : Moves env (Quiet env) (push ev node base elem) := by
  unfold push
  split
  · exact (hev.single _).bind fun _ => (hev.single _).bind fun _ => (moves_emit _).bind fun _ =>
      (moves_binary _ _ _).bind fun _ => (moves_emitUnit _).bind fun _ =>
      (moves_storageSize _ _).bind fun _ => (moves_emit _).bind fun _ =>
      (moves_scale _ _).bind fun _ => (moves_offset _ _).bind fun _ =>
      (moves_store _ _ _ _).bind fun _ => Moves.pure _
  · exact Moves.throw _

theorem moves_newMemoryArray (t : TypeName) (length : Expr) :
    Moves env (Quiet env) (newMemoryArray ev t length) := by
  unfold newMemoryArray
  split
  · exact (hev.single _).bind fun _ => (moves_offset _ _).bind fun _ => (moves_emit _).bind fun _ =>
      (moves_emitUnit _).bind fun _ => Moves.pure _
  · exact Moves.throw _

theorem moves_constructStruct (node id : Nat) (args : List Expr) :
    Moves env (Quiet env) (constructStruct ev node id args) :=
  (moves_structDef _).bind fun _ => (moves_expectArgs _ _ _).bind fun _ =>
    (moves_emit _).bind fun _ => (Moves.forIn (fun ⟨⟨_, _⟩, _⟩ _ => (hev.single _).bind fun _ =>
      (moves_prepareValue _ _ _ _).bind fun _ => (moves_offset _ _).bind fun _ =>
        (moves_emitUnit _).bind fun _ => Moves.pure _) _).bind fun _ => Moves.pure _

theorem moves_hashLike (node : Nat) (args : List Expr) (ir : IR.Builtin) (arity : Option Nat) :
    Moves env (Quiet env) (builtinCall.hashLike ev node args ir arity) := by
  unfold builtinCall.hashLike
  extract_lets hash
  have hhash : ∀ u, Moves env (Quiet env) (hash u) := fun _ =>
    (Moves.mapM fun _ => hev.single _).bind fun _ => (moves_emit _).bind fun _ => Moves.pure _
  split
  · exact (moves_expectArgs _ _ _).bind hhash
  · exact hhash ()

theorem moves_builtinCall (node : Nat) (b : Builtin) (args : List Expr) :
    Moves env (Quiet env) (builtinCall ev node b args) := by
  cases b <;> dsimp -zeta only [builtinCall]
  case require | assert =>
    -- the join points, innermost first: the end, the failure check, the rest after the arity
    extract_lets done fail check
    have hfail : ∀ failed, Moves env (Quiet env) (fail failed) := fun failed =>
      Moves.ite
        (moves_revertBlock.bind fun k => (moves_failIf failed k _).bind fun _ => Moves.pure _)
        (moves_assertFailBlock.bind fun k => (moves_failIf failed k _).bind fun _ => Moves.pure _)
    have hcheck : ∀ u, Moves env (Quiet env) (check u) := by
      intro u
      refine (hev.single _).bind fun cond => ?_
      extract_lets decide
      have hdecide : ∀ u, Moves env (Quiet env) (decide u) := by
        intro u
        dsimp -zeta only [decide]
        split
        · exact (Moves.pure _).bind hfail
        · exact (moves_unary _ _).bind hfail
      split
      · exact (hev.values _).discard.bind hdecide
      · exact hdecide ()
    exact Moves.ite (Moves.throw_bind _ _) (hcheck ())
  case revert =>
    exact moves_revertBlock.bind fun k => (moves_jumpAndDetach k).bind fun _ => Moves.pure _
  case gasLeft =>
    exact (moves_expectArgs _ _ _).bind fun _ => (moves_context _).bind fun _ => Moves.pure _
  case selfDestruct =>
    exact (moves_expectArgs _ _ _).bind fun _ => (hev.single _).bind fun _ =>
      (moves_emitMany _ _).discard.bind fun _ => moves_returnValues.bind fun _ =>
        (moves_terminate _).bind fun _ => (moves_startBlock _).discard.bind fun _ => Moves.pure _
  all_goals exact moves_hashLike hev _ _ _ _

theorem moves_shortCircuit (isAnd : Bool) (l r : Expr) :
    Moves env (Quiet env) (shortCircuit ev isAnd l r) := by
  unfold shortCircuit
  have hbase : env.Base (if isAnd then "and" else "or") := .inl (by cases isAnd <;> simp [fixedBases])
  refine (moves_freshLocal hbase).bind fun _ => (hev.single l).bind fun _ =>
    (moves_emitUnit _).bind fun _ => (moves_createBlock _).bind fun _ => (moves_createBlock _).bind fun _ =>
      Moves.ite ((moves_terminate _).bind fun _ => ?_) ((moves_terminate _).bind fun _ => ?_) <;>
  exact (moves_switchTo _).bind fun _ => (hev.single r).bind fun _ => (moves_emitUnit _).bind fun _ =>
    (moves_jumpIfOpen _).bind fun _ => (moves_switchTo _).bind fun _ => Moves.pure _

theorem moves_conditional (e c a b : Expr) : Moves env (Quiet env) (conditional ev e c a b) := by
  unfold conditional
  extract_lets rest
  refine Moves.ite (Moves.throw_bind _ _) ?_
  dsimp only [rest]
  refine (hev.single c).bind fun _ => (moves_freshLocal (.inl (by simp [fixedBases]))).bind fun _ =>
    (moves_createBlock _).bind fun _ => (moves_createBlock _).bind fun _ =>
    (moves_createBlock _).bind fun _ => (moves_terminate _).bind fun _ => ?_
  -- the two arms, each in its own block and on to the join, then the join
  refine (Moves.forIn (fun arm _ => ?_) _).bind fun _ => (moves_switchTo _).bind fun _ => Moves.pure _
  obtain ⟨_, _⟩ := arm
  exact (moves_switchTo _).bind fun _ => (hev.single _).bind fun _ =>
    (moves_prepareValue _ _ _ _).bind fun _ => (moves_emitUnit _).bind fun _ =>
      (moves_jumpIfOpen _).bind fun _ => Moves.pure _

theorem moves_tupleAssignment (e : Expr) (items : List (Option Expr)) (right : Expr) :
    Moves env (Quiet env) (tupleAssignment ev e items right) := by
  unfold tupleAssignment
  refine (hev.values _).bind fun values => (Moves.lift _).bind fun pairing => ?_
  refine (Moves.forIn (fun ⟨item, source⟩ _ => ?_) _).bind fun targets =>
    (Moves.forInArray (fun ⟨_, _⟩ _ => (moves_store _ _ _ _).bind fun _ => Moves.pure _) _).bind
      fun _ => Moves.pure _
  dsimp only
  split
  · exact (hev.place _).bind fun _ => Moves.pure _
  · exact Moves.pure _

theorem moves_assignment (e : Expr) (op : Option BinaryOp) (left right : Expr) :
    Moves env (Quiet env) (assignment ev e op left right) := by
  unfold assignment
  split
  · exact (hev.single _).bind fun _ => (hev.place _).bind fun _ =>
      (moves_update _ _ _ _ _).bind fun ⟨_, _⟩ => Moves.pure _
  · extract_lets plain
    have hplain : ∀ u, Moves env (Quiet env) (plain u) := fun _ =>
      (hev.single _).bind fun _ => (hev.place _).bind fun _ =>
        Moves.ite ((moves_convert _ _ _).bind fun _ => (moves_store _ _ _ _).bind fun _ =>
          Moves.pure _) ((moves_store _ _ _ _).bind fun _ => (moves_load _).bind fun _ => Moves.pure _)
    split
    · exact Moves.ite (moves_tupleAssignment hev _ _ _) (hplain ())
    · exact hplain ()

theorem moves_call (e callee : Expr) (args : List Expr) (kind : CallKind) (value gas : Option Expr) :
    Moves env (Quiet env) (call ev e callee args kind value gas) := by
  unfold call
  split
  · exact (moves_expectArgs _ _ _).bind fun _ => (hev.single _).bind fun _ =>
      (moves_convert _ _ _).bind fun _ => Moves.pure _
  · split
    · exact (moves_constructStruct hev _ _ _).bind fun _ => Moves.pure _
    · exact Moves.throw _
  -- a regular call, by what the callee names
  split
  · exact moves_builtinCall hev _ _ _
  · exact (moves_ask _).bind fun _ => moves_internalCall hev _ _ _
  · split
    · exact moves_get.bind fun _ => (moves_ask _).bind fun _ => moves_internalCall hev _ _ _
    · exact moves_staticCall hev _ _ _ _
    · exact moves_externalCall hev _ _ _ _ _ _
  · split
    case h_1 =>
      exact Moves.ite ((moves_expectArgs _ _ _).bind fun _ => moves_push hev _ _ _) (Moves.throw _)
    case h_2 | h_3 | h_4 | h_5 =>
      exact (moves_expectArgs _ _ _).bind fun _ => moves_transfer hev _ _ _
    case h_6 => exact Moves.throw _
  · exact moves_create hev _ _ _ _
  · exact (moves_expectArgs _ _ _).bind fun _ => (moves_newMemoryArray hev _ _).bind fun _ =>
      Moves.pure _
  · exact Moves.throw _

theorem moves_memberValue (e base : Expr) (member : String) :
    Moves env (Quiet env) (memberValue ev e base member) := by
  unfold memberValue
  split
  case h_1 | h_2 => exact (hev.single _).bind fun _ => (moves_emit _).bind fun _ => Moves.pure _
  case h_3 => exact Moves.pure _
  case h_4 =>
    exact (hev.single _).bind fun _ =>
      Moves.ite ((moves_emit _).bind fun _ => Moves.pure _) ((moves_emit _).bind fun _ => Moves.pure _)
  case h_5 => exact (hev.place _).bind fun _ => (moves_load _).bind fun _ => Moves.pure _
  case h_6 => exact Moves.throw _

theorem moves_unaryOp (e : Expr) (op : UnaryOp) (isPrefix : Bool) (operand : Expr) :
    Moves env (Quiet env) (unaryOp ev e op isPrefix operand) := by
  unfold unaryOp
  split
  case h_1 => exact (hev.single _).bind fun _ => (moves_unary _ _).bind fun _ => Moves.pure _
  case h_2 =>
    exact (hev.single _).bind fun _ => (moves_unary _ _).bind fun _ =>
      (moves_mask _ _).bind fun _ => Moves.pure _
  case h_3 =>
    refine (hev.single _).bind fun v => ?_
    extract_lets masked
    have hmasked : ∀ v, Moves env (Quiet env) (masked v) := fun _ =>
      (moves_mask _ _).bind fun _ => Moves.pure _
    split
    · exact (Moves.pure _).bind hmasked
    · exact (moves_binary _ _ _).bind hmasked
  case h_4 | h_5 =>
    exact (hev.place _).bind fun _ => (moves_update _ _ _ _ _).bind fun _ => Moves.pure _
  case h_6 => exact (hev.place _).bind fun _ => (moves_delete _ _).bind fun _ => Moves.pure _

theorem moves_binaryOp (e : Expr) (op : BinaryOp) (l r : Expr) :
    Moves env (Quiet env) (binaryOp ev e op l r) := by
  refine (hev.single _).bind fun _ => (moves_convert _ _ _).bind fun _ => (hev.single _).bind fun _ => ?_
  extract_lets operate
  have hoperate : ∀ v, Moves env (Quiet env) (operate v) := fun _ =>
    (moves_binaryOperation _ _ _ _ _).bind fun _ => Moves.pure _
  exact Moves.ite ((Moves.pure _).bind hoperate) ((moves_convert _ _ _).bind hoperate)

theorem moves_indexPlace (e base : Expr) (index : Option Expr) :
    Moves env (Quiet env) (indexPlace ev e base index) := by
  unfold indexPlace
  split
  · split
    · exact (hev.single _).bind fun _ => (hev.single _).bind fun _ => (moves_convert _ _ _).bind fun _ =>
        (moves_emit _).bind fun _ => Moves.pure _
    · exact Moves.ite ((hev.single _).bind fun _ => (hev.single _).bind fun _ =>
          (moves_storageElementSlot _ _ _ _).bind fun _ => Moves.pure _)
        ((hev.single _).bind fun _ => (hev.single _).bind fun _ =>
          (moves_memoryElementAddress _ _).bind fun _ => Moves.pure _)
    · exact Moves.throw _
    · exact Moves.throw _
  · exact Moves.throw _

theorem moves_memberPlace (e base : Expr) (member : String) :
    Moves env (Quiet env) (memberPlace ev e base member) := by
  unfold memberPlace
  split
  · exact (moves_memberIndex _ _ _).bind fun _ => (moves_memberType _ _).bind fun _ =>
      (hev.single _).bind fun _ =>
        Moves.ite ((moves_offset _ _).bind fun _ => Moves.pure _)
          ((moves_storageFieldOffset _ _ _).bind fun _ => (moves_offset _ _).bind fun _ => Moves.pure _)
  · exact Moves.ite ((hev.single _).bind fun _ => Moves.pure _) (Moves.throw _)
  · exact Moves.throw _

end Routines

section Step

variable {fuel : Nat} (ih : EvalMoves env ⟨values fuel, single fuel, place fuel⟩)
include ih

theorem moves_values_succ (e : Expr) : Moves env (Quiet env) (values (fuel + 1) e) := by
  unfold values
  split
  case h_1 | h_2 => exact Moves.pure _
  case h_3 =>
    extract_lets ev viaPlace
    -- a constant is its initializer; any other variable is read from its place
    have hplace : ∀ u, Moves env (Quiet env) (viaPlace u) := fun _ =>
      (ih.place _).bind fun _ => (moves_load _).bind fun _ => Moves.pure _
    refine (moves_varDecl _).bind fun d => Moves.ite ?_ (hplace ())
    split
    · exact (ih.single _).bind fun _ => (moves_convert _ _ _).bind fun _ => Moves.pure _
    · exact Moves.throw_bind _ _
  case h_4 | h_5 => exact (moves_context _).bind fun _ => Moves.pure _
  case h_6 | h_15 | h_16 => exact Moves.throw _
  case h_7 => exact moves_unaryOp ih _ _ _ _
  case h_8 =>
    exact Moves.ite ((moves_shortCircuit ih _ _ _).bind fun _ => Moves.pure _) (moves_binaryOp ih _ _ _ _)
  case h_9 => exact moves_assignment ih _ _ _ _
  case h_10 => exact (moves_conditional ih _ _ _ _).bind fun _ => Moves.pure _
  case h_11 => exact Moves.mapM fun | some _ => ih.single _ | none => Moves.throw _
  case h_12 => exact moves_call ih _ _ _ _ _ _
  case h_13 =>
    extract_lets ev rest
    have hrest : ∀ u, Moves env (Quiet env) (rest u) := by
      intro u
      dsimp -zeta only [rest]
      split
      · exact (moves_varDecl _).bind fun _ => ih.values _
      · exact moves_memberValue ih _ _ _
    split
    · split
      · exact (moves_context _).bind fun _ => Moves.pure _
      · exact hrest ()
    · exact hrest ()
  case h_14 => exact (ih.place _).bind fun _ => (moves_load _).bind fun _ => Moves.pure _

theorem moves_single_succ (e : Expr) : Moves env (Quiet env) (single (fuel + 1) e) := by
  unfold single
  refine (ih.values e).bind fun vs => ?_
  split
  · exact Moves.pure _
  · exact Moves.throw _

theorem moves_place_succ (e : Expr) : Moves env (Quiet env) (place (fuel + 1) e) := by
  unfold place
  split
  · exact moves_variablePlace _ _ _
  · exact moves_indexPlace ih _ _ _
  · exact moves_memberPlace ih _ _ _
  · exact ih.place _
  · exact Moves.throw _
  · exact Moves.throw _

end Step

theorem evalMoves (fuel : Nat) : EvalMoves env ⟨values fuel, single fuel, place fuel⟩ := by
  induction fuel with
  | zero =>
    refine ⟨fun _ => ?_, fun _ => ?_, fun _ => ?_⟩
    · unfold values
      exact Moves.throw _
    · unfold single
      exact Moves.throw _
    · unfold place
      exact Moves.throw _
  | succ fuel ih => exact ⟨moves_values_succ ih, moves_single_succ ih, moves_place_succ ih⟩

theorem moves_eval_bind {α : Type} {R : FnState → FnState → Prop} {f : Eval → Gen α}
    (hf : ∀ ev, EvalMoves env ev → Moves env R (f ev)) : Moves env R (eval >>= f) := by
  unfold eval
  rw [bind_assoc]
  exact (moves_unit.bind fun _ => Moves.pure _).bind fun fuel => by
    rw [pure_bind]
    exact hf _ (evalMoves fuel)

end Gen

end ContractCfg.Lower
