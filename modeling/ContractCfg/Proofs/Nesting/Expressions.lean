import ContractCfg.Proofs.Nesting.Steady

/-!
Lowering an expression keeps the site and raises no misplaced-statement error, whatever the
expression: an expression holds no statement, and the blocks that calls, checks, `&&`, `||` and
`?:` make are no loops. The evaluator is steady at every fuel, by induction on the fuel.
-/

namespace ContractCfg.Lower

open ContractCfg.Source
open ContractCfg.IR (Value Instr)

/-- Evaluators that are steady. -/
structure EvalSteady (ev : Eval) : Prop where
  values : ∀ e, Steady (ev.values e)
  single : ∀ e, Steady (ev.single e)
  place : ∀ e, Steady (ev.place e)

theorem placed_alignComponents (present : List Bool) (available node : Nat) :
    Placed (alignComponents present available node) := by
  unfold alignComponents
  extract_lets wanted finish
  have hfinish : ∀ shift, Placed (finish shift) := fun _ => Placed.ok _
  exact Placed.ite ((Placed.ok _).bind hfinish) (Placed.ite ((Placed.ok _).bind hfinish)
    (Placed.ite ((Placed.ok _).bind hfinish) ((Placed.throw rfl).bind hfinish)))

namespace Gen

theorem steady_expectArgs (node : Nat) (args : List Expr) (n : Nat) :
    Steady (expectArgs node args n) :=
  Steady.ite (Steady.throw rfl) (Steady.pure _)

theorem steady_checkStatus (status : Value) (label : String) : Steady (checkStatus status label) :=
  steady_statusRevertBlock.bind fun ⟨_, _⟩ => (steady_emitUnit _).bind fun _ =>
    steady_failIf status _ label

theorem steady_variablePlace (e : Expr) (name : String) (v : Nat) :
    Steady (variablePlace e name v) := by
  unfold variablePlace
  refine (steady_varDecl _).bind fun d => ?_
  extract_lets register slot
  -- a register of the layers, or else the slot of a state variable
  have hregister : ∀ u, Steady (register u) := fun _ =>
    (steady_lookupVar _).bind fun x => by
      split
      · exact Steady.pure _
      · exact Steady.throw rfl
  have hslot : ∀ u, Steady (slot u) := fun _ =>
    Steady.ite (steady_get.bind fun _ => by
      split
      · exact Steady.pure _
      · exact Steady.throw_bind rfl _) (hregister ())
  exact Steady.ite (Steady.throw_bind rfl _) (hslot ())

section Routines

variable {ev : Eval} (hev : EvalSteady ev)
include hev

theorem steady_callArguments (node f : Nat) (args : List Expr) :
    Steady (callArguments ev node f args) :=
  (steady_functionDef f).bind fun _ => (steady_expectArgs _ _ _).bind fun _ =>
    Steady.mapM fun ⟨_, _⟩ => (steady_varDecl _).bind fun _ =>
      (hev.single _).bind fun _ => steady_prepareValue _ _ _ _

theorem steady_internalCall (node target : Nat) (args : List Expr) :
    Steady (internalCall ev node target args) := by
  unfold internalCall
  refine (steady_functionDef _).bind fun _ =>
    (steady_ask fun env => env.placed_isForeignLibrary _).bind fun _ =>
    (steady_ask fun env => env.placed_rejectsValue _).bind fun _ => ?_
  extract_lets call queue
  -- the call itself, under the name chosen, and the queueing of a qualified copy
  have hcall : ∀ name, Steady (call name) := fun _ =>
    (steady_callArguments hev _ _ _).bind fun _ => steady_emitMany _ _
  have hqueue : ∀ u, Steady (queue u) := fun _ =>
    (steady_ask fun env => env.placed_qualifiedName _).bind hcall
  exact Steady.ite (steady_get.bind fun _ =>
      Steady.ite ((steady_modifyContract _).bind hqueue) (hqueue ()))
    ((steady_ask fun env => env.placed_functionName _).bind hcall)

theorem steady_staticCall (node c f : Nat) (args : List Expr) :
    Steady (staticCall ev node c f args) := by
  unfold staticCall
  refine (steady_functionDef _).bind fun _ => (steady_contractDef _).bind fun _ =>
    steady_read.bind fun _ => ?_
  extract_lets call checked
  have hcall : ∀ u, Steady (call u) := fun _ => steady_internalCall hev _ _ _
  have hchecked : ∀ u, Steady (checked u) := fun _ =>
    Steady.ite ((steady_ask fun env => env.placed_signature _).bind fun _ => Steady.throw_bind rfl _)
      (hcall ())
  exact Steady.ite (Steady.throw_bind rfl _) (hchecked ())

theorem steady_externalCall (node : Nat) (base : Expr) (f : Nat) (args : List Expr)
    (value gas : Option Expr) : Steady (externalCall ev node base f args value gas) := by
  unfold externalCall
  refine (steady_functionDef _).bind fun _ =>
    (Steady.anyM fun _ => (steady_varDecl _).bind fun _ => Steady.pure _).bind fun _ => ?_
  extract_lets call
  refine Steady.ite (Steady.throw_bind rfl _) ?_
  refine (hev.single _).bind fun _ => (steady_callArguments hev _ _ _).bind fun _ => ?_
  extract_lets withAmount
  have hamount : ∀ amount, Steady (withAmount amount) := by
    intro amount
    dsimp -zeta only [withAmount]
    extract_lets withGas
    have hgas : ∀ g, Steady (withGas g) := fun _ =>
      (steady_ask fun env => env.placed_signature _).bind fun _ => (steady_emitMany _ _).bind fun _ =>
        (steady_checkStatus _ _).bind fun _ => Steady.pure _
    split
    · exact (hev.single _).bind hgas
    · exact (steady_context _).bind hgas
  split
  · exact (hev.single _).bind hamount
  · exact (Steady.pure _).bind hamount

theorem steady_transfer (base amount : Expr) (revertOnFailure : Bool) :
    Steady (transfer ev base amount revertOnFailure) :=
  (hev.single _).bind fun _ => (hev.single _).bind fun _ => (steady_emit _).bind fun _ =>
    Steady.ite ((steady_checkStatus _ _).bind fun _ => Steady.pure _)
      ((steady_unary _ _).bind fun _ => Steady.pure _)

theorem steady_create (node c : Nat) (args : List Expr) (value : Option Expr) :
    Steady (create ev node c args value) := by
  unfold create
  refine (steady_contractDef _).bind fun _ => steady_read.bind fun _ => ?_
  split
  · refine (steady_expectArgs _ _ _).bind fun _ =>
      (steady_ask fun env => env.placed_constructorOf _).bind fun _ => ?_
    extract_lets withValues
    have hvalues : ∀ values, Steady (withValues values) := by
      intro values
      dsimp -zeta only [withValues]
      extract_lets withAmount
      have hamount : ∀ amount, Steady (withAmount amount) := by
        intro amount
        dsimp -zeta only [withAmount]
        refine (steady_emitMany _ _).bind fun _ => (steady_checkStatus _ _).bind fun _ =>
          steady_get.bind fun _ => ?_
        extract_lets done
        exact Steady.ite ((steady_modifyContract _).bind fun _ => Steady.pure _) (Steady.pure _)
      split
      · exact (hev.single _).bind hamount
      · exact (Steady.pure _).bind hamount
    split
    · exact (steady_callArguments hev _ _ _).bind hvalues
    · exact (Steady.pure _).bind hvalues
  · exact Steady.throw rfl

theorem steady_push (node : Nat) (base elem : Expr) : Steady (push ev node base elem) := by
  unfold push
  split
  · exact (hev.single _).bind fun _ => (hev.single _).bind fun _ => (steady_emit _).bind fun _ =>
      (steady_binary _ _ _).bind fun _ => (steady_emitUnit _).bind fun _ =>
      (steady_storageSize _ _).bind fun _ => (steady_emit _).bind fun _ =>
      (steady_scale _ _).bind fun _ => (steady_offset _ _).bind fun _ =>
      (steady_store _ _ _ _).bind fun _ => Steady.pure _
  · exact Steady.throw rfl

theorem steady_newMemoryArray (t : TypeName) (length : Expr) :
    Steady (newMemoryArray ev t length) := by
  unfold newMemoryArray
  split
  · exact (hev.single _).bind fun _ => (steady_offset _ _).bind fun _ => (steady_emit _).bind fun _ =>
      (steady_emitUnit _).bind fun _ => Steady.pure _
  · exact Steady.throw rfl

theorem steady_constructStruct (node id : Nat) (args : List Expr) :
    Steady (constructStruct ev node id args) :=
  (steady_structDef _).bind fun _ => (steady_expectArgs _ _ _).bind fun _ =>
    (steady_emit _).bind fun _ => (Steady.forIn (fun ⟨⟨_, _⟩, _⟩ _ => (hev.single _).bind fun _ =>
      (steady_prepareValue _ _ _ _).bind fun _ => (steady_offset _ _).bind fun _ =>
        (steady_emitUnit _).bind fun _ => Steady.pure _) _).bind fun _ => Steady.pure _

theorem steady_hashLike (node : Nat) (args : List Expr) (ir : IR.Builtin) (arity : Option Nat) :
    Steady (builtinCall.hashLike ev node args ir arity) := by
  unfold builtinCall.hashLike
  extract_lets hash
  have hhash : ∀ u, Steady (hash u) := fun _ =>
    (Steady.mapM fun _ => hev.single _).bind fun _ => (steady_emit _).bind fun _ => Steady.pure _
  split
  · exact (steady_expectArgs _ _ _).bind hhash
  · exact hhash ()

theorem steady_builtinCall (node : Nat) (b : Builtin) (args : List Expr) :
    Steady (builtinCall ev node b args) := by
  cases b <;> dsimp -zeta only [builtinCall]
  case require | assert =>
    -- the join points, innermost first: the end, the failure check, the rest after the arity
    extract_lets done fail check
    have hfail : ∀ failed, Steady (fail failed) := fun failed =>
      Steady.ite
        (steady_revertBlock.bind fun k => (steady_failIf failed k _).bind fun _ => Steady.pure _)
        (steady_assertFailBlock.bind fun k => (steady_failIf failed k _).bind fun _ => Steady.pure _)
    have hcheck : ∀ u, Steady (check u) := by
      intro u
      refine (hev.single _).bind fun cond => ?_
      extract_lets decide
      have hdecide : ∀ u, Steady (decide u) := by
        intro u
        dsimp -zeta only [decide]
        split
        · exact (Steady.pure _).bind hfail
        · exact (steady_unary _ _).bind hfail
      split
      · exact (hev.values _).discard.bind hdecide
      · exact hdecide ()
    exact Steady.ite (Steady.throw_bind rfl _) (hcheck ())
  case revert =>
    exact steady_revertBlock.bind fun k => (steady_jumpAndDetach k).bind fun _ => Steady.pure _
  case gasLeft =>
    exact (steady_expectArgs _ _ _).bind fun _ => (steady_context _).bind fun _ => Steady.pure _
  case selfDestruct =>
    exact (steady_expectArgs _ _ _).bind fun _ => (hev.single _).bind fun _ =>
      (steady_emitMany _ _).discard.bind fun _ => steady_returnValues.bind fun _ =>
        (steady_terminate _).bind fun _ => (steady_startBlock _).discard.bind fun _ => Steady.pure _
  all_goals exact steady_hashLike hev _ _ _ _

theorem steady_shortCircuit (isAnd : Bool) (l r : Expr) : Steady (shortCircuit ev isAnd l r) := by
  unfold shortCircuit
  refine (steady_freshLocal _).bind fun _ => (hev.single l).bind fun _ => (steady_emitUnit _).bind fun _ =>
    (steady_createBlock _).bind fun _ => (steady_createBlock _).bind fun _ =>
      Steady.ite ((steady_terminate _).bind fun _ => ?_) ((steady_terminate _).bind fun _ => ?_) <;>
  exact (steady_switchTo _).bind fun _ => (hev.single r).bind fun _ => (steady_emitUnit _).bind fun _ =>
    (steady_jumpIfOpen _).bind fun _ => (steady_switchTo _).bind fun _ => Steady.pure _

theorem steady_conditional (e c a b : Expr) : Steady (conditional ev e c a b) := by
  unfold conditional
  extract_lets rest
  refine Steady.ite (Steady.throw_bind rfl _) ?_
  dsimp only [rest]
  refine (hev.single c).bind fun _ => (steady_freshLocal _).bind fun _ =>
    (steady_createBlock _).bind fun _ => (steady_createBlock _).bind fun _ =>
    (steady_createBlock _).bind fun _ => (steady_terminate _).bind fun _ => ?_
  -- the two arms, each in its own block and on to the join, then the join
  exact (Steady.forIn (fun ⟨_, _⟩ _ => (steady_switchTo _).bind fun _ => (hev.single _).bind fun _ =>
    (steady_prepareValue _ _ _ _).bind fun _ => (steady_emitUnit _).bind fun _ =>
      (steady_jumpIfOpen _).bind fun _ => Steady.pure _) _).bind fun _ =>
        (steady_switchTo _).bind fun _ => Steady.pure _

theorem steady_tupleAssignment (e : Expr) (items : List (Option Expr)) (right : Expr) :
    Steady (tupleAssignment ev e items right) := by
  unfold tupleAssignment
  refine (hev.values _).bind fun values =>
    (Steady.lift (placed_alignComponents _ _ _)).bind fun pairing => ?_
  refine (Steady.forIn (fun ⟨item, source⟩ _ => ?_) _).bind fun targets =>
    (Steady.forInArray (fun ⟨_, _⟩ _ => (steady_store _ _ _ _).bind fun _ => Steady.pure _) _).bind
      fun _ => Steady.pure _
  dsimp only
  split
  · exact (hev.place _).bind fun _ => Steady.pure _
  · exact Steady.pure _

theorem steady_assignment (e : Expr) (op : Option BinaryOp) (left right : Expr) :
    Steady (assignment ev e op left right) := by
  unfold assignment
  split
  · exact (hev.single _).bind fun _ => (hev.place _).bind fun _ =>
      (steady_update _ _ _ _ _).bind fun ⟨_, _⟩ => Steady.pure _
  · extract_lets plain
    have hplain : ∀ u, Steady (plain u) := fun _ =>
      (hev.single _).bind fun _ => (hev.place _).bind fun _ =>
        Steady.ite ((steady_convert _ _ _).bind fun _ => (steady_store _ _ _ _).bind fun _ =>
          Steady.pure _) ((steady_store _ _ _ _).bind fun _ => (steady_load _).bind fun _ => Steady.pure _)
    split
    · exact Steady.ite (steady_tupleAssignment hev _ _ _) (hplain ())
    · exact hplain ()

theorem steady_call (e callee : Expr) (args : List Expr) (kind : CallKind) (value gas : Option Expr) :
    Steady (call ev e callee args kind value gas) := by
  unfold call
  split
  · exact (steady_expectArgs _ _ _).bind fun _ => (hev.single _).bind fun _ =>
      (steady_convert _ _ _).bind fun _ => Steady.pure _
  · split
    · exact (steady_constructStruct hev _ _ _).bind fun _ => Steady.pure _
    · exact Steady.throw rfl
  -- a regular call, by what the callee names
  split
  · exact steady_builtinCall hev _ _ _
  · exact (steady_ask fun env => env.placed_resolve _ _ _).bind fun _ => steady_internalCall hev _ _ _
  · split
    · exact steady_get.bind fun _ =>
        (steady_ask fun env => env.placed_resolve _ _ _).bind fun _ => steady_internalCall hev _ _ _
    · exact steady_staticCall hev _ _ _ _
    · exact steady_externalCall hev _ _ _ _ _ _
  · split
    case h_1 =>
      exact Steady.ite ((steady_expectArgs _ _ _).bind fun _ => steady_push hev _ _ _) (Steady.throw rfl)
    case h_2 | h_3 | h_4 | h_5 =>
      exact (steady_expectArgs _ _ _).bind fun _ => steady_transfer hev _ _ _
    case h_6 => exact Steady.throw rfl
  · exact steady_create hev _ _ _ _
  · exact (steady_expectArgs _ _ _).bind fun _ => (steady_newMemoryArray hev _ _).bind fun _ =>
      Steady.pure _
  · exact Steady.throw rfl

theorem steady_memberValue (e base : Expr) (member : String) :
    Steady (memberValue ev e base member) := by
  unfold memberValue
  split
  case h_1 | h_2 => exact (hev.single _).bind fun _ => (steady_emit _).bind fun _ => Steady.pure _
  case h_3 => exact Steady.pure _
  case h_4 =>
    exact (hev.single _).bind fun _ =>
      Steady.ite ((steady_emit _).bind fun _ => Steady.pure _) ((steady_emit _).bind fun _ => Steady.pure _)
  case h_5 => exact (hev.place _).bind fun _ => (steady_load _).bind fun _ => Steady.pure _
  case h_6 => exact Steady.throw rfl

theorem steady_unaryOp (e : Expr) (op : UnaryOp) (isPrefix : Bool) (operand : Expr) :
    Steady (unaryOp ev e op isPrefix operand) := by
  unfold unaryOp
  split
  case h_1 => exact (hev.single _).bind fun _ => (steady_unary _ _).bind fun _ => Steady.pure _
  case h_2 =>
    exact (hev.single _).bind fun _ => (steady_unary _ _).bind fun _ =>
      (steady_mask _ _).bind fun _ => Steady.pure _
  case h_3 =>
    refine (hev.single _).bind fun v => ?_
    extract_lets masked
    have hmasked : ∀ v, Steady (masked v) := fun _ => (steady_mask _ _).bind fun _ => Steady.pure _
    split
    · exact (Steady.pure _).bind hmasked
    · exact (steady_binary _ _ _).bind hmasked
  case h_4 | h_5 =>
    exact (hev.place _).bind fun _ => (steady_update _ _ _ _ _).bind fun _ => Steady.pure _
  case h_6 => exact (hev.place _).bind fun _ => (steady_delete _ _).bind fun _ => Steady.pure _

theorem steady_binaryOp (e : Expr) (op : BinaryOp) (l r : Expr) : Steady (binaryOp ev e op l r) := by
  refine (hev.single _).bind fun _ => (steady_convert _ _ _).bind fun _ => (hev.single _).bind fun _ => ?_
  extract_lets operate
  have hoperate : ∀ v, Steady (operate v) := fun _ =>
    (steady_binaryOperation _ _ _ _ _).bind fun _ => Steady.pure _
  exact Steady.ite ((Steady.pure _).bind hoperate) ((steady_convert _ _ _).bind hoperate)

theorem steady_indexPlace (e base : Expr) (index : Option Expr) :
    Steady (indexPlace ev e base index) := by
  unfold indexPlace
  split
  · split
    · exact (hev.single _).bind fun _ => (hev.single _).bind fun _ => (steady_convert _ _ _).bind fun _ =>
        (steady_emit _).bind fun _ => Steady.pure _
    · exact Steady.ite ((hev.single _).bind fun _ => (hev.single _).bind fun _ =>
          (steady_storageElementSlot _ _ _ _).bind fun _ => Steady.pure _)
        ((hev.single _).bind fun _ => (hev.single _).bind fun _ =>
          (steady_memoryElementAddress _ _).bind fun _ => Steady.pure _)
    · exact Steady.throw rfl
    · exact Steady.throw rfl
  · exact Steady.throw rfl

theorem steady_memberPlace (e base : Expr) (member : String) :
    Steady (memberPlace ev e base member) := by
  unfold memberPlace
  split
  · exact (steady_memberIndex _ _ _).bind fun _ => (steady_memberType _ _).bind fun _ =>
      (hev.single _).bind fun _ =>
        Steady.ite ((steady_offset _ _).bind fun _ => Steady.pure _)
          ((steady_storageFieldOffset _ _ _).bind fun _ => (steady_offset _ _).bind fun _ => Steady.pure _)
  · exact Steady.ite ((hev.single _).bind fun _ => Steady.pure _) (Steady.throw rfl)
  · exact Steady.throw rfl

end Routines

section Step

variable {fuel : Nat} (ih : EvalSteady ⟨values fuel, single fuel, place fuel⟩)
include ih

theorem steady_values_succ (e : Expr) : Steady (values (fuel + 1) e) := by
  unfold values
  split
  case h_1 | h_2 => exact Steady.pure _
  case h_3 =>
    extract_lets ev viaPlace
    -- a constant is its initializer; any other variable is read from its place
    have hplace : ∀ u, Steady (viaPlace u) := fun _ =>
      (ih.place _).bind fun _ => (steady_load _).bind fun _ => Steady.pure _
    refine (steady_varDecl _).bind fun d => Steady.ite ?_ (hplace ())
    split
    · exact (ih.single _).bind fun _ => (steady_convert _ _ _).bind fun _ => Steady.pure _
    · exact Steady.throw_bind rfl _
  case h_4 | h_5 => exact (steady_context _).bind fun _ => Steady.pure _
  case h_6 | h_15 | h_16 => exact Steady.throw rfl
  case h_7 => exact steady_unaryOp ih _ _ _ _
  case h_8 =>
    exact Steady.ite ((steady_shortCircuit ih _ _ _).bind fun _ => Steady.pure _) (steady_binaryOp ih _ _ _ _)
  case h_9 => exact steady_assignment ih _ _ _ _
  case h_10 => exact (steady_conditional ih _ _ _ _).bind fun _ => Steady.pure _
  case h_11 => exact Steady.mapM fun | some _ => ih.single _ | none => Steady.throw rfl
  case h_12 => exact steady_call ih _ _ _ _ _ _
  case h_13 =>
    extract_lets ev rest
    have hrest : ∀ u, Steady (rest u) := by
      intro u
      dsimp -zeta only [rest]
      split
      · exact (steady_varDecl _).bind fun _ => ih.values _
      · exact steady_memberValue ih _ _ _
    split
    · split
      · exact (steady_context _).bind fun _ => Steady.pure _
      · exact hrest ()
    · exact hrest ()
  case h_14 => exact (ih.place _).bind fun _ => (steady_load _).bind fun _ => Steady.pure _

theorem steady_single_succ (e : Expr) : Steady (single (fuel + 1) e) := by
  unfold single
  refine (ih.values e).bind fun vs => ?_
  split
  · exact Steady.pure _
  · exact Steady.throw rfl

theorem steady_place_succ (e : Expr) : Steady (place (fuel + 1) e) := by
  unfold place
  split
  · exact steady_variablePlace _ _ _
  · exact steady_indexPlace ih _ _ _
  · exact steady_memberPlace ih _ _ _
  · exact ih.place _
  · exact Steady.throw rfl
  · exact Steady.throw rfl

end Step

theorem evalSteady (fuel : Nat) : EvalSteady ⟨values fuel, single fuel, place fuel⟩ := by
  induction fuel with
  | zero =>
    refine ⟨fun _ => ?_, fun _ => ?_, fun _ => ?_⟩
    · unfold values
      exact Steady.throw rfl
    · unfold single
      exact Steady.throw rfl
    · unfold place
      exact Steady.throw rfl
  | succ fuel ih => exact ⟨steady_values_succ ih, steady_single_succ ih, steady_place_succ ih⟩

theorem steady_eval_bind {α : Type} {f : Eval → Gen α} (hf : ∀ ev, EvalSteady ev → Steady (f ev)) :
    Steady (eval >>= f) := by
  unfold eval
  rw [bind_assoc]
  exact (steady_unit.bind fun _ => Steady.pure _).bind fun fuel => by
    rw [pure_bind]
    exact hf _ (evalSteady fuel)

end Gen

end ContractCfg.Lower
