import ContractCfg.Lower.Expr
import ContractCfg.Proofs.Cursor.Queries

/-!
Lowering types, operators, places and expressions keeps the cursor protocol. Types and
storage layout only read the program and fill the struct registry (`FnFixed`); every other
routine appends to the current block, and the few that branch (checks, `&&`, `||`, `?:`)
close it and go on in a fresh block, so each one `Keeps` the protocol. The three evaluators
keep it for every fuel.
-/

namespace ContractCfg.Lower

open ContractCfg.Source
open ContractCfg.IR (Value Instr)

/-- Evaluators that keep the cursor protocol. -/
structure EvalKeeps (ev : Eval) : Prop where
  values : ∀ e, Keeps (ev.values e)
  single : ∀ e, Keeps (ev.single e)
  place : ∀ e, Keeps (ev.place e)

namespace Gen

theorem fnFixed_types : FnFixed types := FnFixed.bind fnFixed_get fun _ => FnFixed.pure _

mutual
theorem fnFixed_irTypeWith (fuel : Nat) (t : TypeName) (node : Nat) :
    FnFixed (irTypeWith fuel t node) := by
  cases t with
  | contract c =>
    rw [irTypeWith]
    exact (fnFixed_contractDef c).bind fun _ => FnFixed.pure _
  | array base len loc =>
    rw [irTypeWith]
    exact (fnFixed_irTypeWith fuel base node).bind fun _ => FnFixed.pure _
  | mapping k v =>
    rw [irTypeWith]
    exact (fnFixed_irTypeWith fuel k node).bind fun _ =>
      (fnFixed_irTypeWith fuel v node).bind fun _ => FnFixed.pure _
  | struct id loc =>
    rw [irTypeWith]
    exact (fnFixed_registerStruct fuel id node).bind fun _ => FnFixed.pure _
  | tuple _ | void =>
    rw [irTypeWith]
    exact FnFixed.throw (by rfl)
  | bool | uint _ | int _ | address | fixedBytes _ =>
    rw [irTypeWith]
    exact FnFixed.pure _
termination_by (fuel, sizeOf t)

theorem fnFixed_registerStruct (fuel id node : Nat) : FnFixed (registerStruct fuel id node) := by
  cases fuel with
  | zero =>
    rw [registerStruct]
    exact FnFixed.throw (by rfl)
  | succ fuel =>
    rw [registerStruct]
    refine fnFixed_types.bind fun _ => FnFixed.ite (FnFixed.pure _) ?_
    exact (fnFixed_structDef id).bind fun _ => (fnFixed_modifyContract _).bind fun _ =>
      (FnFixed.mapM fun (m : StructMember) => (fnFixed_irTypeWith fuel m.ty node).bind fun _ => FnFixed.pure _).bind
        fun _ => fnFixed_modifyContract _
termination_by (fuel, 0)
end

theorem fnFixed_irType (t : TypeName) (node : Nat) : FnFixed (irType t node) :=
  fnFixed_unit.bind fun _ => fnFixed_irTypeWith _ t node

theorem fnFixed_registerStructOf (id node : Nat) : FnFixed (registerStructOf id node) :=
  fnFixed_unit.bind fun _ => fnFixed_registerStruct _ id node

theorem fnFixed_storageSize (t : TypeName) (node : Nat) : FnFixed (storageSize t node) := by
  refine (fnFixed_irType t node).bind fun _ => fnFixed_types.bind fun r => ?_
  unfold storageSize.need'
  split
  · exact FnFixed.pure _
  · exact FnFixed.throw (by rfl)

theorem fnFixed_storageFieldOffset (id index node : Nat) :
    FnFixed (storageFieldOffset id index node) := by
  refine (fnFixed_registerStructOf id node).bind fun _ => fnFixed_types.bind fun r => ?_
  split
  · exact FnFixed.throw (by rfl)
  · exact FnFixed.throw (by rfl)
  · exact FnFixed.pure _

theorem fnFixed_memberIndex (id : Nat) (name : String) (node : Nat) :
    FnFixed (memberIndex id name node) := by
  refine (fnFixed_structDef id).bind fun d => ?_
  split
  · exact FnFixed.pure _
  · exact FnFixed.throw (by rfl)

theorem fnFixed_memberType (id i : Nat) : FnFixed (memberType id i) := by
  refine (fnFixed_structDef id).bind fun d => ?_
  split
  · exact FnFixed.pure _
  · exact FnFixed.throw (by rfl)

section Defaults

variable {fuel : Nat} (hv : ∀ t node, Keeps (defaultValueWith fuel t node))
include hv

theorem keeps_defaultMembers (ptr : Value) (node : Nat) :
    ∀ (ms : List TypeName) (i : Nat), Keeps (defaultMembers fuel ptr node i ms)
  | [], i => by
    rw [defaultMembers]
    exact Keeps.pure _
  | m :: ms, i => by
    have ih := keeps_defaultMembers ptr node ms (i + 1)
    rw [defaultMembers]
    dsimp only
    exact Keeps.ite ((hv m node).bind fun _ => (keeps_binary _ _ _).bind fun _ =>
      (keeps_emitUnit _).bind fun _ => ih) ih

theorem keeps_defaultElements (ptr : Value) (base : TypeName) (node : Nat) :
    ∀ (n i : Nat), Keeps (defaultElements fuel ptr base node i n)
  | 0, i => by
    rw [defaultElements]
    exact Keeps.pure _
  | n + 1, i => by
    rw [defaultElements]
    exact (hv base node).bind fun _ => (keeps_binary _ _ _).bind fun _ =>
      (keeps_emitUnit _).bind fun _ => keeps_defaultElements ptr base node n (i + 1)

end Defaults

theorem keeps_defaultValueWith : ∀ (fuel : Nat) (t : TypeName) (node : Nat),
    Keeps (defaultValueWith fuel t node)
  | 0, t, node => by
    rw [defaultValueWith]
    exact Keeps.throw (by rfl)
  | fuel + 1, t, node => by
    have hv := keeps_defaultValueWith fuel
    unfold defaultValueWith
    split
    · exact Keeps.pure _
    · exact (Keeps.of_fnFixed (fnFixed_structDef _)).bind fun _ => (keeps_emit _).bind fun _ =>
        (keeps_defaultMembers hv _ node _ 0).bind fun _ => Keeps.pure _
    · dsimp only
      refine (keeps_emit _).bind fun ptr => Keeps.ite ((keeps_emitUnit _).bind fun _ => ?_) ?_ <;>
        exact Keeps.ite ((keeps_defaultElements hv _ _ node _ 1).bind fun _ => Keeps.pure _) (Keeps.pure _)
    · exact Keeps.pure _

theorem keeps_defaultValue (t : TypeName) (node : Nat) : Keeps (defaultValue t node) :=
  (Keeps.of_fnFixed fnFixed_unit).bind fun _ => keeps_defaultValueWith _ t node

theorem keeps_mask (v : Value) (t : TypeName) : Keeps (mask v t) := by
  unfold mask
  split
  · exact Keeps.pure _
  · split
    · exact Keeps.pure _
    · exact Keeps.ite (keeps_emit _) (keeps_emit _)

theorem keeps_convert (v : Value) (src dst : TypeName) : Keeps (convert v src dst) := by
  unfold convert
  refine Keeps.ite (Keeps.pure _) ?_
  split
  · exact Keeps.ite (keeps_binary _ _ _) (keeps_binary _ _ _)
  · exact Keeps.pure _
  · exact keeps_mask _ _

theorem keeps_binaryOperation (op : BinaryOp) (l r : Value) (t : TypeName) (node : Nat) :
    Keeps (binaryOperation op l r t node) := by
  unfold binaryOperation
  dsimp only
  split
  · rename_i ir _
    -- the operation itself, after the division check if there is one
    have hop : Keeps (binary ir l r >>= fun result =>
        if op.mayOverflow = true then mask result t else Pure.pure result) :=
      (keeps_binary _ _ _).bind fun _ => Keeps.ite (keeps_mask _ _) (Keeps.pure _)
    have hcheck : ∀ isZero, Keeps (assertFailBlock >>= fun fail =>
        failIf isZero fail "div.ok" >>= fun _ => binary ir l r >>= fun result =>
          if op.mayOverflow = true then mask result t else Pure.pure result) :=
      fun isZero => keeps_assertFailBlock_bind fun fail => (keepsAt_failIf isZero fail _).bind fun _ => hop
    refine (Keeps.of_fnFixed fnFixed_read).bind fun _ => Keeps.ite ?_ hop
    split
    · exact (Keeps.pure _).bind hcheck
    · exact (keeps_unary _ _).bind hcheck
  · exact Keeps.throw (by rfl)

theorem keeps_offset (base by_ : Value) : Keeps (offset base by_) := by
  unfold offset
  split
  · exact Keeps.pure _
  · exact Keeps.pure _
  · exact keeps_binary _ _ _

theorem keeps_scale (index : Value) (size : Nat) : Keeps (scale index size) := by
  unfold scale
  refine Keeps.ite (Keeps.pure _) ?_
  split
  · exact Keeps.pure _
  · exact keeps_binary _ _ _

theorem keeps_checkBounds (index length : Value) : Keeps (checkBounds index length) := by
  unfold checkBounds
  dsimp only
  refine (Keeps.of_fnFixed fnFixed_read).bind fun _ => Keeps.ite (Keeps.pure _) ?_
  split <;> refine Keeps.bind ?_ fun outOfRange =>
    keeps_assertFailBlock_bind fun fail => keepsAt_failIf outOfRange fail _
  exacts [Keeps.pure _, keeps_binary _ _ _]

theorem keeps_storageElementSlot (base : Value) (array : TypeName) (index : Value) (node : Nat) :
    Keeps (storageElementSlot base array index node) := by
  unfold storageElementSlot
  dsimp only
  split
  · refine (Keeps.of_fnFixed (fnFixed_storageSize _ node)).bind fun _ => ?_
    split
    on_goal 1 => refine (keeps_checkBounds _ _).bind fun _ => (Keeps.pure _).bind fun start => ?_
    on_goal 2 => refine (keeps_emit _).bind fun _ => (keeps_checkBounds _ _).bind fun _ =>
      (keeps_emit _).bind fun start => ?_
    all_goals exact (keeps_scale _ _).bind fun _ => keeps_offset _ _
  · exact Keeps.throw (by rfl)

theorem keeps_memoryElementAddress (ptr index : Value) : Keeps (memoryElementAddress ptr index) :=
  (keeps_emit _).bind fun _ => (keeps_checkBounds _ _).bind fun _ =>
    (keeps_offset _ _).bind fun _ => keeps_offset _ _

theorem keeps_load (p : Place) : Keeps (load p) := by
  cases p with
  | register x t => exact keeps_emit _
  | memory a t => exact keeps_emit _
  | storage s t => exact Keeps.ite (keeps_emit _) (Keeps.pure _)

theorem keeps_prepareValue (v : Value) (src dst : TypeName) (node : Nat) :
    Keeps (prepareValue v src dst node) := by
  unfold prepareValue
  exact Keeps.ite ((Keeps.of_fnFixed (fnFixed_irType _ _)).bind fun _ => keeps_emit _)
    (Keeps.ite (keeps_convert _ _ _) (Keeps.pure _))

theorem keeps_store (p : Place) (v : Value) (src : TypeName) (node : Nat) :
    Keeps (store p v src node) := by
  cases p with
  | register x t => exact (keeps_prepareValue _ _ _ _).bind fun _ => keeps_emitUnit _
  | memory a t => exact (keeps_prepareValue _ _ _ _).bind fun _ => keeps_emitUnit _
  | storage s t =>
    refine Keeps.ite ((keeps_convert _ _ _).bind fun _ => keeps_emitUnit _) ?_
    exact (Keeps.of_fnFixed (fnFixed_irType _ _)).bind fun _ => Keeps.ite (keeps_emitUnit _)
      (Keeps.ite (keeps_emitUnit _) (Keeps.throw (by rfl)))

theorem keeps_delete (p : Place) (node : Nat) : Keeps (delete p node) := by
  unfold delete
  split
  · exact Keeps.throw (by rfl)
  · exact Keeps.ite ((Keeps.of_fnFixed (fnFixed_irType _ _)).bind fun _ => keeps_emitUnit _)
      ((keeps_defaultValue _ _).bind fun _ => keeps_emitUnit _)
  · exact (keeps_defaultValue _ _).bind fun _ => keeps_emitUnit _
  · exact (keeps_defaultValue _ _).bind fun _ => keeps_emitUnit _

theorem keeps_update (p : Place) (op : BinaryOp) (rhs : Value) (rhsTy : TypeName) (node : Nat) :
    Keeps (update p op rhs rhsTy node) := by
  unfold update
  dsimp only
  refine (keeps_load p).bind fun _ =>
    Keeps.ite ((Keeps.pure _).bind fun _ => ?_) ((keeps_convert _ _ _).bind fun _ => ?_) <;>
  exact (keeps_binaryOperation _ _ _ _ _).bind fun _ => (keeps_store _ _ _ _).bind fun _ => Keeps.pure _

theorem keeps_expectArgs (node : Nat) (args : List Expr) (n : Nat) : Keeps (expectArgs node args n) :=
  Keeps.ite (Keeps.throw (by rfl)) (Keeps.pure _)

theorem keeps_ask {α : Type} {f : Env → Except LowerError α} (hf : ∀ env, Clean (f env)) :
    Keeps (ask f) :=
  (Keeps.of_fnFixed fnFixed_read).bind fun env => Keeps.of_fnFixed (fnFixed_lift (hf env))

theorem keeps_checkStatus (status : Value) (label : String) : Keeps (checkStatus status label) :=
  keeps_statusRevertBlock_bind fun ⟨_, _⟩ => (keeps_emitUnit _).bind_keepsAt fun _ =>
    keepsAt_failIf status _ label

section Calls

variable {ev : Eval} (hev : EvalKeeps ev)
include hev

theorem keeps_callArguments (node f : Nat) (args : List Expr) :
    Keeps (callArguments ev node f args) :=
  (Keeps.of_fnFixed (fnFixed_functionDef f)).bind fun _ => (keeps_expectArgs _ _ _).bind fun _ =>
    Keeps.mapM fun ⟨_, _⟩ => (Keeps.of_fnFixed (fnFixed_varDecl _)).bind fun _ =>
      (hev.single _).bind fun _ => keeps_prepareValue _ _ _ _

theorem keeps_internalCall (node target : Nat) (args : List Expr) :
    Keeps (internalCall ev node target args) := by
  unfold internalCall
  refine (Keeps.of_fnFixed (fnFixed_functionDef _)).bind fun _ =>
    (keeps_ask fun env => env.clean_isForeignLibrary _).bind fun _ =>
    (keeps_ask fun env => env.clean_rejectsValue _).bind fun _ => ?_
  extract_lets call queue
  -- the call itself, under the name chosen, and the queueing of a qualified copy
  have hcall : ∀ name, Keeps (call name) := fun _ =>
    (keeps_callArguments hev _ _ _).bind fun _ => keeps_emitMany _ _
  have hqueue : ∀ u, Keeps (queue u) := fun _ =>
    (keeps_ask fun env => env.clean_qualifiedName _).bind hcall
  exact Keeps.ite ((Keeps.of_fnFixed fnFixed_get).bind fun _ =>
      Keeps.ite ((Keeps.of_fnFixed (fnFixed_modifyContract _)).bind hqueue) (hqueue ()))
    ((keeps_ask fun env => env.clean_functionName _).bind hcall)

theorem keeps_staticCall (node c f : Nat) (args : List Expr) :
    Keeps (staticCall ev node c f args) := by
  unfold staticCall
  refine (Keeps.of_fnFixed (fnFixed_functionDef _)).bind fun _ =>
    (Keeps.of_fnFixed (fnFixed_contractDef _)).bind fun _ =>
    (Keeps.of_fnFixed fnFixed_read).bind fun _ => ?_
  extract_lets call checked
  have hcall : ∀ u, Keeps (call u) := fun _ => keeps_internalCall hev _ _ _
  have hchecked : ∀ u, Keeps (checked u) := fun _ =>
    Keeps.ite ((keeps_ask fun env => env.clean_signature _).bind fun _ => keeps_throw_bind (by rfl) _)
      (hcall ())
  exact Keeps.ite (keeps_throw_bind (by rfl) _) (hchecked ())

theorem keeps_externalCall (node : Nat) (base : Expr) (f : Nat) (args : List Expr)
    (value gas : Option Expr) : Keeps (externalCall ev node base f args value gas) := by
  unfold externalCall
  refine (Keeps.of_fnFixed (fnFixed_functionDef _)).bind fun _ =>
    (Keeps.of_fnFixed (FnFixed.anyM fun _ => (fnFixed_varDecl _).bind fun _ => FnFixed.pure _)).bind
      fun _ => ?_
  extract_lets call
  refine Keeps.ite (keeps_throw_bind (by rfl) _) ?_
  refine (hev.single _).bind fun _ => (keeps_callArguments hev _ _ _).bind fun _ => ?_
  extract_lets withAmount
  have hamount : ∀ amount, Keeps (withAmount amount) := by
    intro amount
    dsimp -zeta only [withAmount]
    extract_lets withGas
    have hgas : ∀ g, Keeps (withGas g) := fun _ =>
      (keeps_ask fun env => env.clean_signature _).bind fun _ => (keeps_emitMany _ _).bind fun _ =>
        (keeps_checkStatus _ _).bind fun _ => Keeps.pure _
    split
    · exact (hev.single _).bind hgas
    · exact (keeps_context _).bind hgas
  split
  · exact (hev.single _).bind hamount
  · exact (Keeps.pure _).bind hamount

theorem keeps_transfer (base amount : Expr) (revertOnFailure : Bool) :
    Keeps (transfer ev base amount revertOnFailure) :=
  (hev.single _).bind fun _ => (hev.single _).bind fun _ => (keeps_emit _).bind fun _ =>
    Keeps.ite ((keeps_checkStatus _ _).bind fun _ => Keeps.pure _)
      ((keeps_unary _ _).bind fun _ => Keeps.pure _)

theorem keeps_create (node c : Nat) (args : List Expr) (value : Option Expr) :
    Keeps (create ev node c args value) := by
  unfold create
  refine (Keeps.of_fnFixed (fnFixed_contractDef _)).bind fun _ =>
    (Keeps.of_fnFixed fnFixed_read).bind fun _ => ?_
  split
  · refine (keeps_expectArgs _ _ _).bind fun _ =>
      (keeps_ask fun env => env.clean_constructorOf _).bind fun _ => ?_
    extract_lets withValues
    have hvalues : ∀ values, Keeps (withValues values) := by
      intro values
      dsimp -zeta only [withValues]
      extract_lets withAmount
      have hamount : ∀ amount, Keeps (withAmount amount) := by
        intro amount
        dsimp -zeta only [withAmount]
        refine (keeps_emitMany _ _).bind fun _ => (keeps_checkStatus _ _).bind fun _ =>
          (Keeps.of_fnFixed fnFixed_get).bind fun _ => ?_
        extract_lets done
        exact Keeps.ite ((Keeps.of_fnFixed (fnFixed_modifyContract _)).bind fun _ => Keeps.pure _)
          (Keeps.pure _)
      split
      · exact (hev.single _).bind hamount
      · exact (Keeps.pure _).bind hamount
    split
    · exact (keeps_callArguments hev _ _ _).bind hvalues
    · exact (Keeps.pure _).bind hvalues
  · exact Keeps.throw (by rfl)

theorem keeps_push (node : Nat) (base elem : Expr) : Keeps (push ev node base elem) := by
  unfold push
  split
  · exact (hev.single _).bind fun _ => (hev.single _).bind fun _ => (keeps_emit _).bind fun _ =>
      (keeps_binary _ _ _).bind fun _ => (keeps_emitUnit _).bind fun _ =>
      (Keeps.of_fnFixed (fnFixed_storageSize _ _)).bind fun _ => (keeps_emit _).bind fun _ =>
      (keeps_scale _ _).bind fun _ => (keeps_offset _ _).bind fun _ =>
      (keeps_store _ _ _ _).bind fun _ => Keeps.pure _
  · exact Keeps.throw (by rfl)

theorem keeps_newMemoryArray (t : TypeName) (length : Expr) :
    Keeps (newMemoryArray ev t length) := by
  unfold newMemoryArray
  split
  · exact (hev.single _).bind fun _ => (keeps_offset _ _).bind fun _ => (keeps_emit _).bind fun _ =>
      (keeps_emitUnit _).bind fun _ => Keeps.pure _
  · exact Keeps.throw (by rfl)

theorem keeps_constructStruct (node id : Nat) (args : List Expr) :
    Keeps (constructStruct ev node id args) :=
  (Keeps.of_fnFixed (fnFixed_structDef _)).bind fun _ => (keeps_expectArgs _ _ _).bind fun _ =>
    (keeps_emit _).bind fun _ => (Keeps.forIn (fun ⟨⟨_, _⟩, _⟩ _ => (hev.single _).bind fun _ =>
      (keeps_prepareValue _ _ _ _).bind fun _ => (keeps_offset _ _).bind fun _ =>
        (keeps_emitUnit _).bind fun _ => Keeps.pure _) _).bind fun _ => Keeps.pure _

theorem keeps_hashLike (node : Nat) (args : List Expr) (ir : IR.Builtin) (arity : Option Nat) :
    Keeps (builtinCall.hashLike ev node args ir arity) := by
  unfold builtinCall.hashLike
  extract_lets hash
  have hhash : ∀ u, Keeps (hash u) := fun _ =>
    (Keeps.mapM fun _ => hev.single _).bind fun _ => (keeps_emit _).bind fun _ => Keeps.pure _
  split
  · exact (keeps_expectArgs _ _ _).bind hhash
  · exact hhash ()

theorem keeps_builtinCall (node : Nat) (b : Builtin) (args : List Expr) :
    Keeps (builtinCall ev node b args) := by
  cases b <;> dsimp -zeta only [builtinCall]
  case require | assert =>
    -- the join points, innermost first: the end, the failure check, the rest after the arity
    extract_lets done fail check
    have hfail : ∀ failed, Keeps (fail failed) := fun failed =>
      Keeps.ite
        (keeps_revertBlock_bind fun k => (keepsAt_failIf failed k _).bind fun _ => Keeps.pure _)
        (keeps_assertFailBlock_bind fun k => (keepsAt_failIf failed k _).bind fun _ => Keeps.pure _)
    have hcheck : ∀ u, Keeps (check u) := by
      intro u
      refine (hev.single _).bind fun cond => ?_
      extract_lets decide
      have hdecide : ∀ u, Keeps (decide u) := by
        intro u
        dsimp -zeta only [decide]
        split
        · exact (Keeps.pure _).bind hfail
        · exact (keeps_unary _ _).bind hfail
      split
      · exact (hev.values _).discard.bind hdecide
      · exact hdecide ()
    exact Keeps.ite (keeps_throw_bind (by rfl) _) (hcheck ())
  case revert =>
    exact keeps_revertBlock_bind fun k => (keepsAt_jumpAndDetach k).bind fun _ => Keeps.pure _
  case gasLeft =>
    exact (keeps_expectArgs _ _ _).bind fun _ => (keeps_context _).bind fun _ => Keeps.pure _
  case selfDestruct =>
    exact (keeps_expectArgs _ _ _).bind fun _ => (hev.single _).bind fun _ =>
      (keeps_emitMany _ _).discard.bind fun _ => (Keeps.of_fnFixed fnFixed_returnValues).bind fun _ =>
        keeps_terminate_detach rfl (by simp) _ fun _ => Keeps.pure _
  all_goals exact keeps_hashLike hev _ _ _ _

end Calls

end Gen

end ContractCfg.Lower
