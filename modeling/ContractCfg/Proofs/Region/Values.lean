import ContractCfg.Proofs.Cursor.Values
import ContractCfg.Proofs.Region.Steps

/-!
Lowering values, places and calls keeps every sealed region sealed. Each routine appends to the
current block, and the few that branch (checks, calls that may fail, `revert`) jump to blocks
they have just made or to the shared failure blocks, which lie outside every sealed region, so
each one `Confines` itself, given evaluators that do.
-/

namespace ContractCfg.Lower

open ContractCfg.Source
open ContractCfg.IR (Value Instr)

/-- Evaluators that keep every sealed region sealed. -/
structure EvalConfines (ev : Eval) : Prop where
  values : ∀ e, Confines (ev.values e)
  single : ∀ e, Confines (ev.single e)
  place : ∀ e, Confines (ev.place e)

namespace Gen

theorem confines_ask {α : Type} {f : Env → Except LowerError α} : Confines (ask f) :=
  (Confines.of_fnFixed fnFixed_read).bind fun _ => Confines.lift

section Defaults

variable {fuel : Nat} (hv : ∀ t node, Confines (defaultValueWith fuel t node))
include hv

theorem confines_defaultMembers (ptr : Value) (node : Nat) :
    ∀ (ms : List TypeName) (i : Nat), Confines (defaultMembers fuel ptr node i ms)
  | [], i => by
    rw [defaultMembers]
    exact Confines.pure _
  | m :: ms, i => by
    have ih := confines_defaultMembers ptr node ms (i + 1)
    rw [defaultMembers]
    dsimp only
    exact Confines.ite ((hv m node).bind fun _ => (confines_binary _ _ _).bind fun _ =>
      (confines_emitUnit _).bind fun _ => ih) ih

theorem confines_defaultElements (ptr : Value) (base : TypeName) (node : Nat) :
    ∀ (n i : Nat), Confines (defaultElements fuel ptr base node i n)
  | 0, i => by
    rw [defaultElements]
    exact Confines.pure _
  | n + 1, i => by
    rw [defaultElements]
    exact (hv base node).bind fun _ => (confines_binary _ _ _).bind fun _ =>
      (confines_emitUnit _).bind fun _ => confines_defaultElements ptr base node n (i + 1)

end Defaults

theorem confines_defaultValueWith : ∀ (fuel : Nat) (t : TypeName) (node : Nat),
    Confines (defaultValueWith fuel t node)
  | 0, t, node => by
    rw [defaultValueWith]
    exact Confines.throw
  | fuel + 1, t, node => by
    have hv := confines_defaultValueWith fuel
    unfold defaultValueWith
    split
    · exact Confines.pure _
    · exact (Confines.of_fnFixed (fnFixed_structDef _)).bind fun _ => (confines_emit _).bind fun _ =>
        (confines_defaultMembers hv _ node _ 0).bind fun _ => Confines.pure _
    · dsimp only
      refine (confines_emit _).bind fun ptr => Confines.ite ((confines_emitUnit _).bind fun _ => ?_) ?_ <;>
        exact Confines.ite ((confines_defaultElements hv _ _ node _ 1).bind fun _ => Confines.pure _) (Confines.pure _)
    · exact Confines.pure _

theorem confines_defaultValue (t : TypeName) (node : Nat) : Confines (defaultValue t node) :=
  (Confines.of_fnFixed fnFixed_unit).bind fun _ => confines_defaultValueWith _ t node

theorem confines_mask (v : Value) (t : TypeName) : Confines (mask v t) := by
  unfold mask
  split
  · exact Confines.pure _
  · split
    · exact Confines.pure _
    · exact Confines.ite (confines_emit _) (confines_emit _)

theorem confines_convert (v : Value) (src dst : TypeName) : Confines (convert v src dst) := by
  unfold convert
  refine Confines.ite (Confines.pure _) ?_
  split
  · exact Confines.ite (confines_binary _ _ _) (confines_binary _ _ _)
  · exact Confines.pure _
  · exact confines_mask _ _

theorem confines_binaryOperation (op : BinaryOp) (l r : Value) (t : TypeName) (node : Nat) :
    Confines (binaryOperation op l r t node) := by
  unfold binaryOperation
  dsimp only
  split
  · rename_i ir _
    -- the operation itself, after the division check if there is one
    have hop : Confines (binary ir l r >>= fun result =>
        if op.mayOverflow = true then mask result t else Pure.pure result) :=
      (confines_binary _ _ _).bind fun _ => Confines.ite (confines_mask _ _) (Confines.pure _)
    have hcheck : ∀ isZero, Confines (assertFailBlock >>= fun fail =>
        failIf isZero fail "div.ok" >>= fun _ => binary ir l r >>= fun result =>
          if op.mayOverflow = true then mask result t else Pure.pure result) :=
      fun isZero => confines_assertFailBlock_bind fun fail => (confinesAt_failIf isZero fail _).bind fun _ => hop
    refine (Confines.of_fnFixed fnFixed_read).bind fun _ => Confines.ite ?_ hop
    split
    · exact (Confines.pure _).bind hcheck
    · exact (confines_unary _ _).bind hcheck
  · exact Confines.throw

theorem confines_offset (base by_ : Value) : Confines (offset base by_) := by
  unfold offset
  split
  · exact Confines.pure _
  · exact Confines.pure _
  · exact confines_binary _ _ _

theorem confines_scale (index : Value) (size : Nat) : Confines (scale index size) := by
  unfold scale
  refine Confines.ite (Confines.pure _) ?_
  split
  · exact Confines.pure _
  · exact confines_binary _ _ _

theorem confines_checkBounds (index length : Value) : Confines (checkBounds index length) := by
  unfold checkBounds
  dsimp only
  refine (Confines.of_fnFixed fnFixed_read).bind fun _ => Confines.ite (Confines.pure _) ?_
  split <;> refine Confines.bind ?_ fun outOfRange =>
    confines_assertFailBlock_bind fun fail => confinesAt_failIf outOfRange fail _
  exacts [Confines.pure _, confines_binary _ _ _]

theorem confines_storageElementSlot (base : Value) (array : TypeName) (index : Value) (node : Nat) :
    Confines (storageElementSlot base array index node) := by
  unfold storageElementSlot
  dsimp only
  split
  · refine (Confines.of_fnFixed (fnFixed_storageSize _ node)).bind fun _ => ?_
    split
    on_goal 1 => refine (confines_checkBounds _ _).bind fun _ => (Confines.pure _).bind fun start => ?_
    on_goal 2 => refine (confines_emit _).bind fun _ => (confines_checkBounds _ _).bind fun _ =>
      (confines_emit _).bind fun start => ?_
    all_goals exact (confines_scale _ _).bind fun _ => confines_offset _ _
  · exact Confines.throw

theorem confines_memoryElementAddress (ptr index : Value) : Confines (memoryElementAddress ptr index) :=
  (confines_emit _).bind fun _ => (confines_checkBounds _ _).bind fun _ =>
    (confines_offset _ _).bind fun _ => confines_offset _ _

theorem confines_load (p : Place) : Confines (load p) := by
  cases p with
  | register x t => exact confines_emit _
  | memory a t => exact confines_emit _
  | storage s t => exact Confines.ite (confines_emit _) (Confines.pure _)

theorem confines_prepareValue (v : Value) (src dst : TypeName) (node : Nat) :
    Confines (prepareValue v src dst node) := by
  unfold prepareValue
  exact Confines.ite ((Confines.of_fnFixed (fnFixed_irType _ _)).bind fun _ => confines_emit _)
    (Confines.ite (confines_convert _ _ _) (Confines.pure _))

theorem confines_store (p : Place) (v : Value) (src : TypeName) (node : Nat) :
    Confines (store p v src node) := by
  cases p with
  | register x t => exact (confines_prepareValue _ _ _ _).bind fun _ => confines_emitUnit _
  | memory a t => exact (confines_prepareValue _ _ _ _).bind fun _ => confines_emitUnit _
  | storage s t =>
    refine Confines.ite ((confines_convert _ _ _).bind fun _ => confines_emitUnit _) ?_
    exact (Confines.of_fnFixed (fnFixed_irType _ _)).bind fun _ => Confines.ite (confines_emitUnit _)
      (Confines.ite (confines_emitUnit _) (Confines.throw))

theorem confines_delete (p : Place) (node : Nat) : Confines (delete p node) := by
  unfold delete
  split
  · exact Confines.throw
  · exact Confines.ite ((Confines.of_fnFixed (fnFixed_irType _ _)).bind fun _ => confines_emitUnit _)
      ((confines_defaultValue _ _).bind fun _ => confines_emitUnit _)
  · exact (confines_defaultValue _ _).bind fun _ => confines_emitUnit _
  · exact (confines_defaultValue _ _).bind fun _ => confines_emitUnit _

theorem confines_update (p : Place) (op : BinaryOp) (rhs : Value) (rhsTy : TypeName) (node : Nat) :
    Confines (update p op rhs rhsTy node) := by
  unfold update
  dsimp only
  refine (confines_load p).bind fun _ =>
    Confines.ite ((Confines.pure _).bind fun _ => ?_) ((confines_convert _ _ _).bind fun _ => ?_) <;>
  exact (confines_binaryOperation _ _ _ _ _).bind fun _ => (confines_store _ _ _ _).bind fun _ => Confines.pure _

theorem confines_expectArgs (node : Nat) (args : List Expr) (n : Nat) : Confines (expectArgs node args n) :=
  Confines.ite (Confines.throw) (Confines.pure _)

theorem confines_checkStatus (status : Value) (label : String) : Confines (checkStatus status label) :=
  confines_statusRevertBlock_bind fun ⟨_, _⟩ => (confines_emitUnit _).bind_confinesAt fun _ =>
    confinesAt_failIf status _ label

section Calls

variable {ev : Eval} (hev : EvalConfines ev)
include hev

theorem confines_callArguments (node f : Nat) (args : List Expr) :
    Confines (callArguments ev node f args) :=
  (Confines.of_fnFixed (fnFixed_functionDef f)).bind fun _ => (confines_expectArgs _ _ _).bind fun _ =>
    Confines.mapM fun ⟨_, _⟩ => (Confines.of_fnFixed (fnFixed_varDecl _)).bind fun _ =>
      (hev.single _).bind fun _ => confines_prepareValue _ _ _ _

theorem confines_internalCall (node target : Nat) (args : List Expr) :
    Confines (internalCall ev node target args) := by
  unfold internalCall
  refine (Confines.of_fnFixed (fnFixed_functionDef _)).bind fun _ =>
    confines_ask.bind fun _ =>
    confines_ask.bind fun _ => ?_
  extract_lets call queue
  -- the call itself, under the name chosen, and the queueing of a qualified copy
  have hcall : ∀ name, Confines (call name) := fun _ =>
    (confines_callArguments hev _ _ _).bind fun _ => confines_emitMany _ _
  have hqueue : ∀ u, Confines (queue u) := fun _ =>
    confines_ask.bind hcall
  exact Confines.ite ((Confines.of_fnFixed fnFixed_get).bind fun _ =>
      Confines.ite ((Confines.of_fnFixed (fnFixed_modifyContract _)).bind hqueue) (hqueue ()))
    (confines_ask.bind hcall)

theorem confines_staticCall (node c f : Nat) (args : List Expr) :
    Confines (staticCall ev node c f args) := by
  unfold staticCall
  refine (Confines.of_fnFixed (fnFixed_functionDef _)).bind fun _ =>
    (Confines.of_fnFixed (fnFixed_contractDef _)).bind fun _ =>
    (Confines.of_fnFixed fnFixed_read).bind fun _ => ?_
  extract_lets call checked
  have hcall : ∀ u, Confines (call u) := fun _ => confines_internalCall hev _ _ _
  have hchecked : ∀ u, Confines (checked u) := fun _ =>
    Confines.ite (confines_ask.bind fun _ => Confines.throw_bind _)
      (hcall ())
  exact Confines.ite (Confines.throw_bind _) (hchecked ())

theorem confines_externalCall (node : Nat) (base : Expr) (f : Nat) (args : List Expr)
    (value gas : Option Expr) : Confines (externalCall ev node base f args value gas) := by
  unfold externalCall
  refine (Confines.of_fnFixed (fnFixed_functionDef _)).bind fun _ =>
    (Confines.of_fnFixed (FnFixed.anyM fun _ => (fnFixed_varDecl _).bind fun _ => FnFixed.pure _)).bind
      fun _ => ?_
  extract_lets call
  refine Confines.ite (Confines.throw_bind _) ?_
  refine (hev.single _).bind fun _ => (confines_callArguments hev _ _ _).bind fun _ => ?_
  extract_lets withAmount
  have hamount : ∀ amount, Confines (withAmount amount) := by
    intro amount
    dsimp -zeta only [withAmount]
    extract_lets withGas
    have hgas : ∀ g, Confines (withGas g) := fun _ =>
      confines_ask.bind fun _ => (confines_emitMany _ _).bind fun _ =>
        (confines_checkStatus _ _).bind fun _ => Confines.pure _
    split
    · exact (hev.single _).bind hgas
    · exact (confines_context _).bind hgas
  split
  · exact (hev.single _).bind hamount
  · exact (Confines.pure _).bind hamount

theorem confines_transfer (base amount : Expr) (revertOnFailure : Bool) :
    Confines (transfer ev base amount revertOnFailure) :=
  (hev.single _).bind fun _ => (hev.single _).bind fun _ => (confines_emit _).bind fun _ =>
    Confines.ite ((confines_checkStatus _ _).bind fun _ => Confines.pure _)
      ((confines_unary _ _).bind fun _ => Confines.pure _)

theorem confines_create (node c : Nat) (args : List Expr) (value : Option Expr) :
    Confines (create ev node c args value) := by
  unfold create
  refine (Confines.of_fnFixed (fnFixed_contractDef _)).bind fun _ =>
    (Confines.of_fnFixed fnFixed_read).bind fun _ => ?_
  split
  · refine (confines_expectArgs _ _ _).bind fun _ =>
      confines_ask.bind fun _ => ?_
    extract_lets withValues
    have hvalues : ∀ values, Confines (withValues values) := by
      intro values
      dsimp -zeta only [withValues]
      extract_lets withAmount
      have hamount : ∀ amount, Confines (withAmount amount) := by
        intro amount
        dsimp -zeta only [withAmount]
        refine (confines_emitMany _ _).bind fun _ => (confines_checkStatus _ _).bind fun _ =>
          (Confines.of_fnFixed fnFixed_get).bind fun _ => ?_
        extract_lets done
        exact Confines.ite ((Confines.of_fnFixed (fnFixed_modifyContract _)).bind fun _ => Confines.pure _)
          (Confines.pure _)
      split
      · exact (hev.single _).bind hamount
      · exact (Confines.pure _).bind hamount
    split
    · exact (confines_callArguments hev _ _ _).bind hvalues
    · exact (Confines.pure _).bind hvalues
  · exact Confines.throw

theorem confines_push (node : Nat) (base elem : Expr) : Confines (push ev node base elem) := by
  unfold push
  split
  · exact (hev.single _).bind fun _ => (hev.single _).bind fun _ => (confines_emit _).bind fun _ =>
      (confines_binary _ _ _).bind fun _ => (confines_emitUnit _).bind fun _ =>
      (Confines.of_fnFixed (fnFixed_storageSize _ _)).bind fun _ => (confines_emit _).bind fun _ =>
      (confines_scale _ _).bind fun _ => (confines_offset _ _).bind fun _ =>
      (confines_store _ _ _ _).bind fun _ => Confines.pure _
  · exact Confines.throw

theorem confines_newMemoryArray (t : TypeName) (length : Expr) :
    Confines (newMemoryArray ev t length) := by
  unfold newMemoryArray
  split
  · exact (hev.single _).bind fun _ => (confines_offset _ _).bind fun _ => (confines_emit _).bind fun _ =>
      (confines_emitUnit _).bind fun _ => Confines.pure _
  · exact Confines.throw

theorem confines_constructStruct (node id : Nat) (args : List Expr) :
    Confines (constructStruct ev node id args) :=
  (Confines.of_fnFixed (fnFixed_structDef _)).bind fun _ => (confines_expectArgs _ _ _).bind fun _ =>
    (confines_emit _).bind fun _ => (Confines.forIn (fun ⟨⟨_, _⟩, _⟩ _ => (hev.single _).bind fun _ =>
      (confines_prepareValue _ _ _ _).bind fun _ => (confines_offset _ _).bind fun _ =>
        (confines_emitUnit _).bind fun _ => Confines.pure _) _).bind fun _ => Confines.pure _

theorem confines_hashLike (node : Nat) (args : List Expr) (ir : IR.Builtin) (arity : Option Nat) :
    Confines (builtinCall.hashLike ev node args ir arity) := by
  unfold builtinCall.hashLike
  extract_lets hash
  have hhash : ∀ u, Confines (hash u) := fun _ =>
    (Confines.mapM fun _ => hev.single _).bind fun _ => (confines_emit _).bind fun _ => Confines.pure _
  split
  · exact (confines_expectArgs _ _ _).bind hhash
  · exact hhash ()

theorem confines_builtinCall (node : Nat) (b : Builtin) (args : List Expr) :
    Confines (builtinCall ev node b args) := by
  cases b <;> dsimp -zeta only [builtinCall]
  case require | assert =>
    -- the join points, innermost first: the end, the failure check, the rest after the arity
    extract_lets done fail check
    have hfail : ∀ failed, Confines (fail failed) := fun failed =>
      Confines.ite
        (confines_revertBlock_bind fun k => (confinesAt_failIf failed k _).bind fun _ => Confines.pure _)
        (confines_assertFailBlock_bind fun k => (confinesAt_failIf failed k _).bind fun _ => Confines.pure _)
    have hcheck : ∀ u, Confines (check u) := by
      intro u
      refine (hev.single _).bind fun cond => ?_
      extract_lets decide
      have hdecide : ∀ u, Confines (decide u) := by
        intro u
        dsimp -zeta only [decide]
        split
        · exact (Confines.pure _).bind hfail
        · exact (confines_unary _ _).bind hfail
      split
      · exact (hev.values _).discard.bind hdecide
      · exact hdecide ()
    exact Confines.ite (Confines.throw_bind _) (hcheck ())
  case revert =>
    exact confines_revertBlock_bind fun k => (confinesAt_jumpAndDetach k).bind fun _ => Confines.pure _
  case gasLeft =>
    exact (confines_expectArgs _ _ _).bind fun _ => (confines_context _).bind fun _ => Confines.pure _
  case selfDestruct =>
    exact (confines_expectArgs _ _ _).bind fun _ => (hev.single _).bind fun _ =>
      (confines_emitMany _ _).discard.bind fun _ => (Confines.of_fnFixed fnFixed_returnValues).bind fun _ =>
        confines_terminate_detach rfl _ fun _ => Confines.pure _
  all_goals exact confines_hashLike hev _ _ _ _

end Calls

end Gen

end ContractCfg.Lower
