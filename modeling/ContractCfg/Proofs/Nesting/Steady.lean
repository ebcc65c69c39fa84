import ContractCfg.Lower.Stmt
import ContractCfg.Proofs.Lower.Run

/-!
Where the statement being lowered stands: the loops around it in its own body, the modifier
whose body holds it, and the chain of modifiers and body being expanded (`Site`). Only
statements move it, entering a loop or expanding a placeholder. What they call on the way (the
questions asked of the program, types, operators, places, and the blocks and instructions these
make) keeps the site and never fails with the error of a misplaced `break`, `continue` or `_`:
it is `Steady`, shown here routine by routine from combinators of the monad.
-/

namespace ContractCfg.Lower

open ContractCfg.Source
open ContractCfg.IR (Value Instr FnBuilder)

/-- Whether an error is the one a `break`, `continue` or `_` raises where it may not stand. -/
def LowerError.isMisplaced : LowerError → Bool
  | .breakOutsideLoop _ | .continueOutsideLoop _ | .placeholderOutsideModifier _ => true
  | _ => false

/-- Where the statement being lowered stands. -/
structure Site where
  /-- The loops around it in its own body, innermost first. -/
  loops : List LoopTargets
  /-- The depth of the modifier whose body holds it, if a modifier's body does. -/
  modifierDepth : Option Nat
  /-- The modifiers and body being expanded. -/
  chain : Option Chain

/-- The site the function state records. -/
def FnState.site (c : FnState) : Site := ⟨c.loops, c.modifierDepth, c.chain⟩

/-- A question about the program that fails, if at all, with no misplaced-statement error. -/
def Placed {α : Type} (x : Except LowerError α) : Prop := ∀ e, x = .error e → e.isMisplaced = false

/-- What running lowering code from `s` gave: an error that no misplaced statement raises, or a
state at the site of `s`. -/
def Settled {α : Type} (s : GenState) : Except LowerError (α × GenState) → Prop
  | .ok (_, s') => s'.fn.site = s.fn.site
  | .error e => e.isMisplaced = false

/-- Lowering code that keeps the site and raises no misplaced-statement error. -/
def Steady {α : Type} (m : Gen α) : Prop := ∀ env s, Settled s (m env s)

section Placed

variable {α β : Type}

theorem Placed.ok (a : α) : Placed (.ok a : Except LowerError α) := fun _ h => by cases h

theorem Placed.error {e : LowerError} (he : e.isMisplaced = false) :
    Placed (.error e : Except LowerError α) :=
  fun _ h => by cases h; exact he

theorem Placed.throw {e : LowerError} (he : e.isMisplaced = false) :
    Placed (throw e : Except LowerError α) :=
  Placed.error he

theorem Placed.bind {x : Except LowerError α} {f : α → Except LowerError β} (hx : Placed x)
    (hf : ∀ a, Placed (f a)) : Placed (x >>= f) := by
  intro e he
  cases hx' : x with
  | error e' =>
    rw [hx'] at he
    cases he
    exact hx _ hx'
  | ok a =>
    rw [hx'] at he
    exact hf a e he

theorem Placed.ite {c : Prop} {h : Decidable c} {x y : Except LowerError α} (hx : Placed x)
    (hy : Placed y) : Placed (if c then x else y) := by
  split
  · exact hx
  · exact hy

theorem Placed.mapM {xs : List α} {f : α → Except LowerError β} (hf : ∀ x, Placed (f x)) :
    Placed (xs.mapM f) := by
  induction xs with
  | nil => exact Placed.ok _
  | cons x xs ih =>
    rw [List.mapM_cons]
    exact (hf x).bind fun _ => ih.bind fun _ => Placed.ok _

theorem Placed.findM? {xs : List α} {f : α → Except LowerError Bool} (hf : ∀ x, Placed (f x)) :
    Placed (xs.findM? f) := by
  induction xs with
  | nil => exact Placed.ok _
  | cons x xs ih =>
    simp only [List.findM?]
    refine (hf x).bind fun b => ?_
    cases b
    · exact ih
    · exact Placed.ok _

theorem Placed.forIn {xs : List α} {f : α → β → Except LowerError (ForInStep β)}
    (hf : ∀ x b, Placed (f x b)) (init : β) : Placed (forIn xs init f) := by
  induction xs generalizing init with
  | nil => exact Placed.ok _
  | cons x xs ih =>
    rw [List.forIn_cons]
    refine (hf x init).bind fun step => ?_
    cases step with
    | done b => exact Placed.ok b
    | yield b => exact ih b

theorem placed_need (o : Option α) : Placed (need o) := by
  cases o
  · exact Placed.error rfl
  · exact Placed.ok _

end Placed

namespace Env

variable (env : Env)

theorem placed_contractDef (i : Nat) : Placed (env.contractDef i) := placed_need _

theorem placed_functionDef (i : Nat) : Placed (env.functionDef i) := placed_need _

theorem placed_canonicalName (t : TypeName) : Placed (env.canonicalName t) := by
  unfold canonicalName
  split
  · exact Placed.ok _
  · exact Placed.error rfl

theorem placed_signature (f : Nat) : Placed (env.signature f) := by
  unfold signature
  refine (env.placed_functionDef f).bind fun d => ?_
  exact (Placed.mapM fun _ => (placed_need _).bind fun (v : VariableDecl) =>
    env.placed_canonicalName v.ty).bind fun _ => Placed.ok _

theorem placed_findImplementation (kind : FunctionKind) (sig : String) (cs : List Nat) :
    Placed (env.findImplementation kind sig cs) := by
  induction cs with
  | nil => exact Placed.ok _
  | cons c cs ih =>
    unfold findImplementation
    refine (env.placed_contractDef c).bind fun d => ?_
    refine (Placed.findM? fun g => (env.placed_functionDef g).bind fun gd => ?_).bind fun found => ?_
    · exact Placed.ite ((env.placed_signature g).bind fun _ => Placed.ok _) (Placed.ok _)
    · cases found
      · exact ih
      · exact Placed.ok _

theorem placed_resolve (f : Nat) (after : Option Nat) (node : Nat) :
    Placed (env.resolve f after node) := by
  unfold resolve
  refine (env.placed_functionDef f).bind fun d => ?_
  extract_lets start search
  -- the search along the linearization, reached from both branches
  have hsearch : ∀ u, Placed (search u) := fun _ =>
    (env.placed_signature f).bind fun _ => (env.placed_findImplementation _ _ _).bind fun found => by
      cases found
      · exact Placed.throw rfl
      · exact Placed.ok _
  exact Placed.ite (Placed.ite (Placed.ok _) ((Placed.throw rfl).bind hsearch)) (hsearch ())

theorem placed_resolve? (f node : Nat) : Placed (env.resolve? f node) := by
  unfold resolve?
  have h := env.placed_resolve f none node
  split
  · exact Placed.ok _
  · exact Placed.ok _
  · rename_i e _ he
    exact Placed.error (h e he)

theorem placed_isMostDerived (f : Nat) : Placed (env.isMostDerived f) :=
  (env.placed_functionDef f).bind fun d => (env.placed_resolve? f d.id).bind fun _ => Placed.ok _

theorem placed_isForeignLibrary (d : FunctionDef) : Placed (env.isForeignLibrary d) :=
  (env.placed_contractDef _).bind fun _ => Placed.ok _

theorem placed_isEntryPoint (f : Nat) : Placed (env.isEntryPoint f) := by
  unfold isEntryPoint
  exact (env.placed_functionDef f).bind fun d => (env.placed_isForeignLibrary d).bind fun _ =>
    Placed.ite (env.placed_isMostDerived f) (Placed.ok _)

theorem placed_rejectsValue (f : Nat) : Placed (env.rejectsValue f) :=
  (env.placed_functionDef f).bind fun _ => (env.placed_contractDef _).bind fun _ =>
    (env.placed_isEntryPoint f).bind fun _ => Placed.ok _

theorem placed_qualifiedName (f : Nat) : Placed (env.qualifiedName f) := by
  unfold qualifiedName
  refine (env.placed_functionDef f).bind fun d => (env.placed_contractDef _).bind fun _ => ?_
  cases d.kind
  all_goals first | exact Placed.ok _ | exact (env.placed_signature f).bind fun _ => Placed.ok _

theorem placed_functionName (f : Nat) : Placed (env.functionName f) := by
  unfold functionName
  refine (env.placed_functionDef f).bind fun d => ?_
  refine Placed.ite (Placed.ok _) ((env.placed_isEntryPoint f).bind fun _ =>
    Placed.ite (env.placed_qualifiedName f) ?_)
  cases d.kind
  all_goals first | exact Placed.ok _ | exact env.placed_signature f

theorem placed_resolveModifier (name : String) (node : Nat) :
    Placed (env.resolveModifier name node) := by
  unfold resolveModifier
  dsimp only
  -- the search for the modifier, then the search for a base of that name
  refine (Placed.forIn (fun c _ => (env.placed_contractDef c).bind fun _ =>
    (Placed.forIn (fun m _ => (placed_need _).bind fun _ => Placed.ite (Placed.ok _) (Placed.ok _)) _).bind
      fun r => ?_) _).bind fun r => ?_
  · cases r.1 <;> exact Placed.ok _
  · cases r.1
    · exact (Placed.forIn (fun c _ => (env.placed_contractDef c).bind fun _ =>
        Placed.ite ((Placed.throw rfl).bind fun _ => Placed.ok _) (Placed.ok _)) _).bind
          fun _ => Placed.throw rfl
    · exact Placed.ok _

theorem placed_constructorOf (c : Nat) : Placed (env.constructorOf c) :=
  (env.placed_contractDef c).bind fun _ =>
    Placed.findM? fun f => (env.placed_functionDef f).bind fun _ => Placed.ok _

end Env

theorem Settled.rebase {α : Type} {s s' : GenState} {r : Except LowerError (α × GenState)}
    (h : Settled s' r) (hs : s'.fn.site = s.fn.site) : Settled s r := by
  match r, h with
  | .ok (_, _), h => exact h.trans hs
  | .error _, h => exact h

namespace Steady

variable {α β : Type} {x y : Gen α}

theorem pure (a : α) : Steady (pure a : Gen α) := fun _ _ => rfl

theorem bind {f : α → Gen β} (hx : Steady x) (hf : ∀ a, Steady (f a)) : Steady (x >>= f) := by
  intro env s
  have h := hx env s
  rw [Gen.bind_run]
  match hr : x env s, h with
  | .error _, h => exact h
  | .ok (a, s'), h => exact (hf a env s').rebase h

theorem throw {e : LowerError} (he : e.isMisplaced = false) : Steady (throw e : Gen α) :=
  fun _ _ => he

theorem throw_bind {e : LowerError} (he : e.isMisplaced = false) (f : α → Gen β) :
    Steady (MonadExcept.throw e >>= f) :=
  fun _ _ => he

theorem lift {x : Except LowerError α} (hx : Placed x) : Steady (x : Gen α) := by
  intro env s
  cases hx' : x with
  | error e => exact hx e hx'
  | ok a => rfl

theorem ite {c : Prop} {h : Decidable c} (hx : Steady x) (hy : Steady y) :
    Steady (if c then x else y) := by
  split
  · exact hx
  · exact hy

theorem discard (hx : Steady x) : Steady (discard x) := by
  intro env s
  have h := hx env s
  show Settled s (x env s >>= fun p => Pure.pure ((), p.2))
  match hr : x env s, h with
  | .error _, h => exact h
  | .ok (_, _), h => exact h

theorem forIn {xs : List α} {f : α → β → Gen (ForInStep β)} (hf : ∀ a b, Steady (f a b))
    (init : β) : Steady (forIn xs init f) := by
  induction xs generalizing init with
  | nil => exact pure init
  | cons x xs ih =>
    rw [List.forIn_cons]
    refine bind (hf x init) fun step => ?_
    cases step with
    | done b => exact pure b
    | yield b => exact ih b

theorem forInArray {xs : Array α} {f : α → β → Gen (ForInStep β)} (hf : ∀ a b, Steady (f a b))
    (init : β) : Steady (ForIn.forIn xs init f) := by
  rw [← Array.forIn_toList]
  exact forIn hf init

theorem mapM {xs : List α} {f : α → Gen β} (hf : ∀ a, Steady (f a)) : Steady (xs.mapM f) := by
  induction xs with
  | nil => exact pure _
  | cons x xs ih =>
    rw [List.mapM_cons]
    exact bind (hf x) fun _ => bind ih fun _ => pure _

theorem anyM {xs : List α} {f : α → Gen Bool} (hf : ∀ a, Steady (f a)) : Steady (xs.anyM f) := by
  induction xs with
  | nil => exact pure _
  | cons x xs ih =>
    rw [List.anyM_cons]
    refine bind (hf x) fun b => ?_
    cases b
    · exact ih
    · exact pure _

end Steady

namespace Gen

variable {α : Type}

theorem steady_get : Steady (get : Gen GenState) := fun _ _ => rfl

theorem steady_read : Steady (read : Gen Env) := fun _ _ => rfl

theorem steady_modifyFn (f : FnState → FnState) (hf : ∀ c, (f c).site = c.site) :
    Steady (modifyFn f) := by
  intro env s
  rw [modifyFn_run]
  exact hf s.fn

theorem steady_modifyContract (f : ContractState → ContractState) : Steady (modifyContract f) :=
  fun _ _ => rfl

theorem steady_liftIr (x : Except IR.IrError α) : Steady (liftIr x) := by
  cases x with
  | ok a => exact Steady.pure a
  | error e => exact Steady.throw rfl

theorem steady_ask {f : Env → Except LowerError α} (hf : ∀ env, Placed (f env)) : Steady (ask f) :=
  steady_read.bind fun env => Steady.lift (hf env)

theorem steady_unit : Steady unit := steady_read.bind fun _ => Steady.pure _

theorem steady_need (o : Option α) : Steady (need o : Gen α) := Steady.lift (placed_need o)

theorem steady_contractDef (i : Nat) : Steady (contractDef i) := steady_unit.bind fun _ => steady_need _

theorem steady_functionDef (i : Nat) : Steady (functionDef i) := steady_unit.bind fun _ => steady_need _

theorem steady_varDecl (i : Nat) : Steady (varDecl i) := steady_unit.bind fun _ => steady_need _

theorem steady_structDef (i : Nat) : Steady (structDef i) := steady_unit.bind fun _ => steady_need _

theorem steady_lookupVar (v : Nat) : Steady (lookupVar v) := by
  intro env s
  rw [lookupVar_run]
  rfl

theorem steady_returnValues : Steady returnValues := steady_get.bind fun _ => Steady.pure _

theorem steady_modifyBuilder (f : FnBuilder → FnBuilder) : Steady (modifyBuilder f) :=
  steady_modifyFn _ fun _ => by rfl

theorem steady_withBuilder (f : FnBuilder → α × FnBuilder) : Steady (withBuilder f) := by
  intro env s
  rw [withBuilder_run]
  rfl

theorem steady_tryBuilder (f : FnBuilder → Except IR.IrError FnBuilder) : Steady (tryBuilder f) :=
  steady_get.bind fun _ => (steady_liftIr _).bind fun _ => steady_modifyBuilder _

theorem steady_createBlock (label : String) : Steady (createBlock label) := steady_withBuilder _

theorem steady_switchTo (id : Nat) : Steady (switchTo id) := steady_tryBuilder _

theorem steady_terminate (t : IR.Terminator) : Steady (terminate t) := steady_tryBuilder _

theorem steady_currentBlock : Steady currentBlock := steady_get.bind fun _ => Steady.pure _

theorem steady_isTerminated : Steady isTerminated := steady_get.bind fun _ => Steady.pure _

theorem steady_checkOpen : Steady checkOpen := steady_get.bind fun _ => steady_liftIr _

theorem steady_emitUnit (i : Instr) : Steady (emitUnit i) :=
  steady_checkOpen.bind fun _ => steady_modifyBuilder _

theorem steady_emit (mk : Value → Instr) : Steady (emit mk) :=
  steady_checkOpen.bind fun _ => steady_withBuilder _

theorem steady_emitMany (n : Nat) (mk : List Value → Instr) : Steady (emitMany n mk) :=
  steady_checkOpen.bind fun _ => (steady_withBuilder _).bind fun _ =>
    (steady_modifyBuilder _).bind fun _ => Steady.pure _

theorem steady_binary (op : IR.BinOp) (l r : Value) : Steady (binary op l r) := steady_emit _

theorem steady_unary (op : IR.UnOp) (v : Value) : Steady (unary op v) := steady_emit _

theorem steady_context (v : IR.ContextVar) : Steady (context v) := steady_emit _

theorem steady_freshLocal (base : String) : Steady (freshLocal base) := by
  intro env s
  rw [freshLocal_run]
  rfl

theorem steady_declareVar (v : Nat) (x : Value) : Steady (declareVar v x) :=
  steady_modifyFn _ fun c => by cases c.layers <;> rfl

theorem steady_pushLayer : Steady pushLayer := steady_modifyFn _ fun _ => by rfl

theorem steady_popLayer : Steady popLayer := steady_modifyFn _ fun _ => by rfl

theorem steady_pushReturnTarget (b : Nat) : Steady (pushReturnTarget b) := steady_modifyFn _ fun _ => by rfl

theorem steady_popReturnTarget : Steady popReturnTarget := steady_modifyFn _ fun _ => by rfl

theorem steady_startBlock (label : String) : Steady (startBlock label) :=
  (steady_createBlock _).bind fun _ => (steady_switchTo _).bind fun _ => Steady.pure _

theorem steady_jumpIfOpen (target : Nat) : Steady (jumpIfOpen target) :=
  steady_isTerminated.bind fun _ => Steady.ite (steady_terminate _) (Steady.pure _)

theorem steady_jumpAndDetach (target : Nat) : Steady (jumpAndDetach target) :=
  (steady_terminate _).bind fun _ => (steady_startBlock _).discard

theorem steady_failIf (cond : Value) (failure : Nat) (label : String) :
    Steady (failIf cond failure label) := by
  unfold failIf
  split
  · exact Steady.ite (Steady.pure _) (steady_jumpAndDetach _)
  · exact (steady_createBlock _).bind fun _ => (steady_terminate _).bind fun _ => steady_switchTo _

theorem steady_terminalBlock (label : String) (t : IR.Terminator) : Steady (terminalBlock label t) :=
  steady_currentBlock.bind fun _ => (steady_createBlock _).bind fun _ => (steady_switchTo _).bind fun _ =>
    (steady_terminate _).bind fun _ => (steady_switchTo _).bind fun _ => Steady.pure _

theorem steady_revertBlock : Steady revertBlock := by
  unfold revertBlock
  refine steady_get.bind fun _ => ?_
  split
  · exact Steady.pure _
  · exact (steady_terminalBlock _ _).bind fun _ => (steady_modifyFn _ fun _ => by rfl).bind fun _ =>
      Steady.pure _

theorem steady_statusRevertBlock : Steady statusRevertBlock := by
  unfold statusRevertBlock
  refine steady_get.bind fun _ => ?_
  split
  · exact Steady.pure _
  · exact (steady_freshLocal _).bind fun _ => (steady_terminalBlock _ _).bind fun _ =>
      (steady_modifyFn _ fun _ => by rfl).bind fun _ => Steady.pure _

theorem steady_assertFailBlock : Steady assertFailBlock := by
  unfold assertFailBlock
  refine steady_get.bind fun _ => ?_
  split
  · exact Steady.pure _
  · exact (steady_terminalBlock _ _).bind fun _ => (steady_modifyFn _ fun _ => by rfl).bind fun _ =>
      Steady.pure _

theorem steady_types : Steady types := steady_get.bind fun _ => Steady.pure _

mutual
theorem steady_irTypeWith (fuel : Nat) (t : TypeName) (node : Nat) :
    Steady (irTypeWith fuel t node) := by
  cases t with
  | contract c =>
    rw [irTypeWith]
    exact (steady_contractDef c).bind fun _ => Steady.pure _
  | array base len loc =>
    rw [irTypeWith]
    exact (steady_irTypeWith fuel base node).bind fun _ => Steady.pure _
  | mapping k v =>
    rw [irTypeWith]
    exact (steady_irTypeWith fuel k node).bind fun _ =>
      (steady_irTypeWith fuel v node).bind fun _ => Steady.pure _
  | struct id loc =>
    rw [irTypeWith]
    exact (steady_registerStruct fuel id node).bind fun _ => Steady.pure _
  | tuple _ | void =>
    rw [irTypeWith]
    exact Steady.throw rfl
  | bool | uint _ | int _ | address | fixedBytes _ =>
    rw [irTypeWith]
    exact Steady.pure _
termination_by (fuel, sizeOf t)

theorem steady_registerStruct (fuel id node : Nat) : Steady (registerStruct fuel id node) := by
  cases fuel with
  | zero =>
    rw [registerStruct]
    exact Steady.throw rfl
  | succ fuel =>
    rw [registerStruct]
    refine steady_types.bind fun _ => Steady.ite (Steady.pure _) ?_
    exact (steady_structDef id).bind fun _ => (steady_modifyContract _).bind fun _ =>
      (Steady.mapM fun (m : StructMember) => (steady_irTypeWith fuel m.ty node).bind fun _ =>
        Steady.pure _).bind fun _ => steady_modifyContract _
termination_by (fuel, 0)
end

theorem steady_irType (t : TypeName) (node : Nat) : Steady (irType t node) :=
  steady_unit.bind fun _ => steady_irTypeWith _ t node

theorem steady_registerStructOf (id node : Nat) : Steady (registerStructOf id node) :=
  steady_unit.bind fun _ => steady_registerStruct _ id node

theorem steady_storageSize (t : TypeName) (node : Nat) : Steady (storageSize t node) := by
  refine (steady_irType t node).bind fun _ => steady_types.bind fun r => ?_
  unfold storageSize.need'
  split
  · exact Steady.pure _
  · exact Steady.throw rfl

theorem steady_storageFieldOffset (id index node : Nat) :
    Steady (storageFieldOffset id index node) := by
  refine (steady_registerStructOf id node).bind fun _ => steady_types.bind fun r => ?_
  split
  · exact Steady.throw rfl
  · exact Steady.throw rfl
  · exact Steady.pure _

theorem steady_memberIndex (id : Nat) (name : String) (node : Nat) :
    Steady (memberIndex id name node) := by
  refine (steady_structDef id).bind fun d => ?_
  split
  · exact Steady.pure _
  · exact Steady.throw rfl

theorem steady_memberType (id i : Nat) : Steady (memberType id i) := by
  refine (steady_structDef id).bind fun d => ?_
  split
  · exact Steady.pure _
  · exact Steady.throw rfl

section Defaults

variable {fuel : Nat} (hv : ∀ t node, Steady (defaultValueWith fuel t node))
include hv

theorem steady_defaultMembers (ptr : Value) (node : Nat) :
    ∀ (ms : List TypeName) (i : Nat), Steady (defaultMembers fuel ptr node i ms)
  | [], i => by
    rw [defaultMembers]
    exact Steady.pure _
  | m :: ms, i => by
    have ih := steady_defaultMembers ptr node ms (i + 1)
    rw [defaultMembers]
    dsimp only
    exact Steady.ite ((hv m node).bind fun _ => (steady_binary _ _ _).bind fun _ =>
      (steady_emitUnit _).bind fun _ => ih) ih

theorem steady_defaultElements (ptr : Value) (base : TypeName) (node : Nat) :
    ∀ (n i : Nat), Steady (defaultElements fuel ptr base node i n)
  | 0, i => by
    rw [defaultElements]
    exact Steady.pure _
  | n + 1, i => by
    rw [defaultElements]
    exact (hv base node).bind fun _ => (steady_binary _ _ _).bind fun _ =>
      (steady_emitUnit _).bind fun _ => steady_defaultElements ptr base node n (i + 1)

end Defaults

theorem steady_defaultValueWith : ∀ (fuel : Nat) (t : TypeName) (node : Nat),
    Steady (defaultValueWith fuel t node)
  | 0, t, node => by
    rw [defaultValueWith]
    exact Steady.throw rfl
  | fuel + 1, t, node => by
    have hv := steady_defaultValueWith fuel
    unfold defaultValueWith
    split
    · exact Steady.pure _
    · exact (steady_structDef _).bind fun _ => (steady_emit _).bind fun _ =>
        (steady_defaultMembers hv _ node _ 0).bind fun _ => Steady.pure _
    · dsimp only
      refine (steady_emit _).bind fun ptr => Steady.ite ((steady_emitUnit _).bind fun _ => ?_) ?_ <;>
        exact Steady.ite ((steady_defaultElements hv _ _ node _ 1).bind fun _ => Steady.pure _)
          (Steady.pure _)
    · exact Steady.pure _

theorem steady_defaultValue (t : TypeName) (node : Nat) : Steady (defaultValue t node) :=
  steady_unit.bind fun _ => steady_defaultValueWith _ t node

theorem steady_mask (v : Value) (t : TypeName) : Steady (mask v t) := by
  unfold mask
  split
  · exact Steady.pure _
  · split
    · exact Steady.pure _
    · exact Steady.ite (steady_emit _) (steady_emit _)

theorem steady_convert (v : Value) (src dst : TypeName) : Steady (convert v src dst) := by
  unfold convert
  refine Steady.ite (Steady.pure _) ?_
  split
  · exact Steady.ite (steady_binary _ _ _) (steady_binary _ _ _)
  · exact Steady.pure _
  · exact steady_mask _ _

theorem steady_binaryOperation (op : BinaryOp) (l r : Value) (t : TypeName) (node : Nat) :
    Steady (binaryOperation op l r t node) := by
  unfold binaryOperation
  dsimp only
  split
  · rename_i ir _
    -- the operation itself, after the division check if there is one
    have hop : Steady (binary ir l r >>= fun result =>
        if op.mayOverflow = true then mask result t else Pure.pure result) :=
      (steady_binary _ _ _).bind fun _ => Steady.ite (steady_mask _ _) (Steady.pure _)
    have hcheck : ∀ isZero, Steady (assertFailBlock >>= fun fail =>
        failIf isZero fail "div.ok" >>= fun _ => binary ir l r >>= fun result =>
          if op.mayOverflow = true then mask result t else Pure.pure result) :=
      fun isZero => steady_assertFailBlock.bind fun fail => (steady_failIf isZero fail _).bind fun _ => hop
    refine steady_read.bind fun _ => Steady.ite ?_ hop
    split
    · exact (Steady.pure _).bind hcheck
    · exact (steady_unary _ _).bind hcheck
  · exact Steady.throw rfl

theorem steady_offset (base by_ : Value) : Steady (offset base by_) := by
  unfold offset
  split
  · exact Steady.pure _
  · exact Steady.pure _
  · exact steady_binary _ _ _

theorem steady_scale (index : Value) (size : Nat) : Steady (scale index size) := by
  unfold scale
  refine Steady.ite (Steady.pure _) ?_
  split
  · exact Steady.pure _
  · exact steady_binary _ _ _

theorem steady_checkBounds (index length : Value) : Steady (checkBounds index length) := by
  unfold checkBounds
  dsimp only
  refine steady_read.bind fun _ => Steady.ite (Steady.pure _) ?_
  have hfail : ∀ outOfRange, Steady (assertFailBlock >>= fun fail => failIf outOfRange fail "index.ok") :=
    fun _ => steady_assertFailBlock.bind fun fail => steady_failIf _ fail _
  split
  · exact (Steady.pure _).bind hfail
  · exact (steady_binary _ _ _).bind hfail

theorem steady_storageElementSlot (base : Value) (array : TypeName) (index : Value) (node : Nat) :
    Steady (storageElementSlot base array index node) := by
  unfold storageElementSlot
  dsimp only
  split
  · refine (steady_storageSize _ node).bind fun _ => ?_
    split
    · exact (steady_checkBounds _ _).bind fun _ => (Steady.pure _).bind fun _ =>
        (steady_scale _ _).bind fun _ => steady_offset _ _
    · exact (steady_emit _).bind fun _ => (steady_checkBounds _ _).bind fun _ =>
        (steady_emit _).bind fun _ => (steady_scale _ _).bind fun _ => steady_offset _ _
  · exact Steady.throw rfl

theorem steady_memoryElementAddress (ptr index : Value) : Steady (memoryElementAddress ptr index) :=
  (steady_emit _).bind fun _ => (steady_checkBounds _ _).bind fun _ =>
    (steady_offset _ _).bind fun _ => steady_offset _ _

theorem steady_load (p : Place) : Steady (load p) := by
  cases p with
  | register x t => exact steady_emit _
  | memory a t => exact steady_emit _
  | storage s t => exact Steady.ite (steady_emit _) (Steady.pure _)

theorem steady_prepareValue (v : Value) (src dst : TypeName) (node : Nat) :
    Steady (prepareValue v src dst node) := by
  unfold prepareValue
  exact Steady.ite ((steady_irType _ _).bind fun _ => steady_emit _)
    (Steady.ite (steady_convert _ _ _) (Steady.pure _))

theorem steady_store (p : Place) (v : Value) (src : TypeName) (node : Nat) :
    Steady (store p v src node) := by
  cases p with
  | register x t => exact (steady_prepareValue _ _ _ _).bind fun _ => steady_emitUnit _
  | memory a t => exact (steady_prepareValue _ _ _ _).bind fun _ => steady_emitUnit _
  | storage s t =>
    refine Steady.ite ((steady_convert _ _ _).bind fun _ => steady_emitUnit _) ?_
    exact (steady_irType _ _).bind fun _ => Steady.ite (steady_emitUnit _)
      (Steady.ite (steady_emitUnit _) (Steady.throw rfl))

theorem steady_delete (p : Place) (node : Nat) : Steady (delete p node) := by
  unfold delete
  split
  · exact Steady.throw rfl
  · exact Steady.ite ((steady_irType _ _).bind fun _ => steady_emitUnit _)
      ((steady_defaultValue _ _).bind fun _ => steady_emitUnit _)
  · exact (steady_defaultValue _ _).bind fun _ => steady_emitUnit _
  · exact (steady_defaultValue _ _).bind fun _ => steady_emitUnit _

theorem steady_update (p : Place) (op : BinaryOp) (rhs : Value) (rhsTy : TypeName) (node : Nat) :
    Steady (update p op rhs rhsTy node) := by
  unfold update
  dsimp only
  refine (steady_load p).bind fun _ =>
    Steady.ite ((Steady.pure _).bind fun _ => ?_) ((steady_convert _ _ _).bind fun _ => ?_) <;>
  exact (steady_binaryOperation _ _ _ _ _).bind fun _ => (steady_store _ _ _ _).bind fun _ => Steady.pure _

end Gen

end ContractCfg.Lower
