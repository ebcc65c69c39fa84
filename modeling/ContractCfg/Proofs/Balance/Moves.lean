import ContractCfg.Proofs.Cursor.Values
import ContractCfg.Proofs.Lower.Names
import ContractCfg.Proofs.Region.Steps

/-!
What lowering does to the function state besides the code it adds. It hands out registers: the
temporaries counter and the name counters only grow, and a name counter grows only for a base
of the program (`Advances`). Expression code leaves the frame of the state (`Nest`) as it found
it: the depth of the layers of local names, the loops, the return targets, the chain being
expanded, the modifier depth and the contract of the code; it binds no name, so the layers of local names and
the function scope stay too (`Quiet`).

`Moves env R m` says that successful runs of `m` keep the function state related by `R` to any
state it was related to before. It is carried through the monad by combinators and shown here
for the steps of the monad, types, default values, operators and places.
-/

namespace ContractCfg.IR.FnBuilder

@[simp] theorem newTemps_nextTemp (b : FnBuilder) (n : Nat) :
    (b.newTemps n).2.nextTemp = b.nextTemp + n := by
  induction n generalizing b with
  | zero => rfl
  | succ n ih =>
    show (b.newTemp.2.newTemps n).2.nextTemp = _
    rw [ih, newTemp_nextTemp]
    omega

@[simp] theorem emit_nextTemp (b : FnBuilder) (mk : Value → Instr) :
    (b.emit mk).2.nextTemp = b.nextTemp + 1 := rfl

theorem nextTemp_of_switchTo {b b' : FnBuilder} {id : Nat} (h : b.switchTo id = .ok b') :
    b'.nextTemp = b.nextTemp := by
  unfold switchTo at h
  split at h
  · cases h
    rfl
  · cases h

theorem nextTemp_of_terminate {b b' : FnBuilder} {t : Terminator} (h : b.terminate t = .ok b') :
    b'.nextTemp = b.nextTemp := by
  obtain ⟨-, blk, -, -, rfl⟩ := terminate_inv h
  rfl

end ContractCfg.IR.FnBuilder

namespace ContractCfg.Lower

open ContractCfg.Source
open ContractCfg.IR (Value Instr FnBuilder)

/-- The fixed bases of the registers lowering makes for itself: the results of `&&`, `||` and
`?:`, the status a failed call reverts with, and the keys of a getter. -/
def fixedBases : List String := ["and", "or", "cond", "status", "key", "index"]

/-- The bases registers are named after in `env`: a fixed base, or the name of a variable. -/
def Env.Base (env : Env) (b : String) : Prop :=
  b ∈ fixedBases ∨ ∃ v d, env.unit.var? v = some d ∧ d.name = b

/-- Where in the nesting of bodies, modifiers and loops the function state stands. -/
structure Nest where
  /-- How many layers of local names are open. -/
  depth : Nat
  loops : List LoopTargets
  returnTargets : List Nat
  chain : Option Chain
  modifierDepth : Option Nat
  /-- The contract whose code is being lowered. -/
  scope : Nat

/-- The frame of the function state: its place in the nesting. -/
def FnState.nest (c : FnState) : Nest :=
  ⟨c.layers.length, c.loops, c.returnTargets, c.chain, c.modifierDepth, c.scope⟩

/-- From `c` to `c'` registers were only handed out: the temporaries counter and every name
counter grew, and a name counter grew only for a base of the program. -/
structure Advances (env : Env) (c c' : FnState) : Prop where
  temps : c.builder.nextTemp ≤ c'.builder.nextTemp
  counts : ∀ b, c.names.getD b 0 ≤ c'.names.getD b 0
  bases : ∀ b, c.names.getD b 0 < c'.names.getD b 0 → ∃ b₀, env.Base b₀ ∧ b = nameBase b₀

/-- From `c` to `c'` registers were only handed out and shared failure blocks made: the frame,
the layers of local names and the function scope are as they were. -/
structure Quiet (env : Env) (c c' : FnState) : Prop where
  advances : Advances env c c'
  nest : c'.nest = c.nest
  layers : c'.layers = c.layers
  functionScope : c'.functionScope = c.functionScope

variable {env : Env} {c c₁ c₂ : FnState}

theorem count_le_insert (m : Std.HashMap String Nat) (k a : String) :
    m.getD a 0 ≤ (m.insert k (m.getD k 0 + 1)).getD a 0 := by
  rw [Std.HashMap.getD_insert]
  split
  · next h =>
    rw [beq_iff_eq.mp h]
    exact Nat.le_succ _
  · exact Nat.le_refl _

namespace Advances

theorem refl (c : FnState) : Advances env c c :=
  ⟨Nat.le_refl _, fun _ => Nat.le_refl _, fun _ h => absurd h (Nat.lt_irrefl _)⟩

theorem trans (h₁ : Advances env c c₁) (h₂ : Advances env c₁ c₂) : Advances env c c₂ := by
  refine ⟨h₁.temps.trans h₂.temps, fun b => (h₁.counts b).trans (h₂.counts b), fun b hb => ?_⟩
  -- the counter grew in one of the two steps
  by_cases h : c.names.getD b 0 < c₁.names.getD b 0
  · exact h₁.bases b h
  · exact h₂.bases b (by have := h₁.counts b; omega)

theorem of_same (hb : c₁.builder = c.builder) (hn : c₁.names = c.names) : Advances env c c₁ := by
  refine ⟨by rw [hb], fun _ => by rw [hn], fun b h => ?_⟩
  rw [hn] at h
  exact absurd h (Nat.lt_irrefl _)

theorem fresh {b : String} (hb : env.Base b) :
    Advances env c { c with names := c.names.insert (nameBase b) (c.names.getD (nameBase b) 0 + 1) } := by
  refine ⟨Nat.le_refl _, fun b' => count_le_insert _ _ _, fun b' hb' => ?_⟩
  simp only [Std.HashMap.getD_insert] at hb'
  split at hb'
  · rename_i he
    exact ⟨b, hb, (beq_iff_eq.mp he).symm⟩
  · exact absurd hb' (Nat.lt_irrefl _)

end Advances

namespace Quiet

theorem refl (c : FnState) : Quiet env c c := ⟨Advances.refl c, rfl, rfl, rfl⟩

theorem trans (h₁ : Quiet env c c₁) (h₂ : Quiet env c₁ c₂) : Quiet env c c₂ :=
  ⟨h₁.advances.trans h₂.advances, h₂.nest.trans h₁.nest, h₂.layers.trans h₁.layers,
    h₂.functionScope.trans h₁.functionScope⟩

theorem of_same (hb : c₁.builder = c.builder) (hn : c₁.names = c.names) (hf : c₁.nest = c.nest)
    (hl : c₁.layers = c.layers) (hs : c₁.functionScope = c.functionScope) : Quiet env c c₁ :=
  ⟨Advances.of_same hb hn, hf, hl, hs⟩

theorem builder {b : FnBuilder} (h : c.builder.nextTemp ≤ b.nextTemp) :
    Quiet env c { c with builder := b } :=
  ⟨⟨h, fun _ => Nat.le_refl _, fun _ h => absurd h (Nat.lt_irrefl _)⟩, rfl, rfl, rfl⟩

theorem fresh {b : String} (hb : env.Base b) :
    Quiet env c { c with names := c.names.insert (nameBase b) (c.names.getD (nameBase b) 0 + 1) } :=
  ⟨Advances.fresh hb, rfl, rfl, rfl⟩

end Quiet

/-- Successful runs of `m` in `env` keep the function state related by `R` to whatever state it
was related to when they started. -/
def Moves (env : Env) (R : FnState → FnState → Prop) {α : Type} (m : Gen α) : Prop :=
  ∀ c₀ s a s', R c₀ s.fn → m env s = .ok (a, s') → R c₀ s'.fn

namespace Moves

variable {α β : Type} {R : FnState → FnState → Prop} {x y : Gen α}

theorem run {m : Gen α} (h : Moves env R m) (hR : ∀ c, R c c) {s s' : GenState} {a : α}
    (hrun : m env s = .ok (a, s')) : R s.fn s'.fn :=
  h s.fn s a s' (hR s.fn) hrun

theorem mono {m : Gen α} {R' : FnState → FnState → Prop} (h : Moves env R m) (hR : ∀ c, R c c)
    (hstep : ∀ c₀ c c', R' c₀ c → R c c' → R' c₀ c') : Moves env R' m :=
  fun _ _ _ _ h₀ hrun => hstep _ _ _ h₀ (h.run hR hrun)

theorem of_fnFixed {m : Gen α} (h : FnFixed m) : Moves env R m := by
  intro c₀ s a s' h₀ hrun
  have hs := h s.fn env s rfl
  rw [hrun] at hs
  exact hs ▸ h₀

theorem pure (a : α) : Moves env R (Pure.pure a : Gen α) := by
  intro c₀ s b s' h₀ hrun
  cases hrun
  exact h₀

theorem bind {f : α → Gen β} (hx : Moves env R x) (hf : ∀ a, Moves env R (f a)) :
    Moves env R (x >>= f) := by
  intro c₀ s b s' h₀ hrun
  obtain ⟨a, s₁, h₁, h₂⟩ := Gen.bind_ok hrun
  exact hf a c₀ s₁ b s' (hx c₀ s a s₁ h₀ h₁) h₂

theorem throw (e : LowerError) : Moves env R (MonadExcept.throw e : Gen α) := by
  intro c₀ s a s' _ hrun
  cases hrun

theorem throw_bind (e : LowerError) (f : α → Gen β) : Moves env R (MonadExcept.throw e >>= f) := by
  intro c₀ s b s' _ hrun
  obtain ⟨a, s₁, h₁, -⟩ := Gen.bind_ok hrun
  cases h₁

theorem lift (x : Except LowerError α) : Moves env R (x : Gen α) := by
  intro c₀ s a s' h₀ hrun
  cases x with
  | error e => cases hrun
  | ok b =>
    simp only [liftM, monadLift, MonadLift.monadLift, StateT.lift] at hrun
    cases hrun
    exact h₀

theorem ite {c : Prop} {h : Decidable c} (hx : Moves env R x) (hy : Moves env R y) :
    Moves env R (if c then x else y) := by
  split
  · exact hx
  · exact hy

theorem discard (hx : Moves env R x) : Moves env R (discard x) := by
  intro c₀ s u s' h₀ hrun
  change (x env s >>= fun p => Pure.pure ((), p.2)) = _ at hrun
  cases hx' : x env s with
  | error e =>
    rw [hx'] at hrun
    cases hrun
  | ok p =>
    rw [hx'] at hrun
    cases hrun
    exact hx c₀ s p.1 p.2 h₀ hx'

theorem forIn {xs : List α} {f : α → β → Gen (ForInStep β)} (hf : ∀ a b, Moves env R (f a b))
    (init : β) : Moves env R (forIn xs init f) := by
  induction xs generalizing init with
  | nil => exact pure init
  | cons x xs ih =>
    rw [List.forIn_cons]
    refine bind (hf x init) fun step => ?_
    cases step with
    | done b => exact pure b
    | yield b => exact ih b

theorem forInArray {xs : Array α} {f : α → β → Gen (ForInStep β)} (hf : ∀ a b, Moves env R (f a b))
    (init : β) : Moves env R (ForIn.forIn xs init f) := by
  rw [← Array.forIn_toList]
  exact forIn hf init

theorem forM {xs : List α} {f : α → Gen PUnit} (hf : ∀ a, Moves env R (f a)) :
    Moves env R (xs.forM f) := by
  induction xs with
  | nil => exact pure _
  | cons x xs ih => exact bind (hf x) fun _ => ih

theorem mapM {xs : List α} {f : α → Gen β} (hf : ∀ a, Moves env R (f a)) :
    Moves env R (xs.mapM f) := by
  induction xs with
  | nil => exact pure _
  | cons x xs ih =>
    rw [List.mapM_cons]
    exact bind (hf x) fun _ => bind ih fun _ => pure _

theorem anyM {xs : List α} {f : α → Gen Bool} (hf : ∀ a, Moves env R (f a)) :
    Moves env R (xs.anyM f) := by
  induction xs with
  | nil => exact pure _
  | cons x xs ih =>
    rw [List.anyM_cons]
    refine bind (hf x) fun b => ?_
    cases b
    · exact ih
    · exact pure _

end Moves

namespace Gen

variable {α : Type} {R : FnState → FnState → Prop}

theorem moves_get : Moves env R (get : Gen GenState) := Moves.of_fnFixed fnFixed_get

theorem moves_read : Moves env R (read : Gen Env) := Moves.of_fnFixed fnFixed_read

theorem moves_ask (f : Env → Except LowerError α) : Moves env R (ask f) :=
  moves_read.bind fun _ => Moves.lift _

theorem moves_unit : Moves env R unit := Moves.of_fnFixed fnFixed_unit

theorem moves_contractDef (i : Nat) : Moves env R (contractDef i) :=
  Moves.of_fnFixed (fnFixed_contractDef i)

theorem moves_functionDef (i : Nat) : Moves env R (functionDef i) :=
  Moves.of_fnFixed (fnFixed_functionDef i)

theorem moves_modifierDef (i : Nat) : Moves env R (modifierDef i) :=
  Moves.of_fnFixed (fnFixed_modifierDef i)

theorem moves_varDecl (i : Nat) : Moves env R (varDecl i) := Moves.of_fnFixed (fnFixed_varDecl i)

theorem varDecl_ok {i : Nat} {d : VariableDecl} {s s' : GenState} (h : varDecl i env s = .ok (d, s')) :
    env.unit.var? i = some d ∧ s' = s := by
  unfold varDecl at h
  rw [bind_run_ok (unit_run env s)] at h
  cases hd : env.unit.var? i with
  | none => rw [hd] at h; cases h
  | some d' =>
    rw [hd] at h
    have h' : (Except.ok (d', s) : Except LowerError (VariableDecl × GenState)) = .ok (d, s') := h
    simp only [Except.ok.injEq, Prod.mk.injEq] at h'
    exact ⟨by rw [h'.1], h'.2.symm⟩

theorem moves_varDecl_bind {β : Type} {i : Nat} {f : VariableDecl → Gen β}
    (hf : ∀ d, env.unit.var? i = some d → Moves env R (f d)) : Moves env R (varDecl i >>= f) := by
  intro c₀ s b s' h₀ hrun
  obtain ⟨d, s₁, h₁, h₂⟩ := bind_ok hrun
  obtain ⟨hd, rfl⟩ := varDecl_ok h₁
  exact hf d hd c₀ _ b s' h₀ h₂

theorem moves_structDef (i : Nat) : Moves env R (structDef i) := Moves.of_fnFixed (fnFixed_structDef i)

theorem moves_lookupVar (v : Nat) : Moves env R (lookupVar v) := Moves.of_fnFixed (fnFixed_lookupVar v)

theorem moves_returnValues : Moves env R returnValues := Moves.of_fnFixed fnFixed_returnValues

theorem moves_currentBlock : Moves env R currentBlock := Moves.of_fnFixed fnFixed_currentBlock

theorem moves_isTerminated : Moves env R isTerminated := Moves.of_fnFixed fnFixed_isTerminated

theorem moves_modifyContract (f : ContractState → ContractState) : Moves env R (modifyContract f) :=
  Moves.of_fnFixed (fnFixed_modifyContract f)

theorem moves_liftIr (x : Except IR.IrError α) : Moves env R (liftIr x) := by
  cases x with
  | ok a => exact Moves.pure a
  | error e => exact Moves.throw _

theorem moves_checkOpen : Moves env R checkOpen := moves_get.bind fun _ => moves_liftIr _

theorem moves_modifyFn {f : FnState → FnState} (hf : ∀ c, Quiet env c (f c)) :
    Moves env (Quiet env) (modifyFn f) := by
  intro c₀ s a s' h₀ hrun
  rw [modifyFn_run] at hrun
  cases hrun
  exact h₀.trans (hf s.fn)

theorem moves_modifyBuilder {f : FnBuilder → FnBuilder} (hf : ∀ b, b.nextTemp ≤ (f b).nextTemp) :
    Moves env (Quiet env) (modifyBuilder f) :=
  moves_modifyFn fun c => Quiet.builder (hf c.builder)

theorem moves_withBuilder {f : FnBuilder → α × FnBuilder} (hf : ∀ b, b.nextTemp ≤ (f b).2.nextTemp) :
    Moves env (Quiet env) (withBuilder f) := by
  intro c₀ s a s' h₀ hrun
  rw [withBuilder_run] at hrun
  cases hrun
  exact h₀.trans (Quiet.builder (hf s.fn.builder))

theorem moves_tryBuilder {f : FnBuilder → Except IR.IrError FnBuilder}
    (hf : ∀ b b', f b = .ok b' → b.nextTemp ≤ b'.nextTemp) : Moves env (Quiet env) (tryBuilder f) := by
  intro c₀ s a s' h₀ hrun
  obtain ⟨b, hb, rfl⟩ := tryBuilder_ok hrun
  exact h₀.trans (Quiet.builder (hf _ _ hb))

theorem moves_createBlock (label : String) : Moves env (Quiet env) (createBlock label) :=
  moves_withBuilder fun _ => Nat.le_refl _

theorem moves_switchTo (id : Nat) : Moves env (Quiet env) (switchTo id) :=
  moves_tryBuilder fun _ _ h => (IR.FnBuilder.nextTemp_of_switchTo h).ge

theorem moves_terminate (t : IR.Terminator) : Moves env (Quiet env) (terminate t) :=
  moves_tryBuilder fun _ _ h => (IR.FnBuilder.nextTemp_of_terminate h).ge

theorem moves_emitUnit (i : Instr) : Moves env (Quiet env) (emitUnit i) :=
  moves_checkOpen.bind fun _ => moves_modifyBuilder fun b => (IR.FnBuilder.push_nextTemp b i).ge

theorem moves_emit (mk : Value → Instr) : Moves env (Quiet env) (emit mk) :=
  moves_checkOpen.bind fun _ => moves_withBuilder fun b => by simp

theorem moves_emitMany (n : Nat) (mk : List Value → Instr) : Moves env (Quiet env) (emitMany n mk) :=
  moves_checkOpen.bind fun _ => (moves_withBuilder fun b => by simp).bind fun _ =>
    (moves_modifyBuilder fun b => (IR.FnBuilder.push_nextTemp b _).ge).bind fun _ => Moves.pure _

theorem moves_binary (op : IR.BinOp) (l r : Value) : Moves env (Quiet env) (binary op l r) :=
  moves_emit _

theorem moves_unary (op : IR.UnOp) (v : Value) : Moves env (Quiet env) (unary op v) := moves_emit _

theorem moves_context (v : IR.ContextVar) : Moves env (Quiet env) (context v) := moves_emit _

theorem moves_freshName {base : String} (hb : env.Base base) :
    Moves env (Quiet env) (freshName base) := by
  intro c₀ s a s' h₀ hrun
  rw [freshName_run] at hrun
  cases hrun
  exact h₀.trans (Quiet.fresh hb)

theorem moves_freshLocal {base : String} (hb : env.Base base) :
    Moves env (Quiet env) (freshLocal base) :=
  (moves_freshName hb).bind fun _ => Moves.pure _

theorem moves_startBlock (label : String) : Moves env (Quiet env) (startBlock label) :=
  (moves_createBlock _).bind fun _ => (moves_switchTo _).bind fun _ => Moves.pure _

theorem moves_jumpIfOpen (target : Nat) : Moves env (Quiet env) (jumpIfOpen target) :=
  moves_isTerminated.bind fun _ => Moves.ite (moves_terminate _) (Moves.pure _)

theorem moves_jumpAndDetach (target : Nat) : Moves env (Quiet env) (jumpAndDetach target) :=
  (moves_terminate _).bind fun _ => (moves_startBlock _).discard

theorem moves_failIf (cond : Value) (failure : Nat) (label : String) :
    Moves env (Quiet env) (failIf cond failure label) := by
  unfold failIf
  split
  · exact Moves.ite (Moves.pure _) (moves_jumpAndDetach _)
  · exact (moves_createBlock _).bind fun _ => (moves_terminate _).bind fun _ => moves_switchTo _

theorem moves_terminalBlock (label : String) (t : IR.Terminator) :
    Moves env (Quiet env) (terminalBlock label t) :=
  moves_currentBlock.bind fun _ => (moves_createBlock _).bind fun _ => (moves_switchTo _).bind fun _ =>
    (moves_terminate _).bind fun _ => (moves_switchTo _).bind fun _ => Moves.pure _

theorem moves_revertBlock : Moves env (Quiet env) revertBlock := by
  unfold revertBlock
  refine moves_get.bind fun _ => ?_
  split
  · exact Moves.pure _
  · refine (moves_terminalBlock _ _).bind fun _ => Moves.bind ?_ fun _ => Moves.pure _
    exact moves_modifyFn fun _ => .of_same rfl rfl rfl rfl rfl

theorem moves_statusRevertBlock : Moves env (Quiet env) statusRevertBlock := by
  unfold statusRevertBlock
  refine moves_get.bind fun _ => ?_
  split
  · exact Moves.pure _
  · refine (moves_freshLocal (.inl (by simp [fixedBases]))).bind fun _ =>
      (moves_terminalBlock _ _).bind fun _ => Moves.bind ?_ fun _ => Moves.pure _
    exact moves_modifyFn fun _ => .of_same rfl rfl rfl rfl rfl

theorem moves_assertFailBlock : Moves env (Quiet env) assertFailBlock := by
  unfold assertFailBlock
  refine moves_get.bind fun _ => ?_
  split
  · exact Moves.pure _
  · refine (moves_terminalBlock _ _).bind fun _ => Moves.bind ?_ fun _ => Moves.pure _
    exact moves_modifyFn fun _ => .of_same rfl rfl rfl rfl rfl

theorem moves_irType (t : TypeName) (node : Nat) : Moves env R (irType t node) :=
  Moves.of_fnFixed (fnFixed_irType t node)

theorem moves_storageSize (t : TypeName) (node : Nat) : Moves env R (storageSize t node) :=
  Moves.of_fnFixed (fnFixed_storageSize t node)

theorem moves_storageFieldOffset (id index node : Nat) : Moves env R (storageFieldOffset id index node) :=
  Moves.of_fnFixed (fnFixed_storageFieldOffset id index node)

theorem moves_memberIndex (id : Nat) (name : String) (node : Nat) : Moves env R (memberIndex id name node) :=
  Moves.of_fnFixed (fnFixed_memberIndex id name node)

theorem moves_memberType (id i : Nat) : Moves env R (memberType id i) :=
  Moves.of_fnFixed (fnFixed_memberType id i)

section Defaults

variable {fuel : Nat} (hv : ∀ t node, Moves env (Quiet env) (defaultValueWith fuel t node))
include hv

theorem moves_defaultMembers (ptr : Value) (node : Nat) :
    ∀ (ms : List TypeName) (i : Nat), Moves env (Quiet env) (defaultMembers fuel ptr node i ms)
  | [], i => by
    rw [defaultMembers]
    exact Moves.pure _
  | m :: ms, i => by
    have ih := moves_defaultMembers ptr node ms (i + 1)
    rw [defaultMembers]
    dsimp only
    exact Moves.ite ((hv m node).bind fun _ => (moves_binary _ _ _).bind fun _ =>
      (moves_emitUnit _).bind fun _ => ih) ih

theorem moves_defaultElements (ptr : Value) (base : TypeName) (node : Nat) :
    ∀ (n i : Nat), Moves env (Quiet env) (defaultElements fuel ptr base node i n)
  | 0, i => by
    rw [defaultElements]
    exact Moves.pure _
  | n + 1, i => by
    rw [defaultElements]
    exact (hv base node).bind fun _ => (moves_binary _ _ _).bind fun _ =>
      (moves_emitUnit _).bind fun _ => moves_defaultElements ptr base node n (i + 1)

end Defaults

theorem moves_defaultValueWith : ∀ (fuel : Nat) (t : TypeName) (node : Nat),
    Moves env (Quiet env) (defaultValueWith fuel t node)
  | 0, t, node => by
    rw [defaultValueWith]
    exact Moves.throw _
  | fuel + 1, t, node => by
    have hv := moves_defaultValueWith fuel
    unfold defaultValueWith
    split
    · exact Moves.pure _
    · exact (moves_structDef _).bind fun _ => (moves_emit _).bind fun _ =>
        (moves_defaultMembers hv _ node _ 0).bind fun _ => Moves.pure _
    · dsimp only
      refine (moves_emit _).bind fun ptr => Moves.ite ((moves_emitUnit _).bind fun _ => ?_) ?_ <;>
        exact Moves.ite ((moves_defaultElements hv _ _ node _ 1).bind fun _ => Moves.pure _)
          (Moves.pure _)
    · exact Moves.pure _

theorem moves_defaultValue (t : TypeName) (node : Nat) : Moves env (Quiet env) (defaultValue t node) :=
  moves_unit.bind fun _ => moves_defaultValueWith _ t node

theorem moves_mask (v : Value) (t : TypeName) : Moves env (Quiet env) (mask v t) := by
  unfold mask
  split
  · exact Moves.pure _
  · split
    · exact Moves.pure _
    · exact Moves.ite (moves_emit _) (moves_emit _)

theorem moves_convert (v : Value) (src dst : TypeName) : Moves env (Quiet env) (convert v src dst) := by
  unfold convert
  refine Moves.ite (Moves.pure _) ?_
  split
  · exact Moves.ite (moves_binary _ _ _) (moves_binary _ _ _)
  · exact Moves.pure _
  · exact moves_mask _ _

theorem moves_binaryOperation (op : BinaryOp) (l r : Value) (t : TypeName) (node : Nat) :
    Moves env (Quiet env) (binaryOperation op l r t node) := by
  unfold binaryOperation
  dsimp only
  split
  · rename_i ir _
    -- the operation itself, after the division check if there is one
    have hop : Moves env (Quiet env) (binary ir l r >>= fun result =>
        if op.mayOverflow = true then mask result t else Pure.pure result) :=
      (moves_binary _ _ _).bind fun _ => Moves.ite (moves_mask _ _) (Moves.pure _)
    have hcheck : ∀ isZero, Moves env (Quiet env) (assertFailBlock >>= fun fail =>
        failIf isZero fail "div.ok" >>= fun _ => binary ir l r >>= fun result =>
          if op.mayOverflow = true then mask result t else Pure.pure result) :=
      fun isZero => moves_assertFailBlock.bind fun fail => (moves_failIf isZero fail _).bind fun _ => hop
    refine moves_read.bind fun _ => Moves.ite ?_ hop
    split
    · exact (Moves.pure _).bind hcheck
    · exact (moves_unary _ _).bind hcheck
  · exact Moves.throw _

theorem moves_offset (base by_ : Value) : Moves env (Quiet env) (offset base by_) := by
  unfold offset
  split
  · exact Moves.pure _
  · exact Moves.pure _
  · exact moves_binary _ _ _

theorem moves_scale (index : Value) (size : Nat) : Moves env (Quiet env) (scale index size) := by
  unfold scale
  refine Moves.ite (Moves.pure _) ?_
  split
  · exact Moves.pure _
  · exact moves_binary _ _ _

theorem moves_checkBounds (index length : Value) : Moves env (Quiet env) (checkBounds index length) := by
  unfold checkBounds
  dsimp only
  refine moves_read.bind fun _ => Moves.ite (Moves.pure _) ?_
  have hfail : ∀ outOfRange, Moves env (Quiet env)
      (assertFailBlock >>= fun fail => failIf outOfRange fail "index.ok") :=
    fun _ => moves_assertFailBlock.bind fun fail => moves_failIf _ fail _
  split
  · exact (Moves.pure _).bind hfail
  · exact (moves_binary _ _ _).bind hfail

theorem moves_storageElementSlot (base : Value) (array : TypeName) (index : Value) (node : Nat) :
    Moves env (Quiet env) (storageElementSlot base array index node) := by
  unfold storageElementSlot
  dsimp only
  split
  · refine (moves_storageSize _ node).bind fun _ => ?_
    split
    · exact (moves_checkBounds _ _).bind fun _ => (Moves.pure _).bind fun _ =>
        (moves_scale _ _).bind fun _ => moves_offset _ _
    · exact (moves_emit _).bind fun _ => (moves_checkBounds _ _).bind fun _ =>
        (moves_emit _).bind fun _ => (moves_scale _ _).bind fun _ => moves_offset _ _
  · exact Moves.throw _

theorem moves_memoryElementAddress (ptr index : Value) :
    Moves env (Quiet env) (memoryElementAddress ptr index) :=
  (moves_emit _).bind fun _ => (moves_checkBounds _ _).bind fun _ =>
    (moves_offset _ _).bind fun _ => moves_offset _ _

theorem moves_load (p : Place) : Moves env (Quiet env) (load p) := by
  cases p with
  | register x t => exact moves_emit _
  | memory a t => exact moves_emit _
  | storage s t => exact Moves.ite (moves_emit _) (Moves.pure _)

theorem moves_prepareValue (v : Value) (src dst : TypeName) (node : Nat) :
    Moves env (Quiet env) (prepareValue v src dst node) := by
  unfold prepareValue
  exact Moves.ite ((moves_irType _ _).bind fun _ => moves_emit _)
    (Moves.ite (moves_convert _ _ _) (Moves.pure _))

theorem moves_store (p : Place) (v : Value) (src : TypeName) (node : Nat) :
    Moves env (Quiet env) (store p v src node) := by
  cases p with
  | register x t => exact (moves_prepareValue _ _ _ _).bind fun _ => moves_emitUnit _
  | memory a t => exact (moves_prepareValue _ _ _ _).bind fun _ => moves_emitUnit _
  | storage s t =>
    refine Moves.ite ((moves_convert _ _ _).bind fun _ => moves_emitUnit _) ?_
    exact (moves_irType _ _).bind fun _ => Moves.ite (moves_emitUnit _)
      (Moves.ite (moves_emitUnit _) (Moves.throw _))

theorem moves_delete (p : Place) (node : Nat) : Moves env (Quiet env) (delete p node) := by
  unfold delete
  split
  · exact Moves.throw _
  · exact Moves.ite ((moves_irType _ _).bind fun _ => moves_emitUnit _)
      ((moves_defaultValue _ _).bind fun _ => moves_emitUnit _)
  · exact (moves_defaultValue _ _).bind fun _ => moves_emitUnit _
  · exact (moves_defaultValue _ _).bind fun _ => moves_emitUnit _

theorem moves_update (p : Place) (op : BinaryOp) (rhs : Value) (rhsTy : TypeName) (node : Nat) :
    Moves env (Quiet env) (update p op rhs rhsTy node) := by
  unfold update
  dsimp only
  refine (moves_load p).bind fun _ =>
    Moves.ite ((Moves.pure _).bind fun _ => ?_) ((moves_convert _ _ _).bind fun _ => ?_) <;>
  exact (moves_binaryOperation _ _ _ _ _).bind fun _ => (moves_store _ _ _ _).bind fun _ => Moves.pure _

end Gen

end ContractCfg.Lower
