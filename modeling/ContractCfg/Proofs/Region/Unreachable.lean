import ContractCfg.Proofs.Region.Dead
import ContractCfg.Proofs.IR.Reach
import ContractCfg.Proofs.Cursor.Functions
import ContractCfg.Proofs.Lower.Returning

/-!
Code after an exit never reaches the built function. Wherever a function body lowers a list of
statements (its own block, a nested block, a branch, a loop body, the body of a modifier), the
statements after an exiting one are lowered into a sealed region: every block they write or make,
but the shared failure blocks, belongs to it. The code that lowers the enclosing statements only
jumps out of the region and never into it, so the region is still sealed when the function is
built. The entry reaches none of its blocks, and building, which keeps exactly the blocks the
entry reaches, drops them all. The same holds of the constructor, which lowers the constructor
bodies of the linearization one after another into one function.
-/

namespace ContractCfg.Lower

open ContractCfg.Source
open ContractCfg.IR ContractCfg.IR.FnBuilder ContractCfg.IR.Body

theorem Ensures.any {α : Type} {pre : GenState → Prop} (m : Gen α) : Ensures pre m fun _ _ => True :=
  fun _ _ _ _ _ _ => trivial

theorem Confines.wired {α : Type} {m : Gen α} (hm : Confines m) : Ensures Wired m fun _ => Wired :=
  fun env s a s' hw hrun => (hm.grows 0 env s a s' ⟨hw, Nat.zero_le _⟩ hrun).1

theorem Wired.fresh (s : GenState) (name : String) (scope : Nat) :
    Wired { s with fn := FnState.new name scope } := by
  refine ⟨fun k hk => ?_, Nat.zero_lt_one, fun j t ht => ?_, fun k hk => ?_, fun k hk => ?_,
    fun hk => ?_, fun k hk => ?_, Nat.zero_lt_one⟩
  · change ((FnBuilder.new name).block? k).isSome at hk
    rw [block?_new] at hk
    split at hk
    · rename_i h0
      exact h0 ▸ Nat.zero_lt_one
    · cases hk
  · change t ∈ (FnBuilder.new name).fn.body.successors j at ht
    have hb := block?_new name j
    simp only [block?] at hb
    rw [Body.successors, hb] at ht
    split_ifs at ht <;> simp [IR.Terminator.successors] at ht
  · simp [FnState.targets, FnState.new, loopTargets] at hk
  · simp [FnState.shared, FnState.new] at hk
  · simp [FnState.shared, FnState.new] at hk
  · simp [FnState.new, loopTargets] at hk

theorem Sealed.not_reach {D : Set Nat} {s : GenState} (h : Sealed D s) {k : Nat}
    (hk : Reach s.fn.builder.fn.body s.fn.builder.fn.body.entry k) : k ∉ D := by
  induction hk with
  | refl => exact h.entry
  | step _ ht ih => exact fun hk => ih (h.closed _ _ ht hk)

namespace Gen

theorem confines_modifyBuilder (g : FnBuilder → FnBuilder) (hbody : ∀ b, (g b).fn.body = b.fn.body)
    (hcur : ∀ b, (g b).current = b.current) : Confines (modifyBuilder g) := by
  intro w env s u s' h hrun
  rw [modifyBuilder_run] at hrun
  cases hrun
  exact h.of_builder (hbody _) (hcur _)

theorem confines_param (name : String) (ty : IR.Ty) : Confines (withBuilder (·.param name ty)) := by
  intro w env s v s' h hrun
  rw [withBuilder_run] at hrun
  cases hrun
  exact h.of_builder rfl rfl

theorem confines_declareParameters (params : List Nat) : Confines (declareParameters params) := by
  unfold declareParameters
  exact (Confines.forIn (fun _ _ => (Confines.of_fnFixed (fnFixed_varDecl _)).bind fun _ =>
    (Confines.of_fnFixed (fnFixed_irType _ _)).bind fun _ => (confines_freshName _).bind fun _ =>
      (confines_param _ _).bind fun _ => (confines_declareInFunctionScope _ _).bind fun _ =>
        Confines.pure _) _).bind fun _ => Confines.pure _

theorem confines_payableCheck : Confines payableCheck :=
  (confines_context _).bind fun _ => (confines_binary _ _ _).bind fun _ =>
    confines_revertBlock_bind fun k => confinesAt_failIf _ k _

/-- A function up to its body: the fresh function with its signature, the parameters, the return
variables set to their defaults, and the value check of an entry point that rejects value. -/
def functionHead (f : Nat) (entry : Bool) : Gen Unit := do
  let d ← functionDef f
  let owner ← contractDef d.contract
  let name ← if entry then ask (·.functionName f) else ask (·.qualifiedName f)
  let visibility ← if entry || !(← ask (·.isEntryPoint f)) then pure d.visibility.toIr
    else pure .internal
  startFunction name d.contract
  modifyBuilder fun b => ((b.setVisibility visibility).setMutability d.mutability.toIr).modifyInfo
    fun i => { i with isFallback := d.kind == .fallback, sourceName := some d.name,
                      definedIn := some owner.name }
  declareParameters d.params
  let mut returnTypes := #[]
  for r in d.returns do
    let rd ← varDecl r
    returnTypes := returnTypes.push (← irType rd.ty rd.id)
    let x ← freshLocal rd.name
    let zero ← defaultValue rd.ty rd.id
    emitUnit (.assign x zero)
    declareInFunctionScope r x
    modifyFn fun s => { s with returnVars := s.returnVars ++ [(x, rd.ty)] }
  modifyBuilder (·.setReturns returnTypes.toList)
  if entry && (← ask (·.rejectsValue f)) then payableCheck

/-- A function after its body: the return of the return variables, then the build. -/
def functionEnd : Gen IR.Function := do
  terminate (.ret (← returnValues))
  finishFunction

theorem bind_ite {α β : Type} {c : Prop} [Decidable c] (x y : Gen α) (g : α → Gen β) :
    (if c then x else y) >>= g = if c then x >>= g else y >>= g := by
  split <;> rfl

theorem function_eq (f : Nat) (entry : Bool) :
    function f entry = functionHead f entry >>= fun _ => functionBody f >>= fun _ => functionEnd := by
  unfold function functionHead functionEnd
  simp only [bind_assoc, bind_ite, pure_bind]

theorem functionHead_wired (f : Nat) (entry : Bool) :
    Ensures (fun _ => True) (functionHead f entry) fun _ => Wired := by
  unfold functionHead
  refine (Ensures.any _).bind fun d => (Ensures.any _).bind fun owner => ?_
  extract_lets returnTypes named
  have hnamed : ∀ name, Ensures (fun _ => True) (named name) fun _ => Wired := by
    intro name
    refine (Ensures.any _).bind fun _ => ?_
    extract_lets start
    have hstart : ∀ v, Ensures (fun _ => True) (start v) fun _ => Wired := by
      intro v
      refine Ensures.bind (fun env s u s' _ hrun => ?_) fun _ => Confines.wired ?_
      · cases hrun
        exact Wired.fresh _ _ _
      refine (confines_modifyBuilder _ (fun _ => by rfl) fun _ => by rfl).bind fun _ =>
        (confines_declareParameters _).bind fun _ => (Confines.forIn (fun r _ => ?_) _).bind fun _ =>
          (confines_modifyBuilder _ (fun _ => by rfl) fun _ => by rfl).bind fun _ => confines_ask.bind
            fun _ => Confines.ite confines_payableCheck (Confines.pure _)
      exact (Confines.of_fnFixed (fnFixed_varDecl r)).bind fun _ =>
        (Confines.of_fnFixed (fnFixed_irType _ _)).bind fun _ => (confines_freshLocal _).bind fun _ =>
          (confines_defaultValue _ _).bind fun _ => (confines_emitUnit _).bind fun _ =>
            (confines_declareInFunctionScope _ _).bind fun _ =>
              (confines_modifyFn _ (fun _ => by rfl) (fun _ => by rfl) (fun _ => by rfl) fun _ => by rfl).bind
                fun _ => Confines.pure _
    exact Ensures.ite ((Ensures.any _).bind hstart) ((Ensures.any _).bind hstart)
  exact Ensures.ite ((Ensures.any _).bind hnamed) ((Ensures.any _).bind hnamed)

theorem finish_keeps {D : Set Nat} {env : Env} {s s' : GenState} {fn : IR.Function} {vs : List Value}
    (hrun : (terminate (.ret vs) >>= fun _ => finishFunction) env s = .ok (fn, s')) (hw : Wired s)
    (hD : Sealed D s) : Sealed D s' ∧ s'.fn.builder.build = .ok fn := by
  obtain ⟨u, s₁, h₁, h₂⟩ := bind_ok hrun
  have g₁ := confines_terminate (t := .ret vs) rfl _ env s u s₁ ((Guard.plain hw le_rfl).reseal hD) h₁
  unfold finishFunction at h₂
  rw [bind_run_ok (get_run env s₁)] at h₂
  obtain ⟨hb, rfl⟩ := liftIr_ok h₂
  exact ⟨g₁.sealed, hb⟩

theorem functionEnd_keeps {D : Set Nat} {env : Env} {s s' : GenState} {fn : IR.Function}
    (hrun : functionEnd env s = .ok (fn, s')) (hw : Wired s) (hD : Sealed D s) :
    Sealed D s' ∧ s'.fn.builder.build = .ok fn := by
  unfold functionEnd at hrun
  obtain ⟨vs, s₁, h₁, hrun⟩ := bind_ok hrun
  have g₁ := Confines.of_fnFixed fnFixed_returnValues _ env s vs s₁ ((Guard.plain hw le_rfl).reseal hD) h₁
  exact finish_keeps hrun g₁.wired g₁.sealed

/-- The constructor up to its bodies: the fresh function `init`, with the mutability and the
parameters of the contract's own constructor, and the value check unless that is payable. -/
def constructorHead (env : Env) : Gen Unit := do
  let ctor ← ask (·.constructorOf env.contract)
  let mutability ← match ctor with
    | some c => pure (← functionDef c).mutability
    | none => pure .nonPayable
  startFunction "init" env.contract
  let name := (← contractDef env.contract).name
  modifyBuilder fun b => ((b.setVisibility .pub).setMutability mutability.toIr).modifyInfo
    fun i => { i with isConstructor := true, definedIn := some name }
  if let some c := ctor then declareParameters (← functionDef c).params
  if mutability != .payable then payableCheck

/-- One contract of the linearization, up to its constructor body: the initializers of its state
variables, then its constructor if that has a body. A base constructor with parameters is
refused. -/
def constructorPrelude (self c : Nat) : Gen (Option Nat) := do
  modifyFn fun s => { s with scope := c }
  for v in (← contractDef c).stateVariables do
    let d ← varDecl v
    let some init := d.value
      | continue
    if d.isConstant then continue
    let some slot := (← get).contract.slots.get? v
      | throw (.unknownVariable d.id d.name)
    let value ← (← eval).single init
    store (Place.inStorage (.ofInt slot) d.ty) value init.ty init.id
  let some bc ← ask (·.constructorOf c)
    | pure none
  let bd ← functionDef bc
  if c != self && !bd.params.isEmpty then
    throw (.unsupportedFeature bd.id "base constructor arguments")
  pure (if bd.isImplemented then some bc else none)

/-- One contract of the linearization in the constructor. -/
def constructorStep (self c : Nat) : Gen Unit :=
  constructorPrelude self c >>= fun o => o.elim (pure ()) functionBody

/-- The end of the constructor: the return, then the build. -/
def constructorEnd : Gen IR.Function := do
  terminate (.ret [])
  finishFunction

theorem forIn_unit_eq_forM {α : Type} {xs : List α} {f : α → PUnit → Gen (ForInStep PUnit)}
    {g : α → Gen Unit} (h : ∀ a, f a () = g a >>= fun _ => pure (.yield ())) :
    forIn xs () f = xs.forM g := by
  induction xs with
  | nil => rfl
  | cons x xs ih =>
    rw [List.forIn_cons, h, bind_assoc]
    simp only [pure_bind]
    rw [ih]
    rfl

theorem constructor_eq :
    constructor = read >>= fun env => constructorHead env >>= fun _ =>
      env.linearization.reverse.forM (constructorStep env.contract) >>= fun _ => constructorEnd := by
  unfold constructor
  congr 1
  funext env
  rw [forIn_unit_eq_forM (g := constructorStep env.contract) (fun c => ?_)]
  -- the head, then the loop body: the step, and the loop goes on in every branch
  · unfold constructorHead constructorEnd
    simp only [bind_assoc]
    congr 1
    funext ctor
    cases ctor <;> simp only [bind_assoc, bind_ite, pure_bind]
  · unfold constructorStep constructorPrelude
    simp only [bind_assoc]
    congr 1
    funext u
    congr 1
    funext cd
    congr 1
    funext u'
    congr 1
    funext o
    cases o with
    | none => simp only [pure_bind, Option.elim]
    | some bc =>
      simp only [bind_assoc]
      congr 1
      funext bd
      split
      · simp only [throw_bind_eq]
      · simp only [pure_bind]
        split <;> rfl

theorem constructorHead_wired (env : Env) :
    Ensures (fun _ => True) (constructorHead env) fun _ => Wired := by
  unfold constructorHead
  refine (Ensures.any _).bind fun ctor => ?_
  extract_lets start
  have hstart : ∀ m, Ensures (fun _ => True) (start m) fun _ => Wired := by
    intro m
    refine Ensures.bind (fun env s u s' _ hrun => ?_) fun _ => Confines.wired ?_
    · cases hrun
      exact Wired.fresh _ _ _
    refine (Confines.of_fnFixed (fnFixed_contractDef _)).bind fun _ =>
      (confines_modifyBuilder _ (fun _ => by rfl) fun _ => by rfl).bind fun _ => ?_
    extract_lets pay
    split
    · exact (Confines.of_fnFixed (fnFixed_functionDef _)).bind fun _ =>
        (confines_declareParameters _).bind fun _ => Confines.ite confines_payableCheck (Confines.pure _)
    · exact Confines.ite confines_payableCheck (Confines.pure _)
  split
  · exact (Ensures.any _).bind fun _ => (Ensures.any _).bind hstart
  · exact (Ensures.any _).bind hstart

theorem confines_constructorPrelude (self c : Nat) : Confines (constructorPrelude self c) := by
  unfold constructorPrelude
  refine (confines_modifyFn _ (fun _ => by rfl) (fun _ => by rfl) (fun _ => by rfl) fun _ => by rfl).bind
    fun _ => (Confines.of_fnFixed (fnFixed_contractDef c)).bind fun cd =>
      (Confines.forIn (fun v _ => ?_) _).bind fun _ => confines_ask.bind fun bc => ?_
  · refine (Confines.of_fnFixed (fnFixed_varDecl v)).bind fun d => ?_
    split
    · refine Confines.ite (Confines.pure _) ((Confines.of_fnFixed fnFixed_get).bind fun _ => ?_)
      split
      · exact confines_eval_bind fun ev hev => (hev.single _).bind fun _ =>
          (confines_store _ _ _ _).bind fun _ => Confines.pure _
      · exact Confines.throw_bind _
    · exact Confines.pure _
  · split
    · exact (Confines.of_fnFixed (fnFixed_functionDef _)).bind fun bd =>
        Confines.ite (Confines.throw_bind _) (Confines.pure _)
    · exact Confines.pure _

theorem confines_constructorStep (self c : Nat) : Confines (constructorStep self c) :=
  (confines_constructorPrelude self c).bind fun o => by
    cases o with
    | none => exact Confines.pure _
    | some bc => exact confines_functionBody bc

/-- `Occurs env fuel ss σ τ m s s'`: the run of `m` from `s` to `s'` lowers the statement list
`ss` with `fuel`, from `σ` to `τ`. The list is the statements of the block `m` lowers, or a
statement, branch, loop body or expanded body inside it lowers the list. -/
inductive Occurs (env : Env) (fuel : Nat) (ss : List Stmt) (σ τ : GenState) :
    Gen Unit → GenState → GenState → Prop
  | here {b : Source.Block} (hb : b.stmts = ss) (hrun : ss.forM (stmt fuel) env σ = .ok ((), τ)) :
      Occurs env fuel ss σ τ (block (fuel + 1) b) σ τ
  | listed {n : Nat} {b : Source.Block} {pre post : List Stmt} {y : Stmt} {s t t' s' : GenState}
      (hb : b.stmts = pre ++ y :: post) (h₁ : pre.forM (stmt n) env s = .ok ((), t))
      (hy : Occurs env fuel ss σ τ (stmt n y) t t') (h₂ : post.forM (stmt n) env t' = .ok ((), s')) :
      Occurs env fuel ss σ τ (block (n + 1) b) s s'
  | nested {n id : Nat} {b : Source.Block} {s s' : GenState}
      (hy : Occurs env fuel ss σ τ (block n b) s s') :
      Occurs env fuel ss σ τ (stmt (n + 1) ⟨id, .block b⟩) s s'
  | thenBranch {n id : Nat} {cond : Expr} {t : Stmt} {e : Option Stmt} {r : IfBlocks}
      {s s₁ s₂ s' : GenState} (h₁ : ifHead cond e env s = .ok (r, s₁))
      (hy : Occurs env fuel ss σ τ (stmt n t) s₁ s₂) (h₂ : ifTail n r e env s₂ = .ok ((), s')) :
      Occurs env fuel ss σ τ (stmt (n + 1) ⟨id, .ifThen cond t e⟩) s s'
  | elseBranch {n id : Nat} {cond : Expr} {t e : Stmt} {r : IfBlocks} {s s₁ s₂ s' : GenState}
      (h₁ : elseHead n cond t e env s = .ok (r, s₁)) (hy : Occurs env fuel ss σ τ (stmt n e) s₁ s₂)
      (h₂ : joinAt r.join env s₂ = .ok ((), s')) :
      Occurs env fuel ss σ τ (stmt (n + 1) ⟨id, .ifThen cond t (some e)⟩) s s'
  | whileBody {n id : Nat} {cond : Expr} {body : Stmt} {isDoWhile : Bool} {r : LoopBlocks}
      {s s₁ s₂ s' : GenState} (h₁ : whileHead cond isDoWhile env s = .ok (r, s₁))
      (hy : Occurs env fuel ss σ τ (stmt n body) s₁ s₂) (h₂ : whileTail r env s₂ = .ok ((), s')) :
      Occurs env fuel ss σ τ (stmt (n + 1) ⟨id, .whileLoop cond body isDoWhile⟩) s s'
  | initializer {n id : Nat} {i : Stmt} {cond update : Option Expr} {body : Stmt} {s s₁ s' : GenState}
      (hy : Occurs env fuel ss σ τ (stmt n i) s s₁)
      (h₂ : stmt (n + 1) ⟨id, .forLoop none cond update body⟩ env s₁ = .ok ((), s')) :
      Occurs env fuel ss σ τ (stmt (n + 1) ⟨id, .forLoop (some i) cond update body⟩) s s'
  | forBody {n id : Nat} {init : Option Stmt} {cond update : Option Expr} {body : Stmt}
      {r : LoopBlocks} {s s₀ s₁ s₂ s' : GenState} (h₀ : forInit n init env s = .ok ((), s₀))
      (h₁ : forHead cond env s₀ = .ok (r, s₁)) (hy : Occurs env fuel ss σ τ (stmt n body) s₁ s₂)
      (h₂ : forTail update r env s₂ = .ok ((), s')) :
      Occurs env fuel ss σ τ (stmt (n + 1) ⟨id, .forLoop init cond update body⟩) s s'
  | placeholder {n id depth : Nat} {s s' : GenState} (hd : s.fn.modifierDepth = some depth)
      (hy : Occurs env fuel ss σ τ (expand n (depth + 1)) s s') :
      Occurs env fuel ss σ τ (stmt (n + 1) ⟨id, .placeholder⟩) s s'
  | expanded {n depth : Nat} {r : Entered} {s s₁ s₂ s' : GenState}
      (h₁ : expandHead depth env s = .ok (r, s₁)) (hy : Occurs env fuel ss σ τ (block n r.body) s₁ s₂)
      (h₂ : expandTail r env s₂ = .ok ((), s')) :
      Occurs env fuel ss σ τ (expand (n + 1) depth) s s'
  | opened {f : Nat} {r : Opened} {s s₁ s₂ s' : GenState} (h₁ : bodyHead f env s = .ok (r, s₁))
      (hy : Occurs env fuel ss σ τ (expand r.fuel 0) s₁ s₂) (h₂ : bodyTail r env s₂ = .ok ((), s')) :
      Occurs env fuel ss σ τ (functionBody f) s s'

theorem forM_append_run {α : Type} {env : Env} {s t : GenState} {xs ys : List α} {f : α → Gen PUnit}
    (h : xs.forM f env s = .ok ((), t)) : (xs ++ ys).forM f env s = ys.forM f env t := by
  show (forM (xs ++ ys) f : Gen PUnit) env s = _
  rw [List.forM_append]
  exact bind_run_ok h

namespace Occurs

variable {env : Env} {fuel : Nat} {ss : List Stmt} {σ τ : GenState} {m : Gen Unit} {s s' : GenState}

theorem run (h : Occurs env fuel ss σ τ m s s') : m env s = .ok ((), s') := by
  induction h with
  | here hb hrun =>
    rw [block, hb]
    exact hrun
  | listed hb h₁ _ h₂ ih =>
    rw [block, hb, forM_append_run h₁]
    show (stmt _ _ >>= fun _ => List.forM _ (stmt _)) env _ = _
    rw [bind_run_ok ih]
    exact h₂
  | nested _ ih =>
    rw [stmt]
    exact ih
  | thenBranch h₁ _ h₂ ih =>
    rw [stmt_ifThen, bind_run_ok h₁, bind_run_ok ih]
    exact h₂
  | elseBranch h₁ _ h₂ ih =>
    rw [stmt_ifThenElse, bind_run_ok h₁, bind_run_ok ih]
    exact h₂
  | whileBody h₁ _ h₂ ih =>
    rw [stmt_whileLoop, bind_run_ok h₁, bind_run_ok ih]
    exact h₂
  | initializer _ h₂ ih =>
    rw [stmt_forLoop] at h₂ ⊢
    rw [forInit, bind_run_ok ih]
    simpa only [forInit, pure_bind] using h₂
  | forBody h₀ h₁ _ h₂ ih =>
    rw [stmt_forLoop, bind_run_ok h₀, bind_run_ok h₁, bind_run_ok ih]
    exact h₂
  | placeholder hd _ ih =>
    rw [stmt]
    dsimp -zeta only [Stmt.kind]
    rw [bind_run_ok (get_run env _)]
    simp only [hd]
    exact ih
  | expanded h₁ _ h₂ ih =>
    rw [expand_succ, bind_run_ok h₁, bind_run_ok ih]
    exact h₂
  | opened h₁ _ h₂ ih =>
    rw [functionBody_eq, bind_run_ok h₁, bind_run_ok ih]
    exact h₂

theorem list_run (h : Occurs env fuel ss σ τ m s s') : ss.forM (stmt fuel) env σ = .ok ((), τ) := by
  induction h with
  | here _ hrun => exact hrun
  | listed _ _ _ _ ih | nested _ ih | thenBranch _ _ _ ih | elseBranch _ _ _ ih | whileBody _ _ _ ih
    | initializer _ _ ih | forBody _ _ _ _ ih | placeholder _ _ ih | expanded _ _ _ ih
    | opened _ _ _ ih => exact ih

theorem reaches (h : Occurs env fuel ss σ τ m s s') :
    Wired s → Wired σ ∧ s.fn.builder.fn.body.nextId ≤ σ.fn.builder.fn.body.nextId := by
  -- every head keeps the plain watch of its start, whose floor is the counter there
  have step : ∀ {w : Watch} {s₁ : GenState}, Guard w s₁ →
      (Wired s₁ → Wired σ ∧ s₁.fn.builder.fn.body.nextId ≤ σ.fn.builder.fn.body.nextId) →
      Wired σ ∧ w.floor ≤ σ.fn.builder.fn.body.nextId := fun g ih =>
    ⟨(ih g.wired).1, g.floor.trans (ih g.wired).2⟩
  induction h with
  | here => exact fun hw => ⟨hw, le_rfl⟩
  | nested _ ih | initializer _ _ ih | placeholder _ _ ih => exact ih
  | listed _ h₁ _ _ ih =>
    intro hw
    exact step (Confines.forM (bodyConfines _).stmt _ env _ () _ (Guard.plain hw le_rfl) h₁) ih
  | thenBranch h₁ _ _ ih =>
    intro hw
    exact step (ifHead_ensures _ _ env _ _ _ (Guard.plain hw le_rfl) h₁).1 ih
  | elseBranch h₁ _ _ ih =>
    intro hw
    exact step (elseHead_ensures (bodyConfines _).stmt _ _ _ env _ _ _ (Guard.plain hw le_rfl) h₁).1 ih
  | whileBody h₁ _ _ ih =>
    intro hw
    exact step (whileHead_ensures _ _ env _ _ _ (Guard.plain hw le_rfl) h₁).1 ih
  | forBody h₀ h₁ _ _ ih =>
    intro hw
    have g₀ := confines_forInit (bodyConfines _).stmt _ _ env _ () _ (Guard.plain hw le_rfl) h₀
    exact step (forHead_ensures _ env _ _ _ g₀ h₁).1 ih
  | expanded h₁ _ _ ih =>
    intro hw
    exact step (expandHead_ensures _ env _ _ _ (Guard.plain hw le_rfl) h₁).1 ih
  | opened h₁ _ _ ih =>
    intro hw
    exact step (confines_bodyHead _ _ env _ _ _ (Guard.plain hw le_rfl) h₁) ih

theorem fresh (h : Occurs env fuel ss σ τ m s s') (hw : Wired s) {D : Set Nat}
    (hD : ∀ k ∈ D, σ.fn.builder.fn.body.nextId ≤ k) : ∀ k ∈ D, s.fn.builder.fn.body.nextId ≤ k :=
  fun k hk => (h.reaches hw).2.trans (hD k hk)

end Occurs

end Gen

theorem Guard.not_fresh {w : Watch} {s : GenState} (g : Guard w s) {D : Set Nat}
    (hD : ∀ k ∈ D, s.fn.builder.fn.body.nextId ≤ k) {k : Nat} (hk : k ∈ w.made) : k ∉ D :=
  fun h => Nat.not_le.mpr (g.made k hk).1 (hD k h)

namespace Gen

namespace Occurs

variable {env : Env} {fuel : Nat} {ss : List Stmt} {σ τ : GenState} {m : Gen Unit} {s s' : GenState}

theorem keeps_sealed (h : Occurs env fuel ss σ τ m s s') {D : Set Nat}
    (hD : ∀ k ∈ D, σ.fn.builder.fn.body.nextId ≤ k) (hτ : Sealed D τ) : Wired s → Sealed D s' := by
  induction h with
  | here => exact fun _ => hτ
  | nested _ ih | placeholder _ _ ih => exact ih
  | @listed n b pre post y s t t' s' hb h₁ hy h₂ ih =>
    intro hw
    have g₁ := Confines.forM (bodyConfines n).stmt _ env s () t (Guard.plain hw le_rfl) h₁
    have g₂ := (bodyConfines n).stmt y _ env t () t' g₁ hy.run
    exact (Confines.forM (bodyConfines n).stmt _ env t' () s' (g₂.reseal (ih g₁.wired)) h₂).sealed
  | @thenBranch n id cond t e r s s₁ s₂ s' h₁ hy h₂ ih =>
    intro hw
    obtain ⟨g₁, -, hjk, hek⟩ := ifHead_ensures cond e env s r s₁ (Guard.plain hw le_rfl) h₁
    have g₂ := (bodyConfines n).stmt t _ env s₁ () s₂ g₁ hy.run
    exact (ifTail_ensures (bodyConfines n).stmt r e (w := { Watch.plain _ s with
        made := insert r.elseBlock (insert r.join (insert r.thenBlock ∅))
        sealed := D }) (.inr (.inl rfl)) (g₁.not_fresh (hy.fresh g₁.wired hD) (.inr (.inl rfl)))
      hjk (.inl rfl) hek env s₂ () s' (g₂.reseal (ih g₁.wired)) h₂).sealed
  | @elseBranch n id cond t e r s s₁ s₂ s' h₁ hy h₂ ih =>
    intro hw
    obtain ⟨g₁, -, hjk⟩ :=
      elseHead_ensures (bodyConfines n).stmt cond t e env s r s₁ (Guard.plain hw le_rfl) h₁
    have g₂ := (bodyConfines n).stmt e _ env s₁ () s₂ g₁ hy.run
    exact (joinAt_ensures (w := { Watch.plain _ s with
        made := insert r.elseBlock (insert r.join (insert r.thenBlock ∅))
        sealed := D }) (.inr (.inl rfl)) (g₁.not_fresh (hy.fresh g₁.wired hD) (.inr (.inl rfl)))
      hjk env s₂ () s' (g₂.reseal (ih g₁.wired)) h₂).sealed
  | @whileBody n id cond body isDoWhile r s s₁ s₂ s' h₁ hy h₂ ih =>
    intro hw
    obtain ⟨g₁, -, hxk⟩ := whileHead_ensures cond isDoWhile env s r s₁ (Guard.plain hw le_rfl) h₁
    have g₂ := (bodyConfines n).stmt body _ env s₁ () s₂ g₁ hy.run
    exact (whileTail_ensures r (w := { Watch.plain _ s with
        made := insert r.exit (insert r.body (insert r.header ∅))
        sealed := D }) (g₁.not_fresh (hy.fresh g₁.wired hD) (.inr (.inr (.inl rfl)))) (.inl rfl) hxk
      env s₂ () s' (g₂.reseal (ih g₁.wired)) h₂).sealed
  | @initializer n id i cond update body s s₁ s' hy h₂ ih =>
    intro hw
    have g₁ := (bodyConfines n).stmt i _ env s () s₁ (Guard.plain hw le_rfl) hy.run
    exact ((bodyConfines (n + 1)).stmt _ _ env s₁ () s' (g₁.reseal (ih hw)) h₂).sealed
  | @forBody n id init cond update body r s s₀ s₁ s₂ s' h₀ h₁ hy h₂ ih =>
    intro hw
    have g₀ := confines_forInit (bodyConfines n).stmt init _ env s () s₀ (Guard.plain hw le_rfl) h₀
    obtain ⟨g₁, -, -, hsk, hxk⟩ := forHead_ensures cond env s₀ r s₁ g₀ h₁
    have g₂ := (bodyConfines n).stmt body _ env s₁ () s₂ g₁ hy.run
    have hD₁ := hy.fresh g₁.wired hD
    exact (forTail_ensures update r (w := { Watch.plain _ s with
        made := insert r.exit (insert r.step (insert r.body (insert r.header ∅)))
        sealed := D }) (g₁.not_fresh hD₁ (.inr (.inr (.inr (.inl rfl))))) (.inr (.inl rfl))
      (g₁.not_fresh hD₁ (.inr (.inl rfl))) hsk (.inl rfl) hxk env s₂ () s' (g₂.reseal (ih g₁.wired)) h₂).sealed
  | @expanded n depth r s s₁ s₂ s' h₁ hy h₂ ih =>
    intro hw
    obtain ⟨g₁, hls, -, hxk, -⟩ := expandHead_ensures depth env s r s₁ (Guard.plain hw le_rfl) h₁
    have g₂ := (bodyConfines n).block r.body _ env s₁ () s₂ g₁ hy.run
    have hD₁ := hy.fresh g₁.wired hD
    have hl : ∀ k ∈ loopTargets r.loops, k ∈ loopTargets s.fn.loops := by
      rw [hls]
      exact fun k hk => hk
    exact (expandTail_ensures r (w := { Watch.plain _ s with
        made := insert r.exit ∅ ∪ {k | k ∈ loopTargets s.fn.loops}
        loops := []
        sealed := D }) (.inl (.inl rfl)) (g₁.not_fresh hD₁ (.inl (.inl rfl))) hxk
      (fun k hk => ⟨.inr (hl k hk), g₁.not_fresh hD₁ (.inr (hl k hk))⟩) env s₂ () s'
      (g₂.reseal (ih g₁.wired)) h₂).sealed
  | @opened f r s s₁ s₂ s' h₁ hy h₂ ih =>
    intro hw
    have g₁ := confines_bodyHead f _ env s r s₁ (Guard.plain hw le_rfl) h₁
    have g₂ := (bodyConfines r.fuel).expand 0 _ env s₁ () s₂ g₁ hy.run
    exact (confines_bodyTail r _ env s₂ () s' (g₂.reseal (ih g₁.wired)) h₂).sealed

end Occurs

theorem bodyHead_chain {env : Env} {s s₁ : GenState} {f : Nat} {d : FunctionDef} {body : Source.Block}
    {r : Opened} (hd : env.unit.function? f = some d) (hb : d.body = some body)
    (h : bodyHead f env s = .ok (r, s₁)) : s₁.fn.chain = some ⟨f, d.contract, d.modifiers, body⟩ := by
  unfold bodyHead at h
  rw [bind_run_ok (functionDef_run hd)] at h
  dsimp only at h
  rw [hb] at h
  dsimp only at h
  rw [bind_run_ok (get_run env s), bind_run_ok (get_run env s), bind_run_ok (modifyFn_run _ env s),
    bind_run_ok (stmtFuel_run _ env _)] at h
  simp only [pure_run, Except.ok.injEq, Prod.mk.injEq] at h
  rw [← h.2]

theorem expandHead_body {env : Env} {s s₁ : GenState} {ch : Chain} {r : Entered}
    (hch : s.fn.chain = some ch) (hm : ch.modifiers = []) (h : expandHead 0 env s = .ok (r, s₁)) :
    r.body = ch.body := by
  unfold expandHead at h
  rw [bind_run_ok (get_run env s)] at h
  simp only [hch] at h
  rw [bind_run_ok (createBlock_run _ env _)] at h
  simp only [hm, List.length_nil, beq_self_eq_true, ↓reduceIte] at h
  rw [bind_run_ok (get_run env _), bind_run_ok (get_run env _), bind_run_ok (pushLayer_run env _),
    bind_run_ok (pushReturnTarget_run _ env _), bind_run_ok (modifyFn_run _ env _),
    bind_run_ok (takeLoops_run env _)] at h
  simp only [pure_run, Except.ok.injEq, Prod.mk.injEq] at h
  rw [← h.1]

theorem Occurs.of_functionBody {env : Env} {t t' : GenState} {f : Nat} {d : FunctionDef}
    {body : Source.Block} (hd : env.unit.function? f = some d) (hb : d.body = some body)
    (hm : d.modifiers = []) (hrun : functionBody f env t = .ok ((), t')) :
    ∃ fuel σ τ, Occurs env fuel body.stmts σ τ (functionBody f) t t' := by
  rw [functionBody_eq] at hrun
  obtain ⟨r, s₁, h₁, hrun⟩ := bind_ok hrun
  obtain ⟨u, s₂, h₂, h₃⟩ := bind_ok hrun
  -- the expansion and the block each take one unit of fuel; with none left they fail
  cases hf : r.fuel with
  | zero =>
    rw [hf, expand] at h₂
    cases h₂
  | succ n =>
    rw [hf, expand_succ] at h₂
    obtain ⟨r', s₃, h₄, h₂⟩ := bind_ok h₂
    obtain ⟨u, s₄, h₅, h₆⟩ := bind_ok h₂
    have hbody : r'.body = body := expandHead_body (bodyHead_chain hd hb h₁) hm h₄
    cases n with
    | zero =>
      rw [block] at h₅
      cases h₅
    | succ k =>
      have hy : Occurs env k body.stmts s₃ s₄ (block (k + 1) r'.body) s₃ s₄ := by
        rw [hbody] at h₅ ⊢
        exact .here rfl (by rwa [block] at h₅)
      exact ⟨k, s₃, s₄, .opened h₁ (hf ▸ .expanded h₄ hy h₆) h₃⟩

theorem wired_before_constructorBody {env : Env} {s t₀ t u : GenState} {pre : List Nat} {c bc : Nat}
    (hhead : constructorHead env env s = .ok ((), t₀))
    (hpre : pre.forM (constructorStep env.contract) env t₀ = .ok ((), t))
    (hc : constructorPrelude env.contract c env t = .ok (some bc, u)) : Wired u := by
  have hw₀ := constructorHead_wired env env s () t₀ trivial hhead
  have hw := (Confines.forM (confines_constructorStep env.contract)).wired env t₀ () t hw₀ hpre
  exact (confines_constructorPrelude env.contract c).wired env t _ u hw hc

/-- `InFunction env fuel ss σ τ m s`: building a function with `m` from `s` lowers the statement
list `ss` from `σ` to `τ`, inside the body of a function, or, when `m` builds the constructor,
inside the constructor body of one contract of the linearization. -/
inductive InFunction (env : Env) (fuel : Nat) (ss : List Stmt) (σ τ : GenState) :
    Gen IR.Function → GenState → Prop
  | function {f : Nat} {entry : Bool} {s t t' : GenState}
      (hhead : functionHead f entry env s = .ok ((), t))
      (hin : Occurs env fuel ss σ τ (functionBody f) t t') :
      InFunction env fuel ss σ τ (function f entry) s
  | constructor {pre post : List Nat} {c bc : Nat} {s t₀ t u u' : GenState}
      (hlin : env.linearization.reverse = pre ++ c :: post)
      (hhead : constructorHead env env s = .ok ((), t₀))
      (hpre : pre.forM (constructorStep env.contract) env t₀ = .ok ((), t))
      (hc : constructorPrelude env.contract c env t = .ok (some bc, u))
      (hin : Occurs env fuel ss σ τ (functionBody bc) u u') :
      InFunction env fuel ss σ τ constructor s

namespace InFunction

variable {env : Env} {fuel : Nat} {ss : List Stmt} {σ τ : GenState} {m : Gen IR.Function} {s : GenState}

theorem list_run (h : InFunction env fuel ss σ τ m s) : ss.forM (stmt fuel) env σ = .ok ((), τ) := by
  cases h with
  | function _ hin | constructor _ _ _ _ hin => exact hin.list_run

theorem wired (h : InFunction env fuel ss σ τ m s) : Wired σ := by
  cases h with
  | @function f entry s t t' hhead hin =>
    exact (hin.reaches (functionHead_wired f entry env s () t trivial hhead)).1
  | constructor _ hhead hpre hc hin => exact (hin.reaches (wired_before_constructorBody hhead hpre hc)).1

theorem keeps_sealed (h : InFunction env fuel ss σ τ m s) {fn : IR.Function} {s' : GenState}
    (hrun : m env s = .ok (fn, s')) {D : Set Nat} (hD : ∀ k ∈ D, σ.fn.builder.fn.body.nextId ≤ k)
    (hτ : Sealed D τ) : Sealed D s' ∧ s'.fn.builder.build = .ok fn := by
  cases h with
  | @function f entry s t t' hhead hin =>
    rw [function_eq, bind_run_ok hhead, bind_run_ok hin.run] at hrun
    have hwt := functionHead_wired f entry env s () t trivial hhead
    have hwt' := (confines_functionBody f).wired env t () t' hwt hin.run
    exact functionEnd_keeps hrun hwt' (hin.keeps_sealed hD hτ hwt)
  | @constructor pre post c bc s t₀ t u u' hlin hhead hpre hc hin =>
    rw [constructor_eq, bind_run_ok (read_run env s), bind_run_ok hhead] at hrun
    obtain ⟨⟨⟩, t₁, h₁, hend⟩ := bind_ok hrun
    rw [hlin, forM_append_run hpre] at h₁
    change (constructorStep env.contract c >>= fun _ => post.forM _) env t = _ at h₁
    obtain ⟨⟨⟩, u₁, hstep, hpost⟩ := bind_ok h₁
    unfold constructorStep at hstep
    rw [bind_run_ok hc] at hstep
    change functionBody bc env u = _ at hstep
    rw [hin.run] at hstep
    cases hstep
    -- the rest of the linearization and the end keep what the body sealed
    have hwu := wired_before_constructorBody hhead hpre hc
    have hwu' := (confines_functionBody bc).wired env u () u' hwu hin.run
    have g₁ := Confines.forM (confines_constructorStep env.contract) _ env u' () t₁
      ((Guard.plain hwu' le_rfl).reseal (hin.keeps_sealed hD hτ hwu)) hpost
    exact finish_keeps hend g₁.wired g₁.sealed

end InFunction

theorem rest_stranded {env : Env} {fuel : Nat} {pre rest : List Stmt} {x : Stmt} {σ σ₁ τ : GenState}
    (hx : x.exits = true) (hw : Wired σ) (hrun : (pre ++ x :: rest).forM (stmt fuel) env σ = .ok ((), τ))
    (h₁ : (pre ++ [x]).forM (stmt fuel) env σ = .ok ((), σ₁)) :
    ∃ D : Set Nat, (∀ k ∈ D, σ.fn.builder.fn.body.nextId ≤ k) ∧ Sealed D τ ∧ Wired τ ∧
      ∀ k, τ.fn.builder.block? k ≠ σ₁.fn.builder.block? k → k ∉ τ.fn.shared → k ∈ D := by
  rw [show pre ++ x :: rest = (pre ++ [x]) ++ rest by simp, forM_append_run h₁] at hrun
  have hex : Exits ((pre ++ [x]).forM (stmt fuel)) :=
    exits_forM (Stmt.exitsList_iff.mpr ⟨pre, x, [], rfl, hx⟩) (bodyConfines fuel).stmt
      (bodyExits fuel).stmt
  obtain ⟨hw₁, R, hRn, hR, hc⟩ := hex _ env σ () σ₁ ⟨hw, le_rfl⟩ h₁
  obtain ⟨hwτ, hD, -, hsame⟩ := Sealed.extend (Confines.forM (bodyConfines fuel).stmt) hw₁ hR hc hrun
  -- the exit's region lies above the counter where the list started
  have hσ₁ : σ.fn.builder.fn.body.nextId ≤ σ₁.fn.builder.fn.body.nextId :=
    (hRn _ hc).trans (Nat.le_of_lt hw₁.current)
  refine ⟨R ∪ madeBetween σ₁ τ, ?_, hD, hwτ, fun k hk hks => ?_⟩
  · rintro k (hk | ⟨hk, -, -⟩)
    · exact hRn k hk
    · exact hσ₁.trans hk
  by_cases hkn : k < σ₁.fn.builder.fn.body.nextId
  · by_cases hkR : k ∈ R
    · exact .inl hkR
    · exact absurd (hsame k hkn hkR) hk
  -- a block the rest made: none before, one below the counter after
  have hnone : σ₁.fn.builder.block? k = none :=
    Option.not_isSome_iff_eq_none.mp fun h => hkn (hw₁.below k h)
  rw [hnone] at hk
  exact .inr ⟨Nat.le_of_not_lt hkn, hwτ.below k (Option.ne_none_iff_isSome.mp hk), hks⟩

/-- Code after an exit never reaches the built function. Let a function body, or a constructor
body inside the constructor, lower a statement list `pre ++ x :: rest` from `σ` to `τ`, where
`x` exits, and let `σ₁` be where `x` ends. Every block that lowering `rest` changes is
unreachable from the entry and dropped from the built function, unless it is one of the shared
failure blocks, which hold no instruction and lead nowhere. Every block the entry reaches is
kept as it is. -/
theorem drops_code_after_exit {env : Env} {s s' σ τ σ₁ : GenState} {m : Gen IR.Function}
    {fuel : Nat} {fn : IR.Function} {pre rest : List Stmt} {x : Stmt}
    (hrun : m env s = .ok (fn, s')) (hin : InFunction env fuel (pre ++ x :: rest) σ τ m s)
    (hx : x.exits = true) (hx₁ : (pre ++ [x]).forM (stmt fuel) env σ = .ok ((), σ₁)) :
    (∀ k, τ.fn.builder.block? k ≠ σ₁.fn.builder.block? k →
      (¬ Reach s'.fn.builder.fn.body s'.fn.builder.fn.body.entry k ∧ fn.body.blocks.get? k = none) ∨
        (k ∈ τ.fn.shared ∧ τ.fn.builder.Quiet k)) ∧
    ∀ k, Reach s'.fn.builder.fn.body s'.fn.builder.fn.body.entry k →
      fn.body.blocks.get? k = s'.fn.builder.fn.body.blocks.get? k := by
  obtain ⟨D, hDn, hDτ, hwτ, hchanged⟩ := rest_stranded hx hin.wired hin.list_run hx₁
  obtain ⟨hDs', hb⟩ := hin.keeps_sealed hrun hDn hDτ
  obtain ⟨rfl, -⟩ := build_inv hb
  refine ⟨fun k hk => ?_, fun k hk => get?_prune_of_reach hk⟩
  by_cases hks : k ∈ τ.fn.shared
  · exact .inr ⟨hks, hwτ.quiet k hks⟩
  have hnr : ¬ Reach s'.fn.builder.fn.body s'.fn.builder.fn.body.entry k :=
    fun hr => hDs'.not_reach hr (hchanged k hk hks)
  exact .inl ⟨hnr, get?_prune_of_not_reach hnr⟩

/-- `selfdestruct(0)`, a call that ends the run. -/
def selfdestructCall : Expr :=
  .mk 5 (.call (.mk 6 (.ident "selfdestruct" (.builtin .selfDestruct)) .void)
    [.mk 7 (.literal (.number 0)) .address] .regular none none) (.tuple [])

def selfdestructStmt : Stmt := ⟨3, .expr selfdestructCall⟩

/-- A payable public function `f` of contract `C` whose body is `selfdestruct(0); throw;`. -/
def selfdestructThenThrow : FunctionDef :=
  ⟨1, "f", 0, .function, .pub, .payable, [], [], [], some ⟨2, [selfdestructStmt, ⟨4, .throwStmt⟩]⟩⟩

def selfdestructEnv : Env :=
  ⟨⟨#[⟨0, "C", .contract, [], [], [1], [], []⟩], #[default, selfdestructThenThrow], #[], #[], #[]⟩,
    {}, [], 0, [0]⟩

/-- The `throw` after `selfdestruct(0)` makes the shared revert block and jumps there from the
dead block it stands in; both are dropped when the function is built. -/
theorem selfdestruct_strands_throw :
    ∃ fn s' fuel σ τ σ₁,
      function 1 true selfdestructEnv { fn := FnState.new "f" 0 } = .ok (fn, s') ∧
      InFunction selfdestructEnv fuel ([] ++ selfdestructStmt :: [⟨4, .throwStmt⟩]) σ τ
        (function 1 true) { fn := FnState.new "f" 0 } ∧
      selfdestructStmt.exits = true ∧
      ([] ++ [selfdestructStmt]).forM (stmt fuel) selfdestructEnv σ = .ok ((), σ₁) ∧
      (∀ k, τ.fn.builder.block? k ≠ σ₁.fn.builder.block? k →
        (¬ Reach s'.fn.builder.fn.body s'.fn.builder.fn.body.entry k ∧ fn.body.blocks.get? k = none) ∨
          (k ∈ τ.fn.shared ∧ τ.fn.builder.Quiet k)) ∧
      ∀ k, Reach s'.fn.builder.fn.body s'.fn.builder.fn.body.entry k →
        fn.body.blocks.get? k = s'.fn.builder.fn.body.blocks.get? k := by
  have hok : (function 1 true selfdestructEnv { fn := FnState.new "f" 0 }).isOk = true := by
    decide +kernel
  obtain ⟨⟨fn, s'⟩, hrun⟩ : ∃ p, function 1 true selfdestructEnv { fn := FnState.new "f" 0 } = .ok p := by
    revert hok
    cases function 1 true selfdestructEnv { fn := FnState.new "f" 0 } with
    | error e => exact fun h => by cases h
    | ok p => exact fun _ => ⟨p, rfl⟩
  have hparts := hrun
  rw [function_eq] at hparts
  obtain ⟨⟨⟩, t, hhead, hparts⟩ := bind_ok hparts
  obtain ⟨⟨⟩, t', hbody, -⟩ := bind_ok hparts
  obtain ⟨fuel, σ, τ, hin⟩ := Occurs.of_functionBody rfl rfl rfl hbody
  have hlist : (stmt fuel selfdestructStmt >>= fun _ => [(⟨4, .throwStmt⟩ : Stmt)].forM (stmt fuel))
      selfdestructEnv σ = .ok ((), τ) := hin.list_run
  obtain ⟨⟨⟩, σ₁, h₁, -⟩ := bind_ok hlist
  have hx₁ : ([] ++ [selfdestructStmt]).forM (stmt fuel) selfdestructEnv σ = .ok ((), σ₁) := by
    show (stmt fuel _ >>= fun _ => pure ()) _ σ = _
    rw [bind_run_ok h₁]
    rfl
  have hfn : InFunction selfdestructEnv fuel ([] ++ selfdestructStmt :: [⟨4, .throwStmt⟩]) σ τ
      (function 1 true) { fn := FnState.new "f" 0 } := .function hhead hin
  exact ⟨fn, s', fuel, σ, τ, σ₁, hrun, hfn, rfl, hx₁, drops_code_after_exit hrun hfn rfl hx₁⟩

end Gen

end ContractCfg.Lower
