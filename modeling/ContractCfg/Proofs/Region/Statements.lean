import ContractCfg.Proofs.Cursor.Statements
import ContractCfg.Proofs.Region.Expressions

/-!
Lowering a statement keeps every sealed region sealed. The control-flow statements make their
blocks, which lie outside every sealed region and outside every kept set, jump into them and
leave them again; `break`, `continue`, `return` and `throw` jump to blocks the function state
names, which the sealed region misses too. Loops and expansions record their targets for the
statements inside, so the watch follows them while the body runs and is back as it was after.
Statements, blocks and expansions confine themselves at every fuel, by induction on the fuel.
-/

namespace ContractCfg.Lower

open ContractCfg.Source
open ContractCfg.IR (Value Terminator)

namespace Gen

variable {w : Watch}

theorem eval_ensures : Ensures (Guard w) eval fun ev s => Guard w s ∧ EvalConfines ev := by
  unfold eval
  exact (Confines.of_fnFixed fnFixed_exprFuel w).bind fun fuel =>
    Ensures.pure fun _ h => ⟨h, evalConfines fuel⟩

theorem jumpAndDetach_target {st : GenState} {t : Nat} (ht : t ∈ st.fn.targets) :
    Ensures (fun s => Guard w s ∧ s = st) (jumpAndDetach t) fun _ => Guard w := by
  rintro env s a s' ⟨h, rfl⟩ hrun
  exact confinesAt_jumpAndDetach t w (h.not_sealed_of_target ht) env s a s' h hrun

theorem confines_declareLocal (v : Nat) : Confines (declareLocal v) :=
  (Confines.of_fnFixed (fnFixed_varDecl v)).bind fun _ => (confines_freshLocal _).bind fun _ =>
    (confines_declareVar _ _).bind fun _ => Confines.pure _

theorem confines_declaration (node : Nat) (vars : List (Option Nat)) (init : Option Expr) :
    Confines (declaration node vars init) := by
  unfold declaration
  split
  · exact (Confines.forIn (fun _ _ => (Confines.of_fnFixed (fnFixed_varDecl _)).bind fun _ =>
      (confines_defaultValue _ _).bind fun _ => (confines_declareLocal _).bind fun _ =>
        (confines_store _ _ _ _).bind fun _ => Confines.pure _) _).bind fun _ => Confines.pure _
  · refine confines_eval_bind fun ev hev => (hev.values _).bind fun values =>
      Confines.lift.bind fun pairing => (Confines.forIn (fun ⟨_, _⟩ _ => ?_) _).bind fun _ =>
        Confines.pure _
    dsimp only
    split
    · exact (confines_declareLocal _).bind fun _ => (confines_store _ _ _ _).bind fun _ => Confines.pure _
    · exact Confines.pure _

theorem confines_returnStmt (node : Nat) (value : Option Expr) : Confines (returnStmt node value) := by
  unfold returnStmt
  extract_lets jump
  -- the jump to the innermost return target, which the function state names
  have hjump : ∀ u, Confines (jump u) := by
    intro u w
    dsimp -zeta only [jump]
    refine Ensures.get_bind fun st => ?_
    split
    · rename_i t ht
      exact jumpAndDetach_target (FnState.returnTarget_mem_targets (List.mem_of_head? ht))
    · exact Ensures.throw
  split
  · refine confines_eval_bind fun ev hev => (hev.values _).bind fun values =>
      (Confines.of_fnFixed fnFixed_get).bind fun st => ?_
    extract_lets rvs types assign
    have hassign : ∀ u, Confines (assign u) := fun _ =>
      (Confines.forIn (fun ⟨⟨⟨_, _⟩, _⟩, _⟩ _ => (confines_store _ _ _ _).bind fun _ =>
        Confines.pure _) _).bind hjump
    exact Confines.ite (Confines.throw_bind _) (hassign ())
  · exact hjump ()

/-- The blocks an `if` makes: the branch taken when the condition holds, the join, and the
branch taken otherwise (the join itself when there is no else branch). -/
structure IfBlocks where
  thenBlock : Nat
  join : Nat
  elseBlock : Nat

/-- An `if` up to its then branch: the condition, the blocks and the branch. -/
def ifHead (cond : Expr) (elseBody : Option Stmt) : Gen IfBlocks := do
  let c ← (← eval).single cond
  let tb ← createBlock "if.then"
  let join ← createBlock "if.end"
  let eb ← match elseBody with
    | some _ => createBlock "if.else"
    | none => pure join
  terminate (.branch c tb eb)
  switchTo tb
  pure ⟨tb, join, eb⟩

/-- Leaves a branch for the join and goes on there. -/
def joinAt (join : Nat) : Gen Unit := do
  jumpIfOpen join
  switchTo join

/-- An `if` after its then branch. -/
def ifTail (fuel : Nat) (r : IfBlocks) : Option Stmt → Gen Unit
  | none => joinAt r.join
  | some e => do
    jumpIfOpen r.join
    switchTo r.elseBlock
    stmt fuel e
    joinAt r.join

/-- An `if` with an else branch up to that branch. -/
def elseHead (fuel : Nat) (cond : Expr) (thenBody e : Stmt) : Gen IfBlocks := do
  let r ← ifHead cond (some e)
  stmt fuel thenBody
  jumpIfOpen r.join
  switchTo r.elseBlock
  pure r

theorem stmt_ifThen (fuel id : Nat) (cond : Expr) (thenBody : Stmt) (elseBody : Option Stmt) :
    stmt (fuel + 1) ⟨id, .ifThen cond thenBody elseBody⟩ =
      ifHead cond elseBody >>= fun r => stmt fuel thenBody >>= fun _ => ifTail fuel r elseBody := by
  rw [stmt]
  cases elseBody <;> simp only [Stmt.kind, ifHead, ifTail, joinAt, bind_assoc, pure_bind]

theorem stmt_ifThenElse (fuel id : Nat) (cond : Expr) (thenBody e : Stmt) :
    stmt (fuel + 1) ⟨id, .ifThen cond thenBody (some e)⟩ =
      elseHead fuel cond thenBody e >>= fun r => stmt fuel e >>= fun _ => joinAt r.join := by
  rw [stmt_ifThen]
  simp only [elseHead, ifTail, bind_assoc, pure_bind]

/-- The blocks a loop makes: the test, the body, where `continue` goes and the exit. -/
structure LoopBlocks where
  header : Nat
  body : Nat
  step : Nat
  exit : Nat

/-- Where `break` and `continue` jump inside the loop. -/
def LoopBlocks.targets (r : LoopBlocks) : LoopTargets := ⟨r.exit, r.step⟩

/-- A `while` or `do … while` loop up to its body; `continue` goes to the test. -/
def whileHead (cond : Expr) (isDoWhile : Bool) : Gen LoopBlocks := do
  let header ← createBlock "loop.cond"
  let bodyBlock ← createBlock "loop.body"
  let exit ← createBlock "loop.end"
  terminate (.jump (if isDoWhile then bodyBlock else header))
  switchTo header
  let c ← (← eval).single cond
  terminate (.branch c bodyBlock exit)
  switchTo bodyBlock
  pushLoop exit header
  pure ⟨header, bodyBlock, header, exit⟩

/-- A `while` loop after its body. -/
def whileTail (r : LoopBlocks) : Gen Unit := do
  popLoop
  jumpIfOpen r.header
  switchTo r.exit

/-- The initializer of a `for` loop. -/
def forInit (fuel : Nat) : Option Stmt → Gen Unit
  | some i => stmt fuel i
  | none => pure ()

/-- A `for` loop after its initializer, up to its body. -/
def forHead (cond : Option Expr) : Gen LoopBlocks := do
  let header ← createBlock "for.cond"
  let bodyBlock ← createBlock "for.body"
  let step ← createBlock "for.step"
  let exit ← createBlock "for.end"
  terminate (.jump header)
  switchTo header
  match cond with
  | some c => do
    let cv ← (← eval).single c
    terminate (.branch cv bodyBlock exit)
  | none => terminate (.jump bodyBlock)
  switchTo bodyBlock
  pushLoop exit step
  pure ⟨header, bodyBlock, step, exit⟩

/-- A `for` loop after its body: the update in its own block, back to the test, on at the
exit. -/
def forTail (update : Option Expr) (r : LoopBlocks) : Gen Unit := do
  popLoop
  jumpIfOpen r.step
  switchTo r.step
  if let some u := update then discard ((← eval).values u)
  jumpIfOpen r.header
  switchTo r.exit

theorem stmt_whileLoop (fuel id : Nat) (cond : Expr) (body : Stmt) (isDoWhile : Bool) :
    stmt (fuel + 1) ⟨id, .whileLoop cond body isDoWhile⟩ =
      whileHead cond isDoWhile >>= fun r => stmt fuel body >>= fun _ => whileTail r := by
  rw [stmt]
  simp only [Stmt.kind, whileHead, whileTail, bind_assoc, pure_bind]

theorem stmt_forLoop (fuel id : Nat) (init : Option Stmt) (cond update : Option Expr) (body : Stmt) :
    stmt (fuel + 1) ⟨id, .forLoop init cond update body⟩ =
      forInit fuel init >>= fun _ => forHead cond >>= fun r => stmt fuel body >>= fun _ =>
        forTail update r := by
  rw [stmt]
  cases init <;> cases cond <;> cases update <;>
    simp only [Stmt.kind, forInit, forHead, forTail, bind_assoc, pure_bind]

/-- What entering the body or a modifier saves and makes: the exit block, the scope and
modifier depth to restore, the hidden loops, and the block to lower. -/
structure Entered where
  exit : Nat
  scope : Nat
  depth : Option Nat
  loops : List LoopTargets
  body : Block

/-- Entering modifier `depth` of the chain, or the body once every modifier is entered. -/
def expandHead (depth : Nat) : Gen Entered := do
  let some chain := (← get).fn.chain
    | throw (.typeMismatch (← contractDef (← read).contract).id
        "modifier expansion outside of a function")
  let isBody := depth == chain.modifiers.length
  let exit ← createBlock (if isBody then "body.exit" else "modifier.exit")
  let savedScope := (← get).fn.scope
  let savedDepth := (← get).fn.modifierDepth
  if isBody then
    pushLayer
    pushReturnTarget exit
    modifyFn fun c => { c with scope := chain.owner, modifierDepth := none }
    let loops ← takeLoops
    pure ⟨exit, savedScope, savedDepth, loops, chain.body⟩
  else
    let some use := chain.modifiers[depth]?
      | throw .dangling
    let m ← ask (·.resolveModifier use.name use.id)
    let d ← modifierDef m
    if d.params.length != use.args.length then
      throw (.arityMismatch use.id d.params.length use.args.length)
    let ev ← eval
    let args ← use.args.mapM fun a => do pure (← ev.single a, a.ty)
    pushLayer
    for (p, (v, src)) in d.params.zip args do
      let pd ← varDecl p
      let x ← freshLocal pd.name
      declareVar p x
      store (.register x pd.ty) v src use.id
    pushReturnTarget exit
    modifyFn fun c => { c with scope := d.contract, modifierDepth := some depth }
    let loops ← takeLoops
    pure ⟨exit, savedScope, savedDepth, loops, d.body⟩

/-- Leaving an expansion: the loops back, on to its exit block, and the enclosing return
targets, names, scope and depth back. -/
def expandTail (r : Entered) : Gen Unit := do
  restoreLoops r.loops
  jumpIfOpen r.exit
  switchTo r.exit
  popReturnTarget
  popLayer
  modifyFn fun c => { c with scope := r.scope, modifierDepth := r.depth }

theorem throw_bind_eq {α β : Type} (e : LowerError) (f : α → Gen β) :
    (throw e : Gen α) >>= f = throw e := by
  funext env s
  rfl

theorem expand_succ (fuel depth : Nat) :
    expand (fuel + 1) depth =
      expandHead depth >>= fun r => block fuel r.body >>= fun _ => expandTail r := by
  rw [expand]
  simp only [expandHead, expandTail, bind_assoc]
  congr 1
  funext st
  -- both sides take the same branches; only where the common tail stands differs
  cases hc : st.fn.chain with
  | none => simp only [bind_assoc, throw_bind_eq]
  | some chain =>
    simp only [bind_assoc]
    congr 1
    funext exit
    congr 1
    funext sc
    congr 1
    funext dp
    by_cases hb : (depth == chain.modifiers.length) = true
    · simp only [hb, if_true, bind_assoc, pure_bind]
    · simp only [hb, if_false, Bool.false_eq_true]
      cases hu : chain.modifiers[depth]? with
      | none => simp only [throw_bind_eq]
      | some use =>
        simp only [bind_assoc]
        congr 1
        funext m
        congr 1
        funext d
        by_cases ha : (d.params.length != use.args.length) = true
        · simp only [ha, if_true, throw_bind_eq]
        · simp only [ha, if_false, Bool.false_eq_true, bind_assoc, pure_bind]

theorem ifHead_ensures (cond : Expr) (e : Option Stmt) :
    Ensures (Guard w) (ifHead cond e) fun r s =>
      Guard { w with made := insert r.elseBlock (insert r.join (insert r.thenBlock w.made)) } s ∧
        r.join ∉ w.sealed ∧ r.join ∉ w.kept ∧ r.elseBlock ∉ w.kept := by
  unfold ifHead
  refine eval_ensures.bind fun ev => Ensures.of_fact fun hev => (hev.single cond w).bind fun c => ?_
  refine (createBlock_ensures _).bind fun tb => Ensures.of_fact fun hf => ?_
  obtain ⟨hts, htk⟩ := hf
  refine (createBlock_ensures _).bind fun join => Ensures.of_fact fun hf => ?_
  obtain ⟨hjs, hjk⟩ := hf
  cases e with
  | none =>
    -- without an else branch the branch falls to the join block itself
    dsimp only
    rw [pure_bind]
    refine (terminate_ensures (by simp [Terminator.successors, hts, hjs])).bind fun _ => ?_
    refine (switchTo_ensures (by exact htk) (by exact .inr (.inl rfl))).bind fun _ => ?_
    exact Ensures.pure fun _ h => ⟨h.forget (Set.insert_subset (.inl rfl) subset_rfl), hjs, hjk, hjk⟩
  | some e =>
    dsimp only
    refine (createBlock_ensures _).bind fun eb => Ensures.of_fact fun hf => ?_
    obtain ⟨hes, hek⟩ := hf
    refine (terminate_ensures (by simp [Terminator.successors, hts, hes])).bind fun _ => ?_
    refine (switchTo_ensures (by exact htk) (by exact .inr (.inr (.inl rfl)))).bind fun _ => ?_
    exact Ensures.pure fun _ h => ⟨h, hjs, hjk, hek⟩

theorem joinAt_ensures {j : Nat} (hm : j ∈ w.made) (hs : j ∉ w.sealed) (hk : j ∉ w.kept) :
    Ensures (Guard w) (joinAt j) fun _ => Guard w :=
  (confinesAt_jumpIfOpen j w hs).bind fun _ => switchTo_ensures hk hm

theorem whileHead_ensures (cond : Expr) (isDoWhile : Bool) :
    Ensures (Guard w) (whileHead cond isDoWhile) fun r s =>
      Guard { w with
        made := insert r.exit (insert r.body (insert r.header w.made))
        loops := r.targets :: w.loops } s ∧ r.header ∉ w.sealed ∧ r.exit ∉ w.kept := by
  unfold whileHead
  refine (createBlock_ensures _).bind fun header => Ensures.of_fact fun hf => ?_
  obtain ⟨hhs, hhk⟩ := hf
  refine (createBlock_ensures _).bind fun bodyBlock => Ensures.of_fact fun hf => ?_
  obtain ⟨hbs, hbk⟩ := hf
  refine (createBlock_ensures _).bind fun exit => Ensures.of_fact fun hf => ?_
  obtain ⟨hxs, hxk⟩ := hf
  -- the test in the header, then the body, which records the loop
  refine (terminate_ensures (by cases isDoWhile <;> simp [Terminator.successors, hhs, hbs])).bind
    fun _ => ?_
  refine (switchTo_ensures (by exact hhk) (by exact .inr (.inr (.inl rfl)))).bind fun _ => ?_
  refine eval_ensures.bind fun ev => Ensures.of_fact fun hev => (hev.single cond _).bind fun c => ?_
  refine (terminate_ensures (by simp [Terminator.successors, hbs, hxs])).bind fun _ => ?_
  refine (switchTo_ensures (by exact hbk) (by exact .inr (.inl rfl))).bind fun _ => ?_
  refine (pushLoop_ensures (by exact ⟨.inl rfl, hxs⟩) (by exact ⟨.inr (.inr (.inl rfl)), hhs⟩)).bind
    fun _ => ?_
  exact Ensures.pure fun _ h => ⟨h, hhs, hxk⟩

theorem forHead_ensures (cond : Option Expr) :
    Ensures (Guard w) (forHead cond) fun r s =>
      Guard { w with
        made := insert r.exit (insert r.step (insert r.body (insert r.header w.made)))
        loops := r.targets :: w.loops } s ∧
        r.header ∉ w.sealed ∧ r.step ∉ w.sealed ∧ r.step ∉ w.kept ∧ r.exit ∉ w.kept := by
  unfold forHead
  refine (createBlock_ensures _).bind fun header => Ensures.of_fact fun hf => ?_
  obtain ⟨hhs, hhk⟩ := hf
  refine (createBlock_ensures _).bind fun bodyBlock => Ensures.of_fact fun hf => ?_
  obtain ⟨hbs, hbk⟩ := hf
  refine (createBlock_ensures _).bind fun step => Ensures.of_fact fun hf => ?_
  obtain ⟨hss, hsk⟩ := hf
  refine (createBlock_ensures _).bind fun exit => Ensures.of_fact fun hf => ?_
  obtain ⟨hxs, hxk⟩ := hf
  refine (terminate_ensures (by simp [Terminator.successors, hhs])).bind fun _ => ?_
  refine (switchTo_ensures (by exact hhk) (by exact .inr (.inr (.inr (.inl rfl))))).bind fun _ => ?_
  extract_lets rest
  -- the test, if any, leaves for the body or the exit; the body records the loop
  split
  · refine eval_ensures.bind fun ev => Ensures.of_fact fun hev => (hev.single _ _).bind fun cv => ?_
    refine (terminate_ensures (by simp [Terminator.successors, hbs, hxs])).bind fun _ => ?_
    dsimp only [rest]
    refine (switchTo_ensures (by exact hbk) (by exact .inr (.inr (.inl rfl)))).bind fun _ => ?_
    refine (pushLoop_ensures (by exact ⟨.inl rfl, hxs⟩) (by exact ⟨.inr (.inl rfl), hss⟩)).bind
      fun _ => ?_
    exact Ensures.pure fun _ h => ⟨h, hhs, hss, hsk, hxk⟩
  · refine (terminate_ensures (by simp [Terminator.successors, hbs])).bind fun _ => ?_
    dsimp only [rest]
    refine (switchTo_ensures (by exact hbk) (by exact .inr (.inr (.inl rfl)))).bind fun _ => ?_
    refine (pushLoop_ensures (by exact ⟨.inl rfl, hxs⟩) (by exact ⟨.inr (.inl rfl), hss⟩)).bind
      fun _ => ?_
    exact Ensures.pure fun _ h => ⟨h, hhs, hss, hsk, hxk⟩

theorem whileTail_ensures (r : LoopBlocks) (hh : r.header ∉ w.sealed) (hm : r.exit ∈ w.made)
    (hk : r.exit ∉ w.kept) :
    Ensures (Guard { w with loops := r.targets :: w.loops }) (whileTail r) fun _ => Guard w :=
  popLoop_ensures.bind fun _ => (confinesAt_jumpIfOpen r.header w hh).bind fun _ =>
    switchTo_ensures hk hm

theorem expandTail_ensures (r : Entered) (hm : r.exit ∈ w.made) (hs : r.exit ∉ w.sealed)
    (hk : r.exit ∉ w.kept) (hl : ∀ k ∈ loopTargets r.loops, k ∈ w.made ∧ k ∉ w.sealed) :
    Ensures (Guard { w with returns := r.exit :: w.returns }) (expandTail r)
      fun _ => Guard { w with loops := r.loops } := by
  unfold expandTail
  refine (restoreLoops_ensures (by exact hl)).bind fun _ => ?_
  refine (confinesAt_jumpIfOpen r.exit _ (by exact hs)).bind fun _ => ?_
  refine (switchTo_ensures (by exact hk) (by exact hm)).bind fun _ => popReturnTarget_ensures.bind
    fun _ => ?_
  exact (confines_popLayer _).bind fun _ =>
    confines_modifyFn _ (fun _ => by rfl) (fun _ => by rfl) (fun _ => by rfl) (fun _ => by rfl) _

theorem forTail_ensures (update : Option Expr) (r : LoopBlocks) (hh : r.header ∉ w.sealed)
    (hsm : r.step ∈ w.made) (hss : r.step ∉ w.sealed) (hsk : r.step ∉ w.kept) (hxm : r.exit ∈ w.made)
    (hxk : r.exit ∉ w.kept) :
    Ensures (Guard { w with loops := r.targets :: w.loops }) (forTail update r) fun _ => Guard w := by
  unfold forTail
  refine popLoop_ensures.bind fun _ => (confinesAt_jumpIfOpen r.step w hss).bind fun _ => ?_
  refine (switchTo_ensures hsk hsm).bind fun _ => ?_
  extract_lets finish
  have hfinish : ∀ u, Ensures (Guard w) (finish u) fun _ => Guard w := fun _ =>
    (confinesAt_jumpIfOpen r.header w hh).bind fun _ => switchTo_ensures hxk hxm
  -- the update, if any, runs in the step block
  split
  · exact eval_ensures.bind fun ev => Ensures.of_fact fun hev => ((hev.values _).discard _).bind hfinish
  · exact hfinish ()

section Body

variable {fuel : Nat} (hs : ∀ s, Confines (stmt fuel s))
include hs

theorem ifTail_ensures (r : IfBlocks) (e : Option Stmt) (hjm : r.join ∈ w.made)
    (hjs : r.join ∉ w.sealed) (hjk : r.join ∉ w.kept) (hem : r.elseBlock ∈ w.made)
    (hek : r.elseBlock ∉ w.kept) : Ensures (Guard w) (ifTail fuel r e) fun _ => Guard w := by
  cases e with
  | none => exact joinAt_ensures hjm hjs hjk
  | some e =>
    exact (confinesAt_jumpIfOpen r.join w hjs).bind fun _ => (switchTo_ensures hek hem).bind fun _ =>
      (hs e w).bind fun _ => joinAt_ensures hjm hjs hjk

theorem elseHead_ensures (cond : Expr) (thenBody e : Stmt) :
    Ensures (Guard w) (elseHead fuel cond thenBody e) fun r s =>
      Guard { w with made := insert r.elseBlock (insert r.join (insert r.thenBlock w.made)) } s ∧
        r.join ∉ w.sealed ∧ r.join ∉ w.kept := by
  unfold elseHead
  refine (ifHead_ensures cond (some e)).bind fun r => Ensures.of_fact fun hf => ?_
  obtain ⟨hjs, hjk, hek⟩ := hf
  refine (hs thenBody _).bind fun _ => (confinesAt_jumpIfOpen r.join _ (by exact hjs)).bind fun _ => ?_
  refine (switchTo_ensures (by exact hek) (by exact .inl rfl)).bind fun _ => ?_
  exact Ensures.pure fun _ h => ⟨h, hjs, hjk⟩

theorem confines_forInit (init : Option Stmt) : Confines (forInit fuel init) := by
  cases init with
  | some i => exact hs i
  | none => exact Confines.pure ()

theorem confines_ifThen (id : Nat) (cond : Expr) (thenBody : Stmt) (elseBody : Option Stmt) :
    Confines (stmt (fuel + 1) ⟨id, .ifThen cond thenBody elseBody⟩) := by
  intro w
  rw [stmt_ifThen]
  refine (ifHead_ensures cond elseBody).bind fun r => Ensures.of_fact fun hf => ?_
  obtain ⟨hjs, hjk, hek⟩ := hf
  refine (hs thenBody _).bind fun _ => ?_
  exact (ifTail_ensures hs r elseBody
    (w := { w with made := insert r.elseBlock (insert r.join (insert r.thenBlock w.made)) })
    (.inr (.inl rfl)) hjs hjk (.inl rfl) hek).mono fun _ _ h => h.forget fun _ hx => .inr (.inr (.inr hx))

theorem confines_whileLoop (id : Nat) (cond : Expr) (body : Stmt) (isDoWhile : Bool) :
    Confines (stmt (fuel + 1) ⟨id, .whileLoop cond body isDoWhile⟩) := by
  intro w
  rw [stmt_whileLoop]
  refine (whileHead_ensures cond isDoWhile).bind fun r => Ensures.of_fact fun hf => ?_
  obtain ⟨hhs, hxk⟩ := hf
  refine (hs body _).bind fun _ => ?_
  exact (whileTail_ensures r (w := { w with made := insert r.exit (insert r.body (insert r.header w.made)) })
    hhs (.inl rfl) hxk).mono fun _ _ h => h.forget fun _ hx => .inr (.inr (.inr hx))

theorem confines_forLoop (id : Nat) (init : Option Stmt) (cond : Option Expr) (update : Option Expr)
    (body : Stmt) : Confines (stmt (fuel + 1) ⟨id, .forLoop init cond update body⟩) := by
  intro w
  rw [stmt_forLoop]
  refine (confines_forInit hs init w).bind fun _ => ?_
  refine (forHead_ensures cond).bind fun r => Ensures.of_fact fun hf => ?_
  obtain ⟨hhs, hss, hsk, hxk⟩ := hf
  refine (hs body _).bind fun _ => ?_
  exact (forTail_ensures update r
    (w := { w with made := insert r.exit (insert r.step (insert r.body (insert r.header w.made))) })
    hhs (.inr (.inl rfl)) hss hsk (.inl rfl) hxk).mono fun _ _ h =>
      h.forget fun _ hx => .inr (.inr (.inr (.inr hx)))

end Body

theorem enter_ensures {exit scope : Nat} {depth : Option Nat} {b : Block} (f : FnState → FnState)
    (hfb : ∀ c, (f c).builder = c.builder) (hfl : ∀ c, (f c).loops = c.loops)
    (hfr : ∀ c, (f c).returnTargets = c.returnTargets) (hfs : ∀ c, (f c).shared = c.shared)
    (hxs : exit ∉ w.sealed) (hxk : exit ∉ w.kept) :
    Ensures (Guard { w with made := insert exit w.made })
      (pushReturnTarget exit >>= fun _ => modifyFn f >>= fun _ => takeLoops >>= fun loops =>
        pure (⟨exit, scope, depth, loops, b⟩ : Entered)) fun r s =>
      Guard { w with
        made := insert r.exit w.made ∪ {k | k ∈ loopTargets w.loops}
        returns := r.exit :: w.returns
        loops := [] } s ∧
        r.loops = w.loops ∧ r.exit ∉ w.sealed ∧ r.exit ∉ w.kept ∧
        ∀ k ∈ loopTargets r.loops, k ∉ w.sealed := by
  refine (pushReturnTarget_ensures (by exact ⟨.inl rfl, hxs⟩)).bind fun _ => ?_
  refine ((confines_modifyFn f hfb hfl hfr hfs) _).bind fun _ => ?_
  refine takeLoops_ensures.bind fun ls => Ensures.of_fact fun hf => ?_
  obtain ⟨hls, hout⟩ := hf
  exact Ensures.pure fun _ h => ⟨h, hls, hxs, hxk, hout⟩

theorem expandHead_ensures (depth : Nat) :
    Ensures (Guard w) (expandHead depth) fun r s =>
      Guard { w with
        made := insert r.exit w.made ∪ {k | k ∈ loopTargets w.loops}
        returns := r.exit :: w.returns
        loops := [] } s ∧
        r.loops = w.loops ∧ r.exit ∉ w.sealed ∧ r.exit ∉ w.kept ∧
        ∀ k ∈ loopTargets r.loops, k ∉ w.sealed := by
  unfold expandHead
  refine (Confines.of_fnFixed fnFixed_get w).bind fun st => ?_
  split
  · refine (createBlock_ensures _).bind fun exit => Ensures.of_fact fun hf => ?_
    obtain ⟨hxs, hxk⟩ := hf
    refine (Confines.of_fnFixed fnFixed_get _).bind fun _ => (Confines.of_fnFixed fnFixed_get _).bind
      fun _ => ?_
    split
    · exact (confines_pushLayer _).bind fun _ =>
        enter_ensures _ (fun _ => by rfl) (fun _ => by rfl) (fun _ => by rfl) (fun _ => by rfl) hxs hxk
    · split
      · refine (confines_ask _).bind fun m => (Confines.of_fnFixed (fnFixed_modifierDef _) _).bind
          fun d => ?_
        extract_lets bind
        have hbind : ∀ u, Ensures (Guard { w with made := insert exit w.made }) (bind u) fun r s =>
            Guard { w with
              made := insert r.exit w.made ∪ {k | k ∈ loopTargets w.loops}
              returns := r.exit :: w.returns
              loops := [] } s ∧
              r.loops = w.loops ∧ r.exit ∉ w.sealed ∧ r.exit ∉ w.kept ∧
              ∀ k ∈ loopTargets r.loops, k ∉ w.sealed := by
          intro u
          dsimp -zeta only [bind]
          refine eval_ensures.bind fun ev => Ensures.of_fact fun hev => ?_
          refine ((Confines.mapM fun _ => (hev.single _).bind fun _ => Confines.pure _) _).bind
            fun args => ?_
          refine (confines_pushLayer _).bind fun _ => ?_
          refine ((Confines.forIn (fun ⟨_, _, _⟩ _ => (Confines.of_fnFixed (fnFixed_varDecl _)).bind
            fun _ => (confines_freshLocal _).bind fun _ => (confines_declareVar _ _).bind fun _ =>
              (confines_store _ _ _ _).bind fun _ => Confines.pure _) _) _).bind fun _ => ?_
          exact enter_ensures _ (fun _ => by rfl) (fun _ => by rfl) (fun _ => by rfl) (fun _ => by rfl)
            hxs hxk
        exact Ensures.ite (Ensures.throw_bind _) (hbind ())
      · exact Ensures.throw
  · exact (Confines.of_fnFixed fnFixed_read _).bind fun _ =>
      (Confines.of_fnFixed (fnFixed_contractDef _) _).bind fun _ => Ensures.throw

theorem confines_expand_succ {fuel : Nat} (hb : ∀ b, Confines (block fuel b)) (depth : Nat) :
    Confines (expand (fuel + 1) depth) := by
  intro w
  rw [expand_succ]
  refine (expandHead_ensures depth).bind fun r => Ensures.of_fact fun hf => ?_
  obtain ⟨hls, hxs, hxk, hout⟩ := hf
  refine (hb r.body _).bind fun _ => ?_
  refine (expandTail_ensures r (w := { w with made := _, loops := [] }) (by exact .inl (.inl rfl)) hxs
    hxk fun k hk => ⟨by exact .inr (hls ▸ hk), hout k hk⟩).mono fun _ _ h => ?_
  rw [hls] at h
  exact h.forget fun _ hx => .inl (.inr hx)

/-- Statements, blocks and modifier expansions at one fuel that keep every sealed region
sealed. -/
structure BodyConfines (fuel : Nat) : Prop where
  stmt : ∀ s, Confines (stmt fuel s)
  block : ∀ b, Confines (block fuel b)
  expand : ∀ depth, Confines (expand fuel depth)

theorem confines_stmt_succ {fuel : Nat} (ih : BodyConfines fuel) (s : Stmt) :
    Confines (stmt (fuel + 1) s) := by
  obtain ⟨id, kind⟩ := s
  cases kind with
  | ifThen cond thenBody elseBody => exact confines_ifThen ih.stmt id cond thenBody elseBody
  | whileLoop cond body isDoWhile => exact confines_whileLoop ih.stmt id cond body isDoWhile
  | forLoop init cond update body => exact confines_forLoop ih.stmt id init cond update body
  | block b =>
    rw [stmt]
    exact ih.block b
  | declare vars init =>
    rw [stmt]
    exact confines_declaration _ _ _
  | expr e =>
    rw [stmt]
    exact confines_eval_bind fun ev hev => (hev.values e).discard
  | breakLoop =>
    rw [stmt]
    dsimp -zeta only [Stmt.kind]
    intro w
    refine Ensures.get_bind fun st => ?_
    split
    · rename_i l hl
      exact jumpAndDetach_target (FnState.loop_mem_targets (List.mem_of_head? hl)).1
    · exact Ensures.throw
  | continueLoop =>
    rw [stmt]
    dsimp -zeta only [Stmt.kind]
    intro w
    refine Ensures.get_bind fun st => ?_
    split
    · rename_i l hl
      exact jumpAndDetach_target (FnState.loop_mem_targets (List.mem_of_head? hl)).2
    · exact Ensures.throw
  | returnWith value =>
    rw [stmt]
    exact confines_returnStmt _ _
  | throwStmt =>
    rw [stmt]
    exact confines_revertBlock_bind fun k => confinesAt_jumpAndDetach k
  | placeholder =>
    rw [stmt]
    refine (Confines.of_fnFixed fnFixed_get).bind fun st => ?_
    split
    · exact ih.expand _
    · exact Confines.throw
  | inlineAssembly =>
    rw [stmt]
    exact Confines.throw

theorem bodyConfines (fuel : Nat) : BodyConfines fuel := by
  induction fuel with
  | zero =>
    refine ⟨fun _ => ?_, fun _ => ?_, fun _ => ?_⟩
    · rw [stmt]
      exact Confines.throw
    · rw [block]
      exact Confines.throw
    · rw [expand]
      exact Confines.throw
  | succ fuel ih =>
    refine ⟨confines_stmt_succ ih, fun b => ?_, confines_expand_succ ih.block⟩
    rw [block]
    exact Confines.forM ih.stmt

/-- What lowering a function body saves and works out before expanding: the chain and modifier
depth to restore, and the fuel for the statements. -/
structure Opened where
  chain : Option Chain
  depth : Option Nat
  fuel : Nat

/-- A function body up to the expansion of its outermost modifier. -/
def bodyHead (f : Nat) : Gen Opened := do
  let d ← functionDef f
  let some body := d.body
    | throw (.unresolvedFunction d.id d.name)
  let saved := (← get).fn.chain
  let savedDepth := (← get).fn.modifierDepth
  modifyFn fun c => { c with
    chain := some { function := f, owner := d.contract, modifiers := d.modifiers, body := body }
    modifierDepth := none }
  pure ⟨saved, savedDepth, ← stmtFuel d.modifiers.length⟩

/-- A function body after the expansion: the chain and depth back. -/
def bodyTail (r : Opened) : Gen Unit :=
  modifyFn fun c => { c with chain := r.chain, modifierDepth := r.depth }

theorem functionBody_eq (f : Nat) :
    functionBody f = bodyHead f >>= fun r => expand r.fuel 0 >>= fun _ => bodyTail r := by
  unfold functionBody bodyHead bodyTail
  simp only [bind_assoc]
  congr 1
  funext d
  cases d.body with
  | none => simp only [throw_bind_eq]
  | some body => simp only [bind_assoc, pure_bind]

theorem confines_bodyHead (f : Nat) : Confines (bodyHead f) := by
  unfold bodyHead
  refine (Confines.of_fnFixed (fnFixed_functionDef f)).bind fun d => ?_
  split
  · refine (Confines.of_fnFixed fnFixed_get).bind fun _ => (Confines.of_fnFixed fnFixed_get).bind
      fun _ => (confines_modifyFn _ (fun _ => by rfl) (fun _ => by rfl) (fun _ => by rfl) (fun _ => by rfl)).bind
        fun _ => ?_
    exact (Confines.of_fnFixed (fnFixed_unit.bind fun _ => FnFixed.pure _)).bind fun _ => Confines.pure _
  · exact Confines.throw

theorem confines_bodyTail (r : Opened) : Confines (bodyTail r) :=
  confines_modifyFn _ (fun _ => by rfl) (fun _ => by rfl) (fun _ => by rfl) (fun _ => by rfl)

theorem confines_functionBody (f : Nat) : Confines (functionBody f) := by
  rw [functionBody_eq]
  exact (confines_bodyHead f).bind fun r => ((bodyConfines r.fuel).expand 0).bind fun _ =>
    confines_bodyTail r

end Gen

end ContractCfg.Lower
