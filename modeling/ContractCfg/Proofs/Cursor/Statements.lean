import ContractCfg.Lower.Stmt
import ContractCfg.Proofs.Cursor.Expressions

/-!
Lowering a statement keeps the cursor protocol. The control-flow statements are proved as
triples over their steps: each makes its blocks, jumps into them and leaves them again, and a
block it made is pending from its creation to the switch into it. Loops and expansions also
record jump targets (loop exits and heads, return targets); every one of them names a block
that exists, which is what `break`, `continue` and `return` jump to. Statements, blocks and
expansions keep the protocol at every fuel, by induction on the fuel.
-/

namespace ContractCfg.Lower

open ContractCfg.Source
open ContractCfg.IR (Value)

namespace Gen

variable {P E : Set Nat}

theorem createBlock_triple (label : String) :
    Triple (Ready P E) (createBlock label) fun k s => Ready (insert k P) (insert k E) s ∧ (k ∉ P ∧ k ∉ E) :=
  fun _ _ h => createBlock_outcome h label

theorem branch_triple (c : Value) {t f : Nat} (ht : t ∈ E) (hf : f ∈ E) :
    Triple (Ready P E) (terminate (.branch c t f)) fun _ => Jumped P E :=
  fun _ _ h => branch_outcome h c (h.has ht) (h.has hf)

theorem jump_triple {t : Nat} (ht : t ∈ E) : Triple (Ready P E) (terminate (.jump t)) fun _ => Jumped P E :=
  fun _ _ h => jump_outcome h (h.has ht)

theorem switchTo_triple {k : Nat} (hk : k ∈ P) : Triple (Jumped P E) (switchTo k) fun _ => Ready (P \ {k}) E :=
  fun _ _ h => switchTo_outcome h hk

theorem jumpIfOpen_triple {t : Nat} (ht : t ∈ E) : Triple (Ready P E) (jumpIfOpen t) fun _ => Jumped P E :=
  fun _ _ h => jumpIfOpen_outcome h (h.has ht)

theorem pushLoop_triple {b c : Nat} (hb : b ∈ E) (hc : c ∈ E) :
    Triple (Ready P E) (pushLoop b c) fun _ => Ready P E :=
  fun _ _ h => pushLoop_outcome h (h.has hb) (h.has hc)

theorem pushReturnTarget_triple {b : Nat} (hb : b ∈ E) :
    Triple (Ready P E) (pushReturnTarget b) fun _ => Ready P E :=
  fun _ _ h => pushReturnTarget_outcome h (h.has hb)

theorem takeLoops_triple :
    Triple (Ready P E) takeLoops fun ls => Ready P (E ∪ {k | k ∈ loopTargets ls}) :=
  fun _ _ h => (takeLoops_outcome h).mono fun _ _ h' => h'.1.union h'.2

theorem restoreLoops_triple {ls : List LoopTargets} :
    Triple (Ready P (E ∪ {k | k ∈ loopTargets ls})) (restoreLoops ls) fun _ => Ready P E :=
  fun _ _ h => (restoreLoops_outcome h fun _ hk => h.has (Or.inr hk)).mono fun _ _ h' =>
    h'.anti Set.subset_union_left

theorem eval_triple : Triple (Ready P E) eval fun ev s => Ready P E s ∧ EvalKeeps ev := by
  unfold eval
  exact (Keeps.of_fnFixed fnFixed_exprFuel).triple.bind fun fuel => Triple.pure fun _ h => ⟨h, evalKeeps fuel⟩

theorem keeps_declareLocal (v : Nat) : Keeps (declareLocal v) :=
  (Keeps.of_fnFixed (fnFixed_varDecl v)).bind fun _ => (keeps_freshLocal _).bind fun _ =>
    (keeps_declareVar _ _).bind fun _ => Keeps.pure _

theorem keeps_declaration (node : Nat) (vars : List (Option Nat)) (init : Option Expr) :
    Keeps (declaration node vars init) := by
  unfold declaration
  split
  · exact (Keeps.forIn (fun _ _ => (Keeps.of_fnFixed (fnFixed_varDecl _)).bind fun _ =>
      (keeps_defaultValue _ _).bind fun _ => (keeps_declareLocal _).bind fun _ =>
        (keeps_store _ _ _ _).bind fun _ => Keeps.pure _) _).bind fun _ => Keeps.pure _
  · refine keeps_eval_bind fun ev hev => (hev.values _).bind fun values =>
      (Keeps.of_fnFixed (fnFixed_lift (clean_alignComponents _ _ _))).bind fun pairing =>
        (Keeps.forIn (fun ⟨_, _⟩ _ => ?_) _).bind fun _ => Keeps.pure _
    dsimp only
    split
    · exact (keeps_declareLocal _).bind fun _ => (keeps_store _ _ _ _).bind fun _ => Keeps.pure _
    · exact Keeps.pure _

theorem keeps_returnStmt (node : Nat) (value : Option Expr) : Keeps (returnStmt node value) := by
  unfold returnStmt
  extract_lets jump
  -- the jump to the innermost return target, which the function state names
  have hjump : ∀ u, Keeps (jump u) := by
    intro u P E env s h
    dsimp -zeta only [jump]
    rw [bind_run_ok (get_run env s)]
    cases ht : s.fn.returnTargets.head? with
    | none => exact Keeps.throw (by rfl) P E env s h
    | some t => exact jumpAndDetach_outcome h (h.has_returnTarget (List.mem_of_head? ht))
  split
  · refine keeps_eval_bind fun ev hev => (hev.values _).bind fun values =>
      (Keeps.of_fnFixed fnFixed_get).bind fun st => ?_
    extract_lets rvs types assign
    have hassign : ∀ u, Keeps (assign u) := fun _ =>
      (Keeps.forIn (fun ⟨⟨⟨_, _⟩, _⟩, _⟩ _ => (keeps_store _ _ _ _).bind fun _ => Keeps.pure _) _).bind hjump
    exact Keeps.ite (keeps_throw_bind (by rfl) _) (hassign ())
  · exact hjump ()

section Body

variable {fuel : Nat} (hs : ∀ s, Keeps (stmt fuel s))
include hs

theorem keeps_ifThen (id : Nat) (cond : Expr) (thenBody : Stmt) (elseBody : Option Stmt) :
    Keeps (stmt (fuel + 1) ⟨id, .ifThen cond thenBody elseBody⟩) := by
  refine Keeps.of_triple fun P E => ?_
  rw [stmt]
  refine eval_triple.bind fun ev => Triple.of_fact fun hev => ?_
  refine (hev.single cond).triple.bind fun c => ?_
  refine (createBlock_triple _).bind fun tb => Triple.of_fact fun htb => ?_
  refine (createBlock_triple _).bind fun join => Triple.of_fact fun hjoin => ?_
  simp only [Set.mem_insert_iff, not_or] at hjoin
  obtain ⟨⟨hjt, hjP⟩, -⟩ := hjoin
  extract_lets finish arms
  cases elseBody with
  | none =>
    -- without an else branch the branch falls to the join block itself
    dsimp -zeta only
    rw [pure_bind]
    dsimp -zeta only [arms]
    refine (branch_triple c (by simp) (by simp)).bind fun _ => ?_
    refine (switchTo_triple (by simp)).bind fun _ => ?_
    refine (hs thenBody).triple.bind fun _ => ?_
    refine (jumpIfOpen_triple (by simp)).bind fun _ => ?_
    dsimp -zeta only [finish]
    refine (switchTo_triple (by simp [hjt])).mono fun _ _ h => h.restore (fun x => ?_) fun x hx => by simp [hx]
    simp only [Set.mem_sdiff, Set.mem_insert_iff, Set.mem_singleton_iff]
    grind
  | some e =>
    dsimp -zeta only
    refine (createBlock_triple _).bind fun eb => Triple.of_fact fun heb => ?_
    simp only [Set.mem_insert_iff, not_or] at heb
    obtain ⟨⟨hej, het, heP⟩, -⟩ := heb
    dsimp -zeta only [arms]
    refine (branch_triple c (by simp) (by simp)).bind fun _ => ?_
    refine (switchTo_triple (by simp)).bind fun _ => ?_
    refine (hs thenBody).triple.bind fun _ => ?_
    refine (jumpIfOpen_triple (by simp)).bind fun _ => ?_
    refine (switchTo_triple (by simp [het])).bind fun _ => ?_
    refine (hs e).triple.bind fun _ => ?_
    refine (jumpIfOpen_triple (by simp)).bind fun _ => ?_
    dsimp -zeta only [finish]
    refine (switchTo_triple (by simp [hjt, Ne.symm hej])).mono fun _ _ h => h.restore (fun x => ?_) fun x hx => by simp [hx]
    simp only [Set.mem_sdiff, Set.mem_insert_iff, Set.mem_singleton_iff]
    grind

theorem keeps_whileLoop (id : Nat) (cond : Expr) (body : Stmt) (isDoWhile : Bool) :
    Keeps (stmt (fuel + 1) ⟨id, .whileLoop cond body isDoWhile⟩) := by
  refine Keeps.of_triple fun P E => ?_
  rw [stmt]
  refine (createBlock_triple _).bind fun header => Triple.of_fact fun hh => ?_
  refine (createBlock_triple _).bind fun bodyBlock => Triple.of_fact fun hb => ?_
  refine (createBlock_triple _).bind fun exit => Triple.of_fact fun hx => ?_
  simp only [Set.mem_insert_iff, not_or] at hb hx
  obtain ⟨⟨hbh, hbP⟩, -⟩ := hb
  obtain ⟨⟨hxb, hxh, hxP⟩, -⟩ := hx
  -- the test in the header, the body looping back to it, the exit after
  refine (jump_triple (by split <;> simp)).bind fun _ => ?_
  refine (switchTo_triple (by simp)).bind fun _ => ?_
  refine eval_triple.bind fun ev => Triple.of_fact fun hev => ?_
  refine (hev.single cond).triple.bind fun c => ?_
  refine (branch_triple c (by simp) (by simp)).bind fun _ => ?_
  refine (switchTo_triple (by simp [hbh])).bind fun _ => ?_
  refine (pushLoop_triple (by simp) (by simp)).bind fun _ => ?_
  refine (hs body).triple.bind fun _ => ?_
  refine keeps_popLoop.triple.bind fun _ => ?_
  refine (jumpIfOpen_triple (by simp)).bind fun _ => ?_
  refine (switchTo_triple (by simp [hxb, hxh])).mono fun _ _ h => h.restore (fun x => ?_) fun x hx => by simp [hx]
  simp only [Set.mem_sdiff, Set.mem_insert_iff, Set.mem_singleton_iff]
  grind

theorem keeps_forLoop (id : Nat) (init : Option Stmt) (cond : Option Expr) (update : Option Expr)
    (body : Stmt) : Keeps (stmt (fuel + 1) ⟨id, .forLoop init cond update body⟩) := by
  refine Keeps.of_triple fun P E => ?_
  rw [stmt]
  dsimp -zeta only [Stmt.kind]
  extract_lets loop
  -- the loop proper, after the initializer
  have hloop : ∀ u, Triple (Ready P E) (loop u) fun _ => Ready P E := by
    intro u
    dsimp -zeta only [loop]
    refine (createBlock_triple _).bind fun header => Triple.of_fact fun hh => ?_
    refine (createBlock_triple _).bind fun bodyBlock => Triple.of_fact fun hb => ?_
    refine (createBlock_triple _).bind fun step => Triple.of_fact fun hst => ?_
    refine (createBlock_triple _).bind fun exit => Triple.of_fact fun hx => ?_
    simp only [Set.mem_insert_iff, not_or] at hb hst hx
    obtain ⟨⟨hbh, hbP⟩, -⟩ := hb
    obtain ⟨⟨hsb, hsh, hsP⟩, -⟩ := hst
    obtain ⟨⟨hxs, hxb, hxh, hxP⟩, -⟩ := hx
    set P₄ := insert exit (insert step (insert bodyBlock (insert header P))) with hP₄
    set E₄ := insert exit (insert step (insert bodyBlock (insert header E))) with hE₄
    refine (jump_triple (by simp [hE₄])).bind fun _ => ?_
    refine (switchTo_triple (by simp [hP₄])).bind fun _ => ?_
    extract_lets finish iterate
    -- the body and the step, reached however the test went
    have hiterate : ∀ u, Triple (Jumped (P₄ \ {header}) E₄) (iterate u) fun _ => Ready P E := by
      intro u
      dsimp -zeta only [iterate]
      refine (switchTo_triple (by simp [hP₄, hbh])).bind fun _ => ?_
      refine (pushLoop_triple (by simp [hE₄]) (by simp [hE₄])).bind fun _ => ?_
      refine (hs body).triple.bind fun _ => ?_
      refine keeps_popLoop.triple.bind fun _ => ?_
      refine (jumpIfOpen_triple (by simp [hE₄])).bind fun _ => ?_
      refine (switchTo_triple (by simp [hP₄, hsb, hsh])).bind fun _ => ?_
      have hfinish : ∀ u, Triple (Ready (((P₄ \ {header}) \ {bodyBlock}) \ {step}) E₄) (finish u)
          fun _ => Ready P E := by
        intro u
        dsimp -zeta only [finish]
        refine (jumpIfOpen_triple (by simp [hE₄])).bind fun _ => ?_
        refine (switchTo_triple (by simp [hP₄, hxs, hxb, hxh])).mono fun _ _ h =>
          h.restore (fun x => ?_) fun x hx => by simp [hE₄, hx]
        simp only [hP₄, Set.mem_sdiff, Set.mem_insert_iff, Set.mem_singleton_iff]
        grind
      split
      · exact eval_triple.bind fun ev => Triple.of_fact fun hev =>
          (hev.values _).discard.triple.bind hfinish
      · exact hfinish ()
    split
    · exact eval_triple.bind fun ev => Triple.of_fact fun hev => (hev.single _).triple.bind fun cv =>
        (branch_triple cv (by simp [hE₄]) (by simp [hE₄])).bind hiterate
    · exact (jump_triple (by simp [hE₄])).bind hiterate
  split
  · exact (hs _).triple.bind hloop
  · exact hloop ()

end Body

theorem keeps_expand_succ {fuel : Nat} (hb : ∀ b, Keeps (block fuel b)) (depth : Nat) :
    Keeps (expand (fuel + 1) depth) := by
  refine Keeps.of_triple fun P E => ?_
  rw [expand]
  refine (Keeps.of_fnFixed fnFixed_get).triple.bind fun st => ?_
  split
  · refine (createBlock_triple _).bind fun exit => Triple.of_fact fun hx => ?_
    refine (Keeps.of_fnFixed fnFixed_get).triple.bind fun _ => ?_
    refine (Keeps.of_fnFixed fnFixed_get).triple.bind fun _ => ?_
    extract_lets savedDepth leave
    -- leaving: on to the exit block, pending since it was made, and back to the enclosing state
    have hleave : ∀ u, Triple (Ready (insert exit P) (insert exit E)) (leave u) fun _ => Ready P E := by
      intro u
      dsimp -zeta only [leave]
      refine (jumpIfOpen_triple (by simp)).bind fun _ => ?_
      refine (switchTo_triple (by simp)).bind fun _ => ?_
      refine (keeps_popReturnTarget.triple.bind fun _ => keeps_popLayer.triple.bind fun _ =>
        (keeps_modifyFn _ (fun _ => by rfl) fun _ _ hk => by exact hk).triple).mono fun _ _ h =>
          h.restore (fun x => ?_) fun x hx => by simp [hx]
      simp only [Set.mem_sdiff, Set.mem_insert_iff, Set.mem_singleton_iff]
      grind
    -- the body of the function, or the next modifier with its arguments bound
    refine Triple.ite ?_ ?_
    · refine keeps_pushLayer.triple.bind fun _ => ?_
      refine (pushReturnTarget_triple (by simp)).bind fun _ => ?_
      refine (keeps_modifyFn _ (fun _ => by rfl) fun _ _ hk => by exact hk).triple.bind fun _ => ?_
      refine takeLoops_triple.bind fun loops => ?_
      exact (hb _).triple.bind fun _ => restoreLoops_triple.bind hleave
    · split
      · refine (keeps_ask fun env => env.clean_resolveModifier _ _).triple.bind fun m => ?_
        refine (Keeps.of_fnFixed (fnFixed_modifierDef _)).triple.bind fun d => ?_
        extract_lets enter
        have henter : ∀ u, Triple (Ready (insert exit P) (insert exit E)) (enter u) fun _ => Ready P E := by
          intro u
          dsimp -zeta only [enter]
          refine eval_triple.bind fun ev => Triple.of_fact fun hev => ?_
          refine (Keeps.mapM fun _ => (hev.single _).bind fun _ => Keeps.pure _).triple.bind fun args => ?_
          refine keeps_pushLayer.triple.bind fun _ => ?_
          refine (Keeps.forIn (fun ⟨_, _, _⟩ _ => (Keeps.of_fnFixed (fnFixed_varDecl _)).bind fun _ =>
            (keeps_freshLocal _).bind fun _ => (keeps_declareVar _ _).bind fun _ =>
              (keeps_store _ _ _ _).bind fun _ => Keeps.pure _) _).triple.bind fun _ => ?_
          refine (pushReturnTarget_triple (by simp)).bind fun _ => ?_
          refine (keeps_modifyFn _ (fun _ => by rfl) fun _ _ hk => by exact hk).triple.bind fun _ => ?_
          refine takeLoops_triple.bind fun loops => ?_
          exact (hb _).triple.bind fun _ => restoreLoops_triple.bind hleave
        exact Triple.ite (Triple.throw_bind (by rfl) _) (henter ())
      · exact Triple.throw_bind (by rfl) _
  · exact (Keeps.of_fnFixed fnFixed_read).triple.bind fun _ =>
      (Keeps.of_fnFixed (fnFixed_contractDef _)).triple.bind fun _ => Triple.throw (by rfl)

/-- Statements, blocks and modifier expansions at one fuel keep the protocol. -/
structure BodyKeeps (fuel : Nat) : Prop where
  stmt : ∀ s, Keeps (stmt fuel s)
  block : ∀ b, Keeps (block fuel b)
  expand : ∀ depth, Keeps (expand fuel depth)

theorem keeps_stmt_succ {fuel : Nat} (ih : BodyKeeps fuel) (s : Stmt) : Keeps (stmt (fuel + 1) s) := by
  obtain ⟨id, kind⟩ := s
  cases kind with
  | ifThen cond thenBody elseBody => exact keeps_ifThen ih.stmt id cond thenBody elseBody
  | whileLoop cond body isDoWhile => exact keeps_whileLoop ih.stmt id cond body isDoWhile
  | forLoop init cond update body => exact keeps_forLoop ih.stmt id init cond update body
  | block b =>
    rw [stmt]
    exact ih.block b
  | declare vars init =>
    rw [stmt]
    exact keeps_declaration _ _ _
  | expr e =>
    rw [stmt]
    exact keeps_eval_bind fun ev hev => (hev.values e).discard
  | breakLoop =>
    rw [stmt]
    dsimp -zeta only [Stmt.kind]
    intro P E env s h
    rw [bind_run_ok (get_run env s)]
    cases hl : s.fn.loops.head? with
    | none => exact Keeps.throw (by rfl) P E env s h
    | some l => exact jumpAndDetach_outcome h (h.has_loop (List.mem_of_head? hl)).1
  | continueLoop =>
    rw [stmt]
    dsimp -zeta only [Stmt.kind]
    intro P E env s h
    rw [bind_run_ok (get_run env s)]
    cases hl : s.fn.loops.head? with
    | none => exact Keeps.throw (by rfl) P E env s h
    | some l => exact jumpAndDetach_outcome h (h.has_loop (List.mem_of_head? hl)).2
  | returnWith value =>
    rw [stmt]
    exact keeps_returnStmt _ _
  | throwStmt =>
    rw [stmt]
    exact keeps_revertBlock_bind fun k => keepsAt_jumpAndDetach k
  | placeholder =>
    rw [stmt]
    refine (Keeps.of_fnFixed fnFixed_get).bind fun st => ?_
    split
    · exact ih.expand _
    · exact Keeps.throw (by rfl)
  | inlineAssembly =>
    rw [stmt]
    exact Keeps.throw (by rfl)

theorem bodyKeeps (fuel : Nat) : BodyKeeps fuel := by
  induction fuel with
  | zero =>
    refine ⟨fun _ => ?_, fun _ => ?_, fun _ => ?_⟩
    · rw [stmt]
      exact Keeps.throw (by rfl)
    · rw [block]
      exact Keeps.throw (by rfl)
    · rw [expand]
      exact Keeps.throw (by rfl)
  | succ fuel ih =>
    refine ⟨keeps_stmt_succ ih, fun b => ?_, keeps_expand_succ ih.block⟩
    rw [block]
    exact Keeps.forM ih.stmt

theorem keeps_functionBody (f : Nat) : Keeps (functionBody f) := by
  unfold functionBody
  refine (Keeps.of_fnFixed (fnFixed_functionDef f)).bind fun d => ?_
  split
  · refine (Keeps.of_fnFixed fnFixed_get).bind fun _ => (Keeps.of_fnFixed fnFixed_get).bind fun _ =>
      (keeps_modifyFn _ (fun _ => by rfl) fun _ _ hk => by exact hk).bind fun _ => ?_
    exact (Keeps.of_fnFixed (fnFixed_unit.bind fun _ => FnFixed.pure _)).bind fun fuel =>
      ((bodyKeeps fuel).expand 0).bind fun _ => keeps_modifyFn _ (fun _ => by rfl) fun _ _ hk => by exact hk
  · exact Keeps.throw (by rfl)

end Gen

end ContractCfg.Lower
