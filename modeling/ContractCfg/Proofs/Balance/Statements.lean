import ContractCfg.Lower.Stmt
import ContractCfg.Proofs.Balance.Expressions

/-!
Lowering a statement leaves the function state balanced: registers are handed out, names are
bound in the innermost layer only, and the frame (the depth of the layers, the loops, the return
targets, the chain, the modifier depth and the contract of the code) is as it was (`Balanced`).
The statements that change the frame change it back. A loop is entered around its body and left
after it. An expansion of a modifier or of the function body opens a layer and a return target,
hides the loops and sets the depth and the contract, then undoes all of it; it even puts back the
layers and the function scope exactly, so it is quiet, and the bindings around a placeholder are
the same after it as before. Statements, blocks and expansions are balanced at every fuel, by
induction on the fuel.
-/

namespace ContractCfg.Lower

open ContractCfg.Source
open ContractCfg.IR (Value)

/-- From `c` to `c'` registers were handed out and names bound in the innermost layer only (in
the function scope when no layer is open): the frame, the layers outside the innermost and,
inside a layer, the function scope are as they were. -/
structure Balanced (env : Env) (c c' : FnState) : Prop where
  advances : Advances env c c'
  nest : c'.nest = c.nest
  outer : c'.layers.tail = c.layers.tail
  scope : c.layers ≠ [] → c'.functionScope = c.functionScope

variable {env : Env} {c c₁ c₂ : FnState}

theorem FnState.layers_ne_nil_of_nest (h : c₁.nest = c.nest) (hc : c.layers ≠ []) : c₁.layers ≠ [] := by
  intro h₁
  have hlen : c₁.layers.length = c.layers.length := congrArg Nest.depth h
  rw [h₁, List.length_nil] at hlen
  exact hc (List.eq_nil_of_length_eq_zero hlen.symm)

theorem Advances.of_fields {d d₁ : FnState} (h : Advances env c c₁) (hb : d.builder = c.builder)
    (hn : d.names = c.names) (hb₁ : d₁.builder = c₁.builder) (hn₁ : d₁.names = c₁.names) :
    Advances env d d₁ := by
  refine ⟨by rw [hb, hb₁]; exact h.temps, fun b => by rw [hn, hn₁]; exact h.counts b, fun b hlt => ?_⟩
  rw [hn, hn₁] at hlt
  exact h.bases b hlt

namespace Balanced

theorem refl (c : FnState) : Balanced env c c := ⟨Advances.refl c, rfl, rfl, fun _ => rfl⟩

theorem trans (h₁ : Balanced env c c₁) (h₂ : Balanced env c₁ c₂) : Balanced env c c₂ :=
  ⟨h₁.advances.trans h₂.advances, h₂.nest.trans h₁.nest, h₂.outer.trans h₁.outer,
    fun hc => (h₂.scope (FnState.layers_ne_nil_of_nest h₁.nest hc)).trans (h₁.scope hc)⟩

theorem of_quiet (h : Quiet env c c₁) : Balanced env c c₁ :=
  ⟨h.advances, h.nest, by rw [h.layers], fun _ => h.functionScope⟩

theorem popLoop {t : LoopTargets} (h : Balanced env { c with loops := t :: c.loops } c₁) :
    Balanced env c { c₁ with loops := c₁.loops.drop 1 } := by
  have hf : c₁.nest = ⟨c.layers.length, t :: c.loops, c.returnTargets, c.chain, c.modifierDepth,
    c.scope⟩ := h.nest
  simp only [FnState.nest, Nest.mk.injEq] at hf
  obtain ⟨hd, hl, hr, hc, hm, hs⟩ := hf
  refine ⟨h.advances.of_fields rfl rfl rfl rfl, ?_, h.outer, h.scope⟩
  simp [FnState.nest, hd, hl, hr, hc, hm, hs]

end Balanced

theorem Moves.balanced {α : Type} {m : Gen α} (h : Moves env (Quiet env) m) :
    Moves env (Balanced env) m :=
  h.mono Quiet.refl fun _ _ _ h₀ hq => h₀.trans (.of_quiet hq)

theorem Quiet.restore {ch : Option Chain} {md : Option Nat}
    (h : Quiet env { c with chain := ch, modifierDepth := md } c₁) :
    Quiet env c { c₁ with chain := c.chain, modifierDepth := c.modifierDepth } := by
  have hf : c₁.nest = ⟨c.layers.length, c.loops, c.returnTargets, ch, md, c.scope⟩ := h.nest
  simp only [FnState.nest, Nest.mk.injEq] at hf
  obtain ⟨hd, hl, hr, -, -, hs⟩ := hf
  refine ⟨h.advances.of_fields rfl rfl rfl rfl, ?_, h.layers, h.functionScope⟩
  simp [FnState.nest, hd, hl, hr, hs]

/-- Started in a state satisfying `pre`, successful runs of `m` in `env` end with a result and a
state satisfying `post`. -/
def Runs (env : Env) (pre : GenState → Prop) {α : Type} (m : Gen α) (post : α → GenState → Prop) :
    Prop :=
  ∀ s a s', pre s → m env s = .ok (a, s') → post a s'

namespace Runs

variable {α β : Type} {pre : GenState → Prop} {post : α → GenState → Prop}

theorem bind {x : Gen α} {f : α → Gen β} {mid : α → GenState → Prop} {post : β → GenState → Prop}
    (hx : Runs env pre x mid) (hf : ∀ a, Runs env (mid a) (f a) post) : Runs env pre (x >>= f) post := by
  intro s b s' hs hrun
  obtain ⟨a, s₁, h₁, h₂⟩ := Gen.bind_ok hrun
  exact hf a s₁ b s' (hx s a s₁ hs h₁) h₂

theorem mono {m : Gen α} {pre' : GenState → Prop} {post' : α → GenState → Prop}
    (h : Runs env pre m post) (hp : ∀ s, pre' s → pre s) (hq : ∀ a s, post a s → post' a s) :
    Runs env pre' m post' :=
  fun s a s' hs hrun => hq a s' (h s a s' (hp s hs) hrun)

theorem of_fact {Q : Prop} {m : Gen α} (h : Q → Runs env pre m post) :
    Runs env (fun s => pre s ∧ Q) m post :=
  fun s a s' hs hrun => h hs.2 s a s' hs.1 hrun

theorem ite {c : Prop} {h : Decidable c} {x y : Gen α} (hx : Runs env pre x post)
    (hy : Runs env pre y post) : Runs env pre (if c then x else y) post := by
  split
  · exact hx
  · exact hy

theorem throw_bind (e : LowerError) (f : α → Gen β) {post : β → GenState → Prop} :
    Runs env pre (MonadExcept.throw e >>= f) post := by
  intro s b s' _ hrun
  obtain ⟨a, s₁, h₁, -⟩ := Gen.bind_ok hrun
  cases h₁

theorem anchor {P : FnState → Prop} {m : Gen α} (h : ∀ c, P c → Runs env (fun s => s.fn = c) m post) :
    Runs env (fun s => P s.fn) m post :=
  fun s a s' hs hrun => h s.fn hs s a s' rfl hrun

theorem get_bind {f : GenState → Gen α} (h : ∀ st, pre st → Runs env (fun s => s.fn = st.fn) (f st) post) :
    Runs env pre (get >>= f) post := by
  intro s a s' hs hrun
  rw [Gen.bind_run_ok (Gen.get_run env s)] at hrun
  exact h s hs s a s' rfl hrun

theorem of_moves {R : FnState → FnState → Prop} {m : Gen α} (h : Moves env R m) (hR : ∀ c, R c c) :
    Runs env (fun s => s.fn = c) m fun _ s => R c s.fn := by
  intro s a s' hs hrun
  rw [← hs]
  exact h.run hR hrun

theorem keep {P : FnState → Prop} {m : Gen α} (h : Moves env (fun _ c => P c) m) :
    Runs env (fun s => P s.fn) m fun _ s => P s.fn :=
  fun s a s' hs hrun => h s.fn s a s' hs hrun

theorem modifyFn {P Q : FnState → Prop} {f : FnState → FnState} (hf : ∀ c, P c → Q (f c)) :
    Runs env (fun s => P s.fn) (Gen.modifyFn f) fun _ s => Q s.fn := by
  intro s a s' hs hrun
  rw [Gen.modifyFn_run] at hrun
  cases hrun
  exact hf s.fn hs

theorem eval_bind {P : FnState → Prop} {f : Eval → Gen α}
    (hf : ∀ ev, EvalMoves env ev → Runs env (fun s => P s.fn) (f ev) post) :
    Runs env (fun s => P s.fn) (Gen.eval >>= f) post := by
  unfold Gen.eval
  rw [bind_assoc]
  refine (keep (Gen.moves_unit.bind fun _ => Moves.pure _)).bind fun fuel => ?_
  rw [pure_bind]
  exact hf _ (Gen.evalMoves fuel)

end Runs

/-- Inside an expansion entered from `c`: registers handed out since `c`, one layer over the
layers of `c`, the return targets `rs` over those of `c`, the loops `ls`, and the chain and the
function scope of `c`. -/
structure Inside (env : Env) (c : FnState) (rs : List Nat) (ls : List LoopTargets) (c' : FnState) :
    Prop where
  advances : Advances env c c'
  layers : c'.layers.tail = c.layers
  nonempty : c'.layers ≠ []
  returnTargets : c'.returnTargets = rs ++ c.returnTargets
  loops : c'.loops = ls
  chain : c'.chain = c.chain
  functionScope : c'.functionScope = c.functionScope

namespace Inside

variable {rs : List Nat} {ls : List LoopTargets}

theorem pushLayer (c : FnState) : Inside env c [] c.loops { c with layers := {} :: c.layers } :=
  ⟨.of_same rfl rfl, rfl, List.cons_ne_nil _ _, rfl, rfl, rfl, rfl⟩

theorem balanced (h : Inside env c rs ls c₁) (hb : Balanced env c₁ c₂) : Inside env c rs ls c₂ := by
  have hf := hb.nest
  simp only [FnState.nest, Nest.mk.injEq] at hf
  obtain ⟨-, hl, hr, hc, -, -⟩ := hf
  exact ⟨h.advances.trans hb.advances, hb.outer.trans h.layers,
    FnState.layers_ne_nil_of_nest hb.nest h.nonempty, hr.trans h.returnTargets, hl.trans h.loops,
    hc.trans h.chain, (hb.scope h.nonempty).trans h.functionScope⟩

theorem pushReturnTarget (h : Inside env c [] ls c₁) (exit : Nat) :
    Inside env c [exit] ls { c₁ with returnTargets := exit :: c₁.returnTargets } :=
  ⟨h.advances.of_fields rfl rfl rfl rfl, h.layers, h.nonempty, by rw [h.returnTargets]; rfl, h.loops,
    h.chain, h.functionScope⟩

theorem popReturnTarget {exit : Nat} (h : Inside env c [exit] ls c₁) :
    Inside env c [] ls { c₁ with returnTargets := c₁.returnTargets.drop 1 } :=
  ⟨h.advances.of_fields rfl rfl rfl rfl, h.layers, h.nonempty, by rw [h.returnTargets]; rfl, h.loops,
    h.chain, h.functionScope⟩

theorem setLoops (h : Inside env c rs ls c₁) (ls' : List LoopTargets) :
    Inside env c rs ls' { c₁ with loops := ls' } :=
  ⟨h.advances.of_fields rfl rfl rfl rfl, h.layers, h.nonempty, h.returnTargets, rfl, h.chain,
    h.functionScope⟩

theorem setScope (h : Inside env c rs ls c₁) (sc : Nat) (md : Option Nat) :
    Inside env c rs ls { c₁ with scope := sc, modifierDepth := md } :=
  ⟨h.advances.of_fields rfl rfl rfl rfl, h.layers, h.nonempty, h.returnTargets, h.loops, h.chain,
    h.functionScope⟩

theorem close (h : Inside env c [] c.loops c₁) :
    Quiet env c { c₁ with layers := c₁.layers.drop 1, scope := c.scope, modifierDepth := c.modifierDepth } := by
  have hl : c₁.layers.drop 1 = c.layers := by
    rw [List.drop_one]
    exact h.layers
  refine ⟨h.advances.of_fields rfl rfl rfl rfl, ?_, hl, h.functionScope⟩
  simp only [FnState.nest, hl, h.loops, h.chain, h.returnTargets, List.nil_append]

end Inside

theorem Runs.inside {α : Type} {m : Gen α} {rs : List Nat} {ls : List LoopTargets}
    (h : Moves env (Balanced env) m) :
    Runs env (fun s => Inside env c rs ls s.fn) m fun _ s => Inside env c rs ls s.fn :=
  Runs.keep (h.mono Balanced.refl fun _ _ _ hi hb => hi.balanced hb)

namespace Gen

theorem runs_takeLoops {rs : List Nat} {ls : List LoopTargets} :
    Runs env (fun s => Inside env c rs ls s.fn) takeLoops fun l s => Inside env c rs [] s.fn ∧ l = ls := by
  intro s a s' hs hrun
  unfold takeLoops at hrun
  rw [bind_run_ok (get_run env s)] at hrun
  obtain ⟨_, s₁, h₁, h₂⟩ := bind_ok hrun
  rw [modifyFn_run] at h₁
  cases h₁
  cases h₂
  exact ⟨hs.setLoops [], hs.loops⟩

theorem moves_declareVar (v : Nat) (x : Value) : Moves env (Balanced env) (declareVar v x) := by
  intro c₀ s a s' h₀ hrun
  rw [declareVar, modifyFn_run] at hrun
  cases hrun
  refine h₀.trans ?_
  -- the binding goes to the innermost layer, or to the function scope when none is open
  split
  · next h => exact ⟨.of_same rfl rfl, rfl, rfl, fun hc => absurd h hc⟩
  · next l ls h => exact ⟨.of_same rfl rfl, by simp [FnState.nest, h], by simp [h], fun _ => rfl⟩

theorem moves_declareLocal (v : Nat) : Moves env (Balanced env) (declareLocal v) :=
  moves_varDecl_bind fun d hd => (moves_freshLocal (.inr ⟨v, d, hd, rfl⟩)).balanced.bind fun x =>
    (moves_declareVar v x).bind fun _ => Moves.pure _

theorem runs_leave {exit sc : Nat} {md : Option Nat} (hs : sc = c.scope) (hd : md = c.modifierDepth) :
    Runs env (fun s => Inside env c [exit] c.loops s.fn)
      (jumpIfOpen exit >>= fun _ => switchTo exit >>= fun _ => popReturnTarget >>= fun _ =>
        popLayer >>= fun _ => modifyFn fun c' => { c' with scope := sc, modifierDepth := md })
      fun _ s => Quiet env c s.fn := by
  subst hs hd
  refine (Runs.inside (moves_jumpIfOpen exit).balanced).bind fun _ =>
    (Runs.inside (moves_switchTo exit).balanced).bind fun _ =>
    (Runs.modifyFn fun _ h => h.popReturnTarget).bind fun _ => ?_
  exact (Runs.modifyFn fun _ h => h.close).bind fun _ => Runs.modifyFn fun _ h => h

theorem moves_expand_succ {fuel : Nat} (hb : ∀ b, Moves env (Balanced env) (block fuel b)) (depth : Nat) :
    Moves env (Quiet env) (expand (fuel + 1) depth) := by
  intro c₀
  show Runs env (fun s => Quiet env c₀ s.fn) _ fun _ s => Quiet env c₀ s.fn
  rw [expand]
  refine Runs.get_bind fun st h₀ => ?_
  split
  · rename_i chain hchain
    refine (Runs.of_moves (moves_createBlock _) Quiet.refl).bind fun exit =>
      Runs.get_bind fun st₁ h₁ => Runs.get_bind fun st₂ h₂ => ?_
    extract_lets savedDepth leave
    have hc : Quiet env c₀ st₂.fn := by
      rw [h₂]
      exact h₀.trans h₁
    -- leaving, from inside an expansion entered at any state that is quiet from `st₂`
    have hleave : ∀ c', Quiet env st₂.fn c' → ∀ u,
        Runs env (fun s => Inside env c' [exit] c'.loops s.fn) (leave u) fun _ s => Quiet env c₀ s.fn := by
      intro c' hc' u
      have hs : st₁.fn.scope = c'.scope := by
        rw [← h₂]
        exact (congrArg Nest.scope hc'.nest).symm
      have hd : savedDepth = c'.modifierDepth := (congrArg Nest.modifierDepth hc'.nest).symm
      dsimp -zeta only [leave]
      exact (runs_leave hs hd).mono (fun _ h => h) fun _ _ h => (hc.trans hc').trans h
    -- a body lowered with the loops hidden, then left
    have hinner : ∀ c' (b : Block), Quiet env st₂.fn c' →
        Runs env (fun s => Inside env c' [exit] c'.loops s.fn)
          (takeLoops >>= fun loops => block fuel b >>= fun _ => restoreLoops loops >>= leave)
          fun _ s => Quiet env c₀ s.fn := by
      intro c' b hc'
      refine runs_takeLoops.bind fun l => Runs.of_fact fun hl => ?_
      subst hl
      exact (Runs.inside (hb b)).bind fun _ =>
        (Runs.modifyFn fun _ h => h.setLoops c'.loops).bind (hleave c' hc')
    split
    · -- the function body, once every modifier has been entered
      exact (Runs.modifyFn (P := (· = st₂.fn)) (Q := Inside env st₂.fn [] st₂.fn.loops)
        fun _ h => by subst h; exact Inside.pushLayer _).bind
        fun _ => (Runs.modifyFn fun _ h => h.pushReturnTarget exit).bind fun _ =>
        (Runs.modifyFn fun _ h => h.setScope _ _).bind fun _ => hinner st₂.fn chain.body (Quiet.refl _)
    · -- the modifier at this depth, its arguments evaluated before its layer is opened
      split
      · refine (Runs.keep (P := (· = st₂.fn)) (moves_ask _)).bind fun m =>
          (Runs.keep (P := (· = st₂.fn)) (moves_modifierDef m)).bind fun d => ?_
        extract_lets enter
        refine Runs.ite (Runs.throw_bind _ _) ?_
        dsimp -zeta only [enter]
        refine Runs.eval_bind (P := (· = st₂.fn)) fun ev hev => ?_
        refine (Runs.of_moves (Moves.mapM fun _ => (hev.single _).bind fun _ => Moves.pure _)
          Quiet.refl).bind fun args => Runs.anchor fun c' hc' => ?_
        refine (Runs.modifyFn (P := (· = c')) (Q := Inside env c' [] c'.loops)
          fun _ h => by subst h; exact Inside.pushLayer _).bind
          fun _ => (Runs.inside (Moves.forIn (fun ⟨p, _, _⟩ _ => moves_varDecl_bind fun pd hpd =>
            (moves_freshLocal (.inr ⟨p, pd, hpd, rfl⟩)).balanced.bind fun x =>
              (moves_declareVar p x).bind fun _ => (moves_store _ _ _ _).balanced.bind fun _ =>
                Moves.pure _) _)).bind fun _ => ?_
        -- the parameters are bound in the new layer; then the body is entered
        exact (Runs.modifyFn fun _ h => h.pushReturnTarget exit).bind fun _ =>
          (Runs.modifyFn fun _ h => h.setScope _ _).bind fun _ => hinner c' d.body hc'
      · exact Runs.throw_bind _ _
  · -- no chain to expand
    intro s a s' _ hrun
    obtain ⟨_, _, _, hrun⟩ := bind_ok hrun
    obtain ⟨_, _, _, hrun⟩ := bind_ok hrun
    cases hrun

theorem moves_declaration (node : Nat) (vars : List (Option Nat)) (init : Option Expr) :
    Moves env (Balanced env) (declaration node vars init) := by
  unfold declaration
  cases init with
  | none =>
    exact (Moves.forIn (fun _ _ => (moves_varDecl _).bind fun _ => (moves_defaultValue _ _).balanced.bind
      fun _ => (moves_declareLocal _).bind fun _ => (moves_store _ _ _ _).balanced.bind fun _ =>
        Moves.pure _) _).bind fun _ => Moves.pure _
  | some init =>
    refine moves_eval_bind fun ev hev => (hev.values _).balanced.bind fun values =>
      (Moves.lift _).bind fun pairing => ?_
    refine (Moves.forIn (fun x _ => ?_) _).bind fun _ => Moves.pure _
    obtain ⟨var, source⟩ := x
    dsimp only
    split
    · exact (moves_declareLocal _).bind fun _ => (moves_store _ _ _ _).balanced.bind fun _ => Moves.pure _
    · exact Moves.pure _

theorem moves_returnStmt (node : Nat) (value : Option Expr) : Moves env (Quiet env) (returnStmt node value) := by
  unfold returnStmt
  extract_lets leave
  have hleave : ∀ u, Moves env (Quiet env) (leave u) := by
    intro u
    dsimp -zeta only [leave]
    refine moves_get.bind fun st => ?_
    split
    · exact moves_jumpAndDetach _
    · exact Moves.throw _
  cases value with
  | none => exact hleave ()
  | some e =>
    refine moves_eval_bind fun ev hev => (hev.values _).bind fun values => moves_get.bind fun st => ?_
    refine Moves.ite (Moves.throw_bind _ _) ?_
    exact (Moves.forIn (fun _ _ => (moves_store _ _ _ _).bind fun _ => Moves.pure _) _).bind hleave

theorem moves_loop {b k : Nat} {m : Gen Unit} {f : Unit → Gen Unit} (hm : Moves env (Balanced env) m)
    (hf : ∀ u, Moves env (Balanced env) (f u)) :
    Moves env (Balanced env) (pushLoop b k >>= fun _ => m >>= fun _ => popLoop >>= f) := by
  intro c₀ s a s' h₀ hrun
  obtain ⟨_, s₁, h₁, hrun⟩ := bind_ok hrun
  rw [pushLoop, modifyFn_run] at h₁
  cases h₁
  obtain ⟨_, s₂, h₂, hrun⟩ := bind_ok hrun
  obtain ⟨_, s₃, h₃, hrun⟩ := bind_ok hrun
  rw [popLoop, modifyFn_run] at h₃
  cases h₃
  exact hf _ c₀ _ _ _ (h₀.trans (hm.run Balanced.refl h₂).popLoop) hrun

theorem moves_leaveLoop (err : LowerError) (target : LoopTargets → Nat) :
    Moves env (Quiet env)
      (do
        let some l := (← get).fn.loops.head? | throw err
        jumpAndDetach (target l)) := by
  refine moves_get.bind fun st => ?_
  split
  · exact moves_jumpAndDetach _
  · exact Moves.throw _

theorem moves_placeholder {fuel : Nat} (hx : ∀ depth, Moves env (Quiet env) (expand fuel depth)) (id : Nat) :
    Moves env (Quiet env) (stmt (fuel + 1) ⟨id, .placeholder⟩) := by
  rw [stmt]
  refine moves_get.bind fun st => ?_
  split
  · exact hx _
  · exact Moves.throw _

section Body

variable {fuel : Nat} (hs : ∀ s, Moves env (Balanced env) (stmt fuel s))
include hs

theorem moves_ifThen (id : Nat) (cond : Expr) (thenBody : Stmt) (elseBody : Option Stmt) :
    Moves env (Balanced env) (stmt (fuel + 1) ⟨id, .ifThen cond thenBody elseBody⟩) := by
  rw [stmt]
  refine moves_eval_bind fun ev hev => (hev.single cond).balanced.bind fun c =>
    (moves_createBlock _).balanced.bind fun tb => (moves_createBlock _).balanced.bind fun join => ?_
  extract_lets finish arms
  -- the arms, each lowered from its own block and joined
  have harms : ∀ eb, Moves env (Balanced env) (arms eb) := by
    intro eb
    dsimp -zeta only [arms]
    refine (moves_terminate _).balanced.bind fun _ => (moves_switchTo _).balanced.bind fun _ =>
      (hs thenBody).bind fun _ => (moves_jumpIfOpen _).balanced.bind fun _ => ?_
    split
    · exact (moves_switchTo _).balanced.bind fun _ => (hs _).bind fun _ =>
        (moves_jumpIfOpen _).balanced.bind fun _ => (moves_switchTo _).balanced
    · exact (moves_switchTo _).balanced
  split
  · exact (moves_createBlock _).balanced.bind harms
  · exact (Moves.pure _).bind harms

theorem moves_whileLoop (id : Nat) (cond : Expr) (body : Stmt) (isDoWhile : Bool) :
    Moves env (Balanced env) (stmt (fuel + 1) ⟨id, .whileLoop cond body isDoWhile⟩) := by
  rw [stmt]
  refine (moves_createBlock _).balanced.bind fun header =>
    (moves_createBlock _).balanced.bind fun bodyBlock => (moves_createBlock _).balanced.bind fun exit =>
    (moves_terminate _).balanced.bind fun _ => (moves_switchTo _).balanced.bind fun _ =>
    moves_eval_bind fun ev hev => (hev.single cond).balanced.bind fun c =>
    (moves_terminate _).balanced.bind fun _ => (moves_switchTo _).balanced.bind fun _ => ?_
  exact moves_loop (hs body) fun _ => (moves_jumpIfOpen _).balanced.bind fun _ =>
    (moves_switchTo _).balanced

theorem moves_forLoop (id : Nat) (init : Option Stmt) (cond : Option Expr) (update : Option Expr)
    (body : Stmt) : Moves env (Balanced env) (stmt (fuel + 1) ⟨id, .forLoop init cond update body⟩) := by
  rw [stmt]
  dsimp -zeta only [Stmt.kind]
  extract_lets loop
  -- the loop proper, after the initializer, which stands outside it
  have hloop : ∀ u, Moves env (Balanced env) (loop u) := by
    intro u
    dsimp -zeta only [loop]
    refine (moves_createBlock _).balanced.bind fun header =>
      (moves_createBlock _).balanced.bind fun bodyBlock => (moves_createBlock _).balanced.bind fun step =>
      (moves_createBlock _).balanced.bind fun exit => (moves_terminate _).balanced.bind fun _ =>
      (moves_switchTo _).balanced.bind fun _ => ?_
    extract_lets finish iterate
    have hiterate : ∀ u, Moves env (Balanced env) (iterate u) := by
      intro u
      dsimp -zeta only [iterate]
      refine (moves_switchTo _).balanced.bind fun _ => moves_loop (hs body) fun _ =>
        (moves_jumpIfOpen _).balanced.bind fun _ => (moves_switchTo _).balanced.bind fun _ => ?_
      have hfinish : ∀ u, Moves env (Balanced env) (finish u) := fun _ =>
        ((moves_jumpIfOpen _).bind fun _ => moves_switchTo _).balanced
      split
      · exact moves_eval_bind fun ev hev => (hev.values _).discard.balanced.bind hfinish
      · exact hfinish ()
    split
    · exact moves_eval_bind fun ev hev => (hev.single _).balanced.bind fun cv =>
        (moves_terminate _).balanced.bind hiterate
    · exact (moves_terminate _).balanced.bind hiterate
  cases init with
  | some i => exact (hs i).bind hloop
  | none => exact hloop ()

end Body

/-- What lowering with `fuel` does to the function state: statements and blocks are balanced,
and expansions are quiet. -/
structure BodyMoves (env : Env) (fuel : Nat) : Prop where
  stmt : ∀ s, Moves env (Balanced env) (Gen.stmt fuel s)
  block : ∀ b, Moves env (Balanced env) (Gen.block fuel b)
  expand : ∀ depth, Moves env (Quiet env) (Gen.expand fuel depth)

section Step

variable {fuel : Nat} (h : BodyMoves env fuel)
include h

theorem moves_stmt_succ (s : Stmt) : Moves env (Balanced env) (stmt (fuel + 1) s) := by
  obtain ⟨id, kind⟩ := s
  cases kind with
  | block b =>
    rw [stmt]
    exact h.block b
  | declare vars init =>
    rw [stmt]
    exact moves_declaration _ _ _
  | expr e =>
    rw [stmt]
    exact moves_eval_bind fun ev hev => (hev.values e).discard.balanced
  | ifThen cond thenBody elseBody => exact moves_ifThen h.stmt id cond thenBody elseBody
  | whileLoop cond body isDoWhile => exact moves_whileLoop h.stmt id cond body isDoWhile
  | forLoop init cond update body => exact moves_forLoop h.stmt id init cond update body
  | continueLoop =>
    rw [stmt]
    exact (moves_leaveLoop _ LoopTargets.continueTo).balanced
  | breakLoop =>
    rw [stmt]
    exact (moves_leaveLoop _ LoopTargets.breakTo).balanced
  | returnWith value =>
    rw [stmt]
    exact (moves_returnStmt _ _).balanced
  | throwStmt =>
    rw [stmt]
    exact (moves_revertBlock.bind moves_jumpAndDetach).balanced
  | placeholder => exact (moves_placeholder h.expand id).balanced
  | inlineAssembly =>
    rw [stmt]
    exact Moves.throw _

theorem moves_block_succ (b : Block) : Moves env (Balanced env) (block (fuel + 1) b) := by
  rw [block]
  exact Moves.forM h.stmt

end Step

theorem bodyMoves (fuel : Nat) : BodyMoves env fuel := by
  induction fuel with
  | zero =>
    refine ⟨fun _ => ?_, fun _ => ?_, fun _ => ?_⟩
    · rw [stmt]
      exact Moves.throw _
    · rw [block]
      exact Moves.throw _
    · rw [expand]
      exact Moves.throw _
  | succ fuel ih => exact ⟨moves_stmt_succ ih, moves_block_succ ih, moves_expand_succ ih.block⟩

theorem moves_stmtFuel {R : FnState → FnState → Prop} (uses : Nat) : Moves env R (stmtFuel uses) :=
  moves_unit.bind fun _ => Moves.pure _

theorem moves_functionBody (f : Nat) : Moves env (Quiet env) (functionBody f) := by
  intro c₀
  show Runs env (fun s => Quiet env c₀ s.fn) _ fun _ s => Quiet env c₀ s.fn
  unfold functionBody
  refine (Runs.keep (moves_functionDef f)).bind fun d => ?_
  split
  · refine Runs.get_bind fun st h₀ => Runs.get_bind fun st' h₁ => ?_
    refine (Runs.modifyFn (P := (· = st'.fn)) (Q := (· = _)) fun _ h => by rw [h]).bind fun _ => ?_
    refine (Runs.keep (P := (· = _)) (moves_stmtFuel _)).bind fun fuel => ?_
    refine (Runs.of_moves ((bodyMoves fuel).expand 0) Quiet.refl).bind fun _ => ?_
    refine Runs.modifyFn fun _ h => ?_
    rw [h₁] at h ⊢
    exact h₀.trans h.restore
  · exact Runs.keep (Moves.throw _)

end Gen

theorem FnState.lookup_eq_or (c : FnState) (v : Nat) :
    c.lookup v = (c.layers.head?.bind (·.get? v)).or (c.functionScope.get? v) := by
  unfold FnState.lookup
  split
  · next x h => rw [h, Option.some_or]
  · next h => rw [h, Option.none_or]

open Gen in
/-- Lowering puts back the frame it finds. A statement that lowers leaves the depth of the
layers, the loops, the return targets, the chain, the modifier depth and the contract of the
code as they were, whatever loops it entered and expansions its placeholders made, and binds
names in the innermost layer only. An expression, an expansion of the chain and a function body
leave the layers and the function scope exactly as they were too. A variable is looked up in the
innermost layer, then in the function scope. -/
theorem lowering_restores_frame (env : Env) (fuel : Nat) :
    (∀ (s : Stmt) σ σ', stmt fuel s env σ = .ok ((), σ') →
      σ'.fn.nest = σ.fn.nest ∧ σ'.fn.layers.tail = σ.fn.layers.tail) ∧
    (∀ (e : Expr) σ vs σ', values fuel e env σ = .ok (vs, σ') →
      σ'.fn.nest = σ.fn.nest ∧ σ'.fn.layers = σ.fn.layers ∧ σ'.fn.functionScope = σ.fn.functionScope) ∧
    (∀ depth σ σ', expand fuel depth env σ = .ok ((), σ') →
      σ'.fn.nest = σ.fn.nest ∧ σ'.fn.layers = σ.fn.layers ∧ σ'.fn.functionScope = σ.fn.functionScope) ∧
    (∀ f σ σ', functionBody f env σ = .ok ((), σ') →
      σ'.fn.nest = σ.fn.nest ∧ σ'.fn.layers = σ.fn.layers ∧ σ'.fn.functionScope = σ.fn.functionScope) ∧
    (∀ v σ, lookupVar v env σ = .ok ((σ.fn.layers.head?.bind (·.get? v)).or (σ.fn.functionScope.get? v), σ)) := by
  have hb : BodyMoves env fuel := bodyMoves fuel
  refine ⟨fun s σ σ' h => ?_, fun e σ vs σ' h => ?_, fun depth σ σ' h => ?_, fun f σ σ' h => ?_,
    fun v σ => ?_⟩
  · have hs := (hb.stmt s).run Balanced.refl h
    exact ⟨hs.nest, hs.outer⟩
  · have he := ((evalMoves fuel).values e).run Quiet.refl h
    exact ⟨he.nest, he.layers, he.functionScope⟩
  · have hx := (hb.expand depth).run Quiet.refl h
    exact ⟨hx.nest, hx.layers, hx.functionScope⟩
  · have hf := (moves_functionBody f).run Quiet.refl h
    exact ⟨hf.nest, hf.layers, hf.functionScope⟩
  · rw [lookupVar_run, FnState.lookup_eq_or]

end ContractCfg.Lower
