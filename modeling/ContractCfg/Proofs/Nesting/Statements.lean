import ContractCfg.Proofs.Nesting.Expressions

/-!
Where `break`, `continue` and `_` may stand, and that lowering rejects exactly those that stand
elsewhere. A `break` or `continue` belongs in the body of a loop of its own body (the function
body, one expansion of a modifier body, one inlined constructor body), so the loops of an
enclosing modifier never count and a for-loop's initializer stands outside the loop; a `_`
belongs in a modifier body. `Stmt.misplaced` lists the errors the statements of a body raise
where they stand, read off the syntax alone. Lowering fails with such an error only when a body
it expands lists it, and succeeds only when every body it reaches lists none: the main result
is `misplaced_statements_rejected`.
-/

namespace ContractCfg.Source

open ContractCfg.Lower (LowerError)

mutual
/-- The errors the statements of `s` raise where they stand: a `break` or `continue` that no loop
encloses (`inLoop` tells whether loops around `s` do), and a `_` outside a modifier body. -/
def Stmt.misplaced : Stmt → Bool → Bool → List LowerError
  | .mk id kind, inLoop, inModifier => StmtKind.misplaced id kind inLoop inModifier

/-- The errors the statements of a block raise where they stand. -/
def Block.misplaced : Block → Bool → Bool → List LowerError
  | .mk _ stmts, inLoop, inModifier => Stmt.misplacedList stmts inLoop inModifier

/-- The errors the statements of the statement `id` of form `kind` raise where they stand. -/
def StmtKind.misplaced (id : Nat) : StmtKind → Bool → Bool → List LowerError
  | .block b, l, m => Block.misplaced b l m
  | .ifThen _ t f, l, m => Stmt.misplaced t l m ++ Stmt.misplacedOpt f l m
  | .whileLoop _ b _, _, m => Stmt.misplaced b true m
  | .forLoop i _ _ b, l, m => Stmt.misplacedOpt i l m ++ Stmt.misplaced b true m
  | .breakLoop, l, _ => if l then [] else [.breakOutsideLoop id]
  | .continueLoop, l, _ => if l then [] else [.continueOutsideLoop id]
  | .placeholder, _, m => if m then [] else [.placeholderOutsideModifier id]
  | _, _, _ => []

/-- The errors the statements of an optional statement raise where they stand. -/
def Stmt.misplacedOpt : Option Stmt → Bool → Bool → List LowerError
  | some s, l, m => Stmt.misplaced s l m
  | none, _, _ => []

/-- The errors the statements of a list of statements raise where they stand, in order. -/
def Stmt.misplacedList : List Stmt → Bool → Bool → List LowerError
  | [], _, _ => []
  | s :: ss, l, m => Stmt.misplaced s l m ++ Stmt.misplacedList ss l m
end

-- A `for` outside any loop: the `break` of its initializer is misplaced, the one of its body is not.
example : Stmt.misplaced ⟨1, .forLoop (some ⟨2, .breakLoop⟩) none none ⟨3, .breakLoop⟩⟩ false false =
    [.breakOutsideLoop 2] := rfl

mutual
/-- Whether a `_` stands in `s`, inside a loop or not. -/
def Stmt.holdsPlaceholder : Stmt → Bool
  | .mk _ kind => StmtKind.holdsPlaceholder kind

/-- Whether a `_` stands in a block. -/
def Block.holdsPlaceholder : Block → Bool
  | .mk _ stmts => Stmt.holdsPlaceholderList stmts

/-- Whether a `_` stands in a statement of form `kind`. -/
def StmtKind.holdsPlaceholder : StmtKind → Bool
  | .block b => Block.holdsPlaceholder b
  | .ifThen _ t f => Stmt.holdsPlaceholder t || Stmt.holdsPlaceholderOpt f
  | .whileLoop _ b _ => Stmt.holdsPlaceholder b
  | .forLoop i _ _ b => Stmt.holdsPlaceholderOpt i || Stmt.holdsPlaceholder b
  | .placeholder => true
  | _ => false

/-- Whether a `_` stands in an optional statement. -/
def Stmt.holdsPlaceholderOpt : Option Stmt → Bool
  | some s => Stmt.holdsPlaceholder s
  | none => false

/-- Whether a `_` stands in a list of statements. -/
def Stmt.holdsPlaceholderList : List Stmt → Bool
  | [] => false
  | s :: ss => Stmt.holdsPlaceholder s || Stmt.holdsPlaceholderList ss
end

theorem Block.misplaced_eq (b : Block) (l m : Bool) : b.misplaced l m = Stmt.misplacedList b.stmts l m := by
  cases b
  rfl

theorem Block.holdsPlaceholder_eq (b : Block) : b.holdsPlaceholder = Stmt.holdsPlaceholderList b.stmts := by
  cases b
  rfl

end ContractCfg.Source

namespace ContractCfg.Lower

open ContractCfg.Source

/-- The bodies chain `c` expands, by depth: below the number of its modifiers, the body of the
modifier used at that depth, resolved as lowering resolves it; at that number, the function
body. The flag marks a modifier's body. -/
inductive Chain.Layer (env : Env) (c : Chain) : Nat → Bool → Block → Prop
  | body : Chain.Layer env c c.modifiers.length false c.body
  | modifier {i : Nat} {use : ModifierUse} {m : Nat} {d : ModifierDef} :
      c.modifiers[i]? = some use → env.resolveModifier use.name use.id = .ok m →
      env.unit.modifier? m = some d → Chain.Layer env c i true d.body

/-- A body that chain `c` expands lists `e` among the errors its statements raise. -/
def Chain.Raises (env : Env) (c : Chain) (e : LowerError) : Prop :=
  ∃ i m b, c.Layer env i m b ∧ e ∈ b.misplaced false m

/-- The bodies chain `c` expands from depth `k` on list no misplaced statement, each body as far
as the placeholders of the bodies above it reach it. -/
def Chain.ClearFrom (env : Env) (c : Chain) (k : Nat) : Prop :=
  ∀ i m b, c.Layer env i m b → k ≤ i →
    (∀ j, k ≤ j → j < i → ∃ b', c.Layer env j true b' ∧ b'.holdsPlaceholder = true) →
    b.misplaced false m = []

/-- The chain lowering expands for the body `body` of function `f`, declared as `d`. -/
def bodyChain (f : Nat) (d : FunctionDef) (body : Block) : Chain :=
  { function := f, owner := d.contract, modifiers := d.modifiers, body := body }

namespace Chain

variable {env : Env} {c : Chain} {i j : Nat} {m m' : Bool} {b b' : Block}

theorem Layer.unique (h : c.Layer env i m b) (h' : c.Layer env i m' b') : m = m' ∧ b = b' := by
  cases h with
  | body =>
    cases h' with
    | body => exact ⟨rfl, rfl⟩
    | modifier hu _ _ => simp at hu
  | modifier hu hm hd =>
    cases h' with
    | body => simp at hu
    | modifier hu' hm' hd' =>
      rw [hu] at hu'
      cases hu'
      rw [hm] at hm'
      cases hm'
      rw [hd] at hd'
      cases hd'
      exact ⟨rfl, rfl⟩

theorem Layer.of_le (h : c.Layer env i m b) (hi : c.modifiers.length ≤ i) :
    i = c.modifiers.length ∧ m = false ∧ b = c.body := by
  cases h with
  | body => exact ⟨rfl, rfl, rfl⟩
  | modifier hu _ _ =>
    rw [List.getElem?_eq_none hi] at hu
    cases hu

theorem clearFrom_length (hb : c.body.misplaced false false = []) :
    c.ClearFrom env c.modifiers.length := by
  intro i m b h hi _
  obtain ⟨-, rfl, rfl⟩ := h.of_le hi
  exact hb

theorem clearFrom_modifier {d : Nat} {b : Block} (h : c.Layer env d true b)
    (hb : b.misplaced false true = []) (hbelow : b.holdsPlaceholder = true → c.ClearFrom env (d + 1)) :
    c.ClearFrom env d := by
  intro i m b' h' hi hj
  rcases Nat.eq_or_lt_of_le hi with rfl | hlt
  · obtain ⟨rfl, rfl⟩ := h.unique h'
    exact hb
  · obtain ⟨b'', h'', hholds⟩ := hj d (Nat.le_refl d) hlt
    obtain ⟨-, rfl⟩ := h.unique h''
    exact hbelow hholds i m b' h' hlt fun j hj₁ hj₂ => hj j (Nat.le_of_succ_le hj₁) hj₂

end Chain

namespace Site

/-- Whether a loop of its body encloses the site. -/
def inLoop (p : Site) : Bool := !p.loops.isEmpty

/-- Whether the body holding the site is a modifier's. -/
def inModifier (p : Site) : Bool := p.modifierDepth.isSome

/-- A body that the chain at `p` expands lists `e`. -/
def Raises (env : Env) (p : Site) (e : LowerError) : Prop := ∃ c, p.chain = some c ∧ c.Raises env e

/-- The bodies the placeholders at `p` expand list nothing misplaced, as far as they are
reached. -/
def ClearBelow (env : Env) (p : Site) : Prop :=
  ∀ k c, p.modifierDepth = some k → p.chain = some c → c.ClearFrom env (k + 1)

end Site

/-- What a run of lowering code gave, read for misplaced statements: a failure whose error, if a
misplaced statement's, `raised` accounts for, or a result and a state satisfying `post`. -/
def Reads {α : Type} (raised : LowerError → Prop) (r : Except LowerError (α × GenState))
    (post : α → GenState → Prop) : Prop :=
  match r with
  | .ok (a, s) => post a s
  | .error e => e.isMisplaced = true → raised e

/-- Lowering code run in `env` from a state satisfying `pre` fails with a misplaced-statement
error only as `raised` says, or ends in a state satisfying `post`. -/
def Answers {α : Type} (env : Env) (raised : LowerError → Prop) (pre : GenState → Prop) (m : Gen α)
    (post : α → GenState → Prop) : Prop :=
  ∀ s, pre s → Reads raised (m env s) post

/-- Lowering a piece of a body from site `p`, where its statements list `errs` and its `_`s are
`holds`: a misplaced-statement error is listed, or raised by a body the chain expands; a success
ends at `p`, lists nothing, and has reached the bodies below the placeholders without a misplaced
statement. -/
def Places (env : Env) (p : Site) (errs : List LowerError) (holds : Bool) (m : Gen Unit) : Prop :=
  Answers env (fun e => e ∈ errs ∨ p.Raises env e) (fun s => s.fn.site = p) m
    fun _ s => s.fn.site = p ∧ errs = [] ∧ (holds = true → p.ClearBelow env)

theorem Reads.mono {α : Type} {R R' : LowerError → Prop} {r : Except LowerError (α × GenState)}
    {post post' : α → GenState → Prop} (h : Reads R r post) (hR : ∀ e, R e → R' e)
    (hq : ∀ a s, post a s → post' a s) : Reads R' r post' := by
  match r, h with
  | .ok (a, s), h => exact hq a s h
  | .error e, h => exact fun hm => hR e (h hm)

namespace Answers

variable {α β : Type} {env : Env} {R : LowerError → Prop} {pre : GenState → Prop}
  {post : α → GenState → Prop}

theorem bind {x : Gen α} {f : α → Gen β} {mid : α → GenState → Prop} {post : β → GenState → Prop}
    (hx : Answers env R pre x mid) (hf : ∀ a, Answers env R (mid a) (f a) post) :
    Answers env R pre (x >>= f) post := by
  intro s hs
  have h := hx s hs
  rw [Gen.bind_run]
  match hr : x env s, h with
  | .error _, h => exact h
  | .ok (a, s'), h => exact hf a s' h

theorem ite {c : Prop} {h : Decidable c} {x y : Gen α} (hx : Answers env R pre x post)
    (hy : Answers env R pre y post) : Answers env R pre (if c then x else y) post := by
  split
  · exact hx
  · exact hy

theorem throw {e : LowerError} (he : e.isMisplaced = true → R e) :
    Answers env R pre (MonadExcept.throw e : Gen α) post :=
  fun _ _ => he

theorem mono {m : Gen α} {R' : LowerError → Prop} {post' : α → GenState → Prop}
    (h : Answers env R pre m post) (hR : ∀ e, R e → R' e) (hq : ∀ a s, post a s → post' a s) :
    Answers env R' pre m post' :=
  fun s hs => (h s hs).mono hR hq

theorem of_fact {Q : Prop} {m : Gen α} (h : Q → Answers env R pre m post) :
    Answers env R (fun s => pre s ∧ Q) m post :=
  fun s hs => h hs.2 s hs.1

theorem of_steady {m : Gen α} {p : Site} (h : Steady m) :
    Answers env R (fun s => s.fn.site = p) m fun _ s => s.fn.site = p := by
  intro s hs
  have h' := h env s
  unfold Reads
  match hr : m env s, h' with
  | .ok (_, _), h' => exact h'.trans hs
  | .error _, h' =>
    intro hm
    rw [h'] at hm
    cases hm

theorem get_at {p : Site} :
    Answers env R (fun s => s.fn.site = p) (MonadState.get : Gen GenState)
      fun a s => s.fn.site = p ∧ a.fn.site = p :=
  fun _ hs => ⟨hs, hs⟩

theorem ask {f : Env → Except LowerError α} (hf : ∀ env, Placed (f env)) :
    Answers env R pre (Gen.ask f) fun a s => pre s ∧ f env = .ok a := by
  intro s hs
  show Reads R (f env >>= fun a => (Pure.pure (a, s) : Except LowerError (α × GenState))) _
  cases hfe : f env with
  | error e =>
    intro hm
    rw [hf env e hfe] at hm
    cases hm
  | ok a => exact ⟨hs, rfl⟩

theorem modifyFn {f : FnState → FnState} {p q : Site} (hf : ∀ c, c.site = p → (f c).site = q) :
    Answers env R (fun s => s.fn.site = p) (Gen.modifyFn f) fun _ s => s.fn.site = q := by
  intro s hs
  rw [Gen.modifyFn_run]
  exact hf s.fn hs

theorem throw_placed {e : LowerError} (he : e.isMisplaced = false) :
    Answers env R pre (MonadExcept.throw e : Gen α) post :=
  fun _ _ hm => by rw [he] at hm; cases hm

theorem throw_placed_bind {e : LowerError} (he : e.isMisplaced = false) (f : α → Gen β)
    {post : β → GenState → Prop} : Answers env R pre (MonadExcept.throw e >>= f) post :=
  fun _ _ hm => by rw [he] at hm; cases hm

theorem steady_bind {x : Gen α} {f : α → Gen β} {p : Site} {post : β → GenState → Prop}
    (hx : Steady x) (hf : ∀ a, Answers env R (fun s => s.fn.site = p) (f a) post) :
    Answers env R (fun s => s.fn.site = p) (x >>= f) post :=
  (of_steady hx).bind hf

theorem eval_bind {f : Eval → Gen β} {p : Site} {post : β → GenState → Prop}
    (hf : ∀ ev, EvalSteady ev → Answers env R (fun s => s.fn.site = p) (f ev) post) :
    Answers env R (fun s => s.fn.site = p) (Gen.eval >>= f) post := by
  unfold Gen.eval
  rw [bind_assoc]
  exact steady_bind (Gen.steady_unit.bind fun _ => Steady.pure _) fun fuel => by
    rw [pure_bind]
    exact hf _ (Gen.evalSteady fuel)

theorem modifierDef {p : Site} (i : Nat) :
    Answers env R (fun s => s.fn.site = p) (Gen.modifierDef i)
      fun d s => s.fn.site = p ∧ env.unit.modifier? i = some d := by
  intro s hs
  rw [Gen.modifierDef, Gen.bind_run, Gen.unit_run]
  dsimp only
  cases h : env.unit.modifier? i with
  | none => exact fun hm => nomatch hm
  | some d => exact ⟨hs, rfl⟩

theorem functionDef {p : Site} (i : Nat) :
    Answers env R (fun s => s.fn.site = p) (Gen.functionDef i)
      fun d s => s.fn.site = p ∧ env.unit.function? i = some d := by
  intro s hs
  rw [Gen.functionDef, Gen.bind_run, Gen.unit_run]
  dsimp only
  cases h : env.unit.function? i with
  | none => exact fun hm => nomatch hm
  | some d => exact ⟨hs, rfl⟩

theorem takeLoops {p : Site} :
    Answers env R (fun s => s.fn.site = p) Gen.takeLoops
      fun ls s => s.fn.site = ⟨[], p.modifierDepth, p.chain⟩ ∧ ls = p.loops := by
  intro s hs
  subst hs
  exact ⟨rfl, rfl⟩

theorem restoreLoops {ls : List LoopTargets} {q : Option Nat} {ch : Option Chain} :
    Answers env R (fun s => s.fn.site = ⟨[], q, ch⟩) (Gen.restoreLoops ls)
      fun _ s => s.fn.site = ⟨ls, q, ch⟩ := by
  intro s hs
  show (⟨ls, s.fn.modifierDepth, s.fn.chain⟩ : Site) = _
  rw [show s.fn.modifierDepth = q from congrArg Site.modifierDepth hs,
    show s.fn.chain = ch from congrArg Site.chain hs]

end Answers

namespace Places

variable {env : Env} {p : Site} {errs errs' : List LowerError} {holds holds' : Bool}

theorem congr {m : Gen Unit} (h : Places env p errs holds m) (he : errs = errs') (hh : holds = holds') :
    Places env p errs' holds' m :=
  he ▸ hh ▸ h

theorem steady_bind {α : Type} {x : Gen α} {f : α → Gen Unit} (hx : Steady x)
    (hf : ∀ a, Places env p errs holds (f a)) : Places env p errs holds (x >>= f) :=
  (Answers.of_steady hx).bind hf

theorem steady {m : Gen Unit} (h : Steady m) : Places env p [] false m :=
  (Answers.of_steady (R := fun _ => False) h).mono (fun _ h => h.elim) fun _ _ hs =>
    ⟨hs, rfl, fun h => nomatch h⟩

theorem bind {x : Gen Unit} {f : Unit → Gen Unit} {e₁ e₂ : List LowerError} {h₁ h₂ : Bool}
    (hx : Places env p e₁ h₁ x) (hf : ∀ u, Places env p e₂ h₂ (f u)) :
    Places env p (e₁ ++ e₂) (h₁ || h₂) (x >>= f) := by
  intro s hs
  have h := hx s hs
  rw [Gen.bind_run]
  match hr : x env s, h with
  | .error _, h => exact fun hm => (h hm).imp (List.mem_append_left _) id
  | .ok (u, s'), ⟨hs', he₁, hh₁⟩ =>
    refine (hf u s' hs').mono (fun e he => he.imp (List.mem_append_right _) id) ?_
    rintro _ s'' ⟨hs'', he₂, hh₂⟩
    refine ⟨hs'', by rw [he₁, he₂]; rfl, fun hh => ?_⟩
    rcases Bool.or_eq_true_iff.mp hh with h | h
    · exact hh₁ h
    · exact hh₂ h

theorem eval_bind {f : Eval → Gen Unit} (hf : ∀ ev, EvalSteady ev → Places env p errs holds (f ev)) :
    Places env p errs holds (Gen.eval >>= f) := by
  unfold Gen.eval
  rw [bind_assoc]
  exact steady_bind (Gen.steady_unit.bind fun _ => Steady.pure _) fun fuel => by
    rw [pure_bind]
    exact hf _ (Gen.evalSteady fuel)

theorem loop {b c : Nat} {m : Gen Unit} {f : Unit → Gen Unit} {e₁ e₂ : List LowerError} {h₁ h₂ : Bool}
    (hm : Places env ⟨⟨b, c⟩ :: p.loops, p.modifierDepth, p.chain⟩ e₁ h₁ m)
    (hf : ∀ u, Places env p e₂ h₂ (f u)) :
    Places env p (e₁ ++ e₂) (h₁ || h₂) (Gen.pushLoop b c >>= fun _ => m >>= fun _ => Gen.popLoop >>= f) := by
  refine (Answers.modifyFn (q := ⟨⟨b, c⟩ :: p.loops, p.modifierDepth, p.chain⟩)
    fun c' hc => by rw [← hc]; rfl).bind fun _ => ?_
  refine (hm.mono (fun e he => he.imp (List.mem_append_left _) id) fun _ _ hs => hs).bind fun u => ?_
  refine Answers.of_fact fun ⟨he₁, hh₁⟩ => ?_
  refine (Answers.modifyFn (q := p) fun c' hc => ?_).bind fun _ => ?_
  · -- leaving the loop drops the loop that was entered
    obtain ⟨loops, depth, chain⟩ := p
    simp only [FnState.site, Site.mk.injEq] at hc ⊢
    obtain ⟨h₁, h₂, h₃⟩ := hc
    simp [h₁, h₂, h₃]
  refine (hf u).mono (fun e he => he.imp (List.mem_append_right _) id) ?_
  rintro _ s ⟨hs, he₂, hh₂⟩
  exact ⟨hs, by rw [he₁, he₂]; rfl, fun hh => (Bool.or_eq_true_iff.mp hh).elim hh₁ hh₂⟩

end Places

namespace Gen

variable {env : Env} {p : Site}

theorem steady_declareLocal (v : Nat) : Steady (declareLocal v) :=
  (steady_varDecl _).bind fun _ => (steady_freshLocal _).bind fun _ =>
    (steady_declareVar _ _).bind fun _ => Steady.pure _

theorem steady_declaration (node : Nat) (vars : List (Option Nat)) (init : Option Expr) :
    Steady (declaration node vars init) := by
  unfold declaration
  cases init with
  | none =>
    exact (Steady.forIn (fun _ _ => (steady_varDecl _).bind fun _ => (steady_defaultValue _ _).bind fun _ =>
      (steady_declareLocal _).bind fun _ => (steady_store _ _ _ _).bind fun _ => Steady.pure _) _).bind
        fun _ => Steady.pure _
  | some init =>
    refine steady_eval_bind fun ev hev => (hev.values _).bind fun values =>
      (Steady.lift (placed_alignComponents _ _ _)).bind fun pairing => ?_
    refine (Steady.forIn (fun x _ => ?_) _).bind fun _ => Steady.pure _
    obtain ⟨var, source⟩ := x
    dsimp only
    split
    · exact (steady_declareLocal _).bind fun _ => (steady_store _ _ _ _).bind fun _ => Steady.pure _
    · exact Steady.pure _

theorem steady_returnStmt (node : Nat) (value : Option Expr) : Steady (returnStmt node value) := by
  unfold returnStmt
  extract_lets leave
  have hleave : ∀ u, Steady (leave u) := by
    intro u
    dsimp -zeta only [leave]
    refine steady_get.bind fun st => ?_
    split
    · exact steady_jumpAndDetach _
    · exact Steady.throw rfl
  cases value with
  | none => exact hleave ()
  | some e =>
    refine steady_eval_bind fun ev hev => (hev.values _).bind fun values => steady_get.bind fun st => ?_
    refine Steady.ite (Steady.throw_bind rfl _) ?_
    exact (Steady.forIn (fun _ _ => (steady_store _ _ _ _).bind fun _ => Steady.pure _) _).bind hleave

theorem places_leaveLoop (err : LowerError) (target : LoopTargets → Nat) :
    Places env p (if p.inLoop then [] else [err]) false
      (do
        let some l := (← get).fn.loops.head? | throw err
        jumpAndDetach (target l)) := by
  refine Answers.get_at.bind fun st => Answers.of_fact fun hst => ?_
  have hl : st.fn.loops = p.loops := congrArg Site.loops hst
  rw [hl]
  cases hp : p.loops with
  | nil => exact Answers.throw fun _ => .inl (by simp [Site.inLoop, hp])
  | cons l ls => exact (Places.steady (steady_jumpAndDetach _)).congr (by simp [Site.inLoop, hp]) rfl

theorem places_breakLoop (fuel id : Nat) :
    Places env p (Stmt.misplaced ⟨id, .breakLoop⟩ p.inLoop p.inModifier)
      (Stmt.holdsPlaceholder ⟨id, .breakLoop⟩) (stmt (fuel + 1) ⟨id, .breakLoop⟩) := by
  rw [stmt]
  exact places_leaveLoop _ LoopTargets.breakTo

theorem places_continueLoop (fuel id : Nat) :
    Places env p (Stmt.misplaced ⟨id, .continueLoop⟩ p.inLoop p.inModifier)
      (Stmt.holdsPlaceholder ⟨id, .continueLoop⟩) (stmt (fuel + 1) ⟨id, .continueLoop⟩) := by
  rw [stmt]
  exact places_leaveLoop _ LoopTargets.continueTo

/-- What expanding the chain from depth `depth` gives: a misplaced-statement error of some body
it expands, or a success back at the site with every body it reached clear. -/
def ExpandPlaces (env : Env) (m : Gen Unit) (depth : Nat) : Prop :=
  ∀ p : Site, Answers env (p.Raises env) (fun s => s.fn.site = p) m
    fun _ s => s.fn.site = p ∧ ∃ c, p.chain = some c ∧ c.ClearFrom env depth

theorem places_placeholder {fuel : Nat} (hx : ∀ depth, ExpandPlaces env (expand fuel depth) depth)
    (id : Nat) :
    Places env p (Stmt.misplaced ⟨id, .placeholder⟩ p.inLoop p.inModifier)
      (Stmt.holdsPlaceholder ⟨id, .placeholder⟩) (stmt (fuel + 1) ⟨id, .placeholder⟩) := by
  rw [stmt]
  dsimp -zeta only [Stmt.kind]
  refine Answers.get_at.bind fun st => Answers.of_fact fun hst => ?_
  have hd : st.fn.modifierDepth = p.modifierDepth := congrArg Site.modifierDepth hst
  rw [hd]
  cases hp : p.modifierDepth with
  | none =>
    exact Answers.throw fun _ => .inl (by simp [Stmt.misplaced, StmtKind.misplaced, Stmt.id, Site.inModifier, hp])
  | some k =>
    -- the next body of the chain, expanded in place of the placeholder
    refine (hx (k + 1) p).mono (fun e he => .inr he) ?_
    rintro _ s ⟨hs, c, hc, hclear⟩
    refine ⟨hs, by simp [Stmt.misplaced, StmtKind.misplaced, Site.inModifier, hp], fun _ k' c' hk hc' => ?_⟩
    rw [hp] at hk
    cases hk
    rw [hc] at hc'
    cases hc'
    exact hclear

section Body

variable {fuel : Nat}
  (hs : ∀ s p, Places env p (s.misplaced p.inLoop p.inModifier) s.holdsPlaceholder (stmt fuel s))
include hs

theorem places_stmts (ss : List Stmt) :
    Places env p (Stmt.misplacedList ss p.inLoop p.inModifier) (Stmt.holdsPlaceholderList ss)
      (ss.forM (stmt fuel)) := by
  induction ss with
  | nil => exact Places.steady (Steady.pure _)
  | cons s ss ih => exact (hs s p).bind fun _ => ih

theorem places_ifThen (id : Nat) (cond : Expr) (thenBody : Stmt) (elseBody : Option Stmt) :
    Places env p (Stmt.misplaced ⟨id, .ifThen cond thenBody elseBody⟩ p.inLoop p.inModifier)
      (Stmt.holdsPlaceholder ⟨id, .ifThen cond thenBody elseBody⟩)
      (stmt (fuel + 1) ⟨id, .ifThen cond thenBody elseBody⟩) := by
  rw [stmt]
  refine Places.eval_bind fun ev hev => Places.steady_bind (hev.single cond) fun c => ?_
  refine Places.steady_bind (steady_createBlock _) fun tb =>
    Places.steady_bind (steady_createBlock _) fun join => ?_
  extract_lets finish arms
  cases elseBody with
  | none =>
    dsimp -zeta only
    rw [pure_bind]
    dsimp -zeta only [arms]
    refine (Places.steady_bind (steady_terminate _) fun _ => Places.steady_bind (steady_switchTo _) fun _ =>
      (hs thenBody p).bind fun _ => Places.steady_bind (steady_jumpIfOpen _) fun _ =>
        Places.steady (steady_switchTo _)).congr ?_ ?_
    · simp [Stmt.misplaced, StmtKind.misplaced, Stmt.misplacedOpt]
    · simp [Stmt.holdsPlaceholder, StmtKind.holdsPlaceholder, Stmt.holdsPlaceholderOpt]
  | some e =>
    dsimp -zeta only
    refine Places.steady_bind (steady_createBlock _) fun eb => ?_
    dsimp -zeta only [arms]
    refine (Places.steady_bind (steady_terminate _) fun _ => Places.steady_bind (steady_switchTo _) fun _ =>
      (hs thenBody p).bind fun _ => Places.steady_bind (steady_jumpIfOpen _) fun _ =>
        Places.steady_bind (steady_switchTo _) fun _ => (hs e p).bind fun _ =>
          Places.steady_bind (steady_jumpIfOpen _) fun _ => Places.steady (steady_switchTo _)).congr ?_ ?_
    · simp [Stmt.misplaced, StmtKind.misplaced, Stmt.misplacedOpt]
    · simp [Stmt.holdsPlaceholder, StmtKind.holdsPlaceholder, Stmt.holdsPlaceholderOpt]

theorem places_whileLoop (id : Nat) (cond : Expr) (body : Stmt) (isDoWhile : Bool) :
    Places env p (Stmt.misplaced ⟨id, .whileLoop cond body isDoWhile⟩ p.inLoop p.inModifier)
      (Stmt.holdsPlaceholder ⟨id, .whileLoop cond body isDoWhile⟩)
      (stmt (fuel + 1) ⟨id, .whileLoop cond body isDoWhile⟩) := by
  rw [stmt]
  refine Places.steady_bind (steady_createBlock _) fun header =>
    Places.steady_bind (steady_createBlock _) fun bodyBlock =>
    Places.steady_bind (steady_createBlock _) fun exit =>
    Places.steady_bind (steady_terminate _) fun _ => Places.steady_bind (steady_switchTo _) fun _ =>
    Places.eval_bind fun ev hev => Places.steady_bind (hev.single cond) fun c =>
    Places.steady_bind (steady_terminate _) fun _ => Places.steady_bind (steady_switchTo _) fun _ => ?_
  -- the body, lowered inside the loop
  refine (Places.loop (hs body _) fun _ => Places.steady_bind (steady_jumpIfOpen _) fun _ =>
    Places.steady (steady_switchTo _)).congr ?_ ?_
  · simp [Stmt.misplaced, StmtKind.misplaced, Site.inLoop, Site.inModifier]
  · simp [Stmt.holdsPlaceholder, StmtKind.holdsPlaceholder]

theorem places_forLoop (id : Nat) (init : Option Stmt) (cond : Option Expr) (update : Option Expr)
    (body : Stmt) :
    Places env p (Stmt.misplaced ⟨id, .forLoop init cond update body⟩ p.inLoop p.inModifier)
      (Stmt.holdsPlaceholder ⟨id, .forLoop init cond update body⟩)
      (stmt (fuel + 1) ⟨id, .forLoop init cond update body⟩) := by
  rw [stmt]
  dsimp -zeta only [Stmt.kind]
  extract_lets loop
  -- the loop proper, after the initializer, which stands outside it
  have hloop : ∀ u, Places env p (body.misplaced true p.inModifier ++ [])
      (body.holdsPlaceholder || false) (loop u) := by
    intro u
    dsimp -zeta only [loop]
    refine Places.steady_bind (steady_createBlock _) fun header =>
      Places.steady_bind (steady_createBlock _) fun bodyBlock =>
      Places.steady_bind (steady_createBlock _) fun step =>
      Places.steady_bind (steady_createBlock _) fun exit =>
      Places.steady_bind (steady_terminate _) fun _ => Places.steady_bind (steady_switchTo _) fun _ => ?_
    extract_lets finish iterate
    -- the body and the step, reached however the test went
    have hiterate : ∀ u, Places env p (body.misplaced true p.inModifier ++ [])
        (body.holdsPlaceholder || false) (iterate u) := by
      intro u
      dsimp -zeta only [iterate]
      refine Places.steady_bind (steady_switchTo _) fun _ => Places.loop (hs body _) fun _ =>
        Places.steady_bind (steady_jumpIfOpen _) fun _ => Places.steady_bind (steady_switchTo _) fun _ => ?_
      have hfinish : ∀ u, Places env p [] false (finish u) := fun _ =>
        Places.steady ((steady_jumpIfOpen _).bind fun _ => steady_switchTo _)
      split
      · exact Places.eval_bind fun ev hev => Places.steady_bind (hev.values _).discard hfinish
      · exact hfinish ()
    split
    · exact Places.eval_bind fun ev hev => Places.steady_bind (hev.single _) fun cv =>
        Places.steady_bind (steady_terminate _) hiterate
    · exact Places.steady_bind (steady_terminate _) hiterate
  cases init with
  | some i =>
    exact ((hs i p).bind hloop).congr (by simp [Stmt.misplaced, StmtKind.misplaced, Stmt.misplacedOpt])
      (by simp [Stmt.holdsPlaceholder, StmtKind.holdsPlaceholder, Stmt.holdsPlaceholderOpt])
  | none =>
    exact (hloop ()).congr (by simp [Stmt.misplaced, StmtKind.misplaced, Stmt.misplacedOpt])
      (by simp [Stmt.holdsPlaceholder, StmtKind.holdsPlaceholder, Stmt.holdsPlaceholderOpt])

end Body

theorem places_expand_succ {fuel : Nat}
    (hb : ∀ b p, Places env p (b.misplaced p.inLoop p.inModifier) b.holdsPlaceholder (block fuel b))
    (depth : Nat) : ExpandPlaces env (expand (fuel + 1) depth) depth := by
  intro p
  rw [expand]
  refine Answers.get_at.bind fun st => Answers.of_fact fun hst => ?_
  split
  · rename_i c hc
    have hpc : p.chain = some c := hst ▸ hc
    refine Answers.steady_bind (steady_createBlock _) fun exit => ?_
    refine Answers.get_at.bind fun st₁ => Answers.of_fact fun _ => ?_
    refine Answers.get_at.bind fun st₂ => Answers.of_fact fun hst₂ => ?_
    extract_lets savedDepth leave
    -- leaving: back to the site of the expansion, at whatever depth the body was lowered
    have hleave : ∀ q u, Answers env (p.Raises env) (fun s => s.fn.site = ⟨p.loops, q, p.chain⟩)
        (leave u) fun _ s => s.fn.site = p := by
      intro q u
      dsimp -zeta only [leave]
      refine (Answers.of_steady (steady_jumpIfOpen _)).bind fun _ =>
        (Answers.of_steady (steady_switchTo _)).bind fun _ =>
        (Answers.of_steady steady_popReturnTarget).bind fun _ =>
        (Answers.of_steady steady_popLayer).bind fun _ => Answers.modifyFn fun c' hc' => ?_
      have hd : savedDepth = p.modifierDepth := congrArg Site.modifierDepth hst₂
      obtain ⟨loops, depth', chain⟩ := p
      simp only [FnState.site, Site.mk.injEq] at hc' hd ⊢
      exact ⟨hc'.1, hd, hc'.2.2⟩
    -- a body of the chain lowered at depth `q`, the loops of the site hidden, then left
    have hinner : ∀ (q : Option Nat) (b : Block), (∀ e ∈ b.misplaced false q.isSome, c.Raises env e) →
        Answers env (p.Raises env) (fun s => s.fn.site = ⟨p.loops, q, p.chain⟩)
          (takeLoops >>= fun loops => block fuel b >>= fun _ => restoreLoops loops >>= leave)
          fun _ s => s.fn.site = p ∧ b.misplaced false q.isSome = [] ∧
            (b.holdsPlaceholder = true → ∀ k, q = some k → c.ClearFrom env (k + 1)) := by
      intro q b hraised
      refine Answers.takeLoops.bind fun loops => Answers.of_fact fun hloops => ?_
      refine ((hb b _).mono (fun e he => he.elim (fun he => ⟨c, hpc, hraised e he⟩) id)
        fun _ _ h => h).bind fun _ => Answers.of_fact fun ⟨hclear, hbelow⟩ => ?_
      refine Answers.restoreLoops.bind fun _ => ?_
      rw [hloops]
      exact (hleave q ()).mono (fun _ h => h) fun _ _ hs =>
        ⟨hs, hclear, fun hh k hk => hbelow hh k c hk hpc⟩
    split
    · -- the function body, once every modifier has been entered
      rename_i hbody
      have hdepth : depth = c.modifiers.length := beq_iff_eq.mp hbody
      refine Answers.steady_bind steady_pushLayer fun _ =>
        Answers.steady_bind (steady_pushReturnTarget _) fun _ => ?_
      refine (Answers.modifyFn fun _ hc' => by subst hc'; rfl).bind fun _ =>
        (hinner none c.body fun e he => ⟨_, _, _, .body, he⟩).mono (fun _ h => h)
          fun _ _ ⟨hs, hclear, _⟩ => ⟨hs, c, hpc, ?_⟩
      rw [hdepth]
      exact Chain.clearFrom_length hclear
    · -- the modifier at this depth, with its arguments bound
      split
      · rename_i use huse
        refine (Answers.ask fun env => env.placed_resolveModifier _ _).bind fun m =>
          Answers.of_fact fun hm => ?_
        refine (Answers.modifierDef m).bind fun d => Answers.of_fact fun hd => ?_
        have hlayer : c.Layer env depth true d.body := .modifier huse hm hd
        extract_lets enter
        have henter : ∀ u, Answers env (p.Raises env) (fun s => s.fn.site = p) (enter u)
            fun _ s => s.fn.site = p ∧ ∃ c', p.chain = some c' ∧ c'.ClearFrom env depth := by
          intro u
          dsimp -zeta only [enter]
          refine Answers.eval_bind fun ev hev => Answers.steady_bind
            (Steady.mapM fun _ => (hev.single _).bind fun _ => Steady.pure _) fun args => ?_
          refine Answers.steady_bind steady_pushLayer fun _ => Answers.steady_bind
            (Steady.forIn (fun ⟨_, _, _⟩ _ => (steady_varDecl _).bind fun _ =>
              (steady_freshLocal _).bind fun _ => (steady_declareVar _ _).bind fun _ =>
                (steady_store _ _ _ _).bind fun _ => Steady.pure _) _) fun _ => ?_
          refine Answers.steady_bind (steady_pushReturnTarget _) fun _ => ?_
          exact (Answers.modifyFn fun _ hc' => by subst hc'; rfl).bind fun _ =>
            (hinner (some depth) d.body fun e he => ⟨_, _, _, hlayer, he⟩).mono (fun _ h => h)
              fun _ _ ⟨hs, hclear, hbelow⟩ => ⟨hs, c, hpc,
                Chain.clearFrom_modifier hlayer hclear fun hh => hbelow hh depth rfl⟩
        exact Answers.ite (Answers.throw_placed_bind rfl _) (henter ())
      · exact Answers.throw_placed rfl
  · exact Answers.steady_bind steady_read fun _ => Answers.steady_bind (steady_contractDef _) fun _ =>
      Answers.throw_placed rfl

/-- What lowering with `fuel` gives at every site: each statement and block raises a
misplaced-statement error only where it lists one or a body it expands does, and each expansion
of the chain answers as `ExpandPlaces` says. -/
structure BodyPlaces (env : Env) (fuel : Nat) : Prop where
  stmt : ∀ s p, Places env p (s.misplaced p.inLoop p.inModifier) s.holdsPlaceholder (Gen.stmt fuel s)
  block : ∀ b p, Places env p (b.misplaced p.inLoop p.inModifier) b.holdsPlaceholder (Gen.block fuel b)
  expand : ∀ depth, ExpandPlaces env (Gen.expand fuel depth) depth

section Step

variable {fuel : Nat} (h : BodyPlaces env fuel)
include h

theorem places_stmt_succ (s : Stmt) (p : Site) :
    Places env p (s.misplaced p.inLoop p.inModifier) s.holdsPlaceholder (stmt (fuel + 1) s) := by
  obtain ⟨id, kind⟩ := s
  cases kind with
  | block b =>
    rw [stmt]
    exact (h.block b p).congr (by simp [Stmt.misplaced, StmtKind.misplaced])
      (by simp [Stmt.holdsPlaceholder, StmtKind.holdsPlaceholder])
  | declare vars init =>
    rw [stmt]
    exact Places.steady (steady_declaration _ _ _)
  | expr e =>
    rw [stmt]
    exact Places.eval_bind fun ev hev => Places.steady (hev.values e).discard
  | ifThen cond thenBody elseBody => exact places_ifThen h.stmt id cond thenBody elseBody
  | whileLoop cond body isDoWhile => exact places_whileLoop h.stmt id cond body isDoWhile
  | forLoop init cond update body => exact places_forLoop h.stmt id init cond update body
  | continueLoop => exact places_continueLoop fuel id
  | breakLoop => exact places_breakLoop fuel id
  | returnWith value =>
    rw [stmt]
    exact Places.steady (steady_returnStmt _ _)
  | throwStmt =>
    rw [stmt]
    exact Places.steady (steady_revertBlock.bind steady_jumpAndDetach)
  | placeholder => exact places_placeholder h.expand id
  | inlineAssembly =>
    rw [stmt]
    exact Answers.throw_placed rfl

theorem places_block_succ (b : Block) (p : Site) :
    Places env p (b.misplaced p.inLoop p.inModifier) b.holdsPlaceholder (block (fuel + 1) b) := by
  rw [block]
  exact (places_stmts h.stmt b.stmts).congr (Block.misplaced_eq _ _ _).symm
    (Block.holdsPlaceholder_eq _).symm

end Step

theorem bodyPlaces (fuel : Nat) : BodyPlaces env fuel := by
  induction fuel with
  | zero =>
    refine ⟨fun _ _ => ?_, fun _ _ => ?_, fun _ _ => ?_⟩
    · rw [stmt]
      exact Answers.throw_placed rfl
    · rw [block]
      exact Answers.throw_placed rfl
    · rw [expand]
      exact Answers.throw_placed rfl
  | succ fuel ih => exact ⟨places_stmt_succ ih, places_block_succ ih, places_expand_succ ih.block⟩

theorem steady_stmtFuel (uses : Nat) : Steady (stmtFuel uses) :=
  steady_unit.bind fun _ => Steady.pure _

theorem answers_functionBody (f : Nat) :
    Answers env (fun e => ∃ d body, env.unit.function? f = some d ∧ d.body = some body ∧
        (bodyChain f d body).Raises env e)
      (fun s => s.fn.site = p) (functionBody f) fun _ s => s.fn.site = p ∧
        ∃ d body, env.unit.function? f = some d ∧ d.body = some body ∧
          (bodyChain f d body).ClearFrom env 0 := by
  rw [functionBody]
  refine (Answers.functionDef f).bind fun d => Answers.of_fact fun hd => ?_
  split
  · rename_i body hbody
    refine Answers.get_at.bind fun st => Answers.of_fact fun hst => ?_
    refine Answers.get_at.bind fun st' => Answers.of_fact fun hst' => ?_
    refine (Answers.modifyFn (q := ⟨p.loops, none, some (bodyChain f d body)⟩)
      fun _ hc => by subst hc; rfl).bind fun _ => ?_
    refine Answers.steady_bind (steady_stmtFuel _) fun fuel => ?_
    refine (((bodyPlaces fuel).expand 0 _).mono (fun e he => ?_) fun _ _ h => h).bind fun _ =>
      Answers.of_fact fun ⟨c, hc, hclear⟩ => ?_
    · obtain ⟨c, hc, hraises⟩ := he
      cases hc
      exact ⟨d, body, hd, hbody, hraises⟩
    cases hc
    refine (Answers.modifyFn (q := p) fun c hc => ?_).mono (fun _ h => h) fun _ _ hs =>
      ⟨hs, d, body, hd, hbody, hclear⟩
    have hchain : st.fn.chain = p.chain := congrArg Site.chain hst
    have hdepth : st'.fn.modifierDepth = p.modifierDepth := congrArg Site.modifierDepth hst'
    obtain ⟨loops, depth, chain⟩ := p
    simp only [FnState.site, Site.mk.injEq] at hc hchain hdepth ⊢
    exact ⟨hc.1, hdepth, hchain⟩
  · exact Answers.throw_placed rfl

/-- Lowering a function body rejects exactly the misplaced statements of the bodies it expands:
a `break` or `continue` that no loop of its own body encloses, and a `_` in the function body
rather than in a modifier's. A failure with such an error comes from one of those statements in
a body of the function's chain; a success restores the site and leaves every body the
placeholders reach free of them. -/
theorem misplaced_statements_rejected (env : Env) (σ : GenState) (f : Nat) :
    (∀ e, functionBody f env σ = .error e → e.isMisplaced = true →
      ∃ d body, env.unit.function? f = some d ∧ d.body = some body ∧
        (bodyChain f d body).Raises env e) ∧
    (∀ σ', functionBody f env σ = .ok ((), σ') → σ'.fn.site = σ.fn.site ∧
      ∃ d body, env.unit.function? f = some d ∧ d.body = some body ∧
        (bodyChain f d body).ClearFrom env 0) := by
  have h : Reads _ (functionBody f env σ) _ := answers_functionBody f σ rfl
  unfold Reads at h
  constructor
  · intro e he
    rw [he] at h
    exact h
  · intro σ' hok
    rw [hok] at h
    exact h

end Gen

end ContractCfg.Lower
