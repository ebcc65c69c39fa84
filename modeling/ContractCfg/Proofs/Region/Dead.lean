import ContractCfg.Proofs.Region.Statements

/-!
Code after an exit. A `return`, `break`, `continue` or `throw`, a call of `revert` or
`selfdestruct`, an `if` both of whose branches exit and a block with an exiting statement end in
a fresh block that nothing leads to. Lowering such a statement leaves the builder standing in a
sealed region of blocks it made (`Exits`), and code lowered after it only adds to that region:
every block it writes or makes, but the shared failure blocks, joins the region, and it changes
no other block (`Sealed.extend`).
-/

namespace ContractCfg.Source

/-- Whether the expression is a call of `revert` or `selfdestruct`, after which nothing runs. -/
def Expr.halts : Expr → Bool
  | .mk _ (.call (.mk _ (.ident _ (.builtin b)) _) _ .regular _ _) _ =>
    b == .revert || b == .selfDestruct
  | _ => false

theorem Expr.eq_of_halts {e : Expr} (h : e.halts = true) :
    ∃ id id' name ty ty' args value gas b, e = .mk id (.call (.mk id' (.ident name (.builtin b)) ty')
      args .regular value gas) ty ∧ (b = .revert ∨ b = .selfDestruct) := by
  unfold Expr.halts at h
  split at h
  · refine ⟨_, _, _, _, _, _, _, _, _, rfl, ?_⟩
    simpa using h
  · cases h

mutual
/-- Whether every path through `s` ends in an exit: a `return`, `break`, `continue`, `throw`,
`revert()` or `selfdestruct`. -/
def Stmt.exits : Stmt → Bool
  | .mk _ kind => StmtKind.exits kind

/-- Whether every path through a statement of form `kind` ends in an exit. -/
def StmtKind.exits : StmtKind → Bool
  | .block b => Block.exits b
  | .expr e => e.halts
  | .ifThen _ t f => Stmt.exits t && Stmt.exitsOpt f
  | .breakLoop | .continueLoop | .returnWith _ | .throwStmt => true
  | _ => false

/-- Whether a block holds an exiting statement. -/
def Block.exits : Block → Bool
  | .mk _ stmts => Stmt.exitsList stmts

/-- Whether an optional statement is there and exits. -/
def Stmt.exitsOpt : Option Stmt → Bool
  | some s => Stmt.exits s
  | none => false

/-- Whether a list of statements holds an exiting statement. -/
def Stmt.exitsList : List Stmt → Bool
  | [] => false
  | s :: ss => Stmt.exits s || Stmt.exitsList ss
end

theorem Block.exits_eq (b : Block) : b.exits = Stmt.exitsList b.stmts := by
  cases b
  rfl

theorem Stmt.exitsList_iff {ss : List Stmt} :
    Stmt.exitsList ss = true ↔ ∃ pre x rest, ss = pre ++ x :: rest ∧ x.exits = true := by
  induction ss with
  | nil => simp [Stmt.exitsList]
  | cons s ss ih =>
    simp only [Stmt.exitsList, Bool.or_eq_true, ih]
    constructor
    · rintro (hs | ⟨pre, x, rest, rfl, hx⟩)
      · exact ⟨[], s, ss, rfl, hs⟩
      · exact ⟨s :: pre, x, rest, rfl, hx⟩
    · rintro ⟨pre, x, rest, heq, hx⟩
      cases pre with
      | nil =>
        obtain ⟨rfl, rfl⟩ := List.cons.inj heq
        exact .inl hx
      | cons p pre =>
        obtain ⟨rfl, rfl⟩ := List.cons.inj heq
        exact .inr ⟨pre, x, rest, rfl, hx⟩

end ContractCfg.Source

namespace ContractCfg.Lower

open ContractCfg.Source
open ContractCfg.IR ContractCfg.IR.FnBuilder

/-- The watch that asks nothing of a wired state but its loop and return targets and a counter
that stays at least `n`. -/
def Watch.plain (n : Nat) (s : GenState) : Watch :=
  ⟨∅, ∅, s.fn.builder, ∅, n, s.fn.loops, s.fn.returnTargets⟩

theorem Guard.plain {s : GenState} {n : Nat} (hw : Wired s) (hn : n ≤ s.fn.builder.fn.body.nextId) :
    Guard (Watch.plain n s) s :=
  ⟨hw, ⟨fun _ h => h.elim, fun _ _ _ h => h.elim, fun _ _ h => h.elim, fun h => h.elim⟩,
    ⟨fun _ h => h.elim, fun _ h => h.elim, fun h => h.elim, rfl⟩, fun _ h => h.elim, hn, rfl, rfl⟩

/-- Lowering code that keeps the builder wired and never lowers the block counter. -/
def Grows {α : Type} (m : Gen α) : Prop :=
  ∀ n, Ensures (fun s => Wired s ∧ n ≤ s.fn.builder.fn.body.nextId) m
    fun _ s => Wired s ∧ n ≤ s.fn.builder.fn.body.nextId

/-- The builder stands in a sealed region of blocks made once the counter had reached `n`. -/
def Stranded (n : Nat) (s : GenState) : Prop :=
  ∃ R : Set Nat, (∀ k ∈ R, n ≤ k) ∧ Sealed R s ∧ s.fn.builder.current ∈ R

/-- Lowering code that exits: run on a wired builder, it leaves the builder wired and standing
in a sealed region of blocks it made. -/
def Exits {α : Type} (m : Gen α) : Prop :=
  ∀ n, Ensures (fun s => Wired s ∧ n ≤ s.fn.builder.fn.body.nextId) m fun _ s => Wired s ∧ Stranded n s

/-- The blocks made from `s` to `s'`, but the shared failure blocks. -/
def madeBetween (s s' : GenState) : Set Nat :=
  {k | s.fn.builder.fn.body.nextId ≤ k ∧ k < s'.fn.builder.fn.body.nextId ∧ k ∉ s'.fn.shared}

variable {α β : Type}

theorem Confines.grows {m : Gen α} (hm : Confines m) : Grows m := by
  rintro n env s a s' ⟨hw, hn⟩ hrun
  have g := hm (Watch.plain n s) env s a s' (Guard.plain hw hn) hrun
  exact ⟨g.wired, g.floor⟩

theorem Exits.grows_bind {m : Gen α} {f : α → Gen β} (hm : Grows m) (hf : ∀ a, Exits (f a)) :
    Exits (m >>= f) :=
  fun n => (hm n).bind fun a => hf a n

theorem Exits.guard {m : Gen α} (he : Exits m) (hm : Confines m) (w : Watch) :
    Ensures (Guard w) m fun _ s => Guard w s ∧ Stranded w.floor s := by
  intro env s a s' h hrun
  exact ⟨hm w env s a s' h hrun, (he w.floor env s a s' ⟨h.wired, h.floor⟩ hrun).2⟩

theorem sealed_createBlock {s : GenState} (hw : Wired s) (label : String) :
    Sealed {s.fn.builder.fn.body.nextId} (s.withBuilder (s.fn.builder.createBlock label).2) := by
  refine ⟨fun k hk => ?_, fun j t ht hts => ?_, fun k hk hks => ?_, fun he => ?_⟩ <;>
    simp only [GenState.withBuilder_builder, createBlock_nextId, createBlock_entry,
      Set.mem_singleton_iff] at *
  · omega
  · rw [successors_createBlock] at ht
    split at ht
    · cases ht
    · have := hw.edges j t ht
      omega
  · have := hw.named k hk
    omega
  · have := hw.entry
    omega

theorem Exits.discard {m : Gen α} (hm : Exits m) : Exits (discard m) :=
  fun n => (hm n).discard

theorem Exits.ite {c : Prop} [Decidable c] {x y : Gen α} (hx : Exits x) (hy : Exits y) :
    Exits (if c then x else y) :=
  fun n => Ensures.ite (hx n) (hy n)

theorem Exits.throw (e : LowerError) : Exits (throw e : Gen α) :=
  fun _ => Ensures.throw

theorem Exits.get_bind {f : GenState → Gen α} (hf : ∀ st, Exits (f st)) : Exits (get >>= f) :=
  fun n => Ensures.get_bind fun st => (hf st n).weaken fun _ h => h.1

theorem successors_congr {b b' : FnBuilder} {j : Nat} (h : b'.block? j = b.block? j) :
    b'.fn.body.successors j = b.fn.body.successors j :=
  successors_eq_of_terms (by rw [h])

theorem isSome_of_mem_successors {b : FnBuilder} {j t : Nat} (ht : t ∈ b.fn.body.successors j) :
    (b.block? j).isSome := by
  cases hj : b.block? j with
  | none =>
    rw [successors_of_block?_none hj] at ht
    cases ht
  | some blk => rfl

theorem Sealed.extend {m : Gen α} (hm : Confines m) {R : Set Nat} {env : Env} {s s' : GenState}
    {a : α} (hw : Wired s) (hR : Sealed R s) (hc : s.fn.builder.current ∈ R)
    (hrun : m env s = .ok (a, s')) :
    Wired s' ∧ Sealed (R ∪ madeBetween s s') s' ∧ s'.fn.builder.current ∈ R ∪ madeBetween s s' ∧
      ∀ k < s.fn.builder.fn.body.nextId, k ∉ R → s'.fn.builder.block? k = s.fn.builder.block? k := by
  -- keep `R` sealed and every older block outside `R` as it is
  let w : Watch := ⟨R, {k | k < s.fn.builder.fn.body.nextId ∧ k ∉ R}, s.fn.builder, ∅,
    s.fn.builder.fn.body.nextId, s.fn.loops, s.fn.returnTargets⟩
  have g₀ : Guard w s :=
    ⟨hw, hR, ⟨fun _ hk => hk.1, fun _ _ => rfl, fun h => h.2 hc, rfl⟩, fun _ h => h.elim, le_rfl, rfl, rfl⟩
  have g := hm w env s a s' g₀ hrun
  have hsame : ∀ k < s.fn.builder.fn.body.nextId, k ∉ R →
      s'.fn.builder.block? k = s.fn.builder.block? k := fun k hk hkR => g.framed.same k ⟨hk, hkR⟩
  -- the loop and return targets are the old ones
  have hold : ∀ k ∈ loopTargets s'.fn.loops ++ s'.fn.returnTargets, k < s.fn.builder.fn.body.nextId := by
    intro k hk
    rw [g.loops, g.returns] at hk
    exact hw.named k (by rw [FnState.targets_eq]; exact List.mem_append_left _ hk)
  refine ⟨g.wired, ⟨fun k hk => ?_, fun j t ht htD => ?_, fun k hk hkD => ?_, fun he => ?_⟩, ?_, hsame⟩
  · rcases hk with hk | hk
    exacts [g.sealed.below k hk, hk.2.1]
  · rcases htD with htR | ⟨ht₁, -, -⟩
    · exact .inl (g.sealed.closed j t ht htR)
    by_cases hjR : j ∈ R
    · exact .inl hjR
    -- an edge into a new block leaves a new block: the old blocks outside `R` kept their edges
    refine .inr ⟨Nat.le_of_not_lt fun hj => ?_, g.wired.below j (isSome_of_mem_successors ht),
      fun hjs => ?_⟩
    · rw [successors_congr (hsame j hj hjR)] at ht
      have := hw.edges j t ht
      omega
    · obtain ⟨blk, hb, -, hnone, -⟩ := g.wired.quiet j hjs
      simp only [block?] at hb
      simp only [Body.successors, hb, hnone, List.not_mem_nil] at ht
  · rcases hkD with hkR | ⟨hk₁, -, hk₃⟩
    · exact g.sealed.targets k hk hkR
    rw [FnState.targets_eq, List.mem_append] at hk
    rcases hk with hk | hk
    · have := hold k hk
      omega
    · exact hk₃ hk
  · have hentry : s'.fn.builder.fn.body.entry < s.fn.builder.fn.body.nextId := by
      rw [g.framed.entry]
      exact hw.entry
    rcases he with he | ⟨he₁, -, -⟩
    · exact g.sealed.entry he
    · omega
  · by_cases hcR : s'.fn.builder.current ∈ R
    · exact .inl hcR
    refine .inr ⟨Nat.le_of_not_lt fun hlt => g.framed.away ⟨hlt, hcR⟩, g.wired.current, g.wired.free⟩

theorem Exits.bind_confines {m : Gen α} {f : α → Gen β} (hm : Exits m) (hf : ∀ a, Confines (f a)) :
    Exits (m >>= f) := by
  rintro n env s b s' hpre hrun
  obtain ⟨a, s₁, h₁, h₂⟩ := Gen.bind_ok hrun
  obtain ⟨hw₁, R, hRn, hR, hc⟩ := hm n env s a s₁ hpre h₁
  obtain ⟨hw', hD, hc', -⟩ := Sealed.extend (hf a) hw₁ hR hc h₂
  refine ⟨hw', R ∪ madeBetween s₁ s', fun k hk => ?_, hD, hc'⟩
  rcases hk with hk | ⟨hk, -, -⟩
  · exact hRn k hk
  · have := hRn _ hc
    have := hw₁.current
    omega

namespace Gen

theorem exits_startBlock (label : String) : Exits (startBlock label) := by
  rintro n env s k s' ⟨hw, hn⟩ hrun
  rw [startBlock_run] at hrun
  cases hrun
  have g := (Guard.plain hw hn).createBlock label
  have hs : ((s.fn.builder.createBlock label).2.block? s.fn.builder.fn.body.nextId).isSome := by
    rw [block?_createBlock, if_pos rfl]
    rfl
  refine ⟨(g.switch (Set.notMem_empty _) (.inl rfl) hs).wired, {s.fn.builder.fn.body.nextId},
    fun k hk => ?_, (sealed_createBlock hw label).congr rfl rfl, rfl⟩
  rw [Set.mem_singleton_iff.mp hk]
  exact hn

theorem grows_terminate (t : Terminator) : Grows (terminate t) := by
  rintro n env s u s' ⟨hw, hn⟩ hrun
  have g := terminate_ensures (w := Watch.plain n s) (fun _ _ h => h.elim) env s u s' (Guard.plain hw hn) hrun
  exact ⟨g.wired, g.floor⟩

theorem exits_jumpAndDetach (target : Nat) : Exits (jumpAndDetach target) :=
  Exits.grows_bind (grows_terminate _) fun _ => (exits_startBlock _).discard

theorem confines_revertBlock : Confines revertBlock := fun _ =>
  revertBlock_ensures.mono fun _ _ h => h.1

theorem exits_eval_bind {f : Eval → Gen α} (hf : ∀ fuel, Exits (f ⟨values fuel, single fuel, place fuel⟩)) :
    Exits (eval >>= f) := by
  unfold eval
  rw [bind_assoc]
  refine Exits.grows_bind (Confines.of_fnFixed fnFixed_exprFuel).grows fun fuel => ?_
  rw [pure_bind]
  exact hf fuel

theorem values_builtin (fuel id id' : Nat) (name : String) (ty ty' : TypeName) (args : List Expr)
    (value gas : Option Expr) (b : Source.Builtin) :
    values (fuel + 1) (.mk id (.call (.mk id' (.ident name (.builtin b)) ty') args .regular value gas) ty) =
      builtinCall ⟨values fuel, single fuel, place fuel⟩ id b args := by
  rw [values]
  rfl

theorem exits_values {e : Expr} (he : e.halts = true) (fuel : Nat) : Exits (values fuel e) := by
  obtain ⟨id, id', name, ty, ty', args, value, gas, b, rfl, hb⟩ := Expr.eq_of_halts he
  cases fuel with
  | zero =>
    rw [values]
    exact Exits.throw _
  | succ fuel =>
    rw [values_builtin]
    rcases hb with rfl | rfl
    · exact Exits.grows_bind confines_revertBlock.grows fun k =>
        (exits_jumpAndDetach k).bind_confines fun _ => Confines.pure _
    · have hev := evalConfines fuel
      exact Exits.grows_bind (confines_expectArgs _ _ _).grows fun _ =>
        Exits.grows_bind (hev.single _).grows fun _ =>
        Exits.grows_bind (confines_emitMany _ _).discard.grows fun _ =>
        Exits.grows_bind (Confines.of_fnFixed fnFixed_returnValues).grows fun _ =>
        Exits.grows_bind (grows_terminate _) fun _ =>
          (exits_startBlock _).discard.bind_confines fun _ => Confines.pure _

section Join

variable {w : Watch}

theorem jumpIfOpen_inside (target : Nat) :
    Ensures (fun s => Guard w s ∧ s.fn.builder.current ∈ w.sealed) (jumpIfOpen target)
      fun _ => Guard w := by
  rintro env s u s' ⟨h, hc⟩ hrun
  unfold jumpIfOpen at hrun
  rw [bind_run_ok (isTerminated_run env s)] at hrun
  split at hrun
  · exact terminate_ensures_inside _ env s u s' ⟨h, hc⟩ hrun
  · cases hrun
    exact h

theorem createBlock_seals (label : String) :
    Ensures (Guard w) (createBlock label) fun k s =>
      Guard { w with sealed := w.sealed ∪ {k}, made := insert k w.made } s ∧ w.floor ≤ k ∧ k ∉ w.made := by
  intro env s k s' h hrun
  rw [createBlock_run] at hrun
  cases hrun
  have g := h.createBlock label
  exact ⟨g.reseal (g.sealed.union (sealed_createBlock h.wired label)), h.floor,
    fun hk => Nat.lt_irrefl _ (h.made _ hk).1⟩

theorem ifHead_seals (cond : Expr) (e : Stmt) :
    Ensures (Guard w) (ifHead cond (some e)) fun r s =>
      Guard { w with
        sealed := w.sealed ∪ {r.join}
        made := insert r.elseBlock (insert r.join (insert r.thenBlock w.made)) } s ∧ w.floor ≤ r.join := by
  unfold ifHead
  refine eval_ensures.bind fun ev => Ensures.of_fact fun hev => (hev.single cond w).bind fun c => ?_
  refine (createBlock_ensures _).bind fun tb => Ensures.of_fact fun hf => ?_
  obtain ⟨hts, htk⟩ := hf
  refine (createBlock_seals _).bind fun join => Ensures.of_fact fun hf => ?_
  obtain ⟨hjn, hjm⟩ := hf
  dsimp only
  refine (createBlock_ensures _).bind fun eb => Ensures.of_fact fun hf => ?_
  obtain ⟨hes, hek⟩ := hf
  have htj : tb ≠ join := fun h => hjm (h ▸ .inl rfl)
  refine (terminate_ensures ?_).bind fun _ => ?_
  · simp only [Terminator.successors, List.mem_cons, List.not_mem_nil, or_false]
    rintro x (rfl | rfl)
    · rintro (hx | hx)
      exacts [hts hx, htj hx]
    · exact hes
  refine (switchTo_ensures (by exact htk) (by exact .inr (.inr (.inl rfl)))).bind fun _ => ?_
  exact Ensures.pure fun _ h => ⟨h, hjn⟩

theorem exits_ifThenElse {fuel id : Nat} {cond : Expr} {t e : Stmt}
    (hs : ∀ x, Confines (stmt fuel x)) (ht : Exits (stmt fuel t)) (he : Exits (stmt fuel e)) :
    Exits (stmt (fuel + 1) ⟨id, .ifThen cond t (some e)⟩) := by
  rintro n env s a s' ⟨hw, hn⟩ hrun
  rw [stmt_ifThen] at hrun
  obtain ⟨r, s₁, h₁, hrun⟩ := bind_ok hrun
  obtain ⟨u, s₂, h₂, hrun⟩ := bind_ok hrun
  obtain ⟨g₁, hjn⟩ := ifHead_seals cond e env s r s₁ (Guard.plain hw hn) h₁
  obtain ⟨g₂, R₁, hR₁n, hR₁, hc₁⟩ := ht.guard (hs t) _ env s₁ u s₂ g₁ h₂
  rw [ifTail] at hrun
  -- from the end of the then branch to the join, then the else branch
  obtain ⟨u, s₃, h₃, hrun⟩ := bind_ok hrun
  have g₃ := jumpIfOpen_inside r.join env s₂ u s₃ ⟨g₂.reseal (g₂.sealed.union hR₁), .inr hc₁⟩ h₃
  obtain ⟨u, s₄, h₄, hrun⟩ := bind_ok hrun
  have g₄ := switchTo_ensures (Set.notMem_empty _) (by exact .inl rfl) env s₃ u s₄ g₃ h₄
  obtain ⟨u, s₅, h₅, hrun⟩ := bind_ok hrun
  obtain ⟨g₅, R₂, hR₂n, hR₂, hc₂⟩ := he.guard (hs e) _ env s₄ u s₅ g₄ h₅
  -- from the end of the else branch to the join, where lowering goes on
  unfold joinAt at hrun
  obtain ⟨u, s₆, h₆, hrun⟩ := bind_ok hrun
  have g₆ := jumpIfOpen_inside r.join env s₅ u s₆ ⟨g₅.reseal (g₅.sealed.union hR₂), .inr hc₂⟩ h₆
  obtain ⟨hjs, rfl⟩ := switchTo_ok hrun
  refine ⟨(g₆.switch (Set.notMem_empty _) (.inr (.inl rfl)) hjs).wired, _, fun k hk => ?_,
    g₆.sealed.congr rfl rfl, .inl (.inl (.inr rfl))⟩
  rcases hk with ((hk | hk) | hk) | hk
  · exact hk.elim
  · rw [hk]
    exact hjn
  · exact hR₁n k hk
  · exact hR₂n k hk

end Join

theorem exits_forM {fuel : Nat} {xs : List Stmt} (hx : Stmt.exitsList xs = true)
    (hs : ∀ x, Confines (stmt fuel x)) (he : ∀ x : Stmt, x.exits = true → Exits (stmt fuel x)) :
    Exits (xs.forM (stmt fuel)) := by
  induction xs with
  | nil => cases hx
  | cons x xs ih =>
    by_cases hxe : x.exits = true
    · exact (he x hxe).bind_confines fun _ => Confines.forM hs
    · have hxs : Stmt.exitsList xs = true := by
        simpa [Stmt.exitsList, hxe] using hx
      exact Exits.grows_bind (hs x).grows fun _ => ih hxs

theorem exits_returnStmt (node : Nat) (value : Option Expr) : Exits (returnStmt node value) := by
  unfold returnStmt
  extract_lets jump
  -- the jump to the innermost return target, or a failure outside a function body
  have hjump : ∀ u, Exits (jump u) := by
    intro u
    dsimp -zeta only [jump]
    refine Exits.get_bind fun st => ?_
    split
    · exact exits_jumpAndDetach _
    · exact Exits.throw _
  split
  · refine exits_eval_bind fun fuel => Exits.grows_bind ((evalConfines fuel).values _).grows
      fun values => Exits.grows_bind (Confines.of_fnFixed fnFixed_get).grows fun st => ?_
    extract_lets rvs types assign
    have hassign : ∀ u, Exits (assign u) := fun _ =>
      Exits.grows_bind (Confines.forIn (fun ⟨⟨⟨_, _⟩, _⟩, _⟩ _ => (confines_store _ _ _ _).bind fun _ =>
        Confines.pure _) _).grows hjump
    exact Exits.ite (fun _ => Ensures.throw_bind _) (hassign ())
  · exact hjump ()

/-- Statements and blocks at one fuel that exit when their source does. -/
structure BodyExits (fuel : Nat) : Prop where
  stmt : ∀ x : Stmt, x.exits = true → Exits (stmt fuel x)
  block : ∀ b : Source.Block, b.exits = true → Exits (block fuel b)

theorem exits_stmt_succ {fuel : Nat} (ih : BodyExits fuel) (x : Stmt) (hx : x.exits = true) :
    Exits (stmt (fuel + 1) x) := by
  obtain ⟨id, kind⟩ := x
  cases kind with
  | ifThen cond thenBody elseBody =>
    cases elseBody with
    | none => simp [Stmt.exits, StmtKind.exits, Stmt.exitsOpt] at hx
    | some e =>
      simp only [Stmt.exits, StmtKind.exits, Stmt.exitsOpt, Bool.and_eq_true] at hx
      exact exits_ifThenElse (bodyConfines fuel).stmt (ih.stmt _ hx.1) (ih.stmt _ hx.2)
  | block b =>
    rw [stmt]
    exact ih.block b hx
  | expr e =>
    rw [stmt]
    exact exits_eval_bind fun _ => (exits_values hx _).discard
  | breakLoop =>
    rw [stmt]
    dsimp -zeta only [Stmt.kind]
    refine Exits.get_bind fun st => ?_
    split
    · exact exits_jumpAndDetach _
    · exact Exits.throw _
  | continueLoop =>
    rw [stmt]
    dsimp -zeta only [Stmt.kind]
    refine Exits.get_bind fun st => ?_
    split
    · exact exits_jumpAndDetach _
    · exact Exits.throw _
  | returnWith value =>
    rw [stmt]
    exact exits_returnStmt _ _
  | throwStmt =>
    rw [stmt]
    exact Exits.grows_bind confines_revertBlock.grows exits_jumpAndDetach
  | declare | whileLoop | forLoop | placeholder | inlineAssembly =>
    simp [Stmt.exits, StmtKind.exits] at hx

theorem bodyExits (fuel : Nat) : BodyExits fuel := by
  induction fuel with
  | zero =>
    refine ⟨fun _ _ => ?_, fun _ _ => ?_⟩
    · rw [stmt]
      exact Exits.throw _
    · rw [block]
      exact Exits.throw _
  | succ fuel ih =>
    refine ⟨exits_stmt_succ ih, fun b hb => ?_⟩
    rw [block]
    exact exits_forM (by rwa [← Block.exits_eq]) (bodyConfines fuel).stmt ih.stmt

end Gen

end ContractCfg.Lower
