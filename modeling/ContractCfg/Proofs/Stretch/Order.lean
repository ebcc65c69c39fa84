import ContractCfg.Proofs.Stretch.Expressions
import ContractCfg.Proofs.Stretch.Calm
import ContractCfg.Proofs.Lower.Alignment

/-!
The order in which the code of an expression runs the code of its operands.

A schedule says which operands the code of an expression runs, in which order, and where it
branches on the value of a condition. The code follows a schedule from a state (`InOrder`)
when, in every function completing the code of the whole expression, the run from that state
gets, with storage as it was, to the start of the first operand's code; that code is the whole
lowering of the operand, and it leads on to the rest of the schedule. Between the operands, and
from a condition to the branch it picks, nothing writes storage: the effects of an operand's
code, internal calls included, all come before any effect of the next.

Every state the schedule names lies inside the code of the expression (`Finishes`): a function
completing the end of the expression completes each of them.
-/

namespace ContractCfg.Lower

open ContractCfg.IR ContractCfg.IR.FnBuilder ContractCfg.Machine ContractCfg.Machine.Vm
open ContractCfg.Source (Expr TypeName BinaryOp CallKind)

/-- An operand of an expression: evaluated for its values, for its one value, or as a place. -/
inductive Operand where
  | values (e : Expr)
  | value (e : Expr)
  | place (e : Expr)

/-- The code lowered from `s` to `s'` is that of operand `o`: the evaluators, with some fuel, lower
`o` from `s` to `s'`. -/
def Operand.Lowers (env : Env) (s s' : GenState) : Operand → Prop
  | .values e => ∃ fuel vs, Gen.values fuel e env s = .ok (vs, s')
  | .value e => ∃ fuel v, Gen.single fuel e env s = .ok (v, s')
  | .place e => ∃ fuel p, Gen.place fuel e env s = .ok (p, s')

/-- The order in which code runs the code of operands. -/
inductive Schedule where
  /-- Nothing more is said of the code. -/
  | done
  /-- The code of an operand, then the rest. -/
  | run (o : Operand) (rest : Schedule)
  /-- The code of a condition, then `yes` when its value is not zero and `no` when it is. -/
  | test (cond : Expr) (yes no : Schedule)

/-- The operands `os` in order, then `σ`. -/
def Schedule.seq (os : List Operand) (σ : Schedule) : Schedule := os.foldr .run σ

theorem Schedule.seq_append (os₁ os₂ : List Operand) (σ : Schedule) :
    Schedule.seq (os₁ ++ os₂) σ = Schedule.seq os₁ (Schedule.seq os₂ σ) :=
  List.foldr_append

/-- Every function completing `B` completes `b`: the code up to `b` lies inside the code up to
`B`. -/
def Finishes (B b : FnBuilder) : Prop := ∀ f, Completes f B → Completes f b

/-- From the point of `c` the code goes on, with storage as it was, to the point of `e` when `v`
reads as zero and to the point of `d` otherwise, or ends the call. -/
def Forks (v : Value) (c d e : FnState) : Prop :=
  ∀ vm ls fuel, ∃ x, x.Still vm ∧ (ls.read v = .ok 0 → Crosses c.builder e.builder vm ls fuel x) ∧
    (ls.read v ≠ .ok 0 → Crosses c.builder d.builder vm ls fuel x)

/-- In every function completing `B`, the code from the point of `s` follows the schedule: calm
code up to the start of each operand's code, which is the whole lowering of the operand and a
stretch to its end; from the end of a condition, calm code to the start of the branch its value
picks. -/
inductive InOrder (env : Env) (B : FnBuilder) : GenState → Schedule → Prop
  | done (s : GenState) : InOrder env B s .done
  | run {s s₁ s₂ : GenState} {o : Operand} {rest : Schedule}
      (calm : Calm s.fn s₁.fn) (fin₁ : Finishes B s₁.fn.builder) (lowers : o.Lowers env s₁ s₂)
      (code : Stretch s₁.fn s₂.fn) (fin₂ : Finishes B s₂.fn.builder) (next : InOrder env B s₂ rest) :
      InOrder env B s (.run o rest)
  | test {s s₁ s₂ d e : GenState} {cond : Expr} {v : Value} {yes no : Schedule}
      (calm : Calm s.fn s₁.fn) (fin₁ : Finishes B s₁.fn.builder)
      (lowers : ∃ fuel, Gen.single fuel cond env s₁ = .ok (v, s₂))
      (code : Stretch s₁.fn s₂.fn) (fin₂ : Finishes B s₂.fn.builder) (fork : Forks v s₂.fn d.fn e.fn)
      (finYes : Finishes B d.fn.builder) (finNo : Finishes B e.fn.builder)
      (onYes : InOrder env B d yes) (onNo : InOrder env B e no) :
      InOrder env B s (.test cond yes no)

variable {env : Env} {B : FnBuilder}

theorem Finishes.refl (B : FnBuilder) : Finishes B B := fun _ h => h

theorem Finishes.back {c c' : FnState} (h : Finishes B c'.builder) (hp : Poised c) (he : Extends c c') :
    Finishes B c.builder :=
  fun f hf => hp.completes he (h f hf)

theorem InOrder.calm_before {s₀ s : GenState} {σ : Schedule} (h : Calm s₀.fn s.fn) (hp : Poised s.fn)
    (hi : InOrder env B s σ) : InOrder env B s₀ σ := by
  cases hi with
  | done => exact .done _
  | run calm fin₁ lowers code fin₂ next => exact .run (h.trans hp calm) fin₁ lowers code fin₂ next
  | test calm fin₁ lowers code fin₂ fork finYes finNo onYes onNo =>
    exact .test (h.trans hp calm) fin₁ lowers code fin₂ fork finYes finNo onYes onNo

/-- Lowering code that, run in `env` from a poised state satisfying `P`, ends poised with the
state extended and `Q`, and runs the code of the operands `os` in order with calm code before,
between and after them: in a builder finishing its end, a schedule followed from the end is
followed from the start with `os` in front. -/
def Orders {α : Type} (env : Env) (P : FnState → Prop) (m : Gen α) (os : List Operand)
    (Q : FnState → α → FnState → Prop) : Prop :=
  ∀ s a s', Poised s.fn → P s.fn → m env s = .ok (a, s') →
    (Poised s'.fn ∧ Extends s.fn s'.fn ∧ Q s.fn a s'.fn) ∧
      ∀ B σ, Finishes B s'.fn.builder → InOrder env B s' σ → InOrder env B s (Schedule.seq os σ)

/-- Lowering code that, run in `env` from a poised state satisfying `P`, ends poised with the
state extended, and follows schedule `σ` from its start in every builder finishing its end. -/
def Ends {α : Type} (env : Env) (P : FnState → Prop) (m : Gen α) (σ : Schedule) : Prop :=
  ∀ s a s', Poised s.fn → P s.fn → m env s = .ok (a, s') →
    (Poised s'.fn ∧ Extends s.fn s'.fn) ∧ ∀ B, Finishes B s'.fn.builder → InOrder env B s σ

/-- Lowering code that, run from a poised state, ends poised with the state extended. -/
def Extending {α : Type} (m : Gen α) : Prop :=
  ∀ env s a s', Poised s.fn → m env s = .ok (a, s') → Poised s'.fn ∧ Extends s.fn s'.fn

variable {α β : Type} {P : FnState → Prop} {Q : FnState → α → FnState → Prop}

namespace Extending

theorem of_builds {m : Gen α} (h : Builds (fun _ => True) m Q) : Extending m :=
  fun env s a s' hp hrun => have h' := h env s a s' hp trivial hrun; ⟨h'.1, h'.2.1.grows⟩

theorem of_calmly {m : Gen α} (h : Calmly m) : Extending m :=
  fun env s a s' hp hrun => have h' := h env s a s' hp hrun; ⟨h'.1, h'.2.grows⟩

theorem of_fnFixed {m : Gen α} (h : FnFixed m) : Extending m := of_calmly (Calmly.of_fnFixed h)

theorem pure (a : α) : Extending (Pure.pure a : Gen α) := of_calmly (Calmly.pure a)

theorem bind {x : Gen α} {f : α → Gen β} (hx : Extending x) (hf : ∀ a, Extending (f a)) :
    Extending (x >>= f) := by
  intro env s b s' hp hrun
  obtain ⟨a, s₁, h₁, h₂⟩ := Gen.bind_ok hrun
  obtain ⟨hp₁, he₁⟩ := hx env s a s₁ hp h₁
  obtain ⟨hp', he₂⟩ := hf a env s₁ b s' hp₁ h₂
  exact ⟨hp', he₁.trans he₂⟩

theorem ite {p : Prop} {h : Decidable p} {x y : Gen α} (hx : p → Extending x) (hy : ¬ p → Extending y) :
    Extending (if p then x else y) := by
  by_cases hc : p
  · rw [if_pos hc]; exact hx hc
  · rw [if_neg hc]; exact hy hc

end Extending

namespace Gen

theorem extending_emit (mk : Value → Instr) : Extending (emit mk) :=
  fun _ _ _ _ hp h => have h' := emit_stretch hp h; ⟨h'.1, h'.2.1⟩

theorem extending_emitMany (n : Nat) (mk : List Value → Instr) : Extending (emitMany n mk) :=
  fun _ _ _ _ hp h => have h' := emitMany_stretch hp h; ⟨h'.1, h'.2.1⟩

theorem extending_checkStatus (status : Value) (label : String) : Extending (checkStatus status label) :=
  fun _ _ _ _ hp h => checkStatus_extends hp h

end Gen

namespace Orders

theorem pre {m : Gen α} {os : List Operand} {P' : FnState → Prop} (h : Orders env P m os Q)
    (hP : ∀ c, P' c → P c) : Orders env P' m os Q :=
  fun s a s' hp hP' hrun => h s a s' hp (hP _ hP') hrun

theorem pure {a : α} (hQ : ∀ c, P c → Q c a c) : Orders env P (Pure.pure a : Gen α) [] Q := by
  intro s b s' hp hP hrun
  cases hrun
  exact ⟨⟨hp, Extends.refl _, hQ _ hP⟩, fun _ _ _ hi => hi⟩

theorem pure_eq {a : α} : Orders env P (Pure.pure a : Gen α) [] fun _ b _ => b = a :=
  pure fun _ _ => rfl

theorem post {m : Gen α} {os : List Operand} {Q' : FnState → α → FnState → Prop} (h : Orders env P m os Q)
    (hQ : ∀ c a c', Q c a c' → Q' c a c') : Orders env P m os Q' :=
  fun s a s' hp hP hrun =>
    have h' := h s a s' hp hP hrun
    ⟨⟨h'.1.1, h'.1.2.1, hQ _ _ _ h'.1.2.2⟩, h'.2⟩

theorem discard {x : Gen α} {os : List Operand} (h : Orders env P x os Q) :
    Orders env P (Functor.discard x) os fun _ _ _ => True := by
  intro s u s' hp hP hrun
  change (x env s >>= fun p => Pure.pure ((), p.2)) = _ at hrun
  cases hx : x env s with
  | error e =>
    rw [hx] at hrun
    cases hrun
  | ok p =>
    rw [hx] at hrun
    cases hrun
    obtain ⟨⟨hp', he, -⟩, hord⟩ := h s p.1 p.2 hp hP hx
    exact ⟨⟨hp', he, trivial⟩, hord⟩

theorem calm {m : Gen α} (hc : Calmly m) : Orders env P m [] fun _ _ _ => True := by
  intro s a s' hp _ hrun
  obtain ⟨hp', hcalm⟩ := hc env s a s' hp hrun
  exact ⟨⟨hp', hcalm.grows, trivial⟩, fun B σ _ hi => hi.calm_before hcalm hp'⟩

theorem operand {m : Gen α} {o : Operand} (hb : Builds (fun _ => True) m Q)
    (hl : ∀ s a s', m env s = .ok (a, s') → o.Lowers env s s') : Orders env (fun _ => True) m [o] Q := by
  intro s a s' hp _ hrun
  obtain ⟨hp', hst, hq⟩ := hb env s a s' hp trivial hrun
  exact ⟨⟨hp', hst.grows, hq⟩,
    fun B σ hfin hi => .run (Calm.refl _) (hfin.back hp hst.grows) (hl s a s' hrun) hst hfin hi⟩

theorem bind {x : Gen α} {f : α → Gen β} {os₁ os₂ : List Operand} (hx : Orders env P x os₁ Q)
    {S : α → FnState → Prop} {T : α → FnState → β → FnState → Prop}
    (hf : ∀ a, Orders env (S a) (f a) os₂ (T a)) {R : FnState → β → FnState → Prop}
    (hpre : ∀ c a c₁, P c → Extends c c₁ → Q c a c₁ → S a c₁)
    (hpost : ∀ c a c₁ b c', P c → Extends c c₁ → Q c a c₁ → Extends c₁ c' → T a c₁ b c' → R c b c') :
    Orders env P (x >>= f) (os₁ ++ os₂) R := by
  intro s b s' hp hP hrun
  obtain ⟨a, s₁, h₁, h₂⟩ := Gen.bind_ok hrun
  obtain ⟨⟨hp₁, he₁, hq₁⟩, hord₁⟩ := hx s a s₁ hp hP h₁
  obtain ⟨⟨hp', he₂, hq₂⟩, hord₂⟩ := hf a s₁ b s' hp₁ (hpre _ a _ hP he₁ hq₁) h₂
  refine ⟨⟨hp', he₁.trans he₂, hpost _ a _ b _ hP he₁ hq₁ he₂ hq₂⟩, fun B σ hfin hi => ?_⟩
  rw [Schedule.seq_append]
  exact hord₁ B _ (hfin.back hp₁ he₂) (hord₂ B σ hfin hi)

theorem andThen {x : Gen α} {f : α → Gen β} {os₁ os₂ : List Operand} (hx : Orders env (fun _ => True) x os₁ Q)
    {R : β → FnState → Prop} (hf : ∀ a, Orders env (fun _ => True) (f a) os₂ fun _ b c' => R b c') :
    Orders env (fun _ => True) (x >>= f) (os₁ ++ os₂) fun _ b c' => R b c' :=
  bind hx hf (fun _ _ _ _ _ _ => trivial) fun _ _ _ _ _ _ _ _ _ h => h

theorem fnFixed_bind {x : Gen α} {f : α → Gen β} {os : List Operand} {R : FnState → β → FnState → Prop}
    (hx : FnFixed x) (hf : ∀ a, Orders env P (f a) os R) : Orders env P (x >>= f) os R := by
  intro s b s' hp hP hrun
  obtain ⟨a, s₁, h₁, h₂⟩ := Gen.bind_ok hrun
  have hfn : s₁.fn = s.fn := by
    have := hx s.fn env s rfl
    rw [h₁] at this
    exact this
  obtain ⟨⟨hp', he, hr⟩, hord⟩ := hf a s₁ b s' (hfn ▸ hp) (hfn ▸ hP) h₂
  exact ⟨⟨hp', hfn ▸ he, hfn ▸ hr⟩, fun B σ hfin hi => (hord B σ hfin hi).calm_before
      (hfn ▸ Calm.refl _) (hfn ▸ hp)⟩

theorem throw {e : LowerError} {os : List Operand} : Orders env P (MonadExcept.throw e : Gen α) os Q :=
  fun _ _ _ _ _ hrun => by cases hrun

theorem ite {p : Prop} {h : Decidable p} {x y : Gen α} {os : List Operand} (hx : p → Orders env P x os Q)
    (hy : ¬ p → Orders env P y os Q) : Orders env P (if p then x else y) os Q := by
  by_cases hc : p
  · rw [if_pos hc]; exact hx hc
  · rw [if_neg hc]; exact hy hc

theorem expectArgs_bind {f : Unit → Gen β} {node n : Nat} {args : List Expr} {os : List Operand}
    {R : FnState → β → FnState → Prop} (hf : args.length = n → Orders env P (f ()) os R) :
    Orders env P (Gen.expectArgs node args n >>= f) os R := by
  unfold Gen.expectArgs
  split
  · intro s b s' _ _ hrun
    obtain ⟨_, _, h₁, -⟩ := Gen.bind_ok hrun
    cases h₁
  · rename_i hn
    rw [LawfulMonad.pure_bind]
    exact hf (by simpa using hn)

theorem mapM {xs : List α} {f : α → Gen β} {ops : α → List Operand}
    (hf : ∀ a ∈ xs, Orders env (fun _ => True) (f a) (ops a) fun _ _ _ => True) :
    Orders env (fun _ => True) (xs.mapM f) (xs.flatMap ops) fun _ _ _ => True := by
  induction xs with
  | nil => exact calm (Calmly.pure _)
  | cons x xs ih =>
    rw [List.mapM_cons, List.flatMap_cons, ← List.append_nil (xs.flatMap ops)]
    exact (hf x List.mem_cons_self).andThen fun _ =>
      (ih fun a ha => hf a (List.mem_cons_of_mem _ ha)).andThen fun _ => calm (Calmly.pure _)

theorem forIn {xs : List α} {f : α → β → Gen (ForInStep β)} {I : β → FnState → Prop}
    {ops : α → List Operand}
    (hf : ∀ a ∈ xs, ∀ b, Orders env (I b) (f a b) (ops a) fun _ r c' => (∃ b', r = .yield b') ∧ I r.value c')
    (init : β) : Orders env (I init) (ForIn.forIn xs init f) (xs.flatMap ops) fun _ b c' => I b c' := by
  induction xs generalizing init with
  | nil => exact fun s b s' hp hI hrun => by cases hrun; exact ⟨⟨hp, Extends.refl _, hI⟩, fun _ _ _ hi => hi⟩
  | cons x xs ih =>
    rw [List.forIn_cons, List.flatMap_cons]
    refine (hf x List.mem_cons_self init).bind (S := fun r c => (∃ b', r = .yield b') ∧ I r.value c)
      (fun r => ?_) (fun _ _ _ _ _ h => h) fun _ _ _ _ _ _ _ _ _ h => h
    rcases r with b | b
    · -- no pass stops the loop
      intro _ _ _ _ h _
      obtain ⟨_, h⟩ := h.1
      cases h
    · refine (ih (fun a ha => hf a (List.mem_cons_of_mem _ ha)) b).pre ?_
      intro _ h
      exact h.2

end Orders

namespace Ends

theorem pre {m : Gen α} {σ : Schedule} {P' : FnState → Prop} (h : Ends env P m σ) (hP : ∀ c, P' c → P c) :
    Ends env P' m σ :=
  fun s a s' hp hP' hrun => h s a s' hp (hP _ hP') hrun

theorem of_builds {m : Gen α} (h : Builds P m Q) : Ends env P m .done := by
  intro s a s' hp hP hrun
  obtain ⟨hp', hst, -⟩ := h env s a s' hp hP hrun
  exact ⟨⟨hp', hst.grows⟩, fun _ _ => .done _⟩

theorem of_extending {m : Gen α} (h : Extending m) : Ends env P m .done := by
  intro s a s' hp _ hrun
  exact ⟨h env s a s' hp hrun, fun _ _ => .done _⟩

theorem bind {x : Gen α} {f : α → Gen β} {os : List Operand} {σ : Schedule} (hx : Orders env P x os Q)
    {S : α → FnState → Prop} (hf : ∀ a, Ends env (S a) (f a) σ)
    (hpre : ∀ c a c₁, P c → Extends c c₁ → Q c a c₁ → S a c₁) :
    Ends env P (x >>= f) (Schedule.seq os σ) := by
  intro s b s' hp hP hrun
  obtain ⟨a, s₁, h₁, h₂⟩ := Gen.bind_ok hrun
  obtain ⟨⟨hp₁, he₁, hq₁⟩, hord₁⟩ := hx s a s₁ hp hP h₁
  obtain ⟨⟨hp', he₂⟩, hord₂⟩ := hf a s₁ b s' hp₁ (hpre _ a _ hP he₁ hq₁) h₂
  exact ⟨⟨hp', he₁.trans he₂⟩, fun B hfin => hord₁ B σ (hfin.back hp₁ he₂) (hord₂ B hfin)⟩

theorem andThen {x : Gen α} {f : α → Gen β} {os : List Operand} {σ : Schedule}
    (hx : Orders env (fun _ => True) x os Q) (hf : ∀ a, Ends env (fun _ => True) (f a) σ) :
    Ends env (fun _ => True) (x >>= f) (Schedule.seq os σ) :=
  bind hx hf fun _ _ _ _ _ _ => trivial

theorem run {x : Gen α} {f : α → Gen β} {o : Operand} {σ : Schedule} (hx : Orders env (fun _ => True) x [o] Q)
    (hf : ∀ a, Ends env (fun _ => True) (f a) σ) : Ends env (fun _ => True) (x >>= f) (.run o σ) :=
  andThen hx hf

theorem calm_bind {x : Gen α} {f : α → Gen β} {σ : Schedule} (hx : Calmly x)
    (hf : ∀ a, Ends env (fun _ => True) (f a) σ) : Ends env (fun _ => True) (x >>= f) σ :=
  andThen (Orders.calm hx) hf

theorem of_orders {m : Gen α} {os : List Operand} (h : Orders env P m os Q) :
    Ends env P m (Schedule.seq os .done) :=
  fun s a s' hp hP hrun =>
    have h' := h s a s' hp hP hrun
    ⟨⟨h'.1.1, h'.1.2.1⟩, fun B hfin => h'.2 B .done hfin (.done _)⟩

theorem then_extending {x : Gen α} {f : α → Gen β} {σ : Schedule} (hx : Ends env P x σ)
    (hf : ∀ a, Extending (f a)) : Ends env P (x >>= f) σ := by
  intro s b s' hp hP hrun
  obtain ⟨a, s₁, h₁, h₂⟩ := Gen.bind_ok hrun
  obtain ⟨⟨hp₁, he₁⟩, hord⟩ := hx s a s₁ hp hP h₁
  obtain ⟨hp', he₂⟩ := hf a env s₁ b s' hp₁ h₂
  exact ⟨⟨hp', he₁.trans he₂⟩, fun B hfin => hord B (hfin.back hp₁ he₂)⟩

theorem fnFixed_bind {x : Gen α} {f : α → Gen β} {σ : Schedule} (hx : FnFixed x)
    (hf : ∀ a, Ends env P (f a) σ) :
    Ends env P (x >>= f) σ := by
  intro s b s' hp hP hrun
  obtain ⟨a, s₁, h₁, h₂⟩ := Gen.bind_ok hrun
  have hfn : s₁.fn = s.fn := by
    have := hx s.fn env s rfl
    rw [h₁] at this
    exact this
  obtain ⟨⟨hp', he⟩, hord⟩ := hf a s₁ b s' (hfn ▸ hp) (hfn ▸ hP) h₂
  exact ⟨⟨hp', hfn ▸ he⟩, fun B hfin => (hord B hfin).calm_before (hfn ▸ Calm.refl _) (hfn ▸ hp)⟩

theorem throw {e : LowerError} {σ : Schedule} : Ends env P (MonadExcept.throw e : Gen α) σ :=
  fun _ _ _ _ _ hrun => by cases hrun

theorem ite {p : Prop} {h : Decidable p} {x y : Gen α} {σ : Schedule} (hx : p → Ends env P x σ)
    (hy : ¬ p → Ends env P y σ) : Ends env P (if p then x else y) σ := by
  by_cases hc : p
  · rw [if_pos hc]; exact hx hc
  · rw [if_neg hc]; exact hy hc

theorem throw_bind {e : LowerError} {f : α → Gen β} {σ : Schedule} :
    Ends env P (MonadExcept.throw e >>= f) σ := by
  intro s b s' _ _ hrun
  obtain ⟨_, _, h, -⟩ := Gen.bind_ok hrun
  cases h

theorem ask_bind {f : Env → Except LowerError α} {g : α → Gen β} {σ : Schedule}
    (hg : ∀ a, f env = .ok a → Ends env P (g a) σ) : Ends env P (Gen.ask f >>= g) σ := by
  intro s b s' hp hP hrun
  obtain ⟨a, s₁, h₁, h₂⟩ := Gen.bind_ok hrun
  unfold Gen.ask at h₁
  obtain ⟨e, s₀, h₀, h₁⟩ := Gen.bind_ok h₁
  cases h₀
  cases hx : f env with
  | error err => simp [hx, liftM, monadLift, MonadLift.monadLift, StateT.lift] at h₁
  | ok a' =>
    simp only [hx, liftM, monadLift, MonadLift.monadLift, StateT.lift] at h₁
    cases h₁
    exact hg a hx s b s' hp hP h₂

theorem lift_bind {x : Except LowerError α} {g : α → Gen β} {σ : Schedule}
    (hg : ∀ a, x = .ok a → Ends env P (g a) σ) : Ends env P (liftM x >>= g) σ := by
  intro s b s' hp hP hrun
  obtain ⟨a, s₁, h₁, h₂⟩ := Gen.bind_ok hrun
  cases x with
  | error err => cases h₁
  | ok a' =>
    simp only [liftM, monadLift, MonadLift.monadLift, StateT.lift] at h₁
    cases h₁
    exact hg a rfl s b s' hp hP h₂

theorem expectArgs_bind {f : Unit → Gen β} {node n : Nat} {args : List Expr} {σ : Schedule}
    (hf : args.length = n → Ends env P (f ()) σ) : Ends env P (Gen.expectArgs node args n >>= f) σ := by
  unfold Gen.expectArgs
  split
  · intro s b s' _ _ hrun
    obtain ⟨_, _, h₁, -⟩ := Gen.bind_ok hrun
    cases h₁
  · rename_i hn
    rw [LawfulMonad.pure_bind]
    exact hf (by simpa using hn)

end Ends

/-- Evaluators whose code builds, and is the lowering of the expression they are given. -/
structure EvalOrders (ev : Eval) : Prop where
  builds : EvalBuilds ev
  values : ∀ e env s vs s', ev.values e env s = .ok (vs, s') → ∃ fuel, Gen.values fuel e env s = .ok (vs, s')
  single : ∀ e env s v s', ev.single e env s = .ok (v, s') → ∃ fuel, Gen.single fuel e env s = .ok (v, s')
  place : ∀ e env s p s', ev.place e env s = .ok (p, s') → ∃ fuel, Gen.place fuel e env s = .ok (p, s')

theorem evalOrders (fuel : Nat) : EvalOrders ⟨Gen.values fuel, Gen.single fuel, Gen.place fuel⟩ :=
  ⟨Gen.evalBuilds fuel, fun _ _ _ _ _ h => ⟨fuel, h⟩, fun _ _ _ _ _ h => ⟨fuel, h⟩,
      fun _ _ _ _ _ h => ⟨fuel, h⟩⟩

namespace EvalOrders

variable {ev : Eval} (heo : EvalOrders ev)
include heo

theorem orders_values (e : Expr) :
    Orders env (fun _ => True) (ev.values e) [.values e] fun c vs c' => ∀ v ∈ vs, FreshIn c c' v :=
  Orders.operand (heo.builds.values e) fun s vs s' h => by
    obtain ⟨fuel, h⟩ := heo.values e env s vs s' h
    exact ⟨fuel, vs, h⟩

theorem orders_single (e : Expr) :
    Orders env (fun _ => True) (ev.single e) [.value e] fun c v c' => FreshIn c c' v :=
  Orders.operand (heo.builds.single e) fun s v s' h => by
    obtain ⟨fuel, h⟩ := heo.single e env s v s' h
    exact ⟨fuel, v, h⟩

theorem orders_place (e : Expr) :
    Orders env (fun _ => True) (ev.place e) [.place e] fun c p c' => PlaceIn c c' p :=
  Orders.operand (heo.builds.place e) fun s p s' h => by
    obtain ⟨fuel, h⟩ := heo.place e env s p s' h
    exact ⟨fuel, p, h⟩

end EvalOrders

theorem flatMap_zip_value {γ : Type} {args : List Expr} {ps : List γ} (h : args.length = ps.length) :
    (args.zip ps).flatMap (fun ap => [Operand.value ap.1]) = args.map .value := by
  rw [← List.map_eq_flatMap]
  calc (args.zip ps).map (fun ap => Operand.value ap.1) = ((args.zip ps).map Prod.fst).map .value :=
        (List.map_map ..).symm
    _ = args.map .value := by rw [List.map_fst_zip h.le]

theorem flatMap_zipIdx_value {γ : Type} {args : List Expr} {ps : List γ} (h : args.length = ps.length) :
    ((args.zip ps).zipIdx).flatMap (fun ap => [Operand.value ap.1.1]) = args.map .value := by
  rw [← List.map_eq_flatMap]
  calc ((args.zip ps).zipIdx).map (fun ap => Operand.value ap.1.1)
      = ((((args.zip ps).zipIdx).map Prod.fst).map Prod.fst).map .value := by simp only [List.map_map]; rfl
    _ = args.map .value := by rw [List.zipIdx_map_fst, List.map_fst_zip h.le]

/-- The arguments a creation passes on: those of the contract's constructor, when it has one. -/
def createArgs (env : Env) (c : Nat) (args : List Expr) : List Operand :=
  match env.constructorOf c with
  | .ok (some _) => args.map .value
  | _ => []

/-- The order of a call of a builtin: the condition before the reason of a check, the arguments
left to right otherwise. -/
def builtinOrder (b : Source.Builtin) (args : List Expr) : Schedule :=
  match b with
  | .require | .assert => .run (.value (args.headD default))
      (Schedule.seq (args[1]?.toList.map .values) .done)
  | .revert | .gasLeft => .done
  | _ => Schedule.seq (args.map .value) .done

/-- The order of a call: the arguments left to right; for an external call the address first and
the value and gas options last; for `push` and the transfers the receiver first; for a creation
the constructor's arguments before the value. -/
def callOrder (env : Env) (callee : Expr) (args : List Expr) (kind : CallKind) (value gas : Option Expr) :
    Schedule :=
  match kind with
  | .typeConversion | .structConstructor => Schedule.seq (args.map .value) .done
  | .regular =>
    match callee.kind with
    | .ident _ (.builtin b) => builtinOrder b args
    | .ident _ (.function _) => Schedule.seq (args.map .value) .done
    | .member base _ (some (.function _)) =>
      match base.kind with
      | .ident _ (.magic .super) => Schedule.seq (args.map .value) .done
      | .ident _ (.contract _) => Schedule.seq (args.map .value) .done
      | _ => Schedule.seq (.value base :: args.map .value ++ value.toList.map .value ++
          gas.toList.map .value) .done
    | .member base _ none => Schedule.seq (.value base :: args.map .value) .done
    | .new (.contract c) => Schedule.seq (createArgs env c args ++ value.toList.map .value) .done
    | .new (.array _) => Schedule.seq (args.map .value) .done
    | _ => .done

/-- The places a destructuring assignment stores into: those of the components that are there. -/
def targetOps (target : Option Expr × Option Nat) : List Operand :=
  match target with
  | (some item, some _) => [.place item]
  | _ => []

/-- The order of an assignment: the right side before the place assigned, or, for a tuple of
other than one component on the left, all the values of the right side before the places of the
components that are there. -/
def assignOrder (op : Option BinaryOp) (left right : Expr) : Schedule :=
  match op, left.kind with
  | none, .tuple items =>
    if items.length != 1 then
      .run (.values right) (Schedule.seq (items.flatMap fun item => item.toList.map .place) .done)
    else .run (.value right) (.run (.place left) .done)
  | _, _ => .run (.value right) (.run (.place left) .done)

theorem flatMap_targetOps (items : List (Option Expr)) (k shift : Nat) :
    (items.zip (((items.map Option.isSome).zipIdx k).map
      fun x => if x.1 then some (x.2 + shift) else none)).flatMap targetOps =
        items.flatMap fun item => item.toList.map .place := by
  induction items generalizing k with
  | nil => rfl
  | cons item items ih =>
    cases item <;> simp [targetOps, ih]

section Constructs

variable {ev : Eval} (heo : EvalOrders ev)
include heo

namespace Gen

theorem orders_callArguments (node f : Nat) (args : List Expr) :
    Orders env (fun _ => True) (callArguments ev node f args) (args.map .value) fun _ _ _ => True := by
  unfold callArguments
  refine Orders.fnFixed_bind (fnFixed_functionDef _) fun d => Orders.expectArgs_bind fun hlen => ?_
  rw [← flatMap_zip_value hlen]
  exact Orders.mapM fun ⟨arg, _⟩ _ => Orders.fnFixed_bind (fnFixed_varDecl _) fun _ =>
    (heo.orders_single arg).andThen fun _ => Orders.calm (calmly_prepareValue _ _ _ _)

theorem ends_internalCall (node target : Nat) (args : List Expr) :
    Ends env (fun _ => True) (internalCall ev node target args) (Schedule.seq (args.map .value) .done) := by
  unfold internalCall
  refine Ends.fnFixed_bind (fnFixed_functionDef _) fun _ => Ends.ask_bind fun _ _ =>
      Ends.ask_bind fun _ _ => ?_
  extract_lets call queue
  -- the arguments, whichever name the call is made under
  have hcall : ∀ name, Ends env (fun _ => True) (call name) (Schedule.seq (args.map .value) .done) := fun _ =>
    Ends.andThen (orders_callArguments heo _ _ _) fun _ =>
      Ends.of_extending (Extending.of_builds (builds_emitMany _ _ fun _ _ h => h))
  have hqueue : ∀ u, Ends env (fun _ => True) (queue u) (Schedule.seq (args.map .value) .done) := fun _ =>
    Ends.ask_bind fun _ _ => hcall _
  exact Ends.ite (fun _ => Ends.fnFixed_bind fnFixed_get fun _ =>
      Ends.ite (fun _ => Ends.fnFixed_bind (fnFixed_modifyContract _) hqueue) fun _ => hqueue ())
    fun _ => Ends.ask_bind fun _ _ => hcall _

theorem ends_staticCall (node c f : Nat) (args : List Expr) :
    Ends env (fun _ => True) (staticCall ev node c f args) (Schedule.seq (args.map .value) .done) := by
  unfold staticCall
  refine Ends.fnFixed_bind (fnFixed_functionDef _) fun _ => Ends.fnFixed_bind (fnFixed_contractDef _) fun _ =>
    Ends.fnFixed_bind fnFixed_read fun _ => ?_
  extract_lets call checked
  have hchecked : ∀ u, Ends env (fun _ => True) (checked u) (Schedule.seq (args.map .value) .done) := fun _ =>
    Ends.ite (fun _ => Ends.ask_bind fun _ _ => Ends.throw_bind) fun _ => ends_internalCall heo _ _ _
  exact Ends.ite (fun _ => Ends.throw_bind) fun _ => hchecked ()

theorem ends_binaryOp (e : Expr) (op : BinaryOp) (l r : Expr) :
    Ends env (fun _ => True) (binaryOp ev e op l r) (.run (.value l) (.run (.value r) .done)) := by
  unfold binaryOp
  refine Ends.run (heo.orders_single _) fun _ => Ends.calm_bind (calmly_convert _ _ _) fun _ =>
    Ends.run (heo.orders_single _) fun _ => ?_
  extract_lets operate
  have hoperate : ∀ v, Extending (operate v) := fun _ =>
    Extending.of_builds (Builds.singleton (builds_binaryOperation _ _ _ _ _))
  exact Ends.of_extending (Extending.ite (fun _ => (Extending.pure _).bind hoperate)
    fun _ => (Extending.of_calmly (calmly_convert _ _ _)).bind hoperate)

theorem ends_constructStruct (node id : Nat) (args : List Expr) :
    Ends env (fun _ => True) (constructStruct ev node id args) (Schedule.seq (args.map .value) .done) := by
  unfold constructStruct
  refine Ends.fnFixed_bind (fnFixed_structDef _) fun _ => Ends.expectArgs_bind fun hlen => ?_
  refine Ends.calm_bind (calmly_emit _ fun _ => rfl) fun _ => ?_
  rw [← flatMap_zipIdx_value hlen]
  -- one member a turn: its argument, then calm code storing it
  exact Ends.andThen (Orders.forIn (I := fun _ _ => True) (fun ⟨⟨arg, _⟩, _⟩ _ _ =>
    (heo.orders_single arg).andThen fun _ => (Orders.calm (calmly_prepareValue _ _ _ _)).andThen fun _ =>
      (Orders.calm (calmly_offset _ _)).andThen fun _ =>
          (Orders.calm (calmly_emitUnit _ rfl)).andThen fun _ =>
        Orders.pure fun _ _ => ⟨⟨_, rfl⟩, trivial⟩) _) fun _ => Ends.of_extending (Extending.pure _)

theorem ends_newMemoryArray (t : TypeName) (length : Expr) :
    Ends env (fun _ => True) (newMemoryArray ev t length) (.run (.value length) .done) := by
  unfold newMemoryArray
  split
  · exact Ends.run (heo.orders_single _) fun _ => Ends.of_extending <|
      (Extending.of_calmly (calmly_offset _ _)).bind fun _ =>
          (Extending.of_calmly (calmly_emit _ fun _ => rfl)).bind
        fun _ => (Extending.of_calmly (calmly_emitUnit _ rfl)).bind fun _ => Extending.pure _
  · exact Ends.throw

theorem ends_externalCall (node : Nat) (base : Expr) (f : Nat) (args : List Expr) (value gas : Option Expr) :
    Ends env (fun _ => True) (externalCall ev node base f args value gas)
      (Schedule.seq (.value base :: args.map .value ++ value.toList.map .value ++ gas.toList.map .value)
        .done) := by
  unfold externalCall
  rw [Schedule.seq_append, Schedule.seq_append]
  refine Ends.fnFixed_bind (fnFixed_functionDef _) fun _ =>
    Ends.fnFixed_bind (FnFixed.anyM fun _ => (fnFixed_varDecl _).bind fun _ => FnFixed.pure _) fun _ => ?_
  extract_lets call
  refine Ends.ite (fun _ => Ends.throw_bind) fun _ => ?_
  refine Ends.run (heo.orders_single _) fun _ => Ends.andThen (orders_callArguments heo _ _ _) fun _ => ?_
  extract_lets withAmount
  have hamount : ∀ amount, Ends env (fun _ => True) (withAmount amount)
      (Schedule.seq (gas.toList.map .value) .done) := by
    intro amount
    dsimp -zeta only [withAmount]
    extract_lets withGas
    -- the call, which the machine does not make, then the check of its status
    have hgas : ∀ g, Ends env (fun _ => True) (withGas g) .done := fun _ =>
      Ends.ask_bind fun _ _ => Ends.of_extending <| (extending_emitMany _ _).bind fun _ =>
        (extending_checkStatus _ _).bind fun _ => Extending.pure _
    split
    · exact Ends.run (heo.orders_single _) hgas
    · exact Ends.calm_bind (calmly_emit _ fun _ => rfl) hgas
  split
  · exact Ends.run (heo.orders_single _) hamount
  · exact Ends.calm_bind (Calmly.pure _) hamount

theorem ends_transfer (base amount : Expr) (revertOnFailure : Bool) :
    Ends env (fun _ => True) (transfer ev base amount revertOnFailure)
      (.run (.value base) (.run (.value amount) .done)) :=
  Ends.run (heo.orders_single _) fun _ => Ends.run (heo.orders_single _) fun _ => Ends.of_extending <|
    (extending_emit _).bind fun _ =>
      Extending.ite (fun _ => (extending_checkStatus _ _).bind fun _ => Extending.pure _)
        fun _ => (Extending.of_calmly (calmly_unary _ _)).bind fun _ => Extending.pure _

theorem ends_push (node : Nat) (base elem : Expr) :
    Ends env (fun _ => True) (push ev node base elem) (.run (.value base) (.run (.value elem) .done)) := by
  unfold push
  split
  · exact Ends.run (heo.orders_single _) fun _ => Ends.run (heo.orders_single _) fun _ => Ends.of_extending <|
      (extending_emit _).bind fun _ => (Extending.of_calmly (calmly_binary _ _ _)).bind fun _ =>
        (Extending.of_builds (builds_emitUnit_of_results _ rfl)).bind fun _ =>
        (Extending.of_fnFixed (fnFixed_storageSize _ _)).bind fun _ => (extending_emit _).bind fun _ =>
        (Extending.of_builds (builds_scale _ _)).bind fun _ => (Extending.of_calmly (calmly_offset _ _)).bind
        fun _ => (Extending.of_builds ((builds_store (Place.inStorage _ _) _ _ _).pre
            fun _ _ => trivial)).bind
        fun _ =>
          Extending.pure _
  · exact Ends.throw

theorem ends_create (node c : Nat) (args : List Expr) (value : Option Expr) :
    Ends env (fun _ => True) (create ev node c args value)
      (Schedule.seq (createArgs env c args ++ value.toList.map .value) .done) := by
  unfold create
  rw [Schedule.seq_append]
  refine Ends.fnFixed_bind (fnFixed_contractDef _) fun _ => Ends.fnFixed_bind fnFixed_read fun _ => ?_
  split
  · refine Ends.expectArgs_bind fun _ => Ends.ask_bind fun ctor hctor => ?_
    extract_lets withValues
    have hvalues : ∀ values, Ends env (fun _ => True) (withValues values)
        (Schedule.seq (value.toList.map .value) .done) := by
      intro values
      dsimp -zeta only [withValues]
      extract_lets withAmount
      -- the creation, which the machine does not make, then the check of its status
      have hamount : ∀ amount, Ends env (fun _ => True) (withAmount amount) .done := fun _ =>
        Ends.of_extending <| (extending_emitMany _ _).bind fun _ => (extending_checkStatus _ _).bind fun _ =>
          (Extending.of_fnFixed fnFixed_get).bind fun _ =>
            Extending.ite (fun _ => (Extending.of_fnFixed (fnFixed_modifyContract _)).bind
                fun _ => Extending.pure _)
              fun _ => Extending.pure _
      split
      · exact Ends.run (heo.orders_single _) hamount
      · exact Ends.calm_bind (Calmly.pure _) hamount
    -- the constructor's arguments, when there is a constructor
    unfold createArgs
    rw [hctor]
    rcases ctor with _ | ctor
    · exact Ends.calm_bind (Calmly.pure _) hvalues
    · exact Ends.andThen (orders_callArguments heo _ _ _) hvalues
  · exact Ends.throw

theorem ends_indexPlace (e base : Expr) (index : Option Expr) :
    Ends env (fun _ => True) (indexPlace ev e base index)
      (Schedule.seq (.value base :: index.toList.map .value) .done) := by
  unfold indexPlace
  split
  · split
    · -- a mapping: the slot of the key
      exact Ends.run (heo.orders_single _) fun _ => Ends.run (heo.orders_single _) fun _ =>
          Ends.of_extending <|
        (Extending.of_calmly (calmly_convert _ _ _)).bind fun _ => (extending_emit _).bind fun _ =>
            Extending.pure _
    · refine Ends.ite (fun _ => ?_) fun _ => ?_
      · exact Ends.run (heo.orders_single _) fun _ => Ends.run (heo.orders_single _) fun _ =>
          Ends.of_extending <|
          (Extending.of_builds (builds_storageElementSlot _ _ _ _)).bind fun _ => Extending.pure _
      · exact Ends.run (heo.orders_single _) fun _ => Ends.run (heo.orders_single _) fun _ =>
          Ends.of_extending <|
          (Extending.of_builds (builds_memoryElementAddress _ _)).bind fun _ => Extending.pure _
    · exact Ends.throw
    · exact Ends.throw
  · exact Ends.throw

theorem ends_tupleAssignment (e : Expr) (items : List (Option Expr)) (right : Expr) :
    Ends env (fun _ => True) (tupleAssignment ev e items right)
      (.run (.values right) (Schedule.seq (items.flatMap fun item => item.toList.map .place) .done)) := by
  unfold tupleAssignment
  refine Ends.run (heo.orders_values _) fun values => Ends.lift_bind fun pairing hpair => ?_
  rw [alignComponents_of_pads _ (pads_of_alignComponents_ok hpair), Except.ok.injEq] at hpair
  subst hpair
  rw [← flatMap_targetOps items 0 (padShift (items.map Option.isSome) values.length)]
  -- the places of the components first, each of a variable; then the stores into them
  refine Ends.bind ((Orders.forIn (I := fun (targets : Array (Place × Nat)) c => ∀ q ∈ targets,
      Place.OfVariable c q.1)
    (fun x _ targets => ?_) _).pre fun _ _ q hq => by simp at hq) (fun targets => ?_) fun _ _ _ _ _ h => h
  · rcases x with ⟨_ | item, _ | source⟩
    case some.some =>
      refine ((heo.orders_place item).pre fun _ _ => trivial).bind (fun _ => Orders.pure_eq)
        (fun _ _ _ _ _ _ => trivial) fun c p c₁ r c' hI he₁ hp he₂ hr => ?_
      subst hr
      refine ⟨⟨_, rfl⟩, fun q hq => ?_⟩
      rcases Array.mem_push.mp hq with hq | rfl
      · exact (hI q hq).extend (he₁.trans he₂).counts
      · exact hp.ofVariable.extend (he₁.trans he₂).counts
    all_goals exact Orders.pure fun _ h => ⟨⟨_, rfl⟩, h⟩
  · refine Ends.of_builds (Builds.nil (Builds.forInArray_mem
      (I := fun _ c => ∀ q ∈ targets, Place.OfVariable c q.1)
      (fun q hq _ => ?_) _))
    obtain ⟨p, source⟩ := q
    exact ((builds_store p _ _ _).pre fun _ h => h _ hq).bind (fun _ => Builds.pure_any)
      (fun _ _ _ _ _ _ => trivial) fun _ _ _ _ _ hI h₁ _ h₂ _ q hq =>
          (hI q hq).extend (h₁.counts.trans h₂.counts)

theorem ends_assignment (e : Expr) (op : Option BinaryOp) (left right : Expr) :
    Ends env (fun _ => True) (assignment ev e op left right) (assignOrder op left right) := by
  -- the code after the place: a store, and the value stored or the place's content given back
  have hstore : ∀ value p, Builds (fun c => p.OfVariable c) (if p.ty.isValueType = true then
      convert value right.ty p.ty >>= fun converted => store p converted p.ty e.id >>= fun _ =>
        Pure.pure [converted]
      else store p value right.ty e.id >>= fun _ => load p >>= fun w => Pure.pure [w])
      fun _ _ _ => True := fun value p =>
    Builds.ite (fun _ => ((builds_convert _ _ _).pre fun _ _ => trivial).bind
        (fun _ => (builds_store p _ _ _).skip fun _ => Builds.pure_any)
        (fun _ _ _ hx hst _ => hx.extend hst.counts) fun _ _ _ _ _ _ _ _ _ _ => trivial)
      fun _ => (builds_store p _ _ _).skip fun _ => (builds_load p).skip fun _ => Builds.pure_any
  have hplace : ∀ c p c', True → Extends c c' → PlaceIn c c' p → p.OfVariable c' :=
    fun _ _ _ _ he hp => hp.ofVariable.extend he.counts
  rcases op with _ | op
  · unfold assignment
    dsimp -zeta only
    extract_lets plain
    have hplain : ∀ u, Ends env (fun _ => True) (plain u) (.run (.value right) (.run (.place left) .done)) :=
      fun _ => Ends.run (heo.orders_single _) fun value =>
        Ends.bind (heo.orders_place _) (fun p => Ends.of_builds (hstore value p)) hplace
    split
    · -- a tuple on the left
      rename_i items hleft
      simp only [assignOrder, hleft]
      by_cases hlen : (items.length != 1) = true
      · rw [if_pos hlen, if_pos hlen]
        exact ends_tupleAssignment heo _ _ _
      · rw [if_neg hlen, if_neg hlen]
        exact hplain ()
    · rename_i hleft
      unfold assignOrder
      split
      · rename_i items _ hitems
        exact absurd hitems (hleft items)
      · exact hplain ()
  · -- a compound assignment: the right side, the place, and the new value stored back
    exact Ends.run (heo.orders_single _) fun _ => Ends.bind (heo.orders_place _)
      (fun p => Ends.of_builds ((builds_update p _ _ _ _).skip fun _ => Builds.pure_any)) hplace

theorem ends_hashLike (node : Nat) (args : List Expr) (ir : IR.Builtin) (arity : Option Nat) :
    Ends env (fun _ => True) (builtinCall.hashLike ev node args ir arity)
    (Schedule.seq (args.map .value) .done) := by
  unfold builtinCall.hashLike
  extract_lets hash
  have hhash : ∀ u, Ends env (fun _ => True) (hash u) (Schedule.seq (args.map .value) .done) := fun _ => by
    rw [List.map_eq_flatMap]
    exact Ends.andThen (Orders.mapM fun a _ => (heo.orders_single a).post fun _ _ _ _ => trivial) fun _ =>
      Ends.of_extending ((extending_emit _).bind fun _ => Extending.pure _)
  split
  · exact Ends.expectArgs_bind fun _ => hhash ()
  · exact hhash ()

theorem ends_builtinCall (node : Nat) (b : Source.Builtin) (args : List Expr) :
    Ends env (fun _ => True) (builtinCall ev node b args) (builtinOrder b args) := by
  cases b <;> dsimp -zeta only [builtinCall, builtinOrder]
  case require | assert =>
    -- the join points, innermost first: the end, the failure check, the rest after the arity
    extract_lets done fail check
    have hfail : ∀ failed, Extending (fail failed) := fun failed => Extending.ite
      (fun _ => Extending.of_builds
        (builds_shared_bind builds_revertBlock (fun k => Builds.nil (builds_failIf failed k _))
            freshIn_after_stretch))
      fun _ => Extending.of_builds
        (builds_shared_bind builds_assertFailBlock (fun k => Builds.nil (builds_failIf failed k _))
            freshIn_after_stretch)
    refine Ends.ite (fun _ => Ends.throw_bind) fun _ => Ends.run (heo.orders_single _) fun cond => ?_
    extract_lets decide
    have hdecide : ∀ u, Ends env (fun _ => True) (decide u) .done := by
      intro u
      dsimp -zeta only [decide]
      refine Ends.of_extending ?_
      split
      · exact (Extending.pure _).bind hfail
      · exact (Extending.of_calmly (calmly_unary _ _)).bind hfail
    -- the reason, run for its effects
    split
    · rename_i reason hreason
      rw [hreason]
      exact Ends.andThen (heo.orders_values _).discard hdecide
    · rename_i hreason
      rw [Option.eq_none_iff_forall_ne_some.mpr fun r h => hreason r h]
      exact hdecide ()
  case revert =>
    exact Ends.of_builds (builds_shared_bind builds_revertBlock
        (fun k => Builds.nil (builds_jumpAndDetach k)) freshIn_after_stretch)
  case gasLeft =>
    exact Ends.expectArgs_bind fun _ => Ends.of_builds (Builds.singleton (builds_context _))
  case selfDestruct =>
    refine Ends.expectArgs_bind fun hlen => ?_
    obtain ⟨a, rfl⟩ := List.length_eq_one_iff.mp hlen
    exact Ends.run (heo.orders_single _) fun b => Ends.of_builds <|
      (builds_emitMany 0 (fun rs => .builtin rs .selfDestruct [b]) fun _ _ h => h).discard.freshList fun _ =>
        Builds.fnFixed_bind fnFixed_returnValues fun _ => builds_leave (.inr (.inr ⟨_, rfl⟩))
  all_goals exact ends_hashLike heo _ _ _ _

theorem ends_call (e callee : Expr) (args : List Expr) (kind : CallKind) (value gas : Option Expr) :
    Ends env (fun _ => True) (call ev e callee args kind value gas)
    (callOrder env callee args kind value gas) := by
  unfold call
  split
  · refine Ends.expectArgs_bind fun hlen => ?_
    obtain ⟨a, rfl⟩ := List.length_eq_one_iff.mp hlen
    exact Ends.run (heo.orders_single _) fun _ => Ends.of_extending <|
      (Extending.of_calmly (calmly_convert _ _ _)).bind fun _ => Extending.pure _
  · split
    · exact Ends.then_extending (ends_constructStruct heo _ _ _) fun _ => Extending.pure _
    · exact Ends.throw
  -- a regular call, by what the callee names
  split
  · rename_i hk
    simp only [callOrder, hk]
    exact ends_builtinCall heo _ _ _
  · rename_i hk
    simp only [callOrder, hk]
    exact Ends.ask_bind fun _ _ => ends_internalCall heo _ _ _
  · rename_i hk
    -- split the call first: the schedule's match on the base stays folded in callOrder
    split
    · rename_i hb
      simp only [callOrder, hk, hb]
      exact Ends.fnFixed_bind fnFixed_get fun _ => Ends.ask_bind fun _ _ => ends_internalCall heo _ _ _
    · rename_i hb
      simp only [callOrder, hk, hb]
      exact ends_staticCall heo _ _ _ _
    · -- simp discharges the schedule's catch-all case with the call's own hypotheses on the base
      simp only [callOrder, hk]
      exact ends_externalCall heo _ _ _ _ _ _
  · rename_i hk
    simp only [callOrder, hk]
    split
    case h_1 =>
      refine Ends.ite (fun _ => Ends.expectArgs_bind fun hlen => ?_) fun _ => Ends.throw
      obtain ⟨a, rfl⟩ := List.length_eq_one_iff.mp hlen
      exact ends_push heo _ _ _
    case h_2 | h_3 | h_4 | h_5 =>
      refine Ends.expectArgs_bind fun hlen => ?_
      obtain ⟨a, rfl⟩ := List.length_eq_one_iff.mp hlen
      exact ends_transfer heo _ _ _
    case h_6 => exact Ends.throw
  · rename_i hk
    simp only [callOrder, hk]
    exact ends_create heo _ _ _ _
  · rename_i hk
    simp only [callOrder, hk]
    refine Ends.expectArgs_bind fun hlen => ?_
    obtain ⟨a, rfl⟩ := List.length_eq_one_iff.mp hlen
    exact Ends.then_extending (ends_newMemoryArray heo _ _) fun _ => Extending.pure _
  · exact Ends.throw

end Gen

end Constructs

end ContractCfg.Lower
