import ContractCfg.Proofs.Stretch.Values

/-!
Code that forks. `&&`, `||` and `?:` make their blocks ahead, close the current block by a
branch and go on in the blocks they made; each arm ends by a jump to the join, where the code
goes on. Run from its start, such code takes the branch into one arm, crosses it and jumps to
the join: it is one stretch, as long as each arm is. This module states what the evaluators of
expressions must give for that (`EvalBuilds`) and shows that the forks then build.
-/

namespace ContractCfg.IR.FnBuilder

/-- Block `k` was made empty and open, ahead of the code that goes on in it. -/
def Ahead (b : FnBuilder) (k : Nat) : Prop :=
  k ≠ b.current ∧ ∃ label, b.block? k = some { id := k, label := label }

variable {b b' : FnBuilder} {k : Nat}

theorem Ahead.of_grows (h : b.Ahead k) (hk : k < b.fn.body.nextId) (hg : b.Grows b.fn.body.nextId b') :
    b'.Ahead k := by
  obtain ⟨hne, label, hb⟩ := h
  refine ⟨fun he => ?_, label, by rw [hg.others k hk hne, hb]⟩
  rcases hg.moved with hc | hc
  · exact hne (he.trans hc)
  · omega

theorem ahead_createBlock (hb : b.Below) (ho : b.IsOpen) (label : String) :
    (b.createBlock label).2.Ahead b.fn.body.nextId := by
  obtain ⟨blk, hcur, -⟩ := ho
  have hlt := hb.current_lt hcur
  exact ⟨by rw [createBlock_current]; omega, label, by rw [block?_createBlock, if_pos rfl]⟩

theorem Ahead.lt (h : b.Ahead k) (hb : b.Below) : k < b.fn.body.nextId := by
  obtain ⟨-, l, hk⟩ := h
  exact hb k (by simp [hk])

theorem Ahead.createBlock (h : b.Ahead k) (hb : b.Below) (label : String) :
    (b.createBlock label).2.Ahead k := by
  have hlt := h.lt hb
  obtain ⟨hne, l, hk⟩ := h
  exact ⟨hne, l, by rw [block?_createBlock, if_neg (by omega), hk]⟩

theorem Ahead.isSome (h : b.Ahead k) : (b.block? k).isSome := by
  obtain ⟨-, l, hk⟩ := h
  simp [hk]

theorem Ahead.closeSwitch {j : Nat} {t : Terminator} {blk : Block} (h : b.Ahead j) (hj : j ≠ k) :
    (b.closeSwitch t blk k).Ahead j := by
  obtain ⟨hne, l, hb⟩ := h
  exact ⟨by rw [closeSwitch_current]; exact hj, l, by rw [block?_closeSwitch_ne hne, hb]⟩

end ContractCfg.IR.FnBuilder

namespace ContractCfg.Lower

open ContractCfg.IR ContractCfg.IR.FnBuilder ContractCfg.Machine ContractCfg.Machine.Vm
open ContractCfg.Source (Expr TypeName)

variable {c c₁ c' : FnState}

/-- A place computed between `c` and `c'`: the register of a variable, a memory cell, or a
storage object at a slot computed in between or constant. -/
def PlaceIn (c c' : FnState) : Place → Prop
  | .register x _ => ∃ u, c.lookup u = some x
  | .memory _ _ => True
  | .storage s _ => FreshIn c c' s

theorem PlaceIn.ofVariable {p : Place} (h : PlaceIn c c' p) : p.OfVariable c := by
  cases p with
  | register x t => exact h
  | memory => trivial
  | storage => trivial

theorem PlaceIn.right {p : Place} (h : PlaceIn c c₁ p) (he : Counts c₁ c') : PlaceIn c c' p := by
  cases p with
  | register x t => exact h
  | memory => trivial
  | storage s t => exact FreshIn.right (h : FreshIn c c₁ s) he

theorem Loaded.fresh {p : Place} {w : Value} (hw : Loaded c₁ c' p w) (hp : PlaceIn c c₁ p)
    (h₁ : Counts c c₁) (h₂ : Counts c₁ c') : FreshIn c c' w := by
  rcases hw with hw | ⟨t, rfl⟩
  · exact hw.left h₁
  · exact FreshIn.right (hp : FreshIn c c₁ w) h₂

/-- Evaluators whose code builds: values and single values are fresh, and places are computed. -/
structure EvalBuilds (ev : Eval) : Prop where
  values : ∀ e, Builds (fun _ => True) (ev.values e) fun c vs c' => ∀ v ∈ vs, FreshIn c c' v
  single : ∀ e, Builds (fun _ => True) (ev.single e) fun c v c' => FreshIn c c' v
  place : ∀ e, Builds (fun _ => True) (ev.place e) fun c p c' => PlaceIn c c' p

variable {W : String → Prop}

theorem Spans.fork {blk : Block} (hb : c.builder.block? c.builder.current = some blk) {v : Value} {a e : Nat}
    (hclosed : ∀ f, Completes f c'.builder →
      f.body.blocks.get? c.builder.current = some { blk with term := .branch v a e })
    (hpick : ∀ k, k = a ∨ k = e → ∃ d : FnState, d.builder.current = k ∧ d.builder.pos = 0 ∧ Spans W d c') :
    Spans W c c' := by
  intro vm ls fuel
  have hk : ({ blk with term := .branch v a e } : Block).instrs.toList.length ≤ c.builder.pos := by
    simp [pos_eq hb]
  cases ht : vm.tick with
  | error err => exact ⟨.stop (.error err), fun name f hf => resume_end_error (hclosed f hf) hk ht, trivial⟩
  | ok vm₁ =>
    cases hc : ls.read v with
    | error err =>
      exact ⟨.stop (.error err), fun name f hf => resume_branch_fault (hclosed f hf) hk rfl ht hc, trivial⟩
    | ok z =>
      -- the block the condition picks, entered with one unit of fuel less
      obtain ⟨d, hd, hd0, hs⟩ := hpick (if z = 0 then e else a) (by by_cases hz : z = 0 <;> simp [hz])
      cases fuel with
      | zero =>
        refine ⟨.stop (.error (.stepLimit vm₁.maxSteps)), fun name f hf => ?_, trivial⟩
        rw [resume_branch_enter (hclosed f hf) hk rfl ht hc]
        rfl
      | succ fuel =>
        obtain ⟨x, hx, hkx⟩ := hs vm₁ ls fuel
        refine ⟨x, fun name f hf => ?_, hkx⟩
        rw [resume_branch_enter (hclosed f hf) hk rfl ht hc, ← hd, ← hd0]
        exact hx name f hf

theorem Spans.jump {blk : Block} (hb : c.builder.block? c.builder.current = some blk)
    (hclosed : ∀ f, Completes f c'.builder →
      f.body.blocks.get? c.builder.current = some { blk with term := .jump c'.builder.current })
    (hpos : c'.builder.pos = 0) : Spans W c c' :=
  fun vm ls fuel => ⟨_, Crosses.jump hb hclosed hpos, Exit.enter_keeps W vm ls fuel⟩

theorem Poised.closeSwitch (hp : Poised c) {blk : Block} (hb : c.builder.block? c.builder.current = some blk)
    {k : Nat} (hk : c.builder.Ahead k) (t : Terminator) :
    Poised { c with builder := c.builder.closeSwitch t blk k } := by
  obtain ⟨hne, l, hkb⟩ := hk
  have hopen : c.builder.isTerminated = false := by
    obtain ⟨cur, hcur, ho⟩ := hp.isOpen
    rw [isTerminated_eq hcur]
    simp [Block.isTerminated, ho]
  refine ⟨hp.below.closeSwitch hb, IsOpen.closeSwitch hkb hne rfl, fun a ha => ?_, hp.names⟩
  obtain ⟨q, hq, hrest⟩ := hp.shared a ha
  exact ⟨q, by rw [block?_closeSwitch_ne ((hp.shared a ha).ne_current hopen), hq], hrest⟩

theorem Extends.closeSwitch (h : Extends c c₁) {blk : Block}
    (hb : c₁.builder.block? c₁.builder.current = some blk)
    {t : Terminator} (ht : t ≠ .invalid) {k : Nat} (hk : c.builder.fn.body.nextId ≤ k) :
    Extends c { c₁ with builder := c₁.builder.closeSwitch t blk k } :=
  ⟨h.builder.trans (grows_closeSwitch hb ht hk), h.names, h.lookup⟩

namespace Gen

variable {env : Env} {s s' : GenState}

theorem close_stretch {c₀ : FnState} {t : Terminator} (ht : t ≠ .invalid) {blk : Block} {k : Nat} {u : Unit}
    (hp : Poised s.fn) (hb : s.fn.builder.block? s.fn.builder.current = some blk) (hk : s.fn.builder.Ahead k)
    (he : Extends c₀ s.fn) (hk₀ : c₀.builder.fn.body.nextId ≤ k)
    (h : switchTo k env (s.withBuilder (s.fn.builder.setTerm t blk)) = .ok (u, s')) :
    Poised s'.fn ∧ Extends c₀ s'.fn ∧ Counts s.fn s'.fn ∧ s'.fn.builder.current = k ∧ s'.fn.builder.pos = 0 ∧
      (∀ j, s.fn.builder.Ahead j → j ≠ k → s'.fn.builder.Ahead j) ∧
      ∀ f, Completes f s'.fn.builder →
        f.body.blocks.get? s.fn.builder.current = some { blk with term := t } ∧ Completes f s.fn.builder := by
  obtain ⟨hne, label, hkb⟩ := hk
  have hs : ((s.fn.builder.setTerm t blk).block? k).isSome := by
    rw [block?_setTerm, if_neg (Ne.symm hne), hkb]
    rfl
  obtain rfl : s' = s.withBuilder (s.fn.builder.closeSwitch t blk k) := by
    rw [switchTo_run (s := s.withBuilder (s.fn.builder.setTerm t blk)) hs] at h
    cases h
    rfl
  have hopen : blk.term = .invalid := by
    obtain ⟨blk', hb', ho⟩ := hp.isOpen
    rw [hb] at hb'
    cases hb'
    exact ho
  exact ⟨hp.closeSwitch hb ⟨hne, label, hkb⟩ t, he.closeSwitch hb ht hk₀,
      Counts.of_builder (Nat.le_refl _), rfl,
    pos_closeSwitch hkb hne rfl, fun j hj hjk => hj.closeSwitch hjk,
    fun f hf => ⟨hf.closeSwitch_current ht, hf.of_closeSwitch hp.below hb hopen ht⟩⟩

theorem assign_stretch {c₀ : FnState} {y w : Value} {u : Unit} (hp : Poised s.fn) (hy : FreshIn c₀ s.fn y)
    (h : emitUnit (.assign y w) env s = .ok (u, s')) :
    Poised s'.fn ∧ Extends s.fn s'.fn ∧ Spans (MayWrite c₀ s'.fn) s.fn s'.fn := by
  obtain ⟨-, hp', he, hsp⟩ := emitUnit_stretch hp h
  refine ⟨hp', he, hsp.mono fun x hx => .inl ((hy x ?_).right he.counts)⟩
  simpa [Instr.results, eq_comm] using hx

end Gen

section Forks

variable {ev : Eval} (hev : EvalBuilds ev)
include hev

namespace Gen

variable {env : Env} {s s' : GenState}

theorem builds_shortCircuit (isAnd : Bool) (l r : Expr) :
    Builds (fun _ => True) (shortCircuit ev isAnd l r) fun c v c' => FreshIn c c' v := by
  intro env s v s' hp _ hrun
  unfold shortCircuit at hrun
  have hname : GoodName (if isAnd then "and" else "or") := by
    cases isAnd <;> simp [GoodName, GoodBase, nameBase]
  -- the result register, with the left operand copied into it
  obtain ⟨y, s₁, h₁, hrun⟩ := Gen.bind_ok hrun
  obtain ⟨hp₁, hst₁, hy⟩ := builds_freshLocal hname env s y s₁ hp trivial h₁
  obtain ⟨lv, s₂, h₂, hrun⟩ := Gen.bind_ok hrun
  obtain ⟨hp₂, hst₂, -⟩ := hev.single l env s₁ lv s₂ hp₁ trivial h₂
  obtain ⟨u, s₃, h₃, hrun⟩ := Gen.bind_ok hrun
  obtain ⟨hp₃, he₃, hsp₃⟩ := assign_stretch hp₂ (hy.right hst₂.counts) h₃
  -- the blocks of the right operand and of the join, made ahead
  obtain ⟨rhs, s₄, h₄, hrun⟩ := Gen.bind_ok hrun
  obtain ⟨hrhs, hs₄, hp₄, hst₄⟩ := createBlock_stretch _ hp₃ h₄
  obtain ⟨join, s₅, h₅, hrun⟩ := Gen.bind_ok hrun
  obtain ⟨hjoin, hs₅, hp₅, hst₅⟩ := createBlock_stretch _ hp₄ h₅
  have hA₄ : s₄.fn.builder.Ahead rhs := by
    rw [hs₄, hrhs]
    exact ahead_createBlock hp₃.below hp₃.isOpen _
  have hA₅r : s₅.fn.builder.Ahead rhs := by
    rw [hs₅]
    exact hA₄.createBlock hp₄.below _
  have hA₅j : s₅.fn.builder.Ahead join := by
    rw [hs₅, hjoin]
    exact ahead_createBlock hp₄.below hp₄.isOpen _
  have hlt : rhs < join := by
    rw [hjoin]
    exact hA₄.lt hp₄.below
  -- the branch on the left operand, one way round or the other
  obtain ⟨a, e, hae, hrun⟩ : ∃ a e, (a = rhs ∧ e = join ∨ a = join ∧ e = rhs) ∧
      (terminate (.branch lv a e) >>= fun _ => switchTo rhs >>= fun _ => ev.single r >>= fun rv =>
        emitUnit (.assign y rv) >>= fun _ => jumpIfOpen join >>= fun _ => switchTo join >>= fun _ =>
          Pure.pure y) env s₅ = .ok (v, s') := by
    split at hrun
    · exact ⟨rhs, join, .inl ⟨rfl, rfl⟩, hrun⟩
    · exact ⟨join, rhs, .inr ⟨rfl, rfl⟩, hrun⟩
  have hpick : ∀ k, k = a ∨ k = e → k = rhs ∨ k = join := by
    rcases hae with ⟨rfl, rfl⟩ | ⟨rfl, rfl⟩ <;> intro k hk <;> omega
  have hts : ∀ x ∈ (Terminator.branch lv a e).successors, (s₅.fn.builder.block? x).isSome := by
    intro x hx
    simp only [Terminator.successors, List.mem_cons, List.mem_nil_iff, or_false] at hx
    rcases hpick x hx with rfl | rfl
    exacts [hA₅r.isSome, hA₅j.isSome]
  obtain ⟨u, s₆, h₆, hrun⟩ := Gen.bind_ok hrun
  obtain ⟨blk₅, hb₅, ho₅⟩ := hp₅.isOpen
  rw [terminate_run hts hb₅ ho₅] at h₆
  cases h₆
  -- the right operand, in its own block, copied into the result
  obtain ⟨u, s₇, h₇, hrun⟩ := Gen.bind_ok hrun
  obtain ⟨hp₇, he₇, hn₇, hcur₇, hpos₇, hA₇, hcl₇⟩ :=
    close_stretch (by simp) hp₅ hb₅ hA₅r (hst₄.grows.trans hst₅.grows) hrhs.ge h₇
  obtain ⟨rv, s₈, h₈, hrun⟩ := Gen.bind_ok hrun
  obtain ⟨hp₈, hst₈, -⟩ := hev.single r env s₇ rv s₈ hp₇ trivial h₈
  obtain ⟨u, s₉, h₉, hrun⟩ := Gen.bind_ok hrun
  obtain ⟨hp₉, he₉, hsp₉⟩ :=
    assign_stretch hp₈ (hy.right (hst₂.counts.trans (he₃.trans (he₇.trans hst₈.grows)).counts)) h₉
  -- the jump to the join, where the code goes on
  have hA₉j : s₉.fn.builder.Ahead join :=
    (hA₇ join hA₅j hlt.ne').of_grows ((hA₇ join hA₅j hlt.ne').lt hp₇.below) (hst₈.grows.trans he₉).builder
  obtain ⟨u, s₁₀, h₁₀, hrun⟩ := Gen.bind_ok hrun
  obtain ⟨blk₉, hb₉, ho₉⟩ := hp₉.isOpen
  rw [jumpIfOpen_run hA₉j.isSome hb₉ ho₉] at h₁₀
  cases h₁₀
  obtain ⟨u, s₁₁, h₁₁, hrun⟩ := Gen.bind_ok hrun
  cases hrun
  obtain ⟨hp', he', hn', hcur', hpos', -, hcl'⟩ :=
    close_stretch (by simp) hp₉ hb₉ hA₉j (he₇.trans (hst₈.grows.trans he₉)) (by omega) h₁₁
  have he₀ : Extends s.fn s₃.fn := (hst₁.grows.trans hst₂.grows).trans he₃
  refine ⟨hp', ⟨he₀.trans he', ?_⟩, hy.right (hst₂.counts.trans (he₃.trans he').counts)⟩
  -- every piece writes what the whole may write; the finished function completes each middle state
  have hW : ∀ {c₁ c₂ : FnState}, Counts s.fn c₁ → Counts c₂ s'.fn →
      ∀ x, MayWrite c₁ c₂ x → MayWrite s.fn s'.fn x :=
    fun h₁ h₂ x hx => (hx.left h₁).right h₂
  have hc₉ : ∀ f, Completes f s'.fn.builder → Completes f s₉.fn.builder := fun f hf => (hcl' f hf).2
  have hc₇ : ∀ f, Completes f s'.fn.builder → Completes f s₇.fn.builder :=
    fun f hf => hp₇.completes (hst₈.grows.trans he₉) (hc₉ f hf)
  have harm : Spans (MayWrite s.fn s'.fn) s₇.fn s'.fn := by
    refine (hst₈.spans.mono (hW (he₀.trans he₇).counts (he₉.counts.trans hn'))).trans
      (fun f hf => hp₈.completes he₉ (hc₉ f hf)) ((hsp₉.mono (hW (Counts.refl _) hn')).trans hc₉
        (Spans.jump hb₉ (fun f hf => ?_) hpos'))
    rw [hcur']
    exact (hcl' f hf).1
  have hfork : Spans (MayWrite s.fn s'.fn) s₅.fn s'.fn := by
    refine Spans.fork hb₅ (fun f hf => (hcl₇ f (hc₇ f hf)).1) fun k hk => ?_
    rcases hpick k hk with rfl | rfl
    · exact ⟨s₇.fn, hcur₇, hpos₇, harm⟩
    · exact ⟨s'.fn, hcur', hpos', Spans.stay rfl rfl⟩
  have hsp₀₂ := (hst₁.trans hp₁ hst₂).spans.mono (hW (Counts.refl _) (he₃.trans he').counts)
  have hsp₃₅ := (hst₄.trans hp₄ hst₅).spans.mono
    (hW he₀.counts (hn₇.trans ((hst₈.grows.trans he₉).counts.trans hn')))
  exact hsp₀₂.trans (fun f hf => hp₂.completes (he₃.trans he') hf)
    ((hsp₃.mono (hW (Counts.refl _) he'.counts)).trans (fun f hf => hp₃.completes he' hf)
      (hsp₃₅.trans (fun f hf => (hcl₇ f (hc₇ f hf)).2) hfork))

theorem arm_stretch {c₀ : FnState} {t : Terminator} (ht : t ≠ .invalid) {blk : Block} {k join : Nat}
    {y : Value} {arm : Expr} {ty : TypeName} {node : Nat} {r : ForInStep PUnit}
    (hp : Poised s.fn) (hb : s.fn.builder.block? s.fn.builder.current = some blk)
    (hk : s.fn.builder.Ahead k) (hj : s.fn.builder.Ahead join) (hkj : join ≠ k)
    (he : Extends c₀ s.fn) (hk₀ : c₀.builder.fn.body.nextId ≤ k) (hy : FreshIn c₀ s.fn y)
    (h : (switchTo k >>= fun _ => ev.single arm >>= fun v => prepareValue v arm.ty ty node >>= fun v =>
      emitUnit (.assign y v) >>= fun _ => jumpIfOpen join >>= fun _ => Pure.pure (ForInStep.yield PUnit.unit))
        env (s.withBuilder (s.fn.builder.setTerm t blk)) = .ok (r, s')) :
    r = .yield PUnit.unit ∧ ∃ d : GenState, ∃ blk', Poised d.fn ∧ Extends c₀ d.fn ∧ Counts s.fn d.fn ∧
      d.fn.builder.block? d.fn.builder.current = some blk' ∧
      s' = d.withBuilder (d.fn.builder.setTerm (.jump join) blk') ∧
      (∀ j, s.fn.builder.Ahead j → j ≠ k → d.fn.builder.Ahead j) ∧
      (∀ f, Completes f d.fn.builder →
        f.body.blocks.get? s.fn.builder.current = some { blk with term := t } ∧ Completes f s.fn.builder) ∧
      (∃ q q₁ : GenState, ∃ w, q.fn.builder.current = k ∧ q.fn.builder.pos = 0 ∧ Poised q.fn ∧
        (∀ f, Completes f q.fn.builder →
          f.body.blocks.get? s.fn.builder.current = some { blk with term := t } ∧ Completes f s.fn.builder) ∧
        ev.single arm env q = .ok (w, q₁) ∧ Stretch q.fn q₁.fn ∧ Poised q₁.fn ∧ Extends q₁.fn d.fn) ∧
      ∀ c' : FnState, c'.builder.current = join → c'.builder.pos = 0 → Counts d.fn c' →
        (∀ f, Completes f c'.builder → f.body.blocks.get? d.fn.builder.current =
          some { blk' with term := .jump join } ∧ Completes f d.fn.builder) →
        ∃ q : FnState, q.builder.current = k ∧ q.builder.pos = 0 ∧ Spans (MayWrite c₀ c') q c' := by
  obtain ⟨u, q, h₀, h⟩ := Gen.bind_ok h
  obtain ⟨hpq, heq, hnq, hcur, hpos, hA, hcl⟩ := close_stretch ht hp hb hk he hk₀ h₀
  -- the value of the arm, prepared for the type of the whole
  obtain ⟨w, q₁, h₁, h⟩ := Gen.bind_ok h
  obtain ⟨hp₁, hst₁, -⟩ := hev.single arm env q w q₁ hpq trivial h₁
  obtain ⟨w', q₂, h₂, h⟩ := Gen.bind_ok h
  obtain ⟨hp₂, hst₂, -⟩ := builds_prepareValue w arm.ty ty node env q₁ w' q₂ hp₁ trivial h₂
  have hst := hst₁.trans hp₁ hst₂
  obtain ⟨u, d, h₃, h⟩ := Gen.bind_ok h
  obtain ⟨hpd, hed, hspd⟩ := assign_stretch hp₂ (hy.right (hnq.trans hst.counts)) h₃
  -- the jump to the join
  obtain ⟨u, s₄, h₄, h⟩ := Gen.bind_ok h
  obtain ⟨blk', hb', ho'⟩ := hpd.isOpen
  have hjd : d.fn.builder.Ahead join :=
    (hA join hj hkj).of_grows ((hA join hj hkj).lt hpq.below) (hst.grows.trans hed).builder
  rw [jumpIfOpen_run hjd.isSome hb' ho'] at h₄
  cases h₄
  cases h
  have hqd : Extends q.fn d.fn := hst.grows.trans hed
  refine ⟨rfl, d, blk', hpd, heq.trans hqd, hnq.trans hqd.counts, hb', rfl,
    fun j hj hjk => (hA j hj hjk).of_grows ((hA j hj hjk).lt hpq.below) hqd.builder,
    fun f hf => hcl f (hpq.completes hqd hf), ⟨q, q₁, w, hcur, hpos, hpq, hcl, h₁, hst₁, hp₁,
        hst₂.grows.trans hed⟩,
    fun c' hc' hpos' hn hcl' => ⟨q.fn, hcur, hpos, ?_⟩⟩
  have hc : ∀ f, Completes f c'.builder → Completes f d.fn.builder := fun f hf => (hcl' f hf).2
  refine (hst.spans.mono fun x hx => (hx.left heq.counts).right (hed.counts.trans hn)).trans
    (fun f hf => hp₂.completes hed (hc f hf)) ((hspd.mono fun x hx => hx.right hn).trans hc
      (Spans.jump hb' (fun f hf => ?_) hpos'))
  rw [hc']
  exact (hcl' f hf).1

theorem builds_conditional (e cond a b : Expr) :
    Builds (fun _ => True) (conditional ev e cond a b) fun c v c' => FreshIn c c' v := by
  intro env s v s' hp _ hrun
  unfold conditional at hrun
  split at hrun
  · obtain ⟨_, _, h, -⟩ := Gen.bind_ok hrun
    cases h
  -- the condition, the result register and the three blocks, made ahead
  obtain ⟨cv, s₁, h₁, hrun⟩ := Gen.bind_ok hrun
  obtain ⟨hp₁, hst₁, -⟩ := hev.single cond env s cv s₁ hp trivial h₁
  obtain ⟨y, s₂, h₂, hrun⟩ := Gen.bind_ok hrun
  obtain ⟨hp₂, hst₂, hy⟩ :=
    builds_freshLocal (by simp [GoodName, GoodBase, nameBase]) env s₁ y s₂ hp₁ trivial h₂
  obtain ⟨tb, s₃, h₃, hrun⟩ := Gen.bind_ok hrun
  obtain ⟨htb, hs₃, hp₃, hst₃⟩ := createBlock_stretch _ hp₂ h₃
  obtain ⟨fb, s₄, h₄, hrun⟩ := Gen.bind_ok hrun
  obtain ⟨hfb, hs₄, hp₄, hst₄⟩ := createBlock_stretch _ hp₃ h₄
  obtain ⟨join, s₅, h₅, hrun⟩ := Gen.bind_ok hrun
  obtain ⟨hjoin, hs₅, hp₅, hst₅⟩ := createBlock_stretch _ hp₄ h₅
  have hA₃ : s₃.fn.builder.Ahead tb := by
    rw [hs₃, htb]
    exact ahead_createBlock hp₂.below hp₂.isOpen _
  have hA₄f : s₄.fn.builder.Ahead fb := by
    rw [hs₄, hfb]
    exact ahead_createBlock hp₃.below hp₃.isOpen _
  have hA₅j : s₅.fn.builder.Ahead join := by
    rw [hs₅, hjoin]
    exact ahead_createBlock hp₄.below hp₄.isOpen _
  have hA₅f : s₅.fn.builder.Ahead fb := by
    rw [hs₅]
    exact hA₄f.createBlock hp₄.below _
  have hA₅t : s₅.fn.builder.Ahead tb := by
    rw [hs₅]
    exact (by rw [hs₄]; exact hA₃.createBlock hp₃.below _ : s₄.fn.builder.Ahead tb).createBlock hp₄.below _
  have hlt₁ : tb < fb := by
    rw [hfb]
    exact hA₃.lt hp₃.below
  have hlt₂ : fb < join := by
    rw [hjoin]
    exact hA₄f.lt hp₄.below
  have he₂ : Extends s.fn s₂.fn := hst₁.grows.trans hst₂.grows
  have he₅ : Extends s.fn s₅.fn := he₂.trans (hst₃.grows.trans (hst₄.grows.trans hst₅.grows))
  have htb₀ : s.fn.builder.fn.body.nextId ≤ tb := htb ▸ he₂.builder.nextId
  have hy₅ : FreshIn s.fn s₅.fn y := (hy.left hst₁.counts).right
      (hst₃.grows.trans (hst₄.grows.trans hst₅.grows)).counts
  -- the branch on the condition
  obtain ⟨u, s₆, h₆, hrun⟩ := Gen.bind_ok hrun
  obtain ⟨blk₅, hb₅, ho₅⟩ := hp₅.isOpen
  have hts : ∀ x ∈ (Terminator.branch cv tb fb).successors, (s₅.fn.builder.block? x).isSome := by
    intro x hx
    simp only [Terminator.successors, List.mem_cons, List.mem_nil_iff, or_false] at hx
    rcases hx with rfl | rfl
    exacts [hA₅t.isSome, hA₅f.isSome]
  rw [terminate_run hts hb₅ ho₅] at h₆
  cases h₆
  -- the two arms, one turn of the loop each
  obtain ⟨u, s₇, hloop, hrun⟩ := Gen.bind_ok hrun
  rw [List.forIn_cons] at hloop
  obtain ⟨r₁, s₈, harm₁, hloop⟩ := Gen.bind_ok hloop
  obtain ⟨rfl, d₁, blk₁, hp₁', he₁', hn₁, hb₁, rfl, hA₁, hcl₁, -, hspan₁⟩ :=
    arm_stretch hev (by simp) hp₅ hb₅ hA₅t hA₅j (by omega) he₅ htb₀ hy₅ harm₁
  dsimp only at hloop
  rw [List.forIn_cons] at hloop
  obtain ⟨r₂, s₉, harm₂, hloop⟩ := Gen.bind_ok hloop
  obtain ⟨rfl, d₂, blk₂, hp₂', he₂', hn₂, hb₂, rfl, hA₂, hcl₂, -, hspan₂⟩ :=
    arm_stretch hev (by simp) hp₁' hb₁ (hA₁ fb hA₅f (by omega)) (hA₁ join hA₅j (by omega)) (by omega) he₁'
      (by omega) (hy₅.right hn₁) harm₂
  dsimp only at hloop
  rw [List.forIn_nil] at hloop
  cases hloop
  -- the join, where the code goes on
  obtain ⟨u, s₁₀, h₁₀, hrun⟩ := Gen.bind_ok hrun
  cases hrun
  obtain ⟨hp', he', hn', hcur', hpos', -, hcl'⟩ :=
    close_stretch (by simp) hp₂' hb₂ (hA₂ join (hA₁ join hA₅j (by omega)) (by omega)) he₂' (by omega) h₁₀
  refine ⟨hp', ⟨he', ?_⟩, hy₅.right (hn₁.trans (hn₂.trans hn'))⟩
  have hc₁ : ∀ f, Completes f s'.fn.builder → Completes f d₁.fn.builder :=
    fun f hf => (hcl₂ f (hcl' f hf).2).2
  have hfork : Spans (MayWrite s.fn s'.fn) s₅.fn s'.fn := by
    refine Spans.fork hb₅ (fun f hf => (hcl₁ f (hc₁ f hf)).1) fun k hk => ?_
    rcases hk with rfl | rfl
    · exact hspan₁ s'.fn hcur' hpos' (hn₂.trans hn') fun f hf => hcl₂ f (hcl' f hf).2
    · exact hspan₂ s'.fn hcur' hpos' hn' hcl'
  exact ((hst₁.trans hp₁ (hst₂.trans hp₂ (hst₃.trans hp₃ (hst₄.trans hp₄ hst₅)))).spans.mono
    fun x hx => hx.right (hn₁.trans (hn₂.trans hn'))).trans (fun f hf => (hcl₁ f (hc₁ f hf)).2) hfork

end Gen

end Forks

end ContractCfg.Lower
