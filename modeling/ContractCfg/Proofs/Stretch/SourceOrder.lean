import ContractCfg.Proofs.Stretch.Order

/-!
The order of every expression's code.

The connectives `&&` and `||` and the conditional `?:` branch on the value of their first operand:
from the end of its code, calm code keeping its register leads to the branch, which enters the
block of the operand it picks or goes on to the join (`Forks`). With them, every expression's
lowering follows the order of its source (`sourceOrder`): the left operand of a binary operator
before the right, the arguments of a call left to right with an external call's address first and
its value and gas last, the base before the index, the array before the element of a `push`, the
condition before the arm it picks, and the right side of an assignment before the place assigned.
-/

namespace ContractCfg.Lower

open ContractCfg.IR ContractCfg.IR.FnBuilder ContractCfg.Machine ContractCfg.Machine.Vm
open ContractCfg.Source (Expr BinaryOp)

theorem Agree.read_eq {H : String → Prop} {ls ls' : Locals} (h : Agree H ls ls') {v : Value}
    (hH : ∀ x, v = .reg x → H x) : ls'.read v = ls.read v := by
  cases v with
  | const c => rfl
  | reg x => rw [read_reg, read_reg, h x (hH x rfl)]

theorem HandedBetween.apart {c c₁ c₂ : FnState} {x : String} (h₁ : HandedBetween c c₁ x)
    (h₂ : HandedBetween c₁ c₂ x) (hn₁ : NamesOK c₁) (hn₂ : NamesOK c₂) : False := by
  rcases h₁ with ⟨j, -, hj, rfl⟩ | ⟨b, i, -, hi, rfl⟩ <;>
    rcases h₂ with ⟨j', hj', -, he⟩ | ⟨b', i', hi', hi'', he⟩
  · -- two temporaries: the counter of the middle state lies between them
    have := toString_inj he
    omega
  · exact (hn₂ b' (by omega)).regName_ne_toString i' j he.symm
  · exact (hn₁ b (by omega)).regName_ne_toString i j' he
  · -- two names: the same base, and the counter of the middle state lies between them
    obtain ⟨rfl, rfl⟩ := regName_inj (hn₁ b (by omega)) (hn₂ b' (by omega)) he
    omega

theorem Crosses.retarget {b b₁ b₂ : FnBuilder} {vm : Vm} {ls : Locals} {fuel : Nat} {x : Exit}
    (h : Crosses b b₁ vm ls fuel x) (hc : ∀ f, Completes f b₂ → Completes f b₁)
    (hcur : b₂.current = b₁.current) (hpos : b₂.pos = b₁.pos) : Crosses b b₂ vm ls fuel x := by
  intro name f hf
  rw [h name f (hc f hf), hcur, hpos]

namespace Forks

variable {v : Value} {c c₁ d e : FnState}

theorem branch {blk : Block} (hb : c.builder.block? c.builder.current = some blk) {a a' : Nat}
    (hd : d.builder.current = a) (hd0 : d.builder.pos = 0) (he : e.builder.current = a')
    (he0 : e.builder.pos = 0)
    (hcd : ∀ f, Completes f d.builder →
      f.body.blocks.get? c.builder.current = some { blk with term := .branch v a a' })
    (hce : ∀ f, Completes f e.builder →
      f.body.blocks.get? c.builder.current = some { blk with term := .branch v a a' }) :
    Forks v c d e := by
  intro vm ls fuel
  have hk : ({ blk with term := .branch v a a' } : Block).instrs.toList.length ≤ c.builder.pos := by
    simp [pos_eq hb]
  cases ht : vm.tick with
  | error err =>
    exact ⟨.stop (.error err), trivial, fun _ name f hf => resume_end_error (hce f hf) hk ht,
      fun _ name f hf => resume_end_error (hcd f hf) hk ht⟩
  | ok vm₁ =>
    cases hc : ls.read v with
    | error err =>
      exact ⟨.stop (.error err), trivial, fun h => (by cases h),
        fun _ name f hf => resume_branch_fault (hcd f hf) hk rfl ht hc⟩
    | ok z =>
      -- the block the value picks, entered with the registers as they were
      refine ⟨Exit.into vm₁ ls fuel, ?_, fun hz name f hf => ?_, fun hz name f hf => ?_⟩
      · cases fuel with
        | zero => trivial
        | succ fuel => exact congrArg State.storage (Vm.tick_state ht)
      · obtain rfl : z = 0 := by simpa using hz
        rw [resume_branch_enter (hce f hf) hk rfl ht hc, if_pos rfl, he, he0]
      · have hz : z ≠ 0 := fun h => hz (h ▸ rfl)
        rw [resume_branch_enter (hcd f hf) hk rfl ht hc, if_neg hz, hd, hd0]

theorem pre {W : String → Prop}
    (h₁ : ∀ vm ls fuel, ∃ x, Crosses c.builder c₁.builder vm ls fuel x ∧ x.Still vm ∧ x.Keeps W ls)
    (hv : ∀ y, v = .reg y → ¬ W y) (hcd : Finishes d.builder c₁.builder) (hce : Finishes e.builder c₁.builder)
    (h : Forks v c₁ d e) : Forks v c d e := by
  intro vm ls fuel
  obtain ⟨x, hx, hs, hk⟩ := h₁ vm ls fuel
  -- the fork from wherever the calm code ends, reading what `v` held before it
  let g : Vm → Locals → Nat → Exit := fun vm₁ ls₁ fuel₁ => Classical.choose (h vm₁ ls₁ fuel₁)
  have hg : ∀ vm₁ ls₁ fuel₁, (g vm₁ ls₁ fuel₁).Still vm₁ ∧
      (ls₁.read v = .ok 0 → Crosses c₁.builder e.builder vm₁ ls₁ fuel₁ (g vm₁ ls₁ fuel₁)) ∧
      (ls₁.read v ≠ .ok 0 → Crosses c₁.builder d.builder vm₁ ls₁ fuel₁ (g vm₁ ls₁ fuel₁)) :=
    fun vm₁ ls₁ fuel₁ => Classical.choose_spec (h vm₁ ls₁ fuel₁)
  have hread : ∀ vm₁ ls₁ fuel₁, x = .reach vm₁ ls₁ fuel₁ → ls₁.read v = ls.read v := by
    rintro vm₁ ls₁ fuel₁ rfl
    exact Agree.read_eq hk fun y hy => hv y hy
  refine ⟨x.bind g, hs.bind fun vm₁ ls₁ fuel₁ _ => (hg vm₁ ls₁ fuel₁).1, fun hz => ?_, fun hz => ?_⟩
  · exact hx.trans hce fun vm₁ ls₁ fuel₁ hr => (hg vm₁ ls₁ fuel₁).2.1 (hread vm₁ ls₁ fuel₁ hr ▸ hz)
  · exact hx.trans hcd fun vm₁ ls₁ fuel₁ hr => (hg vm₁ ls₁ fuel₁).2.2 (hread vm₁ ls₁ fuel₁ hr ▸ hz)

end Forks

theorem Gen.freshLocal_builder {env : Env} {base : String} {v : Value} {s s' : GenState}
    (h : Gen.freshLocal base env s = .ok (v, s')) : s'.fn.builder = s.fn.builder := by
  unfold Gen.freshLocal at h
  obtain ⟨x, s₁, h₁, h₂⟩ := Gen.bind_ok h
  cases h₂
  rw [Gen.freshName_run] at h₁
  cases h₁
  rfl

theorem Gen.createBlock_point {env : Env} {label : String} {k : Nat} {s s' : GenState} (hp : Poised s.fn)
    (h : Gen.createBlock label env s = .ok (k, s')) :
    s'.fn.builder.current = s.fn.builder.current ∧ s'.fn.builder.pos = s.fn.builder.pos := by
  obtain ⟨-, rfl, -⟩ := Gen.createBlock_stretch label hp h
  exact ⟨rfl, pos_createBlock hp.below hp.isOpen label⟩

section Branches

variable {ev : Eval} (heo : EvalOrders ev)
include heo

namespace Gen

variable {env : Env}

theorem ends_conditional (e cond a b : Expr) :
    Ends env (fun _ => True) (conditional ev e cond a b)
      (.test cond (.run (.value a) .done) (.run (.value b) .done)) := by
  intro s v s' hp _ hrun
  obtain ⟨hp', hst', -⟩ := builds_conditional heo.builds e cond a b env s v s' hp trivial hrun
  refine ⟨⟨hp', hst'.grows⟩, fun B hB => ?_⟩
  unfold conditional at hrun
  split at hrun
  · obtain ⟨_, _, h, -⟩ := Gen.bind_ok hrun
    cases h
  -- the condition, the result register and the three blocks, made ahead
  obtain ⟨cv, s₁, h₁, hrun⟩ := Gen.bind_ok hrun
  obtain ⟨hp₁, hst₁, -⟩ := heo.builds.single cond env s cv s₁ hp trivial h₁
  obtain ⟨y, s₂, h₂, hrun⟩ := Gen.bind_ok hrun
  obtain ⟨hp₂, hst₂, hy⟩ :=
    builds_freshLocal (by simp [GoodName, GoodBase, nameBase]) env s₁ y s₂ hp₁ trivial h₂
  obtain ⟨tb, s₃, h₃, hrun⟩ := Gen.bind_ok hrun
  obtain ⟨htb, hs₃, hp₃, hst₃⟩ := createBlock_stretch _ hp₂ h₃
  obtain ⟨fb, s₄, h₄, hrun⟩ := Gen.bind_ok hrun
  obtain ⟨hfb, hs₄, hp₄, hst₄⟩ := createBlock_stretch _ hp₃ h₄
  obtain ⟨join, s₅, h₅, hrun⟩ := Gen.bind_ok hrun
  obtain ⟨hjoin, hs₅, hp₅, hst₅⟩ := createBlock_stretch _ hp₄ h₅
  have hA₃ : s₃.fn.builder.Ahead tb := by
    rw [hs₃, htb]
    exact ahead_createBlock hp₂.below hp₂.isOpen _
  have hA₄f : s₄.fn.builder.Ahead fb := by
    rw [hs₄, hfb]
    exact ahead_createBlock hp₃.below hp₃.isOpen _
  have hA₅j : s₅.fn.builder.Ahead join := by
    rw [hs₅, hjoin]
    exact ahead_createBlock hp₄.below hp₄.isOpen _
  have hA₅f : s₅.fn.builder.Ahead fb := by
    rw [hs₅]
    exact hA₄f.createBlock hp₄.below _
  have hA₅t : s₅.fn.builder.Ahead tb := by
    rw [hs₅]
    exact (by rw [hs₄]; exact hA₃.createBlock hp₃.below _ : s₄.fn.builder.Ahead tb).createBlock hp₄.below _
  have hlt₁ : tb < fb := by
    rw [hfb]
    exact hA₃.lt hp₃.below
  have hlt₂ : fb < join := by
    rw [hjoin]
    exact hA₄f.lt hp₄.below
  have he₁₅ : Extends s₁.fn s₅.fn := hst₂.grows.trans (hst₃.grows.trans (hst₄.grows.trans hst₅.grows))
  have he₅ : Extends s.fn s₅.fn := hst₁.grows.trans he₁₅
  have htb₀ : s.fn.builder.fn.body.nextId ≤ tb := htb ▸ (hst₁.grows.trans hst₂.grows).builder.nextId
  have hy₅ : FreshIn s.fn s₅.fn y :=
    (hy.left hst₁.counts).right (hst₃.grows.trans (hst₄.grows.trans hst₅.grows)).counts
  -- the branch on the condition
  obtain ⟨u, s₆, h₆, hrun⟩ := Gen.bind_ok hrun
  obtain ⟨blk₅, hb₅, ho₅⟩ := hp₅.isOpen
  have hts : ∀ x ∈ (Terminator.branch cv tb fb).successors, (s₅.fn.builder.block? x).isSome := by
    intro x hx
    simp only [Terminator.successors, List.mem_cons, List.mem_nil_iff, or_false] at hx
    rcases hx with rfl | rfl
    exacts [hA₅t.isSome, hA₅f.isSome]
  rw [terminate_run hts hb₅ ho₅] at h₆
  cases h₆
  -- the two arms, with the start of each and the end of its operand
  obtain ⟨u, s₇, hloop, hrun⟩ := Gen.bind_ok hrun
  rw [List.forIn_cons] at hloop
  obtain ⟨r₁, s₈, harm₁, hloop⟩ := Gen.bind_ok hloop
  obtain ⟨rfl, d₁, blk₁, hp₁', he₁', hn₁, hb₁, rfl, hA₁, hcl₁,
      ⟨q₁, q₁', w₁, hcur₁, hpos₁, hpq₁, hclq₁, hrun₁, hstq₁, hpq₁', heq₁⟩, -⟩ :=
    arm_stretch heo.builds (by simp) hp₅ hb₅ hA₅t hA₅j (by omega) he₅ htb₀ hy₅ harm₁
  dsimp only at hloop
  rw [List.forIn_cons] at hloop
  obtain ⟨r₂, s₉, harm₂, hloop⟩ := Gen.bind_ok hloop
  obtain ⟨rfl, d₂, blk₂, hp₂', he₂', hn₂, hb₂, rfl, hA₂, hcl₂,
      ⟨q₂, q₂', w₂, hcur₂, hpos₂, hpq₂, hclq₂, hrun₂, hstq₂, hpq₂', heq₂⟩, -⟩ :=
    arm_stretch heo.builds (by simp) hp₁' hb₁ (hA₁ fb hA₅f (by omega)) (hA₁ join hA₅j (by omega)) (by omega)
      he₁' (by omega) (hy₅.right hn₁) harm₂
  dsimp only at hloop
  rw [List.forIn_nil] at hloop
  cases hloop
  -- the join
  obtain ⟨u, s₁₀, h₁₀, hrun⟩ := Gen.bind_ok hrun
  cases hrun
  obtain ⟨-, -, -, -, -, -, hcl'⟩ :=
    close_stretch (by simp) hp₂' hb₂ (hA₂ join (hA₁ join hA₅j (by omega)) (by omega)) he₂' (by omega) h₁₀
  -- what finishes the end of the whole finishes each arm and the fork
  have hc₂ : Finishes B d₂.fn.builder := fun f hf => (hcl' f (hB f hf)).2
  have hc₁ : Finishes B d₁.fn.builder := fun f hf => (hcl₂ f (hc₂ f hf)).2
  have hc₅ : Finishes B s₅.fn.builder := fun f hf => (hcl₁ f (hc₁ f hf)).2
  have hfin₁ : Finishes B s₁.fn.builder := hc₅.back hp₁ he₁₅
  have harm : ∀ {q q' d : GenState} {arm : Expr} {w : Value}, Poised q.fn → Poised q'.fn →
      ev.single arm env q = .ok (w, q') → Stretch q.fn q'.fn → Extends q'.fn d.fn → Finishes B d.fn.builder →
      Finishes B q.fn.builder ∧ InOrder env B q (.run (.value arm) .done) := by
    intro q q' d arm w hpq hpq' hrun hst he hfin
    obtain ⟨fuel, hrun⟩ := heo.single arm env q w q' hrun
    exact ⟨(hfin.back hpq' he).back hpq hst.grows,
      .run (Calm.refl _) ((hfin.back hpq' he).back hpq hst.grows) ⟨fuel, w, hrun⟩ hst
          (hfin.back hpq' he) (.done _)⟩
  obtain ⟨hfinq₁, hord₁⟩ := harm hpq₁ hpq₁' hrun₁ hstq₁ heq₁ hc₁
  obtain ⟨hfinq₂, hord₂⟩ := harm hpq₂ hpq₂' hrun₂ hstq₂ heq₂ hc₂
  -- from the end of the condition nothing runs before the branch
  have hstay : s₅.fn.builder.current = s₁.fn.builder.current ∧ s₅.fn.builder.pos = s₁.fn.builder.pos := by
    have hb₂ := freshLocal_builder h₂
    obtain ⟨hc₃, hp₃'⟩ := createBlock_point hp₂ h₃
    obtain ⟨hc₄, hp₄'⟩ := createBlock_point hp₃ h₄
    obtain ⟨hc₅, hp₅'⟩ := createBlock_point hp₄ h₅
    rw [hc₅, hc₄, hc₃, hp₅', hp₄', hp₃', hb₂]
    exact ⟨rfl, rfl⟩
  have hfork : Forks cv s₁.fn q₁.fn q₂.fn :=
    Forks.pre (W := fun _ => False) (fun vm ls fuel => ⟨_, Crosses.stay hstay.1 hstay.2, rfl, Agree.refl _ _⟩)
      (fun _ _ h => h) (fun f hf => (hclq₁ f hf).2) (fun f hf => (hcl₁ f (hclq₂ f hf).2).2)
      (Forks.branch hb₅ hcur₁ hpos₁ hcur₂ hpos₂ (fun f hf => (hclq₁ f hf).1)
        fun f hf => (hcl₁ f (hclq₂ f hf).2).1)
  obtain ⟨fuel, hcond⟩ := heo.single cond env s cv s₁ h₁
  exact .test (Calm.refl _) (hfin₁.back hp hst₁.grows) ⟨fuel, hcond⟩ hst₁ hfin₁ hfork hfinq₁ hfinq₂
      hord₁ hord₂

theorem ends_shortCircuit (isAnd : Bool) (l r : Expr) :
    Ends env (fun _ => True) (shortCircuit ev isAnd l r)
      (if isAnd then .test l (.run (.value r) .done) .done else .test l .done (.run (.value r) .done)) := by
  intro s v s' hp _ hrun
  obtain ⟨hp', hst', -⟩ := builds_shortCircuit heo.builds isAnd l r env s v s' hp trivial hrun
  refine ⟨⟨hp', hst'.grows⟩, fun B hB => ?_⟩
  unfold shortCircuit at hrun
  have hname : GoodName (if isAnd then "and" else "or") := by
    cases isAnd <;> simp [GoodName, GoodBase, nameBase]
  -- the result register, with the left operand copied into it
  obtain ⟨y, s₁, h₁, hrun⟩ := Gen.bind_ok hrun
  obtain ⟨hp₁, hst₁, hy⟩ := builds_freshLocal hname env s y s₁ hp trivial h₁
  obtain ⟨-, hcalm₁⟩ := calmly_freshLocal hname env s y s₁ hp h₁
  obtain ⟨lv, s₂, h₂, hrun⟩ := Gen.bind_ok hrun
  obtain ⟨hp₂, hst₂, hlv⟩ := heo.builds.single l env s₁ lv s₂ hp₁ trivial h₂
  obtain ⟨u, s₃, h₃, hrun⟩ := Gen.bind_ok hrun
  obtain ⟨hs₃, hp₃, he₃, -⟩ := emitUnit_stretch hp₂ h₃
  -- the blocks of the right operand and of the join, made ahead
  obtain ⟨rhs, s₄, h₄, hrun⟩ := Gen.bind_ok hrun
  obtain ⟨hrhs, hs₄, hp₄, hst₄⟩ := createBlock_stretch _ hp₃ h₄
  obtain ⟨join, s₅, h₅, hrun⟩ := Gen.bind_ok hrun
  obtain ⟨hjoin, hs₅, hp₅, hst₅⟩ := createBlock_stretch _ hp₄ h₅
  have hA₄ : s₄.fn.builder.Ahead rhs := by
    rw [hs₄, hrhs]
    exact ahead_createBlock hp₃.below hp₃.isOpen _
  have hA₅r : s₅.fn.builder.Ahead rhs := by
    rw [hs₅]
    exact hA₄.createBlock hp₄.below _
  have hA₅j : s₅.fn.builder.Ahead join := by
    rw [hs₅, hjoin]
    exact ahead_createBlock hp₄.below hp₄.isOpen _
  have hlt : rhs < join := by
    rw [hjoin]
    exact hA₄.lt hp₄.below
  -- the branch on the left operand: to the right operand when it does not decide
  obtain ⟨a, e, hae, hrun⟩ : ∃ a e, (isAnd = true ∧ a = rhs ∧ e = join ∨ isAnd = false ∧ a = join ∧ e = rhs) ∧
      (terminate (.branch lv a e) >>= fun _ => switchTo rhs >>= fun _ => ev.single r >>= fun rv =>
        emitUnit (.assign y rv) >>= fun _ => jumpIfOpen join >>= fun _ => switchTo join >>= fun _ =>
          Pure.pure y) env s₅ = .ok (v, s') := by
    cases isAnd
    · exact ⟨join, rhs, .inr ⟨rfl, rfl, rfl⟩, hrun⟩
    · exact ⟨rhs, join, .inl ⟨rfl, rfl, rfl⟩, hrun⟩
  have hts : ∀ x ∈ (Terminator.branch lv a e).successors, (s₅.fn.builder.block? x).isSome := by
    intro x hx
    simp only [Terminator.successors, List.mem_cons, List.mem_nil_iff, or_false] at hx
    have hx' : x = rhs ∨ x = join := by
      rcases hae with ⟨-, rfl, rfl⟩ | ⟨-, rfl, rfl⟩ <;> omega
    rcases hx' with rfl | rfl
    exacts [hA₅r.isSome, hA₅j.isSome]
  -- the copy into the result keeps the left operand, handed out after the result
  have hcopy : ∀ vm ls fuel, ∃ x, Crosses s₂.fn.builder s₅.fn.builder vm ls fuel x ∧ x.Still vm ∧
      x.Keeps (fun z => Value.reg z ∈ (Instr.assign y lv).results) ls := by
    intro vm ls fuel
    obtain ⟨blk₂, hb₂, -⟩ := hp₂.isOpen
    obtain ⟨hc₄, hp₄'⟩ := createBlock_point hp₃ h₄
    obtain ⟨hc₅', hp₅'⟩ := createBlock_point hp₄ h₅
    refine ⟨_, ?_, Exit.instr_still vm ls fuel rfl, Exit.instr_keeps vm ls fuel _⟩
    have hpush : Crosses s₂.fn.builder s₃.fn.builder vm ls fuel (Exit.instr vm ls fuel (.assign y lv)) := by
      rw [hs₃]
      exact Crosses.push hb₂ _
    exact hpush.retarget (fun f hf => hp₃.completes (hst₄.grows.trans hst₅.grows) hf) (hc₅'.trans hc₄)
      (hp₅'.trans hp₄')
  have hkeep : ∀ z, lv = .reg z → ¬ Value.reg z ∈ (Instr.assign y lv).results := by
    intro z hz hmem
    simp only [Instr.results, List.mem_singleton] at hmem
    exact HandedBetween.apart (hy z hmem.symm) (hlv z hz) hp₁.names hp₂.names
  obtain ⟨u, s₆, h₆, hrun⟩ := Gen.bind_ok hrun
  obtain ⟨blk₅, hb₅, ho₅⟩ := hp₅.isOpen
  rw [terminate_run hts hb₅ ho₅] at h₆
  cases h₆
  -- the right operand, in its own block, copied into the result; then the join
  obtain ⟨u, s₇, h₇, hrun⟩ := Gen.bind_ok hrun
  obtain ⟨hp₇, he₇, -, hcur₇, hpos₇, hA₇, hcl₇⟩ :=
    close_stretch (by simp) hp₅ hb₅ hA₅r (hst₄.grows.trans hst₅.grows) hrhs.ge h₇
  obtain ⟨rv, s₈, h₈, hrun⟩ := Gen.bind_ok hrun
  obtain ⟨hp₈, hst₈, -⟩ := heo.builds.single r env s₇ rv s₈ hp₇ trivial h₈
  obtain ⟨u, s₉, h₉, hrun⟩ := Gen.bind_ok hrun
  obtain ⟨-, hp₉, he₉, -⟩ := emitUnit_stretch hp₈ h₉
  have hA₉j : s₉.fn.builder.Ahead join :=
    (hA₇ join hA₅j hlt.ne').of_grows ((hA₇ join hA₅j hlt.ne').lt hp₇.below) (hst₈.grows.trans he₉).builder
  obtain ⟨u, s₁₀, h₁₀, hrun⟩ := Gen.bind_ok hrun
  obtain ⟨blk₉, hb₉, ho₉⟩ := hp₉.isOpen
  rw [jumpIfOpen_run hA₉j.isSome hb₉ ho₉] at h₁₀
  cases h₁₀
  obtain ⟨u, s₁₁, h₁₁, hrun⟩ := Gen.bind_ok hrun
  cases hrun
  obtain ⟨-, -, -, hcur', hpos', -, hcl'⟩ :=
    close_stretch (by simp) hp₉ hb₉ hA₉j (he₇.trans (hst₈.grows.trans he₉)) (by omega) h₁₁
  -- what finishes the end of the whole finishes the right operand and the fork
  have hc₇ : Finishes s'.fn.builder s₇.fn.builder := fun f hf =>
      hp₇.completes (hst₈.grows.trans he₉) (hcl' f hf).2
  have hc₅ : Finishes s'.fn.builder s₅.fn.builder := fun f hf => (hcl₇ f (hc₇ f hf)).2
  have he₂₅ : Extends s₂.fn s₅.fn := he₃.trans (hst₄.grows.trans hst₅.grows)
  have hfin₂ : Finishes B s₂.fn.builder := fun f hf => hp₂.completes he₂₅ (hc₅ f (hB f hf))
  have hfin₁ : Finishes B s₁.fn.builder := hfin₂.back hp₁ hst₂.grows
  have hfin₈ : Finishes B s₈.fn.builder := fun f hf => hp₈.completes he₉ (hcl' f (hB f hf)).2
  have harm : Finishes B s₇.fn.builder ∧ InOrder env B s₇ (.run (.value r) .done) := by
    obtain ⟨fuel, h₈⟩ := heo.single r env s₇ rv s₈ h₈
    exact ⟨hfin₈.back hp₇ hst₈.grows, .run (Calm.refl _) (hfin₈.back hp₇ hst₈.grows) ⟨fuel, rv, h₈⟩
        hst₈ hfin₈ (.done _)⟩
  obtain ⟨fuel, hleft⟩ := heo.single l env s₁ lv s₂ h₂
  -- one way round or the other
  rcases hae with ⟨rfl, rfl, rfl⟩ | ⟨rfl, rfl, rfl⟩
  · exact .test hcalm₁ hfin₁ ⟨fuel, hleft⟩ hst₂ hfin₂
      (Forks.pre hcopy hkeep (fun f hf => (hcl₇ f hf).2) hc₅
        (Forks.branch hb₅ hcur₇ hpos₇ hcur' hpos' (fun f hf => (hcl₇ f hf).1)
          fun f hf => (hcl₇ f (hc₇ f hf)).1)) harm.1 hB harm.2 (.done _)
  · exact .test hcalm₁ hfin₁ ⟨fuel, hleft⟩ hst₂ hfin₂
      (Forks.pre hcopy hkeep hc₅ (fun f hf => (hcl₇ f hf).2)
        (Forks.branch hb₅ hcur' hpos' hcur₇ hpos₇ (fun f hf => (hcl₇ f (hc₇ f hf)).1)
          fun f hf => (hcl₇ f hf).1)) hB harm.1 (.done _) harm.2

end Gen

end Branches

/-- The order in which the code of an expression runs the code of its operands: the left operand
of a binary operator before the right, with the right one only on the branch where the left does
not decide `&&` or `||`; the condition of `?:` before the arm it picks; the components of a tuple
left to right; a call's operands as `callOrder` gives them; the base before the index; and an
assignment's right side before its place. -/
def sourceOrder (env : Env) (e : Expr) : Schedule :=
  match e.kind with
  | .binary op l r =>
    if op.isShortCircuit then
      if op == .and then .test l (.run (.value r) .done) .done else .test l .done (.run (.value r) .done)
    else .run (.value l) (.run (.value r) .done)
  | .assign op l r => assignOrder op l r
  | .conditional c a b => .test c (.run (.value a) .done) (.run (.value b) .done)
  | .tuple items => Schedule.seq (items.flatMap fun item => item.toList.map .value) .done
  | .call callee args kind value gas => callOrder env callee args kind value gas
  | .index base index => Schedule.seq (.value base :: index.toList.map .value) .done
  | _ => .done

namespace Gen

theorem ends_values (env : Env) : ∀ fuel e, Ends env (fun _ => True) (values fuel e) (sourceOrder env e)
  | 0, _ => by
    unfold values
    exact Ends.throw
  | fuel + 1, e => by
    -- a construct whose operands the schedule leaves open is only a stretch
    by_cases hd : sourceOrder env e = .done
    · rw [hd]
      exact Ends.of_builds ((evalBuilds (fuel + 1)).values e)
    have heo := evalOrders fuel
    unfold sourceOrder at hd ⊢
    unfold values
    split
    case h_8 op l r hk =>
      simp only [hk]
      by_cases hs : op.isShortCircuit = true
      · rw [if_pos hs, if_pos hs]
        exact Ends.then_extending (ends_shortCircuit heo _ _ _) fun _ => Extending.pure _
      · rw [if_neg hs, if_neg hs]
        exact ends_binaryOp heo _ _ _ _
    case h_9 hk =>
      simp only [hk]
      exact ends_assignment heo _ _ _ _
    case h_10 hk =>
      simp only [hk]
      exact Ends.then_extending (ends_conditional heo _ _ _ _) fun _ => Extending.pure _
    case h_11 items hk =>
      simp only [hk]
      refine Ends.of_orders (Orders.mapM fun item _ => ?_)
      cases item with
      | none => exact Orders.throw
      | some x => exact (heo.orders_single x).post fun _ _ _ _ => trivial
    case h_12 hk =>
      simp only [hk]
      exact ends_call heo _ _ _ _ _ _
    case h_14 base index hk =>
      simp only [hk]
      -- the place of the element, then a load from it
      refine Ends.then_extending ?_ fun _ =>
        (Extending.of_builds (builds_load _)).bind fun _ => Extending.pure _
      cases fuel with
      | zero =>
        unfold place
        exact Ends.throw
      | succ fuel =>
        unfold place
        simp only [hk]
        exact ends_indexPlace (evalOrders fuel) _ _ _
    all_goals
      rename_i hk
      simp [hk] at hd

end Gen

/-- The code lowered for an expression runs the code of its operands in the order of the source.
In every function completing the code lowered for `e` (every `B` that `Finishes` its end), a run
from the start of that code follows `sourceOrder`: storage as it was up to the start of the first
operand's code, which is the whole lowering of that operand and reaches its end; again storage as
it was up to the start of the next; and at `&&`, `||` and `?:` from the end of the condition to the
start of the branch its value picks. Every effect of an operand's code, internal calls writing
storage among them, comes before every effect of the operands after it. -/
theorem lowering_follows_source_order {env : Env} {fuel : Nat} {e : Expr} {s s' : GenState}
    {vs : List Value} (hp : Poised s.fn) (hrun : Gen.values fuel e env s = .ok (vs, s'))
    {B : FnBuilder} (hB : Finishes B s'.fn.builder) : InOrder env B s (sourceOrder env e) :=
  (Gen.ends_values env fuel e s vs s' hp trivial hrun).2 B hB

theorem poised_new (name : String) (scope : Nat) : Poised (FnState.new name scope) := by
  refine ⟨fun k hk => ?_, ⟨_, rfl, rfl⟩, fun a ha => ?_, fun b hb => ?_⟩
  · change ((FnBuilder.new name).block? k).isSome at hk
    by_cases h0 : k = 0
    · exact h0 ▸ Nat.zero_lt_one
    · simp [block?, FnBuilder.new, OrderedMap.get?, Ne.symm h0] at hk
  · simp [FnState.shared, FnState.new] at ha
  · simp [FnState.new] at hb

/-- `1 + 2`. -/
def onePlusTwo : Expr :=
  .mk 0 (.binary .add (.mk 1 (.literal (.number 1)) (.uint 256)) (.mk 2 (.literal (.number 2)) (.uint 256)))
    (.uint 256)

/-- The code of `1 + 2` in a new function lowers `1`, then `2`. -/
theorem onePlusTwo_in_order :
    ∃ vs s', Gen.values 4 onePlusTwo default { fn := FnState.new "f" 0 } = .ok (vs, s') ∧
      InOrder default s'.fn.builder { fn := FnState.new "f" 0 } (sourceOrder default onePlusTwo) := by
  have hok : (Gen.values 4 onePlusTwo default { fn := FnState.new "f" 0 }).isOk = true := by
    decide +kernel
  obtain ⟨⟨vs, s'⟩, hrun⟩ : ∃ p, Gen.values 4 onePlusTwo default { fn := FnState.new "f" 0 } = .ok p := by
    revert hok
    cases Gen.values 4 onePlusTwo default { fn := FnState.new "f" 0 } with
    | error e => exact fun h => by cases h
    | ok p => exact fun _ => ⟨p, rfl⟩
  exact ⟨vs, s', hrun, lowering_follows_source_order (poised_new "f" 0) hrun (Finishes.refl _)⟩

end ContractCfg.Lower
