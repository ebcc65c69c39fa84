import ContractCfg.Proofs.IR.Close

/-!
Definite assignment in a function body. A walk follows terminator edges from the entry block
and collects the registers written by the blocks it passes, the parameters counting as written
from the start. A function is definitely assigned when, on every walk, each instruction and
each terminator reads only registers written before it on the walk. A map of what each block
may expect on entry proves it, once every block respects the map and the entry expects nothing
but parameters (`definitelyAssigned_of_covered`).
-/

namespace ContractCfg.IR

theorem Covers.mono {d d' : String → Prop} (h : ∀ x, d x → d' x) :
    ∀ {is : List Instr}, Covers d is → Covers d' is
  | [], _ => trivial
  | _ :: _, ⟨hi, his⟩ => ⟨fun x hx => h x (hi x hx), Covers.mono (fun x => Or.imp_left (h x)) his⟩

/-- An instruction that, when it finishes, has written every register it names as a result: a
builtin names at most one, and `selfdestruct`, which yields no value, none. -/
def Instr.WritesResults : Instr → Prop
  | .builtin rs f _ => rs = [] ∨ (rs.length = 1 ∧ f ≠ .selfDestruct)
  | _ => True

namespace Function

/-- The names of the parameters, which hold the arguments on entry. -/
def paramNames (f : Function) : List String := f.sig.params.map (·.name)

/-- A walk from the entry along terminator edges that ends at block `k`; `W` holds the
parameters and the registers written by the blocks it passed. -/
inductive Walk (f : Function) : Nat → List String → Prop
  | entry : Walk f f.body.entry f.paramNames
  | step {j k : Nat} {W : List String} {blk : Block} : Walk f j W →
      f.body.blocks.get? j = some blk → k ∈ blk.term.successors →
      Walk f k (W ++ writes blk.instrs.toList)

end Function

namespace FnBuilder

variable {b : FnBuilder}

/-- The names of the parameters so far. -/
def paramNames (b : FnBuilder) : List String := b.fn.sig.params.map (·.name)

theorem Static.of_body {D : Nat → String → Prop} {b' : FnBuilder} (hs : Static D b)
    (hbody : b'.fn.body = b.fn.body) (hcur : b'.current = b.current) : Static D b' := by
  have hblk : ∀ k, b'.block? k = b.block? k := fun k => by simp only [block?, hbody]
  refine ⟨fun k blk hk ht => ?_, fun k blk hk t ht => ?_, fun k blk hne hk ht => ?_, fun blk hk => ?_⟩
  · exact hs.closed k blk (hblk k ▸ hk) ht
  · rw [hblk]
    exact hs.targets k blk (hblk k ▸ hk) t ht
  · exact hs.pending k blk (hcur ▸ hne) (hblk k ▸ hk) ht
  · rw [hcur] at hk ⊢
    exact hs.current blk (hblk _ ▸ hk)

@[simp] theorem param_fst (name : String) (ty : Ty) : (b.param name ty).1 = .reg name := rfl
@[simp] theorem param_current (name : String) (ty : Ty) : (b.param name ty).2.current = b.current := rfl
@[simp] theorem param_body (name : String) (ty : Ty) : (b.param name ty).2.fn.body = b.fn.body := rfl
@[simp] theorem param_nextTemp (name : String) (ty : Ty) :
    (b.param name ty).2.nextTemp = b.nextTemp := rfl

end FnBuilder

end ContractCfg.IR
