import ContractCfg.Proofs.IR.Reach

/-!
The queries of the control-flow graph against their graph definitions. A walk lists the blocks
a run passes from one block to another along terminator edges. The closure that `dominates`
computes from the entry, never stepping onto `v`, holds exactly the blocks that some walk
meeting `v` nowhere reaches, so `dominates v t` holds exactly when every walk from the entry to
`t` passes `v`. The predecessors of a block are the blocks jumping to it, in block order, each
once per edge, and the reachable blocks come sorted without repeats.
-/

namespace ContractCfg.IR.Body

/-- `p` lists the blocks of a walk from `start` to `k` along terminator edges, in order. -/
inductive Walk (body : Body) (start : Nat) : Nat → List Nat → Prop
  | start : Walk body start start [start]
  | step {j k : Nat} {p : List Nat} : Walk body start j p → k ∈ body.successors j →
      Walk body start k (p ++ [k])

variable {body : Body} {start : Nat}

theorem Walk.start_mem {k : Nat} {p : List Nat} (h : Walk body start k p) : start ∈ p := by
  induction h with
  | start => exact List.mem_singleton_self _
  | step _ _ ih => exact List.mem_append_left _ ih

theorem Walk.end_mem {k : Nat} {p : List Nat} (h : Walk body start k p) : k ∈ p := by
  cases h with
  | start => exact List.mem_singleton_self _
  | step _ _ => exact List.mem_append_right _ (List.mem_singleton_self _)

theorem mem_closeUnder_avoiding {v k : Nat} (hv : v ≠ start) :
    k ∈ body.closeUnder (some v) body.nodeBound [start] ↔ ∃ p, Walk body start k p ∧ v ∉ p := by
  constructor
  · -- every collected block carries a walk avoiding `v`, extended by one edge per round
    refine closeUnder_invariant (fun x => ∃ p, Walk body start x p ∧ v ∉ p) ?_ _ [start] ?_ k
    · rintro j k ⟨p, hp, hvp⟩ hjk hkv
      refine ⟨p ++ [k], hp.step hjk, fun h => ?_⟩
      rcases List.mem_append.mp h with h | h
      · exact hvp h
      · exact hkv (by rw [List.mem_singleton.mp h])
    · intro y hy
      rw [List.mem_singleton.mp hy]
      exact ⟨[start], .start, by simpa using hv⟩
  · rintro ⟨p, hp, hvp⟩
    induction hp with
    | start => exact subset_closeUnder _ _ _ (List.mem_singleton_self _)
    | @step j k p _ hjk ih =>
      have hj : j ∈ body.closeUnder (some v) body.nodeBound [start] :=
        ih fun h => hvp (List.mem_append_left _ h)
      have hkv : some k ≠ some v := fun h =>
        hvp (List.mem_append_right _ (by rw [Option.some_inj.mp h]; exact List.mem_singleton_self _))
      exact closeUnder_nodeBound_closed hj hjk hkv

theorem dominates_iff (v t : Nat) :
    body.dominates v t = true ↔ ∀ p, Walk body body.entry t p → v ∈ p := by
  by_cases hvt : v = t
  · subst hvt
    simp only [dominates, beq_self_eq_true, Bool.true_or, true_iff]
    exact fun p hp => hp.end_mem
  by_cases hve : v = body.entry
  · simp only [dominates, hve, beq_self_eq_true, Bool.or_true, Bool.true_or, true_iff]
    exact fun p hp => hp.start_mem
  -- otherwise the answer is whether the closure avoiding `v` misses `t`
  have hcl : t ∈ body.closeUnder (some v) body.nodeBound [body.entry] ↔
      ∃ p, Walk body body.entry t p ∧ v ∉ p := mem_closeUnder_avoiding hve
  simp [dominates, hvt, hve, hcl]

theorem map_filter_beq (l : List Nat) (b k : Nat) :
    (l.filter (· == b)).map (fun _ => k) = List.replicate (l.count b) k := by
  rw [List.map_const', List.count_eq_length_filter]

theorem predecessors_eq (h : body.blocks.keys.Nodup) (b : Nat) :
    body.predecessors b = body.blocks.keys.flatMap fun k =>
      List.replicate ((body.successors k).count b) k := by
  unfold predecessors OrderedMap.keys
  rw [List.flatMap_map]
  refine List.flatMap_congr fun e he => ?_
  obtain ⟨k, blk⟩ := e
  have hget : body.blocks.get? k = some blk := OrderedMap.get?_of_mem_toList _ h he
  rw [successors_of_get? hget, ← map_filter_beq]

theorem pairwise_lt_eraseDups (l : List Nat) (h : l.Pairwise (· ≤ ·)) :
    l.eraseDups.Pairwise (· < ·) := by
  -- on the length: past its head, the list left to clean is a filter of the tail
  induction hn : l.length using Nat.strong_induction_on generalizing l with
  | _ n ih =>
    cases l with
    | nil => exact List.Pairwise.nil
    | cons a as =>
      rw [List.eraseDups_cons]
      have hrest : as.Pairwise (· ≤ ·) := (List.pairwise_cons.mp h).2
      have hlen : (as.filter fun b => !b == a).length < n := by
        have := List.length_filter_le (fun b => !b == a) as
        simp only [List.length_cons] at hn
        omega
      refine List.Pairwise.cons (fun x hx => ?_) (ih _ hlen _ (hrest.filter _) rfl)
      -- what is left after `a` comes later in the list and differs from `a`
      obtain ⟨hxs, hxa⟩ := List.mem_filter.mp (List.mem_eraseDups.mp hx)
      have hle : a ≤ x := (List.pairwise_cons.mp h).1 x hxs
      have hne : x ≠ a := by simpa using hxa
      omega

theorem pairwise_lt_sortedSet (xs : List Nat) : (sortedSet xs).Pairwise (· < ·) := by
  have hsorted := List.pairwise_mergeSort (fun a b c (hab : decide (a ≤ b) = true)
    (hbc : decide (b ≤ c) = true) => decide_eq_true (Nat.le_trans (of_decide_eq_true hab)
      (of_decide_eq_true hbc))) (fun a b => by simpa using Nat.le_total a b) xs
  exact pairwise_lt_eraseDups _ (hsorted.imp of_decide_eq_true)

theorem closeUnder_pairwise {avoid : Option Nat} :
    ∀ fuel seen, seen.Pairwise (· < ·) → (body.closeUnder avoid fuel seen).Pairwise (· < ·) := by
  intro fuel
  induction fuel with
  | zero => exact fun _ h => h
  | succ fuel ih =>
    intro seen h
    simp only [closeUnder]
    split
    · exact h
    · exact ih _ (pairwise_lt_sortedSet _)

theorem reachableFrom_pairwise : (body.reachableFrom start).Pairwise (· < ·) :=
  closeUnder_pairwise _ _ (List.pairwise_singleton _ _)

/-- The graph queries answer what the graph says: `reachableFrom s` lists in increasing order
the blocks reachable from `s`; `predecessors b` lists the blocks, in block order, once per edge
into `b`; and `dominates v t` holds exactly when every walk from the entry to `t` passes `v`. -/
theorem queries_match_graph (body : Body) (h : body.blocks.keys.Nodup) :
    (∀ s k, k ∈ body.reachableFrom s ↔ Reach body s k) ∧
    (∀ s, (body.reachableFrom s).Pairwise (· < ·)) ∧
    (∀ b, body.predecessors b = body.blocks.keys.flatMap fun k =>
      List.replicate ((body.successors k).count b) k) ∧
    (∀ v t, body.dominates v t = true ↔ ∀ p, Walk body body.entry t p → v ∈ p) :=
  ⟨fun _ _ => mem_reachableFrom, fun _ => reachableFrom_pairwise, predecessors_eq h, dominates_iff⟩

/-- A diamond: the entry branches to two blocks that meet again in a block that returns. -/
def diamond : Body where
  blocks := ⟨#[(0, { id := 0, label := "entry", term := .branch (.reg "c") 1 2 }),
    (1, { id := 1, label := "left", term := .jump 3 }),
    (2, { id := 2, label := "right", term := .jump 3 }),
    (3, { id := 3, label := "join", term := .ret [] })]⟩
  nextId := 4

theorem diamond_queries_match_graph : diamond.blocks.keys.Nodup ∧
    ((∀ s k, k ∈ diamond.reachableFrom s ↔ Reach diamond s k) ∧
    (∀ s, (diamond.reachableFrom s).Pairwise (· < ·)) ∧
    (∀ b, diamond.predecessors b = diamond.blocks.keys.flatMap fun k =>
      List.replicate ((diamond.successors k).count b) k) ∧
    (∀ v t, diamond.dominates v t = true ↔ ∀ p, Walk diamond diamond.entry t p → v ∈ p)) :=
  ⟨by decide, queries_match_graph diamond (by decide)⟩

example : diamond.predecessors 3 = [1, 2] := by decide

end ContractCfg.IR.Body
