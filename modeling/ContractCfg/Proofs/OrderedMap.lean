import ContractCfg.OrderedMap

namespace ContractCfg.OrderedMap

variable {κ α : Type} [BEq κ] [LawfulBEq κ] [DecidableEq κ]

omit [LawfulBEq κ] [DecidableEq κ] in
theorem get?_mk (l : List (κ × α)) (k : κ) :
    (⟨l.toArray⟩ : OrderedMap κ α).get? k = (l.find? (·.1 == k)).map (·.2) := by
  simp [get?]

theorem find?_set_key {l : List (κ × α)} {i : Nat} {k k' : κ} {v : α}
    (hi : l.findIdx? (·.1 == k) = some i) :
    (l.set i (k, v)).find? (·.1 == k') = if k = k' then some (k, v) else l.find? (·.1 == k') := by
  induction l generalizing i with
  | nil => simp at hi
  | cons x xs ih =>
    by_cases hx : x.1 = k
    · subst hx
      rw [List.findIdx?_cons] at hi
      simp at hi
      subst hi
      by_cases h : x.1 = k' <;> simp [h]
    · rw [List.findIdx?_cons] at hi
      simp [hx] at hi
      obtain ⟨j, hj, rfl⟩ := hi
      by_cases h : x.1 = k'
      · subst h
        have : k ≠ x.1 := fun e => hx e.symm
        simp [this]
      · simp [h, ih hj]

theorem find?_append_key (l : List (κ × α)) (k k' : κ) (v : α)
    (hi : l.findIdx? (·.1 == k) = none) :
    (l ++ [(k, v)]).find? (·.1 == k') = if k = k' then some (k, v) else l.find? (·.1 == k') := by
  rw [List.find?_append]
  by_cases h : k = k'
  · subst h
    have : l.find? (·.1 == k) = none := by
      rw [List.find?_eq_none]
      intro x hx
      simpa using List.findIdx?_eq_none_iff.mp hi x hx
    simp [this]
  · cases l.find? (·.1 == k') <;> simp [h]

theorem get?_insert (m : OrderedMap κ α) (k k' : κ) (v : α) :
    (m.insert k v).get? k' = if k = k' then some v else m.get? k' := by
  obtain ⟨⟨l⟩⟩ := m
  unfold insert
  split
  · rename_i i hi
    simp only [List.findIdx?_toArray] at hi
    have hlt : i < l.length := (List.findIdx?_eq_some_iff_findIdx_eq.mp hi).1
    simp only [Array.set!_eq_setIfInBounds, List.setIfInBounds_toArray, get?_mk]
    rw [find?_set_key hi]
    split <;> simp
  · rename_i hi
    simp only [List.findIdx?_toArray] at hi
    simp only [List.push_toArray, get?_mk]
    rw [find?_append_key _ _ _ _ hi]
    split <;> simp

theorem get?_modify (m : OrderedMap κ α) (k k' : κ) (f : α → α) :
    (m.modify k f).get? k' = if k = k' then (m.get? k).map f else m.get? k' := by
  obtain ⟨⟨l⟩⟩ := m
  let g : κ × α → κ × α := fun e => if e.1 == k then (e.1, f e.2) else e
  have hkey : ∀ e, (g e).1 = e.1 := by
    intro e; simp only [g]; split <;> rfl
  have hfind : (l.map g).find? (·.1 == k') = (l.find? (·.1 == k')).map g := by
    have hp : ((fun x : κ × α => x.1 == k') ∘ g) = (fun x => x.1 == k') :=
      funext fun e => by simp only [Function.comp, hkey]
    rw [List.find?_map, hp]
  simp only [modify, List.map_toArray, get?_mk]
  change ((l.map g).find? (·.1 == k')).map (·.2) = _
  rw [hfind]
  cases hl : l.find? (·.1 == k') with
  | none =>
    by_cases h : k = k'
    · subst h; simp [hl]
    · simp [h]
  | some e =>
    have he : e.1 = k' := by simpa using List.find?_some hl
    by_cases h : k = k'
    · subst h; simp [g, he, hl]
    · have : e.1 ≠ k := by rw [he]; exact Ne.symm h
      simp [g, h, this]

omit [LawfulBEq κ] [DecidableEq κ] in
theorem contains_eq (m : OrderedMap κ α) (k : κ) : m.contains k = (m.get? k).isSome := by
  obtain ⟨⟨l⟩⟩ := m
  simp only [contains, List.any_toArray, get?_mk, Option.isSome_map]
  cases h : l.find? (·.1 == k) with
  | none =>
    simp only [Option.isSome_none, List.any_eq_false]
    intro e he hk
    exact List.find?_eq_none.mp h e he hk
  | some e =>
    have := List.find?_some h
    have hm := List.mem_of_find?_eq_some h
    simp only [Option.isSome_some, List.any_eq_true]
    exact ⟨e, hm, this⟩

omit [DecidableEq κ] in
theorem contains_iff_mem_keys (m : OrderedMap κ α) (k : κ) : m.contains k = true ↔ k ∈ m.keys := by
  obtain ⟨⟨l⟩⟩ := m
  simp [contains, keys]

theorem get?_filter_key (m : OrderedMap κ α) (q : κ → Bool) (k : κ) :
    (m.filter fun k _ => q k).get? k = if q k then m.get? k else none := by
  obtain ⟨⟨l⟩⟩ := m
  simp only [filter, List.filter_toArray, get?_mk, List.find?_filter]
  by_cases hq : q k
  · have hp : (fun x : κ × α => decide (q x.1 = true ∧ (x.1 == k) = true)) = (fun x => x.1 == k) := by
      funext x
      by_cases hx : x.1 = k
      · simp [hx, hq]
      · simp [hx]
    rw [hp, if_pos hq]
  · have hp : (fun x : κ × α => decide (q x.1 = true ∧ (x.1 == k) = true)) = (fun _ => false) := by
      funext x
      by_cases hx : x.1 = k
      · simp [hx, hq]
      · simp [hx]
    rw [hp, if_neg hq]
    simp

omit [DecidableEq κ] in
theorem keys_insert_of_contains (m : OrderedMap κ α) (k : κ) (v : α) (h : m.contains k) :
    (m.insert k v).keys = m.keys := by
  obtain ⟨⟨l⟩⟩ := m
  unfold insert
  split
  · rename_i i hi
    simp only [List.findIdx?_toArray] at hi
    obtain ⟨hlt, hk, -⟩ := List.findIdx?_eq_some_iff_getElem.mp hi
    have hlt' : i < (l.map (·.1)).length := by simpa using hlt
    have hget : (l.map (·.1))[i] = k := by simpa using hk
    simp only [keys, Array.set!_eq_setIfInBounds, List.setIfInBounds_toArray, List.map_set,
      List.toList_toArray]
    rw [← hget, List.set_getElem_self]
  · rename_i hi
    simp only [List.findIdx?_toArray, List.findIdx?_eq_none_iff] at hi
    simp only [contains, List.any_toArray, List.any_eq_true] at h
    obtain ⟨e, he, hek⟩ := h
    simp [hi e he] at hek

omit [DecidableEq κ] in
theorem keys_insert_of_not_contains (m : OrderedMap κ α) (k : κ) (v : α) (h : m.contains k = false) :
    (m.insert k v).keys = m.keys ++ [k] := by
  obtain ⟨⟨l⟩⟩ := m
  unfold insert
  split
  · rename_i i hi
    simp only [List.findIdx?_toArray] at hi
    have hm := (List.findIdx?_eq_some_iff_getElem.mp hi)
    simp only [contains, List.any_toArray, List.any_eq_false] at h
    exact absurd hm.2.1 (by simpa using h _ (List.getElem_mem hm.1))
  · simp [keys]

omit [LawfulBEq κ] [DecidableEq κ] in
theorem keys_modify (m : OrderedMap κ α) (k : κ) (f : α → α) : (m.modify k f).keys = m.keys := by
  obtain ⟨⟨l⟩⟩ := m
  simp only [keys, modify, List.map_toArray, List.map_map]
  congr 1
  funext e
  simp only [Function.comp]
  split <;> rfl

omit [DecidableEq κ] in
theorem get?_of_mem_toList (m : OrderedMap κ α) (hk : m.keys.Nodup) {k : κ} {v : α}
    (h : (k, v) ∈ m.toList) : m.get? k = some v := by
  obtain ⟨⟨l⟩⟩ := m
  simp only [toList, keys] at h hk
  simp only [get?_mk]
  induction l with
  | nil => simp at h
  | cons x xs ih =>
    simp only [List.map_cons, List.nodup_cons, List.mem_map] at hk
    rcases List.mem_cons.mp h with rfl | hm
    · simp
    · have hx : x.1 ≠ k := fun e => hk.1 ⟨(k, v), hm, e.symm ▸ rfl⟩
      simp [hx, ih hk.2 hm]

omit [DecidableEq κ] in
theorem mem_toList_of_get? (m : OrderedMap κ α) {k : κ} {v : α} (h : m.get? k = some v) :
    (k, v) ∈ m.toList := by
  obtain ⟨⟨l⟩⟩ := m
  rw [get?_mk] at h
  obtain ⟨e, he, rfl⟩ := Option.map_eq_some_iff.mp h
  have hk : e.1 = k := by simpa using List.find?_some he
  have hmem : e ∈ l := List.mem_of_find?_eq_some he
  rw [← hk]
  exact hmem

omit [DecidableEq κ] in
theorem insert_comm_of_contains (m : OrderedMap κ α) {k k' : κ} (hk : m.contains k = true)
    (hk' : m.contains k' = false) (v v' : α) :
    (m.insert k' v').insert k v = (m.insert k v).insert k' v' := by
  obtain ⟨⟨l⟩⟩ := m
  simp only [contains, List.any_toArray, List.any_eq_true, List.any_eq_false] at hk hk'
  have hnone : l.findIdx? (·.1 == k') = none :=
    List.findIdx?_eq_none_iff.mpr fun e he => by simpa using hk' e he
  obtain ⟨i, hi⟩ : ∃ i, l.findIdx? (·.1 == k) = some i := by
    cases h : l.findIdx? (·.1 == k) with
    | some i => exact ⟨i, rfl⟩
    | none =>
      obtain ⟨e, he, hek⟩ := hk
      exact absurd hek (by simpa using List.findIdx?_eq_none_iff.mp h e he)
  have hlt : i < l.length := (List.findIdx?_eq_some_iff_findIdx_eq.mp hi).1
  have hne : k ≠ k' := by
    rintro rfl
    obtain ⟨e, he, hek⟩ := hk
    exact absurd hek (by simpa using hk' e he)
  have hset : (l.set i (k, v)).findIdx? (·.1 == k') = none := by
    apply List.findIdx?_eq_none_iff.mpr
    intro e he
    rcases List.mem_or_eq_of_mem_set he with he | rfl
    · simpa using hk' e he
    · simpa using hne
  unfold insert
  simp only [List.findIdx?_toArray, hnone, hi, List.push_toArray, List.findIdx?_append, hset,
    Array.set!_eq_setIfInBounds, List.setIfInBounds_toArray]
  simp [List.set_append_left _ _ hlt]

omit [DecidableEq κ] in
theorem insert_of_not_contains (m : OrderedMap κ α) {k : κ} (h : m.contains k = false) (v : α) :
    m.insert k v = ⟨m.entries.push (k, v)⟩ := by
  obtain ⟨⟨l⟩⟩ := m
  unfold insert
  split
  · rename_i i hi
    simp only [List.findIdx?_toArray] at hi
    have hm := (List.findIdx?_eq_some_iff_getElem.mp hi)
    simp only [contains, List.any_toArray, List.any_eq_false] at h
    exact absurd hm.2.1 (by simpa using h _ (List.getElem_mem hm.1))
  · rfl

omit [DecidableEq κ] in
theorem foldlM_insert {β ε : Type} (step : OrderedMap κ α → β → Except ε (OrderedMap κ α))
    (enc : κ × α → β) {l : List (κ × α)} (hstep : ∀ e ∈ l, ∀ m, step m (enc e) = .ok (m.insert e.1 e.2))
    (acc : List (κ × α)) (hnodup : ((acc ++ l).map (·.1)).Nodup) :
    (l.map enc).foldlM step ⟨acc.toArray⟩ = .ok ⟨(acc ++ l).toArray⟩ := by
  induction l generalizing acc with
  | nil => simp; rfl
  | cons e l ih =>
    have hnew : (⟨acc.toArray⟩ : OrderedMap κ α).contains e.1 = false := by
      simp only [List.map_append, List.map_cons, List.nodup_append, List.nodup_cons] at hnodup
      simp only [contains, List.any_toArray, List.any_eq_false]
      intro x hx hxe
      exact hnodup.2.2 x.1 (List.mem_map_of_mem hx) e.1 List.mem_cons_self (by simpa using hxe)
    have hins : (⟨acc.toArray⟩ : OrderedMap κ α).insert e.1 e.2 = ⟨(acc ++ [e]).toArray⟩ := by
      rw [insert_of_not_contains _ hnew]
      simp
    simp only [List.map_cons, List.foldlM_cons, hstep e List.mem_cons_self, hins, bind, Except.bind]
    rw [ih (fun x hx => hstep x (List.mem_cons_of_mem e hx)) (acc ++ [e]) (by simpa using hnodup)]
    simp

omit [DecidableEq κ] in
theorem foldlM_insert_toList {β ε : Type} (step : OrderedMap κ α → β → Except ε (OrderedMap κ α))
    (enc : κ × α → β) (m : OrderedMap κ α) (hkeys : m.keys.Nodup)
    (hstep : ∀ e ∈ m.toList, ∀ m', step m' (enc e) = .ok (m'.insert e.1 e.2)) :
    (m.toList.map enc).foldlM step {} = .ok m := by
  obtain ⟨⟨l⟩⟩ := m
  exact foldlM_insert step enc hstep [] (by simpa [keys, toList] using hkeys)

end ContractCfg.OrderedMap
