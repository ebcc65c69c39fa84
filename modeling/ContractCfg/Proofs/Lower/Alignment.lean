import ContractCfg.Lower.Expr

/-!
Aligning the components of a tuple assignment with the values of its right side. A left side of
`n` components takes `available` values when the counts agree, or when it is shorter and has a
hole at its end (it then lines up with the start of the values) or at its start (it lines up
with their end). Each component that is present gets the value at its own position moved by
that shift, so the chosen indices increase and all lie below `available`; any other left side
is an arity mismatch naming both counts. Callers index the values with these indices unchecked.
-/

namespace ContractCfg.Lower

/-- Whether a left side with components `present` can take `available` values. -/
def Pads (present : List Bool) (available : Nat) : Prop :=
  present.length = available ∨
    present.length < available ∧ (present.getLast? = some false ∨ present.head? = some false)

instance (present : List Bool) (available : Nat) : Decidable (Pads present available) :=
  inferInstanceAs (Decidable (_ ∨ _))

/-- How many values the components skip at the start: none when the counts agree or the hole is
at the end, and all the extra ones otherwise. -/
def padShift (present : List Bool) (available : Nat) : Nat :=
  if present.length = available ∨ present.getLast? = some false then 0
  else available - present.length

section Indices

variable (l : List Bool) (k s : Nat)

theorem filterMap_indices :
    ((l.zipIdx k).map fun x => if x.1 then some (x.2 + s) else none).filterMap id =
      ((l.zipIdx k).filter (·.1)).map (·.2 + s) := by
  simp only [List.filterMap_map, Function.comp_def, id]
  induction l generalizing k with
  | nil => rfl
  | cons keep l ih =>
    cases keep <;> simp [ih]

theorem indices_increasing :
    (((l.zipIdx k).filter (·.1)).map (·.2 + s)).Pairwise (· < ·) := by
  have hsnd : (l.zipIdx k).Pairwise (fun x y => x.2 < y.2) := by
    have h := List.pairwise_lt_range' (s := k) (n := l.length)
    rwa [← List.zipIdx_map_snd k l, List.pairwise_map] at h
  rw [List.pairwise_map]
  exact (hsnd.filter _).imp fun h => Nat.add_lt_add_right h s

theorem indices_lt {j : Nat} (hj : j ∈ ((l.zipIdx k).filter (·.1)).map (·.2 + s)) :
    j < l.length + k + s := by
  obtain ⟨x, hx, rfl⟩ := List.mem_map.mp hj
  have := List.snd_lt_of_mem_zipIdx (List.mem_filter.mp hx).1
  omega

end Indices

theorem alignComponents_of_pads {present : List Bool} {available : Nat} (node : Nat)
    (h : Pads present available) :
    alignComponents present available node =
      .ok (present.zipIdx.map fun x => if x.1 then some (x.2 + padShift present available) else none) := by
  rcases h with heq | ⟨hlt, hlast | hhead⟩
  · simp [alignComponents, padShift, heq]; rfl
  · have hne : present.length ≠ available := Nat.ne_of_lt hlt
    simp [alignComponents, padShift, hne, hlt, hlast]; rfl
  · have hne : present.length ≠ available := Nat.ne_of_lt hlt
    by_cases hlast : present.getLast? = some false
    · simp [alignComponents, padShift, hne, hlt, hlast]; rfl
    · simp [alignComponents, padShift, hne, hlt, hlast, hhead]; rfl

/-- A leading hole aligns the components with the end of the values. -/
example : alignComponents [false, true] 3 0 = .ok [none, some 2] := rfl

theorem alignComponents_of_not_pads {present : List Bool} {available : Nat} (node : Nat)
    (h : ¬ Pads present available) :
    alignComponents present available node = .error (.arityMismatch node present.length available) := by
  simp only [Pads, not_or, not_and] at h
  obtain ⟨hne, hpad⟩ := h
  by_cases hlt : present.length < available
  · obtain ⟨hlast, hhead⟩ := hpad hlt
    simp [alignComponents, hne, hlast, hhead]; rfl
  · simp [alignComponents, hne, hlt]; rfl

theorem pads_of_alignComponents_ok {present : List Bool} {available node : Nat}
    {p : List (Option Nat)} (hp : alignComponents present available node = .ok p) :
    Pads present available := by
  by_cases h : Pads present available
  · exact h
  · rw [alignComponents_of_not_pads node h] at hp
    cases hp

theorem length_add_padShift_le {present : List Bool} {available : Nat} (h : Pads present available) :
    present.length + padShift present available ≤ available := by
  unfold padShift
  split <;> rcases h with h | ⟨h, _⟩ <;> omega

/-- Alignment succeeds exactly on the padding rule; it then gives, for each component, the value
at its own position moved by `padShift` when the component is present and nothing otherwise,
with strictly increasing indices below `available`; any other left side is an arity mismatch
naming both counts. -/
theorem alignComponents_spec (present : List Bool) (available node : Nat) :
    ((∃ p, alignComponents present available node = .ok p) ↔ Pads present available) ∧
    (∀ p, alignComponents present available node = .ok p →
      p.length = present.length ∧
      (∀ (i : Nat) (hi : i < present.length),
        p[i]? = some (if present[i] then some (i + padShift present available) else none)) ∧
      (p.filterMap id).Pairwise (· < ·) ∧
      ∀ j ∈ p.filterMap id, j < available) ∧
    (¬ Pads present available →
      alignComponents present available node = .error (.arityMismatch node present.length available)) := by
  refine ⟨⟨fun ⟨_, hp⟩ => pads_of_alignComponents_ok hp,
    fun h => ⟨_, alignComponents_of_pads node h⟩⟩, ?_, alignComponents_of_not_pads node⟩
  intro p hp
  have hpad := pads_of_alignComponents_ok hp
  rw [alignComponents_of_pads node hpad, Except.ok.injEq] at hp
  subst hp
  refine ⟨by simp, fun i hi => by simp [hi], ?_, fun j hj => ?_⟩
  · rw [filterMap_indices]
    exact indices_increasing present 0 _
  · rw [filterMap_indices] at hj
    have := indices_lt present 0 _ hj
    have := length_add_padShift_le hpad
    omega

end ContractCfg.Lower
