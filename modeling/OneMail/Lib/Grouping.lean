import Mathlib

/-! Grouping by a key, as a dictionary that keeps its keys in the order of their first insertion does it. -/

namespace Grouping

variable {α κ : Type*} [DecidableEq κ]

/-- `groups.setdefault(key, []).append(value)` -/
def append (key : κ) (value : α) : List (κ × List α) → List (κ × List α)
  | [] => [(key, [value])]
  | (k, values) :: groups => if k = key then (k, values ++ [value]) :: groups else (k, values) :: append key value groups

def group (key : α → κ) (values : List α) : List (κ × List α) :=
  values.foldl (fun groups value => append (key value) value groups) []

variable {key : α → κ} {groups : List (κ × List α)}

theorem keys_append (k : κ) (value : α) (groups : List (κ × List α)) : (append k value groups).map Prod.fst =
    groups.map Prod.fst ++ if k ∈ groups.map Prod.fst then [] else [k] := by
  induction groups with
  | nil => rfl
  | cons g groups ih =>
    rw [append]
    split
    · rename_i h
      have hmem : k ∈ (g :: groups).map Prod.fst := List.mem_cons.mpr (.inl h.symm)
      rw [if_pos hmem, List.append_nil]
      rfl
    · rename_i h
      have hmem : k ∈ (g :: groups).map Prod.fst ↔ k ∈ groups.map Prod.fst :=
        List.mem_cons.trans (or_iff_right (Ne.symm h))
      simp only [hmem]
      rw [List.map_cons, List.map_cons, ih, List.cons_append]

theorem nodup_append (k : κ) (value : α) (h : (groups.map Prod.fst).Nodup) :
    ((append k value groups).map Prod.fst).Nodup := by
  rw [keys_append]
  split
  · rwa [List.append_nil]
  · rename_i hk
    exact List.nodup_append_comm.mp (List.nodup_cons.mpr ⟨hk, h⟩)

/-- What the groups hold under a key. -/
def under (k : κ) (groups : List (κ × List α)) : List α := groups.flatMap fun g => if g.1 = k then g.2 else []

theorem under_append (k j : κ) (value : α) (h : (groups.map Prod.fst).Nodup) :
    under j (append k value groups) = under j groups ++ if k = j then [value] else [] := by
  induction groups with
  | nil => simp [append, under]
  | cons g groups ih =>
    obtain ⟨hg, h⟩ := List.nodup_cons.mp h
    rw [append]
    split
    · rename_i hk
      by_cases hj : k = j
      · subst hj
        have hnone : under k groups = [] := by
          refine List.flatMap_eq_nil_iff.mpr fun g' hg' => if_neg fun heq => hg ?_
          exact hk ▸ heq ▸ List.mem_map_of_mem hg'
        rw [under] at hnone
        simp [under, hk, hnone]
      · simp [under, hk, hj]
    · have ih := ih h
      rw [under, under] at ih
      simp only [under, List.flatMap_cons, ih, List.append_assoc]

variable (key) in
theorem group_facts (values : List α) : ((group key values).map Prod.fst).Nodup ∧
    ∀ k, under k (group key values) = values.filter (key · = k) := by
  induction values using List.reverseRecOn with
  | nil => exact ⟨List.nodup_nil, fun k => rfl⟩
  | append_singleton values value ih =>
    have hstep : group key (values ++ [value]) = append (key value) value (group key values) := by
      rw [group, List.foldl_append]
      rfl
    rw [hstep]
    refine ⟨nodup_append _ _ ih.1, fun k => ?_⟩
    rw [under_append _ _ _ ih.1, List.filter_append, ih.2, List.filter_singleton]
    by_cases h : key value = k <;> simp [h]

theorem nodup_keys_group (key : α → κ) (values : List α) : ((group key values).map Prod.fst).Nodup :=
  (group_facts key values).1

/-- Each group holds the values with its key, in their order. -/
theorem mem_group {values batch : List α} {k : κ} (h : (k, batch) ∈ group key values) :
    batch = values.filter (key · = k) := by
  rw [← (group_facts key values).2 k]
  obtain ⟨l₁, l₂, hsplit⟩ := List.append_of_mem h
  have hnodup := nodup_keys_group key values
  rw [hsplit, List.map_append, List.map_cons] at hnodup
  have hnone : ∀ g ∈ l₁ ++ l₂, g.1 ≠ k := by
    rintro g hg hk
    refine (List.nodup_cons.mp (List.nodup_middle.mp hnodup)).1 ?_
    rw [← List.map_append, ← hk]
    exact List.mem_map.mpr ⟨g, hg, rfl⟩
  rw [hsplit]
  have hempty : ∀ l : List (κ × List α), (∀ g ∈ l, g.1 ≠ k) → under k l = [] :=
    fun l hl => List.flatMap_eq_nil_iff.mpr fun g hg => if_neg (hl g hg)
  have h₁ := hempty l₁ fun g hg => hnone g (List.mem_append_left l₂ hg)
  have h₂ := hempty l₂ fun g hg => hnone g (List.mem_append_right l₁ hg)
  rw [under] at h₁ h₂ ⊢
  rw [List.flatMap_append, List.flatMap_cons, h₁, h₂, if_pos rfl, List.nil_append, List.append_nil]

/-- A key without a group has no values. -/
theorem filter_of_not_mem {values : List α} {k : κ} (h : k ∉ (group key values).map Prod.fst) :
    values.filter (key · = k) = [] := by
  rw [← (group_facts key values).2 k]
  refine List.flatMap_eq_nil_iff.mpr fun g hg => if_neg ?_
  rintro rfl
  exact h (List.mem_map_of_mem hg)

end Grouping
