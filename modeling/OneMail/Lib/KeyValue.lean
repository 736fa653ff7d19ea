import Mathlib

/-! Key-value storage, and totals over it.

    A `Map` holds at most one value under each key: it is Mathlib's `AList` over a fixed value type.
    `total f` adds `f` over all entries; a counter that mirrors a map is an equation with a `total`, and
    it survives a write because `total_put_new`, `total_put` and `total_erase` say what the write does
    to the sum. -/

namespace KeyValue

variable {κ ν M : Type*} [AddCommMonoid M]

abbrev Map (κ ν : Type*) := AList fun _ : κ => ν

/-- The sum of `f` over the entries of the map. -/
def total (f : κ → ν → M) (m : Map κ ν) : M := (m.entries.map fun e => f e.1 e.2).sum

variable {f g : κ → ν → M} {m : Map κ ν} {k : κ} {v w : ν}

@[simp] theorem total_empty : total f (∅ : Map κ ν) = 0 := rfl

variable [DecidableEq κ]

theorem entries_of_lookup (h : m.lookup k = some v) :
    ∃ l₁ l₂, m.entries = l₁ ++ ⟨k, v⟩ :: l₂ ∧ m.entries.kerase k = l₁ ++ l₂ := by
  have hmem : (⟨k, v⟩ : Σ _ : κ, ν) ∈ m.entries := AList.mem_lookup_iff.mp h
  obtain ⟨w, l₁, l₂, -, hl, hk⟩ := List.exists_of_kerase (List.mem_keys_of_mem hmem)
  have hw : w ∈ m.lookup k := AList.mem_lookup_iff.mpr (by rw [hl]; simp)
  obtain rfl : v = w := Option.some.inj (h.symm.trans hw)
  exact ⟨l₁, l₂, hl, hk⟩

theorem total_erase (h : m.lookup k = some w) : total f (m.erase k) + f k w = total f m := by
  obtain ⟨l₁, l₂, hl, hk⟩ := entries_of_lookup h
  have hentries : (m.erase k).entries = l₁ ++ l₂ := hk
  simp only [total, hl, hentries, List.map_append, List.sum_append, List.map_cons, List.sum_cons]
  rw [add_assoc, add_comm _ (f k w)]

theorem total_put_new (h : m.lookup k = none) : total f (m.insert k v) = total f m + f k v := by
  rw [total, AList.entries_insert_of_notMem (AList.lookup_eq_none.mp h), List.map_cons, List.sum_cons,
    add_comm, total]

theorem total_put (h : m.lookup k = some w) :
    total f (m.insert k v) + f k w = total f m + f k v := by
  have hentries : (m.insert k v).entries = ⟨k, v⟩ :: (m.erase k).entries := AList.entries_insert
  rw [← total_erase h, total, hentries, List.map_cons, List.sum_cons, total, add_comm (f k v),
    add_right_comm]

theorem total_congr (h : ∀ k v, m.lookup k = some v → f k v = g k v) : total f m = total g m := by
  rw [total, total, List.map_congr_left fun e he => h e.1 e.2 (AList.mem_lookup_iff.mpr he)]

theorem lookup_put (j : κ) : (m.insert k v).lookup j = if j = k then some v else m.lookup j := by
  split
  · rename_i h
    rw [h, AList.lookup_insert]
  · rename_i h
    exact AList.lookup_insert_ne h

theorem lookup_del (j : κ) : (m.erase k).lookup j = if j = k then none else m.lookup j := by
  split
  · rename_i h
    rw [h, AList.lookup_erase]
  · rename_i h
    exact AList.lookup_erase_ne h

/-- What is left after the keys of a list are erased. -/
theorem lookup_eraseAll {ι : Type*} (f : ι → κ) (j : κ) : ∀ (l : List ι) (m : Map κ ν),
    (l.foldl (fun m e => m.erase (f e)) m).lookup j = if ∃ e ∈ l, f e = j then none else m.lookup j
  | [], m => by simp
  | e :: l, m => by
    rw [List.foldl_cons, lookup_eraseAll f j l, lookup_del]
    by_cases hrest : ∃ e' ∈ l, f e' = j
    · rw [if_pos hrest, if_pos (List.exists_mem_cons_of_exists hrest)]
    · rw [if_neg hrest]
      exact if_congr (by rw [List.exists_mem_cons_iff, or_iff_left hrest, eq_comm]) rfl rfl

/-- `INSERT OR IGNORE` of a list of entries: a key that is present keeps its value. -/
def putNew {ι : Type*} (key : ι → κ) (value : ι → ν) (m : Map κ ν) (e : ι) : Map κ ν :=
  if m.lookup (key e) = none then m.insert (key e) (value e) else m

theorem lookup_putNew {ι : Type*} {key : ι → κ} {value : ι → ν} {e : ι} (j : κ) :
    (putNew key value m e).lookup j ≠ none ↔ m.lookup j ≠ none ∨ key e = j := by
  rw [putNew]
  split
  · rw [lookup_put]
    split
    · rename_i h
      simp [h]
    · rename_i h
      simp [Ne.symm h]
  · rename_i h
    constructor
    · exact .inl
    · rintro (hj | rfl)
      · exact hj
      · exact h

theorem lookup_putNewAll {ι : Type*} {key : ι → κ} {value : ι → ν} (j : κ) (l : List ι) :
    (l.foldl (putNew key value) m).lookup j ≠ none ↔ m.lookup j ≠ none ∨ ∃ e ∈ l, key e = j := by
  induction l generalizing m with
  | nil => simp
  | cons e l ih => rw [List.foldl_cons, ih, lookup_putNew, List.exists_mem_cons_iff, or_assoc]

/-! ### Counts -/

/-- How many entries of the map satisfy `p`. -/
def countWhere (p : ν → Bool) (m : Map κ ν) : ℕ := total (fun _ v => (p v).toNat) m

variable {p q : ν → Bool}

theorem countWhere_put_new (h : m.lookup k = none) :
    countWhere p (m.insert k v) = countWhere p m + (p v).toNat := total_put_new h

theorem countWhere_put (h : m.lookup k = some w) :
    countWhere p (m.insert k v) + (p w).toNat = countWhere p m + (p v).toNat := total_put h

theorem countWhere_congr (h : ∀ k v, m.lookup k = some v → p v = q v) :
    countWhere p m = countWhere q m := total_congr fun k v hv => by rw [h k v hv]

end KeyValue
