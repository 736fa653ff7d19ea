import Mathlib

/-! A list cut into slices of one length, the last one perhaps shorter: `l[i : i + n]` for `i` in steps of `n`. -/

namespace Chunks

variable {α : Type*} {l : List α} {n : ℕ}

def chunks (n : ℕ) (l : List α) : List (List α) :=
  (List.range ((l.length + n - 1) / n)).map fun i => (l.drop (i * n)).take n

theorem take_slices (i : ℕ) :
    ((List.range i).map fun i => (l.drop (i * n)).take n).flatten = l.take (i * n) := by
  induction i with
  | zero => rw [Nat.zero_mul, List.take_zero]; rfl
  | succ i ih =>
    rw [List.range_succ, List.map_append, List.flatten_append, ih, Nat.succ_mul, List.take_add]
    simp

/-- The slices make up the list. -/
theorem flatten_chunks (hn : 1 ≤ n) (l : List α) : (chunks n l).flatten = l := by
  have hlength : l.length ≤ (l.length + n - 1) / n * n := by
    have h := Nat.div_add_mod (l.length + n - 1) n
    have hmod := Nat.mod_lt (l.length + n - 1) hn
    rw [Nat.mul_comm] at h
    omega
  rw [chunks, take_slices, List.take_of_length_le hlength]

theorem length_le_of_mem_chunks {c : List α} (h : c ∈ chunks n l) : c.length ≤ n := by
  obtain ⟨i, -, rfl⟩ := List.mem_map.mp h
  exact List.length_take_le n _

theorem ne_nil_of_mem_chunks (hn : 1 ≤ n) {c : List α} (h : c ∈ chunks n l) : c ≠ [] := by
  obtain ⟨i, hi, rfl⟩ := List.mem_map.mp h
  have hlt : i * n < l.length := by
    have hi := (Nat.le_div_iff_mul_le hn).mp (List.mem_range.mp hi)
    rw [Nat.succ_mul] at hi
    omega
  intro hempty
  have hlength := congrArg List.length hempty
  rw [List.length_take, List.length_drop, List.length_nil] at hlength
  omega

theorem length_chunks (n : ℕ) (l : List α) : (chunks n l).length = (l.length + n - 1) / n := by
  rw [chunks, List.length_map, List.length_range]

end Chunks
