import Mathlib

/-! Selecting the least element in one pass.

    A loop that keeps a candidate and replaces it by each element preferred to it is Mathlib's `argmin`, as long as
    the preference is an order by some key on the elements at hand (`foldl_argAux`). The key selected does not depend
    on the order of the list, and neither does the element, if the key tells the elements apart. -/

namespace Selection

variable {α β : Type*} [LinearOrder β] {f : α → β} {l l' : List α} {m : α}

theorem foldl_argAux {r : α → α → Prop} [DecidableRel r] (l : List α) :
    (∀ a ∈ l, ∀ b ∈ l, r a b ↔ f a < f b) → l.foldl (List.argAux r) none = l.argmin f := by
  induction l using List.reverseRecOn with
  | nil => exact fun _ => rfl
  | append_singleton l a ih =>
    intro h
    have hl := ih fun b hb c hc => h b (List.mem_append_left _ hb) c (List.mem_append_left _ hc)
    rw [List.foldl_append, hl, List.foldl_cons, List.foldl_nil, List.argmin_concat]
    cases hmin : l.argmin f with
    | none => rfl
    | some c =>
      have hc : c ∈ l := List.argmin_mem hmin
      simp only [List.argAux, h a (List.mem_append_right _ List.mem_cons_self) c (List.mem_append_left _ hc)]

/-- The least key of a list. -/
theorem argmin_map_perm (h : l.Perm l') : (l.argmin f).map f = (l'.argmin f).map f := by
  cases hl : l.argmin f with
  | none =>
    rw [List.argmin_eq_none] at hl
    subst hl
    rw [List.nil_perm.mp h, List.argmin_nil]
  | some m =>
    cases hl' : l'.argmin f with
    | none =>
      rw [List.argmin_eq_none] at hl'
      subst hl'
      rw [List.perm_nil.mp h, List.argmin_nil] at hl
      cases hl
    | some m' =>
      have hle := List.le_of_mem_argmin (h.mem_iff.mpr (List.argmin_mem hl')) hl
      have hle' := List.le_of_mem_argmin (h.mem_iff.mp (List.argmin_mem hl)) hl'
      exact congrArg some (le_antisymm hle hle')

theorem argmin_perm (h : l.Perm l') (hf : ∀ a ∈ l, ∀ b ∈ l, f a = f b → a = b) : l.argmin f = l'.argmin f := by
  have hmap := argmin_map_perm (f := f) h
  cases hl : l.argmin f with
  | none =>
    rw [hl, Option.map_none, eq_comm, Option.map_eq_none_iff] at hmap
    exact hmap.symm
  | some m =>
    rw [hl, Option.map_some, eq_comm, Option.map_eq_some_iff] at hmap
    obtain ⟨m', hl', heq⟩ := hmap
    rw [hl', hf m (List.argmin_mem hl) m' (h.mem_iff.mpr (List.argmin_mem hl')) heq.symm]

/-- A key that all others are at least as great as is the least one. -/
theorem argmin_some (hm : l.argmin f = some m) : m ∈ l ∧ ∀ a ∈ l, f m ≤ f a :=
  ⟨List.argmin_mem hm, fun _ ha => List.le_of_mem_argmin ha hm⟩

end Selection
