import Mathlib

/-! A list that is sent in pieces, each of them again until it is acknowledged.

    `Resent` says which pieces were sent, and which of them were acknowledged, until `left` is what is left of
    the list. The receiver may have taken in a piece whole, in part or not at all, unless it acknowledged it
    (`Ran`). Where inserting again changes nothing, it then holds what one pass over a beginning of the list
    leaves (`resent_effect`). -/

namespace Resend

variable {α σ : Type*}

inductive Resent : List α → List (List α × Bool) → List α → Prop
  | nil (rows : List α) : Resent rows [] rows
  | again {rows piece left : List α} {posts : List (List α × Bool)} : piece <+: rows → Resent rows posts left →
      Resent rows ((piece, false) :: posts) left
  | next {piece rest left : List α} {posts : List (List α × Bool)} : Resent rest posts left →
      Resent (piece ++ rest) ((piece, true) :: posts) left

/-- The same piece, some tries in vain. -/
theorem Resent.replicate {piece rows left : List α} {posts : List (List α × Bool)} (hpiece : piece <+: rows)
    (h : Resent rows posts left) : ∀ n, Resent rows (List.replicate n (piece, false) ++ posts) left
  | 0 => h
  | n + 1 => .again hpiece (h.replicate hpiece n)

theorem Resent.trans {rows left left' : List α} {posts posts' : List (List α × Bool)} (h : Resent rows posts left)
    (h' : Resent left posts' left') : Resent rows (posts ++ posts') left' := by
  induction h with
  | nil => exact h'
  | again hpiece _ ih => exact .again hpiece (ih h')
  | next _ ih => exact .next (ih h')

/-- Rows that come after the ones that were sent. -/
theorem Resent.extend {rows left : List α} {posts : List (List α × Bool)} (h : Resent rows posts left) (more : List α) :
    Resent (rows ++ more) posts (left ++ more) := by
  induction h with
  | nil => exact .nil _
  | again hpiece _ ih => exact .again (hpiece.trans (List.prefix_append _ _)) ih
  | next _ ih =>
    rw [List.append_assoc]
    exact .next ih

/-- The acknowledged pieces and what is left make up the list. -/
theorem Resent.acked {rows left : List α} {posts : List (List α × Bool)} (h : Resent rows posts left) :
    (posts.filter (·.2)).flatMap (·.1) ++ left = rows := by
  induction h with
  | nil => rfl
  | again _ _ ih => exact ih
  | next _ ih =>
    rw [List.filter_cons_of_pos rfl, List.flatMap_cons, List.append_assoc, ih]

/-- What the receiver makes of the pieces; a piece that it acknowledges it has taken in. -/
inductive Ran (insert : σ → α → σ) : List (List α × Bool) → σ → σ → Prop
  | nil (s : σ) : Ran insert [] s s
  | post {piece : List α} {acked : Bool} {posts : List (List α × Bool)} {s s' : σ} (k : ℕ) :
      (acked = true → piece.length ≤ k) → Ran insert posts ((piece.take k).foldl insert s) s' →
      Ran insert ((piece, acked) :: posts) s s'

/-- The row is there already, or kept out by another one. -/
structure Idempotent (insert : σ → α → σ) (settled : σ → α → Prop) : Prop where
  same : ∀ s a, settled s a → insert s a = s
  here : ∀ s a, settled (insert s a) a
  kept : ∀ s a b, settled s a → settled (insert s b) a

section Idempotent

variable {insert : σ → α → σ} {settled : σ → α → Prop} (hinsert : Idempotent insert settled)
include hinsert

theorem Idempotent.settled_foldl {rows : List α} {s : σ} {a : α} (h : settled s a) : settled (rows.foldl insert s) a := by
  induction rows generalizing s with
  | nil => exact h
  | cons b rows ih => exact ih (hinsert.kept s a b h)

theorem Idempotent.settled_of_mem {rows : List α} {s : σ} {a : α} (h : a ∈ rows) : settled (rows.foldl insert s) a := by
  induction rows generalizing s with
  | nil => cases h
  | cons b rows ih =>
    rw [List.foldl_cons]
    rcases List.mem_cons.mp h with rfl | h
    · exact hinsert.settled_foldl (hinsert.here s a)
    · exact ih h

theorem Idempotent.foldl_same {rows : List α} {s : σ} (h : ∀ a ∈ rows, settled s a) : rows.foldl insert s = s := by
  induction rows with
  | nil => rfl
  | cons a rows ih =>
    rw [List.foldl_cons, hinsert.same s a (h a List.mem_cons_self)]
    exact ih fun b hb => h b (List.mem_cons_of_mem a hb)

/-- Two beginnings of one list, one inserted after the other. -/
theorem Idempotent.foldl_take (rows : List α) (s : σ) (m k : ℕ) :
    (rows.take k).foldl insert ((rows.take m).foldl insert s) = (rows.take (max m k)).foldl insert s := by
  rcases Nat.le_total k m with h | h
  · rw [Nat.max_eq_left h]
    exact hinsert.foldl_same fun a ha => hinsert.settled_of_mem (List.take_subset_take_left rows h ha)
  · have hsplit : rows.take k = rows.take m ++ (rows.take k).drop m := by
      have hfirst : (rows.take k).take m = rows.take m := by rw [List.take_take, Nat.min_eq_left h]
      rw [← hfirst, List.take_append_drop]
    rw [Nat.max_eq_right h, hsplit, List.foldl_append, List.foldl_append]
    rw [hinsert.foldl_same fun a ha => hinsert.settled_of_mem ha]

/-- The receiver holds what one pass over a beginning of the list leaves, and the beginning goes beyond what
    was acknowledged. -/
theorem Idempotent.resent_effect {rows left : List α} {posts : List (List α × Bool)} (h : Resent rows posts left)
    {base s' : σ} {m : ℕ} (hran : Ran insert posts ((rows.take m).foldl insert base) s') :
    ∃ n, rows.length ≤ n + left.length ∧ s' = (rows.take n).foldl insert base := by
  induction h generalizing base m with
  | nil rows =>
    cases hran
    exact ⟨m, Nat.le_add_left _ _, rfl⟩
  | @again rows piece left posts hpiece h ih =>
    rcases hran with - | ⟨k, -, hran⟩
    obtain ⟨rest, rfl⟩ := hpiece
    have htake : piece.take k = (piece ++ rest).take (min k piece.length) := by
      rcases Nat.le_total k piece.length with hk | hk
      · rw [Nat.min_eq_left hk, List.take_append_of_le_length hk]
      · rw [Nat.min_eq_right hk, List.take_left', List.take_of_length_le hk]
        rfl
    rw [htake, hinsert.foldl_take] at hran
    exact ih hran
  | @next piece rest left posts h ih =>
    rcases hran with - | ⟨k, hk, hran⟩
    have htake : piece.take k = (piece ++ rest).take piece.length := by
      rw [List.take_of_length_le (hk rfl), List.take_left]
    rw [htake, hinsert.foldl_take] at hran
    have hpass : ((piece ++ rest).take (max m piece.length)).foldl insert base =
        (rest.take (max m piece.length - piece.length)).foldl insert (piece.foldl insert base) := by
      rw [List.take_append, List.take_of_length_le (Nat.le_max_right _ _), List.foldl_append]
    rw [hpass] at hran
    obtain ⟨n, hn, rfl⟩ := ih hran
    refine ⟨piece.length + n, ?_, ?_⟩
    · rw [List.length_append]
      omega
    · rw [List.take_length_add_append, List.foldl_append]

end Idempotent

end Resend
