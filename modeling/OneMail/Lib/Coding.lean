import Mathlib

/-! Dictionary orders of coded texts.

    A text is coded item by item. Where the codes of different items differ at a place that both have,
    the order of coded texts is the dictionary order of the texts (`flatMap_lt`), and it depends only on
    the first items in which two texts differ (`lex_iff`). -/

namespace OneMail.Coding

variable {α β : Type} [LT β]

/-- At the first place where the lists differ both have an item, and that of `a` is the smaller. -/
def Below (a b : List β) : Prop := ∃ p u v s t, a = p ++ u :: s ∧ b = p ++ v :: t ∧ u < v

theorem Below.append {a b : List β} (h : Below a b) (x y : List β) : Below (a ++ x) (b ++ y) := by
  obtain ⟨p, u, v, s, t, rfl, rfl, huv⟩ := h
  exact ⟨p, u, v, s ++ x, t ++ y, by simp, by simp, huv⟩

theorem Below.lt {a b : List β} (h : Below a b) : a < b := by
  obtain ⟨p, u, v, s, t, rfl, rfl, huv⟩ := h
  induction p with
  | nil => exact List.cons_lt_cons_iff.mpr (.inl huv)
  | cons c p ih => exact List.cons_lt_cons_iff.mpr (.inr ⟨rfl, ih⟩)

/-- The first items in which two texts differ. -/
def firstDifference [DecidableEq α] : List α → List α → Option (α × α)
  | x :: l, y :: m => if x = y then firstDifference l m else some (x, y)
  | _, _ => none

theorem ne_of_firstDifference [DecidableEq α] {x y : α} : ∀ {l m : List α}, firstDifference l m = some (x, y) → x ≠ y
  | [], _, h => by simp [firstDifference] at h
  | _ :: _, [], h => by simp [firstDifference] at h
  | a :: l, b :: m, h => by
    rw [firstDifference] at h
    split at h
    · exact ne_of_firstDifference h
    · rename_i hne
      cases h
      exact hne

theorem firstDifference_swap [DecidableEq α] : ∀ l m : List α,
    firstDifference m l = (firstDifference l m).map Prod.swap
  | [], [] => rfl
  | [], _ :: _ => rfl
  | _ :: _, [] => rfl
  | a :: l, b :: m => by
    rw [firstDifference, firstDifference]
    by_cases hab : a = b
    · rw [if_pos hab, if_pos hab.symm, firstDifference_swap l m]
    · rw [if_neg hab, if_neg (Ne.symm hab)]
      rfl

/-- A dictionary order looks at the first items that differ, or else at the lengths. -/
theorem lex_iff [DecidableEq α] {r : α → α → Prop} (hr : ∀ a, ¬ r a a) {l m : List α} : List.Lex r l m ↔
    match firstDifference l m with
    | some (x, y) => r x y
    | none => l.length < m.length := by
  induction l generalizing m with
  | nil =>
    cases m with
    | nil => simp [firstDifference]
    | cons b m => simp [firstDifference]
  | cons a l ih =>
    cases m with
    | nil => simp [firstDifference]
    | cons b m =>
      rw [firstDifference, List.cons_lex_cons_iff]
      by_cases hab : a = b
      · subst hab
        simp only [hr a, false_or, true_and, ih, List.length_cons, Nat.add_lt_add_iff_right, if_true]
      · simp only [hab, false_and, or_false, if_false]

theorem append_lt_append_iff [Std.Irrefl (α := β) (· < ·)] (p : List β) {a b : List β} : p ++ a < p ++ b ↔ a < b := by
  induction p with
  | nil => rfl
  | cons c p ih =>
    rw [List.cons_append, List.cons_append, List.cons_lt_cons_iff, ih]
    simp only [Std.Irrefl.irrefl c, false_or, true_and]

/-- The order of coded texts is the dictionary order of the texts. -/
theorem flatMap_lt [Std.Asymm (α := β) (· < ·)] [Std.Irrefl (α := β) (· < ·)] {code : α → List β} {r : α → α → Prop}
    (hne : ∀ a, code a ≠ []) (hcode : ∀ {a b}, r a b → Below (code a) (code b))
    (htotal : ∀ {a b}, a ≠ b → r a b ∨ r b a) {l m : List α} :
    l.flatMap code < m.flatMap code ↔ List.Lex r l m := by
  have hirrefl (a : α) : ¬ r a a := fun h => List.lt_irrefl _ (hcode h).lt
  induction l generalizing m with
  | nil =>
    cases m with
    | nil => simp
    | cons b m =>
      rcases hb : code b with _ | ⟨c, s⟩
      · exact absurd hb (hne b)
      · simp [hb]
  | cons a l ih =>
    cases m with
    | nil => simp
    | cons b m =>
      rw [List.flatMap_cons, List.flatMap_cons, List.cons_lex_cons_iff]
      by_cases hab : a = b
      · subst hab
        simp only [hirrefl a, false_or, true_and]
        exact (append_lt_append_iff _).trans ih
      · rcases htotal hab with h | h
        · simp only [((hcode h).append _ _).lt, h, true_or]
        · have hnot : ¬ r a b := fun h' => List.lt_asymm (hcode h).lt (hcode h').lt
          simp only [List.lt_asymm ((hcode h).append _ _).lt, hnot, hab, false_and, or_false]

end OneMail.Coding
