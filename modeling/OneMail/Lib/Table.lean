import Mathlib

/-! SQL tables as lists of rows.

    A table is the list of its rows in insertion order. `updateWhere`, `deleteWhere` and `selectTop`
    are the statements `UPDATE … WHERE`, `DELETE … WHERE` and `SELECT … ORDER BY … LIMIT`; every
    predicate is evaluated on the rows as they were when the statement began. What a statement does
    to each row is a pointwise relation, `List.Forall₂ R t t'`, which composes along a batch. -/

namespace Table

variable {α κ : Type*}

/-- `UPDATE … SET f WHERE p`. -/
def updateWhere (p : α → Bool) (f : α → α) (t : List α) : List α :=
  t.map fun r => if p r then f r else r

/-- `DELETE … WHERE p`. -/
def deleteWhere (p : α → Bool) (t : List α) : List α := t.filter fun r => !p r

/-- `SELECT … WHERE p ORDER BY le LIMIT n`. -/
def selectTop (p : α → Bool) (le : α → α → Prop) [DecidableRel le] (n : ℕ) (t : List α) : List α :=
  ((t.filter p).insertionSort le).take n

/-- `INSERT OR IGNORE`: a row that conflicts with a unique key of the table is left out. -/
def insertOrIgnore (conflict : α → α → Bool) (t : List α) (r : α) : List α :=
  if t.any (conflict r) then t else t ++ [r]

theorem mem_insertOrIgnore {conflict : α → α → Bool} {t : List α} {r r' : α}
    (h : r' ∈ insertOrIgnore conflict t r) : r' ∈ t ∨ r' = r := by
  unfold insertOrIgnore at h
  split at h
  · exact .inl h
  · simpa using h

theorem subset_insertOrIgnore {conflict : α → α → Bool} {t : List α} {r : α} :
    t ⊆ insertOrIgnore conflict t r := by
  intro r' hr'
  unfold insertOrIgnore
  split
  · exact hr'
  · exact List.mem_append_left _ hr'

/-- What a batch of them leaves was there before, or is one of its rows. -/
theorem mem_insertAll {conflict : α → α → Bool} {rows t : List α} {r' : α}
    (h : r' ∈ rows.foldl (insertOrIgnore conflict) t) : r' ∈ t ∨ r' ∈ rows := by
  induction rows generalizing t with
  | nil => exact .inl h
  | cons r rows ih =>
    rcases ih h with hin | hin
    · rcases mem_insertOrIgnore hin with hin | rfl
      · exact .inl hin
      · exact .inr List.mem_cons_self
    · exact .inr (List.mem_cons_of_mem _ hin)

theorem mem_updateWhere {p : α → Bool} {f : α → α} {t : List α} {r' : α} :
    r' ∈ updateWhere p f t ↔ ∃ r ∈ t, r' = if p r then f r else r := by
  simp only [updateWhere, List.mem_map, eq_comm]

theorem mem_updateWhere_of_mem {p : α → Bool} {f : α → α} {t : List α} {r : α} (h : r ∈ t) :
    (if p r then f r else r) ∈ updateWhere p f t := mem_updateWhere.mpr ⟨r, h, rfl⟩

theorem mem_deleteWhere {p : α → Bool} {t : List α} {r : α} :
    r ∈ deleteWhere p t ↔ r ∈ t ∧ p r = false := by
  simp [deleteWhere]

theorem mem_of_mem_selectTop {p : α → Bool} {le : α → α → Prop} [DecidableRel le] {n : ℕ}
    {t : List α} {r : α} (h : r ∈ selectTop p le n t) : r ∈ t ∧ p r = true := by
  have h' := List.mem_of_mem_take h
  rw [List.mem_insertionSort] at h'
  exact List.mem_filter.mp h'

/-- An update that selects no row leaves the table as it is. -/
theorem updateWhere_eq_self {p : α → Bool} {f : α → α} {t : List α} (h : ∀ r ∈ t, p r = false) :
    updateWhere p f t = t := by
  rw [updateWhere, List.map_congr_left (g := id) fun r hr => by simp [h r hr], List.map_id]

/-- An update that keeps a column keeps the list of its values. -/
theorem map_updateWhere {p : α → Bool} {f : α → α} {t : List α} (key : α → κ)
    (h : ∀ r, key (f r) = key r) : (updateWhere p f t).map key = t.map key := by
  rw [updateWhere, List.map_map]
  refine List.map_congr_left fun r _ => ?_
  rw [Function.comp_apply]
  split
  · exact h r
  · rfl

/-- Two rows with the same unique key are one row. -/
theorem eq_of_key {t : List α} {key : α → κ} (h : (t.map key).Nodup) {r r' : α} (hr : r ∈ t)
    (hr' : r' ∈ t) (hk : key r = key r') : r = r' := List.inj_on_of_nodup_map h hr hr' hk

/-- An INSERT whose key is new. -/
theorem nodup_append_key {t : List α} {key : α → κ} {r : α} (h : (t.map key).Nodup)
    (hr : ∀ r' ∈ t, key r' ≠ key r) : ((t ++ [r]).map key).Nodup := by
  rw [List.map_append, List.nodup_append]
  refine ⟨h, List.nodup_singleton _, ?_⟩
  intro x hx y hy hxy
  obtain ⟨r', hr', rfl⟩ := List.mem_map.mp hx
  obtain rfl := List.mem_singleton.mp hy
  exact hr r' hr' hxy

/-- A predicate that pins a unique key selects one row. -/
theorem filter_eq_singleton {t : List α} {key : α → κ} (h : (t.map key).Nodup) {p : α → Bool} {r : α}
    (hr : r ∈ t) (hp : p r = true) (hk : ∀ r' ∈ t, p r' = true → key r' = key r) :
    t.filter p = [r] := by
  have hmem : r ∈ t.filter p := List.mem_filter.mpr ⟨hr, hp⟩
  have hall : ∀ r' ∈ t.filter p, r' = r := fun r' hr' =>
    eq_of_key h (List.mem_filter.mp hr').1 hr (hk r' (List.mem_filter.mp hr').1 (List.mem_filter.mp hr').2)
  have hnd : (t.filter p).Nodup := (List.Nodup.of_map key h).filter p
  rcases hf : t.filter p with _ | ⟨a, as⟩
  · rw [hf] at hmem; cases hmem
  · rw [hf] at hall hnd
    obtain rfl := hall a List.mem_cons_self
    cases as with
    | nil => rfl
    | cons b bs =>
      obtain rfl := hall b (by simp)
      simp at hnd

/-- Looking a key up after an update that keeps the key. -/
theorem find?_updateWhere {t : List α} {p q : α → Bool} {f : α → α} (h : ∀ r, q (f r) = q r) :
    (updateWhere p f t).find? q = (t.find? q).map fun r => if p r then f r else r := by
  have hq : (q ∘ fun r => if p r then f r else r) = q := by
    funext r
    rw [Function.comp_apply]
    split
    · exact h r
    · rfl
  rw [updateWhere, List.find?_map, hq]

theorem nodup_selectTop {t : List α} {key : α → κ} (h : (t.map key).Nodup) (p : α → Bool)
    (le : α → α → Prop) [DecidableRel le] (n : ℕ) : ((selectTop p le n t).map key).Nodup := by
  have hsort : (((t.filter p).insertionSort le).map key).Nodup :=
    ((List.perm_insertionSort le _).map key).nodup_iff.mpr (h.sublist (List.filter_sublist.map key))
  exact hsort.sublist ((List.take_sublist n _).map key)

/-! ### What a statement does to each row -/

variable {R S : α → α → Prop} {t u v : List α}

theorem forall₂_updateWhere {p : α → Bool} {f : α → α} (hf : ∀ r ∈ t, p r = true → R r (f r))
    (hr : ∀ r ∈ t, R r r) : List.Forall₂ R t (updateWhere p f t) := by
  rw [updateWhere, List.forall₂_map_right_iff, List.forall₂_same]
  intro r hmem
  split
  · exact hf r hmem ‹_›
  · exact hr r hmem

theorem forall₂_refl_of (hr : ∀ r ∈ t, R r r) : List.Forall₂ R t t := List.forall₂_same.mpr hr

theorem forall₂_trans {Q : α → α → Prop} (hRS : ∀ a b c, R a b → S b c → Q a c)
    (h₁ : List.Forall₂ R t u) (h₂ : List.Forall₂ S u v) : List.Forall₂ Q t v := by
  induction h₁ generalizing v with
  | nil => cases h₂; exact .nil
  | cons hab _ ih =>
    cases h₂ with
    | cons hbc htl => exact .cons (hRS _ _ _ hab hbc) (ih htl)

/-- The row that `r` became. -/
theorem Forall₂.next (h : List.Forall₂ R t u) {r : α} (hr : r ∈ t) : ∃ r' ∈ u, R r r' := by
  induction h with
  | nil => cases hr
  | cons hab _ ih =>
    rcases List.mem_cons.mp hr with rfl | hr
    · exact ⟨_, List.mem_cons_self, hab⟩
    · obtain ⟨r', hr', hR⟩ := ih hr
      exact ⟨r', List.mem_cons_of_mem _ hr', hR⟩

/-- The row that `r'` was. -/
theorem Forall₂.prev (h : List.Forall₂ R t u) {r' : α} (hr : r' ∈ u) : ∃ r ∈ t, R r r' := by
  obtain ⟨r, hr, hR⟩ := Forall₂.next h.flip hr
  exact ⟨r, hr, hR⟩

/-- A column kept by every row keeps the list of its values. -/
theorem Forall₂.map_eq (key : α → κ) (hk : ∀ r r', R r r' → key r' = key r)
    (h : List.Forall₂ R t u) : u.map key = t.map key := by
  induction h with
  | nil => rfl
  | cons hab _ ih => rw [List.map_cons, List.map_cons, ih, hk _ _ hab]

end Table
