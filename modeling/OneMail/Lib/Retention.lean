import OneMail.Lib.Table

/-! Keyed tables of bounded size.

    `upsert` is `INSERT … ON CONFLICT (key) DO UPDATE` of every other column, `keepFirst` deletes the
    rows beyond the first `n` of an order. A class of rows that comes first in the order and has at
    most `n` members loses none of them (`mem_keepFirst`). -/

namespace Table

variable {α κ : Type*} [DecidableEq κ] {key : α → κ} {t : List α} {r r' : α}

/-- `INSERT … ON CONFLICT (key) DO UPDATE SET` every other column. -/
def upsert (key : α → κ) (t : List α) (r : α) : List α :=
  if t.any fun r' => key r' = key r then updateWhere (fun r' => key r' = key r) (fun _ => r) t else t ++ [r]

theorem mem_upsert : r' ∈ upsert key t r ↔ r' ∈ t ∧ key r' ≠ key r ∨ r' = r := by
  rw [upsert]
  split
  · rename_i hany
    obtain ⟨old, hold, hkey⟩ := List.any_eq_true.mp hany
    rw [mem_updateWhere]
    refine ⟨?_, ?_⟩
    · rintro ⟨x, hx, rfl⟩
      split
      · exact .inr rfl
      · rename_i hne
        exact .inl ⟨hx, fun h => hne (decide_eq_true h)⟩
    · rintro (⟨hx, hne⟩ | rfl)
      · exact ⟨r', hx, by rw [if_neg (by simpa using hne)]⟩
      · exact ⟨old, hold, by rw [if_pos hkey]⟩
  · rename_i hany
    rw [List.mem_append, List.mem_singleton]
    refine or_congr_left ⟨fun h => ⟨h, fun hkey => hany ?_⟩, And.left⟩
    exact List.any_eq_true.mpr ⟨r', h, decide_eq_true hkey⟩

theorem nodup_upsert (h : (t.map key).Nodup) : ((upsert key t r).map key).Nodup := by
  rw [upsert]
  split
  · rw [updateWhere, List.map_map]
    refine (congrArg List.Nodup (List.map_congr_left fun x _ => ?_)).mpr h
    rw [Function.comp_apply]
    split
    · rename_i hkey
      exact (of_decide_eq_true hkey).symm
    · rfl
  · rename_i hany
    refine nodup_append_key h fun x hx hkey => hany ?_
    exact List.any_eq_true.mpr ⟨x, hx, decide_eq_true hkey⟩

/-! ### Deleting beyond a limit -/

variable {le : α → α → Prop} {n : ℕ}

/-- What stands behind the first `n` rows has `n` rows before it. -/
theorem length_lt_of_mem_drop {p : α → Bool} {l : List α} (hl : l.Pairwise le)
    (hp : ∀ a b, le a b → p b = true → p a = true) (hr : r ∈ l.drop n) (hpr : p r = true) :
    n < (l.filter p).length := by
  have hsplit : l = l.take n ++ l.drop n := (List.take_append_drop n l).symm
  have hbefore : ∀ a ∈ l.take n, p a = true := fun a ha =>
    hp a r ((List.pairwise_append.mp (hsplit ▸ hl)).2.2 a ha r hr) hpr
  have hlen : (l.take n).length = n := by
    have hpos : 0 < (l.drop n).length := List.length_pos_of_mem hr
    rw [List.length_drop] at hpos
    rw [List.length_take]
    omega
  have hmem : r ∈ (l.drop n).filter p := List.mem_filter.mpr ⟨hr, hpr⟩
  have hpos : 0 < ((l.drop n).filter p).length := List.length_pos_of_mem hmem
  rw [hsplit, List.filter_append, List.length_append, List.filter_eq_self.mpr hbefore, hlen]
  omega

variable [DecidableRel le]

/-- `DELETE … WHERE rowid IN (SELECT rowid … ORDER BY le LIMIT -1 OFFSET n)`. -/
def keepFirst (key : α → κ) (le : α → α → Prop) [DecidableRel le] (n : ℕ) (t : List α) : List α :=
  deleteWhere (fun r => ((t.insertionSort le).drop n).any fun r' => key r' = key r) t

theorem mem_of_mem_keepFirst (h : r ∈ keepFirst key le n t) : r ∈ t := (mem_deleteWhere.mp h).1

theorem nodup_keepFirst (h : (t.map key).Nodup) : ((keepFirst key le n t).map key).Nodup :=
  h.sublist (List.filter_sublist.map key)

/-- A class of rows that comes first and fits is kept. -/
theorem mem_keepFirst [Std.Total le] [IsTrans α le] {p : α → Bool} (hkey : (t.map key).Nodup)
    (hp : ∀ a b, le a b → p b = true → p a = true) (hfew : (t.filter p).length ≤ n) (hr : r ∈ t)
    (hpr : p r = true) : r ∈ keepFirst key le n t := by
  refine mem_deleteWhere.mpr ⟨hr, Bool.eq_false_iff.mpr fun hany => ?_⟩
  obtain ⟨old, hold, hk⟩ := List.any_eq_true.mp hany
  have hperm : (t.insertionSort le).Perm t := List.perm_insertionSort le t
  obtain rfl : old = r :=
    eq_of_key hkey (hperm.mem_iff.mp (List.mem_of_mem_drop hold)) hr (of_decide_eq_true hk)
  have hlt : n < ((t.insertionSort le).filter p).length :=
    length_lt_of_mem_drop (List.pairwise_insertionSort le t) hp hold hpr
  rw [(hperm.filter p).length_eq] at hlt
  omega

end Table
