import Mathlib

/-! Lists in ascending order of a key.

    A list whose keys ascend strictly is determined by its members (`Ascending.ext`), the members up to
    a key are a prefix of it (`Ascending.filter_prefix`), and cutting it after a member is filtering by
    that member's key (`Ascending.take_succ`, `Ascending.drop_succ`). A list that lacks only members
    that come after `n` of its own has the same first `n` members (`Ascending.take_of_cover`). -/

namespace Ordered

variable {α κ : Type*} [LinearOrder κ] {key : α → κ}

/-- The keys of the list ascend strictly. -/
def Ascending (key : α → κ) (l : List α) : Prop := l.Pairwise fun a b => key a < key b

/-- The list in ascending order of the key. -/
def sortBy (key : α → κ) (l : List α) : List α := l.insertionSort fun a b => key a ≤ key b

variable {l l' : List α} {a b : α} {n : ℕ} {k : κ}

theorem Ascending.nodup (h : Ascending key l) : l.Nodup :=
  h.imp fun hlt heq => absurd (congrArg key heq) hlt.ne

theorem Ascending.sublist (h : Ascending key l) (hs : List.Sublist l' l) : Ascending key l' :=
  List.Pairwise.sublist hs h

theorem Ascending.filter (h : Ascending key l) (p : α → Bool) : Ascending key (l.filter p) :=
  h.sublist List.filter_sublist

/-- An ascending list is determined by its members. -/
theorem Ascending.ext (h : Ascending key l) (h' : Ascending key l') (hmem : ∀ a, a ∈ l ↔ a ∈ l') :
    l = l' := by
  have hperm : l.Perm l' := (List.perm_ext_iff_of_nodup h.nodup h'.nodup).mpr hmem
  refine hperm.eq_of_pairwise (fun a b _ _ hab hba => ?_) h h'
  exact absurd (hab.trans hba) (lt_irrefl _)

@[simp] theorem mem_sortBy : a ∈ sortBy key l ↔ a ∈ l := List.mem_insertionSort _

theorem sortBy_perm : (sortBy key l).Perm l := List.perm_insertionSort _ l

theorem sortBy_ascending (h : (l.map key).Nodup) : Ascending key (sortBy key l) := by
  have hle : (sortBy key l).Pairwise fun a b => key a ≤ key b := by
    have : Std.Total fun a b : α => key a ≤ key b := ⟨fun a b => le_total _ _⟩
    have : IsTrans α fun a b => key a ≤ key b := ⟨fun _ _ _ => le_trans⟩
    exact List.pairwise_insertionSort _ _
  have hne : (sortBy key l).Pairwise fun a b => key a ≠ key b :=
    List.pairwise_map.mp ((sortBy_perm.map key).nodup_iff.mpr h)
  exact hle.imp₂ (fun _ _ hle hne => lt_of_le_of_ne hle hne) hne

/-- Sorting an ascending list changes nothing. -/
theorem sortBy_of_ascending (h : Ascending key l) : sortBy key l = l :=
  (sortBy_ascending (List.pairwise_map.mpr (h.imp ne_of_lt))).ext h fun _ => mem_sortBy

theorem sortBy_filter (h : (l.map key).Nodup) (p : α → Bool) :
    sortBy key (l.filter p) = (sortBy key l).filter p :=
  Ascending.ext (sortBy_ascending (h.sublist (List.filter_sublist.map key)))
    ((sortBy_ascending h).filter p) fun _ => by simp only [mem_sortBy, List.mem_filter]

/-- The sort is stable: of level members the first one comes first. -/
theorem sortBy_first {l₁ l₂ : List α} (h₁ : ∀ b ∈ l₁, key a < key b) (h₂ : ∀ b ∈ l₂, key a ≤ key b) :
    sortBy key (l₁ ++ a :: l₂) = a :: sortBy key (l₁ ++ l₂) := by
  induction l₁ with
  | nil => exact List.insertionSort_cons_of_forall_rel _ h₂
  | cons b l₁ ih =>
    have hinsert := ih fun c hc => h₁ c (List.mem_cons_of_mem _ hc)
    simp only [sortBy, List.cons_append, List.insertionSort_cons] at hinsert ⊢
    rw [hinsert, List.orderedInsert_of_not_le (r := fun a b => key a ≤ key b)]
    exact (h₁ b List.mem_cons_self).not_ge

theorem map_orderedInsert {β : Type*} {r : β → β → Prop} {s : α → α → Prop} [DecidableRel r]
    [DecidableRel s] {f : β → α} {b : β} : ∀ {l : List β}, (∀ c ∈ l, r b c ↔ s (f b) (f c)) →
      (l.orderedInsert r b).map f = (l.map f).orderedInsert s (f b)
  | [], _ => rfl
  | c :: l, h => by
    have hhead : r b c ↔ s (f b) (f c) := h c List.mem_cons_self
    rw [List.map_cons, List.orderedInsert, List.orderedInsert]
    by_cases hrc : r b c
    · rw [if_pos hrc, if_pos (hhead.mp hrc)]
      rfl
    · rw [if_neg hrc, if_neg (hhead.not.mp hrc), List.map_cons,
        map_orderedInsert fun d hd => h d (List.mem_cons_of_mem _ hd)]

/-- The stable sort is the sort by the key and then by the places the members had. -/
theorem sortBy_tagged {β τ : Type*} [LinearOrder τ] {f : β → α} {tag : β → τ} {l : List β}
    (htag : Ascending tag l) :
    (sortBy (fun b => toLex (key (f b), tag b)) l).map f = sortBy key (l.map f) := by
  induction l with
  | nil => rfl
  | cons b l ih =>
    obtain ⟨hfirst, hrest⟩ := List.pairwise_cons.mp htag
    -- the places decide nothing for a member that stood before all the others
    have hle : ∀ c ∈ sortBy (fun b => toLex (key (f b), tag b)) l,
        toLex (key (f b), tag b) ≤ toLex (key (f c), tag c) ↔ key (f b) ≤ key (f c) := by
      intro c hc
      have hlt : tag b < tag c := hfirst c (mem_sortBy.mp hc)
      rw [Prod.Lex.toLex_le_toLex, le_iff_lt_or_eq (a := key (f b))]
      simp only [hlt.le, and_true]
    have hinsert := map_orderedInsert (r := fun b c => toLex (key (f b), tag b) ≤ toLex (key (f c), tag c))
      (s := fun a b => key a ≤ key b) (f := f) hle
    rw [ih hrest] at hinsert
    exact hinsert

/-- The members that a downward closed predicate picks are a prefix. -/
theorem Ascending.filter_prefix (h : Ascending key l) {p : α → Bool}
    (hp : ∀ a b, key a < key b → p b = true → p a = true) : l.filter p <+: l := by
  induction l with
  | nil => exact List.prefix_rfl
  | cons a l ih =>
    obtain ⟨hhead, htail⟩ := List.pairwise_cons.mp h
    by_cases hpa : p a = true
    · rw [List.filter_cons_of_pos hpa]
      exact List.cons_prefix_cons.mpr ⟨rfl, ih htail⟩
    · have hnone : l.filter p = [] :=
        List.filter_eq_nil_iff.mpr fun b hb hpb => hpa (hp a b (hhead b hb) hpb)
      rw [List.filter_cons_of_neg hpa, hnone]
      exact List.nil_prefix

theorem Ascending.lt_getElem (h : Ascending key l) {i j : ℕ} (hij : i < j) (hj : j < l.length) :
    key (l.get ⟨i, hij.trans hj⟩) < key l[j] := List.pairwise_iff_getElem.mp h i j _ hj hij

theorem Ascending.le_getLast (h : Ascending key l) (ha : a ∈ l) (hb : l.getLast? = some b) :
    key a ≤ key b := by
  obtain ⟨init, rfl⟩ := List.getLast?_eq_some_iff.mp hb
  rcases List.mem_append.mp ha with ha | ha
  · exact ((List.pairwise_append.mp h).2.2 a ha b (List.mem_singleton.mpr rfl)).le
  · rw [List.mem_singleton.mp ha]

/-- Cutting after a member is filtering by its key. -/
theorem Ascending.take_succ (h : Ascending key l) (hn : n < l.length) :
    l.take (n + 1) = l.filter fun a => key a ≤ key l[n] := by
  refine Ascending.ext (h.sublist (List.take_sublist _ _)) (h.filter _) fun a => ?_
  rw [List.mem_take_iff_getElem, List.mem_filter, decide_eq_true_eq, List.mem_iff_getElem]
  constructor
  · rintro ⟨i, hi, rfl⟩
    refine ⟨⟨i, by omega, rfl⟩, ?_⟩
    rcases Nat.lt_or_eq_of_le (show i ≤ n by omega) with hlt | rfl
    · exact (h.lt_getElem hlt hn).le
    · exact le_rfl
  · rintro ⟨⟨i, hi, rfl⟩, hle⟩
    refine ⟨i, ?_, rfl⟩
    by_contra hni
    exact absurd hle (not_le_of_gt (h.lt_getElem (show n < i by omega) hi))

theorem Ascending.drop_succ (h : Ascending key l) (hn : n < l.length) :
    l.drop (n + 1) = l.filter fun a => key l[n] < key a := by
  refine Ascending.ext (h.sublist (List.drop_sublist _ _)) (h.filter _) fun a => ?_
  rw [List.mem_drop_iff_getElem, List.mem_filter, decide_eq_true_eq, List.mem_iff_getElem]
  constructor
  · rintro ⟨i, hi, rfl⟩
    exact ⟨⟨n + 1 + i, by omega, rfl⟩, h.lt_getElem (by omega) _⟩
  · rintro ⟨⟨i, hi, rfl⟩, hlt⟩
    have hni : n < i := by
      by_contra hni
      rcases Nat.lt_or_eq_of_le (show i ≤ n by omega) with hin | rfl
      · exact absurd hlt (h.lt_getElem hin hn).le.not_gt
      · exact lt_irrefl _ hlt
    exact ⟨i - (n + 1), by omega, by congr 1; omega⟩

/-- The member lies beyond the key, if there is one. -/
def beyond (key : α → κ) (cursor : Option κ) (a : α) : Bool := cursor.all fun k => k < key a

/-- Reading by keys: after a page comes what lies beyond its last member. -/
theorem Ascending.page (h : Ascending key l) (cursor : Option κ) {last : α}
    (hlast : ((l.filter (beyond key cursor)).take n).getLast? = some last) :
    l.filter (beyond key cursor) =
      (l.filter (beyond key cursor)).take n ++ l.filter fun a => key last < key a := by
  have hrest := h.filter (beyond key cursor)
  have hbeyond : beyond key cursor last = true :=
    (List.mem_filter.mp (List.mem_of_mem_take (List.mem_of_getLast? hlast))).2
  have hsame : (l.filter fun a => key last < key a) =
      (l.filter (beyond key cursor)).filter fun a => key last < key a := by
    rw [List.filter_filter]
    refine List.filter_congr fun a _ => ?_
    rcases cursor with _ | k
    · simp [beyond]
    · have hk : k < key last := of_decide_eq_true hbeyond
      by_cases ha : key last < key a
      · simp [beyond, ha, hk.trans ha]
      · simp [ha]
  rw [hsame]
  generalize l.filter (beyond key cursor) = rest at *
  have hne : rest.take n ≠ [] := by
    intro hnil
    rw [hnil] at hlast
    cases hlast
  have hpos : 0 < (rest.take n).length := List.length_pos_iff.mpr hne
  rw [List.length_take] at hpos
  -- the page ends at the index before the smaller one of the two bounds
  obtain ⟨k, hk⟩ : ∃ k, min n rest.length = k + 1 := ⟨min n rest.length - 1, by omega⟩
  have hklt : k < rest.length := by omega
  have htake : rest.take n = rest.take (k + 1) := by
    rw [← hk, List.take_eq_take_min]
  have hget : rest[k] = last := by
    rw [htake, List.getLast?_take, if_neg (by omega), Nat.add_sub_cancel, List.getElem?_eq_getElem hklt] at hlast
    simpa using hlast
  have hdrop := hrest.drop_succ hklt
  rw [hget] at hdrop
  rw [htake, ← hdrop, List.take_append_drop]

/-- A list that lacks only members that come after `n` of its own has the same first `n` members. -/
theorem Ascending.take_of_cover (h : Ascending key l) (h' : Ascending key l') (hsub : ∀ a ∈ l, a ∈ l')
    (hcover : ∀ a ∈ l', a ∉ l → n ≤ (l.filter fun b => key b < key a).length) :
    l.take n = l'.take n := by
  by_cases hall : ∀ a ∈ l', a ∈ l
  · rw [h.ext h' fun a => ⟨hsub a, hall a⟩]
  push Not at hall
  obtain ⟨a, ha, hmiss⟩ := hall
  have hn : n ≤ l.length := (hcover a ha hmiss).trans (List.length_filter_le _ _)
  rcases n with _ | n
  · rfl
  -- the `n`-th member comes before every missing one, so up to it the two lists are the same
  have hbeyond : ∀ a ∈ l', a ∉ l → key l[n] < key a := by
    intro a ha hmiss
    have hprefix : (l.filter fun b => key b < key a) <+: l :=
      h.filter_prefix fun b c hbc hc => decide_eq_true (hbc.trans (of_decide_eq_true hc))
    have hlast : l[n] ∈ l.filter fun b => key b < key a := by
      rw [← hprefix.getElem (hcover a ha hmiss)]
      exact List.getElem_mem _
    exact of_decide_eq_true (List.mem_filter.mp hlast).2
  have hsame : (l.filter fun a => key a ≤ key l[n]) = l'.filter fun a => key a ≤ key l[n] := by
    refine Ascending.ext (h.filter _) (h'.filter _) fun b => ?_
    simp only [List.mem_filter, decide_eq_true_eq]
    refine ⟨fun ⟨hb, hle⟩ => ⟨hsub b hb, hle⟩, fun ⟨hb, hle⟩ => ⟨?_, hle⟩⟩
    by_contra hbmiss
    exact absurd hle (hbeyond b hb hbmiss).not_ge
  have hprefix : l.take (n + 1) <+: l' := by
    rw [h.take_succ hn, hsame]
    exact h'.filter_prefix fun b c hbc hc => decide_eq_true (hbc.le.trans (of_decide_eq_true hc))
  rw [List.prefix_iff_eq_take.mp hprefix, List.length_take, min_eq_left hn]

end Ordered
