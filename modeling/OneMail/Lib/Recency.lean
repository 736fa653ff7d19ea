import Mathlib

/-! A store of bounded size that forgets what was used longest ago.

    The entries stand in the order of their last use, the oldest first; a new key in a full store takes
    the place of the oldest one. A key that is in the store is still there after a series of puts if
    fewer than `cap` other keys have been used since its own last use (`mem_putAll`), so as many new
    keys as the store has room for are all kept (`mem_putAll_of_mem`). -/

namespace Recency

variable {κ ν : Type*} {cap : ℕ} {s : List (κ × ν)} {k u : κ} {v : ν} {e : κ × ν}

/-- The keys in the order of their last use. -/
def keys (s : List (κ × ν)) : List κ := s.map Prod.fst

@[simp] theorem keys_nil : keys ([] : List (κ × ν)) = [] := rfl

@[simp] theorem keys_append (s t : List (κ × ν)) : keys (s ++ t) = keys s ++ keys t := List.map_append

@[simp] theorem keys_cons (e : κ × ν) (s : List (κ × ν)) : keys (e :: s) = e.1 :: keys s := rfl

@[simp] theorem length_keys : (keys s).length = s.length := List.length_map _

theorem keys_tail : keys s.tail = (keys s).tail := by
  cases s <;> rfl

theorem mem_keys_of_mem (h : e ∈ s) : e.1 ∈ keys s := List.mem_map_of_mem h

theorem exists_of_mem_keys (h : k ∈ keys s) : ∃ v, (k, v) ∈ s := by
  obtain ⟨⟨_, v⟩, he, rfl⟩ := List.mem_map.mp h
  exact ⟨v, he⟩

/-- The keys are distinct and at most `cap`. -/
structure Sound (cap : ℕ) (s : List (κ × ν)) : Prop where
  nodup : (keys s).Nodup
  bounded : s.length ≤ cap

theorem Sound.nil : Sound cap ([] : List (κ × ν)) := ⟨List.nodup_nil, Nat.zero_le _⟩

variable [DecidableEq κ]

def lookup (s : List (κ × ν)) (k : κ) : Option ν := (s.find? fun e => e.1 = k).map Prod.snd

/-- The store without `k`. -/
def without (s : List (κ × ν)) (k : κ) : List (κ × ν) := s.filter fun e => e.1 ≠ k

/-- Reading a key makes it the one used last. -/
def get (s : List (κ × ν)) (k : κ) : Option ν × List (κ × ν) :=
  match lookup s k with
  | some v => (some v, without s k ++ [(k, v)])
  | none => (none, s)

def put (cap : ℕ) (s : List (κ × ν)) (k : κ) (v : ν) : List (κ × ν) :=
  if k ∈ keys s then without s k ++ [(k, v)]
  else (if cap ≤ s.length then s.tail else s) ++ [(k, v)]

def putAll (cap : ℕ) (s : List (κ × ν)) (es : List (κ × ν)) : List (κ × ν) :=
  es.foldl (fun s e => put cap s e.1 e.2) s

theorem keys_without : keys (without s k) = (keys s).filter (· ≠ k) := by
  rw [keys, keys, without, List.filter_map]
  rfl

theorem lookup_mem (h : lookup s k = some v) : (k, v) ∈ s := by
  obtain ⟨⟨j, w⟩, he, rfl⟩ := Option.map_eq_some_iff.mp h
  obtain rfl : j = k := by simpa using List.find?_some he
  exact List.mem_of_find?_eq_some he

theorem lookup_of_mem_keys (h : k ∈ keys s) : ∃ v, lookup s k = some v := by
  obtain ⟨v, hv⟩ := exists_of_mem_keys h
  rcases hl : lookup s k with - | w
  · exact absurd (decide_eq_true rfl) (List.find?_eq_none.mp (Option.map_eq_none_iff.mp hl) _ hv)
  · exact ⟨w, rfl⟩

theorem keys_put_of_mem (h : k ∈ keys s) : keys (put cap s k v) = (keys s).filter (· ≠ k) ++ [k] := by
  rw [put, if_pos h, keys_append, keys_without]
  rfl

theorem keys_put_of_notMem (h : k ∉ keys s) :
    keys (put cap s k v) = (if cap ≤ s.length then (keys s).tail else keys s) ++ [k] := by
  rw [put, if_neg h, keys_append, apply_ite keys, keys_tail]
  rfl

/-- What is in the store after a put was there before or is what was put. -/
theorem mem_put (h : e ∈ put cap s k v) : e ∈ s ∨ e = (k, v) := by
  rw [put] at h
  split at h
  · exact (List.mem_append.mp h).imp List.mem_of_mem_filter List.mem_singleton.mp
  · refine (List.mem_append.mp h).imp (fun h => ?_) List.mem_singleton.mp
    split at h
    · exact List.mem_of_mem_tail h
    · exact h

theorem mem_of_putAll {es : List (κ × ν)} (h : e ∈ putAll cap s es) : e ∈ s ∨ e ∈ es := by
  induction es generalizing s with
  | nil => exact .inl h
  | cons e' es ih =>
    rcases ih h with h | h
    · refine (mem_put h).imp_right fun h => ?_
      rw [h]
      exact List.mem_cons_self
    · exact .inr (List.mem_cons_of_mem _ h)

/-! ### The order of use -/

theorem Sound.moved (h : Sound cap s) (hk : k ∈ keys s) : Sound cap (without s k ++ [(k, v)]) := by
  obtain ⟨w, hw⟩ := exists_of_mem_keys hk
  have hlt : (without s k).length < s.length :=
    List.length_filter_lt_length_iff_exists.mpr ⟨(k, w), hw, by simp⟩
  refine ⟨?_, ?_⟩
  · rw [keys_append, keys_without]
    refine (h.nodup.filter _).append (List.nodup_singleton k) fun a ha hk => ?_
    exact of_decide_eq_true (List.mem_filter.mp ha).2 (List.mem_singleton.mp hk)
  · rw [List.length_append, List.length_singleton]
    exact hlt.trans_le h.bounded

theorem Sound.put (h : Sound cap s) (hcap : 0 < cap) : Sound cap (put cap s k v) := by
  by_cases hk : k ∈ keys s
  · rw [Recency.put, if_pos hk]
    exact h.moved hk
  · refine ⟨?_, ?_⟩
    · rw [keys_put_of_notMem hk]
      refine List.Nodup.append ?_ (List.nodup_singleton k) fun a ha hak => hk ?_
      · split
        · exact h.nodup.tail
        · exact h.nodup
      · rw [← List.mem_singleton.mp hak]
        split at ha
        · exact List.mem_of_mem_tail ha
        · exact ha
    · have hb := h.bounded
      rw [Recency.put, if_neg hk, List.length_append, List.length_singleton]
      split
      · rw [List.length_tail]
        omega
      · omega

theorem Sound.putAll {es : List (κ × ν)} (h : Sound cap s) (hcap : 0 < cap) : Sound cap (putAll cap s es) := by
  induction es generalizing s with
  | nil => exact h
  | cons e es ih => exact ih (h.put hcap)

/-! ### Reading -/

theorem get_fst : (get s k).1 = lookup s k := by
  rw [get]
  cases lookup s k <;> rfl

theorem mem_keys_get : u ∈ keys (get s k).2 ↔ u ∈ keys s := by
  rw [get]
  split
  · rename_i v hv
    have hk := mem_keys_of_mem (lookup_mem hv)
    rw [keys_append, keys_without, List.mem_append, List.mem_filter]
    by_cases hu : u = k
    · simpa [hu] using hk
    · simp [hu]
  · exact Iff.rfl

/-- Reading changes no entry. -/
theorem mem_of_get (h : e ∈ (get s k).2) : e ∈ s := by
  rw [get] at h
  split at h
  · rename_i v hv
    rcases List.mem_append.mp h with h | h
    · exact List.mem_of_mem_filter h
    · rw [List.mem_singleton.mp h]
      exact lookup_mem hv
  · exact h

theorem Sound.get (h : Sound cap s) : Sound cap (get s k).2 := by
  rw [Recency.get]
  split
  · rename_i v hv
    exact h.moved (mem_keys_of_mem (lookup_mem hv))
  · exact h

/-! ### What is kept -/

/-- A key is forgotten only after `cap` other keys have been used since its own last use. -/
theorem mem_putAll {es : List (κ × ν)} (h : Sound cap s) (hcap : 0 < cap) {a b : List κ}
    (hs : keys s = a ++ u :: b) (hfew : ((b.toFinset ∪ (keys es).toFinset).erase u).card < cap) :
    u ∈ keys (putAll cap s es) := by
  -- by induction on the puts: `b` holds the keys used after `u`
  induction es generalizing s a b with
  | nil =>
    rw [show putAll cap s [] = s from rfl, hs]
    simp
  | cons e es ih =>
    have hsound : Sound cap (put cap s e.1 e.2) := h.put hcap
    rw [show putAll cap s (e :: es) = putAll cap (put cap s e.1 e.2) es from rfl]
    by_cases hmem : e.1 ∈ keys s
    · have hput : keys (put cap s e.1 e.2) = (keys s).filter (· ≠ e.1) ++ [e.1] := keys_put_of_mem hmem
      by_cases heu : e.1 = u
      · rw [heu] at hput hsound ⊢
        refine ih hsound hput (lt_of_le_of_lt (Finset.card_le_card ?_) hfew)
        intro x hx
        simp only [Finset.mem_erase, Finset.mem_union, List.mem_toFinset, keys_cons, List.mem_cons] at hx ⊢
        exact ⟨hx.1, .inr (.inr (hx.2.resolve_left List.not_mem_nil))⟩
      · rw [hs, List.filter_append, List.filter_cons_of_pos (by simpa using Ne.symm heu),
          List.append_assoc, List.cons_append] at hput
        refine ih hsound hput (lt_of_le_of_lt (Finset.card_le_card ?_) hfew)
        intro x hx
        simp only [Finset.mem_erase, Finset.mem_union, List.mem_toFinset, List.mem_append, List.mem_filter,
          keys_cons, List.mem_cons] at hx ⊢
        tauto
    · have hput : keys (put cap s e.1 e.2) = (if cap ≤ s.length then (keys s).tail else keys s) ++ [e.1] :=
        keys_put_of_notMem hmem
      have heu : e.1 ≠ u := fun heu => hmem (by simp [hs, heu])
      have hb : e.1 ∉ b := fun hb => hmem (by simp [hs, hb])
      have hnext : ∀ a', keys (put cap s e.1 e.2) = a' ++ u :: (b ++ [e.1]) →
          u ∈ keys (putAll cap (put cap s e.1 e.2) es) := by
        intro a' ha'
        refine ih hsound ha' (lt_of_le_of_lt (Finset.card_le_card ?_) hfew)
        intro x hx
        simp only [Finset.mem_erase, Finset.mem_union, List.mem_toFinset, List.mem_append,
          keys_cons, List.mem_cons] at hx ⊢
        tauto
      rcases a with - | ⟨x, a⟩
      · -- `u` is the oldest: a full store would hold `cap` keys that are not `u`
        rw [if_neg, hs, List.nil_append, List.cons_append] at hput
        · exact hnext [] hput
        · intro hfull
          have hnodup := h.nodup
          rw [hs, List.nil_append] at hnodup
          have hub : u ∉ b := (List.nodup_cons.mp hnodup).1
          have hcard : (insert e.1 b.toFinset).card = b.length + 1 := by
            rw [Finset.card_insert_of_notMem (fun hx => hb (List.mem_toFinset.mp hx)),
              List.toFinset_card_of_nodup (List.nodup_cons.mp hnodup).2]
          have hle : (insert e.1 b.toFinset).card
              ≤ ((b.toFinset ∪ (keys (e :: es)).toFinset).erase u).card := by
            refine Finset.card_le_card fun x hx => ?_
            simp only [Finset.mem_insert, List.mem_toFinset] at hx
            simp only [Finset.mem_erase, Finset.mem_union, List.mem_toFinset, keys_cons, List.mem_cons]
            rcases hx with rfl | hx
            · exact ⟨heu, .inr (.inl rfl)⟩
            · exact ⟨fun hxu => hub (hxu ▸ hx), .inl hx⟩
          have hlen : s.length = b.length + 1 := by rw [← length_keys, hs]; simp
          omega
      · rw [hs] at hput
        split at hput
        · exact hnext a (by rw [hput]; simp)
        · exact hnext (x :: a) (by rw [hput]; simp)

/-- Of a series of puts nothing is forgotten if the store has room for its keys. -/
theorem mem_putAll_of_mem {es : List (κ × ν)} (h : Sound cap s) (hcap : 0 < cap)
    (hroom : (keys es).toFinset.card ≤ cap) (hu : u ∈ keys es) : u ∈ keys (putAll cap s es) := by
  obtain ⟨v, hv⟩ := exists_of_mem_keys hu
  obtain ⟨before, after, rfl⟩ := List.append_of_mem hv
  have hsound : Sound cap (putAll cap s before) := h.putAll hcap
  have hlast : ∃ a, keys (put cap (putAll cap s before) u v) = a ++ [u] := by
    by_cases hk : u ∈ keys (putAll cap s before)
    · exact ⟨_, keys_put_of_mem hk⟩
    · exact ⟨_, keys_put_of_notMem hk⟩
  obtain ⟨a, ha⟩ := hlast
  rw [putAll, List.foldl_append, List.foldl_cons]
  refine mem_putAll (hsound.put hcap) hcap ha (lt_of_lt_of_le (Finset.card_lt_card ?_) hroom)
  refine Finset.ssubset_iff_subset_ne.mpr ⟨fun x hx => ?_, fun heq => ?_⟩
  · simp only [Finset.mem_erase, Finset.mem_union, List.mem_toFinset] at hx
    simp only [List.mem_toFinset, keys_append, keys_cons, List.mem_append, List.mem_cons]
    exact .inr (.inr (hx.2.resolve_left List.not_mem_nil))
  · have hmem : u ∈ (keys (before ++ (u, v) :: after)).toFinset := List.mem_toFinset.mpr hu
    rw [← heq] at hmem
    exact (Finset.mem_erase.mp hmem).1 rfl

end Recency
