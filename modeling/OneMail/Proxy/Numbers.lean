import OneMail.Proxy.Session

/-! Sequence numbers and UIDs.

    An index that was just built lists the ids of the backend's mails (`buildUidIndex_spec`). In an
    ascending index number and UID determine each other (`uidToSeq_eq_some`), what a set of numbers
    resolves to is in the index under numbers of the set (`resolve_listed`), and what a set of UIDs
    resolves to is what the index has of it (`resolve_covered`). -/

namespace OneMail.Proxy

open Ordered (Ascending)

variable {ρ μ : Type} {settings : Settings ρ μ} {b : Backend ρ} {store : FlagStore} {box : SimpleMailbox μ}
  {index us : List ℕ} {messages : MessageSet} {uid : Bool} {n u : ℕ}

/-! ### Building the index -/

theorem getMessages_eq (b : Backend ρ) (size offset : ℕ) :
    b.getMessages size offset = (b.rows.reverse.drop offset).take size := rfl

/-- Collecting the distinct ids of a list of rows, in the order of the rows. -/
theorem foldl_addId : ∀ (l : List (Item ρ)) (uids : List ℕ), (uids ++ l.map Item.id).Nodup →
    l.foldl SimpleMailbox.addId uids = uids ++ l.map Item.id
  | [], uids, _ => (List.append_nil uids).symm
  | item :: l, uids, h => by
    have hnew : item.id ∉ uids := fun hmem =>
      (List.nodup_append.mp h).2.2 _ hmem _ (List.mem_cons_self ..) rfl
    rw [List.foldl_cons, SimpleMailbox.addId, if_neg hnew, foldl_addId l _ (by simpa using h)]
    simp

theorem rows_reverse_nodup : (b.rows.reverse.map Item.id).Nodup := by
  rw [List.map_reverse, List.nodup_reverse]
  exact b.ids_nodup

/-- What building the index leaves. -/
structure Built (b : Backend ρ) (old box : SimpleMailbox μ) : Prop where
  index : box.uidIndex = b.ids
  count : box.messageCount = b.rows.length
  built : box.uidIndexBuilt = true
  cache : box.cache = old.cache

theorem buildUidIndex_spec (b : Backend ρ) (store : FlagStore) (box : SimpleMailbox μ) :
    Built b box (box.buildUidIndex b store) := by
  rw [SimpleMailbox.buildUidIndex]
  dsimp only
  split
  · rename_i h
    refine ⟨?_, rfl, rfl, rfl⟩
    rw [Backend.ids, List.length_eq_zero_iff.mp h]
    rfl
  · refine ⟨?_, rfl, rfl, rfl⟩
    obtain ⟨k, hk, hend⟩ := Paging.sweep_take (getMessages_eq b) (show 0 < 100 by omega) (fun _ => false)
      SimpleMailbox.addId b.rows.length 0 [] (by simp)
    rw [List.length_reverse] at hk hend
    have hall : b.rows.reverse.take k = b.rows.reverse := by
      refine List.take_of_length_le ?_
      rw [List.length_reverse]
      simpa using hend.resolve_left Bool.false_ne_true
    rw [List.drop_zero, hall, foldl_addId _ _ (by simpa using rows_reverse_nodup), List.nil_append] at hk
    rw [Backend.getMessageCount, hk]
    refine (Ordered.sortBy_ascending ?_).ext b.ids_ascending fun u => ?_
    · simpa using rows_reverse_nodup
    · rw [Ordered.mem_sortBy, List.map_reverse, List.mem_reverse, Backend.ids]

theorem refresh_spec (b : Backend ρ) (store : FlagStore) (box : SimpleMailbox μ) :
    (box.uidIndexBuilt = true ∧ b.rows.length = box.messageCount ∧ box.refresh b store = box) ∨
    ((!box.uidIndexBuilt || b.rows.length != box.messageCount) = true ∧ Built b box (box.refresh b store)) := by
  rw [SimpleMailbox.refresh]
  by_cases hbuilt : box.uidIndexBuilt = true
  · rw [if_neg (not_not.mpr hbuilt)]
    by_cases hcount : b.rows.length = box.messageCount
    · exact .inl ⟨hbuilt, hcount, if_neg (not_not.mpr hcount)⟩
    · refine .inr ⟨by simpa [hbuilt] using hcount, ?_⟩
      rw [if_pos (show b.getMessageCount ≠ _ from hcount)]
      have h := buildUidIndex_spec b store { box with messageCount := b.getMessageCount }
      exact ⟨h.index, h.count, h.built, h.cache⟩
  · rw [if_pos hbuilt]
    exact .inr ⟨by simp [hbuilt], buildUidIndex_spec b store box⟩

theorem ensureIndex_spec (b : Backend ρ) (store : FlagStore) (box : SimpleMailbox μ) :
    (box.uidIndexBuilt = true ∧ box.ensureIndex b store = box) ∨
    (box.uidIndexBuilt = false ∧ Built b box (box.ensureIndex b store)) := by
  rw [SimpleMailbox.ensureIndex]
  by_cases hbuilt : box.uidIndexBuilt = true
  · exact .inl ⟨hbuilt, if_neg (not_not.mpr hbuilt)⟩
  · rw [if_pos hbuilt]
    exact .inr ⟨Bool.eq_false_iff.mpr hbuilt, buildUidIndex_spec b store box⟩

/-! ### Numbers and UIDs -/

theorem seqToUid_mem (h : seqToUid index n = some u) : u ∈ index := by
  rw [seqToUid] at h
  split at h
  · exact List.mem_of_getElem? h
  · cases h

theorem seqToUid_le (h : seqToUid index n = some u) : 1 ≤ n ∧ n ≤ index.length := by
  rw [seqToUid] at h
  split at h
  · rename_i hn
    exact hn
  · cases h

theorem exists_seq (h : u ∈ index) : ∃ n, seqToUid index n = some u := by
  obtain ⟨k, hk, rfl⟩ := List.mem_iff_getElem.mp h
  refine ⟨k + 1, ?_⟩
  rw [seqToUid, if_pos ⟨by omega, by omega⟩, Nat.add_sub_cancel, List.getElem?_eq_getElem hk]

/-- In an ascending index the entries before `u` are the smaller ones. -/
theorem bisectLeft_eq (h : Ascending id index) {k : ℕ} (hk : index[k]? = some u) : bisectLeft index u = k := by
  induction index generalizing k with
  | nil => cases hk
  | cons a index ih =>
    obtain ⟨hhead, htail⟩ := List.pairwise_cons.mp h
    rcases k with - | k
    · obtain rfl : a = u := Option.some.inj hk
      simp [bisectLeft]
    · have hmem : u ∈ index := List.mem_of_getElem? (by simpa using hk)
      have hlt : a < u := hhead u hmem
      have hrest := ih htail (k := k) (by simpa using hk)
      rw [bisectLeft] at hrest ⊢
      rw [List.takeWhile_cons_of_pos (by simpa using hlt), List.length_cons, hrest]

theorem bisectLeft_count (h : Ascending id index) (u : ℕ) :
    bisectLeft index u = (index.filter (· < u)).length := by
  induction index with
  | nil => rfl
  | cons a index ih =>
    obtain ⟨hhead, htail⟩ := List.pairwise_cons.mp h
    by_cases hlt : a < u
    · have hrest := ih htail
      rw [bisectLeft] at hrest ⊢
      rw [List.takeWhile_cons_of_pos (by simpa using hlt), List.filter_cons_of_pos (by simpa using hlt),
        List.length_cons, List.length_cons, hrest]
    · have hnone : index.filter (· < u) = [] := by
        refine List.filter_eq_nil_iff.mpr fun x hx => ?_
        have hax : a < x := hhead x hx
        simpa using (Nat.not_lt.mp hlt).trans hax.le
      rw [bisectLeft, List.takeWhile_cons_of_neg (by simpa using hlt),
        List.filter_cons_of_neg (by simpa using hlt), hnone]

theorem uidToSeq_eq_some (h : Ascending id index) : uidToSeq index u = some n ↔ seqToUid index n = some u := by
  constructor
  · intro hseq
    rw [uidToSeq] at hseq
    split at hseq
    · rename_i hget
      obtain rfl := Option.some.inj hseq
      have hlen : bisectLeft index u < index.length := (List.getElem?_eq_some_iff.mp hget).1
      rwa [seqToUid, if_pos ⟨by omega, by omega⟩, Nat.add_sub_cancel]
    · cases hseq
  · intro hget
    obtain ⟨hpos, hle⟩ := seqToUid_le hget
    rw [seqToUid, if_pos ⟨hpos, hle⟩] at hget
    rw [uidToSeq, bisectLeft_eq h hget, if_pos hget, Nat.sub_add_cancel hpos]

/-- The number of an id is one more than the count of the smaller ones. -/
theorem seqToUid_of_count (h : Ascending id index) (hu : u ∈ index)
    (hn : (index.filter (· < u)).length + 1 = n) : seqToUid index n = some u := by
  obtain ⟨m, hm⟩ := exists_seq hu
  have hseq := (uidToSeq_eq_some h).mpr hm
  rw [uidToSeq] at hseq
  split at hseq
  · have hmn := Option.some.inj hseq
    rw [bisectLeft_count h u, hn] at hmn
    rw [hmn]
    exact hm
  · cases hseq

/-! ### Resolving a set -/

theorem mem_resolveRanges {ranges : List (Option ℕ × Option ℕ)} (h : resolveRanges index uid ranges = some us) :
    u ∈ us ↔ ∃ range ∈ ranges, ∃ vs, resolveRange index uid range = some vs ∧ u ∈ vs := by
  induction ranges generalizing us with
  | nil =>
    obtain rfl := Option.some.inj h
    simp
  | cons range ranges ih =>
    obtain ⟨vs, hvs, h⟩ := Option.bind_eq_some_iff.mp h
    obtain ⟨ws, hws, rfl⟩ := Option.map_eq_some_iff.mp h
    rw [List.mem_append, ih hws, List.exists_mem_cons_iff, hvs]
    simp

theorem resolveRanges_isSome {ranges : List (Option ℕ × Option ℕ)}
    (h : ∀ range ∈ ranges, ∃ start, range.1 = some start) (index : List ℕ) (uid : Bool) :
    ∃ us, resolveRanges index uid ranges = some us := by
  induction ranges with
  | nil => exact ⟨[], rfl⟩
  | cons range ranges ih =>
    obtain ⟨us, hus⟩ := ih fun r hr => h r (List.mem_cons_of_mem _ hr)
    obtain ⟨start, hstart⟩ := h range List.mem_cons_self
    rw [resolveRanges, resolveRange, hstart, hus]
    exact ⟨_, rfl⟩

theorem resolveRange_mem {range : Option ℕ × Option ℕ} (h : resolveRange index uid range = some us)
    (hu : u ∈ us) : u ∈ index := by
  obtain ⟨start, -, rfl⟩ := Option.map_eq_some_iff.mp h
  split at hu
  · exact List.mem_of_mem_filter hu
  · obtain ⟨n, -, hn⟩ := List.mem_filterMap.mp hu
    exact seqToUid_mem hn

/-- A set resolves to UIDs of the index. -/
theorem resolve_mem (h : resolveMessageSet index messages uid = some us) (hu : u ∈ us) : u ∈ index := by
  rw [resolveMessageSet] at h
  split at h
  · cases h
    cases hu
  · obtain ⟨range, -, vs, hvs, hu⟩ := (mem_resolveRanges h).mp hu
    exact resolveRange_mem hvs hu

/-- A set of numbers resolves to UIDs under numbers of the set. -/
theorem resolve_listed (h : resolveMessageSet index messages false = some us) (hu : u ∈ us) :
    ∃ n, seqToUid index n = some u ∧ messages.Lists n := by
  rw [resolveMessageSet] at h
  split at h
  · cases h
    cases hu
  · obtain ⟨range, hrange, vs, hvs, hu⟩ := (mem_resolveRanges h).mp hu
    obtain ⟨start, hstart, rfl⟩ := Option.map_eq_some_iff.mp hvs
    rw [if_neg Bool.false_ne_true] at hu
    obtain ⟨n, hn, hget⟩ := List.mem_filterMap.mp hu
    have hbounds := List.mem_range'_1.mp hn
    refine ⟨n, hget, range, hrange, start, hstart, by omega, fun stop hstop => ?_⟩
    rw [hstop, Option.getD_some] at hbounds
    omega

/-- A set of UIDs resolves to what the index has of it. -/
theorem resolve_covered (h : ∀ range ∈ messages.ranges, ∃ start, range.1 = some start)
    (index : List ℕ) : ∃ us, resolveMessageSet index messages true = some us ∧ ∀ u, u ∈ us ↔ u ∈ index ∧
      ∃ range ∈ messages.ranges, range.1.getD 0 ≤ u ∧ u ≤ range.2.getD (index.getLastD 0) := by
  rw [resolveMessageSet]
  by_cases hempty : index = []
  · exact ⟨[], if_pos hempty, by simp [hempty]⟩
  · obtain ⟨us, hus⟩ := resolveRanges_isSome h index true
    refine ⟨us, by rw [if_neg hempty, hus], fun u => ?_⟩
    rw [mem_resolveRanges hus]
    constructor
    · rintro ⟨range, hrange, vs, hvs, hu⟩
      refine ⟨resolveRange_mem hvs hu, range, hrange, ?_⟩
      obtain ⟨start, hstart, rfl⟩ := Option.map_eq_some_iff.mp hvs
      simpa [hstart] using (List.mem_filter.mp hu).2
    · rintro ⟨hu, range, hrange, hbounds⟩
      obtain ⟨start, hstart⟩ := h range hrange
      refine ⟨range, hrange, _, by rw [resolveRange, hstart]; rfl, ?_⟩
      rw [hstart, Option.getD_some] at hbounds
      exact List.mem_filter.mpr ⟨hu, by simpa using hbounds⟩

end OneMail.Proxy
