import Mathlib

/-! Reading from a stream that arrives in segments.

    A reader holds a buffer and the segments that are still to arrive, after which the stream ends. What
    a read returns depends on `remaining` alone, the concatenation of both, and it leaves the rest of it:
    `readUntil_found` and `readUntil_some` say so for a read up to a separator, `readExactly_of_le` for a
    read of a given size. Only `read` shows where the segments end, and it returns a nonempty prefix. -/

namespace Stream

variable {α : Type*}

structure Reader (α : Type*) where
  buffer : List α
  segments : List (List α)

def Reader.remaining (r : Reader α) : List α := r.buffer ++ r.segments.flatten

@[simp] theorem remaining_mk (buffer : List α) (segments : List (List α)) :
    Reader.remaining ⟨buffer, segments⟩ = buffer ++ segments.flatten := rfl

/-! ### Up to a separator -/

section Until

variable [DecidableEq α] {sep : α} {limit : ℕ} {buffer l rest : List α} {segments : List (List α)} {r : Reader α}

/-- Read up to and with the separator, or to the end of the stream; a buffer that outgrows the limit
    before the separator is an overrun. -/
def readUntil (sep : α) (limit : ℕ) : List α → List (List α) → Option (List α × Reader α)
  | buffer, segments =>
    if sep ∈ buffer then
      if limit < buffer.idxOf sep then none
      else some (buffer.take (buffer.idxOf sep + 1), ⟨buffer.drop (buffer.idxOf sep + 1), segments⟩)
    else if limit < buffer.length then none
    else match segments with
      | [] => some (buffer, ⟨[], []⟩)
      | segment :: segments => readUntil sep limit (buffer ++ segment) segments

theorem idxOf_separated (hl : sep ∉ l) : (l ++ sep :: rest).idxOf sep = l.length := by
  rw [List.idxOf_append_of_notMem hl, List.idxOf_cons_self, Nat.add_zero]

/-- A list is split at its first separator in one way. -/
theorem separated_inj {l' rest' : List α} (hl : sep ∉ l) (hl' : sep ∉ l')
    (h : l ++ sep :: rest = l' ++ sep :: rest') : l = l' ∧ rest = rest' := by
  have hlen : l.length = l'.length := by
    rw [← @idxOf_separated _ _ _ _ rest hl, h, idxOf_separated hl']
  obtain ⟨hleft, hright⟩ := List.append_inj h hlen
  exact ⟨hleft, (List.cons.inj hright).2⟩

theorem takeWhile_separated (hl : sep ∉ l) : (l ++ sep :: rest).takeWhile (· ≠ sep) = l := by
  have hall : ∀ x ∈ l, decide (x ≠ sep) = true := fun x hx => decide_eq_true fun h => hl (h ▸ hx)
  rw [List.takeWhile_append_of_pos hall, List.takeWhile_cons_of_neg (by simp), List.append_nil]

theorem dropWhile_separated (hl : sep ∉ l) : (l ++ sep :: rest).dropWhile (· ≠ sep) = sep :: rest := by
  have hall : ∀ x ∈ l, decide (x ≠ sep) = true := fun x hx => decide_eq_true fun h => hl (h ▸ hx)
  rw [List.dropWhile_append_of_pos hall, List.dropWhile_cons_of_neg (by simp)]

/-- The separator is in the buffer. -/
theorem readUntil_buffered (hl : sep ∉ l) : readUntil sep limit (l ++ sep :: rest) segments =
    if limit < l.length then none else some (l ++ [sep], ⟨rest, segments⟩) := by
  have hsplit : l ++ sep :: rest = (l ++ [sep]) ++ rest := by rw [List.append_assoc, List.singleton_append]
  have hlen : l.length + 1 = (l ++ [sep]).length := by rw [List.length_append, List.length_singleton]
  unfold readUntil
  rw [if_pos (List.mem_append_right _ List.mem_cons_self), idxOf_separated hl, hsplit, hlen, List.take_left,
    List.drop_left]

/-- The first separator of the stream, if it stands within the limit, ends what is read. -/
theorem readUntil_found (hl : sep ∉ l) (hlen : l.length ≤ limit)
    (h : buffer ++ segments.flatten = l ++ sep :: rest) :
    ∃ r : Reader α, readUntil sep limit buffer segments = some (l ++ [sep], r) ∧ r.remaining = rest := by
  induction segments generalizing buffer with
  | nil =>
    rw [List.flatten_nil, List.append_nil] at h
    rw [h, readUntil_buffered hl, if_neg (by omega)]
    exact ⟨_, rfl, by rw [remaining_mk, List.flatten_nil, List.append_nil]⟩
  | cons segment segments ih =>
    by_cases hmem : sep ∈ buffer
    · obtain ⟨a, b, rfl, ha⟩ := List.eq_append_cons_of_mem hmem
      rw [List.append_assoc, List.cons_append] at h
      obtain ⟨rfl, hb⟩ := separated_inj ha hl h
      rw [readUntil_buffered hl, if_neg (by omega)]
      exact ⟨_, rfl, hb⟩
    · have hle : buffer.length ≤ l.length := by
        by_contra hgt
        refine hmem ?_
        have htake := congrArg (List.take (l.length + 1)) h
        rw [List.take_append_of_le_length (by omega), List.take_length_add_append, List.take_succ_cons,
          List.take_zero] at htake
        exact List.mem_of_mem_take (htake ▸ List.mem_append_right l List.mem_cons_self)
      rw [readUntil, if_neg hmem, if_neg (by omega)]
      exact ih (by rw [List.append_assoc, ← List.flatten_cons, h])

/-- What is read ends with the first separator, or the stream has none and is read to its end. -/
theorem readUntil_some (h : readUntil sep limit buffer segments = some (l, r)) :
    buffer ++ segments.flatten = l ++ r.remaining ∧
    ((∃ a, l = a ++ [sep] ∧ sep ∉ a) ∨ sep ∉ l ∧ r.remaining = []) := by
  induction segments generalizing buffer with
  | nil =>
    by_cases hmem : sep ∈ buffer
    · obtain ⟨a, b, rfl, ha⟩ := List.eq_append_cons_of_mem hmem
      rw [readUntil_buffered ha] at h
      split at h
      · cases h
      · obtain ⟨rfl, rfl⟩ := Prod.mk.inj (Option.some.inj h)
        exact ⟨by simp, .inl ⟨a, rfl, ha⟩⟩
    · rw [readUntil, if_neg hmem] at h
      split at h
      · cases h
      · obtain ⟨rfl, rfl⟩ := Prod.mk.inj (Option.some.inj h)
        exact ⟨by simp, .inr ⟨hmem, rfl⟩⟩
  | cons segment segments ih =>
    by_cases hmem : sep ∈ buffer
    · obtain ⟨a, b, rfl, ha⟩ := List.eq_append_cons_of_mem hmem
      rw [readUntil_buffered ha] at h
      split at h
      · cases h
      · obtain ⟨rfl, rfl⟩ := Prod.mk.inj (Option.some.inj h)
        exact ⟨by simp, .inl ⟨a, rfl, ha⟩⟩
    · rw [readUntil, if_neg hmem] at h
      split at h
      · cases h
      · obtain ⟨hall, hcase⟩ := ih h
        exact ⟨by rw [List.flatten_cons, ← List.append_assoc, hall], hcase⟩

end Until

/-! ### Of a given size -/

variable {n : ℕ} {r r' : Reader α} {data : List α}

/-- Read `n` items, or nothing if the stream ends before. -/
def readExactly (n : ℕ) : List α → List (List α) → Option (List α × Reader α)
  | buffer, segments =>
    if n ≤ buffer.length then some (buffer.take n, ⟨buffer.drop n, segments⟩)
    else match segments with
      | [] => none
      | segment :: segments => readExactly n (buffer ++ segment) segments

theorem readExactly_of_le {buffer : List α} {segments : List (List α)} (data rest : List α)
    (h : buffer ++ segments.flatten = data ++ rest) :
    ∃ r : Reader α, readExactly data.length buffer segments = some (data, r) ∧ r.remaining = rest := by
  induction segments generalizing buffer with
  | nil =>
    rw [List.flatten_nil, List.append_nil] at h
    rw [readExactly, h, if_pos (by rw [List.length_append]; omega), List.take_left, List.drop_left]
    exact ⟨_, rfl, by rw [remaining_mk, List.flatten_nil, List.append_nil]⟩
  | cons segment segments ih =>
    rw [readExactly]
    by_cases hle : data.length ≤ buffer.length
    · rw [if_pos hle]
      have htake : buffer.take data.length = data := by
        have := congrArg (List.take data.length) h
        rwa [List.take_append_of_le_length hle, List.take_left] at this
      have hdrop : Reader.remaining ⟨buffer.drop data.length, segment :: segments⟩ = rest := by
        have := congrArg (List.drop data.length) h
        rwa [List.drop_append_of_le_length hle, List.drop_left] at this
      exact ⟨_, by rw [htake], hdrop⟩
    · rw [if_neg hle]
      exact ih (by rw [List.append_assoc, ← List.flatten_cons, h])

theorem readExactly_some {buffer : List α} {segments : List (List α)}
    (h : readExactly n buffer segments = some (data, r)) :
    buffer ++ segments.flatten = data ++ r.remaining ∧ data.length = n := by
  induction segments generalizing buffer with
  | nil =>
    rw [readExactly] at h
    split at h
    · obtain ⟨rfl, rfl⟩ := Prod.mk.inj (Option.some.inj h)
      exact ⟨by simp, List.length_take_of_le ‹_›⟩
    · cases h
  | cons segment segments ih =>
    rw [readExactly] at h
    split at h
    · obtain ⟨rfl, rfl⟩ := Prod.mk.inj (Option.some.inj h)
      refine ⟨?_, List.length_take_of_le ‹_›⟩
      rw [remaining_mk, ← List.append_assoc, List.take_append_drop]
    · obtain ⟨hall, hlen⟩ := ih h
      exact ⟨by rw [List.flatten_cons, ← List.append_assoc, hall], hlen⟩

/-! ### What has arrived -/

/-- Read at most `n` items of what has arrived, waiting if that is nothing. -/
def read (n : ℕ) : List α → List (List α) → List α × Reader α
  | buffer, segments =>
    if buffer ≠ [] then (buffer.take n, ⟨buffer.drop n, segments⟩)
    else match segments with
      | [] => ([], ⟨[], []⟩)
      | segment :: segments => read n segment segments

theorem read_spec (n : ℕ) {buffer : List α} {segments : List (List α)} :
    buffer ++ segments.flatten = (read n buffer segments).1 ++ (read n buffer segments).2.remaining ∧
    (read n buffer segments).1.length ≤ n ∧
    (0 < n → (read n buffer segments).1 = [] → (read n buffer segments).2.remaining = []) := by
  have hfull : ∀ {buffer : List α} {segments : List (List α)}, buffer ≠ [] →
      buffer ++ segments.flatten = buffer.take n ++ (buffer.drop n ++ segments.flatten) ∧
      (buffer.take n).length ≤ n ∧ (0 < n → buffer.take n = [] → buffer.drop n ++ segments.flatten = []) := by
    intro buffer segments hne
    refine ⟨by rw [← List.append_assoc, List.take_append_drop], List.length_take_le n buffer, fun hn hnil => ?_⟩
    rcases List.take_eq_nil_iff.mp hnil with h | h
    · omega
    · exact absurd h hne
  induction segments generalizing buffer with
  | nil =>
    rw [read]
    split
    · exact hfull ‹_›
    · rename_i hnil
      rw [not_not] at hnil
      rw [hnil]
      exact ⟨rfl, Nat.zero_le n, fun _ _ => rfl⟩
  | cons segment segments ih =>
    rw [read]
    split
    · exact hfull ‹_›
    · rename_i hnil
      rw [not_not] at hnil
      rw [hnil, List.nil_append, List.flatten_cons]
      exact ih

end Stream
