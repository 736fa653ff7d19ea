import Mathlib

/-! Reading a list page by page.

    A server answers a cursor with a page of rows and, unless the list ends there, the cursor of the
    next page. A client that starts somewhere and follows the cursors reads `walk`. If every answer on
    its way is the next cut of what remains, the walk ends and has read exactly what remained at its
    start (`walk_complete`); it cannot read anything else (`walk_unique`).

    A server may instead answer a size and an offset. A client that asks for one stretch after another,
    until it has asked for `total` rows or has what it wants, has taken in a prefix of the list, and
    all of it unless it stopped for having what it wants (`sweep_take`). -/

namespace Paging

variable {α γ : Type*}

structure Page (α γ : Type*) where
  rows : List α
  more : Bool
  next : Option γ
  deriving DecidableEq

/-- What is read with at most `n` requests, if the list ends by then. -/
def walk (respond : Option γ → Option (Page α γ)) : ℕ → Option γ → Option (List α)
  | 0, _ => none
  | n + 1, cursor =>
    (respond cursor).bind fun page =>
      if page.more then page.next.bind fun next => (walk respond n (some next)).map (page.rows ++ ·)
      else some page.rows

/-- The cursors of the first `n` requests. -/
def visited (respond : Option γ → Option (Page α γ)) : ℕ → Option γ → List (Option γ)
  | 0, _ => []
  | n + 1, cursor =>
    cursor :: match respond cursor with
      | some page =>
        match page.more, page.next with
        | true, some next => visited respond n (some next)
        | _, _ => []
      | none => []

variable {respond : Option γ → Option (Page α γ)} {limit : ℕ}

theorem walk_unique : ∀ {n m : ℕ} {cursor : Option γ} {rows rows' : List α},
    walk respond n cursor = some rows → walk respond m cursor = some rows' → rows = rows'
  | 0, _, _, _, _, h, _ => by cases h
  | _ + 1, 0, _, _, _, _, h' => by cases h'
  | n + 1, m + 1, cursor, rows, rows', h, h' => by
    obtain ⟨page, hpage, h⟩ := Option.bind_eq_some_iff.mp h
    rw [walk, hpage, Option.bind_some] at h'
    split at h
    · rename_i hmore
      rw [if_pos hmore] at h'
      obtain ⟨next, hnext, h⟩ := Option.bind_eq_some_iff.mp h
      rw [hnext, Option.bind_some] at h'
      obtain ⟨rest, hrest, rfl⟩ := Option.map_eq_some_iff.mp h
      obtain ⟨rest', hrest', rfl⟩ := Option.map_eq_some_iff.mp h'
      rw [walk_unique hrest hrest']
    · rename_i hmore
      rw [if_neg hmore] at h'
      exact Option.some.inj (h.symm.trans h')

theorem visited_next {n : ℕ} {cursor : Option γ} {page : Page α γ} {next : γ}
    (hpage : respond cursor = some page) (hmore : page.more = true) (hnext : page.next = some next) :
    visited respond (n + 1) cursor = cursor :: visited respond n (some next) := by
  simp only [visited, hpage, hmore, hnext]

/-- The answer is the next cut of what remains, and its cursor stands for what remains after it. -/
def Cuts (respond : Option γ → Option (Page α γ)) (good : Option γ → Prop) (rest : Option γ → List α)
    (limit : ℕ) (cursor : Option γ) : Prop :=
  ∃ page, respond cursor = some page ∧ page.rows = (rest cursor).take limit ∧
    (page.more = true ↔ limit < (rest cursor).length) ∧
    (page.more = true → ∃ next, page.next = some next ∧ good (some next) ∧
      rest (some next) = (rest cursor).drop limit)

theorem walk_complete (good : Option γ → Prop) (rest : Option γ → List α) (hlimit : 0 < limit)
    {cursor : Option γ} (hgood : good cursor)
    (h : ∀ n, ∀ c ∈ visited respond n cursor, good c → Cuts respond good rest limit c) :
    ∃ n, walk respond n cursor = some (rest cursor) := by
  -- by strong induction on the number of rows that remain
  induction hlen : (rest cursor).length using Nat.strongRecOn generalizing cursor with
  | ind len ih =>
    obtain ⟨page, hpage, hrows, hmore, hnext⟩ := h 1 cursor List.mem_cons_self hgood
    by_cases hend : page.more = true
    · obtain ⟨next, hn, hg, hrest⟩ := hnext hend
      have hlt := hmore.mp hend
      obtain ⟨n, hwalk⟩ := ih (rest (some next)).length (by rw [hrest, List.length_drop]; omega) hg
        (fun n c hc => h (n + 1) c (by
          rw [visited_next hpage hend hn]
          exact List.mem_cons_of_mem _ hc)) rfl
      refine ⟨n + 1, ?_⟩
      rw [walk, hpage, Option.bind_some, if_pos hend, hn, Option.bind_some, hwalk, Option.map_some, hrest,
        hrows, List.take_append_drop]
    · refine ⟨1, ?_⟩
      rw [walk, hpage, Option.bind_some, if_neg hend, hrows, List.take_of_length_le]
      exact Nat.not_lt.mp (hend ∘ hmore.mpr)

/-! ### By size and offset -/

/-- At most `n` requests for stretches of `batch` rows, starting at `offset`. -/
def sweep {σ : Type*} (page : ℕ → ℕ → List α) (batch total : ℕ) (done : σ → Bool) (visit : σ → α → σ) :
    ℕ → ℕ → σ → σ
  | 0, _, s => s
  | n + 1, offset, s =>
    if offset < total ∧ done s = false then
      let size := min batch (total - offset)
      sweep page batch total done visit n (offset + size) ((page size offset).foldl visit s)
    else s

theorem sweep_take {σ : Type*} {page : ℕ → ℕ → List α} {batch : ℕ} {l : List α}
    (hpage : ∀ size offset, page size offset = (l.drop offset).take size) (hbatch : 0 < batch)
    (done : σ → Bool) (visit : σ → α → σ) : ∀ (n offset : ℕ) (s : σ), l.length ≤ offset + n →
      ∃ k, sweep page batch l.length done visit n offset s = ((l.drop offset).take k).foldl visit s ∧
        (done (sweep page batch l.length done visit n offset s) = true ∨ l.length ≤ offset + k)
  | 0, offset, s, hn => ⟨0, rfl, .inr hn⟩
  | n + 1, offset, s, hn => by
    rw [sweep]
    split
    · rename_i hgo
      set size := min batch (l.length - offset) with hsize
      obtain ⟨k, hk, hend⟩ := sweep_take hpage hbatch done visit n (offset + size)
        ((page size offset).foldl visit s) (by omega)
      refine ⟨size + k, ?_, hend.imp_right fun hend => by omega⟩
      rw [hk, hpage, ← List.foldl_append, List.take_add, List.drop_drop]
    · rename_i hstop
      refine ⟨0, rfl, ?_⟩
      rcases hdone : done s
      · exact .inr (Nat.not_lt.mp fun hlt => hstop ⟨hlt, hdone⟩)
      · exact .inl rfl

end Paging
