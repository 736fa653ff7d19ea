import OneMail.Unified.Merge

/-! The merge of sorted pages as the loop runs it (`shard_merge.ts`).

    A heap entry is a page number, an index into the page and the row there; the loop replaces the entry
    of the first heap position in place, or shrinks the heap by its last entry when the page is used up,
    and sifts down. The loop takes the rows that `mergeSortedEmailPages` takes (`runMerge_taken`), so its
    result is a cut of the stable merge of the pages: the rows by their order, level rows by their page
    and then by their position (`merge_stable`). -/

namespace OneMail.Unified
open Ordered

/-- A heap entry: a page, an index into it and the row at that index. -/
structure Cursor where
  page : ℕ
  index : ℕ
  row : ListRow
  deriving DecidableEq

/-- `compareEmailOrder(a.row, b.row) || a.page - b.page` -/
def compareCursors (a b : Cursor) : ℤ :=
  if compareEmailOrder a.row b.row ≠ 0 then compareEmailOrder a.row b.row else a.page - b.page

/-- The entries the heap is filled with, for the pages from page `i` on. -/
def cursorsFrom : ℕ → List (List ListRow) → List Cursor
  | _, [] => []
  | i, [] :: pages => cursorsFrom (i + 1) pages
  | i, (row :: _) :: pages => ⟨i, 0, row⟩ :: cursorsFrom (i + 1) pages

/-- The variables of one call; `size` is the length of the heap. -/
structure MergeRun where
  pages : List (List ListRow)
  heap : List Cursor
  taken : List ListRow
  deriving DecidableEq

/-- `pages[page][index]` -/
def rowAt (pages : List (List ListRow)) (page index : ℕ) : Option ListRow := (pages.getD page [])[index]?

/-- One pass of the loop. -/
def consume (skip consumed : ℕ) (run : MergeRun) : MergeRun :=
  match run.heap with
  | [] => run
  | head :: heads =>
    { run with
      taken := if skip ≤ consumed then run.taken ++ [head.row] else run.taken
      heap := match rowAt run.pages head.page (head.index + 1) with
        | some next => Heap.sift compareCursors (⟨head.page, head.index + 1, next⟩ :: heads) 0
        | none =>
          Heap.sift compareCursors
            ((head :: heads).set 0 ((head :: heads).getLast (List.cons_ne_nil _ _))).dropLast 0 }

/-- At most `n` passes, until the heap is empty. -/
def mergeLoop (skip : ℕ) : ℕ → ℕ → MergeRun → MergeRun
  | 0, _, run => run
  | n + 1, consumed, run =>
    if run.heap = [] then run else mergeLoop skip n (consumed + 1) (consume skip consumed run)

/-- A call of `mergeSortedEmailPages`; its answer is `taken`. -/
def runMerge (pages : List (List ListRow)) (outLimit skip : ℕ) : MergeRun :=
  if pages = [] ∨ outLimit = 0 then ⟨pages, [], []⟩
  else mergeLoop skip (skip + outLimit) 0
    ⟨pages, Heap.heapify compareCursors ((cursorsFrom 0 pages).length / 2) (cursorsFrom 0 pages), []⟩

/-! ### The pages are only read -/

theorem consume_pages (skip consumed : ℕ) (run : MergeRun) : (consume skip consumed run).pages = run.pages := by
  unfold consume
  split <;> rfl

theorem mergeLoop_pages (skip : ℕ) : ∀ (n consumed : ℕ) (run : MergeRun),
    (mergeLoop skip n consumed run).pages = run.pages
  | 0, _, _ => rfl
  | n + 1, consumed, run => by
    rw [mergeLoop]
    split
    · rfl
    · rw [mergeLoop_pages skip n, consume_pages]

/-! ### The entries and the heads they stand for -/

/-- The head an entry stands for, with the rows of its page that follow. -/
def Cursor.toHead (pages : List (List ListRow)) (cursor : Cursor) : Head :=
  ⟨cursor.page, cursor.row, (pages.getD cursor.page []).drop (cursor.index + 1)⟩

theorem compareCursors_toHead (pages : List (List ListRow)) (a b : Cursor) :
    compareCursors a b = compareHeads (a.toHead pages) (b.toHead pages) := rfl

theorem cursorsFrom_toHead (before : List (List ListRow)) : ∀ pages : List (List ListRow),
    (cursorsFrom before.length pages).map (Cursor.toHead (before ++ pages)) = headsFrom before.length pages
  | [] => rfl
  | page :: pages => by
    have hrest := cursorsFrom_toHead (before ++ [page]) pages
    rw [List.length_append, List.length_singleton, List.append_assoc, List.singleton_append] at hrest
    rcases page with _ | ⟨row, rest⟩
    · exact hrest
    · rw [cursorsFrom, headsFrom, List.map_cons, hrest]
      simp [Cursor.toHead]

/-- Replacing or dropping the first entry is advancing the first head. -/
theorem consume_heap {skip consumed : ℕ} {run : MergeRun} {head : Cursor} {heads : List Cursor}
    (hheap : run.heap = head :: heads) :
    (consume skip consumed run).heap.map (Cursor.toHead run.pages) =
      advance ((head :: heads).map (Cursor.toHead run.pages)) := by
  have hcmp := compareCursors_toHead run.pages
  have hrest : (head.toHead run.pages).rest = (run.pages.getD head.page []).drop (head.index + 1) := rfl
  simp only [consume, hheap, rowAt, List.map_cons, advance]
  rcases hnext : (run.pages.getD head.page [])[head.index + 1]? with _ | next
  · have hdone : (head.toHead run.pages).rest = [] := by
      rw [hrest, List.drop_eq_nil_iff, ← List.getElem?_eq_none_iff]
      exact hnext
    rw [hdone]
    simp only [Heap.sift_map hcmp, ← List.map_cons, List.map_dropLast, List.map_set, List.getLast_map]
  · obtain ⟨hlt, hget⟩ := List.getElem?_eq_some_iff.mp hnext
    have hmore : (head.toHead run.pages).rest = next :: (run.pages.getD head.page []).drop (head.index + 2) := by
      rw [hrest, List.drop_eq_getElem_cons hlt, hget]
    rw [hmore]
    simp only [Heap.sift_map hcmp, List.map_cons]
    rfl

theorem consume_taken {skip consumed : ℕ} {run : MergeRun} {head : Cursor} {heads : List Cursor}
    (hheap : run.heap = head :: heads) :
    (consume skip consumed run).taken = if skip ≤ consumed then run.taken ++ [head.row] else run.taken := by
  simp only [consume, hheap]

/-- What the loop takes from an entry on is what `takeRows` takes from its heads. -/
theorem mergeLoop_taken (skip : ℕ) : ∀ (n consumed : ℕ) (run : MergeRun),
    (mergeLoop skip n consumed run).taken =
      run.taken ++ takeRows n (skip - consumed) (run.heap.map (Cursor.toHead run.pages))
  | 0, _, _ => by rw [mergeLoop, takeRows, List.append_nil]
  | n + 1, consumed, run => by
    rw [mergeLoop]
    rcases hheap : run.heap with _ | ⟨head, heads⟩
    · rw [if_pos rfl, List.map_nil, takeRows.eq_2 _ _ (Nat.succ_ne_zero n), List.append_nil]
    rw [if_neg (List.cons_ne_nil _ _), mergeLoop_taken skip n, consume_pages, consume_heap hheap,
      consume_taken hheap, List.map_cons]
    by_cases hskip : skip ≤ consumed
    · rw [if_pos hskip, Nat.sub_eq_zero_of_le hskip, Nat.sub_eq_zero_of_le (by omega), takeRows,
        List.append_assoc]
      rfl
    · rw [if_neg hskip, show skip - consumed = skip - (consumed + 1) + 1 by omega, takeRows]

/-- The loop and the recursion over heads give the same rows. -/
theorem runMerge_taken (pages : List (List ListRow)) (outLimit skip : ℕ) :
    (runMerge pages outLimit skip).taken = mergeSortedEmailPages pages outLimit skip := by
  have hheads : (cursorsFrom 0 pages).map (Cursor.toHead pages) = headsFrom 0 pages :=
    cursorsFrom_toHead [] pages
  unfold runMerge mergeSortedEmailPages
  split
  · rfl
  · rw [mergeLoop_taken, Nat.sub_zero, Heap.heapify_map (compareCursors_toHead pages), hheads,
      ← hheads, List.length_map, hheads]
    rfl

/-! ### The stable merge -/

/-- The places of the pages from page `i` on, page by page and row by row. -/
def placesFrom : ℕ → List (List ListRow) → List Cursor
  | _, [] => []
  | i, page :: pages => (page.mapIdx fun index row => ⟨i, index, row⟩) ++ placesFrom (i + 1) pages

/-- Every row of the pages with its page and its position. -/
def places (pages : List (List ListRow)) : List Cursor := placesFrom 0 pages

/-- `a` stands before `b`: its row comes first, or the rows are level and its page comes first, or it is
    the earlier row of one page. -/
def Cursor.Before (a b : Cursor) : Prop :=
  compareEmailOrder a.row b.row < 0 ∨
    compareEmailOrder a.row b.row = 0 ∧ (a.page < b.page ∨ a.page = b.page ∧ a.index < b.index)

def Cursor.tag (place : Cursor) : Lex (ℕ × ℕ) := toLex (place.page, place.index)

/-- The places in the order of the stable merge. -/
def mergeOrder (pages : List (List ListRow)) : List Cursor :=
  sortBy (fun place : Cursor => toLex (rowKey place.row, place.tag)) (places pages)

theorem before_iff {a b : Cursor} :
    a.Before b ↔ toLex (rowKey a.row, a.tag) < toLex (rowKey b.row, b.tag) := by
  rw [Prod.Lex.toLex_lt_toLex, Cursor.tag, Cursor.tag, Prod.Lex.toLex_lt_toLex, ← compareEmailOrder_lt,
    ← compareEmailOrder_eq]
  rfl

theorem placesFrom_row : ∀ (i : ℕ) (pages : List (List ListRow)),
    (placesFrom i pages).map Cursor.row = pages.flatten
  | _, [] => rfl
  | i, page :: pages => by
    have hpage : (page.mapIdx fun index row => (⟨i, index, row⟩ : Cursor)).map Cursor.row = page :=
      List.ext_getElem (by simp) fun index _ _ => by simp
    rw [placesFrom, List.map_append, placesFrom_row (i + 1) pages, List.flatten_cons, hpage]

theorem placesFrom_page {place : Cursor} : ∀ {i : ℕ} {pages : List (List ListRow)},
    place ∈ placesFrom i pages → i ≤ place.page
  | _, [], h => absurd h List.not_mem_nil
  | i, page :: pages, h => by
    rcases List.mem_append.mp h with h | h
    · obtain ⟨index, hlt, rfl⟩ := List.mem_mapIdx.mp h
      exact le_rfl
    · have := placesFrom_page h
      omega

theorem placesFrom_ascending : ∀ (i : ℕ) (pages : List (List ListRow)),
    Ascending Cursor.tag (placesFrom i pages)
  | _, [] => List.Pairwise.nil
  | i, page :: pages => by
    refine List.pairwise_append.mpr ⟨?_, placesFrom_ascending (i + 1) pages, fun a ha b hb => ?_⟩
    · rw [List.pairwise_iff_getElem]
      intro j k hj hk hjk
      simp only [List.getElem_mapIdx, Cursor.tag, Prod.Lex.toLex_lt_toLex, lt_self_iff_false, true_and,
        false_or]
      exact hjk
    · obtain ⟨index, hlt, rfl⟩ := List.mem_mapIdx.mp ha
      exact Prod.Lex.toLex_lt_toLex.mpr (.inl (placesFrom_page hb))

/-- The stable merge is the stable sort of the pages one after another. -/
theorem mergeOrder_row (pages : List (List ListRow)) :
    (mergeOrder pages).map Cursor.row = sortBy rowKey pages.flatten := by
  rw [mergeOrder, places, ← placesFrom_row 0 pages]
  exact sortBy_tagged (placesFrom_ascending 0 pages)

theorem mergeOrder_before (pages : List (List ListRow)) : (mergeOrder pages).Pairwise Cursor.Before := by
  have hnodup : ((places pages).map fun place : Cursor => toLex (rowKey place.row, place.tag)).Nodup := by
    refine List.pairwise_map.mpr ((placesFrom_ascending 0 pages).imp fun hlt heq => ?_)
    exact hlt.ne (congrArg Prod.snd (toLex_inj.mp heq))
  exact (sortBy_ascending hnodup).imp before_iff.mpr

theorem sorted_of_compare {page : List ListRow} (h : page.Pairwise fun a b => compareEmailOrder a b ≤ 0) :
    Sorted page := by
  refine h.imp fun {a b} hle => ?_
  rcases lt_or_eq_of_le hle with hlt | heq
  · exact (compareEmailOrder_lt.mp hlt).le
  · exact (compareEmailOrder_eq.mp heq).le

/-- Of sorted pages a call answers the rows of the stable merge from `skip` on, at most `outLimit` of
    them. The merge holds every place of the pages once, in the order of the rows, then of the pages,
    then of the positions; it is the stable sort of the pages one after another. The pages stay. -/
theorem merge_stable {pages : List (List ListRow)}
    (hsorted : ∀ page ∈ pages, page.Pairwise fun a b => compareEmailOrder a b ≤ 0) (outLimit skip : ℕ) :
    (runMerge pages outLimit skip).taken =
        (((mergeOrder pages).map Cursor.row).drop skip).take outLimit ∧
      (mergeOrder pages).Perm (places pages) ∧ (mergeOrder pages).Pairwise Cursor.Before ∧
      (mergeOrder pages).map Cursor.row = sortBy rowKey pages.flatten ∧
      (runMerge pages outLimit skip).pages = pages := by
  refine ⟨?_, sortBy_perm, mergeOrder_before pages, mergeOrder_row pages, ?_⟩
  · rw [runMerge_taken, merge_eq (fun page hp => sorted_of_compare (hsorted page hp)), mergeOrder_row]
  · unfold runMerge
    split
    · rfl
    · exact mergeLoop_pages _ _ _ _

/-- A row of account `account` with the given id and date, its other fields empty. -/
def sampleRow (account id : String) (date : ℤ) : ListRow :=
  ⟨js id, none, some (js account), none, none, none, date, none, 0, none⟩

/-- Two pages with a level row each and an empty one between them. -/
def levelPages : List (List ListRow) :=
  [[sampleRow "x" "b" 5, sampleRow "x" "a" 3], [], [sampleRow "y" "b" 5, sampleRow "y" "c" 4]]

theorem merge_stable_level : (runMerge levelPages 2 1).taken = [sampleRow "y" "b" 5, sampleRow "y" "c" 4] := by
  have hsorted : ∀ page ∈ levelPages, page.Pairwise fun a b => compareEmailOrder a b ≤ 0 := by decide
  rw [(merge_stable hsorted 2 1).1]
  decide

end OneMail.Unified
