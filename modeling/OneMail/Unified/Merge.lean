import Mathlib
import OneMail.Lib.Heap
import OneMail.Lib.Ordered
import OneMail.Unified.Filter

/-! The list rows and their order, and the merge of sorted pages (`shard_merge.ts`).

    `compareEmailOrder` puts the later row first, and of two rows of one date the one with the larger
    id. `mergeSortedEmailPages` keeps the first remaining row of each page in a binary heap; rows that
    compare equal leave it in the order of their pages. The result is a cut of the stable sort of all
    pages (`merge_eq`). -/

namespace OneMail.Unified
open JsString Ordered

/-- A row of a list response. -/
structure ListRow where
  id : JsString
  source : Option JsString
  accountId : Option JsString
  fromAddr : Option JsString
  toAddr : Option JsString
  subject : Option JsString
  /-- The effective date, `COALESCE(internal_date, received_at)`. -/
  receivedAt : ℤ
  internalDate : Option ℤ
  isRead : ℤ
  isStarred : Option ℤ
  deriving DecidableEq

def compareEmailOrder (a b : ListRow) : ℤ :=
  if a.receivedAt ≠ b.receivedAt then b.receivedAt - a.receivedAt
  else if a.id = b.id then 0
  else if a.id < b.id then 1 else -1

/-- The rows ascend in this key. -/
def rowKey (row : ListRow) : Lex (ℤᵒᵈ × JsStringᵒᵈ) :=
  toLex (OrderDual.toDual row.receivedAt, OrderDual.toDual row.id)

/-- The place of a page in the heap: its number, its first remaining row and the rows after it. -/
structure Head where
  page : ℕ
  row : ListRow
  rest : List ListRow

/-- `compareEmailOrder(a.row, b.row) || a.page - b.page` -/
def compareHeads (a b : Head) : ℤ :=
  if compareEmailOrder a.row b.row ≠ 0 then compareEmailOrder a.row b.row else a.page - b.page

/-- The heads of the pages from page `i` on. -/
def headsFrom : ℕ → List (List ListRow) → List Head
  | _, [] => []
  | i, [] :: pages => headsFrom (i + 1) pages
  | i, (row :: rest) :: pages => ⟨i, row, rest⟩ :: headsFrom (i + 1) pages

/-- Put the next row of its page in the place of the first head, or the last head when the page is
    used up, and sift it down. -/
def advance : List Head → List Head
  | [] => []
  | head :: heads =>
    match head.rest with
    | next :: rest => Heap.sift compareHeads (⟨head.page, next, rest⟩ :: heads) 0
    | [] =>
      Heap.sift compareHeads ((head :: heads).set 0 ((head :: heads).getLast (List.cons_ne_nil _ _))).dropLast 0

/-- Take `n` rows from the heap, of which the first `skip` are not kept. -/
def takeRows : ℕ → ℕ → List Head → List ListRow
  | 0, _, _ => []
  | _, _, [] => []
  | n + 1, 0, head :: heads => head.row :: takeRows n 0 (advance (head :: heads))
  | n + 1, skip + 1, head :: heads => takeRows n skip (advance (head :: heads))

def mergeSortedEmailPages (pages : List (List ListRow)) (outLimit skip : ℕ) : List ListRow :=
  if pages = [] ∨ outLimit = 0 then []
  else takeRows (skip + outLimit) skip
    (Heap.heapify compareHeads ((headsFrom 0 pages).length / 2) (headsFrom 0 pages))

/-! ### The order -/

theorem rowKey_lt {a b : ListRow} : rowKey a < rowKey b ↔
    b.receivedAt < a.receivedAt ∨ a.receivedAt = b.receivedAt ∧ b.id < a.id := by
  simp only [rowKey, Prod.Lex.toLex_lt_toLex, OrderDual.toDual_lt_toDual, OrderDual.toDual_inj]

theorem compareEmailOrder_lt {a b : ListRow} : compareEmailOrder a b < 0 ↔ rowKey a < rowKey b := by
  rw [rowKey_lt, compareEmailOrder]
  split
  · omega
  · rename_i hdate
    rw [not_not] at hdate
    split
    · rename_i hid
      simp [hdate, hid]
    · rename_i hid
      split
      · rename_i hlt
        simp [hdate, hlt.le]
      · rename_i hge
        have hlt : b.id < a.id := lt_of_le_of_ne (not_lt.mp hge) (Ne.symm hid)
        simp [hdate, hlt]

theorem compareEmailOrder_neg (a b : ListRow) : compareEmailOrder b a = -compareEmailOrder a b := by
  unfold compareEmailOrder
  rcases lt_trichotomy a.id b.id with hlt | heq | hgt
  · simp only [hlt, hlt.ne, hlt.ne', hlt.not_gt, if_true, if_false]
    split_ifs <;> omega
  · simp only [heq, if_true]
    split_ifs <;> omega
  · simp only [hgt, hgt.ne, hgt.ne', hgt.not_gt, if_true, if_false]
    split_ifs <;> omega

theorem compareEmailOrder_eq {a b : ListRow} : compareEmailOrder a b = 0 ↔ rowKey a = rowKey b := by
  have hlt := compareEmailOrder_lt (a := a) (b := b)
  have hgt := compareEmailOrder_lt (a := b) (b := a)
  rw [compareEmailOrder_neg] at hgt
  rcases lt_trichotomy (rowKey a) (rowKey b) with h | h | h
  · have := hlt.mpr h
    simp only [h.ne, iff_false]
    omega
  · have h₁ := hlt.not.mpr h.not_lt
    have h₂ := hgt.not.mpr h.not_gt
    simp only [h, iff_true]
    omega
  · have := hgt.mpr h
    simp only [h.ne', iff_false]
    omega

/-- The heads ascend by their rows, and by their pages on level rows. -/
def headKey (head : Head) : Lex (Lex (ℤᵒᵈ × JsStringᵒᵈ) × ℕ) := toLex (rowKey head.row, head.page)

theorem headKey_le {a b : Head} : headKey a ≤ headKey b ↔
    rowKey a.row < rowKey b.row ∨ rowKey a.row = rowKey b.row ∧ a.page ≤ b.page :=
  Prod.Lex.toLex_le_toLex

theorem compares_headKey : Heap.Compares compareHeads headKey := by
  have hkey (a b : Head) : (compareHeads a b < 0 ↔ headKey a < headKey b) ∧
      (compareHeads a b ≤ 0 ↔ headKey a ≤ headKey b) := by
    simp only [headKey, Prod.Lex.toLex_lt_toLex, Prod.Lex.toLex_le_toLex]
    rw [← compareEmailOrder_lt, ← compareEmailOrder_eq, compareHeads]
    split <;> constructor <;> omega
  exact ⟨fun a b => (hkey a b).1, fun a b => (hkey a b).2⟩

/-! ### One row leaves the heap -/

/-- The page is in order, level rows allowed. -/
def Sorted (page : List ListRow) : Prop := page.Pairwise fun a b => rowKey a ≤ rowKey b

theorem mem_headsFrom {head : Head} : ∀ {i : ℕ} {pages : List (List ListRow)}, head ∈ headsFrom i pages →
    ∃ before after, pages = before ++ (head.row :: head.rest) :: after ∧ head.page = i + before.length
  | _, [], h => absurd h List.not_mem_nil
  | i, [] :: pages, h => by
    have h : head ∈ headsFrom (i + 1) pages := h
    obtain ⟨before, after, rfl, hpage⟩ := mem_headsFrom h
    exact ⟨[] :: before, after, rfl, by rw [hpage, List.length_cons]; omega⟩
  | i, (row :: rest) :: pages, h => by
    rcases List.mem_cons.mp h with rfl | h
    · exact ⟨[], pages, rfl, rfl⟩
    · obtain ⟨before, after, rfl, hpage⟩ := mem_headsFrom h
      exact ⟨(row :: rest) :: before, after, rfl, by rw [hpage, List.length_cons]; omega⟩

theorem headsFrom_append (before after : List (List ListRow)) : ∀ i,
    headsFrom i (before ++ after) = headsFrom i before ++ headsFrom (i + before.length) after := by
  induction before with
  | nil => exact fun i => rfl
  | cons page before ih =>
    intro i
    rw [List.length_cons, show i + (before.length + 1) = i + 1 + before.length by omega]
    rcases page with _ | ⟨row, rest⟩
    · exact ih (i + 1)
    · exact congrArg (_ :: ·) (ih (i + 1))

/-- Every row of the pages is at or after the head of its page. -/
theorem head_le_row {i : ℕ} {row : ListRow} : ∀ {pages : List (List ListRow)}, (∀ page ∈ pages, Sorted page) →
    row ∈ pages.flatten → ∃ head ∈ headsFrom i pages, rowKey head.row ≤ rowKey row
  | [], _, h => absurd h List.not_mem_nil
  | page :: pages, hsorted, h => by
    rw [List.flatten_cons, List.mem_append] at h
    rcases h with h | h
    · rcases page with _ | ⟨first, rest⟩
      · exact absurd h List.not_mem_nil
      · refine ⟨⟨i, first, rest⟩, List.mem_cons_self, ?_⟩
        rcases List.mem_cons.mp h with rfl | h
        · exact le_rfl
        · exact (List.pairwise_cons.mp (hsorted _ List.mem_cons_self)).1 _ h
    · obtain ⟨head, hmem, hle⟩ := head_le_row (i := i + 1)
        (fun page hp => hsorted page (List.mem_cons_of_mem _ hp)) h
      refine ⟨head, ?_, hle⟩
      rcases page with _ | ⟨first, rest⟩
      · exact hmem
      · exact List.mem_cons_of_mem _ hmem

/-- The heap holds the heads of the remaining pages, in heap order. -/
structure Merging (pages : List (List ListRow)) (heap : List Head) : Prop where
  sorted : ∀ page ∈ pages, Sorted page
  heads : heap.Perm (headsFrom 0 pages)
  ordered : Heap.OrderedFrom headKey 0 heap

variable {pages before after : List (List ListRow)} {head : Head} {heads heap : List Head}

theorem advance_perm : (advance (head :: heads)).Perm
    ((headsFrom head.page [head.rest]) ++ heads) := by
  rcases head with ⟨page, row, _ | ⟨next, rest⟩⟩
  · refine Heap.sift_perm.trans ?_
    rcases heads.eq_nil_or_concat with rfl | ⟨init, last, rfl⟩
    · exact List.Perm.refl _
    · simp only [List.concat_eq_append, List.set_cons_zero, List.getLast_cons (List.concat_ne_nil last init),
        List.getLast_append_singleton]
      rw [← List.cons_append, List.dropLast_concat]
      exact (List.perm_append_singleton last init).symm
  · exact Heap.sift_perm

theorem advance_ordered (h : Heap.OrderedFrom headKey 0 (head :: heads)) :
    Heap.OrderedFrom headKey 0 (advance (head :: heads)) := by
  rcases head with ⟨page, row, _ | ⟨next, rest⟩⟩
  · exact Heap.sift_ordered compares_headKey (h.set_root _).dropLast
  · exact Heap.sift_ordered compares_headKey (h.set_root _)

/-- The first head of the heap is the first row of the stable sort, and what follows it is the stable
    sort of what remains. -/
theorem Merging.advance (h : Merging pages (head :: heads)) : ∃ pages',
    sortBy rowKey pages.flatten = head.row :: sortBy rowKey pages'.flatten ∧
      Merging pages' (advance (head :: heads)) := by
  obtain ⟨before, after, rfl, hpage⟩ := mem_headsFrom (h.heads.subset List.mem_cons_self)
  rw [Nat.zero_add] at hpage
  have hfirst : ∀ other ∈ headsFrom 0 (before ++ (head.row :: head.rest) :: after),
      headKey head ≤ headKey other := by
    intro other hother
    obtain ⟨i, hi, rfl⟩ := List.mem_iff_getElem.mp (h.heads.mem_iff.mpr hother)
    exact h.ordered.root_le (by simp) hi
  rw [headsFrom_append, Nat.zero_add, ← hpage] at hfirst
  have hhead : (⟨head.page, head.row, head.rest⟩ : Head) = head := rfl
  refine ⟨before ++ head.rest :: after, ?_, ?_, ?_, advance_ordered h.ordered⟩
  · rw [List.flatten_append, List.flatten_append, List.flatten_cons, List.flatten_cons, List.cons_append]
    refine sortBy_first (fun row hrow => ?_) fun row hrow => ?_
    · -- a level row of an earlier page would have come first
      obtain ⟨other, hother, hle⟩ := head_le_row (i := 0)
        (fun page hp => h.sorted page (List.mem_append_left _ hp)) hrow
      obtain ⟨before', after', hsplit, hopage⟩ := mem_headsFrom hother
      have hlt : other.page < head.page := by
        rw [hpage, hsplit, hopage, List.length_append, List.length_cons]
        omega
      rcases headKey_le.mp (hfirst other (List.mem_append_left _ hother)) with hkey | ⟨-, hkey⟩
      · exact hkey.trans_le hle
      · omega
    · rcases List.mem_append.mp hrow with hrow | hrow
      · have hpageSorted := h.sorted _ (List.mem_append_right _ List.mem_cons_self)
        exact (List.pairwise_cons.mp hpageSorted).1 row hrow
      · obtain ⟨other, hother, hle⟩ := head_le_row (i := head.page + 1)
          (fun page hp => h.sorted page (List.mem_append_right _ (List.mem_cons_of_mem _ hp))) hrow
        refine le_trans ?_ hle
        rcases headKey_le.mp (hfirst other (List.mem_append_right _ (List.mem_cons_of_mem _ hother))) with
          hkey | ⟨hkey, -⟩
        · exact hkey.le
        · exact hkey.le
  · intro page hp
    rcases List.mem_append.mp hp with hp | hp
    · exact h.sorted page (List.mem_append_left _ hp)
    · rcases List.mem_cons.mp hp with rfl | hp
      · exact (List.pairwise_cons.mp (h.sorted _ (List.mem_append_right _ List.mem_cons_self))).2
      · exact h.sorted page (List.mem_append_right _ (List.mem_cons_of_mem _ hp))
  · have hheads := h.heads
    rw [headsFrom_append, Nat.zero_add, ← hpage, headsFrom, hhead] at hheads
    have hrest : heads.Perm (headsFrom 0 before ++ headsFrom (head.page + 1) after) :=
      (hheads.trans List.perm_middle).cons_inv
    rw [headsFrom_append, Nat.zero_add, ← hpage,
      show head.rest :: after = [head.rest] ++ after from rfl, headsFrom_append]
    refine advance_perm.trans ((hrest.append_left _).trans ?_)
    exact List.perm_append_comm_assoc _ _ _

theorem Merging.done (h : Merging pages []) : pages.flatten = [] := by
  refine List.eq_nil_iff_forall_not_mem.mpr fun row hrow => ?_
  obtain ⟨head, hhead, -⟩ := head_le_row (i := 0) h.sorted hrow
  exact absurd (h.heads.mem_iff.mpr hhead) List.not_mem_nil

theorem takeRows_eq : ∀ (n skip : ℕ) (pages : List (List ListRow)) (heap : List Head),
    Merging pages heap → takeRows n skip heap = ((sortBy rowKey pages.flatten).drop skip).take (n - skip)
  | 0, skip, _, _, _ => by rw [takeRows, Nat.zero_sub, List.take_zero]
  | n + 1, skip, pages, [], h => by
    rw [takeRows, h.done]
    simp [sortBy]
    omega
  | n + 1, 0, pages, head :: heads, h => by
    obtain ⟨pages', hsort, h'⟩ := h.advance
    rw [takeRows, takeRows_eq n 0 pages' _ h', hsort]
    rfl
  | n + 1, skip + 1, pages, head :: heads, h => by
    obtain ⟨pages', hsort, h'⟩ := h.advance
    rw [takeRows, takeRows_eq n skip pages' _ h', hsort, List.drop_succ_cons, Nat.add_sub_add_right]

/-- The merge of sorted pages is a cut of the stable sort of all their rows. -/
theorem merge_eq (hsorted : ∀ page ∈ pages, Sorted page) (outLimit skip : ℕ) :
    mergeSortedEmailPages pages outLimit skip =
      ((sortBy rowKey pages.flatten).drop skip).take outLimit := by
  unfold mergeSortedEmailPages
  split
  · rename_i hnone
    rcases hnone with rfl | rfl
    · simp [sortBy]
    · rw [List.take_zero]
  · have hheap : Merging pages
        (Heap.heapify compareHeads ((headsFrom 0 pages).length / 2) (headsFrom 0 pages)) :=
      ⟨hsorted, Heap.heapify_perm _ _,
        Heap.heapify_ordered compares_headKey _ _ Heap.orderedFrom_half⟩
    rw [takeRows_eq _ _ _ _ hheap, Nat.add_sub_cancel_left]

end OneMail.Unified
