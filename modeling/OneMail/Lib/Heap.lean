import Mathlib

/-! Binary min-heaps in a list.

    The children of position `p` are `2p + 1` and `2p + 2`. `siftDown` carries an entry from a hole down
    to where it belongs, moving the smaller child up into the hole on its way; `heapify` sifts every
    inner position from the last one up. The heap is ordered from position `s` when every edge whose
    upper end is at least `s` is in order, so sifting position `n` extends an order from `n + 1` to one
    from `n`. -/

namespace Heap

variable {α κ : Type*} [LinearOrder κ]

/-- `cmp` compares as the keys do. -/
structure Compares (cmp : α → α → ℤ) (key : α → κ) : Prop where
  lt : ∀ a b, cmp a b < 0 ↔ key a < key b
  le : ∀ a b, cmp a b ≤ 0 ↔ key a ≤ key b

/-- The smaller child of `p`, the left one when they are level. -/
def smallerChild (cmp : α → α → ℤ) (heap : List α) (p : ℕ) (h : 2 * p + 1 < heap.length) :
    Fin heap.length :=
  if h' : 2 * p + 2 < heap.length then
    if cmp heap[2 * p + 2] heap[2 * p + 1] < 0 then ⟨2 * p + 2, h'⟩ else ⟨2 * p + 1, h⟩
  else ⟨2 * p + 1, h⟩

/-- Position `c` is a child of position `p`. -/
def Edge (p c : ℕ) : Prop := c = 2 * p + 1 ∨ c = 2 * p + 2

theorem smallerChild_edge (cmp : α → α → ℤ) (heap : List α) (p : ℕ) (h : 2 * p + 1 < heap.length) :
    Edge p (smallerChild cmp heap p h) := by
  unfold smallerChild
  split
  · split
    · exact .inr rfl
    · exact .inl rfl
  · exact .inl rfl

/-- Carry `x` from the hole at `p` down to where it belongs. -/
def siftDown (cmp : α → α → ℤ) (x : α) (heap : List α) (p : ℕ) : List α :=
  if h : 2 * p + 1 < heap.length then
    if cmp x heap[smallerChild cmp heap p h] ≤ 0 then heap.set p x
    else siftDown cmp x (heap.set p heap[smallerChild cmp heap p h]) (smallerChild cmp heap p h)
  else heap.set p x
termination_by heap.length - p
decreasing_by
  have := smallerChild_edge cmp heap p h
  unfold Edge at this
  rw [List.length_set]
  omega

/-- Sift the entry at position `n`. -/
def sift (cmp : α → α → ℤ) (heap : List α) (n : ℕ) : List α :=
  if h : n < heap.length then siftDown cmp heap[n] heap n else heap

/-- Sift the positions below `n`, the last one first. -/
def heapify (cmp : α → α → ℤ) : ℕ → List α → List α
  | 0, heap => heap
  | n + 1, heap => heapify cmp n (sift cmp heap n)

variable {cmp : α → α → ℤ} {key : α → κ} {heap : List α} {x : α} {p s n : ℕ}

/-! ### Entries are kept -/

theorem siftDown_perm (hp : p < heap.length) : (siftDown cmp x heap p).Perm (heap.set p x) := by
  induction heap, p using siftDown.induct cmp x with
  | case1 heap p h hle => rw [siftDown, dif_pos h, if_pos hle]
  | case2 heap p h hle ih =>
    rw [siftDown, dif_pos h, if_neg hle]
    refine (ih (by rw [List.length_set]; exact (smallerChild cmp heap p h).2)).trans ?_
    have hc := (smallerChild cmp heap p h).2
    have hne : p ≠ smallerChild cmp heap p h := by
      have := smallerChild_edge cmp heap p h
      unfold Edge at this
      omega
    -- the hole and the child trade places in the list with `x` in the hole
    have hswap := List.set_set_perm (show p < (heap.set p x).length by rw [List.length_set]; exact hp)
      (show smallerChild cmp heap p h < (heap.set p x).length by rw [List.length_set]; exact hc)
    rw [List.getElem_set_self, List.getElem_set_ne hne, List.set_set] at hswap
    exact hswap
  | case3 heap p h => rw [siftDown, dif_neg h]

theorem sift_perm : (sift cmp heap n).Perm heap := by
  unfold sift
  split
  · rename_i h
    refine (siftDown_perm h).trans ?_
    rw [List.set_getElem_self]
  · exact List.Perm.refl _

theorem heapify_perm : ∀ (n : ℕ) (heap : List α), (heapify cmp n heap).Perm heap
  | 0, _ => List.Perm.refl _
  | n + 1, heap => (heapify_perm n (sift cmp heap n)).trans sift_perm

/-! ### Another type of entries -/

section Map

variable {β : Type*} {f : α → β} {cmp' : β → β → ℤ} (hf : ∀ a b, cmp a b = cmp' (f a) (f b))
include hf

theorem smallerChild_map (h : 2 * p + 1 < heap.length) (h' : 2 * p + 1 < (heap.map f).length) :
    (smallerChild cmp' (heap.map f) p h' : ℕ) = smallerChild cmp heap p h := by
  unfold smallerChild
  simp only [List.length_map, List.getElem_map, ← hf]
  split
  · split <;> rfl
  · rfl

theorem getElem_smallerChild_map (h : 2 * p + 1 < heap.length) (h' : 2 * p + 1 < (heap.map f).length) :
    (heap.map f)[smallerChild cmp' (heap.map f) p h'] = f heap[smallerChild cmp heap p h] := by
  simp only [Fin.getElem_fin, List.getElem_map, smallerChild_map hf h h']

theorem siftDown_map : (siftDown cmp x heap p).map f = siftDown cmp' (f x) (heap.map f) p := by
  induction heap, p using siftDown.induct cmp x with
  | case1 heap p h hle =>
    have h' : 2 * p + 1 < (heap.map f).length := by rwa [List.length_map]
    rw [siftDown, dif_pos h, if_pos hle, siftDown, dif_pos h', if_pos, List.map_set]
    rwa [getElem_smallerChild_map hf h h', ← hf]
  | case2 heap p h hle ih =>
    have h' : 2 * p + 1 < (heap.map f).length := by rwa [List.length_map]
    rw [siftDown, dif_pos h, if_neg hle, ih, siftDown.eq_1 cmp' (f x) (heap.map f), dif_pos h', if_neg]
    · rw [getElem_smallerChild_map hf h h', smallerChild_map hf h h', List.map_set]
    · rwa [getElem_smallerChild_map hf h h', ← hf]
  | case3 heap p h =>
    have h' : ¬2 * p + 1 < (heap.map f).length := by rwa [List.length_map]
    rw [siftDown, dif_neg h, siftDown, dif_neg h', List.map_set]

/-- Sifting asks for nothing but comparisons. -/
theorem sift_map : (sift cmp heap n).map f = sift cmp' (heap.map f) n := by
  unfold sift
  simp only [List.length_map, List.getElem_map]
  split
  · exact siftDown_map hf
  · rfl

theorem heapify_map : ∀ (n : ℕ) (heap : List α),
    (heapify cmp n heap).map f = heapify cmp' n (heap.map f)
  | 0, _ => rfl
  | n + 1, heap => by rw [heapify, heapify_map n, sift_map hf, heapify]

end Map

/-! ### Order -/

/-- Every edge whose upper end is at least `s` is in order. -/
def OrderedFrom (key : α → κ) (s : ℕ) (heap : List α) : Prop :=
  ∀ p c (hp : p < heap.length) (hc : c < heap.length), s ≤ p → Edge p c → key heap[p] ≤ key heap[c]

/-- The edges off the hole are in order; what lies above the hole is in order with the entry to be
    placed and with the children of the hole. -/
structure Hole (key : α → κ) (s : ℕ) (heap : List α) (x : α) (p : ℕ) : Prop where
  off : ∀ q c (hq : q < heap.length) (hc : c < heap.length), s ≤ q → Edge q c → q ≠ p → c ≠ p →
    key heap[q] ≤ key heap[c]
  above : ∀ q (hq : q < heap.length), s ≤ q → Edge q p → key heap[q] ≤ key x
  across : ∀ q c (hq : q < heap.length) (hc : c < heap.length), s ≤ q → Edge q p → Edge p c →
    key heap[q] ≤ key heap[c]

theorem smallerChild_le (hcmp : Compares cmp key) (h : 2 * p + 1 < heap.length) {c : ℕ}
    (hc : c < heap.length) (hedge : Edge p c) : key heap[smallerChild cmp heap p h] ≤ key heap[c] := by
  unfold smallerChild
  split
  · rename_i hr
    split
    · rename_i hlt
      rw [hcmp.lt] at hlt
      rcases hedge with rfl | rfl
      · exact hlt.le
      · exact le_rfl
    · rename_i hge
      rw [hcmp.lt, not_lt] at hge
      rcases hedge with rfl | rfl
      · exact le_rfl
      · exact hge
  · rcases hedge with rfl | rfl
    · exact le_rfl
    · omega

theorem Hole.place (h : Hole key s heap x p)
    (hbelow : ∀ c (hc : c < heap.length), Edge p c → key x ≤ key heap[c]) :
    OrderedFrom key s (heap.set p x) := by
  intro q c hq hc hs hedge
  rw [List.length_set] at hq hc
  have hqc : q ≠ c := by
    unfold Edge at hedge
    omega
  by_cases hqp : p = q
  · subst hqp
    rw [List.getElem_set_self, List.getElem_set_ne hqc]
    exact hbelow c hc hedge
  · rw [List.getElem_set_ne hqp]
    by_cases hcp : p = c
    · subst hcp
      rw [List.getElem_set_self]
      exact h.above q hq hs hedge
    · rw [List.getElem_set_ne hcp]
      exact h.off q c hq hc hs hedge (Ne.symm hqp) (Ne.symm hcp)

/-- Moving the smallest child `c` of the hole up moves the hole down to `c`. -/
theorem Hole.descend (h : Hole key s heap x p) {c : ℕ} (hc : c < heap.length) (hedge : Edge p c)
    (hmin : ∀ d (hd : d < heap.length), Edge p d → key heap[c] ≤ key heap[d])
    (hx : key heap[c] ≤ key x) : Hole key s (heap.set p heap[c]) x c := by
  have hpc : p < c := by
    unfold Edge at hedge
    omega
  refine ⟨fun q d hq hd hs hqd hqc hdc => ?_, fun q hq hs hqc => ?_, fun q d hq hd hs hqc hcd => ?_⟩
  · rw [List.length_set] at hq hd
    have hqd' : q ≠ d := by
      unfold Edge at hqd
      omega
    by_cases hqp : p = q
    · subst hqp
      rw [List.getElem_set_self, List.getElem_set_ne hqd']
      exact hmin d hd hqd
    · rw [List.getElem_set_ne hqp]
      by_cases hdp : p = d
      · subst hdp
        rw [List.getElem_set_self]
        exact h.across q c hq hc hs hqd hedge
      · rw [List.getElem_set_ne hdp]
        exact h.off q d hq hd hs hqd (Ne.symm hqp) (Ne.symm hdp)
  · obtain rfl : p = q := by
      unfold Edge at hedge hqc
      omega
    rw [List.getElem_set_self]
    exact hx
  · rw [List.length_set] at hq hd
    obtain rfl : p = q := by
      unfold Edge at hedge hqc
      omega
    have hpd : p ≠ d := by
      unfold Edge at hcd
      omega
    have hcd' : d ≠ p ∧ c ≠ p := ⟨Ne.symm hpd, hpc.ne'⟩
    rw [List.getElem_set_self, List.getElem_set_ne hpd]
    exact h.off c d hc hd (by omega) hcd hcd'.2 hcd'.1

theorem siftDown_ordered (hcmp : Compares cmp key) (hp : p < heap.length) (h : Hole key s heap x p) :
    OrderedFrom key s (siftDown cmp x heap p) := by
  induction heap, p using siftDown.induct cmp x with
  | case1 heap p hchild hle =>
    rw [siftDown, dif_pos hchild, if_pos hle]
    refine h.place fun c hc hedge => ?_
    exact ((hcmp.le _ _).mp hle).trans (smallerChild_le hcmp hchild hc hedge)
  | case2 heap p hchild hle ih =>
    rw [siftDown, dif_pos hchild, if_neg hle]
    refine ih (by rw [List.length_set]; exact (smallerChild cmp heap p hchild).2) ?_
    rw [hcmp.le, not_le] at hle
    exact h.descend (smallerChild cmp heap p hchild).2 (smallerChild_edge cmp heap p hchild)
      (fun d hd hedge => smallerChild_le hcmp hchild hd hedge) hle.le
  | case3 heap p hchild =>
    rw [siftDown, dif_neg hchild]
    refine h.place fun c hc hedge => ?_
    unfold Edge at hedge
    omega

/-- Sifting position `n` extends the order by one position. -/
theorem sift_ordered (hcmp : Compares cmp key) (h : OrderedFrom key (n + 1) heap) :
    OrderedFrom key n (sift cmp heap n) := by
  unfold sift
  split
  · rename_i hn
    refine siftDown_ordered hcmp hn ⟨fun q c hq hc hs hedge hqn _ => h q c hq hc (by omega) hedge, ?_, ?_⟩
    · intro q hq hs hedge
      unfold Edge at hedge
      omega
    · intro q c hq hc hs hedge
      unfold Edge at hedge
      omega
  · intro q c hq hc hs hedge
    omega

theorem heapify_ordered (hcmp : Compares cmp key) : ∀ (n : ℕ) (heap : List α),
    OrderedFrom key n heap → OrderedFrom key 0 (heapify cmp n heap)
  | 0, _, h => h
  | n + 1, _, h => heapify_ordered hcmp n _ (sift_ordered hcmp h)

/-- The positions in the second half have no children. -/
theorem orderedFrom_half : OrderedFrom key (heap.length / 2) heap := by
  intro p c hp hc hs hedge
  unfold Edge at hedge
  omega

theorem OrderedFrom.set_root (h : OrderedFrom key 0 heap) (x : α) :
    OrderedFrom key 1 (heap.set 0 x) := by
  intro p c hp hc hs hedge
  rw [List.length_set] at hp hc
  have hc0 : 0 ≠ c := by
    unfold Edge at hedge
    omega
  rw [List.getElem_set_ne (by omega), List.getElem_set_ne hc0]
  exact h p c hp hc (by omega) hedge

theorem OrderedFrom.dropLast (h : OrderedFrom key s heap) : OrderedFrom key s heap.dropLast := by
  intro p c hp hc hs hedge
  rw [List.length_dropLast] at hp hc
  rw [List.getElem_dropLast, List.getElem_dropLast]
  exact h p c (by omega) (by omega) hs hedge

/-- The root of an ordered heap is a smallest entry. -/
theorem OrderedFrom.root_le (h : OrderedFrom key 0 heap) (h0 : 0 < heap.length) {i : ℕ}
    (hi : i < heap.length) : key heap[0] ≤ key heap[i] := by
  induction i using Nat.strongRecOn with
  | ind i ih =>
    rcases Nat.eq_zero_or_pos i with rfl | hpos
    · exact le_rfl
    · have hedge : Edge ((i - 1) / 2) i := by
        unfold Edge
        omega
      exact (ih ((i - 1) / 2) (by omega) (by omega)).trans (h _ i (by omega) hi (by omega) hedge)

end Heap
