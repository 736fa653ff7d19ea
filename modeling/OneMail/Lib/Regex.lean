import Mathlib

/-! Regular expressions with backtracking.

    `run` lists the ways an expression matches at a place of a text, the preferred way first; an engine
    with greedy loops and ordered alternatives stops at the head of that list. `exec` is the leftmost
    match, `pieces` cuts a text into the matches of a global search and the items between them. -/

namespace OneMail

variable {α : Type}

inductive Regex (α : Type) where
  | empty
  | one (p : α → Bool)
  | cat (r t : Regex α)
  | alt (r t : Regex α)
  /-- `r{0,n}` -/
  | upTo (n : ℕ) (r : Regex α)
  /-- `r*` -/
  | star (r : Regex α)
  /-- The `k`-th group. -/
  | group (k : ℕ) (r : Regex α)
  /-- `(?!r)` -/
  | notAhead (r : Regex α)
  /-- A condition on the items on both sides of a place. -/
  | between (p : Option α → Option α → Bool)

/-- A place in a text: what lies before it, from the place outwards, what lies after it, and what the
    groups have taken. -/
structure Place (α : Type) where
  before : List α
  after : List α
  groups : List (ℕ × List α)
  deriving DecidableEq

namespace Regex

/-- What lies between two places. -/
def taken (s e : Place α) : List α := s.after.take (s.after.length - e.after.length)

/-- Up to `n` rounds, as many as possible; a round that takes nothing is none. -/
def rounds (m : Place α → List (Place α)) : ℕ → Place α → List (Place α)
  | 0, s => [s]
  | n + 1, s => ((m s).filter fun e => e.after.length < s.after.length).flatMap (rounds m n) ++ [s]

/-- The places where a match from `s` on can end, in the order in which they are tried. -/
def run : Regex α → Place α → List (Place α)
  | .empty, s => [s]
  | .one p, s =>
    match s.after with
    | [] => []
    | c :: rest => if p c then [⟨c :: s.before, rest, s.groups⟩] else []
  | .cat r t, s => (run r s).flatMap (run t)
  | .alt r t, s => run r s ++ run t s
  | .upTo n r, s => rounds (run r) n s
  | .star r, s => rounds (run r) s.after.length s
  | .group k r, s => (run r s).map fun e => { e with groups := (k, taken s e) :: e.groups }
  | .notAhead r, s => if run r s = [] then [s] else []
  | .between p, s => if p s.before.head? s.after.head? then [s] else []

/-- A literal. -/
def lit [DecidableEq α] : List α → Regex α
  | [] => .empty
  | c :: text => .cat (.one (· = c)) (lit text)

/-- `r{n}` -/
def times : ℕ → Regex α → Regex α
  | 0, _ => .empty
  | n + 1, r => .cat r (times n r)

/-- `r{m,n}` -/
def count (m n : ℕ) (r : Regex α) : Regex α := .cat (times m r) (.upTo (n - m) r)

/-- `r?` -/
def opt (r : Regex α) : Regex α := .upTo 1 r

/-- `r+` -/
def plus (r : Regex α) : Regex α := .cat r (.star r)

/-- The first of the alternatives that matches. -/
def anyOf : List (Regex α) → Regex α
  | [] => .notAhead .empty
  | [r] => r
  | r :: rs => .alt r (anyOf rs)

theorem anyOf_cons (r t : Regex α) (rs : List (Regex α)) : anyOf (r :: t :: rs) = .alt r (anyOf (t :: rs)) := rfl

/-- One after the other. -/
def inOrder : List (Regex α) → Regex α
  | [] => .empty
  | r :: rs => .cat r (inOrder rs)

/-- A match: where it begins and where it ends. -/
structure Match (α : Type) where
  start : Place α
  stop : Place α

/-- What the match covers. -/
def Match.text (m : Match α) : List α := taken m.start m.stop

/-- What a group has taken last. -/
def Match.group (m : Match α) (k : ℕ) : Option (List α) := m.stop.groups.lookup k

/-- The match that begins at a place. -/
def at? (r : Regex α) (before after : List α) : Option (Match α) :=
  (r.run ⟨before, after, []⟩).head?.map fun e => ⟨⟨before, after, []⟩, e⟩

/-- The leftmost match. -/
def search (r : Regex α) (before : List α) : List α → Option (Match α)
  | [] => r.at? before []
  | c :: rest => (r.at? before (c :: rest)).or (search r (c :: before) rest)

def exec (r : Regex α) (text : List α) : Option (Match α) := r.search [] text

def test (r : Regex α) (text : List α) : Bool := (r.exec text).isSome

inductive Piece (α : Type) where
  | plain (c : α)
  | hit (m : Match α)

/-- A global search: after a match it goes on at its end, after an empty one past the next item. -/
def cut (r : Regex α) : ℕ → List α → List α → List (Piece α)
  | 0, _, _ => []
  | n + 1, before, after =>
    match r.at? before after with
    | none => skip r n before after
    | some m =>
      if m.stop.after.length < after.length then .hit m :: cut r n m.stop.before m.stop.after
      else .hit m :: skip r n before after
where
  skip (r : Regex α) (n : ℕ) (before : List α) : List α → List (Piece α)
    | [] => []
    | c :: rest => .plain c :: cut r n (c :: before) rest

/-- The pieces of what lies after a place. -/
def pieces (r : Regex α) (before after : List α) : List (Piece α) := cut r (after.length + 1) before after

/-- `text.replace(r, f)` for a global `r`. -/
def replaceAll (r : Regex α) (f : Match α → List α) (text : List α) : List α :=
  (r.pieces [] text).flatMap fun piece => match piece with
    | .plain c => [c]
    | .hit m => f m

/-! ### Where matches end -/

variable {r t : Regex α} {s e : Place α}

/-- The place after `w`. -/
def Place.past (s : Place α) (w rest : List α) : Place α := ⟨w.reverse ++ s.before, rest, s.groups⟩

theorem mem_cat : e ∈ run (.cat r t) s ↔ ∃ m ∈ run r s, e ∈ run t m := List.mem_flatMap

theorem mem_alt : e ∈ run (.alt r t) s ↔ e ∈ run r s ∨ e ∈ run t s := List.mem_append

theorem mem_one {p : α → Bool} : e ∈ run (.one p) s ↔
    ∃ c rest, s.after = c :: rest ∧ p c = true ∧ e = ⟨c :: s.before, rest, s.groups⟩ := by
  unfold run
  split
  · rename_i h
    simp [h]
  · rename_i c rest h
    rw [h]
    split
    · rename_i hp
      simp [hp]
    · rename_i hp
      simp [hp]

theorem mem_anyOf {rs : List (Regex α)} (h : e ∈ run (anyOf rs) s) : ∃ r ∈ rs, e ∈ run r s := by
  induction rs with
  | nil => simp [anyOf, run] at h
  | cons r rs ih =>
    cases rs with
    | nil => exact ⟨r, List.mem_cons_self, h⟩
    | cons t rs =>
      rcases mem_alt.mp h with h | h
      · exact ⟨r, List.mem_cons_self, h⟩
      · obtain ⟨u, hu, he⟩ := ih h
        exact ⟨u, List.mem_cons_of_mem _ hu, he⟩

theorem inOrder_cons (r : Regex α) (rs : List (Regex α)) : inOrder (r :: rs) = .cat r (inOrder rs) := rfl

theorem mem_inOrder_nil : e ∈ run (inOrder []) s ↔ e = s := List.mem_singleton

theorem mem_group {k : ℕ} : e ∈ run (.group k r) s ↔
    ∃ m ∈ run r s, e = { m with groups := (k, taken s m) :: m.groups } := by
  simp only [run, List.mem_map, eq_comm]

theorem mem_between {p : Option α → Option α → Bool} : e ∈ run (.between p) s ↔
    e = s ∧ p s.before.head? s.after.head? = true := by
  unfold run
  split
  · rename_i h
    simp [h]
  · rename_i h
    simp [h]

theorem mem_notAhead : e ∈ run (.notAhead r) s ↔ e = s ∧ run r s = [] := by
  rw [run]
  split
  · rename_i h
    simp [h]
  · rename_i h
    simp [h]

/-- A run passes over what lies between its ends, and its groups grow. -/
structure Passes (s e : Place α) : Prop where
  text : ∃ w, s.after = w ++ e.after ∧ e.before = w.reverse ++ s.before
  groups : ∃ taken, e.groups = taken ++ s.groups

theorem Passes.refl (s : Place α) : Passes s s := ⟨⟨[], rfl, rfl⟩, ⟨[], rfl⟩⟩

theorem Passes.trans {a b c : Place α} (hab : Passes a b) (hbc : Passes b c) : Passes a c := by
  obtain ⟨⟨v, hv, hv'⟩, ⟨g, hg⟩⟩ := hab
  obtain ⟨⟨w, hw, hw'⟩, ⟨g', hg'⟩⟩ := hbc
  refine ⟨⟨v ++ w, ?_, ?_⟩, ⟨g' ++ g, ?_⟩⟩
  · rw [hv, hw, List.append_assoc]
  · rw [hw', hv', List.reverse_append, List.append_assoc]
  · rw [hg', hg, List.append_assoc]

theorem rounds_passes {m : Place α → List (Place α)} (hm : ∀ {s e}, e ∈ m s → Passes s e) {n : ℕ} :
    ∀ {s e : Place α}, e ∈ rounds m n s → Passes s e := by
  induction n with
  | zero =>
    intro s e h
    rw [rounds, List.mem_singleton] at h
    exact h ▸ Passes.refl s
  | succ n ih =>
    intro s e h
    rw [rounds, List.mem_append, List.mem_flatMap, List.mem_singleton] at h
    rcases h with ⟨i, hi, he⟩ | rfl
    · exact (hm (List.mem_of_mem_filter hi)).trans (ih he)
    · exact Passes.refl e

/-- Every match runs over a piece of the text that lies after its beginning. -/
theorem run_passes (h : e ∈ run r s) : Passes s e := by
  induction r generalizing s e with
  | empty =>
    rw [run, List.mem_singleton] at h
    exact h ▸ Passes.refl s
  | one p =>
    obtain ⟨c, rest, hafter, -, rfl⟩ := mem_one.mp h
    exact ⟨⟨[c], hafter, rfl⟩, ⟨[], rfl⟩⟩
  | cat r t ihr iht =>
    obtain ⟨m, hm, he⟩ := mem_cat.mp h
    exact (ihr hm).trans (iht he)
  | alt r t ihr iht =>
    rcases mem_alt.mp h with h | h
    · exact ihr h
    · exact iht h
  | upTo n r ih => exact rounds_passes ih h
  | star r ih => exact rounds_passes ih h
  | group k r ih =>
    obtain ⟨m, hm, rfl⟩ := mem_group.mp h
    obtain ⟨hw, ⟨g, hg⟩⟩ := ih hm
    exact ⟨hw, ⟨(k, taken s m) :: g, by rw [hg, List.cons_append]⟩⟩
  | notAhead r =>
    obtain ⟨rfl, -⟩ := mem_notAhead.mp h
    exact Passes.refl e
  | between p =>
    obtain ⟨rfl, -⟩ := mem_between.mp h
    exact Passes.refl e

theorem Passes.taken (h : Passes s e) : s.after = Regex.taken s e ++ e.after := by
  obtain ⟨w, hw, -⟩ := h.text
  rw [Regex.taken, hw, List.length_append, Nat.add_sub_cancel, List.take_left]

/-- What lies between two places, from what lies behind them. -/
theorem taken_of_after {w : List α} (h : s.after = w ++ e.after) : Regex.taken s e = w := by
  rw [Regex.taken, h, List.length_append, Nat.add_sub_cancel, List.take_left]

theorem Passes.before (h : Passes s e) : e.before = (Regex.taken s e).reverse ++ s.before := by
  obtain ⟨w, hw, hb⟩ := h.text
  rw [Regex.taken, hw, List.length_append, Nat.add_sub_cancel, List.take_left, hb]

/-- The whole text stays what it is. -/
theorem Passes.whole (h : Passes s e) : e.before.reverse ++ e.after = s.before.reverse ++ s.after := by
  obtain ⟨w, hw, hb⟩ := h.text
  rw [hb, hw, List.reverse_append, List.reverse_reverse, List.append_assoc]

/-- The expression has no group. -/
def groupFree : Regex α → Bool
  | .cat r t | .alt r t => groupFree r && groupFree t
  | .upTo _ r | .star r => groupFree r
  | .group _ _ => false
  | _ => true

theorem rounds_groups {m : Place α → List (Place α)} (hm : ∀ {s e}, e ∈ m s → e.groups = s.groups) {n : ℕ} :
    ∀ {s e : Place α}, e ∈ rounds m n s → e.groups = s.groups := by
  induction n with
  | zero =>
    intro s e h
    rw [rounds, List.mem_singleton] at h
    rw [h]
  | succ n ih =>
    intro s e h
    rw [rounds, List.mem_append, List.mem_flatMap, List.mem_singleton] at h
    rcases h with ⟨i, hi, he⟩ | rfl
    · exact (ih he).trans (hm (List.mem_of_mem_filter hi))
    · rfl

/-- Without groups nothing is captured. -/
theorem groups_of_groupFree (hr : r.groupFree = true) (h : e ∈ run r s) : e.groups = s.groups := by
  induction r generalizing s e with
  | empty =>
    rw [run, List.mem_singleton] at h
    rw [h]
  | one p =>
    obtain ⟨c, rest, -, -, rfl⟩ := mem_one.mp h
    rfl
  | cat r t ihr iht =>
    rw [groupFree, Bool.and_eq_true] at hr
    obtain ⟨m, hm, he⟩ := mem_cat.mp h
    exact (iht hr.2 he).trans (ihr hr.1 hm)
  | alt r t ihr iht =>
    rw [groupFree, Bool.and_eq_true] at hr
    rcases mem_alt.mp h with h | h
    · exact ihr hr.1 h
    · exact iht hr.2 h
  | upTo n r ih => exact rounds_groups (ih hr) h
  | star r ih => exact rounds_groups (ih hr) h
  | group k r => cases hr
  | notAhead r =>
    obtain ⟨rfl, -⟩ := mem_notAhead.mp h
    rfl
  | between p =>
    obtain ⟨rfl, -⟩ := mem_between.mp h
    rfl

/-! ### Options and counts -/

theorem mem_opt (h : e ∈ run (opt r) s) : e = s ∨ e ∈ run r s := by
  rw [opt, run, rounds, List.mem_append, List.mem_flatMap, List.mem_singleton] at h
  rcases h with ⟨i, hi, he⟩ | rfl
  · rw [rounds, List.mem_singleton] at he
    exact .inr (he ▸ List.mem_of_mem_filter hi)
  · exact .inl rfl

/-- Between the places lie items of a class, in a number that `n` allows. -/
def Spans (p : α → Bool) (n : ℕ → Prop) (s e : Place α) : Prop :=
  ∃ w, n w.length ∧ (∀ c ∈ w, p c = true) ∧ s.after = w ++ e.after ∧ e.before = w.reverse ++ s.before ∧
    e.groups = s.groups

theorem mem_upTo_one {p : α → Bool} {n : ℕ} : ∀ {s : Place α}, e ∈ run (.upTo n (.one p)) s →
    Spans p (· ≤ n) s e := by
  induction n with
  | zero =>
    intro s h
    rw [run, rounds, List.mem_singleton] at h
    subst h
    exact ⟨[], Nat.le_refl 0, by simp, rfl, rfl, rfl⟩
  | succ n ih =>
    intro s h
    rw [run, rounds, List.mem_append, List.mem_flatMap, List.mem_singleton] at h
    rcases h with ⟨i, hi, he⟩ | rfl
    · obtain ⟨c, rest, hafter, hc, rfl⟩ := mem_one.mp (List.mem_of_mem_filter hi)
      obtain ⟨w, hn, hall, hw, hb, hg⟩ := ih he
      refine ⟨c :: w, Nat.succ_le_succ hn, List.forall_mem_cons.mpr ⟨hc, hall⟩, ?_, ?_, hg⟩
      · rw [hafter, List.cons_append, ← hw]
      · rw [hb, List.reverse_cons, List.append_assoc, List.singleton_append]
    · exact ⟨[], Nat.zero_le _, by simp, rfl, rfl, rfl⟩

theorem mem_times_one {p : α → Bool} {n : ℕ} : ∀ {s : Place α}, e ∈ run (times n (.one p)) s →
    Spans p (· = n) s e := by
  induction n with
  | zero =>
    intro s h
    rw [times, run, List.mem_singleton] at h
    subst h
    exact ⟨[], rfl, by simp, rfl, rfl, rfl⟩
  | succ n ih =>
    intro s h
    obtain ⟨m, hm, he⟩ := mem_cat.mp h
    obtain ⟨c, rest, hafter, hc, rfl⟩ := mem_one.mp hm
    obtain ⟨w, hn, hall, hw, hb, hg⟩ := ih he
    refine ⟨c :: w, by rw [List.length_cons, hn], List.forall_mem_cons.mpr ⟨hc, hall⟩, ?_, ?_, hg⟩
    · rw [hafter, List.cons_append, ← hw]
    · rw [hb, List.reverse_cons, List.append_assoc, List.singleton_append]

theorem mem_count_one {p : α → Bool} {m n : ℕ} (h : e ∈ run (count m n (.one p)) s) :
    Spans p (fun k => m ≤ k ∧ k ≤ m + (n - m)) s e := by
  obtain ⟨i, hi, he⟩ := mem_cat.mp h
  obtain ⟨v, hv, hvall, hvs, hvb, hvg⟩ := mem_times_one hi
  obtain ⟨w, hw, hwall, hws, hwb, hwg⟩ := mem_upTo_one he
  refine ⟨v ++ w, ?_, List.forall_mem_append.mpr ⟨hvall, hwall⟩, ?_, ?_, hwg.trans hvg⟩
  · rw [List.length_append, hv]
    exact ⟨Nat.le_add_right _ _, Nat.add_le_add_left hw m⟩
  · rw [hvs, hws, List.append_assoc]
  · rw [hwb, hvb, List.reverse_append, List.append_assoc]

/-! ### Leftmost matches -/

/-- A match is a run from some place of the text. -/
theorem search_run {m : Match α} {before after : List α} (h : search r before after = some m) :
    m.stop ∈ run r m.start ∧ m.start.groups = [] ∧
      m.start.before.reverse ++ m.start.after = before.reverse ++ after := by
  have hat {before after : List α} (h : r.at? before after = some m) :
      m.stop ∈ run r m.start ∧ m.start.groups = [] ∧
        m.start.before.reverse ++ m.start.after = before.reverse ++ after := by
    obtain ⟨e, he, rfl⟩ := Option.map_eq_some_iff.mp h
    exact ⟨List.mem_of_head? he, rfl, rfl⟩
  induction after generalizing before with
  | nil => exact hat h
  | cons c rest ih =>
    rw [search, Option.or_eq_some_iff] at h
    rcases h with h | ⟨-, h⟩
    · exact hat h
    · have := ih h
      rwa [List.reverse_cons, List.append_assoc, List.singleton_append] at this

theorem exec_run {m : Match α} {text : List α} (h : r.exec text = some m) :
    m.stop ∈ run r m.start ∧ m.start.groups = [] ∧ m.start.before.reverse ++ m.start.after = text := search_run h

/-! ### Literals -/

section
variable [DecidableEq α]

/-- A literal matches where it stands. -/
theorem run_lit (w rest : List α) (before : List α) (groups : List (ℕ × List α)) :
    run (lit w) ⟨before, w ++ rest, groups⟩ = [⟨w.reverse ++ before, rest, groups⟩] := by
  induction w generalizing before with
  | nil => rfl
  | cons c w ih =>
    simp only [lit, run, List.cons_append, decide_true, if_true, List.flatMap_cons, List.flatMap_nil, List.append_nil,
      List.reverse_cons, List.append_assoc]
    exact ih (c :: before)

/-- And nowhere else. -/
theorem run_lit_eq_nil {w : List α} (h : ¬ w <+: s.after) : run (lit w) s = [] := by
  induction w generalizing s with
  | nil => exact absurd List.nil_prefix h
  | cons c w ih =>
    rw [lit, run, run]
    split
    · rfl
    · rename_i d rest hafter
      split
      · rename_i hd
        rw [List.flatMap_cons, List.flatMap_nil, List.append_nil]
        refine ih fun hw => h ?_
        rw [hafter, of_decide_eq_true hd]
        exact List.cons_prefix_cons.mpr ⟨rfl, hw⟩
      · rfl

theorem mem_lit {w : List α} : e ∈ run (lit w) s ↔
    ∃ rest, s.after = w ++ rest ∧ e = ⟨w.reverse ++ s.before, rest, s.groups⟩ := by
  by_cases h : w <+: s.after
  · obtain ⟨rest, hrest⟩ := h
    have hs : s = ⟨s.before, w ++ rest, s.groups⟩ := by rw [hrest]
    rw [hs, run_lit, List.mem_singleton]
    simp
  · rw [run_lit_eq_nil h]
    simp only [List.not_mem_nil, false_iff]
    rintro ⟨rest, hrest, -⟩
    exact h ⟨rest, hrest.symm⟩

end

/-! ### The preferred match -/

theorem head_flatMap {β γ : Type} {l : List β} {f : β → List γ} {b : β} {c : γ} (hl : l.head? = some b)
    (hf : (f b).head? = some c) : (l.flatMap f).head? = some c := by
  rcases l with _ | ⟨b', l⟩
  · cases hl
  · cases hl
    rw [List.flatMap_cons, List.head?_append, hf, Option.some_or]

theorem head_cat {m : Place α} (hr : (run r s).head? = some m) (ht : (run t m).head? = some e) :
    (run (.cat r t) s).head? = some e := head_flatMap hr ht

theorem run_cat_eq_nil (h : run r s = []) : run (.cat r t) s = [] := by rw [run, h, List.flatMap_nil]

theorem head_alt_left (h : (run r s).head? = some e) : (run (.alt r t) s).head? = some e := by
  rw [run, List.head?_append, h, Option.some_or]

theorem run_alt_right (h : run r s = []) : run (.alt r t) s = run t s := by rw [run, h, List.nil_append]

theorem head_group {k : ℕ} (h : (run r s).head? = some e) :
    (run (.group k r) s).head? = some { e with groups := (k, taken s e) :: e.groups } := by
  rw [run, List.head?_map, h, Option.map_some]

section
variable [DecidableEq α]

theorem head_rounds_lit {w rest : List α} (hw : w ≠ []) (hrest : ¬ w <+: rest) {n : ℕ} :
    ∀ {k : ℕ}, n ≤ k → ∀ (before : List α) (groups : List (ℕ × List α)),
      (rounds (run (lit w)) k ⟨before, (List.replicate n w).flatten ++ rest, groups⟩).head? =
        some ⟨(List.replicate n w).flatten.reverse ++ before, rest, groups⟩ := by
  induction n with
  | zero =>
    intro k _ before groups
    rcases k with _ | k
    · rfl
    · rw [rounds, run_lit_eq_nil (by simpa using hrest)]
      rfl
  | succ n ih =>
    intro k hk before groups
    obtain ⟨k, rfl⟩ : ∃ j, k = j + 1 := ⟨k - 1, by omega⟩
    have hshort : ((List.replicate n w).flatten ++ rest).length <
        (w ++ ((List.replicate n w).flatten ++ rest)).length := by
      have := List.length_pos_of_ne_nil hw
      rw [@List.length_append _ w _]
      omega
    rw [List.replicate_succ, List.flatten_cons, List.append_assoc, rounds, run_lit,
      List.filter_cons_of_pos (by simpa using hshort), List.filter_nil, List.flatMap_cons, List.flatMap_nil,
      List.append_nil, List.head?_append, ih (by omega), List.reverse_append, List.append_assoc]
    rfl

/-- A repeated literal is matched as far as it goes. -/
theorem head_star_lit {w rest : List α} (hw : w ≠ []) (hrest : ¬ w <+: rest) (n : ℕ) (before : List α)
    (groups : List (ℕ × List α)) :
    (run (.star (lit w)) ⟨before, (List.replicate n w).flatten ++ rest, groups⟩).head? =
      some ⟨(List.replicate n w).flatten.reverse ++ before, rest, groups⟩ := by
  refine head_rounds_lit hw hrest ?_ before groups
  have hlen : ∀ k, k ≤ (List.replicate k w).flatten.length := by
    intro k
    induction k with
    | zero => exact Nat.zero_le _
    | succ k ih =>
      have := List.length_pos_of_ne_nil hw
      rw [List.replicate_succ, List.flatten_cons, List.length_append]
      omega
  have := hlen n
  simp only [List.length_append]
  omega

end

/-! ### Pieces -/

variable {before after : List α}

theorem at?_eq_none (h : run r ⟨before, after, []⟩ = []) : r.at? before after = none := by rw [at?, h]; rfl

theorem at?_of_head (h : (run r ⟨before, after, []⟩).head? = some e) :
    r.at? before after = some ⟨⟨before, after, []⟩, e⟩ := by rw [at?, h]; rfl

theorem cut_eq {n n' : ℕ} (h : after.length < n) (h' : after.length < n') :
    cut r n before after = cut r n' before after := by
  induction n generalizing n' before after with
  | zero => omega
  | succ n ih =>
    obtain ⟨n', rfl⟩ : ∃ k, n' = k + 1 := ⟨n' - 1, by omega⟩
    have hskip : cut.skip r n before after = cut.skip r n' before after := by
      rcases after with _ | ⟨c, rest⟩
      · rw [cut.skip, cut.skip]
      · rw [List.length_cons] at h h'
        rw [cut.skip, cut.skip, @ih _ _ n' (by omega) (by omega)]
    rw [cut, cut]
    split
    · exact hskip
    · split
      · rename_i hshort
        rw [@ih _ _ n' (by omega) (by omega)]
      · rw [hskip]

theorem pieces_nil (h : r.at? before [] = none) : pieces r before [] = [] := by
  rw [pieces, cut, h, cut.skip]

theorem pieces_plain {c : α} {rest : List α} (h : r.at? before (c :: rest) = none) :
    pieces r before (c :: rest) = .plain c :: pieces r (c :: before) rest := by
  rw [pieces, cut, h, cut.skip, pieces, List.length_cons]

theorem pieces_hit {m : Match α} (h : r.at? before after = some m) (hshort : m.stop.after.length < after.length) :
    pieces r before after = .hit m :: pieces r m.stop.before m.stop.after := by
  rw [pieces, cut, h]
  simp only [if_pos hshort]
  rw [cut_eq hshort (Nat.lt_succ_self _), pieces]

end Regex

end OneMail
