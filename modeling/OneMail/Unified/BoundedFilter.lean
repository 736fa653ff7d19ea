import OneMail.Js.Pattern
import OneMail.Unified.SqlFilter

/-! `boundedEmailFilter` (`unified_sql.ts`): the lists of a filter, each bound as one JSON array.

    The rewrite is one pass of a regular expression over the WHERE text. It takes the parameters in the
    order of the placeholders it meets: `Rewrites` says of a piece of text what it becomes and how many
    parameters it takes, and pieces are put together. -/

namespace OneMail.SqlFilter
open JsString Unified Regex Pattern

/-! ### The pass -/

/-- `\b(source|account_id|to_addr) IN \((\?(?:,\?)+)\)` -/
def listAlternative : Regex UInt16 :=
  .cat wordBoundary (.cat
    (.group 1 (anyOf [lit (colName .source), lit (colName .accountId), lit (colName .toAddr)]))
    (.cat (lit (js " IN (")) (.cat (.group 2 (.cat (lit (js "?")) (plus (lit (js ",?"))))) (lit (js ")")))))

/-- `/\b(source|account_id|to_addr) IN \((\?(?:,\?)+)\)|\?/g` -/
def listPattern : Regex UInt16 := .alt listAlternative (lit (js "?"))

variable (number : JsString → JsString)

/-- `JSON.stringify` of a parameter; `number` writes what a text converts to. -/
def stringify : Param → JsString
  | .text s => Json.quote s
  | .number s => number s
  | .id n => Json.integer n
  | .undefined => js "null"

/-- The replacements, and the parameters they push, from the parameter with this index on. -/
def replaceFrom (params : List Param) : ℕ → List (Piece UInt16) → JsString × List Param
  | _, [] => ([], [])
  | index, .plain c :: rest =>
    let (text, out) := replaceFrom params index rest
    (c :: text, out)
  | index, .hit m :: rest =>
    let column := (m.group 1).getD []
    let list := (m.group 2).getD []
    if column = [] ∨ list = [] then
      let (text, out) := replaceFrom params (index + 1) rest
      (m.text ++ text, params[index]?.getD .undefined :: out)
    else
      let length := (list.splitOn comma).length
      let (text, out) := replaceFrom params (index + length) rest
      (column ++ js " IN (SELECT value FROM json_each(?))" ++ text,
        .text (Json.bracket (((params.drop index).take length).map (stringify number))) :: out)

def boundedEmailFilter (filter : EmailFilter) : EmailFilter :=
  let (text, params) := replaceFrom number filter.params 0 (listPattern.pieces [] filter.where)
  ⟨text, params⟩

/-! ### Texts that are no beginning of each other -/

/-- Neither text begins with the other. -/
def apart (a b : JsString) : Bool := !a.isPrefixOf b && !b.isPrefixOf a

theorem apart_iff {a b : JsString} : apart a b = true ↔ ¬ a <+: b ∧ ¬ b <+: a := by
  simp only [apart, Bool.and_eq_true, Bool.not_eq_true', ← Bool.not_eq_true, List.isPrefixOf_iff_prefix]

theorem apart_symm {a b : JsString} (h : apart a b = true) : apart b a = true :=
  apart_iff.mpr ⟨(apart_iff.mp h).2, (apart_iff.mp h).1⟩

theorem not_prefix_of_apart {a b : JsString} (h : apart a b = true) (rest : JsString) : ¬ a <+: b ++ rest := by
  obtain ⟨hab, hba⟩ := apart_iff.mp h
  intro ha
  rcases Nat.le_total a.length b.length with hlen | hlen
  · exact hab (List.prefix_of_prefix_length_le ha (List.prefix_append b rest) hlen)
  · exact hba (List.prefix_of_prefix_length_le (List.prefix_append b rest) ha hlen)

/-- Texts stay apart when they go on. -/
theorem apart_append {a b : JsString} (h : apart a b = true) (rest rest' : JsString) :
    ¬ a ++ rest <+: b ++ rest' := fun hab => not_prefix_of_apart h rest' ((List.prefix_append a rest).trans hab)

def columns : List Col := [.source, .accountId, .toAddr]

theorem mem_columns (col : Col) : col ∈ columns := by cases col <;> decide

/-- How a list begins. -/
def listHead (col : Col) : JsString := colName col ++ js " IN ("

theorem placeholders_succ (n : ℕ) :
    placeholders (n + 1) = js "?" ++ (List.replicate n (js ",?")).flatten := by
  rw [placeholders, List.replicate_succ, Json.intercalate_cons]
  congr 1
  induction n with
  | zero => rfl
  | succ n ih =>
    rw [List.replicate_succ, List.flatMap_cons, ih, List.replicate_succ, List.flatten_cons]
    rfl

theorem mem_placeholders {n : ℕ} {c : UInt16} (h : c ∈ placeholders n) : c = 0x3F ∨ c = 0x2C := by
  rcases n with _ | n
  · cases h
  rw [placeholders_succ, List.mem_append, List.mem_flatten] at h
  rcases h with h | ⟨t, ht, hc⟩
  · exact .inl (List.mem_singleton.mp h)
  · rw [List.eq_of_mem_replicate ht] at hc
    simp [js] at hc
    exact hc.symm

theorem marks_placeholders (n : ℕ) : marks (placeholders n) = n := by
  rcases n with _ | n
  · rfl
  rw [placeholders_succ, marks, List.count_append, List.count_flatten, List.map_replicate, List.sum_replicate]
  have hone : (js ",?").count 0x3F = 1 := by decide
  have hmark : (js "?").count 0x3F = 1 := by decide
  simp only [hone, hmark, Nat.nsmul_eq_mul, Nat.mul_one]
  omega

/-- A list, from its head to its end. -/
theorem isIn_sql (col : Col) (n : ℕ) :
    ∃ c rest, (c = 0x3F ∨ c = 0x29) ∧ (Shape.isIn col n).sql = listHead col ++ c :: rest := by
  rcases n with _ | n
  · exact ⟨0x29, [], .inr rfl, by simp [Shape.sql, listHead, placeholders, js]⟩
  · refine ⟨0x3F, (List.replicate n (js ",?")).flatten ++ js ")", .inl rfl, ?_⟩
    rw [Shape.sql, placeholders_succ, listHead]
    simp [js]

/-! ### Reading a text back -/

theorem fixed_apart : ∀ a ∈ fixedShapes, ∀ b ∈ fixedShapes, a = b ∨ apart a.sql b.sql = true := by decide +kernel

theorem fixed_apart_list : ∀ a ∈ fixedShapes, ∀ col ∈ columns, ∀ c ∈ [0x3F, 0x29],
    apart (listHead col ++ [c]) a.sql = true ∧ apart a.sql (listHead col ++ [c]) = true := by decide +kernel

theorem lists_apart : ∀ a ∈ columns, ∀ b ∈ columns, a = b ∨ apart (listHead a) (listHead b) = true := by decide

theorem find_unique {α : Type} {p : α → Bool} {l : List α} {x : α} (hx : x ∈ l) (hp : p x = true)
    (hunique : ∀ y ∈ l, p y = true → y = x) : l.find? p = some x := by
  rcases h : l.find? p with _ | y
  · exact absurd hp (List.find?_eq_none.mp h x hx)
  · rw [hunique y (List.mem_of_find?_eq_some h) (List.find?_some h)]

theorem mem_readers {text : JsString} {s : Shape} :
    (s ∈ fixedShapes ++ [Col.source, .accountId, .toAddr].map fun col => Shape.isIn col (listLength col text)) ↔
      s ∈ fixedShapes ∨ ∃ col, s = .isIn col (listLength col text) := by
  rw [List.mem_append, List.mem_map]
  refine or_congr_right ⟨fun ⟨col, _, h⟩ => ⟨col, h.symm⟩, fun ⟨col, h⟩ => ⟨col, mem_columns col, h.symm⟩⟩

theorem isIn_not_prefixed {s : Shape} (hs : s ∈ fixedShapes) (col : Col) (n : ℕ) (rest : JsString) :
    ¬ (Shape.isIn col n).sql <+: s.sql ++ rest := by
  obtain ⟨c, list, hc, hsql⟩ := isIn_sql col n
  have hmem : c ∈ [(0x3F : UInt16), 0x29] := by rcases hc with rfl | rfl <;> decide
  have h := (fixed_apart_list s hs col (mem_columns col) c hmem).1
  rw [hsql, show listHead col ++ c :: list = (listHead col ++ [c]) ++ list by simp]
  exact apart_append h list rest

/-- A fixed conjunct is read. -/
theorem readShape_fixed {s : Shape} (hs : s ∈ fixedShapes) (rest : JsString) :
    readShape (s.sql ++ rest) = some (s, rest) := by
  have hfind : (fixedShapes ++ [Col.source, .accountId, .toAddr].map fun col =>
      Shape.isIn col (listLength col (s.sql ++ rest))).find? (fun x => x.sql.isPrefixOf (s.sql ++ rest)) = some s := by
    refine find_unique (mem_readers.mpr (.inl hs)) (by simp) fun y hy hp => ?_
    rw [List.isPrefixOf_iff_prefix] at hp
    rcases mem_readers.mp hy with hy | ⟨col, rfl⟩
    · rcases fixed_apart y hy s hs with h | h
      · exact h
      · exact absurd hp (not_prefix_of_apart h rest)
    · exact absurd hp (isIn_not_prefixed hs col _ rest)
  rw [readShape, hfind, Option.map_some, List.drop_left]

theorem listLength_isIn (col : Col) (n : ℕ) (rest : JsString) :
    listLength col ((Shape.isIn col n).sql ++ rest) = n := by
  have hsplit : (Shape.isIn col n).sql ++ rest = (colName col ++ js " IN (") ++ (placeholders n ++ 0x29 :: rest) := by
    simp [Shape.sql, js]
  have htake : (placeholders n ++ 0x29 :: rest).takeWhile (· ≠ 0x29) = placeholders n := by
    rw [List.takeWhile_append_of_pos, List.takeWhile_cons_of_neg (by decide), List.append_nil]
    intro c hc
    rcases mem_placeholders hc with rfl | rfl <;> decide
  rw [listLength, hsplit, List.drop_left, htake]
  exact marks_placeholders n

/-- A list is read. -/
theorem readShape_isIn (col : Col) (n : ℕ) (rest : JsString) :
    readShape ((Shape.isIn col n).sql ++ rest) = some (.isIn col n, rest) := by
  obtain ⟨c, list, hc, hsql⟩ := isIn_sql col n
  have hmem : c ∈ [(0x3F : UInt16), 0x29] := by rcases hc with rfl | rfl <;> decide
  have hfind : (fixedShapes ++ [Col.source, .accountId, .toAddr].map fun col' =>
      Shape.isIn col' (listLength col' ((Shape.isIn col n).sql ++ rest))).find?
        (fun x => x.sql.isPrefixOf ((Shape.isIn col n).sql ++ rest)) = some (.isIn col n) := by
    refine find_unique (mem_readers.mpr (.inr ⟨col, by rw [listLength_isIn]⟩)) (by simp) fun y hy hp => ?_
    rw [List.isPrefixOf_iff_prefix] at hp
    rcases mem_readers.mp hy with hy | ⟨col', rfl⟩
    · have h := (fixed_apart_list y hy col (mem_columns col) c hmem).2
      rw [hsql, show listHead col ++ c :: list = (listHead col ++ [c]) ++ list by simp, List.append_assoc] at hp
      exact absurd hp (not_prefix_of_apart h _)
    · rcases lists_apart col' (mem_columns col') col (mem_columns col) with rfl | h
      · rw [listLength_isIn]
      · obtain ⟨c', list', -, hsql'⟩ := isIn_sql col' (listLength col' ((Shape.isIn col n).sql ++ rest))
        rw [hsql', hsql, List.append_assoc] at hp
        exact absurd hp (apart_append h _ _)
  rw [readShape, hfind, Option.map_some, List.drop_left]

/-- The conjuncts of the filters: the fixed ones and the lists. -/
def Shape.Written (s : Shape) : Prop := s ∈ fixedShapes ∨ ∃ col n, s = .isIn col (n + 2)

theorem readShape_sql {s : Shape} (hs : s.Written) (rest : JsString) : readShape (s.sql ++ rest) = some (s, rest) := by
  rcases hs with hs | ⟨col, n, rfl⟩
  · exact readShape_fixed hs rest
  · exact readShape_isIn col (n + 2) rest

theorem readConditions_step {text rest : JsString} {s : Shape} (h : readShape text = some (s, rest)) (n : ℕ) :
    readConditions (n + 1) text =
      if (js " AND ").isPrefixOf rest then (readConditions n (rest.drop 5)).map fun out => (s :: out.1, out.2)
      else some ([s], rest) := by
  simp only [readConditions, h, Option.bind_eq_bind, Option.bind_some, List.singleton_append]
  split
  · rw [Option.map_eq_bind]
    rfl
  · rfl

/-- Conjuncts in parentheses, with a further one behind them. -/
theorem readConditions_open {inner rest : JsString} {n : ℕ} {ss : List Shape} {s : Shape}
    (hopen : readShape (0x28 :: inner) = none)
    (hinner : readConditions n inner = some (ss, 0x29 :: (js " AND " ++ rest)))
    (hlast : readConditions n rest = some ([s], [])) :
    readConditions (n + 1) (0x28 :: inner) = some (ss ++ [s], []) := by
  have htrue : (js " AND ").isPrefixOf (js " AND " ++ rest) = true := by simp
  have hdrop : (js " AND " ++ rest).drop 5 = rest := @List.drop_left _ (js " AND ") _
  simp only [readConditions, hopen, hinner, Option.bind_eq_bind, Option.bind_some, htrue, if_true, hdrop, hlast]

/-- A conjunction is read up to where no further conjunct follows. -/
theorem readConditions_conjunction {rest : JsString} (hrest : ¬ js " AND " <+: rest) {ss : List Shape} :
    ∀ {s : Shape} {n : ℕ}, s.Written → (∀ s ∈ ss, s.Written) → ss.length < n →
      readConditions n (conjunction (s :: ss) ++ rest) = some (s :: ss, rest) := by
  induction ss with
  | nil =>
    intro s n hs _ hn
    obtain ⟨n, rfl⟩ : ∃ k, n = k + 1 := ⟨n - 1, by simp at hn; omega⟩
    have hsql : conjunction [s] = s.sql := List.intercalate_singleton
    have hfalse : (js " AND ").isPrefixOf rest = false := by
      rw [← Bool.not_eq_true, List.isPrefixOf_iff_prefix]
      exact hrest
    rw [readConditions_step (hsql ▸ readShape_sql hs rest), hfalse]
    rfl
  | cons s' ss ih =>
    intro s n hs hss hn
    obtain ⟨n, rfl⟩ : ∃ k, n = k + 1 := ⟨n - 1, by simp at hn; omega⟩
    have hsql : conjunction (s :: s' :: ss) ++ rest = s.sql ++ (js " AND " ++ (conjunction (s' :: ss) ++ rest)) := by
      simp [conjunction, List.intercalate_cons_cons]
    have hmore := ih (n := n) (hss s' List.mem_cons_self) (fun s h => hss s (List.mem_cons_of_mem _ h))
      (by simp at hn; omega)
    have htrue : (js " AND ").isPrefixOf (js " AND " ++ (conjunction (s' :: ss) ++ rest)) = true := by simp
    have hdrop : (js " AND " ++ (conjunction (s' :: ss) ++ rest)).drop 5 = conjunction (s' :: ss) ++ rest :=
      @List.drop_left _ (js " AND ") _
    rw [hsql, readConditions_step (readShape_sql hs _), if_pos htrue, hdrop, hmore]
    rfl

/-! ### Rewriting a text -/

/-- The list alternative matches only where a list begins. -/
theorem listAlternative_head {s e : Place UInt16} (h : e ∈ listAlternative.run s) :
    ∃ col, listHead col ++ js "?" <+: s.after := by
  obtain ⟨a, ha, hlist⟩ := mem_cat.mp h
  obtain ⟨rfl, -⟩ := mem_between.mp ha
  obtain ⟨b, hb, hlist⟩ := mem_cat.mp hlist
  obtain ⟨b', hb', rfl⟩ := mem_group.mp hb
  obtain ⟨d, hd, hlist⟩ := mem_cat.mp hlist
  obtain ⟨d', hd', hdeq⟩ := mem_lit.mp hd
  obtain ⟨f, hf, -⟩ := mem_cat.mp hlist
  obtain ⟨f', hf', rfl⟩ := mem_group.mp hf
  obtain ⟨g, hg, -⟩ := mem_cat.mp hf'
  obtain ⟨g', hg', -⟩ := mem_lit.mp hg
  have hcol : ∃ col, a.after = colName col ++ b'.after := by
    rcases mem_alt.mp hb' with h | h
    · obtain ⟨rest, hrest, rfl⟩ := mem_lit.mp h
      exact ⟨.source, hrest⟩
    · rcases mem_alt.mp h with h | h
      · obtain ⟨rest, hrest, rfl⟩ := mem_lit.mp h
        exact ⟨.accountId, hrest⟩
      · obtain ⟨rest, hrest, rfl⟩ := mem_lit.mp h
        exact ⟨.toAddr, hrest⟩
  obtain ⟨col, hcol⟩ := hcol
  refine ⟨col, g', ?_⟩
  rw [hcol, hd', show d' = d.after by rw [hdeq], hg', listHead, List.append_assoc, List.append_assoc]

/-- No list begins inside the text, and none is cut off by its end. -/
def calm : JsString → Bool
  | [] => true
  | c :: text => columns.all (fun col => apart (listHead col ++ js "?") (c :: text)) && calm text

variable {number}

/-- Wherever the text stands and its placeholders are given `args`, it becomes `text'` with `args'`. -/
def Rewrites (number : JsString → JsString) (text : JsString) (args : List Param) (text' : JsString)
    (args' : List Param) : Prop :=
  ∀ (params more : List Param) (index : ℕ) (before rest : JsString), params.drop index = args ++ more →
    replaceFrom number params index (listPattern.pieces before (text ++ rest)) =
      let out := replaceFrom number params (index + args.length) (listPattern.pieces (text.reverse ++ before) rest)
      (text' ++ out.1, args' ++ out.2)

theorem Rewrites.append {a a' b b' : JsString} {x x' y y' : List Param} (ha : Rewrites number a x a' x')
    (hb : Rewrites number b y b' y') : Rewrites number (a ++ b) (x ++ y) (a' ++ b') (x' ++ y') := by
  intro params more index before rest hargs
  have hy : params.drop (index + x.length) = y ++ more := by
    rw [← List.drop_drop, hargs, List.append_assoc, List.drop_left]
  rw [List.append_assoc, ha params (y ++ more) index before (b ++ rest) (by rw [hargs, List.append_assoc]),
    hb params more (index + x.length) _ rest hy]
  simp only [List.reverse_append, List.length_append, Nat.add_assoc, List.append_assoc]

theorem rewrites_nil : Rewrites number [] [] [] [] := fun _ _ _ _ _ _ => rfl

/-- A text without lists keeps its placeholders and their parameters. -/
theorem rewrites_calm {text : JsString} (h : calm text = true) :
    ∀ {args : List Param}, args.length = marks text → Rewrites number text args text args := by
  induction text with
  | nil =>
    intro args hargs
    rw [List.eq_nil_of_length_eq_zero hargs]
    exact rewrites_nil
  | cons c text ih =>
    simp only [calm, Bool.and_eq_true, List.all_eq_true] at h
    obtain ⟨hhead, htail⟩ := h
    intro args hargs params more index before rest hdrop
    have hlist : listAlternative.run ⟨before, c :: (text ++ rest), []⟩ = [] := by
      refine List.eq_nil_iff_forall_not_mem.mpr fun e he => ?_
      obtain ⟨col, hcol⟩ := listAlternative_head he
      exact not_prefix_of_apart (hhead col (mem_columns col)) rest hcol
    by_cases hc : c = 0x3F
    · subst hc
      have hmarks : marks (0x3F :: text) = marks text + 1 := List.count_cons_self
      have hrun : (listPattern.run ⟨before, 0x3F :: (text ++ rest), []⟩).head? =
          some ⟨0x3F :: before, text ++ rest, []⟩ := by
        rw [listPattern, run_alt_right hlist]
        rfl
      rcases args with _ | ⟨p, args⟩
      · rw [hmarks] at hargs
        cases hargs
      have hget : params[index]? = some p := by rw [← List.head?_drop, hdrop]; rfl
      have hnext : params.drop (index + 1) = args ++ more := by rw [← List.drop_drop, hdrop]; rfl
      have hlength : args.length = marks text := by rw [hmarks, List.length_cons] at hargs; omega
      rw [List.cons_append, pieces_hit (at?_of_head hrun) (by simp), replaceFrom]
      simp only [Match.group, List.lookup_nil, Option.getD_none, true_or, if_true]
      have htext : Match.text ⟨⟨before, 0x3F :: (text ++ rest), []⟩, ⟨0x3F :: before, text ++ rest, []⟩⟩ = [0x3F] := by
        rw [Match.text, taken, List.length_cons, Nat.add_sub_cancel_left]
        rfl
      rw [ih htail hlength params more (index + 1) _ rest hnext, hget, htext]
      simp [Nat.add_assoc, Nat.add_comm 1]
    · have hmarks : marks (c :: text) = marks text := List.count_cons_of_ne hc
      have hrun : listPattern.run ⟨before, c :: (text ++ rest), []⟩ = [] := by
        rw [listPattern, run_alt_right hlist]
        exact run_lit_eq_nil fun hpre => hc (List.cons_prefix_cons.mp hpre).1.symm
      rw [List.cons_append, pieces_plain (at?_eq_none hrun), replaceFrom,
        ih htail (hargs.trans hmarks) params more index _ rest hdrop]
      simp

theorem head_column (col : Col) (before rest : JsString) (groups : List (ℕ × JsString)) :
    ((anyOf [lit (colName .source), lit (colName .accountId), lit (colName .toAddr)]).run
      ⟨before, colName col ++ rest, groups⟩).head? = some ⟨(colName col).reverse ++ before, rest, groups⟩ := by
  have hother {a b : Col} (h : apart (colName a) (colName b) = true) :
      (lit (colName a)).run ⟨before, colName b ++ rest, groups⟩ = [] :=
    run_lit_eq_nil (not_prefix_of_apart h rest)
  cases col with
  | source =>
    refine head_alt_left ?_
    rw [run_lit]
    rfl
  | accountId =>
    rw [anyOf_cons, run_alt_right (hother (by decide)), anyOf_cons]
    refine head_alt_left ?_
    rw [run_lit]
    rfl
  | toAddr =>
    rw [anyOf_cons, run_alt_right (hother (by decide)), anyOf_cons, run_alt_right (hother (by decide)), anyOf, run_lit]
    rfl

/-- Where a list stands, the list alternative takes it. -/
theorem head_list (col : Col) (n : ℕ) (before rest : JsString) :
    (listPattern.run ⟨0x20 :: before, (Shape.isIn col (n + 2)).sql ++ rest, []⟩).head? =
      some ⟨(Shape.isIn col (n + 2)).sql.reverse ++ 0x20 :: before, rest,
        [(2, placeholders (n + 2)), (1, colName col)]⟩ := by
  have hsql : (Shape.isIn col (n + 2)).sql ++ rest =
      colName col ++ (js " IN (" ++ (placeholders (n + 2) ++ (js ")" ++ rest))) := by simp [Shape.sql]
  have hlist : placeholders (n + 2) = js "?" ++ (js ",?" ++ (List.replicate n (js ",?")).flatten) := by
    rw [placeholders_succ, List.replicate_succ, List.flatten_cons]
  have hend : ¬ js ",?" <+: js ")" ++ rest := not_prefix_of_apart (by decide) rest
  have hboundary : (wordBoundary.run ⟨0x20 :: before, colName col ++ (js " IN (" ++ (placeholders (n + 2) ++
      (js ")" ++ rest))), []⟩).head? = some ⟨0x20 :: before, colName col ++ (js " IN (" ++ (placeholders (n + 2) ++
      (js ")" ++ rest))), []⟩ := by
    cases col <;> rfl
  have hplaceholders (b : JsString) (groups : List (ℕ × JsString)) :
      ((Regex.cat (lit (js "?")) (plus (lit (js ",?")))).run
        ⟨b, placeholders (n + 2) ++ (js ")" ++ rest), groups⟩).head? =
          some ⟨(placeholders (n + 2)).reverse ++ b, js ")" ++ rest, groups⟩ := by
    rw [hlist, List.append_assoc, List.append_assoc]
    refine head_cat (by rw [run_lit]; rfl) (head_cat (by rw [run_lit]; rfl) ?_)
    rw [head_star_lit (by decide) hend]
    simp
  rw [hsql]
  refine head_alt_left (head_cat hboundary (head_cat (head_group (head_column col _ _ _)) ?_))
  refine head_cat (by rw [run_lit]; rfl) (head_cat (head_group (hplaceholders _ _)) ?_)
  rw [run_lit]
  simp [taken, Shape.sql]

theorem splitOn_placeholders (n : ℕ) : (placeholders (n + 1)).splitOn comma = List.replicate (n + 1) (js "?") := by
  refine List.splitOn_intercalate comma (fun l hl => ?_) (by simp)
  rw [List.eq_of_mem_replicate hl]
  decide

/-- A list becomes one parameter. -/
theorem rewrites_list (col : Col) (n : ℕ) {args : List Param} (hargs : args.length = n + 2) :
    Rewrites number (js " " ++ (Shape.isIn col (n + 2)).sql) args (js " " ++ (Shape.isInJson col).sql)
      [.text (Json.bracket (args.map (stringify number)))] := by
  intro params more index before rest hdrop
  have hspace : listPattern.run ⟨before, 0x20 :: ((Shape.isIn col (n + 2)).sql ++ rest), []⟩ = [] := by
    have hlist : listAlternative.run ⟨before, 0x20 :: ((Shape.isIn col (n + 2)).sql ++ rest), []⟩ = [] := by
      refine List.eq_nil_iff_forall_not_mem.mpr fun e he => ?_
      obtain ⟨col', hcol'⟩ := listAlternative_head he
      have happart : ∀ col ∈ columns, apart (listHead col ++ js "?") [0x20] = true := by decide
      exact not_prefix_of_apart (happart col' (mem_columns col')) _ hcol'
    rw [listPattern, run_alt_right hlist]
    exact run_lit_eq_nil (not_prefix_of_apart (a := js "?") (b := [0x20]) (by decide) _)
  have hshort : rest.length < ((Shape.isIn col (n + 2)).sql ++ rest).length := by
    obtain ⟨c, list, -, hsql⟩ := isIn_sql col (n + 2)
    rw [hsql]
    simp
    omega
  have hcolumn : colName col ≠ [] := by cases col <;> decide
  have hlist : placeholders (n + 2) ≠ [] := by rw [placeholders_succ]; exact List.cons_ne_nil _ _
  have htext : js " " ++ (Shape.isIn col (n + 2)).sql ++ rest = 0x20 :: ((Shape.isIn col (n + 2)).sql ++ rest) := rfl
  rw [htext, pieces_plain (at?_eq_none hspace), replaceFrom, pieces_hit (at?_of_head (head_list col n before rest)) hshort,
    replaceFrom]
  have htwo : Match.group ⟨⟨0x20 :: before, (Shape.isIn col (n + 2)).sql ++ rest, []⟩,
      ⟨(Shape.isIn col (n + 2)).sql.reverse ++ 0x20 :: before, rest,
        [(2, placeholders (n + 2)), (1, colName col)]⟩⟩ 2 = some (placeholders (n + 2)) := rfl
  have hone : Match.group ⟨⟨0x20 :: before, (Shape.isIn col (n + 2)).sql ++ rest, []⟩,
      ⟨(Shape.isIn col (n + 2)).sql.reverse ++ 0x20 :: before, rest,
        [(2, placeholders (n + 2)), (1, colName col)]⟩⟩ 1 = some (colName col) := rfl
  have htake : (params.drop index).take (n + 2) = args := by rw [hdrop, ← hargs, List.take_left]
  simp only [hone, htwo, Option.getD_some, hcolumn, hlist, or_self, if_false, splitOn_placeholders, List.length_replicate,
    htake, hargs]
  simp [Shape.sql, js]

/-! ### Clauses -/

/-- What the pass makes of a clause. -/
def boundedClause (number : JsString → JsString) : Pushed → Pushed
  | (.isIn col _, args) => (.isInJson col, [.text (Json.bracket (args.map (stringify number)))])
  | p => p

/-- A clause as the filters push it. -/
structure Fits (p : Pushed) : Prop where
  written : p.1.Written
  arity : p.2.length = p.1.arity
  texts : ∀ col n, p.1 = .isIn col n → ∃ values : List JsString, p.2 = values.map .text

theorem fixed_calm : ∀ s ∈ fixedShapes, calm s.sql = true ∧ calm (js " AND " ++ s.sql) = true ∧
    marks s.sql = s.arity := by decide +kernel

theorem boundedClause_fixed {p : Pushed} (h : p.1 ∈ fixedShapes) : boundedClause number p = p := by
  obtain ⟨s, args⟩ := p
  cases s with
  | isIn col n =>
    have : ∀ s ∈ fixedShapes, ∀ col n, s ≠ .isIn col n := by
      intro s hs col n heq
      subst heq
      simp [fixedShapes] at hs
    exact absurd rfl (this _ h col n)
  | _ => rfl

theorem marks_and (text : JsString) : marks (js " AND " ++ text) = marks text := by
  rw [marks, List.count_append, show (js " AND ").count 0x3F = 0 by decide, Nat.zero_add, marks]

theorem marks_sql {s : Shape} (h : s.Written) : marks s.sql = s.arity := by
  rcases h with h | ⟨col, n, rfl⟩
  · exact (fixed_calm s h).2.2
  · have hcol : (colName col).count 0x3F = 0 := by cases col <;> decide
    have hhead : (js " IN (").count 0x3F = 0 := by decide
    have hend : (js ")").count 0x3F = 0 := by decide
    have hlist := marks_placeholders (n + 2)
    rw [marks] at hlist
    rw [Shape.sql, marks, List.count_append, List.count_append, List.count_append, hcol, hhead, hend, hlist]
    simp [Shape.arity]

theorem boundedClause_fits {p : Pushed} (hp : Fits p) : Fits (boundedClause number p) := by
  rcases hp.written with hfixed | ⟨col, n, h⟩
  · rw [boundedClause_fixed hfixed]
    exact hp
  · obtain ⟨s, args⟩ := p
    cases h
    refine ⟨.inl ?_, rfl, fun _ _ h => by cases h⟩
    have : ∀ col ∈ columns, Shape.isInJson col ∈ fixedShapes := by decide
    exact this col (mem_columns col)

/-- The rewritten clause holds of the same rows. -/
theorem boundedClause_holds {p : Pushed} (hp : Fits p) (e : Engine) (t : Tables) (row : EmailRow) :
    (boundedClause number p).1.holds e t row (boundedClause number p).2 = p.1.holds e t row p.2 := by
  obtain ⟨s, args⟩ := p
  cases s with
  | isIn col n =>
    obtain ⟨values, hvalues⟩ := hp.texts col n rfl
    replace hvalues : args = values.map .text := hvalues
    have htexts : args.map (stringify number) = values.map Json.quote := by
      rw [hvalues, List.map_map]
      rfl
    have hstrings : (values.map Json.Value.string).filterMap textOf = values := by
      rw [List.filterMap_map]
      exact List.filterMap_some
    simp only [boundedClause, Shape.holds, Param.jsonEach, htexts, Json.parse_strings, hstrings]
    rw [hvalues, List.any_map]
    rfl
  | _ => rfl

theorem rewrites_clause {p : Pushed} (hp : Fits p) : Rewrites number (js " AND " ++ p.1.sql) p.2
    (js " AND " ++ (boundedClause number p).1.sql) (boundedClause number p).2 := by
  rcases hp.written with hfixed | ⟨col, n, h⟩
  · rw [boundedClause_fixed hfixed]
    refine rewrites_calm (fixed_calm _ hfixed).2.1 ?_
    rw [marks_and, marks_sql hp.written, hp.arity]
  · obtain ⟨s, args⟩ := p
    replace h : s = .isIn col (n + 2) := h
    subst h
    have hand : Rewrites number (js " AND") [] (js " AND") [] := rewrites_calm (by decide) (by decide)
    exact hand.append (rewrites_list col n hp.arity)

/-! ### Whole filters -/

/-- Clauses joined by `AND`. -/
def plain (ps : List Pushed) : EmailFilter := ⟨conjunction (ps.map (·.1)), ps.flatMap (·.2)⟩

/-- A filter in parentheses with a further clause. -/
def guarded (ps : List Pushed) (extra : Pushed) : EmailFilter :=
  ⟨js "(" ++ (plain ps).where ++ js ") AND " ++ extra.1.sql, (plain ps).params ++ extra.2⟩

theorem plain_where (p : Pushed) (ps : List Pushed) :
    (plain (p :: ps)).where = p.1.sql ++ ps.flatMap fun p => js " AND " ++ p.1.sql := by
  simp only [plain, List.map_cons, conjunction, Json.intercalate_cons, List.flatMap_map]

theorem rewrites_clauses {ps : List Pushed} (h : ∀ p ∈ ps, Fits p) :
    Rewrites number (ps.flatMap fun p => js " AND " ++ p.1.sql) (ps.flatMap (·.2))
      ((ps.map (boundedClause number)).flatMap fun p => js " AND " ++ p.1.sql)
      ((ps.map (boundedClause number)).flatMap (·.2)) := by
  induction ps with
  | nil => exact rewrites_nil
  | cons p ps ih =>
    exact (rewrites_clause (h p List.mem_cons_self)).append (ih fun q hq => h q (List.mem_cons_of_mem _ hq))

theorem rewrites_plain {p : Pushed} {ps : List Pushed} (hfixed : p.1 ∈ fixedShapes) (hp : Fits p)
    (hps : ∀ p ∈ ps, Fits p) : Rewrites number (plain (p :: ps)).where (plain (p :: ps)).params
      (plain ((p :: ps).map (boundedClause number))).where (plain ((p :: ps).map (boundedClause number))).params := by
  rw [List.map_cons, boundedClause_fixed hfixed, plain_where, plain_where]
  have hfirst : Rewrites number p.1.sql p.2 p.1.sql p.2 :=
    rewrites_calm (fixed_calm _ hfixed).1 (by rw [marks_sql hp.written, hp.arity])
  exact hfirst.append (rewrites_clauses hps)

/-- The pass over a whole filter. -/
theorem boundedEmailFilter_eq {f : EmailFilter} {w : JsString} {args : List Param}
    (h : Rewrites number f.where f.params w args) : boundedEmailFilter number f = ⟨w, args⟩ := by
  have hend (before : JsString) : listPattern.pieces before [] = [] := by
    refine pieces_nil (at?_eq_none ?_)
    have hlist : listAlternative.run ⟨before, [], []⟩ = [] := by
      refine List.eq_nil_iff_forall_not_mem.mpr fun e he => ?_
      obtain ⟨col, hcol⟩ := listAlternative_head he
      simp [listHead] at hcol
      exact absurd hcol.2 (by decide)
    rw [listPattern, run_alt_right hlist]
    rfl
  have hrun := h f.params [] 0 [] [] (by simp)
  rw [List.append_nil, hend] at hrun
  simp only [boundedEmailFilter, hrun]
  simp [replaceFrom]

theorem bounded_plain {p : Pushed} {ps : List Pushed} (hfixed : p.1 ∈ fixedShapes) (hp : Fits p)
    (hps : ∀ p ∈ ps, Fits p) :
    boundedEmailFilter number (plain (p :: ps)) = plain ((p :: ps).map (boundedClause number)) :=
  boundedEmailFilter_eq (rewrites_plain hfixed hp hps)

theorem bounded_guarded {p extra : Pushed} {ps : List Pushed} (hfixed : p.1 ∈ fixedShapes) (hp : Fits p)
    (hps : ∀ p ∈ ps, Fits p) (hextra : Fits extra) : boundedEmailFilter number (guarded (p :: ps) extra) =
      guarded ((p :: ps).map (boundedClause number)) (boundedClause number extra) := by
  refine boundedEmailFilter_eq ?_
  have hopen : Rewrites number (js "(") [] (js "(") [] := rewrites_calm (by decide) (by decide)
  have hclose : Rewrites number (js ")") [] (js ")") [] := rewrites_calm (by decide) (by decide)
  have h := ((hopen.append (rewrites_plain hfixed hp hps)).append hclose).append (rewrites_clause hextra)
  have hsplit (a b : JsString) : js "(" ++ a ++ js ")" ++ (js " AND " ++ b) = js "(" ++ a ++ js ") AND " ++ b := by
    simp [js]
  rw [hsplit, hsplit] at h
  simp only [List.nil_append, List.append_nil] at h
  exact h

/-! ### What the filters select -/

variable {e : Engine} {t : Tables} {row : EmailRow}

theorem holdsAll_fits {ps : List Pushed} (h : ∀ p ∈ ps, Fits p) :
    holdsAll e t row (ps.map (·.1)) (ps.flatMap (·.2)) = some (ps.all fun p => p.1.holds e t row p.2) := by
  induction ps with
  | nil => rfl
  | cons p ps ih =>
    have hle : p.1.arity ≤ (p.2 ++ ps.flatMap (·.2)).length := by
      rw [List.length_append, (h p List.mem_cons_self).arity]
      exact Nat.le_add_right _ _
    rw [List.map_cons, List.flatMap_cons, holdsAll, if_pos hle, ← (h p List.mem_cons_self).arity, List.drop_left,
      List.take_left, ih fun q hq => h q (List.mem_cons_of_mem _ hq)]
    rfl

theorem length_clauses (ss : List Shape) (s : Shape) : ss.length ≤ (conjunction (s :: ss)).length := by
  have hflat : ss.length ≤ (ss.flatMap fun s => js " AND " ++ s.sql).length := by
    induction ss with
    | nil => exact Nat.le_refl 0
    | cons s ss ih =>
      have hand : (js " AND ").length = 5 := by decide
      rw [List.flatMap_cons, List.length_append, List.length_append, hand, List.length_cons]
      omega
  rw [conjunction, List.map_cons, Json.intercalate_cons, List.length_append, List.flatMap_map]
  omega

theorem written_map {ps : List Pushed} (h : ∀ p ∈ ps, Fits p) : ∀ s ∈ ps.map (·.1), s.Written := by
  intro s hs
  obtain ⟨p, hp, rfl⟩ := List.mem_map.mp hs
  exact (h p hp).written

theorem selected_plain {p : Pushed} {ps : List Pushed} (h : ∀ q ∈ p :: ps, Fits q) :
    selected e t (plain (p :: ps)) row = some ((p :: ps).all fun p => p.1.holds e t row p.2) := by
  have hread := @readConditions_conjunction [] (by decide) (ps.map (·.1)) _ ((plain (p :: ps)).where.length + 1) (h p List.mem_cons_self).written (written_map fun q hq => h q (List.mem_cons_of_mem _ hq)) (Nat.lt_succ_of_le (length_clauses (ps.map (·.1)) p.1))
  rw [List.append_nil] at hread
  rw [selected, show (plain (p :: ps)).where = conjunction (p.1 :: ps.map (·.1)) from rfl] at *
  rw [hread]
  exact holdsAll_fits h

theorem open_apart : ∀ a ∈ [Shape.always, .nothing], (∀ s ∈ fixedShapes, apart s.sql (js "(" ++ a.sql) = true) ∧
    ∀ col ∈ columns, apart (listHead col) (js "(" ++ a.sql) = true := by decide +kernel

/-- What begins with a parenthesis and the first clause is no conjunct of its own. -/
theorem readShape_open {s : Shape} (hs : s ∈ [Shape.always, .nothing]) (rest : JsString) :
    readShape (js "(" ++ s.sql ++ rest) = none := by
  obtain ⟨hfixed, hlist⟩ := open_apart s hs
  rw [readShape, Option.map_eq_none_iff, List.find?_eq_none]
  intro x hx hp
  rw [List.isPrefixOf_iff_prefix] at hp
  rcases mem_readers.mp hx with hx | ⟨col, rfl⟩
  · exact not_prefix_of_apart (hfixed x hx) rest hp
  · obtain ⟨c, list, -, hsql⟩ := isIn_sql col (listLength col (js "(" ++ s.sql ++ rest))
    rw [hsql] at hp
    exact apart_append (hlist col (mem_columns col)) _ _ hp

theorem selected_guarded {p extra : Pushed} {ps : List Pushed} (hfirst : p.1 ∈ [Shape.always, .nothing])
    (h : ∀ q ∈ p :: ps, Fits q) (hextra : Fits extra) : selected e t (guarded (p :: ps) extra) row =
      some (((p :: ps).all fun p => p.1.holds e t row p.2) && extra.1.holds e t row extra.2) := by
  have hwhere : (guarded (p :: ps) extra).where = js "(" ++ p.1.sql ++
      ((ps.flatMap fun p => js " AND " ++ p.1.sql) ++ (js ") AND " ++ extra.1.sql)) := by
    rw [guarded, plain_where]
    simp only [List.append_assoc]
  have hinner : (guarded (p :: ps) extra).where =
      0x28 :: (conjunction ((p :: ps).map (·.1)) ++ (0x29 :: (js " AND " ++ (extra.1.sql ++ [])))) := by
    simp [guarded, plain, js]
  have hlength : ps.length + 2 ≤ (guarded (p :: ps) extra).where.length := by
    have := length_clauses (ps.map (·.1)) p.1
    rw [List.length_map] at this
    rw [hinner, List.length_cons, List.length_append, List.length_cons]
    simp only [List.map_cons]
    omega
  obtain ⟨n, hn⟩ : ∃ n, (guarded (p :: ps) extra).where.length = n + 1 := ⟨_, (Nat.succ_pred_eq_of_pos (by omega)).symm⟩
  have hconj := @readConditions_conjunction (0x29 :: (js " AND " ++ (extra.1.sql ++ []))) (fun h => absurd (List.cons_prefix_cons.mp h).1 (by decide)) (ps.map (·.1)) _ (n + 1) (h p List.mem_cons_self).written (written_map fun q hq => h q (List.mem_cons_of_mem _ hq)) (by rw [List.length_map]; omega)
  have hlast : readConditions (n + 1) (extra.1.sql ++ []) = some ([extra.1], []) := by
    rw [readConditions_step (readShape_sql hextra.written [])]
    rfl
  have hread : readConditions (n + 2) (guarded (p :: ps) extra).where =
      some ((p :: ps).map (·.1) ++ [extra.1], []) := by
    have hnone := readShape_open hfirst ((ps.flatMap fun p => js " AND " ++ p.1.sql) ++ (js ") AND " ++ extra.1.sql))
    rw [← hwhere, hinner] at hnone
    rw [hinner]
    exact readConditions_open hnone hconj hlast
  rw [selected, hn, hread]
  have hall : ∀ q ∈ p :: ps ++ [extra], Fits q := by
    intro q hq
    rcases List.mem_append.mp hq with hq | hq
    · exact h q hq
    · rw [List.mem_singleton.mp hq]
      exact hextra
  have hholds := @holdsAll_fits e t row _ hall
  rw [List.map_append, List.flatMap_append, List.all_append] at hholds
  simpa [guarded, plain] using hholds

/-! ### The filters of a request -/

theorem isIn_not_fixed {col : Col} {n : ℕ} : Shape.isIn col n ∉ fixedShapes := by simp [fixedShapes]

theorem fits_fixed {s : Shape} {args : List Param} (hs : s ∈ fixedShapes) (h : args.length = s.arity) :
    Fits (s, args) := by
  refine ⟨.inl hs, h, fun col n heq => ?_⟩
  replace heq : s = .isIn col n := heq
  exact absurd (heq ▸ hs) isIn_not_fixed

theorem fits_inClause {col : Col} {val : JsString} : ∀ p ∈ inClause col val, Fits p := by
  intro p hp
  unfold inClause at hp
  rcases hparts : parts val with _ | ⟨a, _ | ⟨b, ps⟩⟩
  · rw [hparts] at hp
    cases hp
  · rw [hparts] at hp
    have : ∀ col ∈ columns, Shape.eq col ∈ fixedShapes := by decide
    rw [List.mem_singleton.mp hp]
    exact fits_fixed (this col (mem_columns col)) rfl
  · rw [hparts] at hp
    rw [List.mem_singleton.mp hp]
    exact ⟨.inr ⟨col, ps.length, rfl⟩, by rw [List.length_map]; rfl, fun _ _ _ => ⟨a :: b :: ps, rfl⟩⟩

theorem fits_given {v : Option JsString} {push : JsString → List Pushed} (h : ∀ v, ∀ p ∈ push v, Fits p) :
    ∀ p ∈ given v push, Fits p := by
  intro p hp
  unfold given at hp
  split at hp
  · exact h _ p hp
  · cases hp

theorem fits_list (col : Col) (v : Option JsString) : ∀ p ∈ given v (inClause col), Fits p :=
  fits_given fun _ => fits_inClause

theorem fits_flag {v : Option JsString} {shape : Bool → Shape} (h : ∀ f, shape f ∈ fixedShapes ∧ (shape f).arity = 0) :
    ∀ p ∈ flag v shape, Fits p := by
  intro p hp
  unfold flag at hp
  split at hp
  · rw [List.mem_singleton.mp hp]
    exact fits_fixed (h true).1 (h true).2.symm
  · split at hp
    · rw [List.mem_singleton.mp hp]
      exact fits_fixed (h false).1 (h false).2.symm
    · cases hp

theorem fits_pushed {q : Query} {clauses : List Pushed} (h : pushed q = some clauses) : ∀ p ∈ clauses, Fits p := by
  have hsingle {s : Shape} {args : List Param} (hs : s ∈ fixedShapes) (hargs : args.length = s.arity) :
      ∀ p ∈ [(s, args)], Fits p := by
    intro p hp
    rw [List.mem_singleton.mp hp]
    exact fits_fixed hs hargs
  have happend {a b : List Pushed} (ha : ∀ p ∈ a, Fits p) (hb : ∀ p ∈ b, Fits p) : ∀ p ∈ a ++ b, Fits p :=
    List.forall_mem_append.mpr ⟨ha, hb⟩
  have hlists := happend (happend (fits_list .source q.source) (fits_list .accountId q.accountId))
    (fits_list .toAddr q.toAddr)
  have hflags := happend (happend (@fits_flag q.unread (fun f => .isRead !f) (by decide))
    (@fits_flag q.starred .isStarred (by decide)))
    (@fits_flag q.hasAttachments .hasAttachments (by decide))
  have hsince := @fits_given q.since (fun v => [(.since, [.number v])])
    fun v => hsingle (by decide) rfl
  have huntil := @fits_given q.until' (fun v => [(.until', [.number v])])
    fun v => hsingle (by decide) rfl
  have htext := @fits_given q.q (fun v => [(.text, [.text (js "%" ++ v ++ js "%"),
      .text (js "%" ++ v ++ js "%"), .text (js "%" ++ v ++ js "%")])]) fun v => hsingle (by decide) rfl
  have hrest := happend (happend (happend hflags hsince) huntil) htext
  unfold pushed at h
  simp only at h
  split at h
  · obtain ⟨d, -, rfl⟩ := Option.map_eq_some_iff.mp h
    have hdomain : ∀ p ∈ [(Shape.cfRouting, []), (.toAddrLike, [.text (js "%@" ++ d)])], Fits p :=
      happend (a := [_]) (hsingle (by decide) rfl) (hsingle (by decide) rfl)
    exact happend (happend hlists hdomain) hrest
  · cases h
    exact happend hlists hrest

/-- The filter of a query is a conjunction that begins with `1=1`, or `1=0`. -/
theorem buildEmailFilters_plain (q : Query) : ∃ p ps, buildEmailFilters q = plain (p :: ps) ∧
    p.1 ∈ [Shape.always, .nothing] ∧ Fits p ∧ ∀ p ∈ ps, Fits p := by
  unfold buildEmailFilters
  split
  · exact ⟨(.nothing, []), [], rfl, by decide, fits_fixed (by decide) rfl, List.forall_mem_nil _⟩
  · rename_i clauses h
    exact ⟨(.always, []), clauses, rfl, by decide, fits_fixed (by decide) rfl, fits_pushed h⟩

/-- The forms a filter of a request takes. -/
theorem resolve_forms {lower : JsString → JsString} {c : Context} {q : Query} {f : EmailFilter}
    (h : resolveScopedEmailFilter lower c q = some f) : f = plain [(.never, [])] ∨ (∃ q, f = buildEmailFilters q) ∨
      ∃ extra, Fits extra ∧ f = ⟨js "(" ++ (buildEmailFilters q).where ++ js ") AND " ++ extra.1.sql,
        (buildEmailFilters q).params ++ extra.2⟩ := by
  unfold resolveScopedEmailFilter at h
  split at h
  · cases h
    split_ifs
    · exact .inl rfl
    · exact .inr (.inl ⟨q, rfl⟩)
    · split
      · exact .inl rfl
      · rename_i n _
        exact .inr (.inr ⟨(.owned, [.id n, .id n]), fits_fixed (by decide) rfl, rfl⟩)
  · rename_i address _ _
    cases h
    split_ifs
    · exact .inl rfl
    · exact .inl rfl
    · exact .inr (.inr ⟨(.toAddrIs, [.text (lower address)]), fits_fixed (by decide) rfl, rfl⟩)
  · cases h
    exact .inl rfl
  · split at h
    · cases h
      exact .inl rfl
    · obtain ⟨q', -, rfl⟩ := Option.map_eq_some_iff.mp h
      exact .inr (.inl ⟨q', rfl⟩)

/-! ### Texts and clauses -/

/-- Every pushed clause holds of a row. -/
def meets (e : Engine) (t : Tables) (row : EmailRow) (ps : List Pushed) : Bool := ps.all fun p => p.1.holds e t row p.2

theorem meets_append (a b : List Pushed) : meets e t row (a ++ b) = (meets e t row a && meets e t row b) :=
  List.all_append

theorem meets_inClause (col : Col) (val : JsString) :
    meets e t row (inClause col val) = selects e (Unified.inClause col val) row := by
  unfold inClause Unified.inClause
  rcases parts val with _ | ⟨a, _ | ⟨b, ps⟩⟩
  · rfl
  · rfl
  · simp only [meets, selects, List.all_cons, List.all_nil, Bool.and_true, Shape.holds, Clause.holds, List.any_map]
    rfl

theorem meets_given {v : Option JsString} {push : JsString → List Pushed} {clauses : JsString → List Clause}
    (h : ∀ v, meets e t row (push v) = selects e (clauses v) row) :
    meets e t row (given v push) = selects e (Unified.given v clauses) row := by
  rcases v with _ | _ | ⟨c, cs⟩
  · rfl
  · rfl
  · exact h (c :: cs)

theorem meets_flag {v : Option JsString} {shape : Bool → Shape} {clause : Bool → Clause}
    (h : ∀ f, (shape f).holds e t row [] = (clause f).holds e row) :
    meets e t row (flag v shape) = selects e (flagClause v clause) row := by
  unfold flag flagClause
  split_ifs
  · simp only [meets, selects, List.all_cons, List.all_nil, h]
  · simp only [meets, selects, List.all_cons, List.all_nil, h]
  · rfl

/-- The text of a query's filter selects what its clauses select. -/
theorem selected_buildEmailFilters (q : Query) :
    selected e t (buildEmailFilters q) row = some (selects e (Unified.buildEmailFilters q) row) := by
  have hlist (col : Col) (v : Option JsString) :
      meets e t row (given v (inClause col)) = selects e (Unified.given v (Unified.inClause col)) row :=
    meets_given (meets_inClause col)
  have hread : meets e t row (flag q.unread fun f => .isRead !f) =
      selects e (flagClause q.unread fun f => .isRead !f) row := meets_flag fun f => rfl
  have hstar : meets e t row (flag q.starred .isStarred) = selects e (flagClause q.starred .isStarred) row :=
    meets_flag fun f => by cases f <;> rfl
  have hattached : meets e t row (flag q.hasAttachments .hasAttachments) =
      selects e (flagClause q.hasAttachments .hasAttachments) row := meets_flag fun f => rfl
  have hsince : meets e t row (given q.since fun v => [(.since, [.number v])]) =
      selects e (Unified.given q.since fun v => [.since v]) row := meets_given fun v => rfl
  have huntil : meets e t row (given q.until' fun v => [(.until', [.number v])]) =
      selects e (Unified.given q.until' fun v => [.until' v]) row := meets_given fun v => rfl
  have htext : meets e t row (given q.q fun v => [(.text, [.text (js "%" ++ v ++ js "%"),
      .text (js "%" ++ v ++ js "%"), .text (js "%" ++ v ++ js "%")])]) =
      selects e (Unified.given q.q fun v => [.text (js "%" ++ v ++ js "%")]) row := meets_given fun v => rfl
  have halways (clauses : List Pushed) : ((.always, []) :: clauses).all (fun p => p.1.holds e t row p.2) =
      meets e t row clauses := rfl
  rcases hp : pushed q with _ | clauses
  · have hnothing : buildEmailFilters q = plain [(.nothing, [])] := by rw [buildEmailFilters, hp]; rfl
    have hfits : ∀ p ∈ [((Shape.nothing, []) : Pushed)], Fits p := fun p hp => by
      rw [List.mem_singleton.mp hp]
      exact fits_fixed (by decide) rfl
    rw [hnothing, selected_plain hfits]
    unfold pushed at hp
    simp only at hp
    split at hp
    · rename_i c cs hdomain
      have hnone : checkDomain (c :: cs) = none := Option.map_eq_none_iff.mp hp
      have hnever : Unified.given q.domain domainClauses = [.never] := by
        rw [hdomain]
        simp only [Unified.given, domainClauses, hnone]
      simp only [Unified.buildEmailFilters, selects_append, hnever]
      simp [selects, Clause.holds, Shape.holds]
    · cases hp
  · have hplain : buildEmailFilters q = plain ((.always, []) :: clauses) := by rw [buildEmailFilters, hp]; rfl
    have hfits := List.forall_mem_cons.mpr ⟨@fits_fixed .always [] (by decide) rfl, fits_pushed hp⟩
    rw [hplain, selected_plain hfits, halways]
    unfold pushed at hp
    simp only at hp
    split at hp
    · rename_i c cs hdomain
      obtain ⟨d, hd, rfl⟩ := Option.map_eq_some_iff.mp hp
      have hdomain' : meets e t row [(.cfRouting, []), (.toAddrLike, [.text (js "%@" ++ d)])] =
          selects e (Unified.given q.domain domainClauses) row := by
        rw [hdomain]
        simp only [Unified.given, domainClauses, hd]
        rfl
      simp only [meets_append, hlist, hdomain', hread, hstar, hattached, hsince, huntil, htext]
      simp only [Unified.buildEmailFilters, selects_append, Bool.and_assoc]
    · rename_i hnone
      cases hp
      have hdomain : Unified.given q.domain domainClauses = [] := by
        rcases hq : q.domain with _ | _ | ⟨c, cs⟩
        · rfl
        · rfl
        · exact absurd hq (hnone c cs)
      simp only [meets_append, hlist, hread, hstar, hattached, hsince, huntil, htext]
      simp only [Unified.buildEmailFilters, hdomain, selects_append, Bool.and_assoc]
      simp [selects]

/-! ### The rewrite keeps the meaning -/

/-- The rewritten filter has one value for each placeholder, as the filter has, and selects the same rows. -/
structure Same (number : JsString → JsString) (f : EmailFilter) : Prop where
  matched : marks f.where = f.params.length
  rewritten : marks (boundedEmailFilter number f).where = (boundedEmailFilter number f).params.length
  selects : ∀ (e : Engine) (t : Tables) (row : EmailRow), ∃ b, selected e t f row = some b ∧
    selected e t (boundedEmailFilter number f) row = some b

theorem marks_plain (p : Pushed) (ps : List Pushed) (h : ∀ q ∈ p :: ps, Fits q) :
    marks (plain (p :: ps)).where = (plain (p :: ps)).params.length := by
  have hmore : marks (ps.flatMap fun p => js " AND " ++ p.1.sql) = (ps.flatMap (·.2)).length := by
    replace h : ∀ q ∈ ps, Fits q := fun q hq => h q (List.mem_cons_of_mem _ hq)
    induction ps with
    | nil => rfl
    | cons q ps ih =>
      have hq := h q List.mem_cons_self
      have ih := ih fun r hr => h r (List.mem_cons_of_mem _ hr)
      have hfirst := marks_and q.1.sql
      rw [marks_sql hq.written, ← hq.arity] at hfirst
      rw [marks] at ih hfirst ⊢
      rw [List.flatMap_cons, List.count_append, hfirst, ih, List.flatMap_cons, List.length_append]
  have hp := h p List.mem_cons_self
  have hfirst := marks_sql hp.written
  rw [← hp.arity, marks] at hfirst
  rw [marks] at hmore
  rw [plain_where, marks, List.count_append, hfirst, hmore]
  exact List.length_append.symm

theorem marks_guarded (p extra : Pushed) (ps : List Pushed) (h : ∀ q ∈ p :: ps, Fits q) (hextra : Fits extra) :
    marks (guarded (p :: ps) extra).where = (guarded (p :: ps) extra).params.length := by
  have hplain := marks_plain p ps h
  have hlast := marks_sql hextra.written
  rw [← hextra.arity, marks] at hlast
  rw [marks] at hplain
  have hopen : (js "(").count 0x3F = 0 := by decide
  have hclose : (js ") AND ").count 0x3F = 0 := by decide
  rw [guarded, marks, List.count_append, List.count_append, List.count_append, hopen, hclose, hplain, hlast,
    List.length_append]
  omega

theorem first_fixed {s : Shape} (h : s ∈ [Shape.always, .nothing]) : s ∈ fixedShapes := by
  have : ∀ s ∈ [Shape.always, .nothing], s ∈ fixedShapes := by decide
  exact this s h

theorem fits_bounded {ps : List Pushed} (h : ∀ p ∈ ps, Fits p) : ∀ p ∈ ps.map (boundedClause number), Fits p := by
  intro p hp
  obtain ⟨q, hq, rfl⟩ := List.mem_map.mp hp
  exact boundedClause_fits (h q hq)

theorem all_bounded {ps : List Pushed} (h : ∀ p ∈ ps, Fits p) :
    ((ps.map (boundedClause number)).all fun p => p.1.holds e t row p.2) = ps.all fun p => p.1.holds e t row p.2 := by
  induction ps with
  | nil => rfl
  | cons p ps ih =>
    rw [List.map_cons, List.all_cons, List.all_cons, boundedClause_holds (h p List.mem_cons_self),
      ih fun q hq => h q (List.mem_cons_of_mem _ hq)]

theorem same_plain {p : Pushed} {ps : List Pushed} (hfixed : p.1 ∈ fixedShapes) (h : ∀ q ∈ p :: ps, Fits q) :
    Same number (plain (p :: ps)) := by
  have hbounded := @bounded_plain number _ _ hfixed (h p List.mem_cons_self)
    fun q hq => h q (List.mem_cons_of_mem _ hq)
  have hfits := @fits_bounded number _ h
  rw [List.map_cons] at hbounded hfits
  refine ⟨marks_plain p ps h, by rw [hbounded]; exact marks_plain _ _ hfits, fun e t row => ⟨_, selected_plain h, ?_⟩⟩
  rw [hbounded, selected_plain hfits, ← List.map_cons, all_bounded h]

theorem same_guarded {p extra : Pushed} {ps : List Pushed} (hfirst : p.1 ∈ [Shape.always, .nothing])
    (h : ∀ q ∈ p :: ps, Fits q) (hextra : Fits extra) : Same number (guarded (p :: ps) extra) := by
  have hbounded := @bounded_guarded number _ _ _ (first_fixed hfirst) (h p List.mem_cons_self) (fun q hq => h q (List.mem_cons_of_mem _ hq)) hextra
  have hfits := @fits_bounded number _ h
  have hfirst' : (boundedClause number p).1 ∈ [Shape.always, .nothing] := by
    rw [boundedClause_fixed (first_fixed hfirst)]
    exact hfirst
  have hextra' := @boundedClause_fits number _ hextra
  rw [List.map_cons] at hbounded hfits
  refine ⟨marks_guarded p extra ps h hextra, by rw [hbounded]; exact marks_guarded _ _ _ hfits hextra',
    fun e t row => ⟨_, selected_guarded hfirst h hextra, ?_⟩⟩
  rw [hbounded, selected_guarded hfirst' hfits hextra', ← List.map_cons, all_bounded h, boundedClause_holds hextra]

theorem same_build (q : Query) : Same number (buildEmailFilters q) := by
  obtain ⟨p, ps, hf, hfirst, hp, hps⟩ := buildEmailFilters_plain q
  rw [hf]
  exact same_plain (first_fixed hfirst) (List.forall_mem_cons.mpr ⟨hp, hps⟩)

end OneMail.SqlFilter
