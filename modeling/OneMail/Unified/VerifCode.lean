import OneMail.Js.Pattern

/-! Verification codes (`verifcode.ts`).

    `extractVerifCode` tries three expressions: two groups of three digits near a keyword, four to eight
    digits near a keyword, and any six digits. The first two may skip a date between the keyword and the
    code. A code is `Intact` where it stands in the text with no digit on either side of it. -/

namespace OneMail.VerifCode
open JsString Regex Pattern

/-! ### The expressions -/

def keywords : List JsString :=
  [js "code", js "验证码", js "verification", js "otp", js "pin", js "安全码", js "动态码", js "校验码", js "授权码",
    js "代码", js "口令", js "passcode"]

/-- `KW_PREFIX`, under the flag `i` -/
def kwPrefix : Regex UInt16 := anyOf (keywords.map caseless)

/-- A dash, a slash or a point. -/
def isDateMark (c : UInt16) : Bool := c = 0x2D || c = 0x2F || c = 0x2E

/-- `[\s-]` -/
def isSplitMark (c : UInt16) : Bool := isSpace c || c = 0x2D

/-- `\d{1,2}` -/
def twoDigits : Regex UInt16 := count 1 2 digit

/-- `DATE_PATTERN` -/
def datePattern : Regex UInt16 := .alt
  (inOrder [times 4 digit, .one isDateMark, twoDigits, opt (.cat (.one isDateMark) twoDigits),
    opt (inOrder [.star (.one isSpace), twoDigits, lit (js ":"), twoDigits, opt (.cat (lit (js ":")) twoDigits)])])
  (inOrder [times 4 digit, lit (js "年"), twoDigits, lit (js "月"), opt (.cat twoDigits (lit (js "日")))])

/-- `[^\d]{0,24}` -/
def gap : Regex UInt16 := .upTo 24 (.one fun c => !isDigit c)

/-- `OPTIONAL_DATE_PREFIX` -/
def optionalDatePrefix : Regex UInt16 := opt (.cat gap datePattern)

/-- `SPLIT_KW_REGEX` -/
def splitKwRegex : Regex UInt16 := inOrder
  [kwPrefix, optionalDatePrefix, gap, .group 1 (.cat wordBoundary (times 3 digit)), .one isSplitMark,
    .group 2 (.cat (times 3 digit) wordBoundary), .notAhead (.cat (opt (.one isSplitMark)) digit)]

/-- `KW_CODE_REGEX` -/
def kwCodeRegex : Regex UInt16 := inOrder
  [kwPrefix, optionalDatePrefix, gap, .group 1 (count 4 8 digit),
    .notAhead (anyOf [digit, .cat (.one isDateMark) twoDigits, lit (js "年")])]

/-- `FALLBACK_6DIGIT_REGEX` -/
def fallback6DigitRegex : Regex UInt16 := inOrder [wordBoundary, .group 1 (times 6 digit), wordBoundary]

def extractVerifCode (text : JsString) : Option JsString :=
  if text = [] then none
  else match splitKwRegex.exec text with
    | some m => some ((m.group 1).getD [] ++ (m.group 2).getD [])
    | none =>
      match kwCodeRegex.exec text with
      | some m => m.group 1
      | none => (fallback6DigitRegex.exec text).bind (·.group 1)

/-! ### Codes that are whole -/

/-- Somewhere `w` stands in the text with no digit on either side. -/
def Stands (text w : JsString) : Prop :=
  ∃ a b, text = a ++ w ++ b ∧ a.getLast?.any isDigit = false ∧ b.head?.any isDigit = false

/-- A code stands in the text as one run of digits, or as three digits, one separator and three digits. -/
def Whole (text code : JsString) : Prop :=
  Stands text code ∨ ∃ x c y, x.length = 3 ∧ y.length = 3 ∧ isSplitMark c = true ∧ code = x ++ y ∧
    Stands text (x ++ c :: y)

structure Intact (text code : JsString) : Prop where
  digits : ∀ c ∈ code, isDigit c = true
  length : 4 ≤ code.length ∧ code.length ≤ 8
  whole : Whole text code

/-- From the keyword over a date that ends with a digit, the rest of the match is the captured digits. -/
def RunsOn (m : Match UInt16) : Prop :=
  ∃ k q o, k ∈ kwPrefix.run m.start ∧ q ∈ gap.run k ∧ o ∈ datePattern.run q ∧ o.before.head?.any isDigit = true ∧
    m.group 1 = some (taken o m.stop)

/-! ### What the expressions match -/

variable {text : JsString} {s e k : Place UInt16} {m : Match UInt16}

theorem groupFree_parts : kwPrefix.groupFree = true ∧ optionalDatePrefix.groupFree = true ∧ gap.groupFree = true := by
  decide

theorem keywords_last : ∀ w ∈ keywords, w ≠ [] ∧ (w.map foldCase).getLast?.any isDigit = false := by decide +kernel

theorem any_isDigit_foldCase (w : JsString) : (w.map foldCase).getLast?.any isDigit = w.getLast?.any isDigit := by
  rw [List.getLast?_map]
  rcases w.getLast? with _ | c
  · rfl
  · exact isDigit_foldCase c

/-- A keyword ends with no digit. -/
theorem kwPrefix_last (h : k ∈ kwPrefix.run s) : k.before.head?.any isDigit = false := by
  obtain ⟨r, hr, hk⟩ := mem_anyOf h
  obtain ⟨word, hword, rfl⟩ := List.mem_map.mp hr
  obtain ⟨hne, hlast⟩ := keywords_last word hword
  obtain ⟨w, hw, -, hbefore⟩ := mem_caseless hk
  rw [← hw, any_isDigit_foldCase] at hlast
  have hwne : w ≠ [] := by
    rintro rfl
    exact hne (List.map_eq_nil_iff.mp hw.symm)
  rw [hbefore, List.head?_append_of_ne_nil _ (by simpa using hwne), List.head?_reverse]
  exact hlast

/-- A gap ends with no digit, or is empty. -/
theorem gap_last (h : e ∈ gap.run s) : e.before.head?.any isDigit = false ∨ e.before = s.before ∧ e.after = s.after := by
  obtain ⟨w, -, hall, hafter, hbefore, -⟩ := mem_upTo_one h
  rcases List.eq_nil_or_concat w with rfl | ⟨init, c, rfl⟩
  · exact .inr ⟨hbefore, hafter.symm⟩
  · refine .inl ?_
    have hc := hall c (by simp)
    rw [hbefore, List.concat_eq_append, List.reverse_append]
    simpa using hc

/-- A code that begins behind no digit and ends before none. -/
theorem stands_between {w : JsString} (htext : s.before.reverse ++ s.after = text) (hafter : s.after = w ++ e.after)
    (hbegin : s.before.head?.any isDigit = false) (hend : e.after.head?.any isDigit = false) : Stands text w :=
  ⟨s.before.reverse, e.after, by rw [← htext, hafter, List.append_assoc],
    by rw [List.getLast?_reverse]; exact hbegin, hend⟩

theorem run_eq_nil_digit (h : digit.run s = []) : s.after.head?.any isDigit = false := by
  rcases hafter : s.after with _ | ⟨c, rest⟩
  · rfl
  · rw [List.head?_cons, Option.any_some, ← Bool.not_eq_true]
    intro hc
    have hmem : (⟨c :: s.before, rest, s.groups⟩ : Place UInt16) ∈ digit.run s := mem_one.mpr ⟨c, rest, hafter, hc, rfl⟩
    rw [h] at hmem
    cases hmem

/-- The places of a keyword match: behind the keyword, behind a date if one is skipped, and where the
    digits begin. -/
theorem lead_places {rest : List (Regex UInt16)} (hgroups : s.groups = [])
    (h : e ∈ (inOrder (kwPrefix :: optionalDatePrefix :: gap :: rest)).run s) :
    ∃ k o g, k ∈ kwPrefix.run s ∧ o ∈ optionalDatePrefix.run k ∧ g ∈ gap.run o ∧ e ∈ (inOrder rest).run g ∧
      g.groups = [] ∧ g.before.reverse ++ g.after = s.before.reverse ++ s.after := by
  obtain ⟨k, hk, h⟩ := mem_cat.mp h
  obtain ⟨o, ho, h⟩ := mem_cat.mp h
  obtain ⟨g, hg, h⟩ := mem_cat.mp h
  refine ⟨k, o, g, hk, ho, hg, h, ?_, ?_⟩
  · rw [groups_of_groupFree groupFree_parts.2.2 hg, groups_of_groupFree groupFree_parts.2.1 ho,
      groups_of_groupFree groupFree_parts.1 hk, hgroups]
  · rw [(run_passes hg).whole, (run_passes ho).whole, (run_passes hk).whole]

/-- A match of the keyword expression: four to eight digits before no digit, which follow a digit only
    where they follow a skipped date directly. -/
theorem kwCode_match (h : kwCodeRegex.exec text = some m) : ∃ digits, m.group 1 = some digits ∧
    (∀ c ∈ digits, isDigit c = true) ∧ (4 ≤ digits.length ∧ digits.length ≤ 8) ∧ (Stands text digits ∨ RunsOn m) := by
  obtain ⟨hrun, hgroups, htext⟩ := exec_run h
  obtain ⟨k, o, g, hk, ho, hg, hcode, hnone, hwhole⟩ := lead_places hgroups hrun
  obtain ⟨d, hd, htail⟩ := mem_cat.mp hcode
  obtain ⟨c, hc, hend⟩ := mem_cat.mp htail
  have hstop : m.stop = c := mem_inOrder_nil.mp hend
  obtain ⟨rfl, hahead⟩ := mem_notAhead.mp hc
  obtain ⟨d', hd', hdeq⟩ := mem_group.mp hd
  obtain ⟨w, hlength, hall, hafter, -, hsame⟩ := mem_count_one hd'
  have hafter' : g.after = w ++ m.stop.after := by rw [hafter, hstop, hdeq]
  have hgroup : m.group 1 = some w := by
    rw [Match.group, hstop, hdeq, taken_of_after hafter]
    rfl
  have hfollow : m.stop.after.head?.any isDigit = false := by
    rw [hstop]
    exact run_eq_nil_digit (List.append_eq_nil_iff.mp hahead).1
  refine ⟨w, hgroup, hall, hlength, ?_⟩
  by_cases hbegin : g.before.head?.any isDigit = false
  · exact .inl (stands_between (hwhole.trans htext) hafter' hbegin hfollow)
  · refine .inr ?_
    rcases gap_last hg with hlast | ⟨hbefore, hsameAfter⟩
    · exact absurd hlast hbegin
    rcases mem_opt ho with rfl | hdate
    · rw [hbefore] at hbegin
      exact absurd (kwPrefix_last hk) hbegin
    · obtain ⟨q, hq, hdate⟩ := mem_cat.mp hdate
      refine ⟨k, q, o, hk, hq, hdate, ?_, ?_⟩
      · rw [← hbefore]
        simpa using hbegin
      · rw [hgroup, taken_of_after (s := o) (w := w) (by rw [← hsameAfter, hafter'])]

/-- A match of the split expression is two groups of three digits that stand by themselves. -/
theorem splitKw_match (h : splitKwRegex.exec text = some m) : ∃ x y, m.group 1 = some x ∧ m.group 2 = some y ∧
    (∀ c ∈ x ++ y, isDigit c = true) ∧ x.length = 3 ∧ y.length = 3 ∧
      ∃ c, isSplitMark c = true ∧ Stands text (x ++ c :: y) := by
  obtain ⟨hrun, hgroups, htext⟩ := exec_run h
  obtain ⟨k, o, g, -, -, -, hcode, hnone, hwhole⟩ := lead_places hgroups hrun
  obtain ⟨a, ha, htail⟩ := mem_cat.mp hcode
  obtain ⟨b, hb, htail'⟩ := mem_cat.mp htail
  obtain ⟨c, hc, hlook⟩ := mem_cat.mp htail'
  obtain ⟨d, hd, hend⟩ := mem_cat.mp hlook
  have hstop : m.stop = d := mem_inOrder_nil.mp hend
  have hdc : d = c := (mem_notAhead.mp hd).1
  -- the first group
  obtain ⟨a', ha', haeq⟩ := mem_group.mp ha
  obtain ⟨i, hi, hx⟩ := mem_cat.mp ha'
  have hig : i = g := (mem_between.mp hi).1
  subst hig
  obtain ⟨x, hxlen, hxall, hxafter, -, hxgroups⟩ := mem_times_one hx
  have hbegin : i.before.head?.any isDigit = false := by
    rcases x with _ | ⟨x₀, x'⟩
    · cases hxlen
    · exact (wordBoundary_before hi hxafter (hxall x₀ List.mem_cons_self)).2
  -- the separator
  obtain ⟨u, rest, hbafter, hu, hbeq⟩ := mem_one.mp hb
  -- the second group
  obtain ⟨c', hc', hceq⟩ := mem_group.mp hc
  obtain ⟨j, hj, hlast⟩ := mem_cat.mp hc'
  obtain ⟨y, hylen, hyall, hyafter, hybefore, hygroups⟩ := mem_times_one hj
  have hcj : c' = j := (mem_between.mp hlast).1
  have hfinal : j.after.head?.any isDigit = false := by
    rcases List.eq_nil_or_concat y with rfl | ⟨init, y₀, rfl⟩
    · cases hylen
    · rw [List.concat_eq_append, List.reverse_append] at hybefore
      exact (wordBoundary_after hlast hybefore (hyall y₀ (by simp))).2
  have hafter : i.after = (x ++ u :: y) ++ j.after := by
    rw [hxafter, show a'.after = a.after by rw [haeq], hbafter, show rest = b.after by rw [hbeq], hyafter]
    simp
  have hagroups : a.groups = [(1, x)] := by
    rw [haeq]
    show (1, taken i a') :: a'.groups = _
    rw [taken_of_after hxafter, hxgroups, hnone]
  have hcgroups : c.groups = (2, y) :: b.groups := by
    rw [hceq]
    show (2, taken b c') :: c'.groups = _
    rw [hcj, taken_of_after hyafter, hygroups]
  have hstopGroups : m.stop.groups = [(2, y), (1, x)] := by
    rw [hstop, hdc, hcgroups, hbeq]
    exact congrArg _ hagroups
  refine ⟨x, y, ?_, ?_, List.forall_mem_append.mpr ⟨hxall, hyall⟩, hxlen, hylen, u, hu,
    stands_between (hwhole.trans htext) hafter hbegin hfinal⟩
  · rw [Match.group, hstopGroups]
    rfl
  · rw [Match.group, hstopGroups]
    rfl

/-- Six digits between word boundaries. -/
theorem fallback_match (h : fallback6DigitRegex.exec text = some m) : ∃ digits, m.group 1 = some digits ∧
    (∀ c ∈ digits, isDigit c = true) ∧ digits.length = 6 ∧ Stands text digits := by
  obtain ⟨hrun, hgroups, htext⟩ := exec_run h
  obtain ⟨a, ha, hcode⟩ := mem_cat.mp hrun
  obtain ⟨b, hb, htail⟩ := mem_cat.mp hcode
  obtain ⟨c, hc, hend⟩ := mem_cat.mp htail
  have hstop : m.stop = c := mem_inOrder_nil.mp hend
  have hcb : c = b := (mem_between.mp hc).1
  have has : a = m.start := (mem_between.mp ha).1
  obtain ⟨b', hb', hbeq⟩ := mem_group.mp hb
  obtain ⟨w, hlength, hall, hafter, hbefore, hsame⟩ := mem_times_one hb'
  have hbegin : m.start.before.head?.any isDigit = false := by
    rcases w with _ | ⟨w₀, w'⟩
    · cases hlength
    · rw [has] at hafter
      exact (wordBoundary_before ha hafter (hall w₀ List.mem_cons_self)).2
  have hfinal : b.after.head?.any isDigit = false := by
    rcases List.eq_nil_or_concat w with rfl | ⟨init, w₀, rfl⟩
    · cases hlength
    · rw [List.concat_eq_append, List.reverse_append, show b'.before = b.before by rw [hbeq]] at hbefore
      exact (wordBoundary_after hc hbefore (hall w₀ (by simp))).2
  refine ⟨w, ?_, hall, hlength, ?_⟩
  · rw [Match.group, hstop, hcb, hbeq, taken_of_after hafter]
    rfl
  · refine stands_between (s := m.start) (e := b) htext ?_ hbegin hfinal
    rw [← has, hafter, hbeq]

/-! ### Codes are whole -/

/-- Where a text that stands by itself begins. -/
theorem Stands.position {w : JsString} (h : Stands text w) : ∃ i ∈ List.range (text.length + 1), w <+: text.drop i ∧
    (text.take i).getLast?.any isDigit = false ∧ (text.drop (i + w.length)).head?.any isDigit = false := by
  obtain ⟨a, b, rfl, ha, hb⟩ := h
  refine ⟨a.length, ?_, ?_, ?_, ?_⟩
  · rw [List.mem_range, List.length_append, List.length_append]
    omega
  · rw [List.append_assoc, List.drop_left]
    exact List.prefix_append w b
  · rw [List.append_assoc, List.take_left]
    exact ha
  · rw [← List.length_append, List.drop_left]
    exact hb

end OneMail.VerifCode
