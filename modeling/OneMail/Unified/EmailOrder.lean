import OneMail.Js.Bytes
import OneMail.Lib.Coding
import OneMail.Unified.Listing

/-! The order of a page in JavaScript and in SQLite.

    `compareEmailOrder` compares ids by UTF-16 units, `ORDER BY … id DESC` and the predicate of a cursor
    by UTF-8 bytes. UTF-8 keeps the order of the characters; UTF-16 puts the supplementary ones, which it
    writes with surrogates, before U+E000 to U+FFFF (`Swapped`). -/

namespace OneMail.Unified
open JsString Coding

/-- What a TEXT column keeps of a string: a surrogate that stands alone becomes U+FFFD. -/
def stored (s : JsString) : JsString := (scalars s).flatMap codeUnits

def storedRow (row : EmailRow) : EmailRow := { row with id := stored row.id }

/-- `a < b` in the BINARY collation: their UTF-8 bytes, in dictionary order. -/
def binaryLt (a b : JsString) : Bool := textEncode a < textEncode b

def binary (e : Engine) : Database := { e with idLt := binaryLt }

/-- The query returns `a` before `b`, whatever else it returns. -/
def before (db : Database) (a b : EmailRow) : Prop := orderLe db a b ∧ ¬ orderLe db b a

instance (db : Database) : DecidableRel (before db) := fun _ _ => inferInstanceAs (Decidable (_ ∧ _))

/-- A supplementary character, and one of U+E000 to U+FFFF. -/
def Swapped (x y : Char) : Prop :=
  0x10000 ≤ x.toNat ∧ 0xE000 ≤ y.toNat ∧ y.toNat < 0x10000 ∨ 0x10000 ≤ y.toNat ∧ 0xE000 ≤ x.toNat ∧ x.toNat < 0x10000

instance : DecidableRel Swapped := fun _ _ => inferInstanceAs (Decidable (_ ∨ _))

/-! ### UTF-8 -/

theorem toNat_valid (c : Char) : c.toNat < 0xD800 ∨ 0xDFFF < c.toNat ∧ c.toNat < 0x110000 := c.valid

theorem below_byte {m n : ℕ} {s t : List UInt8} (hn : n < 256) (hle : m ≤ n) (h : m = n → Below s t) :
    Below (UInt8.ofNat m :: s) (UInt8.ofNat n :: t) := by
  rcases Nat.lt_or_eq_of_le hle with hlt | rfl
  · refine ⟨[], _, _, s, t, rfl, rfl, ?_⟩
    rw [UInt8.lt_iff_toNat_lt, UInt8.toNat_ofNat_of_lt' (by simpa using hlt.trans hn),
      UInt8.toNat_ofNat_of_lt' (by simpa using hn)]
    exact hlt
  · obtain ⟨p, u, v, s', t', rfl, rfl, huv⟩ := h rfl
    exact ⟨UInt8.ofNat m :: p, u, v, s', t', rfl, rfl, huv⟩

/-- UTF-8 keeps the order of two characters, whatever follows them. -/
theorem utf8_below {x y : Char} (h : x.toNat < y.toNat) :
    Below (String.utf8EncodeChar x) (String.utf8EncodeChar y) := by
  have hx := toNat_valid x
  have hy := toNat_valid y
  simp only [Char.toNat] at h hx hy
  simp only [String.utf8EncodeChar]
  -- a longer code begins with a larger byte; codes of one length are compared digit by digit
  split_ifs
  · exact below_byte (by omega) (by omega) fun _ => by omega
  · exact below_byte (by omega) (by omega) fun _ => by omega
  · exact below_byte (by omega) (by omega) fun _ => by omega
  · exact below_byte (by omega) (by omega) fun _ => by omega
  · omega
  · refine below_byte (by omega) (by omega) fun _ => ?_
    exact below_byte (by omega) (by omega) fun _ => by omega
  · exact below_byte (by omega) (by omega) fun _ => by omega
  · exact below_byte (by omega) (by omega) fun _ => by omega
  · omega
  · omega
  · refine below_byte (by omega) (by omega) fun _ => ?_
    refine below_byte (by omega) (by omega) fun _ => ?_
    exact below_byte (by omega) (by omega) fun _ => by omega
  · exact below_byte (by omega) (by omega) fun _ => by omega
  · omega
  · omega
  · omega
  · refine below_byte (by omega) (by omega) fun _ => ?_
    refine below_byte (by omega) (by omega) fun _ => ?_
    refine below_byte (by omega) (by omega) fun _ => ?_
    exact below_byte (by omega) (by omega) fun _ => by omega

/-! ### UTF-16 -/

theorem below_unit {m n : ℕ} {s t : JsString} (hn : n < 65536) (hle : m ≤ n) (h : m = n → Below s t) :
    Below (m.toUInt16 :: s) (n.toUInt16 :: t) := by
  rcases Nat.lt_or_eq_of_le hle with hlt | rfl
  · refine ⟨[], _, _, s, t, rfl, rfl, ?_⟩
    simp only [UInt16.lt_iff_toNat_lt, Nat.toUInt16]
    rw [UInt16.toNat_ofNat_of_lt' (by simpa using hlt.trans hn), UInt16.toNat_ofNat_of_lt' (by simpa using hn)]
    exact hlt
  · obtain ⟨p, u, v, s', t', rfl, rfl, huv⟩ := h rfl
    exact ⟨m.toUInt16 :: p, u, v, s', t', rfl, rfl, huv⟩

/-- The order of the code points. -/
def CharLt (x y : Char) : Prop := x.toNat < y.toNat

/-- The order of the first units in which two characters differ. -/
def UnitLt (x y : Char) : Prop := if Swapped x y then y.toNat < x.toNat else x.toNat < y.toNat

theorem units_below {x y : Char} (h : UnitLt x y) : Below (codeUnits x) (codeUnits y) := by
  have hx := toNat_valid x
  have hy := toNat_valid y
  have hcases : Swapped x y ∧ y.toNat < x.toNat ∨ ¬ Swapped x y ∧ x.toNat < y.toNat := by
    unfold UnitLt at h
    split at h
    · exact .inl ⟨‹_›, h⟩
    · exact .inr ⟨‹_›, h⟩
  simp only [Swapped] at hcases
  simp only [codeUnits]
  split_ifs
  · exact below_unit (by omega) (by omega) fun _ => by omega
  · exact below_unit (by omega) (by omega) fun _ => by omega
  · exact below_unit (by omega) (by omega) fun _ => by omega
  · refine below_unit (by omega) (by omega) fun _ => ?_
    exact below_unit (by omega) (by omega) fun _ => by omega

theorem codeUnits_ne_nil (c : Char) : codeUnits c ≠ [] := by
  unfold codeUnits
  simp only
  split <;> exact List.cons_ne_nil _ _

theorem scalars_codeUnits (c : Char) (s : JsString) : scalars (codeUnits c ++ s) = c :: scalars s := by
  have hc := toNat_valid c
  have hofNat : Char.ofNat c.toNat = c := Char.ofNat_toNat c
  unfold codeUnits
  simp only
  split
  · rename_i hlt
    have hval : (c.toNat.toUInt16).toNat = c.toNat := UInt16.toNat_ofNat_of_lt' hlt
    have hnone := mt (surrogate_iff c.toNat.toUInt16).mp (by rw [hval]; omega)
    rw [List.singleton_append, scalars_cons (fun h => hnone (.inl h)) (fun h => hnone (.inr h)), hval, hofNat]
  · rename_i hge
    have hhigh : ((0xD800 + (c.toNat - 0x10000) / 0x400).toUInt16).toNat = 0xD800 + (c.toNat - 0x10000) / 0x400 :=
      UInt16.toNat_ofNat_of_lt' (by show _ < 65536; omega)
    have hlow : ((0xDC00 + (c.toNat - 0x10000) % 0x400).toUInt16).toNat = 0xDC00 + (c.toNat - 0x10000) % 0x400 :=
      UInt16.toNat_ofNat_of_lt' (by show _ < 65536; omega)
    have hpair : 0x10000 + (0xD800 + (c.toNat - 0x10000) / 0x400 - 0xD800) * 0x400 +
        (0xDC00 + (c.toNat - 0x10000) % 0x400 - 0xDC00) = c.toNat := by omega
    have hisHigh : isHighSurrogate (0xD800 + (c.toNat - 0x10000) / 0x400).toUInt16 = true := by
      simp only [isHighSurrogate, hhigh, Bool.and_eq_true, decide_eq_true_eq]
      omega
    have hisLow : isLowSurrogate (0xDC00 + (c.toNat - 0x10000) % 0x400).toUInt16 = true := by
      simp only [isLowSurrogate, hlow, Bool.and_eq_true, decide_eq_true_eq]
      omega
    rw [List.cons_append, List.cons_append, List.nil_append, scalars, if_pos hisHigh, if_pos hisLow, hhigh, hlow, hpair,
      hofNat]

theorem scalars_flatMap (l : List Char) : scalars (l.flatMap codeUnits) = l := by
  induction l with
  | nil => rfl
  | cons c l ih => rw [List.flatMap_cons, scalars_codeUnits, ih]

/-! ### The two orders -/

variable {e : Engine}

theorem binaryLt_stored {s t : JsString} :
    binaryLt (stored s) (stored t) = true ↔ List.Lex CharLt (scalars s) (scalars t) := by
  rw [binaryLt, decide_eq_true_iff, textEncode, textEncode, stored, stored, scalars_flatMap, scalars_flatMap]
  refine flatMap_lt (r := CharLt) (fun _ => String.utf8EncodeChar_ne_nil) (fun h => utf8_below h) fun {x y} hne => ?_
  exact Nat.lt_or_gt_of_ne fun h => hne (Char.toNat_inj.mp h)

theorem unitLt_total {x y : Char} (hne : x ≠ y) : UnitLt x y ∨ UnitLt y x := by
  have hswap : Swapped y x ↔ Swapped x y := or_comm
  have hlt : x.toNat < y.toNat ∨ y.toNat < x.toNat := Nat.lt_or_gt_of_ne fun h => hne (Char.toNat_inj.mp h)
  unfold UnitLt
  simp only [hswap]
  split
  · exact hlt.symm
  · exact hlt

theorem lt_stored {s t : JsString} : stored s < stored t ↔ List.Lex UnitLt (scalars s) (scalars t) :=
  flatMap_lt codeUnits_ne_nil units_below unitLt_total

theorem stored_inj {s t : JsString} : stored s = stored t ↔ scalars s = scalars t :=
  ⟨fun h => by rw [← scalars_flatMap (scalars s), ← scalars_flatMap (scalars t)]; exact congrArg scalars h,
    fun h => by rw [stored, stored, h]⟩

/-- Two characters stand in one order or in the other, unless they are swapped. -/
theorem unitLt_iff {x y : Char} (hne : x ≠ y) : (UnitLt x y ↔ CharLt x y) ↔ ¬ Swapped x y := by
  have hlt : x.toNat < y.toNat ∨ y.toNat < x.toNat := Nat.lt_or_gt_of_ne fun h => hne (Char.toNat_inj.mp h)
  unfold UnitLt CharLt
  split
  · rename_i h
    simp only [h, not_true_eq_false, iff_false]
    omega
  · rename_i h
    simp only [h, not_false_eq_true]

/-- The two orders of texts agree where the first characters that differ are not swapped. -/
theorem orders_agree {s t : JsString} : (stored s < stored t ↔ binaryLt (stored s) (stored t) = true) ↔
    ∀ x y, firstDifference (scalars s) (scalars t) = some (x, y) → ¬ Swapped x y := by
  have hirrefl (x : Char) : ¬ UnitLt x x := by
    unfold UnitLt
    split <;> exact Nat.lt_irrefl _
  rw [lt_stored, binaryLt_stored, lex_iff hirrefl, lex_iff (r := CharLt) fun _ => Nat.lt_irrefl _]
  rcases h : firstDifference (scalars s) (scalars t) with _ | ⟨x, y⟩
  · simp
  · rw [unitLt_iff (ne_of_firstDifference h)]
    constructor
    · rintro hnot x' y' heq
      cases heq
      exact hnot
    · intro hall
      exact hall x y rfl

theorem binaryLt_asymm {s t : JsString} (h : binaryLt s t = true) : binaryLt t s = false := by
  rw [binaryLt, decide_eq_true_iff] at h
  rw [binaryLt, decide_eq_false_iff_not]
  exact List.lt_asymm h

/-- A query returns `a` before `b` if and only if the cursor behind `a` selects `b`. -/
theorem queryBefore_iff {a b : EmailRow} :
    before (binary e) a b ↔ cursorPredicate (binary e) ⟨a.date, a.id⟩ b = true := by
  simp only [before, orderLe, cursorPredicate, binary, Bool.or_eq_true, Bool.and_eq_true, decide_eq_true_eq]
  constructor
  · rintro ⟨_, h⟩
    rcases lt_trichotomy b.date a.date with hlt | heq | hgt
    · exact .inl hlt
    · refine .inr ⟨heq, ?_⟩
      rcases hid : binaryLt b.id a.id with _ | _
      · exact absurd (.inr ⟨heq, hid⟩) h
      · rfl
    · exact absurd (.inl hgt) h
  · rintro (hlt | ⟨heq, hid⟩)
    · refine ⟨.inl hlt, ?_⟩
      rintro (hgt | ⟨heq, -⟩)
      · exact absurd hlt hgt.not_gt
      · exact absurd heq hlt.ne
    · refine ⟨.inr ⟨heq.symm, binaryLt_asymm hid⟩, ?_⟩
      rintro (hgt | ⟨-, hfalse⟩)
      · exact absurd heq hgt.ne'
      · rw [hid] at hfalse
        cases hfalse

/-- The order of the merge is the order of the query and of the cursor, for two rows of one date if and
    only if the first characters in which their ids differ are not swapped. -/
theorem merge_order_agrees (a b : EmailRow) :
    ((compareEmailOrder (listRow (storedRow a)) (listRow (storedRow b)) < 0 ↔
        before (binary e) (storedRow a) (storedRow b)) ∧
      (compareEmailOrder (listRow (storedRow a)) (listRow (storedRow b)) < 0 ↔
        cursorPredicate (binary e) ⟨(storedRow a).date, (storedRow a).id⟩ (storedRow b) = true)) ↔
    (a.date = b.date → ∀ x y, firstDifference (scalars a.id) (scalars b.id) = some (x, y) → ¬ Swapped x y) := by
  have hcompare : compareEmailOrder (listRow (storedRow a)) (listRow (storedRow b)) < 0 ↔
      b.date < a.date ∨ a.date = b.date ∧ stored b.id < stored a.id := by
    rw [compareEmailOrder_lt, rowKey_lt]
    rfl
  have hcursor : cursorPredicate (binary e) ⟨(storedRow a).date, (storedRow a).id⟩ (storedRow b) = true ↔
      b.date < a.date ∨ a.date = b.date ∧ binaryLt (stored b.id) (stored a.id) = true := by
    simp only [cursorPredicate, Bool.or_eq_true, Bool.and_eq_true, decide_eq_true_eq, eq_comm (a := a.date)]
    rfl
  have hswap : (∀ x y, firstDifference (scalars b.id) (scalars a.id) = some (x, y) → ¬ Swapped x y) ↔
      ∀ x y, firstDifference (scalars a.id) (scalars b.id) = some (x, y) → ¬ Swapped x y := by
    have hsymm {x y : Char} : Swapped x y ↔ Swapped y x := or_comm
    rw [firstDifference_swap]
    constructor
    · intro h x y heq hxy
      exact h y x (by rw [heq]; rfl) (hsymm.mp hxy)
    · intro h x y heq hxy
      obtain ⟨⟨u, v⟩, huv, hpair⟩ := Option.map_eq_some_iff.mp heq
      cases hpair
      exact h u v huv (hsymm.mp hxy)
  rw [queryBefore_iff, and_self, hcompare, hcursor, ← hswap, ← orders_agree]
  by_cases hdate : a.date = b.date
  · simp only [hdate, lt_self_iff_false, false_or, true_and, forall_const]
  · simp only [hdate, false_and, or_false, iff_self, false_implies]

/-- Two rows of one date whose ids are U+10000 and U+E000. -/
def supplementary : EmailRow := ⟨[0xD800, 0xDC00], none, none, none, none, none, none, 0, none, 0, none, none, none⟩
def privateUse : EmailRow := { supplementary with id := [0xE000] }

/-- SQLite returns the supplementary id first, the merge puts it last. -/
theorem supplementary_misplaced : ¬ (compareEmailOrder (listRow (storedRow supplementary))
      (listRow (storedRow privateUse)) < 0 ↔
        before (binary ⟨fun _ _ => false, fun _ _ => false, fun _ _ => false⟩) (storedRow supplementary)
          (storedRow privateUse)) := by
  decide +kernel

end OneMail.Unified
