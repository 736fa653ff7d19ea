import Mathlib
import OneMail.Js.UtcDate

/-! Texts that stand for other texts or for numbers: `encodeURIComponent`, `String(n)`, `Number(s)`, and
    SQLite's `CAST(s AS INTEGER)`.

    Encoded components and numerals have no colon, so texts joined with colons are read back in one way. -/

namespace OneMail.JsString

def colon : UInt16 := 0x3A
def percent : UInt16 := 0x25

/-! ### `encodeURIComponent` -/

def isHighSurrogate (c : UInt16) : Bool := 0xD800 ≤ c.toNat && c.toNat ≤ 0xDBFF
def isLowSurrogate (c : UInt16) : Bool := 0xDC00 ≤ c.toNat && c.toNat ≤ 0xDFFF

/-- The code points of a string; none when a surrogate stands alone. -/
def codePoints : JsString → Option (List Char)
  | [] => some []
  | c :: s =>
    if isHighSurrogate c then
      match s with
      | d :: t =>
        if isLowSurrogate d then
          (codePoints t).map (Char.ofNat (0x10000 + (c.toNat - 0xD800) * 0x400 + (d.toNat - 0xDC00)) :: ·)
        else none
      | [] => none
    else if isLowSurrogate c then none
    else (codePoints s).map (Char.ofNat c.toNat :: ·)

/-- The code units of a code point. -/
def codeUnits (c : Char) : JsString :=
  let v := c.toNat
  if v < 0x10000 then [v.toUInt16]
  else [(0xD800 + (v - 0x10000) / 0x400).toUInt16, (0xDC00 + (v - 0x10000) % 0x400).toUInt16]

/-- The bytes that `encodeURIComponent` leaves: letters, digits and `-_.!~*'()`. -/
def isUnreserved (b : UInt8) : Bool :=
  (0x41 ≤ b && b ≤ 0x5A) || (0x61 ≤ b && b ≤ 0x7A) || (0x30 ≤ b && b ≤ 0x39) ||
    b = 0x2D || b = 0x5F || b = 0x2E || b = 0x21 || b = 0x7E || b = 0x2A || b = 0x27 || b = 0x28 || b = 0x29

def hexDigit (n : ℕ) : UInt16 := if n < 10 then 0x30 + n.toUInt16 else 0x37 + n.toUInt16

def encodeByte (b : UInt8) : JsString :=
  if isUnreserved b then [b.toUInt16] else [percent, hexDigit (b.toNat / 16), hexDigit (b.toNat % 16)]

/-- Throws, that is `none`, on a lone surrogate. -/
def encodeURIComponent (s : JsString) : Option JsString :=
  (codePoints s).map fun l => (l.flatMap String.utf8EncodeChar).flatMap encodeByte

theorem toNat_ofNat_valid {n : ℕ} (h : n.isValidChar) : (Char.ofNat n).toNat = n := by
  rw [Char.ofNat, dif_pos h]
  rfl

/-- Code points give the string back. -/
theorem codeUnits_codePoints {s : JsString} {l : List Char} (h : codePoints s = some l) : l.flatMap codeUnits = s := by
  fun_induction codePoints s generalizing l with
  | case1 =>
    obtain rfl := Option.some.inj h
    rfl
  | case2 c hc d t hd ih =>
    obtain ⟨l, hl, rfl⟩ := Option.map_eq_some_iff.mp h
    simp only [isHighSurrogate, isLowSurrogate, Bool.and_eq_true, decide_eq_true_eq] at hc hd
    have hv : (0x10000 + (c.toNat - 0xD800) * 0x400 + (d.toNat - 0xDC00)).isValidChar := .inr (by omega)
    have hhigh : 0xD800 + (0x10000 + (c.toNat - 0xD800) * 0x400 + (d.toNat - 0xDC00) - 0x10000) / 0x400 = c.toNat := by
      omega
    have hlow : 0xDC00 + (0x10000 + (c.toNat - 0xD800) * 0x400 + (d.toNat - 0xDC00) - 0x10000) % 0x400 = d.toNat := by
      omega
    rw [List.flatMap_cons, ih hl, codeUnits]
    simp only [toNat_ofNat_valid hv]
    rw [if_neg (by omega), hhigh, hlow]
    simp [Nat.toUInt16]
  | case3 | case4 | case5 => cases h
  | case6 c s hc hd ih =>
    obtain ⟨l, hl, rfl⟩ := Option.map_eq_some_iff.mp h
    simp only [isHighSurrogate, isLowSurrogate, Bool.and_eq_true, decide_eq_true_eq] at hc hd
    have hlt : c.toNat < 0x10000 := c.toNat_lt
    have hv : c.toNat.isValidChar := by
      rcases Nat.lt_or_ge c.toNat 0xD800 with h | h
      · exact .inl h
      · exact .inr (by omega)
    rw [List.flatMap_cons, ih hl, codeUnits]
    simp only [toNat_ofNat_valid hv]
    rw [if_pos hlt]
    simp [Nat.toUInt16]

theorem utf8_injective {l m : List Char} (h : l.flatMap String.utf8EncodeChar = m.flatMap String.utf8EncodeChar) :
    l = m := by
  have hbytes : l.utf8Encode = m.utf8Encode := by rw [List.utf8Encode, h, List.utf8Encode]
  have hchars := congrArg ByteArray.utf8Decode? hbytes
  rw [List.utf8Decode?_utf8Encode, List.utf8Decode?_utf8Encode] at hchars
  simpa using hchars

/-- A code none of whose words is the beginning of another's is read back. -/
theorem flatMap_injective {α β : Type*} {code : α → List β} (hne : ∀ a, code a ≠ [])
    (hfree : ∀ a b s t, code a ++ s = code b ++ t → a = b) :
    ∀ {l m : List α}, l.flatMap code = m.flatMap code → l = m
  | [], [], _ => rfl
  | [], b :: m, h => by simp [hne b] at h
  | a :: l, [], h => by simp [hne a] at h
  | a :: l, b :: m, h => by
    rw [List.flatMap_cons, List.flatMap_cons] at h
    obtain rfl := hfree a b _ _ h
    rw [flatMap_injective hne hfree (List.append_cancel_left h)]

theorem hexDigit_injective : ∀ m < 16, ∀ n < 16, hexDigit m = hexDigit n → m = n := by decide

theorem hexDigit_ne_colon : ∀ n < 16, hexDigit n ≠ colon := by decide

theorem encodeByte_free (a b : UInt8) (s t : JsString) (h : encodeByte a ++ s = encodeByte b ++ t) : a = b := by
  have hpercent {b : UInt8} (hb : isUnreserved b = true) : b.toUInt16 ≠ percent := by
    rintro heq
    obtain rfl : b = 0x25 := by simpa [percent, ← UInt16.toNat_inj, ← UInt8.toNat_inj] using heq
    revert hb
    decide
  unfold encodeByte at h
  split at h <;> split at h
  · have hhead := (List.cons.inj h).1
    simpa [← UInt16.toNat_inj, ← UInt8.toNat_inj] using hhead
  · exact absurd (List.cons.inj h).1 (hpercent ‹_›)
  · exact absurd (List.cons.inj h).1.symm (hpercent ‹_›)
  · obtain ⟨hhi, h⟩ := List.cons.inj (List.cons.inj h).2
    have ha := a.toNat_lt
    have hb := b.toNat_lt
    have hdiv := hexDigit_injective _ (by omega) _ (by omega) hhi
    have hmod := hexDigit_injective _ (by omega) _ (by omega) (List.cons.inj h).1
    rw [← UInt8.toNat_inj]
    omega

theorem encodeURIComponent_injective {s s' t : JsString} (h : encodeURIComponent s = some t)
    (h' : encodeURIComponent s' = some t) : s = s' := by
  obtain ⟨l, hl, rfl⟩ := Option.map_eq_some_iff.mp h
  obtain ⟨l', hl', heq⟩ := Option.map_eq_some_iff.mp h'
  have hne (b : UInt8) : encodeByte b ≠ [] := by unfold encodeByte; split <;> simp
  obtain rfl := utf8_injective (flatMap_injective hne encodeByte_free heq)
  rw [← codeUnits_codePoints hl, codeUnits_codePoints hl']

theorem colon_not_mem_encodeURIComponent {s t : JsString} (h : encodeURIComponent s = some t) : colon ∉ t := by
  obtain ⟨l, -, rfl⟩ := Option.map_eq_some_iff.mp h
  intro hmem
  obtain ⟨b, -, hb⟩ := List.mem_flatMap.mp hmem
  unfold encodeByte at hb
  split at hb
  · rename_i hun
    obtain rfl : b = 0x3A := by simpa [colon, ← UInt16.toNat_inj, ← UInt8.toNat_inj, eq_comm] using hb
    revert hun
    decide
  · have hlt := b.toNat_lt
    simp only [List.mem_cons, List.not_mem_nil, or_false] at hb
    rcases hb with hb | hb | hb
    · exact absurd hb (by decide)
    · exact hexDigit_ne_colon _ (by omega) hb.symm
    · exact hexDigit_ne_colon _ (by omega) hb.symm

/-! ### Numerals -/

def isDigit (c : UInt16) : Bool := 0x30 ≤ c && c ≤ 0x39

/-- `String(n)` -/
def numeral (n : ℕ) : JsString :=
  if n = 0 then js "0" else (Nat.digits 10 n).reverse.map fun d => 0x30 + d.toUInt16

/-- `Number(s)` on digits; other texts count as `NaN`. -/
def toNumber (s : JsString) : Option ℕ := if s ≠ [] ∧ s.all isDigit = true then some (decimal s) else none

def isSqlSpace (c : UInt16) : Bool := c = 0x20 || (0x9 ≤ c && c ≤ 0xD)

/-- `CAST(s AS INTEGER)`: the number at the beginning of the text, or zero. -/
def castInteger (s : JsString) : ℤ :=
  match s.dropWhile isSqlSpace with
  | [] => 0
  | c :: t =>
    if c = 0x2D then -decimal (t.takeWhile isDigit)
    else if c = 0x2B then decimal (t.takeWhile isDigit)
    else decimal ((c :: t).takeWhile isDigit)

theorem isDigit_digit : ∀ d < 10, isDigit (0x30 + d.toUInt16) = true := by decide

theorem digit_value : ∀ d < 10, (0x30 + d.toUInt16 - 0x30 : UInt16).toNat = d := by decide

theorem isDigit_of_mem_numeral {n : ℕ} {c : UInt16} (h : c ∈ numeral n) : isDigit c = true := by
  unfold numeral at h
  split at h
  · rw [List.mem_singleton.mp h]
    decide
  · obtain ⟨d, hd, rfl⟩ := List.mem_map.mp h
    exact isDigit_digit d (Nat.digits_lt_base (by decide) (List.mem_reverse.mp hd))

theorem numeral_ne_nil (n : ℕ) : numeral n ≠ [] := by
  unfold numeral
  split
  · decide
  · simpa [Nat.digits_eq_nil_iff_eq_zero] using ‹¬ n = 0›

theorem foldr_digits : ∀ {l : List ℕ}, (∀ d ∈ l, d < 10) →
    l.foldr (fun d n => 10 * n + (0x30 + d.toUInt16 - 0x30 : UInt16).toNat) 0 = Nat.ofDigits 10 l
  | [], _ => rfl
  | d :: l, h => by
    rw [List.foldr_cons, foldr_digits fun d hd => h d (List.mem_cons_of_mem _ hd), Nat.ofDigits_cons,
      digit_value d (h d List.mem_cons_self)]
    omega

@[simp] theorem decimal_numeral (n : ℕ) : decimal (numeral n) = n := by
  unfold numeral
  split
  · rename_i hzero
    rw [hzero]
    decide
  · rw [decimal, List.foldl_map, List.foldl_reverse, foldr_digits fun d hd => Nat.digits_lt_base (by decide) hd,
      Nat.ofDigits_digits]

theorem numeral_injective {m n : ℕ} (h : numeral m = numeral n) : m = n := by
  rw [← decimal_numeral m, h, decimal_numeral]

theorem colon_not_mem_numeral (n : ℕ) : colon ∉ numeral n := by
  intro h
  have hdigit := isDigit_of_mem_numeral h
  revert hdigit
  decide

@[simp] theorem toNumber_numeral (n : ℕ) : toNumber (numeral n) = some n := by
  rw [toNumber, if_pos ⟨numeral_ne_nil n, List.all_eq_true.mpr fun _ => isDigit_of_mem_numeral⟩, decimal_numeral]

theorem digit_not_sign {c : UInt16} (h : isDigit c = true) : isSqlSpace c = false ∧ c ≠ 0x2D ∧ c ≠ 0x2B := by
  simp only [isDigit, isSqlSpace, Bool.and_eq_true, decide_eq_true_eq, UInt16.le_iff_toNat_le,
    ← UInt16.toNat_inj, ne_eq, Bool.or_eq_false_iff, decide_eq_false_iff_not, Bool.and_eq_false_iff] at h ⊢
  simp at h ⊢
  omega

@[simp] theorem castInteger_numeral (n : ℕ) : castInteger (numeral n) = n := by
  rcases hn : numeral n with _ | ⟨c, t⟩
  · exact absurd hn (numeral_ne_nil n)
  · have hall : ∀ d ∈ c :: t, isDigit d = true := fun d hd => isDigit_of_mem_numeral (hn ▸ hd)
    obtain ⟨hspace, hminus, hplus⟩ := digit_not_sign (hall c List.mem_cons_self)
    rw [castInteger, List.dropWhile_cons_of_neg (by simp [hspace])]
    simp only [if_neg hminus, if_neg hplus]
    rw [List.takeWhile_eq_self_iff.mpr hall, ← hn, decimal_numeral]

/-! ### Texts joined by colons -/

/-- Two texts before the first colon, and what follows it. -/
theorem colon_parts {s s' : JsString} : ∀ {a a' : JsString}, colon ∉ a → colon ∉ a' →
    a ++ colon :: s = a' ++ colon :: s' → a = a' ∧ s = s'
  | [], [], _, _, h => ⟨rfl, (List.cons.inj h).2⟩
  | [], c :: a', _, ha', h => absurd ((List.cons.inj h).1 ▸ List.mem_cons_self) ha'
  | c :: a, [], ha, _, h => absurd ((List.cons.inj h).1 ▸ List.mem_cons_self) ha
  | c :: a, c' :: a', ha, ha', h => by
    obtain ⟨hhead, htail⟩ := List.cons.inj h
    obtain ⟨ha, hs⟩ := colon_parts (fun hc => ha (List.mem_cons_of_mem _ hc))
      (fun hc => ha' (List.mem_cons_of_mem _ hc)) htail
    exact ⟨by rw [hhead, ha], hs⟩

/-- Two texts after the last colon, and what precedes it. -/
theorem colon_suffix {s s' a a' : JsString} (ha : colon ∉ a) (ha' : colon ∉ a')
    (h : s ++ colon :: a = s' ++ colon :: a') : s = s' ∧ a = a' := by
  have hrev := congrArg List.reverse h
  simp only [List.reverse_append, List.reverse_cons, List.append_assoc, List.singleton_append] at hrev
  obtain ⟨hparts, hrest⟩ := colon_parts (mt List.mem_reverse.mp ha) (mt List.mem_reverse.mp ha') hrev
  exact ⟨List.reverse_injective hrest, List.reverse_injective hparts⟩

end OneMail.JsString
