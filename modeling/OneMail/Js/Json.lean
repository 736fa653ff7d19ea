import Mathlib
import OneMail.Js.Uri

/-! `JSON.parse` and `JSON.stringify`.

    `parse` reads a text unit by unit: a scanner turns units into tokens and hands each token to a
    pushdown parser, so what it does with a text follows from what it does with the text's pieces
    (`scan_append`). `escape` is the content of a stringified string; the scanner reads it back
    (`scan_escape`). -/

namespace OneMail.Json
open JsString

/-! ### Values -/

/-- A number as it is written: its digits, how many of them follow the point, and the exponent. -/
structure Numeral where
  negative : Bool
  digits : ℕ
  scale : ℕ
  expNegative : Bool
  exp : ℕ
  deriving DecidableEq

/-- What a text stands for, with the members of an object in the order of the text. -/
inductive Value where
  | null
  | bool (b : Bool)
  | number (n : Numeral)
  | string (s : JsString)
  | array (elements : List Value)
  | object (members : List (JsString × Value))

/-- `value[key]` on an object: of members with one key the last one stands. -/
def Value.get (key : JsString) : Value → Option Value
  | .object members => (members.reverse.find? fun m => m.1 = key).map (·.2)
  | _ => none

/-! ### Tokens and the parser -/

inductive Token where
  | beginObject
  | endObject
  | beginArray
  | endArray
  | colon
  | comma
  | null
  | bool (b : Bool)
  | number (n : Numeral)
  | string (s : JsString)
  deriving DecidableEq

/-- An array or object that is still open, with what has been read of it. -/
inductive Frame where
  | array (elements : List Value)
  | member (members : List (JsString × Value)) (key : JsString)

/-- What the parser waits for. -/
inductive Parser where
  /-- A value. -/
  | value (stack : List Frame)
  /-- The first element of an array, or its end. -/
  | element (stack : List Frame)
  /-- The first key of an object, or its end. -/
  | firstKey (stack : List Frame)
  /-- The next key of an object. -/
  | key (stack : List Frame) (members : List (JsString × Value))
  | colon (stack : List Frame) (members : List (JsString × Value)) (key : JsString)
  /-- What follows a value. -/
  | after (stack : List Frame) (v : Value)

/-- The first token of a value. -/
def Parser.start (stack : List Frame) : Token → Option Parser
  | .beginObject => some (.firstKey stack)
  | .beginArray => some (.element stack)
  | .null => some (.after stack .null)
  | .bool b => some (.after stack (.bool b))
  | .number n => some (.after stack (.number n))
  | .string s => some (.after stack (.string s))
  | _ => none

/-- One token; `none` is a syntax error. -/
def Parser.feed : Parser → Token → Option Parser
  | .value stack, t => start stack t
  | .element stack, .endArray => some (.after stack (.array []))
  | .element stack, t => start (.array [] :: stack) t
  | .firstKey stack, .endObject => some (.after stack (.object []))
  | .firstKey stack, .string s => some (.colon stack [] s)
  | .key stack members, .string s => some (.colon stack members s)
  | .colon stack members k, .colon => some (.value (.member members k :: stack))
  | .after (.array elements :: stack) v, .comma => some (.value (.array (elements ++ [v]) :: stack))
  | .after (.array elements :: stack) v, .endArray => some (.after stack (.array (elements ++ [v])))
  | .after (.member members k :: stack) v, .comma => some (.key stack (members ++ [(k, v)]))
  | .after (.member members k :: stack) v, .endObject => some (.after stack (.object (members ++ [(k, v)])))
  | _, _ => none

/-! ### The scanner -/

/-- The parts of a number. -/
inductive Stage where
  | sign
  | zero
  | whole
  | point
  | fraction
  | e
  | expSign
  | exponent
  deriving DecidableEq

/-- The number may end here. -/
def Stage.final : Stage → Bool
  | .zero | .whole | .fraction | .exponent => true
  | _ => false

def digit (c : UInt16) : ℕ := (c - 0x30).toNat

/-- The next unit of a number; `none` where the number does not go on with it. -/
def Stage.next (n : Numeral) (c : UInt16) : Stage → Option (Stage × Numeral)
  | .sign =>
    if c = 0x30 then some (.zero, n)
    else if isDigit c then some (.whole, { n with digits := digit c })
    else none
  | .zero => afterWhole
  | .whole => if isDigit c then some (.whole, { n with digits := 10 * n.digits + digit c }) else afterWhole
  | .point => fraction
  | .fraction => if isDigit c then fraction else exponent
  | .e =>
    if c = 0x2B then some (.expSign, n)
    else if c = 0x2D then some (.expSign, { n with expNegative := true })
    else power
  | .expSign => power
  | .exponent => power
where
  exponent : Option (Stage × Numeral) := if c = 0x65 ∨ c = 0x45 then some (.e, n) else none
  afterWhole : Option (Stage × Numeral) := if c = 0x2E then some (.point, n) else exponent
  fraction : Option (Stage × Numeral) :=
    if isDigit c then some (.fraction, { n with digits := 10 * n.digits + digit c, scale := n.scale + 1 }) else none
  power : Option (Stage × Numeral) :=
    if isDigit c then some (.exponent, { n with exp := 10 * n.exp + digit c }) else none

inductive Mode where
  | between
  /-- Inside a string, after its first units. -/
  | string (s : JsString)
  /-- After a backslash. -/
  | escape (s : JsString)
  /-- Inside `\uXXXX`, with the digits that are still to come. -/
  | unicode (s : JsString) (left value : ℕ)
  | number (stage : Stage) (n : Numeral)
  /-- Inside `true`, `false` or `null`. -/
  | word (rest : JsString) (t : Token)
  deriving DecidableEq

structure Scan where
  parser : Parser
  mode : Mode

def quotationMark : UInt16 := 0x22
def backslash : UInt16 := 0x5C

def isSpace (c : UInt16) : Bool := c = 0x20 || c = 0x9 || c = 0xA || c = 0xD

def punctuator (c : UInt16) : Option Token :=
  if c = 0x7B then some .beginObject
  else if c = 0x7D then some .endObject
  else if c = 0x5B then some .beginArray
  else if c = 0x5D then some .endArray
  else if c = 0x3A then some .colon
  else if c = 0x2C then some .comma
  else none

/-- The unit a one-letter escape stands for. -/
def unescape (c : UInt16) : Option UInt16 :=
  if c = 0x22 ∨ c = 0x5C ∨ c = 0x2F then some c
  else if c = 0x62 then some 0x8
  else if c = 0x66 then some 0xC
  else if c = 0x6E then some 0xA
  else if c = 0x72 then some 0xD
  else if c = 0x74 then some 0x9
  else none

def hexValue (c : UInt16) : Option ℕ :=
  if isDigit c then some (digit c)
  else if 0x61 ≤ c ∧ c ≤ 0x66 then some (c.toNat - 0x57)
  else if 0x41 ≤ c ∧ c ≤ 0x46 then some (c.toNat - 0x37)
  else none

/-- Hand a token to the parser. -/
def emit (p : Parser) (t : Token) : Option Scan := (p.feed t).map (⟨·, .between⟩)

/-- The first unit of a token. -/
def enter (p : Parser) (c : UInt16) : Option Scan :=
  if isSpace c then some ⟨p, .between⟩
  else if c = quotationMark then some ⟨p, .string []⟩
  else if c = 0x2D then some ⟨p, .number .sign ⟨true, 0, 0, false, 0⟩⟩
  else if c = 0x30 then some ⟨p, .number .zero ⟨false, 0, 0, false, 0⟩⟩
  else if isDigit c then some ⟨p, .number .whole ⟨false, digit c, 0, false, 0⟩⟩
  else if c = 0x74 then some ⟨p, .word (js "rue") (.bool true)⟩
  else if c = 0x66 then some ⟨p, .word (js "alse") (.bool false)⟩
  else if c = 0x6E then some ⟨p, .word (js "ull") .null⟩
  else (punctuator c).bind (emit p)

def Scan.step (s : Scan) (c : UInt16) : Option Scan :=
  match s.mode with
  | .between => enter s.parser c
  | .string text =>
    if c = quotationMark then emit s.parser (.string text)
    else if c = backslash then some ⟨s.parser, .escape text⟩
    else if c < 0x20 then none
    else some ⟨s.parser, .string (text ++ [c])⟩
  | .escape text =>
    if c = 0x75 then some ⟨s.parser, .unicode text 4 0⟩
    else (unescape c).map fun d => ⟨s.parser, .string (text ++ [d])⟩
  | .unicode text left value =>
    (hexValue c).map fun d =>
      if left ≤ 1 then ⟨s.parser, .string (text ++ [(16 * value + d).toUInt16])⟩
      else ⟨s.parser, .unicode text (left - 1) (16 * value + d)⟩
  | .number stage n =>
    match stage.next n c with
    | some (stage', n') => some ⟨s.parser, .number stage' n'⟩
    | none => if stage.final then (s.parser.feed (.number n)).bind (enter · c) else none
  | .word [] _ => none
  | .word [d] t => if c = d then emit s.parser t else none
  | .word (d :: rest) t => if c = d then some ⟨s.parser, .word rest t⟩ else none

def Scan.run (s : Scan) (text : JsString) : Option Scan := text.foldlM Scan.step s

/-- The end of the text. -/
def Scan.finish (s : Scan) : Option Value :=
  let p := match s.mode with
    | .between => some s.parser
    | .number stage n => if stage.final then s.parser.feed (.number n) else none
    | _ => none
  match p with
  | some (.after [] v) => some v
  | _ => none

/-- `JSON.parse`; `none` is a syntax error. -/
def parse (text : JsString) : Option Value := (Scan.run ⟨.value [], .between⟩ text).bind Scan.finish

/-! ### Numbers -/

/-- The number that is written. -/
def Numeral.exact (n : Numeral) : ℚ :=
  (if n.negative then -1 else 1) * n.digits * 10 ^ ((if n.expNegative then -(n.exp : ℤ) else n.exp) - n.scale)

/-- The nearest integer, an even one where two are nearest. -/
def roundHalfEven (q : ℚ) : ℤ :=
  if q - ⌊q⌋ < 1 / 2 then ⌊q⌋
  else if 1 / 2 < q - ⌊q⌋ then ⌊q⌋ + 1
  else if ⌊q⌋ % 2 = 0 then ⌊q⌋ else ⌊q⌋ + 1

/-- The exponent of the last bit of a double near `q`. -/
def lastBit (q : ℚ) : ℤ := max (Int.log 2 |q| - 52) (-1074)

/-- The double that is nearest; `none` is an infinity. The sign of zero is not kept. -/
def toDouble (q : ℚ) : Option ℚ :=
  let d := roundHalfEven (q / 2 ^ lastBit q) * (2 : ℚ) ^ lastBit q
  if |d| < 2 ^ 1024 then some d else none

def isSafeInteger (n : ℤ) : Bool := n.natAbs < 2 ^ 53

/-- `typeof value === "number" && Number.isSafeInteger(value)`, with its value. -/
def Value.safeInteger : Value → Option ℤ
  | .number n => (toDouble n.exact).bind fun d => if d.den = 1 ∧ isSafeInteger d.num = true then some d.num else none
  | _ => none

/-! ### `JSON.stringify` -/

def hexDigit (n : ℕ) : UInt16 := if n < 10 then 0x30 + n.toUInt16 else 0x57 + n.toUInt16

/-- A unit of a string that is not half of a pair. -/
def escapeUnit (c : UInt16) : JsString :=
  if c = 0x22 ∨ c = 0x5C then [backslash, c]
  else if c = 0x8 then [backslash, 0x62]
  else if c = 0xC then [backslash, 0x66]
  else if c = 0xA then [backslash, 0x6E]
  else if c = 0xD then [backslash, 0x72]
  else if c = 0x9 then [backslash, 0x74]
  else if c < 0x20 ∨ isHighSurrogate c = true ∨ isLowSurrogate c = true then
    [backslash, 0x75, hexDigit (c.toNat / 4096), hexDigit (c.toNat / 256 % 16), hexDigit (c.toNat / 16 % 16),
      hexDigit (c.toNat % 16)]
  else [c]

/-- The content of a stringified string; a surrogate that stands alone is written as an escape. -/
def escape : JsString → JsString
  | [] => []
  | [c] => escapeUnit c
  | c :: d :: s =>
    if isHighSurrogate c = true ∧ isLowSurrogate d = true then c :: d :: escape s
    else escapeUnit c ++ escape (d :: s)

/-- `JSON.stringify` of a string. -/
def quote (s : JsString) : JsString := quotationMark :: escape s ++ [quotationMark]

/-- `JSON.stringify` of an integer below `10^21`. -/
def integer (n : ℤ) : JsString := if n < 0 then 0x2D :: numeral n.natAbs else numeral n.natAbs

/-! ### Reading back -/

variable {p : Parser} {s : Scan}

theorem scan_append (a b : JsString) : s.run (a ++ b) = (s.run a).bind (·.run b) := List.foldlM_append

theorem scan_nil : s.run [] = some s := rfl

theorem scan_cons (c : UInt16) (text : JsString) : s.run (c :: text) = (s.step c).bind (·.run text) :=
  List.foldlM_cons

theorem hexValue_hexDigit : ∀ n < 16, hexValue (hexDigit n) = some n := by decide

/-- A unit that stands for itself. -/
theorem step_string {c : UInt16} (hquote : c ≠ quotationMark) (hback : c ≠ backslash) (hcontrol : ¬ c < 0x20)
    (text : JsString) : Scan.step ⟨p, .string text⟩ c = some ⟨p, .string (text ++ [c])⟩ := by
  simp only [Scan.step, if_neg hquote, if_neg hback, if_neg hcontrol]

theorem surrogate_plain {c : UInt16} (h : isHighSurrogate c = true ∨ isLowSurrogate c = true) :
    c ≠ quotationMark ∧ c ≠ backslash ∧ ¬ c < 0x20 := by
  simp only [isHighSurrogate, isLowSurrogate, Bool.and_eq_true, decide_eq_true_eq] at h
  simp only [quotationMark, backslash, ne_eq, ← UInt16.toNat_inj, UInt16.lt_iff_toNat_lt]
  simp
  omega

theorem step_unicode {d : ℕ} (hd : d < 16) (text : JsString) (left value : ℕ) :
    Scan.step ⟨p, .unicode text (left + 1) value⟩ (hexDigit d) =
      if left = 0 then some ⟨p, .string (text ++ [(16 * value + d).toUInt16])⟩
      else some ⟨p, .unicode text left (16 * value + d)⟩ := by
  have hlast : left + 1 ≤ 1 ↔ left = 0 := by omega
  simp only [Scan.step, hexValue_hexDigit d hd, Option.map_some, hlast, Nat.add_sub_cancel]
  split <;> rfl

theorem scan_unicode (c : UInt16) (text : JsString) :
    Scan.run ⟨p, .unicode text 4 0⟩ [hexDigit (c.toNat / 4096), hexDigit (c.toNat / 256 % 16),
      hexDigit (c.toNat / 16 % 16), hexDigit (c.toNat % 16)] = some ⟨p, .string (text ++ [c])⟩ := by
  have hlt := c.toNat_lt
  have hsum : 16 * (16 * (16 * (16 * 0 + c.toNat / 4096) + c.toNat / 256 % 16) + c.toNat / 16 % 16) + c.toNat % 16 =
      c.toNat := by
    omega
  have hmod (n : ℕ) : n % 16 < 16 := Nat.mod_lt _ (by decide)
  rw [scan_cons, step_unicode (by omega) text 3, if_neg (by decide), Option.bind_some, scan_cons,
    step_unicode (hmod _) text 2, if_neg (by decide), Option.bind_some, scan_cons,
    step_unicode (hmod _) text 1, if_neg (by decide), Option.bind_some, scan_cons,
    step_unicode (hmod _) text 0, if_pos rfl, Option.bind_some, hsum, Nat.toUInt16, UInt16.ofNat_toNat]
  rfl

/-- An escaped unit is read as the unit. -/
theorem scan_escapeUnit (c : UInt16) (text : JsString) :
    Scan.run ⟨p, .string text⟩ (escapeUnit c) = some ⟨p, .string (text ++ [c])⟩ := by
  unfold escapeUnit
  split_ifs with hself hb hf hn hr ht hhex
  · rcases hself with rfl | rfl <;> rfl
  · rw [hb]; rfl
  · rw [hf]; rfl
  · rw [hn]; rfl
  · rw [hr]; rfl
  · rw [ht]; rfl
  · exact scan_unicode c text
  · rw [scan_cons, step_string (fun h => hself (.inl h)) (fun h => hself (.inr h)) (fun h => hhex (.inl h))]
    rfl

/-- The content of a stringified string is read as the string. -/
theorem scan_escape (text s : JsString) :
    Scan.run ⟨p, .string text⟩ (escape s) = some ⟨p, .string (text ++ s)⟩ := by
  fun_induction escape s generalizing text with
  | case1 => rw [List.append_nil]; rfl
  | case2 c => exact scan_escapeUnit c text
  | case3 c d s hpair ih =>
    obtain ⟨hcq, hcb, hcc⟩ := surrogate_plain (.inl hpair.1)
    obtain ⟨hdq, hdb, hdc⟩ := surrogate_plain (.inr hpair.2)
    rw [scan_cons, step_string hcq hcb hcc, Option.bind_some, scan_cons, step_string hdq hdb hdc, Option.bind_some, ih,
      List.append_assoc, List.append_assoc]
    rfl
  | case4 c d s _ ih =>
    rw [scan_append, scan_escapeUnit, Option.bind_some, ih, List.append_assoc]
    rfl

/-- A stringified string is one string token. -/
theorem scan_quote (s : JsString) : Scan.run ⟨p, .between⟩ (quote s) = emit p (.string s) := by
  have henter : Scan.step ⟨p, .between⟩ quotationMark = some ⟨p, .string []⟩ := rfl
  rw [quote, List.cons_append, scan_cons, henter, Option.bind_some, scan_append, scan_escape, Option.bind_some, scan_cons]
  cases h : emit p (.string s) with
  | none => simp only [Scan.step, if_true, List.nil_append, h, Option.bind_none]
  | some out => simp only [Scan.step, if_true, List.nil_append, h, Option.bind_some, scan_nil]

theorem parse_quote (s : JsString) : parse (quote s) = some (.string s) := by
  rw [parse, scan_quote]
  rfl

/-- `JSON.stringify` of an array, from the texts of its elements. -/
def bracket (elements : List JsString) : JsString := js "[" ++ List.intercalate (js ",") elements ++ js "]"

/-- A join is the first item, and each further one after a separator. -/
theorem intercalate_cons {α : Type} (sep x : List α) (xs : List (List α)) :
    List.intercalate sep (x :: xs) = x ++ xs.flatMap fun y => sep ++ y := by
  induction xs generalizing x with
  | nil => rw [List.flatMap_nil, List.append_nil, List.intercalate_singleton]
  | cons y xs ih => rw [List.intercalate_cons_cons, ih, List.flatMap_cons, List.append_assoc, List.append_assoc]

theorem scan_strings (ss : List JsString) (elements : List Value) (v : Value) :
    Scan.run ⟨.after [.array elements] v, .between⟩ ((ss.flatMap fun s => js "," ++ quote s) ++ js "]") =
      some ⟨.after [] (.array (elements ++ v :: ss.map .string)), .between⟩ := by
  induction ss generalizing elements v with
  | nil => rfl
  | cons s ss ih =>
    have hcomma : Scan.run ⟨.after [.array elements] v, .between⟩ (js ",") =
        some ⟨.value [.array (elements ++ [v])], .between⟩ := rfl
    have hemit : emit (.value [.array (elements ++ [v])]) (.string s) =
        some ⟨.after [.array (elements ++ [v])] (.string s), .between⟩ := rfl
    rw [List.flatMap_cons, List.append_assoc, List.append_assoc, scan_append, hcomma, Option.bind_some, scan_append,
      scan_quote, hemit, Option.bind_some, ih, List.append_assoc]
    rfl

/-- An array of strings is read back. -/
theorem parse_strings (ss : List JsString) : parse (bracket (ss.map quote)) = some (.array (ss.map .string)) := by
  have hopen : Scan.run ⟨.value [], .between⟩ (js "[") = some ⟨.element [], .between⟩ := rfl
  rcases ss with _ | ⟨s, ss⟩
  · rfl
  have hemit : emit (.element []) (.string s) = some ⟨.after [.array []] (.string s), .between⟩ := rfl
  rw [parse, bracket, List.map_cons, intercalate_cons, List.flatMap_map, List.append_assoc, scan_append, hopen, Option.bind_some, List.append_assoc, scan_append,
    scan_quote, hemit, Option.bind_some, scan_strings, Option.bind_some]
  rfl

/-! ### Integers -/

/-- The numeral of an integer. -/
def Numeral.ofInt (n : ℤ) : Numeral := ⟨n < 0, n.natAbs, 0, false, 0⟩

theorem digit_plain {c : UInt16} (h : isDigit c = true) : isSpace c = false ∧ c ≠ quotationMark ∧ c ≠ 0x2D := by
  simp only [isDigit, Bool.and_eq_true, decide_eq_true_eq, UInt16.le_iff_toNat_le] at h
  simp only [isSpace, quotationMark, ne_eq, ← UInt16.toNat_inj, Bool.or_eq_false_iff, decide_eq_false_iff_not]
  simp at h ⊢
  omega

/-- Digits of the whole part. -/
theorem scan_digits {n : Numeral} : ∀ {text : JsString}, (∀ c ∈ text, isDigit c = true) →
    Scan.run ⟨p, .number .whole n⟩ text = some ⟨p, .number .whole
      { n with digits := text.foldl (fun m c => 10 * m + digit c) n.digits }⟩
  | [], _ => rfl
  | c :: text, h => by
    have hstep : Scan.step ⟨p, .number .whole n⟩ c =
        some ⟨p, .number .whole { n with digits := 10 * n.digits + digit c }⟩ := by
      simp only [Scan.step, Stage.next, if_pos (h c List.mem_cons_self)]
    rw [scan_cons, hstep, Option.bind_some, scan_digits fun d hd => h d (List.mem_cons_of_mem _ hd)]
    rfl

/-- The numeral of a number that is not zero does not begin with a zero. -/
theorem numeral_head {n : ℕ} (h : n ≠ 0) : ∃ c text, numeral n = c :: text ∧ c ≠ 0x30 := by
  rcases hnum : numeral n with _ | ⟨c, text⟩
  · exact absurd hnum (numeral_ne_nil n)
  refine ⟨c, text, rfl, ?_⟩
  rintro rfl
  rw [numeral, if_neg h, List.map_reverse] at hnum
  have hne : Nat.digits 10 n ≠ [] := Nat.digits_ne_nil_iff_ne_zero.mpr h
  have hlast : ((Nat.digits 10 n).map fun d => (0x30 : UInt16) + d.toUInt16).getLast? = some 0x30 := by
    rw [← List.head?_reverse, hnum]
    rfl
  rw [List.getLast?_map, List.getLast?_eq_getLast_of_ne_nil hne, Option.map_some, Option.some.injEq] at hlast
  have hdigit : (Nat.digits 10 n).getLast hne < 10 := Nat.digits_lt_base (by decide) (List.getLast_mem hne)
  have hzero : ∀ d < 10, (0x30 : UInt16) + d.toUInt16 = 0x30 → d = 0 := by decide
  exact Nat.getLast_digit_ne_zero 10 h (hzero _ hdigit hlast)

/-- Digits where a number begins, after the sign if there is one. -/
theorem scan_numeral {negative : Bool} (hs : ∀ c, isDigit c = true → s.step c = some
      (if c = 0x30 then ⟨p, .number .zero ⟨negative, 0, 0, false, 0⟩⟩
      else ⟨p, .number .whole ⟨negative, digit c, 0, false, 0⟩⟩)) (n : ℕ) :
    ∃ stage, (stage = .zero ∨ stage = .whole) ∧
      s.run (numeral n) = some ⟨p, .number stage ⟨negative, n, 0, false, 0⟩⟩ := by
  by_cases hn : n = 0
  · subst hn
    refine ⟨.zero, .inl rfl, ?_⟩
    rw [show numeral 0 = [0x30] from rfl, scan_cons, hs 0x30 (by decide), if_pos rfl]
    rfl
  · obtain ⟨c, text, hnum, hc⟩ := numeral_head hn
    have hdigits : ∀ d ∈ c :: text, isDigit d = true := fun d hd => isDigit_of_mem_numeral (hnum ▸ hd)
    have hvalue : text.foldl (fun m c => 10 * m + digit c) (digit c) = n := by
      have hdecimal := decimal_numeral n
      rw [hnum, decimal, List.foldl_cons, Nat.mul_zero, Nat.zero_add] at hdecimal
      exact hdecimal
    refine ⟨.whole, .inr rfl, ?_⟩
    rw [hnum, scan_cons, hs c (hdigits c List.mem_cons_self), if_neg hc, Option.bind_some,
      scan_digits fun d hd => hdigits d (List.mem_cons_of_mem _ hd), hvalue]

/-- A written integer and a comma are two tokens. -/
theorem scan_integer (n : ℤ) (text : JsString) : Scan.run ⟨p, .between⟩ (integer n ++ 0x2C :: text) =
    (p.feed (.number (.ofInt n))).bind fun p => (emit p .comma).bind (·.run text) := by
  have hrun : ∃ stage, (stage = Stage.zero ∨ stage = .whole) ∧
      Scan.run ⟨p, .between⟩ (integer n) = some ⟨p, .number stage (.ofInt n)⟩ := by
    unfold integer Numeral.ofInt
    split
    · rename_i hneg
      have hstep : Scan.step ⟨p, .between⟩ 0x2D = some ⟨p, .number .sign ⟨true, 0, 0, false, 0⟩⟩ := rfl
      rw [scan_cons, hstep, Option.bind_some, decide_eq_true hneg]
      refine scan_numeral (fun c hc => ?_) n.natAbs
      simp only [Scan.step, Stage.next, if_pos hc]
      split_ifs <;> rfl
    · rename_i hneg
      rw [decide_eq_false hneg]
      refine scan_numeral (fun c hc => ?_) n.natAbs
      obtain ⟨hspace, hquote, hminus⟩ := digit_plain hc
      simp only [Scan.step, enter, hspace, if_neg hquote, if_neg hminus, if_pos hc, Bool.false_eq_true, if_false]
      split_ifs <;> rfl
  obtain ⟨stage, hstage, hrun⟩ := hrun
  have hcomma : Scan.step ⟨p, .number stage (.ofInt n)⟩ 0x2C =
      (p.feed (.number (.ofInt n))).bind fun p => emit p .comma := by
    rcases hstage with rfl | rfl <;> rfl
  rw [scan_append, hrun, Option.bind_some, scan_cons, hcomma, Option.bind_assoc]

theorem safeInteger_safe {v : Value} {n : ℤ} (h : v.safeInteger = some n) : isSafeInteger n = true := by
  unfold Value.safeInteger at h
  split at h
  · obtain ⟨d, -, h⟩ := Option.bind_eq_some_iff.mp h
    split at h
    · rename_i hsafe
      exact Option.some.inj h ▸ hsafe.2
    · cases h
  · cases h

theorem exact_ofInt (n : ℤ) : (Numeral.ofInt n).exact = n := by
  unfold Numeral.exact Numeral.ofInt
  rcases lt_or_ge n 0 with h | h
  · simp only [decide_eq_true h, if_true, Bool.false_eq_true, if_false]
    have habs : ((n.natAbs : ℕ) : ℚ) = -n := by
      rw [← Int.cast_natCast, Int.ofNat_natAbs_of_nonpos h.le, Int.cast_neg]
    rw [habs]
    norm_num
  · simp only [decide_eq_false h.not_gt, Bool.false_eq_true, if_false]
    have habs : ((n.natAbs : ℕ) : ℚ) = n := by
      rw [← Int.cast_natCast, Int.natAbs_of_nonneg h]
    rw [habs]
    norm_num

theorem roundHalfEven_int (n : ℤ) : roundHalfEven n = n := by
  rw [roundHalfEven, Int.floor_intCast, sub_self, if_pos (by norm_num)]

/-- A safe integer is a double. -/
theorem toDouble_int {n : ℤ} (h : isSafeInteger n = true) : toDouble n = some (n : ℚ) := by
  have hlt : n.natAbs < 2 ^ 53 := of_decide_eq_true h
  have habs : |(n : ℚ)| < 2 ^ 53 := by
    rw [← Int.cast_abs, Int.abs_eq_natAbs]
    exact_mod_cast hlt
  have hbit : lastBit n ≤ 0 := by
    refine max_le ?_ (by decide)
    rcases eq_or_ne n 0 with rfl | hn
    · simp
    · have hpos : 0 < |(n : ℚ)| := abs_pos.mpr (Int.cast_ne_zero.mpr hn)
      have hlog : Int.log 2 |(n : ℚ)| < 53 := (Int.lt_zpow_iff_log_lt (by decide) hpos).mp (by exact_mod_cast habs)
      omega
  obtain ⟨k, hk⟩ := Int.eq_ofNat_of_zero_le (Int.neg_nonneg.mpr hbit)
  have hscaled : (n : ℚ) / 2 ^ lastBit n = ((n * 2 ^ k : ℤ) : ℚ) := by
    rw [show lastBit n = -(k : ℤ) by omega, zpow_neg, div_inv_eq_mul, zpow_natCast]
    push_cast
    rfl
  have hback : ((n * 2 ^ k : ℤ) : ℚ) * 2 ^ lastBit n = n := by
    rw [← hscaled, div_mul_cancel₀]
    exact zpow_ne_zero _ (by norm_num)
  simp only [toDouble, hscaled, roundHalfEven_int, hback]
  rw [if_pos (habs.trans (pow_lt_pow_right₀ (by norm_num) (by norm_num)))]

theorem safeInteger_ofInt {n : ℤ} (h : isSafeInteger n = true) :
    (Value.number (.ofInt n)).safeInteger = some n := by
  simp only [Value.safeInteger, exact_ofInt, toDouble_int h, Option.bind_some, Rat.den_intCast, Rat.num_intCast, h,
    true_and, if_true]

end OneMail.Json
