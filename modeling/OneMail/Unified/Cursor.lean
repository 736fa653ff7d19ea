import OneMail.Js.Bytes
import OneMail.Js.Json
import OneMail.Unified.Listing

/-! The text of a cursor (`cursor.ts`).

    A cursor is written as JSON, as UTF-8 and as base64url without padding. What is written is read back
    exactly when the JSON takes no more than 384 bytes: longer texts exceed the 512 characters that are
    read, though the id they carry may be as short as the other limit asks (`cursor_codec`). -/

namespace OneMail.Unified
open JsString

/-- `/^[A-Za-z0-9_-]+$/` on one unit. -/
def isBase64Url (c : UInt16) : Bool :=
  (0x41 ≤ c && c ≤ 0x5A) || (0x61 ≤ c && c ≤ 0x7A) || (0x30 ≤ c && c ≤ 0x39) || c = 0x5F || c = 0x2D

def swap (a b c : UInt16) : UInt16 := if c = a then b else c

/-- `.replace(/a/g, b)` -/
def replaceUnit (a b : UInt16) (s : JsString) : JsString := s.map (swap a b)

def encodeBase64Url (value : JsString) : JsString :=
  (replaceUnit 0x2F 0x5F (replaceUnit 0x2B 0x2D (btoa (textEncode value)))).rdropWhile (· = equalsSign)

def decodeBase64Url (value : JsString) : Option JsString :=
  if value = [] ∨ MAX_CURSOR_LENGTH < value.length ∨ value.all isBase64Url = false then none
  else
    let normalized := replaceUnit 0x5F 0x2F (replaceUnit 0x2D 0x2B value)
    (atob (normalized ++ List.replicate ((4 - normalized.length % 4) % 4) equalsSign)).bind textDecode

/-- `validateCursor` on a parsed value. -/
def validateParsed (cursor : Json.Value) : Option EmailCursor :=
  if (cursor.get (js "v")).bind Json.Value.safeInteger = some 1 then
    match (cursor.get (js "sortKey")).bind Json.Value.safeInteger, cursor.get (js "id") with
    | some sortKey, some (.string id) => if id ≠ [] ∧ id.length ≤ MAX_ID_LENGTH then some ⟨sortKey, id⟩ else none
    | _, _ => none
  else none

/-- `JSON.stringify` of a cursor. -/
def stringifyCursor (c : EmailCursor) : JsString :=
  js "\x7b\"v\":1,\"sortKey\":" ++ (Json.integer c.sortKey ++ (js ",\"id\":" ++ (Json.quote c.id ++ js "\x7d")))

/-- `encodeEmailCursor`; `none` where it throws. -/
def encodeCursorText (sortKey : ℤ) (id : JsString) : Option JsString :=
  (validateCursor ⟨sortKey, id⟩).map fun c => encodeBase64Url (stringifyCursor c)

/-- `decodeEmailCursor`; `none` where it throws. -/
def decodeCursorText (value : JsString) : Option EmailCursor :=
  ((decodeBase64Url value).bind Json.parse).bind validateParsed

/-! ### Base64url -/

theorem sextet_url : ∀ n < 64, isBase64Url (swap 0x2F 0x5F (swap 0x2B 0x2D (sextet n))) = true ∧
    swap 0x2F 0x5F (swap 0x2B 0x2D (sextet n)) ≠ equalsSign := by decide

theorem sextet_back : ∀ n < 64,
    swap 0x5F 0x2F (swap 0x2D 0x2B (swap 0x2F 0x5F (swap 0x2B 0x2D (sextet n)))) = sextet n := by decide

/-- The groups of a text, in the other alphabet. -/
def urlText (bytes : List UInt8) : JsString :=
  replaceUnit 0x2F 0x5F (replaceUnit 0x2B 0x2D ((sextets bytes).map sextet))

theorem urlText_mem {bytes : List UInt8} {c : UInt16} (h : c ∈ urlText bytes) :
    isBase64Url c = true ∧ c ≠ equalsSign := by
  simp only [urlText, replaceUnit, List.map_map, List.mem_map, Function.comp] at h
  obtain ⟨n, hn, rfl⟩ := h
  exact sextet_url n (sextets_lt n hn)

theorem length_urlText (bytes : List UInt8) : (urlText bytes).length = (8 * bytes.length + 5) / 6 := by
  simp only [urlText, replaceUnit, List.length_map, length_sextets]

theorem urlText_normalized (bytes : List UInt8) :
    replaceUnit 0x5F 0x2F (replaceUnit 0x2D 0x2B (urlText bytes)) = (sextets bytes).map sextet := by
  simp only [urlText, replaceUnit, List.map_map]
  refine List.map_congr_left fun n hn => ?_
  simp only [Function.comp_apply, sextet_back n (sextets_lt n hn)]

/-- The padding is what is dropped. -/
theorem encodeBase64Url_eq (value : JsString) : encodeBase64Url value = urlText (textEncode value) := by
  have hequals (k : ℕ) : replaceUnit 0x2F 0x5F (replaceUnit 0x2B 0x2D (List.replicate k equalsSign)) =
      List.replicate k equalsSign := by
    simp only [replaceUnit, List.map_replicate]
    rfl
  have hkeep : ∀ {k : ℕ} {s : JsString}, equalsSign ∉ s →
      (s ++ List.replicate k equalsSign).rdropWhile (· = equalsSign) = s := by
    intro k s hs
    induction k with
    | zero =>
      rw [List.replicate_zero, List.append_nil, List.rdropWhile_eq_self_iff]
      intro hne hlast
      exact hs (of_decide_eq_true hlast ▸ List.getLast_mem hne)
    | succ k ih =>
      rw [List.replicate_succ', ← List.append_assoc, List.rdropWhile_concat, if_pos (decide_eq_true rfl), ih]
  have hmem : equalsSign ∉ urlText (textEncode value) := fun h => (urlText_mem h).2 rfl
  have hsplit (a b : JsString) : replaceUnit 0x2F 0x5F (replaceUnit 0x2B 0x2D (a ++ b)) =
      replaceUnit 0x2F 0x5F (replaceUnit 0x2B 0x2D a) ++ replaceUnit 0x2F 0x5F (replaceUnit 0x2B 0x2D b) := by
    simp only [replaceUnit, List.map_append]
  rw [encodeBase64Url, btoa, hsplit, hequals]
  exact hkeep hmem

/-- An encoded text is decoded when it is not too long. -/
theorem decodeBase64Url_encode {value : JsString} {n : ℕ} (hcode : Encodes value n) (hpos : 0 < n)
    (hmark : ¬ [0xEF, 0xBB, 0xBF] <+: textEncode value) :
    decodeBase64Url (encodeBase64Url value) = if (8 * n + 5) / 6 ≤ MAX_CURSOR_LENGTH then some value else none := by
  have hlength : (urlText (textEncode value)).length = (8 * n + 5) / 6 := by rw [length_urlText, hcode.length]
  have hne : urlText (textEncode value) ≠ [] := by
    rw [← List.length_pos_iff, hlength]
    omega
  have hall : (urlText (textEncode value)).all isBase64Url = true :=
    List.all_eq_true.mpr fun c hc => (urlText_mem hc).1
  obtain ⟨l, hl, -⟩ := hcode
  rw [encodeBase64Url_eq, decodeBase64Url]
  simp only [hne, hall, hlength, urlText_normalized, false_or, Bool.true_eq_false, or_false, ← Nat.not_le,
    ite_not, atob_sextets, Option.bind_some, textDecode_textEncode hl hmark]

/-! ### The JSON of a cursor -/

variable {c : EmailCursor}

/-- The JSON of a cursor is parsed to its members. -/
theorem parse_stringifyCursor (c : EmailCursor) : Json.parse (stringifyCursor c) =
    some (.object [(js "v", .number ⟨false, 1, 0, false, 0⟩), (js "sortKey", .number (.ofInt c.sortKey)),
      (js "id", .string c.id)]) := by
  have hfirst : Json.Scan.run ⟨.value [], .between⟩ (js "\x7b\"v\":1,\"sortKey\":") =
      some ⟨.value [.member [(js "v", .number ⟨false, 1, 0, false, 0⟩)] (js "sortKey")], .between⟩ := rfl
  rw [Json.parse, stringifyCursor, Json.scan_append, hfirst, Option.bind_some,
    show js ",\"id\":" = 0x2C :: js "\"id\":" from rfl, List.cons_append, Json.scan_integer]
  have hfeed : Json.Parser.feed (.value [.member [(js "v", .number ⟨false, 1, 0, false, 0⟩)] (js "sortKey")])
      (.number (.ofInt c.sortKey)) = some (.after [.member [(js "v", .number ⟨false, 1, 0, false, 0⟩)] (js "sortKey")]
        (.number (.ofInt c.sortKey))) := rfl
  have hsecond (members : List (JsString × Json.Value)) (v : Json.Value) :
      (Json.emit (.after [.member members (js "sortKey")] v) .comma).bind (·.run (js "\"id\":")) =
        some ⟨.value [.member (members ++ [(js "sortKey", v)]) (js "id")], .between⟩ := rfl
  rw [hfeed, Option.bind_some]
  simp only [Json.scan_append, ← Option.bind_assoc, hsecond, Option.bind_some, Json.scan_quote]
  rfl

theorem validateParsed_cursor (h : Json.isSafeInteger c.sortKey = true) :
    validateParsed (.object [(js "v", .number ⟨false, 1, 0, false, 0⟩), (js "sortKey", .number (.ofInt c.sortKey)),
      (js "id", .string c.id)]) = if c.id ≠ [] ∧ c.id.length ≤ MAX_ID_LENGTH then some c else none := by
  have hone : (Json.Value.number ⟨false, 1, 0, false, 0⟩).safeInteger = some 1 := Json.safeInteger_ofInt (n := 1) rfl
  have hv (a b : Json.Value) : Json.Value.get (js "v") (.object [(js "v", .number ⟨false, 1, 0, false, 0⟩),
    (js "sortKey", a), (js "id", b)]) = some (.number ⟨false, 1, 0, false, 0⟩) := rfl
  have hkey (a b d : Json.Value) : Json.Value.get (js "sortKey") (.object [(js "v", a), (js "sortKey", b),
    (js "id", d)]) = some b := rfl
  have hid (a b d : Json.Value) : Json.Value.get (js "id") (.object [(js "v", a), (js "sortKey", b),
    (js "id", d)]) = some d := rfl
  rw [validateParsed, hv, hkey, hid, Option.bind_some, Option.bind_some, hone, if_pos rfl,
    Json.safeInteger_ofInt h]

/-- A parsed value that is accepted is a cursor that can be encoded. -/
theorem validateParsed_valid {v : Json.Value} (h : validateParsed v = some c) : validateCursor c = some c := by
  unfold validateParsed at h
  split at h
  · split at h
    · rename_i sortKey id hkey hid
      split at h
      · rename_i hlength
        cases h
        have hsafe : Json.isSafeInteger sortKey = true := by
          obtain ⟨w, -, hw⟩ := Option.bind_eq_some_iff.mp hkey
          exact Json.safeInteger_safe hw
        rw [validateCursor, if_pos ⟨hsafe, hlength⟩]
      · cases h
    · cases h
  · cases h

/-! ### Its length -/

theorem hexDigit_ascii : ∀ n < 16, (Json.hexDigit n).toNat < 0x80 := by decide

theorem encodes_escapeUnit (d : UInt16) : Encodes (Json.escapeUnit d) (unitBytes d) := by
  unfold Json.escapeUnit
  split_ifs with hself hb hf hn hr ht hhex
  · rcases hself with rfl | rfl <;> exact encodes_ascii (by decide)
  · subst hb; exact encodes_ascii (by decide)
  · subst hf; exact encodes_ascii (by decide)
  · subst hn; exact encodes_ascii (by decide)
  · subst hr; exact encodes_ascii (by decide)
  · subst ht; exact encodes_ascii (by decide)
  · have hbytes : unitBytes d = 6 := by
      rw [surrogate_iff] at hhex
      simp only [unitBytes, UInt16.le_iff_toNat_le, UInt16.lt_iff_toNat_lt, ← UInt16.toNat_inj, ne_eq] at *
      simp at *
      split_ifs <;> omega
    have hlt := d.toNat_lt
    rw [hbytes]
    refine encodes_ascii fun e he => ?_
    simp only [List.mem_cons, List.not_mem_nil, or_false] at he
    rcases he with rfl | rfl | rfl | rfl | rfl | rfl
    · decide
    · decide
    · exact hexDigit_ascii _ (by omega)
    · exact hexDigit_ascii _ (by omega)
    · exact hexDigit_ascii _ (by omega)
    · exact hexDigit_ascii _ (by omega)
  · rw [surrogate_iff] at hhex
    have hunit := encodes_unit (c := d) fun h => hhex (.inr h)
    have hbytes : unitBytes d = if d.toNat < 0x80 then 1 else if d.toNat < 0x800 then 2 else 3 := by
      simp only [unitBytes, UInt16.le_iff_toNat_le, UInt16.lt_iff_toNat_lt, ← UInt16.toNat_inj, ne_eq] at *
      simp at *
      split_ifs <;> omega
    rwa [hbytes]

theorem pair_iff {d e : UInt16} : isHighSurrogate d = true ∧ isLowSurrogate e = true ↔
    0xD800 ≤ d ∧ d < 0xDC00 ∧ 0xDC00 ≤ e ∧ e < 0xE000 := by
  simp only [isHighSurrogate, isLowSurrogate, Bool.and_eq_true, decide_eq_true_eq, UInt16.le_iff_toNat_le,
    UInt16.lt_iff_toNat_lt]
  simp
  omega

theorem encodes_escape (s : JsString) : Encodes (Json.escape s) (idBytes s) := by
  fun_induction Json.escape s with
  | case1 => exact ⟨[], rfl, rfl⟩
  | case2 d => exact encodes_escapeUnit d
  | case3 d e s hpair ih =>
    rw [idBytes, if_pos (pair_iff.mp hpair)]
    exact (encodes_pair hpair.1 hpair.2).append ih
  | case4 d e s hpair ih =>
    rw [idBytes, if_neg (mt pair_iff.mpr hpair)]
    exact (encodes_escapeUnit d).append ih

theorem length_numeral (n : ℕ) : (numeral n).length = (Nat.toDigits 10 n).length := by
  induction n using Nat.strongRecOn with
  | ind n ih =>
    rcases Nat.lt_or_ge n 10 with hlt | hge
    · rw [Nat.toDigits_of_lt_base hlt, numeral]
      split
      · rfl
      · rw [Nat.digits_of_lt 10 n ‹_› hlt]
        rfl
    · have hrest := ih (n / 10) (by omega)
      rw [numeral, if_neg (by omega), List.length_map, List.length_reverse] at hrest
      rw [Nat.toDigits_of_base_le (by decide) hge, List.length_append, List.length_singleton, ← hrest, numeral,
        if_neg (by omega), List.length_map, List.length_reverse, Nat.digits_def' (by decide) (by omega),
        List.length_cons]

theorem encodes_integer (n : ℤ) :
    Encodes (Json.integer n) ((if n < 0 then 1 else 0) + (Nat.toDigits 10 n.natAbs).length) := by
  have hdigits : ∀ d ∈ numeral n.natAbs, d.toNat < 0x80 := by
    intro d hd
    have hd := isDigit_of_mem_numeral hd
    simp only [isDigit, Bool.and_eq_true, decide_eq_true_eq, UInt16.le_iff_toNat_le] at hd
    simp at hd
    omega
  rw [← length_numeral]
  unfold Json.integer
  split
  · rw [Nat.add_comm, ← List.length_cons (a := 0x2D)]
    refine encodes_ascii fun d hd => ?_
    rcases List.mem_cons.mp hd with rfl | hd
    · decide
    · exact hdigits d hd
  · rw [Nat.zero_add]
    exact encodes_ascii hdigits

theorem encodes_stringifyCursor (c : EmailCursor) : Encodes (stringifyCursor c) c.bytes := by
  have hquote : Encodes (Json.quote c.id) (1 + idBytes c.id + 1) :=
    ((encodes_ascii (s := [Json.quotationMark]) (by decide)).append (encodes_escape c.id)).append
      (encodes_ascii (s := [Json.quotationMark]) (by decide))
  have hsum := (encodes_ascii (s := js "\x7b\"v\":1,\"sortKey\":") (by decide)).append
    ((encodes_integer c.sortKey).append ((encodes_ascii (s := js ",\"id\":") (by decide)).append
      (hquote.append (encodes_ascii (s := js "\x7d") (by decide)))))
  have hbytes : c.bytes = (js "\x7b\"v\":1,\"sortKey\":").length + ((if c.sortKey < 0 then 1 else 0) +
      (Nat.toDigits 10 c.sortKey.natAbs).length + ((js ",\"id\":").length + (1 + idBytes c.id + 1 +
        (js "\x7d").length))) := by
    rw [show (js "\x7b\"v\":1,\"sortKey\":").length = 17 from rfl, show (js ",\"id\":").length = 6 from rfl,
      show (js "\x7d").length = 1 from rfl, EmailCursor.bytes]
    omega
  rw [hbytes, stringifyCursor]
  exact hsum

theorem stringifyCursor_mark (c : EmailCursor) : ¬ [0xEF, 0xBB, 0xBF] <+: textEncode (stringifyCursor c) := by
  have hbrace (s : JsString) : textEncode (0x7B :: s) = 0x7B :: textEncode s := by
    rw [textEncode, scalars_cons (by decide) (by decide), List.flatMap_cons]
    rfl
  rw [show stringifyCursor c = 0x7B :: (stringifyCursor c).tail from rfl, hbrace]
  exact fun h => absurd (List.cons_prefix_cons.mp h).1 (by decide)

/-! ### The codec -/

theorem validateCursor_eq {c c' : EmailCursor} (h : validateCursor c = some c') :
    c = c' ∧ isSafeInteger c.sortKey = true ∧ c.id ≠ [] ∧ c.id.length ≤ MAX_ID_LENGTH := by
  unfold validateCursor at h
  split at h
  · rename_i hvalid
    exact ⟨Option.some.inj h, hvalid⟩
  · cases h

/-- The text of a cursor is read as the cursor that stands for it in the list queries. -/
theorem decode_encode (h : validateCursor c = some c) :
    decodeCursorText (encodeBase64Url (stringifyCursor c)) = decodeEmailCursor c := by
  obtain ⟨-, hsafe, hid⟩ := validateCursor_eq h
  have hpos : 0 < c.bytes := by
    unfold EmailCursor.bytes
    omega
  rw [decodeCursorText, decodeBase64Url_encode (encodes_stringifyCursor c) hpos (stringifyCursor_mark c),
    decodeEmailCursor, EmailCursor.length, h]
  split
  · rw [Option.bind_some, parse_stringifyCursor, Option.bind_some, validateParsed_cursor hsafe, if_pos hid]
  · rfl

theorem decodeEmailCursor_iff (h : validateCursor c = some c) : decodeEmailCursor c = some c ↔ c.bytes ≤ 384 := by
  have hlimit : c.length ≤ MAX_CURSOR_LENGTH ↔ c.bytes ≤ 384 := by
    unfold EmailCursor.length MAX_CURSOR_LENGTH
    omega
  rw [decodeEmailCursor, h]
  simp only [hlimit, ite_eq_left_iff, reduceCtorEq, imp_false, not_not]

/-- An encoded cursor is read back when its JSON takes no more than 384 bytes, and only then; and what
    is read of any text is a cursor that can be encoded. -/
theorem cursor_codec (text : JsString) :
    (∀ sortKey id, encodeCursorText sortKey id = some text →
      (decodeCursorText text = some ⟨sortKey, id⟩ ↔ (⟨sortKey, id⟩ : EmailCursor).bytes ≤ 384)) ∧
    ∀ c, decodeCursorText text = some c → ∃ text', encodeCursorText c.sortKey c.id = some text' := by
  refine ⟨fun sortKey id h => ?_, fun c h => ?_⟩
  · obtain ⟨c, hc, rfl⟩ := Option.map_eq_some_iff.mp h
    obtain rfl := (validateCursor_eq hc).1
    rw [decode_encode hc, decodeEmailCursor_iff hc]
  · obtain ⟨v, -, hv⟩ := Option.bind_eq_some_iff.mp h
    exact ⟨_, by rw [encodeCursorText, validateParsed_valid hv, Option.map_some]⟩

/-- An id of 256 units that take three bytes each. -/
def longId : JsString := List.replicate 256 0x90AE

/-- It is encoded, and the text is refused. -/
theorem long_id_refused : ∃ text, encodeCursorText 1 longId = some text ∧ decodeCursorText text = none := by
  have hvalid : validateCursor ⟨1, longId⟩ = some ⟨1, longId⟩ := by decide +kernel
  refine ⟨_, by rw [encodeCursorText, hvalid, Option.map_some], ?_⟩
  rw [decode_encode hvalid]
  decide +kernel

end OneMail.Unified
