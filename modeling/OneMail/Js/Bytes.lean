import OneMail.Js.Uri

/-! Texts as bytes: `TextEncoder`, `TextDecoder`, `btoa` and `atob`.

    Encoding as UTF-8 replaces a surrogate that stands alone; what is encoded of a well-formed text is
    decoded to it (`textDecode_textEncode`). `atob` gives back the bytes of a `btoa` text whatever
    padding it is written with (`atob_sextets`). -/

namespace OneMail.JsString

/-! ### UTF-8 -/

/-- The scalar values of a string, U+FFFD for a surrogate that stands alone. -/
def scalars : JsString → List Char
  | [] => []
  | c :: s =>
    if isHighSurrogate c then
      match s with
      | d :: t =>
        if isLowSurrogate d then
          Char.ofNat (0x10000 + (c.toNat - 0xD800) * 0x400 + (d.toNat - 0xDC00)) :: scalars t
        else Char.ofNat 0xFFFD :: scalars (d :: t)
      | [] => [Char.ofNat 0xFFFD]
    else if isLowSurrogate c then Char.ofNat 0xFFFD :: scalars s
    else Char.ofNat c.toNat :: scalars s

/-- `new TextEncoder().encode(s)` -/
def textEncode (s : JsString) : List UInt8 := (scalars s).flatMap String.utf8EncodeChar

/-- `new TextDecoder("utf-8", { fatal: true, ignoreBOM: false }).decode(bytes)`; `none` where it throws. -/
def textDecode (bytes : List UInt8) : Option JsString :=
  let body := if [0xEF, 0xBB, 0xBF] <+: bytes then bytes.drop 3 else bytes
  body.toByteArray.utf8Decode?.map fun chars => chars.toList.flatMap codeUnits

theorem scalars_cons {c : UInt16} (hhigh : ¬ isHighSurrogate c = true) (hlow : ¬ isLowSurrogate c = true)
    (s : JsString) : scalars (c :: s) = Char.ofNat c.toNat :: scalars s := by
  rw [scalars.eq_def]
  simp only [if_neg hhigh, if_neg hlow]

theorem scalars_codePoints {s : JsString} {l : List Char} (h : codePoints s = some l) : scalars s = l := by
  fun_induction codePoints s generalizing l with
  | case1 => exact Option.some.inj h
  | case2 c hc d t hd ih =>
    obtain ⟨l, hl, rfl⟩ := Option.map_eq_some_iff.mp h
    rw [scalars, if_pos hc, if_pos hd, ih hl]
  | case3 | case4 | case5 => cases h
  | case6 c s hc hd ih =>
    obtain ⟨l, hl, rfl⟩ := Option.map_eq_some_iff.mp h
    rw [scalars_cons hc hd, ih hl]

theorem codePoints_append {s t : JsString} {l : List Char} (h : codePoints s = some l) :
    codePoints (s ++ t) = (codePoints t).map (l ++ ·) := by
  fun_induction codePoints s generalizing l with
  | case1 =>
    obtain rfl := Option.some.inj h
    simp
  | case2 c hc d u hd ih =>
    obtain ⟨l, hl, rfl⟩ := Option.map_eq_some_iff.mp h
    rw [List.cons_append, List.cons_append, codePoints, if_pos hc, if_pos hd, ih hl, Option.map_map]
    rfl
  | case3 | case4 | case5 => cases h
  | case6 c s hc hd ih =>
    obtain ⟨l, hl, rfl⟩ := Option.map_eq_some_iff.mp h
    rw [List.cons_append, codePoints.eq_def]
    simp only [if_neg hc, if_neg hd, ih hl, Option.map_map]
    rfl

/-- A well-formed text that does not begin with a byte order mark is decoded from its bytes. -/
theorem textDecode_textEncode {s : JsString} {l : List Char} (h : codePoints s = some l)
    (hmark : ¬ [0xEF, 0xBB, 0xBF] <+: textEncode s) : textDecode (textEncode s) = some s := by
  have hbytes : (textEncode s).toByteArray = l.utf8Encode := by
    rw [textEncode, scalars_codePoints h, List.utf8Encode]
  rw [textDecode, if_neg hmark, hbytes, List.utf8Decode?_utf8Encode, Option.map_some, List.toList_toArray,
    codeUnits_codePoints h]

/-- The text is well formed and takes `n` bytes. -/
def Encodes (s : JsString) (n : ℕ) : Prop :=
  ∃ l, codePoints s = some l ∧ (l.flatMap String.utf8EncodeChar).length = n

theorem Encodes.append {s t : JsString} {m n : ℕ} (hs : Encodes s m) (ht : Encodes t n) :
    Encodes (s ++ t) (m + n) := by
  obtain ⟨l, hl, rfl⟩ := hs
  obtain ⟨l', hl', rfl⟩ := ht
  exact ⟨l ++ l', by rw [codePoints_append hl, hl', Option.map_some], by rw [List.flatMap_append, List.length_append]⟩

theorem Encodes.length {s : JsString} {n : ℕ} (h : Encodes s n) : (textEncode s).length = n := by
  obtain ⟨l, hl, rfl⟩ := h
  rw [textEncode, scalars_codePoints hl]

theorem surrogate_iff (c : UInt16) :
    isHighSurrogate c = true ∨ isLowSurrogate c = true ↔ 0xD800 ≤ c.toNat ∧ c.toNat < 0xE000 := by
  simp only [isHighSurrogate, isLowSurrogate, Bool.and_eq_true, decide_eq_true_eq]
  omega

/-- A unit of its own. -/
theorem encodes_unit {c : UInt16} (h : ¬ (0xD800 ≤ c.toNat ∧ c.toNat < 0xE000)) :
    Encodes [c] (if c.toNat < 0x80 then 1 else if c.toNat < 0x800 then 2 else 3) := by
  have hsurrogate := mt (surrogate_iff c).mp h
  have hlt := c.toNat_lt
  have hvalid : c.toNat.isValidChar := by
    rcases Nat.lt_or_ge c.toNat 0xD800 with h' | h'
    · exact .inl h'
    · exact .inr (by omega)
  refine ⟨[Char.ofNat c.toNat], ?_, ?_⟩
  · rw [codePoints, if_neg fun hc => hsurrogate (.inl hc), if_neg fun hc => hsurrogate (.inr hc), codePoints]
    rfl
  · have hval : (Char.ofNat c.toNat).val.toNat = c.toNat := toNat_ofNat_valid hvalid
    rw [List.flatMap_singleton, String.length_utf8EncodeChar, Char.utf8Size]
    simp only [UInt32.le_iff_toNat_le, hval]
    split_ifs <;> simp_all <;> omega

/-- A pair. -/
theorem encodes_pair {c d : UInt16} (hc : isHighSurrogate c = true) (hd : isLowSurrogate d = true) :
    Encodes [c, d] 4 := by
  refine ⟨[Char.ofNat (0x10000 + (c.toNat - 0xD800) * 0x400 + (d.toNat - 0xDC00))], ?_, ?_⟩
  · rw [codePoints, if_pos hc, if_pos hd, codePoints]
    rfl
  · simp only [isHighSurrogate, isLowSurrogate, Bool.and_eq_true, decide_eq_true_eq] at hc hd
    have hval := toNat_ofNat_valid (n := 0x10000 + (c.toNat - 0xD800) * 0x400 + (d.toNat - 0xDC00)) (.inr (by omega))
    have hval : (Char.ofNat (0x10000 + (c.toNat - 0xD800) * 0x400 + (d.toNat - 0xDC00))).val.toNat =
        0x10000 + (c.toNat - 0xD800) * 0x400 + (d.toNat - 0xDC00) := hval
    rw [List.flatMap_singleton, String.length_utf8EncodeChar, Char.utf8Size]
    simp only [UInt32.le_iff_toNat_le, hval]
    split_ifs <;> simp_all <;> omega

theorem encodes_ascii : ∀ {s : JsString}, (∀ c ∈ s, c.toNat < 0x80) → Encodes s s.length
  | [], _ => ⟨[], rfl, rfl⟩
  | c :: s, h => by
    have hc := h c List.mem_cons_self
    have hunit : Encodes [c] 1 := by
      have := encodes_unit (c := c) (by omega)
      rwa [if_pos hc] at this
    have hs := hunit.append (encodes_ascii fun d hd => h d (List.mem_cons_of_mem _ hd))
    rwa [Nat.add_comm, List.singleton_append] at hs

/-! ### Base64 -/

/-- The base64 alphabet. -/
def sextet (n : ℕ) : UInt16 :=
  if n < 26 then 0x41 + n.toUInt16
  else if n < 52 then 0x61 + (n - 26).toUInt16
  else if n < 62 then 0x30 + (n - 52).toUInt16
  else if n = 62 then 0x2B else 0x2F

def sextetValue (c : UInt16) : Option ℕ :=
  if 0x41 ≤ c ∧ c ≤ 0x5A then some (c.toNat - 0x41)
  else if 0x61 ≤ c ∧ c ≤ 0x7A then some (c.toNat - 0x61 + 26)
  else if 0x30 ≤ c ∧ c ≤ 0x39 then some (c.toNat - 0x30 + 52)
  else if c = 0x2B then some 62
  else if c = 0x2F then some 63
  else none

/-- The groups of six bits, the last one filled up with zeros. -/
def sextets : List UInt8 → List ℕ
  | [] => []
  | [a] => [a.toNat / 4, a.toNat % 4 * 16]
  | [a, b] => [a.toNat / 4, a.toNat % 4 * 16 + b.toNat / 16, b.toNat % 16 * 4]
  | a :: b :: c :: rest =>
    a.toNat / 4 :: (a.toNat % 4 * 16 + b.toNat / 16) :: (b.toNat % 16 * 4 + c.toNat / 64) :: c.toNat % 64 ::
      sextets rest

/-- The bytes of groups of six bits; bits that fill no byte are dropped. -/
def bytesOf : List ℕ → List UInt8
  | a :: b :: c :: d :: rest =>
    (a * 4 + b / 16).toUInt8 :: (b % 16 * 16 + c / 4).toUInt8 :: (c % 4 * 64 + d).toUInt8 :: bytesOf rest
  | [a, b, c] => [(a * 4 + b / 16).toUInt8, (b % 16 * 16 + c / 4).toUInt8]
  | [a, b] => [(a * 4 + b / 16).toUInt8]
  | _ => []

def equalsSign : UInt16 := 0x3D

/-- `btoa` of the bytes as a binary string. -/
def btoa (bytes : List UInt8) : JsString :=
  (sextets bytes).map sextet ++ List.replicate ((3 - bytes.length % 3) % 3) equalsSign

def isAsciiSpace (c : UInt16) : Bool := c = 0x9 || c = 0xA || c = 0xC || c = 0xD || c = 0x20

def dropEquals (s : JsString) : JsString := if s.getLast? = some equalsSign then s.dropLast else s

/-- Remove one or two equals signs from the end. -/
def dropPadding (s : JsString) : JsString := dropEquals (dropEquals s)

/-- `atob`, the bytes of the binary string; `none` where it throws. -/
def atob (s : JsString) : Option (List UInt8) :=
  let s := s.filter (!isAsciiSpace ·)
  let s := if s.length % 4 = 0 then dropPadding s else s
  if s.length % 4 = 1 then none else (s.mapM sextetValue).map bytesOf

theorem sextetValue_sextet : ∀ n < 64, sextetValue (sextet n) = some n := by decide

theorem sextet_plain : ∀ n < 64, isAsciiSpace (sextet n) = false ∧ sextet n ≠ equalsSign := by decide

theorem sextets_lt : ∀ {bytes : List UInt8}, ∀ n ∈ sextets bytes, n < 64
  | [], _, h => absurd h List.not_mem_nil
  | [a], n, h => by
    have ha := a.toNat_lt
    simp only [sextets, List.mem_cons, List.not_mem_nil, or_false] at h
    omega
  | [a, b], n, h => by
    have ha := a.toNat_lt
    have hb := b.toNat_lt
    simp only [sextets, List.mem_cons, List.not_mem_nil, or_false] at h
    omega
  | a :: b :: c :: rest, n, h => by
    have ha := a.toNat_lt
    have hb := b.toNat_lt
    have hc := c.toNat_lt
    simp only [sextets, List.mem_cons] at h
    rcases h with h | h | h | h | h
    · omega
    · omega
    · omega
    · omega
    · exact sextets_lt n h

theorem length_sextets : ∀ bytes : List UInt8, (sextets bytes).length = (8 * bytes.length + 5) / 6
  | [] => rfl
  | [_] => by simp only [sextets, List.length_cons, List.length_nil]
  | [_, _] => by simp only [sextets, List.length_cons, List.length_nil]
  | a :: b :: c :: rest => by
    simp only [sextets, List.length_cons, length_sextets rest]
    omega

theorem bytesOf_sextets : ∀ bytes : List UInt8, bytesOf (sextets bytes) = bytes
  | [] => rfl
  | [a] => by
    have ha := a.toNat_lt
    have hfirst : a.toNat / 4 * 4 + a.toNat % 4 * 16 / 16 = a.toNat := by omega
    simp only [sextets, bytesOf, hfirst, Nat.toUInt8, UInt8.ofNat_toNat]
  | [a, b] => by
    have hb := b.toNat_lt
    have hfirst : a.toNat / 4 * 4 + (a.toNat % 4 * 16 + b.toNat / 16) / 16 = a.toNat := by omega
    have hsecond : (a.toNat % 4 * 16 + b.toNat / 16) % 16 * 16 + b.toNat % 16 * 4 / 4 = b.toNat := by omega
    simp only [sextets, bytesOf, hfirst, hsecond, Nat.toUInt8, UInt8.ofNat_toNat]
  | a :: b :: c :: rest => by
    have hb := b.toNat_lt
    have hc := c.toNat_lt
    have hfirst : a.toNat / 4 * 4 + (a.toNat % 4 * 16 + b.toNat / 16) / 16 = a.toNat := by omega
    have hsecond : (a.toNat % 4 * 16 + b.toNat / 16) % 16 * 16 + (b.toNat % 16 * 4 + c.toNat / 64) / 4 = b.toNat := by
      omega
    have hthird : (b.toNat % 16 * 4 + c.toNat / 64) % 4 * 64 + c.toNat % 64 = c.toNat := by omega
    simp only [sextets, bytesOf, hfirst, hsecond, hthird, Nat.toUInt8, UInt8.ofNat_toNat, bytesOf_sextets rest]

theorem dropEquals_self {s : JsString} (h : equalsSign ∉ s) : dropEquals s = s :=
  if_neg fun hlast => h (List.mem_of_getLast? hlast)

theorem dropEquals_concat (s : JsString) : dropEquals (s ++ [equalsSign]) = s := by
  rw [dropEquals, if_pos List.getLast?_concat, List.dropLast_concat]

theorem dropPadding_append {s : JsString} (h : equalsSign ∉ s) : ∀ {k : ℕ}, k ≤ 2 →
    dropPadding (s ++ List.replicate k equalsSign) = s
  | 0, _ => by rw [List.replicate_zero, List.append_nil, dropPadding, dropEquals_self h, dropEquals_self h]
  | 1, _ => by rw [List.replicate_one, dropPadding, dropEquals_concat, dropEquals_self h]
  | 2, _ => by
    rw [List.replicate_succ', List.replicate_one, ← List.append_assoc, dropPadding, dropEquals_concat,
      dropEquals_concat]
  | k + 3, hk => by omega

theorem mapM_map {α β : Type*} {f : α → β} {g : β → Option α} : ∀ {l : List α}, (∀ a ∈ l, g (f a) = some a) →
    (l.map f).mapM g = some l
  | [], _ => rfl
  | a :: l, h => by
    rw [List.map_cons, List.mapM_cons, h a List.mem_cons_self, mapM_map fun b hb => h b (List.mem_cons_of_mem _ hb)]
    rfl

/-- The groups of a `btoa` text are read back to its bytes, with whatever padding makes its length a
    multiple of four. -/
theorem atob_sextets (bytes : List UInt8) :
    atob ((sextets bytes).map sextet ++
      List.replicate ((4 - ((sextets bytes).map sextet).length % 4) % 4) equalsSign) = some bytes := by
  have hlength := length_sextets bytes
  have hplain : ∀ c ∈ (sextets bytes).map sextet, isAsciiSpace c = false ∧ c ≠ equalsSign := by
    intro c hc
    obtain ⟨n, hn, rfl⟩ := List.mem_map.mp hc
    exact sextet_plain n (sextets_lt n hn)
  have hkeep : ((sextets bytes).map sextet ++
      List.replicate ((4 - ((sextets bytes).map sextet).length % 4) % 4) equalsSign).filter (!isAsciiSpace ·) =
      (sextets bytes).map sextet ++
        List.replicate ((4 - ((sextets bytes).map sextet).length % 4) % 4) equalsSign := by
    refine List.filter_eq_self.mpr fun c hc => ?_
    rcases List.mem_append.mp hc with hc | hc
    · rw [(hplain c hc).1]
      rfl
    · rw [List.eq_of_mem_replicate hc]
      rfl
  have hequals : equalsSign ∉ (sextets bytes).map sextet := fun hmem => (hplain _ hmem).2 rfl
  have hfull : ((sextets bytes).map sextet ++
      List.replicate ((4 - ((sextets bytes).map sextet).length % 4) % 4) equalsSign).length % 4 = 0 := by
    rw [List.length_append, List.length_replicate]
    omega
  have hdrop := dropPadding_append hequals (k := (4 - ((sextets bytes).map sextet).length % 4) % 4)
    (by rw [List.length_map]; omega)
  have hlast : ¬ ((sextets bytes).map sextet).length % 4 = 1 := by
    rw [List.length_map]
    omega
  simp only [atob, hkeep, if_pos hfull, hdrop, if_neg hlast]
  rw [mapM_map fun n hn => sextetValue_sextet n (sextets_lt n hn), Option.map_some, bytesOf_sextets]

end OneMail.JsString
