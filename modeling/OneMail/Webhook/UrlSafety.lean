import OneMail.Webhook.UrlGuard

/-! Exactly when the guard of the webhook URLs answers what is asked of it.

    A name is judged by its letters, so an ordinary one that begins as a private IPv6 address does is
    refused. An IPv6 address is judged by its text: some private ones are let through. -/

namespace OneMail.Webhook
open Whatwg

section Guard

variable {Raw : Type} {parse : Raw → Option Url} {urlStr : Raw} {u : Url} {d : Domain}

/-! ### Names -/

theorem not_mem_name (d : Domain) {c : Char} (hc : c ∈ forbiddenCodePoints) : c ∉ d.name :=
  fun hmem => d.permitted c hmem hc

theorem tested_domain (h : u.hostKind = .domain d) : u.tested = stripDot d.name := by
  rw [Url.tested, Url.hostname, h, Host.serialise, map_lower d.lower]

theorem unbracket_of_not_mem {s : Text} (hleft : '[' ∉ s) (hright : ']' ∉ s) : unbracket s = s := by
  have hhead : s.head? ≠ some '[' := fun h => hleft (List.mem_of_mem_head? h)
  have hlast : s.getLast? ≠ some ']' := fun h => hright (List.mem_of_getLast? h)
  rw [unbracket, if_neg hhead, if_neg hlast]

theorem decimal_digit {n : ℕ} {c : Char} (h : c ∈ Whatwg.decimal n) : c.isDigit = true :=
  Nat.isDigit_of_mem_toDigits (by decide) (by decide) h

theorem mem_portSuffix {port : Option ℕ} {c : Char} (h : c ∈ portSuffix port) : c = ':' ∨ c.isDigit = true := by
  rcases port with - | n
  · cases h
  · exact (List.mem_cons.mp h).imp_right decimal_digit

theorem isHexDigit_of_isDigit {c : Char} (h : c.isDigit = true) : isHexDigit c = true := by
  rw [isHexDigit, Bool.or_eq_true]
  exact .inl h

/-- Digits and hexadecimal letters are small, and no punctuation. -/
theorem hexDigit_facts {c : Char} (h : isHexDigit c = true) : c.toLower = c ∧ c ∉ forbiddenCodePoints ∧ c ≠ '.' ∧
    c ≠ 'x' ∧ c ≠ 'X' ∧ c ≠ 'l' ∧ c ≠ 't' := by
  have hle : c.toNat < 103 := by
    simp only [isHexDigit, Bool.or_eq_true, Bool.and_eq_true, decide_eq_true_eq, Char.le_def, UInt32.le_iff_toNat_le] at h
    rcases h with ⟨-, h⟩ | ⟨-, h⟩
    · exact Nat.lt_of_le_of_lt h (by decide)
    · exact Nat.lt_of_le_of_lt h (by decide)
  have hall : ∀ n < 103, isHexDigit (Char.ofNat n) = true → (Char.ofNat n).toLower = Char.ofNat n ∧
      Char.ofNat n ∉ forbiddenCodePoints ∧ Char.ofNat n ≠ '.' ∧ Char.ofNat n ≠ 'x' ∧ Char.ofNat n ≠ 'X' ∧
      Char.ofNat n ≠ 'l' ∧ Char.ofNat n ≠ 't' := by
    decide +kernel
  have hc := hall c.toNat hle
  rw [Char.ofNat_toNat] at hc
  exact hc h

theorem lower_suffixed (d : Domain) (port : Option ℕ) : ∀ c ∈ d.name ++ portSuffix port, c.toLower = c := by
  intro c hc
  rcases List.mem_append.mp hc with hc | hc
  · exact d.lower c hc
  · rcases mem_portSuffix hc with rfl | hc
    · rfl
    · exact (hexDigit_facts (isHexDigit_of_isDigit hc)).1

/-- A prefix without a separator lies before the separator. -/
theorem prefix_before {w name rest : Text} {sep : Char} (hw : sep ∉ w) (hrest : ∀ c ∈ rest.head?, c = sep) :
    w <+: name ++ rest ↔ w <+: name := by
  refine ⟨fun h => ?_, fun h => h.trans (List.prefix_append name _)⟩
  rcases Nat.le_total w.length name.length with hlen | hlen
  · exact List.prefix_of_prefix_length_le h (List.prefix_append name _) hlen
  · obtain ⟨t, rfl⟩ := List.prefix_of_prefix_length_le (List.prefix_append name _) h hlen
    rw [List.prefix_append_right_inj] at h
    rcases t with - | ⟨c, t⟩
    · rw [List.append_nil]
    · obtain ⟨rest', rfl⟩ := h
      have hc : c = sep := hrest c rfl
      exact absurd (List.mem_append_right name (hc ▸ List.mem_cons_self)) hw

theorem head_portSuffix (port : Option ℕ) : ∀ c ∈ (portSuffix port).head?, c = ':' := by
  rcases port with - | n
  · rintro c hc
    cases hc
  · rintro c hc
    exact (Option.some.inj hc).symm

/-- A prefix that ends in a colon ends where the port begins. -/
theorem prefix_colon {w name : Text} (hw : ':' ∉ w) (hname : ':' ∉ name) (port : Option ℕ) :
    w ++ [':'] <+: name ++ portSuffix port ↔ name = w ∧ port ≠ none := by
  rcases port with - | n
  · rw [portSuffix, List.append_nil]
    refine iff_of_false (fun h => ?_) (fun h => h.2 rfl)
    exact hname (h.subset (List.mem_append_right w List.mem_cons_self))
  · refine ⟨fun ⟨t, ht⟩ => ?_, fun ⟨hname', _⟩ => hname' ▸ ?_⟩
    · rw [portSuffix, List.append_assoc, List.singleton_append] at ht
      exact ⟨(Stream.separated_inj hw hname ht).1.symm, nofun⟩
    · rw [portSuffix, List.prefix_append_right_inj]
      exact ⟨_, rfl⟩

/-- Which names the test for IPv6 takes for an address. -/
theorem isPrivateIpv6_domain (d : Domain) (port : Option ℕ) : isPrivateIpv6 (d.name ++ portSuffix port) = true ↔
    "fc".toList <+: d.name ∨ "fd".toList <+: d.name ∨
      (d.name ∈ ["fe80".toList, "fe90".toList, "fea0".toList, "feb0".toList] ∧ port ≠ none) := by
  have hcolon : ':' ∉ d.name := not_mem_name d (by decide)
  have hnone : ∀ c ∈ ['[', ']'], c ∉ d.name ++ portSuffix port := by
    rintro c hc hmem
    have hforbidden : c ∈ forbiddenCodePoints ∧ c ≠ ':' := by
      clear hmem
      revert c
      decide
    rcases List.mem_append.mp hmem with hmem | hmem
    · exact not_mem_name d hforbidden.1 hmem
    · rcases mem_portSuffix hmem with rfl | hdigit
      · exact hforbidden.2 rfl
      · exact (hexDigit_facts (isHexDigit_of_isDigit hdigit)).2.1 hforbidden.1
  have hcolons : ∀ t : Text, d.name ++ portSuffix port ≠ ':' :: t := by
    rintro t ht
    obtain ⟨c, name, hname⟩ := List.exists_cons_of_ne_nil d.ne_nil
    rw [hname, List.cons_append] at ht
    exact hcolon (hname ▸ (List.cons.inj ht).1 ▸ List.mem_cons_self)
  have hlocal : ∀ w : Text, ':' ∉ w → ∀ start, start = w ++ [':'] →
      (start <+: d.name ++ portSuffix port ↔ d.name = w ∧ port ≠ none) := by
    rintro w hw start rfl
    exact prefix_colon hw hcolon port
  rw [isPrivateIpv6, unbracket_of_not_mem (hnone _ (by decide)) (hnone _ (by decide)), map_lower (lower_suffixed d port)]
  simp only [Bool.or_eq_true, decide_eq_true_eq, List.isPrefixOf_iff_prefix]
  rw [prefix_before (by decide) (head_portSuffix port), prefix_before (by decide) (head_portSuffix port),
    hlocal "fe80".toList (by decide) "fe80:".toList rfl, hlocal "fe90".toList (by decide) "fe90:".toList rfl,
    hlocal "fea0".toList (by decide) "fea0:".toList rfl, hlocal "feb0".toList (by decide) "feb0:".toList rfl]
  have h1 : d.name ++ portSuffix port ≠ "::1".toList := hcolons _
  have h0 : d.name ++ portSuffix port ≠ "::".toList := hcolons _
  simp only [h1, h0, false_or, List.mem_cons, List.not_mem_nil, or_false]
  tauto

/-! ### Texts that the other tests find nothing in -/

section Absent

variable {s : Text}

theorem dot_mem_of_dottedQuad {w : Text} (h : DottedQuad w) : '.' ∈ w := by
  obtain ⟨a, b, c, d, -, -, -, -, rfl⟩ := h
  exact List.mem_append_right a List.mem_cons_self

theorem firstQuad_none (h : ∀ w, w <:+: s → ¬DottedQuad w) : firstQuad s = none := by
  by_contra hsome
  obtain ⟨q, hq⟩ := Option.ne_none_iff_exists'.mp hsome
  obtain ⟨w, hwithin, hw⟩ := firstQuad_some hq
  exact h w hwithin hw

theorem hasHexNumber_some (h : hasHexNumber s = true) : "0x".toList <:+: s ∨ 'X' ∈ s := by
  induction s with
  | nil => cases h
  | cons c s ih =>
    unfold hasHexNumber at h
    rw [Bool.or_eq_true, Bool.and_eq_true, decide_eq_true_eq] at h
    rcases h with ⟨rfl, h⟩ | h
    · split at h
      · rename_i x e t
        rw [Bool.and_eq_true, Bool.or_eq_true, decide_eq_true_eq, decide_eq_true_eq] at h
        rcases h.1 with rfl | rfl
        · exact .inl ⟨[], e :: t, rfl⟩
        · exact .inr (List.mem_cons_of_mem _ List.mem_cons_self)
      · cases h
    · exact (ih h).imp (fun h => h.trans (List.suffix_cons c s).isInfix) (List.mem_cons_of_mem c)

theorem isPrivateIpv4_none (hquad : ¬DottedQuad s) (hdigits : s ≠ [] → ∃ c ∈ s, c.isDigit = false) :
    isPrivateIpv4 s = false := by
  rw [isPrivateIpv4]
  split
  · rename_i q heq
    obtain ⟨w, hw, rfl⟩ := quadAt_some heq
    rw [List.append_nil] at hquad
    exact absurd hw hquad
  · refine if_neg ?_
    rintro ⟨hne, hall⟩
    obtain ⟨c, hc, hno⟩ := hdigits hne
    rw [List.all_eq_true.mp hall c hc] at hno
    cases hno

theorem twoGroups_none {start : Text} (h : ¬start <+: s) : twoGroups start s = none := by
  rw [twoGroups, if_neg (by rwa [List.isPrefixOf_iff_prefix])]

theorem twoGroups_one {start rest : Text} (h : ':' ∉ rest) : twoGroups start (start ++ rest) = none := by
  have hdrop : rest.dropWhile (· ≠ ':') = [] :=
    List.dropWhile_eq_nil_iff.mpr fun c hc => decide_eq_true fun hcolon => h (hcolon ▸ hc)
  rw [twoGroups, if_pos (List.isPrefixOf_iff_prefix.mpr (List.prefix_append start rest)), List.drop_left]
  dsimp only
  rw [hdrop]

theorem twoGroups_some (start : Text) {x y : ℕ} (hx : x < 65536) (hy : y < 65536) :
    twoGroups start (start ++ hex x ++ ':' :: hex y) = some (x, y) := by
  have hgroup : ∀ n < 65536, isGroup (hex n) = true := by
    rintro n hn
    have hall : (hex n).all isHexDigit = true := List.all_eq_true.mpr fun c hc => isHexDigit_of_mem_hex hc
    rw [isGroup, hall, Bool.and_true, Bool.and_eq_true, decide_eq_true_eq, decide_eq_true_eq]
    exact ⟨hex_ne_nil n, length_hex_le ⟨n, hn⟩⟩
  have hcolon : ':' ∉ hex x := fun h => absurd (isHexDigit_of_mem_hex h) (by decide)
  rw [twoGroups, List.append_assoc, if_pos (List.isPrefixOf_iff_prefix.mpr (List.prefix_append start _)),
    List.drop_left]
  dsimp only
  rw [Stream.dropWhile_separated hcolon, Stream.takeWhile_separated hcolon]
  dsimp only
  rw [if_pos ⟨hgroup x hx, hgroup y hy⟩, readNat_hex, readNat_hex]

end Absent

/-! ### Names -/

theorem stripDot_cases (s : Text) : stripDot s = s ∨ stripDot s ++ ['.'] = s := by
  rw [stripDot]
  split
  · rename_i h
    exact .inr (List.dropLast_append_getLast? '.' h)
  · exact .inl rfl

/-- A domain does not consist of digits. -/
theorem exists_not_digit (d : Domain) (hne : stripDot d.name ≠ []) : ∃ c ∈ stripDot d.name, c.isDigit = false := by
  by_contra hall
  have hdigits : ∀ c ∈ stripDot d.name, c.isDigit = true := by
    rintro c hc
    by_contra hno
    exact hall ⟨c, hc, Bool.eq_false_iff.mpr hno⟩
  have hdot : '.' ∉ stripDot d.name := fun hmem => absurd (hdigits '.' hmem) (by decide)
  have hnumber := d.not_number
  rcases stripDot_cases d.name with hname | hname
  · rw [hname] at hdot hdigits hne
    rw [endsInNumber, List.splitOn_eq_singleton hdot] at hnumber
    simp only [List.getLast?_singleton, List.length_singleton, Nat.lt_irrefl, and_false, if_false, Bool.or_eq_false_iff,
      List.all_eq_true.mpr hdigits, Bool.and_true, decide_eq_false_iff_not] at hnumber
    exact hnumber.1 hne
  · rw [endsInNumber, ← hname, List.splitOn_append_cons_self_of_not_mem hdot, List.splitOn_nil] at hnumber
    have hparts : [stripDot d.name, []].getLast? = some [] ∧ 1 < [stripDot d.name, []].length := ⟨rfl, Nat.one_lt_two⟩
    simp only [if_pos hparts, List.dropLast_cons_cons, List.dropLast_singleton, List.getLast?_singleton,
      Bool.or_eq_false_iff, List.all_eq_true.mpr hdigits, Bool.and_true, decide_eq_false_iff_not] at hnumber
    exact hnumber.1 hne

/-- An ordinary name passes unless it looks like an IPv6 address. -/
theorem safe_domain (hparse : parse urlStr = some u) (hweb : u.protocol = "http:".toList ∨ u.protocol = "https:".toList)
    (h : u.hostKind = .domain d) (hname : Ordinary d.name) :
    isSafeWebhookUrl parse urlStr = true ↔ isPrivateIpv6 (d.name ++ portSuffix u.port) = false := by
  have hhost : u.host = d.name ++ portSuffix u.port := by rw [Url.host, Url.hostname, h]; rfl
  have hwithin : ∀ w, w <:+: stripDot d.name → ¬DottedQuad w :=
    fun w hw => hname.no_quad w (hw.trans (stripDot_start d.name).isInfix)
  have hmem : ∀ c ∈ forbiddenCodePoints, c ∉ stripDot d.name :=
    fun c hc hmem => not_mem_name d hc ((stripDot_start d.name).subset hmem)
  have hembedded : ipv6Embedded (unbracket (stripDot d.name)) = none := by
    have hcolon := hmem ':' (by decide)
    rw [unbracket_of_not_mem (hmem '[' (by decide)) (hmem ']' (by decide)), ipv6Embedded,
      twoGroups_none fun h => hcolon (h.subset (by decide)), twoGroups_none fun h => hcolon (h.subset (by decide))]
    rfl
  have hhex : hasHexNumber (stripDot d.name) = false := by
    refine Bool.eq_false_iff.mpr fun h => ?_
    rcases hasHexNumber_some h with h | h
    · exact hname.no_hex (h.trans (stripDot_start d.name).isInfix)
    · exact absurd (d.lower 'X' ((stripDot_start d.name).subset h)) (by decide)
  obtain ⟨h1, h2, h3⟩ := not_or.mp hname.not_local |>.imp_right not_or.mp
  rw [safe_iff hparse hweb, tested_domain h, hhost, isPrivateIpv4_none (hwithin _ List.infix_rfl) (exists_not_digit d),
    hembedded, hhex, firstQuad_none hwithin]
  simp only [reduceCtorEq, false_imp_iff, implies_true, and_true, true_and, h2, h3, not_false_eq_true, ne_eq, h1]

/-! ### IPv4 -/

theorem tested_ipv4 {x : Ipv4} (h : u.hostKind = .ipv4 x) : u.tested = x.serialise := by
  have hlower : ∀ c ∈ x.serialise, c.toLower = c := by
    have hdecimal : ∀ {n : ℕ} {c : Char}, c ∈ Whatwg.decimal n → c.toLower = c :=
      fun hc => (hexDigit_facts (isHexDigit_of_isDigit (decimal_digit hc))).1
    rintro c hc
    simp only [Ipv4.serialise, List.mem_append, List.mem_cons] at hc
    rcases hc with hc | rfl | hc | rfl | hc | rfl | hc
    · exact hdecimal hc
    · rfl
    · exact hdecimal hc
    · rfl
    · exact hdecimal hc
    · rfl
    · exact hdecimal hc
  rw [Url.tested, Url.hostname, h, Host.serialise, map_lower hlower]
  refine stripDot_of_last ⟨(Whatwg.decimal x.d).getLast Nat.toDigits_ne_nil, ?_, ?_⟩
  · simp only [Ipv4.serialise, List.getLast?_append, List.getLast?_cons, List.getLast?_eq_some_getLast
      (Nat.toDigits_ne_nil (b := 10) (n := x.d)), Whatwg.decimal]
    simp
  · exact fun hdot => absurd (hdot ▸ decimal_digit (List.getLast_mem Nat.toDigits_ne_nil)) (by decide)

/-- No private IPv4 address passes. -/
theorem sound_ipv4 (hparse : parse urlStr = some u) (hweb : u.protocol = "http:".toList ∨ u.protocol = "https:".toList)
    {x : Ipv4} (h : u.hostKind = .ipv4 x) (hsafe : isSafeWebhookUrl parse urlStr = true) : ¬PrivateV4 x.value := by
  obtain ⟨-, hrange, -⟩ := (safe_iff hparse hweb).mp hsafe
  rw [tested_ipv4 h, Ipv4.serialise, isPrivateIpv4_decimal x.a.isLt x.b.isLt x.c.isLt x.d.isLt] at hrange
  rw [Ipv4.value, privateV4_iff x.a.isLt x.b.isLt x.c.isLt x.d.isLt, hrange]
  exact Bool.false_ne_true

/-! ### IPv6 -/

section Ipv6

variable {x : Ipv6} {c : Char}

theorem serialise_facts (hc : c ∈ x.serialise) : c.toLower = c ∧ c ≠ '.' ∧ c ≠ 'x' ∧ c ≠ 'X' ∧ c ≠ '[' ∧ c ≠ ']' := by
  rcases Ipv6.mem_serialise hc with hc | rfl
  · obtain ⟨hlower, hforbidden, hdot, hx, hX, -, -⟩ := hexDigit_facts hc
    refine ⟨hlower, hdot, hx, hX, ?_, ?_⟩
    · rintro rfl
      exact hforbidden (by decide)
    · rintro rfl
      exact hforbidden (by decide)
  · decide

theorem tested_ipv6 (h : u.hostKind = .ipv6 x) : u.tested = '[' :: (x.serialise ++ [']']) := by
  have hlower : ∀ c ∈ '[' :: (x.serialise ++ [']']), c.toLower = c := by
    rintro c hc
    simp only [List.mem_cons, List.mem_append, List.not_mem_nil, or_false] at hc
    rcases hc with rfl | hc | rfl
    · rfl
    · exact (serialise_facts hc).1
    · rfl
  rw [Url.tested, Url.hostname, h, Host.serialise, map_lower hlower]
  exact stripDot_of_last ⟨']', by rw [← List.cons_append, List.getLast?_concat], by decide⟩

theorem unbracket_bracketed (s : Text) : unbracket ('[' :: (s ++ [']'])) = s := by
  simp [unbracket]

theorem unbracket_port {port : Option ℕ} (hport : port ≠ none) (s : Text) :
    unbracket ('[' :: (s ++ [']']) ++ portSuffix port) = s ++ ']' :: portSuffix port := by
  obtain ⟨n, rfl⟩ := Option.ne_none_iff_exists'.mp hport
  have hlast : (s ++ ']' :: ':' :: Whatwg.decimal n).getLast? ≠ some ']' := by
    have hne : Whatwg.decimal n ≠ [] := Nat.toDigits_ne_nil
    have hdigit := decimal_digit (List.getLast_mem hne)
    simp only [List.getLast?_append, List.getLast?_cons, List.getLast?_eq_some_getLast hne, Option.getD_some,
      Option.some_or]
    rintro h
    rw [Option.some.inj h] at hdigit
    exact absurd hdigit (by decide)
  have htail : '[' :: (s ++ [']']) ++ ':' :: Whatwg.decimal n = '[' :: (s ++ ']' :: ':' :: Whatwg.decimal n) := by
    rw [List.cons_append, List.append_assoc, List.singleton_append]
  rw [unbracket, portSuffix, htail, List.head?_cons, if_pos rfl, List.tail_cons]
  exact if_neg hlast

/-- What the test for IPv6 sees in an address. -/
theorem isPrivateIpv6_address (x : Ipv6) (port : Option ℕ) :
    isPrivateIpv6 ('[' :: (x.serialise ++ [']']) ++ portSuffix port) = true ↔
      (port = none ∧ (x.serialise = "::1".toList ∨ x.serialise = "::".toList)) ∨
      "fc".toList <+: x.serialise ∨ "fd".toList <+: x.serialise ∨
        ∃ p ∈ knownLinkLocal, hex p ++ [':'] <+: x.serialise := by
  have hknown : (∃ p ∈ knownLinkLocal, hex p ++ [':'] <+: x.serialise) ↔ "fe80:".toList <+: x.serialise ∨
      "fe90:".toList <+: x.serialise ∨ "fea0:".toList <+: x.serialise ∨ "feb0:".toList <+: x.serialise := by
    simp only [knownLinkLocal, List.mem_cons, List.not_mem_nil, or_false, exists_eq_or_imp, exists_eq_left]
    rfl
  rw [hknown]
  rcases eq_or_ne port none with rfl | hport
  · rw [portSuffix, List.append_nil, isPrivateIpv6, unbracket_bracketed,
      map_lower fun c hc => (serialise_facts hc).1]
    simp only [Bool.or_eq_true, decide_eq_true_eq, List.isPrefixOf_iff_prefix, true_and, or_assoc]
  · have hlower : ∀ c ∈ x.serialise ++ ']' :: portSuffix port, c.toLower = c := by
      rintro c hc
      rcases List.mem_append.mp hc with hc | hc
      · exact (serialise_facts hc).1
      · rcases List.mem_cons.mp hc with rfl | hc
        · rfl
        · rcases mem_portSuffix hc with rfl | hc
          · rfl
          · exact (hexDigit_facts (isHexDigit_of_isDigit hc)).1
    have hends : ∀ w : Text, ']' ∉ w → x.serialise ++ ']' :: portSuffix port ≠ w := by
      rintro w hw rfl
      exact hw (List.mem_append_right _ List.mem_cons_self)
    have hhead : ∀ c ∈ (']' :: portSuffix port).head?, c = ']' := fun c hc => (Option.some.inj hc).symm
    rw [isPrivateIpv6, unbracket_port hport, map_lower hlower]
    simp only [Bool.or_eq_true, decide_eq_true_eq, List.isPrefixOf_iff_prefix, hport, false_and, false_or, or_assoc]
    rw [prefix_before (by decide) hhead, prefix_before (by decide) hhead, prefix_before (by decide) hhead,
      prefix_before (by decide) hhead, prefix_before (by decide) hhead, prefix_before (by decide) hhead]
    have h1 : x.serialise ++ ']' :: portSuffix port ≠ "::1".toList := hends _ (by decide)
    have h0 : x.serialise ++ ']' :: portSuffix port ≠ "::".toList := hends _ (by decide)
    simp only [h1, h0, false_or]

/-- The tests that are left for an address. -/
theorem safe_ipv6 (hparse : parse urlStr = some u) (hweb : u.protocol = "http:".toList ∨ u.protocol = "https:".toList)
    (h : u.hostKind = .ipv6 x) : isSafeWebhookUrl parse urlStr = true ↔
      isPrivateIpv6 ('[' :: (x.serialise ++ [']']) ++ portSuffix u.port) = false ∧
      ∀ e, ipv6Embedded x.serialise = some e → isPrivateIpv4 (mappedIpv4 e.1 e.2) = false := by
  have hmem : ∀ c ∈ '[' :: (x.serialise ++ [']']), c ≠ '.' ∧ c ≠ 'x' ∧ c ≠ 'X' := by
    rintro c hc
    simp only [List.mem_cons, List.mem_append, List.not_mem_nil, or_false] at hc
    rcases hc with rfl | hc | rfl
    · decide
    · exact ⟨(serialise_facts hc).2.1, (serialise_facts hc).2.2.1, (serialise_facts hc).2.2.2.1⟩
    · decide
  have hquad : ∀ w, w <:+: '[' :: (x.serialise ++ [']']) → ¬DottedQuad w :=
    fun w hw hquad => (hmem '.' (hw.subset (dot_mem_of_dottedQuad hquad))).1 rfl
  have hipv4 : isPrivateIpv4 ('[' :: (x.serialise ++ [']'])) = false :=
    isPrivateIpv4_none (hquad _ List.infix_rfl) fun _ => ⟨'[', List.mem_cons_self, by decide⟩
  have hhex : hasHexNumber ('[' :: (x.serialise ++ [']'])) = false := by
    refine Bool.eq_false_iff.mpr fun h => ?_
    rcases hasHexNumber_some h with h | h
    · exact (hmem 'x' (h.subset (by decide))).2.1 rfl
    · exact (hmem 'X' h).2.2 rfl
  have hlast : ∀ (c : Char) (w : Text), c ≠ ']' → ¬w ++ [c] <:+ '[' :: (x.serialise ++ [']']) := by
    rintro c w hc ⟨t, ht⟩
    have hlast := congrArg List.getLast? ht
    rw [← List.append_assoc, List.getLast?_concat, ← List.cons_append, List.getLast?_concat] at hlast
    exact hc (Option.some.inj hlast)
  have h1 : '[' :: (x.serialise ++ [']']) ≠ "localhost".toList := by
    rintro h
    exact absurd (List.cons.inj h).1 (by decide)
  have h2 : ¬".local".toList <:+ '[' :: (x.serialise ++ [']']) := hlast 'l' ".loca".toList (by decide)
  have h3 : ¬".localhost".toList <:+ '[' :: (x.serialise ++ [']']) := hlast 't' ".localhos".toList (by decide)
  have hhost : u.host = '[' :: (x.serialise ++ [']']) ++ portSuffix u.port := by rw [Url.host, Url.hostname, h]; rfl
  rw [safe_iff hparse hweb, tested_ipv6 h, unbracket_bracketed, hhost, hipv4, hhex, firstQuad_none hquad]
  simp only [reduceCtorEq, false_imp_iff, implies_true, and_true, true_and, h1, h2, h3, not_false_eq_true, ne_eq]

/-! ### The numbers of the addresses -/

theorem value_eq (x : Ipv6) : x.value = ((((((x.p0 * 65536 + x.p1) * 65536 + x.p2) * 65536 + x.p3) * 65536 + x.p4) * 65536 +
    x.p5) * 65536 + x.p6) * 65536 + x.p7 := by
  simp only [Ipv6.value, Ipv6.pieces, List.foldl_cons, List.foldl_nil]
  ring

theorem take_seven (x : Ipv6) : x.pieces.take 7 = List.replicate 7 0 ↔ x.p0.val = 0 ∧ x.p1.val = 0 ∧ x.p2.val = 0 ∧
    x.p3.val = 0 ∧ x.p4.val = 0 ∧ x.p5.val = 0 ∧ x.p6.val = 0 := by
  simp [Ipv6.pieces, List.replicate]

theorem private_low (hlow : x.pieces.take 7 = List.replicate 7 0) : PrivateV6 x.value := by
  obtain ⟨h0, h1, h2, h3, h4, h5, h6⟩ := (take_seven x).mp hlow
  have h7 := x.p7.isLt
  have hvalue : x.value = x.p7 := by rw [value_eq, h0, h1, h2, h3, h4, h5, h6]; omega
  refine .inr (.inr (.inr (.inr ⟨.inr ?_, (0, 8), List.mem_cons_self, ?_⟩)))
  · omega
  · dsimp only
    omega

theorem private_link (h : 0xfe80 ≤ x.p0.val ∧ x.p0.val ≤ 0xfebf) : PrivateV6 x.value := by
  have h1 := x.p1.isLt
  have h2 := x.p2.isLt
  have h3 := x.p3.isLt
  have h4 := x.p4.isLt
  have h5 := x.p5.isLt
  have h6 := x.p6.isLt
  have h7 := x.p7.isLt
  refine .inr (.inr (.inr (.inl ?_)))
  rw [value_eq]
  omega

theorem range_of_low_bits (hprivate : PrivateV4 (x.value % 2 ^ 32)) :
    isPrivateRange (x.p6.val >>> 8) (x.p6.val &&& 0xff) = true := by
  have h6 := x.p6.isLt
  have h7 := x.p7.isLt
  have hand : ∀ n : ℕ, n &&& 0xff = n % 256 := fun n => Nat.and_two_pow_sub_one_eq_mod n 8
  have hbits : x.value % 2 ^ 32 = (((x.p6.val >>> 8 * 256 + (x.p6.val &&& 0xff)) * 256 + x.p7.val >>> 8) * 256 +
      (x.p7.val &&& 0xff)) := by
    rw [value_eq, hand, hand, Nat.shiftRight_eq_div_pow, Nat.shiftRight_eq_div_pow]
    omega
  have hlt : ∀ n : ℕ, n &&& 0xff < 256 := fun n => by rw [hand]; exact Nat.mod_lt n (by decide)
  have hshift : ∀ n < 65536, n >>> 8 < 256 := fun n hn => by rw [Nat.shiftRight_eq_div_pow]; omega
  rw [hbits, privateV4_iff (hshift _ h6) (hlt _) (hshift _ h7) (hlt _)] at hprivate
  exact hprivate

/-- Which pieces a private address may have. -/
theorem private_pieces (hprivate : PrivateV6 x.value) : x.pieces.take 7 = List.replicate 7 0 ∨
    (0xfc00 ≤ x.p0.val ∧ x.p0.val ≤ 0xfdff) ∨ (0xfe80 ≤ x.p0.val ∧ x.p0.val ≤ 0xfebf) ∨
    ((x.pieces.take 6 = [0, 0, 0, 0, 0, 0xffff] ∨ x.pieces.take 6 = List.replicate 6 0) ∧
      isPrivateRange (x.p6.val >>> 8) (x.p6.val &&& 0xff) = true) := by
  have h1 := x.p1.isLt
  have h2 := x.p2.isLt
  have h3 := x.p3.isLt
  have h4 := x.p4.isLt
  have h5 := x.p5.isLt
  have h6 := x.p6.isLt
  have h7 := x.p7.isLt
  have hsix : ∀ p5 : ℕ, x.pieces.take 6 = [0, 0, 0, 0, 0, p5] ↔ x.p0.val = 0 ∧ x.p1.val = 0 ∧ x.p2.val = 0 ∧
      x.p3.val = 0 ∧ x.p4.val = 0 ∧ x.p5.val = p5 := by
    simp [Ipv6.pieces]
  have hzeros : List.replicate 6 0 = [0, 0, 0, 0, 0, 0] := rfl
  rw [take_seven, hzeros, hsix, hsix]
  rcases hprivate with hv | hv | hv | hv | ⟨hv, hprivate⟩
  · rw [value_eq] at hv
    omega
  · rw [value_eq] at hv
    omega
  · rw [value_eq] at hv
    omega
  · rw [value_eq] at hv
    omega
  · refine .inr (.inr (.inr ⟨?_, range_of_low_bits hprivate⟩))
    rw [value_eq] at hv
    omega

theorem embedded_private (hrange : isPrivateRange (x.p6.val >>> 8) (x.p6.val &&& 0xff) = true) :
    isPrivateIpv4 (mappedIpv4 x.p6 x.p7) = true := by
  have hlt : ∀ n : ℕ, n &&& 0xff < 256 := fun n => Nat.lt_of_le_of_lt Nat.and_le_right (by decide)
  have hshift : ∀ n : Fin 65536, n.val >>> 8 < 256 := fun n => by
    have hn := n.isLt
    rw [Nat.shiftRight_eq_div_pow]
    omega
  rw [mappedIpv4, isPrivateIpv4_decimal (hshift _) (hlt _) (hshift _) (hlt _), hrange]

/-! ### Their texts -/

theorem unique_local_text (h : 0xfc00 ≤ x.p0.val ∧ x.p0.val ≤ 0xfdff) :
    "fc".toList <+: x.serialise ∨ "fd".toList <+: x.serialise := by
  have hall : ∀ k < 512, "fc".toList.isPrefixOf (hex (0xfc00 + k)) = true ∨
      "fd".toList.isPrefixOf (hex (0xfc00 + k)) = true := by
    decide +kernel
  have hp := hall (x.p0.val - 0xfc00) (by omega)
  rw [Nat.add_sub_cancel' h.1, List.isPrefixOf_iff_prefix, List.isPrefixOf_iff_prefix] at hp
  obtain ⟨rest, hrest⟩ := Ipv6.serialise_first (x := x) (by omega)
  rw [hrest]
  exact hp.imp (fun h => h.trans (List.prefix_append _ _)) (fun h => h.trans (List.prefix_append _ _))

/-- A link-local address is recognised by its first piece alone. -/
theorem link_local_text (h : 0xfe80 ≤ x.p0.val ∧ x.p0.val ≤ 0xfebf) (port : Option ℕ) :
    isPrivateIpv6 ('[' :: (x.serialise ++ [']']) ++ portSuffix port) = true ↔ x.p0.val ∈ knownLinkLocal := by
  have hall : ∀ k < 64, "fc".toList.isPrefixOf (hex (0xfe80 + k)) = false ∧
      "fd".toList.isPrefixOf (hex (0xfe80 + k)) = false := by
    decide +kernel
  have hp := hall (x.p0.val - 0xfe80) (by omega)
  rw [Nat.add_sub_cancel' h.1, Bool.eq_false_iff, Bool.eq_false_iff, ne_eq, ne_eq, List.isPrefixOf_iff_prefix,
    List.isPrefixOf_iff_prefix] at hp
  obtain ⟨rest, hrest⟩ := Ipv6.serialise_first (x := x) (by omega)
  have hcolon : ∀ n, ':' ∉ hex n := fun n h => absurd (isHexDigit_of_mem_hex h) (by decide)
  have hhead : ∀ c ∈ (':' :: rest).head?, c = ':' := fun c hc => (Option.some.inj hc).symm
  have hfirst : ∀ w : Text, x.serialise ≠ ':' :: w := by
    rintro w hw
    obtain ⟨c, t, ht⟩ := List.exists_cons_of_ne_nil (hex_ne_nil x.p0)
    rw [hrest, ht, List.cons_append] at hw
    exact hcolon x.p0 (ht ▸ (List.cons.inj hw).1 ▸ List.mem_cons_self)
  have h1 : x.serialise ≠ "::1".toList := hfirst _
  have h0 : x.serialise ≠ "::".toList := hfirst _
  rw [isPrivateIpv6_address]
  simp only [h1, h0, or_false, and_false, false_or]
  rw [hrest, prefix_before (by decide) hhead, prefix_before (by decide) hhead]
  simp only [hp.1, hp.2, false_or]
  constructor
  · rintro ⟨p, hp, t, ht⟩
    rw [List.append_assoc, List.singleton_append] at ht
    have heq := (Stream.separated_inj (hcolon p) (hcolon x.p0) ht).1
    have hvalue := congrArg (readNat 16) heq
    rw [readNat_hex, readNat_hex] at hvalue
    exact hvalue ▸ hp
  · rintro hp
    exact ⟨x.p0, hp, rest, by rw [List.append_assoc, List.singleton_append]⟩

theorem colon_not_mem_hex (n : ℕ) : ':' ∉ hex n := fun h => absurd (isHexDigit_of_mem_hex h) (by decide)

/-- An address with nothing but zeros before its last piece is recognised without a port, up to `::1`. -/
theorem low_text (hlow : x.pieces.take 7 = List.replicate 7 0) (port : Option ℕ) :
    isPrivateIpv6 ('[' :: (x.serialise ++ [']']) ++ portSuffix port) = true ↔ port = none ∧ x.p7.val ≤ 1 := by
  have hno : ∀ (c : Char) (w rest : Text), c ≠ ':' → ¬c :: w <+: ':' :: rest :=
    fun c w rest hc h => hc (List.cons_prefix_cons.mp h).1
  have htext : x.serialise = ':' :: ':' :: if x.p7.val = 0 then [] else hex x.p7 := Ipv6.serialise_low hlow
  have hlocal : ¬∃ p ∈ knownLinkLocal, hex p ++ [':'] <+: x.serialise := by
    rintro ⟨p, -, hp⟩
    obtain ⟨c, t, ht⟩ := List.exists_cons_of_ne_nil (hex_ne_nil p)
    rw [htext, ht, List.cons_append] at hp
    exact hno c _ _ (fun hc => colon_not_mem_hex p (ht ▸ hc ▸ List.mem_cons_self)) hp
  have hfc : ¬"fc".toList <+: x.serialise := htext ▸ hno 'f' _ _ (by decide)
  have hfd : ¬"fd".toList <+: x.serialise := htext ▸ hno 'f' _ _ (by decide)
  have hone : hex 1 = ['1'] := by decide
  have hsmall : x.serialise = "::1".toList ∨ x.serialise = "::".toList ↔ x.p7.val ≤ 1 := by
    rw [htext]
    by_cases h7 : x.p7.val = 0
    · rw [if_pos h7, h7]
      decide
    · rw [if_neg h7]
      constructor
      · rintro (h | h)
        · have heq : hex x.p7 = ['1'] := (List.cons.inj (List.cons.inj h).2).2
          have hvalue := congrArg (readNat 16) (heq.trans hone.symm)
          rw [readNat_hex, readNat_hex] at hvalue
          exact hvalue.le
        · exact absurd (List.cons.inj (List.cons.inj h).2).2 (hex_ne_nil _)
      · rintro h
        have hp7 : x.p7.val = 1 := by omega
        exact .inl (by rw [hp7, hone]; rfl)
  rw [isPrivateIpv6_address, hsmall]
  simp only [hfc, hfd, hlocal, or_false]

theorem low_embedded (hlow : x.pieces.take 7 = List.replicate 7 0) : ipv6Embedded x.serialise = none := by
  have hrest : ':' ∉ if x.p7.val = 0 then [] else hex x.p7 := by
    split
    · exact List.not_mem_nil
    · exact colon_not_mem_hex _
  rw [Ipv6.serialise_low hlow, ipv6Embedded, twoGroups_one hrest, twoGroups_none]
  · rfl
  · rintro ⟨t, ht⟩
    have heq : "ffff:".toList ++ t = if x.p7.val = 0 then [] else hex x.p7 := @List.append_cancel_left _ "::".toList _ _ ht
    refine hrest (heq ▸ ?_)
    exact List.mem_append_left t (by decide : ':' ∈ "ffff:".toList)

theorem link_embedded (h : x.p0.val ≠ 0) : ipv6Embedded x.serialise = none := by
  obtain ⟨rest, hrest⟩ := Ipv6.serialise_first h
  obtain ⟨c, t, ht⟩ := List.exists_cons_of_ne_nil (hex_ne_nil x.p0)
  have hstart : ∀ w : Text, ¬ (':' :: w <+: x.serialise) := by
    rintro w hw
    rw [hrest, ht] at hw
    exact colon_not_mem_hex x.p0 (ht ▸ (List.cons_prefix_cons.mp hw).1 ▸ List.mem_cons_self)
  have hmapped : ¬"::ffff:".toList <+: x.serialise := hstart _
  have hcompat : ¬"::".toList <+: x.serialise := hstart _
  rw [ipv6Embedded, twoGroups_none hmapped, twoGroups_none hcompat]
  rfl

theorem mapped_embedded (h : x.pieces.take 6 = [0, 0, 0, 0, 0, 0xffff]) :
    ipv6Embedded x.serialise = some (x.p6.val, x.p7.val) := by
  rw [Ipv6.serialise_mapped h, ipv6Embedded, twoGroups_some _ x.p6.isLt x.p7.isLt, Option.some_or]

theorem compat_embedded (h : x.pieces.take 6 = List.replicate 6 0) (h6 : x.p6.val ≠ 0) :
    ipv6Embedded x.serialise = some (x.p6.val, x.p7.val) := by
  have hmapped : twoGroups "::ffff:".toList ("::".toList ++ hex x.p6 ++ ':' :: hex x.p7) = none := by
    by_cases hstart : "::ffff:".toList <+: "::".toList ++ hex x.p6 ++ ':' :: hex x.p7
    · obtain ⟨t, ht⟩ := hstart
      have heq : "ffff".toList ++ ':' :: t = hex x.p6 ++ ':' :: hex x.p7 := by
        rw [List.append_assoc] at ht
        exact @List.append_cancel_left _ "::".toList _ _ ht
      have hrest := (Stream.separated_inj (by decide) (colon_not_mem_hex _) heq).2
      rw [← ht, twoGroups_one (hrest ▸ colon_not_mem_hex _)]
    · exact twoGroups_none hstart
  rw [Ipv6.serialise_compat h h6, ipv6Embedded, hmapped, twoGroups_some _ x.p6.isLt x.p7.isLt]
  rfl

/-- The guard is sound on an IPv6 address exactly if the address is one it recognises. -/
theorem sound_ipv6 (hparse : parse urlStr = some u) (hweb : u.protocol = "http:".toList ∨ u.protocol = "https:".toList)
    (h : u.hostKind = .ipv6 x) : (isSafeWebhookUrl parse urlStr = true → ¬PrivateV6 x.value) ↔
      (0xfe80 ≤ x.p0.val ∧ x.p0.val ≤ 0xfebf → x.p0.val ∈ knownLinkLocal) ∧
      (x.pieces.take 7 = List.replicate 7 0 → x.p7.val ≤ 1 ∧ u.port = none) := by
  rw [safe_ipv6 hparse hweb h]
  by_cases hlow : x.pieces.take 7 = List.replicate 7 0
  · have h0 := ((take_seven x).mp hlow).1
    have hlow' := low_text hlow u.port
    rw [low_embedded hlow]
    simp only [reduceCtorEq, false_imp_iff, implies_true, and_true, private_low hlow, not_true, imp_false,
      Bool.not_eq_false, hlow', h0, hlow, true_imp_iff]
    constructor
    · rintro ⟨hport, hp7⟩
      exact ⟨fun h => absurd h.1 (by decide), hp7, hport⟩
    · rintro ⟨-, hp7, hport⟩
      exact ⟨hport, hp7⟩
  · simp only [hlow, false_imp_iff, and_true]
    by_cases hlink : 0xfe80 ≤ x.p0.val ∧ x.p0.val ≤ 0xfebf
    · rw [link_embedded (by omega)]
      simp only [reduceCtorEq, false_imp_iff, implies_true, and_true, private_link hlink, not_true, imp_false,
        Bool.not_eq_false, link_local_text hlink u.port, hlink, true_imp_iff, and_self]
    · simp only [hlink, false_imp_iff, iff_true]
      rintro ⟨htext, hembedded⟩ hprivate
      have hrefuse : ∀ e, ipv6Embedded x.serialise = some e → isPrivateIpv4 (mappedIpv4 e.1 e.2) ≠ true :=
        fun e he => Bool.eq_false_iff.mp (hembedded e he)
      rcases private_pieces hprivate with hlow' | hlocal | hlink' | ⟨hmapped | hcompat, hrange⟩
      · exact hlow hlow'
      · refine Bool.eq_false_iff.mp htext ((isPrivateIpv6_address x u.port).mpr (.inr ?_))
        rcases unique_local_text hlocal with hfc | hfd
        · exact .inl hfc
        · exact .inr (.inl hfd)
      · exact hlink hlink'
      · exact hrefuse _ (mapped_embedded hmapped) (embedded_private hrange)
      · have h6 : x.p6.val ≠ 0 := by
          rintro h6
          refine hlow ?_
          rw [show (7 : ℕ) = 6 + 1 from rfl, List.take_add_one, hcompat]
          simp [Ipv6.pieces, h6, List.replicate]
        exact hrefuse _ (compat_embedded hcompat h6) (embedded_private hrange)

end Ipv6

/-- The guard answers what is asked of it exactly on the hosts it recognises. -/
theorem guards_iff (hparse : parse urlStr = some u) (hweb : u.protocol = "http:".toList ∨ u.protocol = "https:".toList) :
    Guards (isSafeWebhookUrl parse urlStr) u ↔ Recognised u := by
  rw [Recognised]
  split
  · rename_i d h
    have hname : ∀ d', u.hostKind = .domain d' → d = d' := fun d' h' => Host.domain.inj (h.symm.trans h')
    rw [← isPrivateIpv6_domain]
    constructor
    · rintro ⟨-, hprecise⟩ hordinary
      have hsafe := hprecise d h hordinary
      rw [safe_domain hparse hweb h hordinary] at hsafe
      exact Bool.eq_false_iff.mp hsafe
    · rintro hrecognised
      refine ⟨fun hsafe hlocal => ?_, fun d' h' hordinary => ?_⟩
      · obtain ⟨⟨h1, h2, h3⟩, -⟩ := (safe_iff hparse hweb).mp hsafe
        rw [h] at hlocal
        rw [tested_domain h] at h1 h2 h3
        rcases hlocal with hlocal | hlocal | hlocal
        · exact h1 hlocal
        · exact h2 hlocal
        · exact h3 hlocal
      · obtain rfl := hname d' h'
        rw [safe_domain hparse hweb h hordinary]
        exact Bool.eq_false_iff.mpr (hrecognised hordinary)
  · rename_i x h
    refine iff_of_true ⟨fun hsafe => ?_, fun d' h' => ?_⟩ trivial
    · rw [h]
      exact sound_ipv4 hparse hweb h hsafe
    · rw [h] at h'
      cases h'
  · rename_i x h
    rw [← sound_ipv6 hparse hweb h]
    constructor
    · rintro ⟨hsound, -⟩ hsafe
      have hforbidden := hsound hsafe
      rwa [h] at hforbidden
    · refine fun hsound => ⟨fun hsafe => ?_, fun d' h' => ?_⟩
      · rw [h]
        exact hsound hsafe
      · rw [h] at h'
        cases h'

end Guard

/-! ### What gets by -/

/-- The loopback address, `::1`. -/
def loopback : Url := ⟨"http:".toList, .ipv6 ⟨0, 0, 0, 0, 0, 0, 0, 1⟩, some 8080⟩

/-- A link-local address, `fe81::1`. -/
def linkLocal : Url := ⟨"http:".toList, .ipv6 ⟨0xfe81, 0, 0, 0, 0, 0, 0, 1⟩, none⟩

theorem fcName_facts : "fc.example.com".toList ≠ [] ∧ (∀ c ∈ "fc.example.com".toList, c.toLower = c) ∧
    (∀ c ∈ "fc.example.com".toList, c ∉ forbiddenCodePoints) ∧ endsInNumber "fc.example.com".toList = false := by
  decide

def fcName : Domain :=
  ⟨"fc.example.com".toList, fcName_facts.1, fcName_facts.2.1, fcName_facts.2.2.1, fcName_facts.2.2.2⟩

def named : Url := ⟨"https:".toList, .domain fcName, none⟩

def parseDemo (urlStr : String) : Option Url :=
  if urlStr = "http://[::1]:8080/" then some loopback
  else if urlStr = "http://[fe81::1]/" then some linkLocal
  else if urlStr = "https://fc.example.com/" then some named
  else none

theorem ordinary_fcName : Ordinary fcName.name where
  not_local := by
    rintro (h | h | h)
    · exact absurd h (by decide)
    · exact absurd h (by decide)
    · exact absurd h (by decide)
  no_quad := by
    rintro s hs ⟨a, b, c, d, ⟨hne, -, hdigits⟩, -, -, -, rfl⟩
    have hall : ∀ e ∈ fcName.name, e.isDigit = false := by decide
    obtain ⟨e, t, rfl⟩ := List.exists_cons_of_ne_nil hne
    have hdigit := hdigits e List.mem_cons_self
    rw [hall e (hs.subset List.mem_cons_self)] at hdigit
    cases hdigit
  no_hex := fun h => absurd (h.subset (by decide : '0' ∈ "0x".toList)) (by decide)

/-- The loopback address with a port passes, and so does a link-local address beyond the first pieces that
    are listed. A name that begins with `fc` does not. -/
theorem guard_fails : ¬Guards (isSafeWebhookUrl parseDemo "http://[::1]:8080/") loopback ∧
    ¬Guards (isSafeWebhookUrl parseDemo "http://[fe81::1]/") linkLocal ∧
    ¬Guards (isSafeWebhookUrl parseDemo "https://fc.example.com/") named := by
  have hloopback : isSafeWebhookUrl parseDemo "http://[::1]:8080/" = true := by decide
  have hlink : isSafeWebhookUrl parseDemo "http://[fe81::1]/" = true := by decide
  have hnamed : isSafeWebhookUrl parseDemo "https://fc.example.com/" = false := by decide
  refine ⟨?_, ?_, ?_⟩
  · rintro ⟨hsound, -⟩
    exact hsound hloopback (.inr (.inl rfl))
  · rintro ⟨hsound, -⟩
    exact hsound hlink (.inr (.inr (.inr (.inl (by decide)))))
  · rintro ⟨-, hprecise⟩
    have hsafe := hprecise fcName rfl ordinary_fcName
    rw [hnamed] at hsafe
    cases hsafe

theorem guards_demo : Guards (isSafeWebhookUrl parseDemo "http://[::1]:8080/") loopback ↔ Recognised loopback :=
  guards_iff rfl (.inl rfl)

end OneMail.Webhook
