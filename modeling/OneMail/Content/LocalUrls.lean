import OneMail.Js.Url

/-! The test for local URLs in a mail body.

    `provablyLocal` and `srcsetIsLocal` look at the text of an attribute, which the browser then reads by
    its own rules: a URL is cleaned up before it is parsed, and the candidates of a `srcset` are cut by
    ASCII white space alone, of which `parseSrcset` follows the HTML parser. The base of every URL is the
    page, on our own origin. -/

namespace OneMail.Content

open JsString (isSpace trim comma)
open Url

/-- `/^(?:cid:|blob:|data:image\/)/i` -/
def hasLocalScheme (url : JsString) : Bool :=
  [js "cid:", js "blob:", js "data:image/"].any fun pre => pre.isPrefixOf (lower url)

/-- `/^[/.?#]/` -/
def startsRelative (url : JsString) : Bool :=
  match url with
  | c :: _ => c = slash || c = 0x2E || c = 0x3F || c = 0x23
  | [] => false

/-- `/^[/\\]{2}/` -/
def twoSlashes (url : JsString) : Bool :=
  match url with
  | c :: d :: _ => isSlash c && isSlash d
  | _ => false

def provablyLocal (value : JsString) : Bool :=
  let url := trim value
  if url = [] then true
  else if hasLocalScheme url then true
  else if startsRelative url then !twoSlashes url
  else !url.any fun c => c = colon || c = backslash

/-- `candidate.trim().split(/\s+/)[0]` -/
def firstWord (candidate : JsString) : JsString := (trim candidate).takeWhile (!isSpace ·)

def srcsetIsLocal (value : JsString) : Bool :=
  (((value.splitOn comma).map firstWord).filter (· ≠ [])).all provablyLocal

/-! ### The srcset parser of HTML -/

/-- ASCII white space. -/
def isHtmlSpace (c : UInt16) : Bool := c = 0x9 || c = 0xA || c = 0xC || c = 0xD || c = 0x20

inductive DescriptorState
  | inDescriptor | inParens | afterDescriptor
  deriving DecidableEq

def push (current : JsString) (found : List JsString) : List JsString :=
  if current = [] then found else found ++ [current]

/-- The descriptors of a candidate, and what follows its comma. -/
def descriptors : DescriptorState → JsString → List JsString → JsString → List JsString × JsString
  | .inParens, current, found, [] => (found ++ [current], [])
  | _, current, found, [] => (push current found, [])
  | .inParens, current, found, c :: rest =>
    if c = 0x29 then descriptors .inDescriptor (current ++ [c]) found rest
    else descriptors .inParens (current ++ [c]) found rest
  | _, current, found, c :: rest =>
    if isHtmlSpace c then descriptors .afterDescriptor [] (push current found) rest
    else if c = comma then (push current found, rest)
    else if c = 0x28 then descriptors .inParens (current ++ [c]) found rest
    else descriptors .inDescriptor (current ++ [c]) found rest

def isSeparator (c : UInt16) : Bool := isHtmlSpace c || c = comma

def skipSeparators (s : JsString) : JsString := s.dropWhile isSeparator

theorem descriptors_length {st : DescriptorState} {current : JsString} {found : List JsString} {s : JsString} :
    (descriptors st current found s).2.length ≤ s.length := by
  induction s generalizing st current found with
  | nil => cases st <;> exact le_refl _
  | cons c s ih =>
    rw [List.length_cons]
    cases st with
    | inParens =>
      rw [descriptors]
      split <;> exact ih.trans (Nat.le_succ _)
    | inDescriptor =>
      rw [descriptors]
      split
      · exact ih.trans (Nat.le_succ _)
      · split
        · exact Nat.le_succ _
        · split <;> exact ih.trans (Nat.le_succ _)
      · exact fun h => by cases h
    | afterDescriptor =>
      rw [descriptors]
      split
      · exact ih.trans (Nat.le_succ _)
      · split
        · exact Nat.le_succ _
        · split <;> exact ih.trans (Nat.le_succ _)
      · exact fun h => by cases h

/-- After the separators comes a unit that is neither white space nor a comma. -/
theorem skipSeparators_cons {s : JsString} (h : skipSeparators s ≠ []) :
    ∃ c rest, skipSeparators s = c :: rest ∧ isHtmlSpace c = false ∧ c ≠ comma := by
  rcases hs : skipSeparators s with - | ⟨c, rest⟩
  · exact absurd hs h
  · have hhead := List.head?_dropWhile_not isSeparator s
    rw [show s.dropWhile isSeparator = c :: rest from hs] at hhead
    dsimp only [List.head?_cons] at hhead
    rw [isSeparator, Bool.or_eq_false_iff, decide_eq_false_iff_not] at hhead
    exact ⟨c, rest, rfl, hhead⟩

theorem rest_length {text : JsString} (h : skipSeparators text ≠ []) :
    ((skipSeparators text).dropWhile (!isHtmlSpace ·)).length < text.length := by
  obtain ⟨c, rest, hs, hc, -⟩ := skipSeparators_cons h
  have hle : (skipSeparators text).length ≤ text.length := (List.dropWhile_sublist _).length_le
  rw [hs, List.dropWhile_cons_of_pos (by rw [hc]; rfl)]
  rw [hs, List.length_cons] at hle
  have hdrop : (rest.dropWhile (!isHtmlSpace ·)).length ≤ rest.length := (List.dropWhile_sublist _).length_le
  omega

/-- The URLs of the image candidates; which descriptors make no error is a parameter. -/
def parseSrcset (accepts : List JsString → Bool) (text : JsString) : List JsString :=
  if _h : skipSeparators text = [] then []
  else
    let url := (skipSeparators text).takeWhile (!isHtmlSpace ·)
    let rest := (skipSeparators text).dropWhile (!isHtmlSpace ·)
    if url.getLast? = some comma then
      (if accepts [] then [url.rdropWhile (· = comma)] else []) ++ parseSrcset accepts rest
    else
      (if accepts (descriptors .inDescriptor [] [] rest).1 then [url] else []) ++
        parseSrcset accepts (descriptors .inDescriptor [] [] rest).2
termination_by text.length
decreasing_by
  · exact rest_length _h
  · exact lt_of_le_of_lt descriptors_length (rest_length _h)

/-! ### Cleaning up -/

section Normalise

variable {q : UInt16 → Bool} {p v y s t : JsString} {c : UInt16}

theorem rdropWhile_cons_neg (h : q c = false) : (c :: y).rdropWhile q = c :: y.rdropWhile q := by
  induction y using List.reverseRecOn with
  | nil => rw [List.rdropWhile_singleton, h, List.rdropWhile_nil, if_neg Bool.false_ne_true]
  | append_singleton y d ih =>
    rw [← List.cons_append]
    by_cases hd : q d = true
    · rw [List.rdropWhile_concat_pos _ _ _ hd, List.rdropWhile_concat_pos _ _ _ hd, ih]
    · rw [List.rdropWhile_concat_neg _ _ _ hd, List.rdropWhile_concat_neg _ _ _ hd, List.cons_append]

theorem rdropWhile_append_neg (h : ∀ c ∈ p, q c = false) : (p ++ y).rdropWhile q = p ++ y.rdropWhile q := by
  induction p with
  | nil => rfl
  | cons c p ih =>
    rw [List.cons_append, rdropWhile_cons_neg (h c List.mem_cons_self), ih fun d hd => h d (List.mem_cons_of_mem _ hd)]
    rfl

theorem not_tab_of_not_c0 (h : isC0OrSpace c = false) : isTabOrNewline c = false := by
  rw [Bool.eq_false_iff]
  intro htab
  simp only [isTabOrNewline, Bool.or_eq_true, decide_eq_true_eq] at htab
  rcases htab with (rfl | rfl) | rfl <;> cases h

/-- What stands behind C0 controls and spaces, and is none of them, is kept at the front. -/
theorem normalise_append (hv : ∀ c ∈ v, isC0OrSpace c = true) (hp : ∀ c ∈ p, isC0OrSpace c = false) (hne : p ≠ []) :
    ∃ z, normalise (v ++ (p ++ y)) = p ++ z := by
  obtain ⟨c, p', rfl⟩ := List.exists_cons_of_ne_nil hne
  have hdrop : (v ++ ((c :: p') ++ y)).dropWhile isC0OrSpace = (c :: p') ++ y := by
    rw [List.dropWhile_append_of_pos hv, List.cons_append,
      List.dropWhile_cons_of_neg (by rw [hp c List.mem_cons_self]; decide)]
  have hfilter : (c :: p').filter (!isTabOrNewline ·) = c :: p' :=
    List.filter_eq_self.mpr fun d hd => by rw [not_tab_of_not_c0 (hp d hd)]; rfl
  exact ⟨(y.rdropWhile isC0OrSpace).filter (!isTabOrNewline ·), by
    rw [normalise, hdrop, rdropWhile_append_neg hp, List.filter_append, hfilter]⟩

theorem mem_of_mem_normalise (h : c ∈ normalise s) : c ∈ s :=
  (List.dropWhile_sublist _).subset ((List.rdropWhile_prefix _ _).subset (List.mem_filter.mp h).1)

/-- The first unit of a text that is neither a control nor a space. -/
theorem c0_split (v : JsString) : (∀ c ∈ v, isC0OrSpace c = true) ∨
    ∃ v₁ c v₂, v = v₁ ++ c :: v₂ ∧ (∀ d ∈ v₁, isC0OrSpace d = true) ∧ isC0OrSpace c = false := by
  induction v with
  | nil => exact .inl fun _ hc => (nomatch hc)
  | cons c v ih =>
    by_cases hc : isC0OrSpace c = true
    · rcases ih with hall | ⟨v₁, d, v₂, rfl, hall, hd⟩
      · exact .inl (List.forall_mem_cons.mpr ⟨hc, hall⟩)
      · exact .inr ⟨c :: v₁, d, v₂, rfl, List.forall_mem_cons.mpr ⟨hc, hall⟩, hd⟩
    · exact .inr ⟨[], c, v, rfl, fun _ hd => (nomatch hd), Bool.not_eq_true _ ▸ hc⟩

theorem not_alpha_of_space (h : isSpace c = true) : isAlpha c = false := by
  rw [Bool.eq_false_iff]
  intro halpha
  simp only [isSpace, isAlpha, Bool.or_eq_true, Bool.and_eq_true, decide_eq_true_eq, UInt16.le_iff_toNat_le,
    ← UInt16.toNat_inj] at h halpha
  simp only [UInt16.reduceToNat] at h halpha
  omega

/-- White space in front of a text is removed, or leaves a unit that begins no scheme. -/
theorem normalise_space (hv : ∀ c ∈ v, isSpace c = true) (hp : ∀ c ∈ p, isC0OrSpace c = false) (hne : p ≠ []) :
    (∃ z, normalise (v ++ (p ++ y)) = p ++ z) ∨ ∃ c z, normalise (v ++ (p ++ y)) = c :: z ∧ isAlpha c = false := by
  rcases c0_split v with hall | ⟨v₁, c, v₂, rfl, hall, hc⟩
  · exact .inl (normalise_append hall hp hne)
  · obtain ⟨z, hz⟩ := normalise_append (y := v₂ ++ (p ++ y)) hall (p := [c])
      (fun d hd => List.mem_singleton.mp hd ▸ hc) (List.cons_ne_nil _ _)
    refine .inr ⟨c, z, ?_, not_alpha_of_space (hv c (List.mem_append_right _ List.mem_cons_self))⟩
    rw [List.append_assoc]
    exact hz

end Normalise

/-! ### Schemes -/

section Schemes

variable {t a y z : JsString} {c : UInt16} {scheme rest : JsString}

theorem schemeOf_not_alpha (h : isAlpha c = false) : schemeOf (c :: z) = none := by
  rw [schemeOf, if_neg (Bool.eq_false_iff.mp h)]

/-- A scheme is letters and the like before a colon. -/
theorem schemeOf_some (h : schemeOf t = some (scheme, rest)) :
    ∃ a, t = a ++ colon :: rest ∧ a ≠ [] ∧ (∀ c ∈ a, isSchemeUnit c = true) ∧ lower a = scheme ∧
      (a.head?.map isAlpha) = some true := by
  rcases t with - | ⟨c, t⟩
  · cases h
  · rw [schemeOf] at h
    split at h
    · rename_i hc
      have hunit := isSchemeUnit_of_isAlpha hc
      split at h
      · rename_i d rest' hdrop
        split at h
        · rename_i hd
          obtain ⟨rfl, rfl⟩ := Prod.mk.inj (Option.some.inj h)
          refine ⟨(c :: t).takeWhile isSchemeUnit, ?_, ?_, fun x hx => List.mem_takeWhile_imp hx, rfl, ?_⟩
          · rw [← hd, ← hdrop, List.takeWhile_append_dropWhile]
          · rw [List.takeWhile_cons_of_pos hunit]
            exact List.cons_ne_nil _ _
          · rw [List.takeWhile_cons_of_pos hunit, List.head?_cons, Option.map_some, hc]
        · cases h
      · cases h
    · cases h

theorem schemeOf_alpha (ha : ∀ c ∈ a, isAlpha c = true) (hne : a ≠ []) :
    schemeOf (a ++ colon :: z) = some (lower a, z) := by
  have hunits : ∀ c ∈ a, isSchemeUnit c = true := fun c hc => isSchemeUnit_of_isAlpha (ha c hc)
  have hcolon : ¬isSchemeUnit colon = true := by decide
  have hdrop : (a ++ colon :: z).dropWhile isSchemeUnit = colon :: z := by
    rw [List.dropWhile_append_of_pos hunits, List.dropWhile_cons_of_neg hcolon]
  have htake : (a ++ colon :: z).takeWhile isSchemeUnit = a := by
    rw [List.takeWhile_append_of_pos hunits, List.takeWhile_cons_of_neg hcolon, List.append_nil]
  obtain ⟨c, a', rfl⟩ := List.exists_cons_of_ne_nil hne
  rw [List.cons_append] at hdrop htake ⊢
  rw [schemeOf, if_pos (ha c List.mem_cons_self), hdrop, htake]
  dsimp only
  rw [if_pos rfl]

def localSchemes : List JsString := [js "cid", js "blob", js "data"]

theorem isAlpha_of_lower {c d : UInt16} (h : lower [c] = [d]) (hd : 0x61 ≤ d ∧ d ≤ 0x7A) : isAlpha c = true := by
  have hc : (if 0x41 ≤ c ∧ c ≤ 0x5A then c + 0x20 else c) = d := (List.cons.inj h).1
  rw [isAlpha, Bool.or_eq_true, Bool.and_eq_true, Bool.and_eq_true, decide_eq_true_eq, decide_eq_true_eq,
    decide_eq_true_eq, decide_eq_true_eq]
  split at hc
  · exact .inl ‹_›
  · exact .inr (hc ▸ hd)

theorem lower_alpha {pre : JsString} (h : lower a = pre) (hpre : ∀ d ∈ pre, 0x61 ≤ d ∧ d ≤ 0x7A) :
    ∀ c ∈ a, isAlpha c = true := by
  intro c hc
  subst h
  exact isAlpha_of_lower (d := if 0x41 ≤ c ∧ c ≤ 0x5A then c + 0x20 else c) rfl (hpre _ (List.mem_map_of_mem hc))

theorem colon_of_lower (h : lower [c] = [colon]) : c = colon := by
  have hc : (if 0x41 ≤ c ∧ c ≤ 0x5A then c + 0x20 else c) = colon := (List.cons.inj h).1
  split at hc
  · rename_i hupper
    simp only [UInt16.le_iff_toNat_le, ← UInt16.toNat_inj, colon, UInt16.toNat_add] at hc hupper
    simp only [UInt16.reduceToNat] at hc hupper
    omega
  · exact hc

/-- A text with one of the local schemes is letters, a colon and more. -/
theorem hasLocalScheme_split (h : hasLocalScheme y = true) :
    ∃ a z, y = a ++ colon :: z ∧ a ≠ [] ∧ (∀ c ∈ a, isAlpha c = true) ∧ lower a ∈ localSchemes := by
  obtain ⟨pre, hpre, hprefix⟩ := List.any_eq_true.mp h
  have hsplit : ∃ scheme rest, pre = scheme ++ colon :: rest ∧ scheme ∈ localSchemes ∧ scheme ≠ [] ∧
      ∀ d ∈ scheme, (0x61 : UInt16) ≤ d ∧ d ≤ 0x7A := by
    simp only [List.mem_cons, List.not_mem_nil, or_false] at hpre
    rcases hpre with rfl | rfl | rfl
    · exact ⟨js "cid", [], by decide, by decide, by decide, by decide⟩
    · exact ⟨js "blob", [], by decide, by decide, by decide, by decide⟩
    · exact ⟨js "data", js "image/", by decide, by decide, by decide, by decide⟩
  obtain ⟨scheme, rest, rfl, hlocal, hne, hletters⟩ := hsplit
  obtain ⟨tail, htail⟩ := List.isPrefixOf_iff_prefix.mp hprefix
  rw [List.append_assoc] at htail
  obtain ⟨a, y', rfl, ha, hy'⟩ := List.map_eq_append_iff.mp htail.symm
  obtain ⟨c, z, rfl, hc, -⟩ := List.map_eq_cons_iff.mp hy'
  have hcolon : c = colon := colon_of_lower (congrArg (fun x => [x]) hc)
  refine ⟨a, z, by rw [hcolon], fun hnil => hne ?_, lower_alpha ha hletters, ?_⟩
  · rw [← ha, hnil]
    rfl
  · rw [show lower a = scheme from ha]
    exact hlocal

end Schemes

/-! ### Where a URL leads -/

section Resolve

variable {Host : Type} {hostOf : Bool → JsString → Option Host} {fileOf : JsString → Option (Option Host)}
  {base u : Parsed Host} {scheme rest t s : JsString} {host : Host} {port : Option ℕ}

/-- A page of our own origin. -/
def page (host : Host) (port : Option ℕ) : Parsed Host := ⟨js "https", some host, port⟩

def SameOrigin (base u : Parsed Host) : Prop := u.scheme = base.scheme ∧ u.host = base.host ∧ u.port = base.port

/-- It fails, or stays on the origin, or has a scheme that reaches no host. -/
def Safe (base : Parsed Host) (resolved : Option (Parsed Host)) : Prop :=
  ∀ u, resolved = some u → SameOrigin base u ∨ u.scheme ∈ localSchemes

theorem safe_base : Safe base (some base) := by
  intro u hu
  cases hu
  exact .inl ⟨rfl, rfl, rfl⟩

/-- A text without a scheme names another host only behind two slashes. -/
theorem relative_eq : relative hostOf (page host port) t =
    if twoSlashes t then specialAuthority hostOf (js "https") (t.drop 2) else some (page host port) := by
  have hhttps : isSpecial (js "https") = true := by decide
  have hspecial : isSpecial (page host port).scheme = true := hhttps
  rcases t with - | ⟨c, t⟩
  · rfl
  · rw [relative, hspecial]
    by_cases hc : isSlash c = true
    · have hc' : c = slash ∨ true = true ∧ c = backslash := by
        rw [isSlash, Bool.or_eq_true, decide_eq_true_eq, decide_eq_true_eq] at hc
        exact hc.imp_right fun h => ⟨rfl, h⟩
      rw [if_pos hc']
      rcases t with - | ⟨d, t⟩
      · rfl
      · rw [relativeSlash, hspecial, twoSlashes, hc, Bool.true_and]
        by_cases hd : isSlash d = true
        · rw [if_pos ⟨rfl, hd⟩, if_pos hd]
          rfl
        · have hd' : d ≠ slash := fun h => hd (by rw [h]; decide)
          rw [if_neg fun h => hd h.2, if_neg hd', if_neg hd]
    · have hc' : ¬(c = slash ∨ true = true ∧ c = backslash) := by
        rw [isSlash, Bool.or_eq_true, decide_eq_true_eq, decide_eq_true_eq] at hc
        exact fun h => hc (h.imp_right And.right)
      have htwo : twoSlashes (c :: t) = false := by
        rcases t with - | ⟨d, t⟩
        · rfl
        · rw [twoSlashes, Bool.eq_false_iff.mpr hc, Bool.false_and]
      rw [if_neg hc', htwo, if_neg Bool.false_ne_true]

theorem authority_scheme (h : authority hostOf scheme rest = some u) : u.scheme = scheme := by
  rw [authority] at h
  dsimp only at h
  split at h
  · cases h
  · split at h
    · cases h
    · obtain ⟨_, -, h⟩ := Option.bind_eq_some_iff.mp h
      obtain ⟨_, -, h⟩ := Option.bind_eq_some_iff.mp h
      cases h
      rfl

theorem afterScheme_local (h : scheme ∈ localSchemes) : Safe base (afterScheme hostOf fileOf base scheme rest) := by
  have hplain : scheme ≠ js "file" ∧ isSpecial scheme = false := by
    simp only [localSchemes, List.mem_cons, List.not_mem_nil, or_false] at h
    rcases h with rfl | rfl | rfl <;> decide
  intro u hu
  right
  rw [afterScheme, if_neg hplain.1, hplain.2, if_neg Bool.false_ne_true] at hu
  split at hu
  · rw [authority_scheme hu]
    exact h
  · cases hu
    exact h

/-- Behind two slashes there is no host but our own. -/
def NamesNoOther (hostOf : Bool → JsString → Option Host) (base : Parsed Host) (t : JsString) : Prop :=
  twoSlashes t = true → Safe base (specialAuthority hostOf base.scheme (t.drop 2))

theorem not_twoSlashes (h : schemeOf t = some (scheme, rest)) : twoSlashes t = false := by
  obtain ⟨a, rfl, hne, -, -, hhead⟩ := schemeOf_some h
  obtain ⟨c, a', rfl⟩ := List.exists_cons_of_ne_nil hne
  have hc : isAlpha c = true := by simpa using hhead
  have hslash : isSlash c = false := by
    rw [Bool.eq_false_iff]
    intro hs
    rw [isSlash, Bool.or_eq_true, decide_eq_true_eq, decide_eq_true_eq] at hs
    rcases hs with rfl | rfl <;> cases hc
  rw [List.cons_append]
  rcases a' ++ colon :: rest with - | ⟨d, t⟩
  · rfl
  · rw [twoSlashes, hslash, Bool.false_and]

theorem parse_eq : parse hostOf fileOf base s =
    match schemeOf (normalise s) with
    | some (scheme, rest) => afterScheme hostOf fileOf base scheme rest
    | none => relative hostOf base (normalise s) := schemeStart_eq

/-- Without a scheme, all depends on what follows two slashes. -/
theorem parse_relative (h : schemeOf (normalise s) = none) :
    Safe (page host port) (parse hostOf fileOf (page host port) s) ↔
    NamesNoOther hostOf (page host port) (normalise s) := by
  rw [parse_eq, h]
  dsimp only
  rw [relative_eq, NamesNoOther]
  split
  · rename_i htwo
    exact ⟨fun hsafe _ => hsafe, fun hnames => hnames htwo⟩
  · rename_i htwo
    exact ⟨fun _ h => absurd h htwo, fun _ => safe_base⟩

/-! ### What the test proves -/

theorem trim_split (s : JsString) :
    ∃ v w, s = v ++ (trim s ++ w) ∧ (∀ c ∈ v, isSpace c = true) ∧ ∀ c ∈ w, isSpace c = true := by
  refine ⟨s.takeWhile isSpace, (s.dropWhile isSpace).rtakeWhile isSpace, ?_, fun c hc => List.mem_takeWhile_imp hc,
    fun c hc => List.mem_rtakeWhile_imp hc⟩
  rw [trim, List.rdropWhile_append_rtakeWhile, List.takeWhile_append_dropWhile]

/-- White space and a text that the test finds to have a local scheme. -/
theorem schemeOf_local {v y w : JsString} (hv : ∀ c ∈ v, isSpace c = true) (hy : hasLocalScheme y = true) :
    ∀ scheme rest, schemeOf (normalise (v ++ (y ++ w))) = some (scheme, rest) → scheme ∈ localSchemes := by
  obtain ⟨a, z, rfl, hne, halpha, hlocal⟩ := hasLocalScheme_split hy
  intro scheme rest h
  have hc0 : ∀ c ∈ a ++ [colon], isC0OrSpace c = false := by
    intro c hc
    rw [Bool.eq_false_iff]
    intro hcontrol
    rcases List.mem_append.mp hc with hc | hc
    · have hletter := halpha c hc
      simp only [isC0OrSpace, isAlpha, Bool.or_eq_true, Bool.and_eq_true, decide_eq_true_eq,
        UInt16.le_iff_toNat_le] at hcontrol hletter
      simp only [UInt16.reduceToNat] at hcontrol hletter
      omega
    · rw [List.mem_singleton.mp hc] at hcontrol
      cases hcontrol
  have hsplit : v ++ ((a ++ colon :: z) ++ w) = v ++ ((a ++ [colon]) ++ (z ++ w)) := by simp
  rw [hsplit] at h
  rcases normalise_space hv hc0 (List.append_ne_nil_of_left_ne_nil hne _) with ⟨t, ht⟩ | ⟨c, t, ht, hc⟩
  · rw [ht, List.append_assoc, List.singleton_append, schemeOf_alpha halpha hne] at h
    obtain ⟨rfl, -⟩ := Prod.mk.inj (Option.some.inj h)
    exact hlocal
  · rw [ht, schemeOf_not_alpha hc] at h
    cases h

/-- White space and a text that starts as a relative URL. -/
theorem schemeOf_startsRelative {v y w : JsString} (hv : ∀ c ∈ v, isSpace c = true) (hy : startsRelative y = true) :
    schemeOf (normalise (v ++ (y ++ w))) = none := by
  rcases y with - | ⟨c, y⟩
  · cases hy
  · have hmark : isC0OrSpace c = false ∧ isAlpha c = false := by
      rw [startsRelative] at hy
      simp only [Bool.or_eq_true, decide_eq_true_eq] at hy
      rcases hy with ((rfl | rfl) | rfl) | rfl <;> decide
    have hsplit : v ++ ((c :: y) ++ w) = v ++ ([c] ++ (y ++ w)) := by simp
    rw [hsplit]
    rcases normalise_space hv (p := [c]) (fun d hd => List.mem_singleton.mp hd ▸ hmark.1) (List.cons_ne_nil _ _) with
      ⟨t, ht⟩ | ⟨d, t, ht, hd⟩
    · rw [ht]
      exact schemeOf_not_alpha hmark.2
    · rw [ht]
      exact schemeOf_not_alpha hd

/-- A value that passes the test has no scheme but a local one. -/
theorem provablyLocal_scheme (h : provablyLocal s = true) (hscheme : schemeOf (normalise s) = some (scheme, rest)) :
    scheme ∈ localSchemes := by
  obtain ⟨v, w, hs, hv, hw⟩ := trim_split s
  have hplain : colon ∉ trim s → False := by
    intro hfree
    obtain ⟨a, ht, -⟩ := schemeOf_some hscheme
    have hcolon : colon ∈ s := mem_of_mem_normalise (ht ▸ List.mem_append_right _ List.mem_cons_self)
    rw [hs] at hcolon
    rcases List.mem_append.mp hcolon with hc | hc
    · exact absurd (hv _ hc) (by decide)
    · rcases List.mem_append.mp hc with hc | hc
      · exact hfree hc
      · exact absurd (hw _ hc) (by decide)
  rw [provablyLocal] at h
  split at h
  · rename_i hnil
    exact (hplain (by rw [hnil]; exact List.not_mem_nil)).elim
  · split at h
    · rename_i hlocal
      rw [hs] at hscheme
      exact schemeOf_local hv hlocal _ _ hscheme
    · split at h
      · rename_i hrel
        rw [hs, schemeOf_startsRelative hv hrel] at hscheme
        cases hscheme
      · refine (hplain fun hc => ?_).elim
        rw [Bool.not_eq_true', List.any_eq_false] at h
        exact h colon hc (by decide)

/-- What passes the test is safe unless two slashes come out of it that lead to another host. -/
theorem provablyLocal_safe (h : provablyLocal s = true) :
    Safe (page host port) (parse hostOf fileOf (page host port) s) ↔
    NamesNoOther hostOf (page host port) (normalise s) := by
  rcases hscheme : schemeOf (normalise s) with - | ⟨scheme, rest⟩
  · exact parse_relative hscheme
  · rw [parse_eq, hscheme]
    refine ⟨fun _ htwo => ?_, fun _ => afterScheme_local (provablyLocal_scheme h hscheme)⟩
    rw [not_twoSlashes hscheme] at htwo
    cases htwo

end Resolve

/-! ### What the test sees of a srcset -/

section Pieces

variable {s u a b p : JsString} {c : UInt16}

/-- The word of a candidate URL that is tested: to the first white space or comma behind it. -/
def checkedWord (u : JsString) : JsString := (u.dropWhile isSpace).takeWhile fun c => !isSpace c && c ≠ comma

/-- The first word of every piece is local. -/
def Checked (s : JsString) : Prop := ∀ p ∈ s.splitOn comma, provablyLocal (firstWord p) = true

theorem checked_of_local (h : srcsetIsLocal s = true) : Checked s := by
  intro p hp
  by_cases hnil : firstWord p = []
  · rw [hnil]
    decide
  · exact List.all_eq_true.mp h _ (List.mem_filter.mpr ⟨List.mem_map_of_mem hp, decide_eq_true hnil⟩)

theorem isSpace_of_html (h : isHtmlSpace c = true) : isSpace c = true := by
  simp only [isHtmlSpace, Bool.or_eq_true, decide_eq_true_eq] at h
  rcases h with (((rfl | rfl) | rfl) | rfl) | rfl <;> decide

theorem splitOn_append (a b : JsString) : (a ++ comma :: b).splitOn comma = a.splitOn comma ++ b.splitOn comma := by
  induction a with
  | nil => simp [List.splitOn_cons_eq_if_modifyHead]
  | cons c a ih =>
    rw [List.cons_append, List.splitOn_cons_eq_if_modifyHead, List.splitOn_cons_eq_if_modifyHead, ih]
    split
    · rfl
    · rcases ha : a.splitOn comma with - | ⟨p, ps⟩
      · exact absurd ha (List.splitOn_ne_nil comma a)
      · rfl

theorem Checked.behind (h : Checked (a ++ comma :: b)) : Checked b := fun p hp =>
  h p (by rw [splitOn_append]; exact List.mem_append_right _ hp)

theorem firstWord_space (h : isSpace c = true) : firstWord (c :: p) = firstWord p := by
  rw [firstWord, firstWord, trim, trim, List.dropWhile_cons_of_pos h]

theorem Checked.skip (h : Checked s) : Checked (skipSeparators s) := by
  induction s with
  | nil => exact h
  | cons c s ih =>
    rw [skipSeparators]
    by_cases hc : isSeparator c = true
    · rw [List.dropWhile_cons_of_pos hc]
      refine ih fun p hp => ?_
      rcases Bool.or_eq_true_iff.mp hc with hspace | hcomma
      · have hne : ¬(c == comma) = true := fun heq => by
          rw [beq_iff_eq.mp heq] at hspace
          cases hspace
        rw [Checked, List.splitOn_cons_eq_if_modifyHead, if_neg hne] at h
        rcases hs : s.splitOn comma with - | ⟨q, qs⟩
        · exact absurd hs (List.splitOn_ne_nil comma s)
        · rw [hs, List.modifyHead_cons, List.forall_mem_cons, firstWord_space (isSpace_of_html hspace)] at h
          rw [hs] at hp
          rcases List.mem_cons.mp hp with rfl | hp
          · exact h.1
          · exact h.2 p hp
      · obtain rfl := of_decide_eq_true hcomma
        exact Checked.behind (a := []) h p hp
    · rw [List.dropWhile_cons_of_neg hc]
      exact h

theorem splitOn_head (s : JsString) : ∃ ps, s.splitOn comma = s.takeWhile (· ≠ comma) :: ps := by
  induction s with
  | nil => exact ⟨[], List.splitOn_nil comma⟩
  | cons c s ih =>
    obtain ⟨ps, hps⟩ := ih
    rw [List.splitOn_cons_eq_if_modifyHead, hps]
    by_cases hc : c = comma
    · rw [if_pos (beq_iff_eq.mpr hc), List.takeWhile_cons_of_neg (by simpa using hc)]
      exact ⟨_, rfl⟩
    · rw [if_neg (fun h => hc (beq_iff_eq.mp h)), List.takeWhile_cons_of_pos (by simpa using hc)]
      exact ⟨_, rfl⟩

/-- Trimming the end does not change the first word. -/
theorem firstWord_eq (p : JsString) : firstWord p = (p.dropWhile isSpace).takeWhile (!isSpace ·) := by
  rw [firstWord, trim]
  conv_rhs => rw [← List.rdropWhile_append_rtakeWhile (p := isSpace) (l := p.dropWhile isSpace)]
  have hspaces : ∀ c ∈ (p.dropWhile isSpace).rtakeWhile isSpace, isSpace c = true := fun c hc =>
    List.mem_rtakeWhile_imp hc
  have hnone : ((p.dropWhile isSpace).rtakeWhile isSpace).takeWhile (!isSpace ·) = [] := by
    rcases hr : (p.dropWhile isSpace).rtakeWhile isSpace with - | ⟨c, r⟩
    · rfl
    · rw [hr] at hspaces
      exact List.takeWhile_cons_of_neg (by rw [hspaces c List.mem_cons_self]; decide)
  rw [List.takeWhile_append, hnone, List.append_nil]
  split
  · rename_i hlen
    exact (List.takeWhile_prefix _).eq_of_length hlen
  · rfl

/-- A candidate URL is white space, the word that is tested, and what a space or a comma begins. -/
theorem checkedWord_split (u : JsString) : ∃ v z, u = v ++ (checkedWord u ++ z) ∧ (∀ c ∈ v, isSpace c = true) ∧
    ∀ c z', z = c :: z' → isSpace c = true ∨ c = comma := by
  refine ⟨u.takeWhile isSpace, (u.dropWhile isSpace).dropWhile fun c => !isSpace c && c ≠ comma, ?_,
    fun c hc => List.mem_takeWhile_imp hc, fun c z' hz => ?_⟩
  · rw [checkedWord, List.takeWhile_append_dropWhile, List.takeWhile_append_dropWhile]
  · have hhead := List.head?_dropWhile_not (fun c => !isSpace c && decide (c ≠ comma)) (u.dropWhile isSpace)
    rw [hz] at hhead
    dsimp only [List.head?_cons] at hhead
    rw [Bool.and_eq_false_iff, Bool.not_eq_eq_eq_not, Bool.not_false, decide_eq_false_iff_not, not_not] at hhead
    exact hhead

theorem mem_checkedWord (h : c ∈ checkedWord u) : isSpace c = false ∧ c ≠ comma := by
  have hc := List.mem_takeWhile_imp h
  simpa using hc

theorem takeWhile_append_stop {q : UInt16 → Bool} {w z : JsString} (hw : ∀ c ∈ w, q c = true)
    (hz : ∀ c z', z = c :: z' → q c = false) : (w ++ z).takeWhile q = w := by
  rw [List.takeWhile_append_of_pos hw]
  rcases z with - | ⟨c, z⟩
  · rw [List.takeWhile_nil, List.append_nil]
  · rw [List.takeWhile_cons_of_neg (Bool.eq_false_iff.mp (hz c z rfl)), List.append_nil]

/-- The tested word of a URL is the first word of the piece that begins with it. -/
theorem Checked.word {r : JsString} (h : Checked (u ++ r)) (hr : ∀ c r', r = c :: r' → isSpace c = true ∨ c = comma) :
    provablyLocal (checkedWord u) = true := by
  by_cases hnil : checkedWord u = []
  · rw [hnil]
    decide
  · obtain ⟨ps, hps⟩ := splitOn_head (u ++ r)
    obtain ⟨v, z, hu, hv, hz⟩ := checkedWord_split u
    have hbehind : ∀ c z', z ++ r = c :: z' → isSpace c = true ∨ c = comma := by
      intro c z' hzr
      rcases z with - | ⟨d, z⟩
      · exact hr c z' hzr
      · exact (List.cons.inj hzr).1 ▸ hz d z rfl
    have hpiece : (u ++ r).takeWhile (· ≠ comma) = v ++ (checkedWord u ++ (z ++ r).takeWhile (· ≠ comma)) := by
      have hvc : ∀ c ∈ v, decide (c ≠ comma) = true := fun c hc => decide_eq_true fun h => by
        have hspace := hv c hc
        rw [h] at hspace
        cases hspace
      have hwc : ∀ c ∈ checkedWord u, decide (c ≠ comma) = true := fun c hc => decide_eq_true (mem_checkedWord hc).2
      conv_lhs => rw [hu]
      rw [List.append_assoc, List.append_assoc, List.takeWhile_append_of_pos hvc, List.takeWhile_append_of_pos hwc]
    have hword : firstWord ((u ++ r).takeWhile (· ≠ comma)) = checkedWord u := by
      obtain ⟨c, w, hw⟩ := List.exists_cons_of_ne_nil hnil
      have hc : isSpace c = false := (mem_checkedWord (hw ▸ List.mem_cons_self)).1
      rw [firstWord_eq, hpiece, List.dropWhile_append_of_pos hv, hw, List.cons_append,
        List.dropWhile_cons_of_neg (Bool.eq_false_iff.mp hc), ← List.cons_append, ← hw]
      refine takeWhile_append_stop (fun d hd => by rw [(mem_checkedWord hd).1]; rfl) fun d z' hd => ?_
      rcases hzr : z ++ r with - | ⟨e, t⟩
      · rw [hzr] at hd
        cases hd
      · rw [hzr] at hd
        by_cases he : e = comma
        · rw [List.takeWhile_cons_of_neg (by simpa using he)] at hd
          cases hd
        · rw [List.takeWhile_cons_of_pos (by simpa using he)] at hd
          obtain ⟨rfl, -⟩ := List.cons.inj hd
          rw [(hbehind e t hzr).resolve_right he]
          rfl
    have hlocal := h _ (hps ▸ List.mem_cons_self)
    rwa [hword] at hlocal

/-- The descriptors end behind a comma or at the end of the text. -/
theorem descriptors_behind {st : DescriptorState} {current : JsString} {found : List JsString} {s : JsString} :
    (descriptors st current found s).2 = [] ∨ ∃ a, s = a ++ comma :: (descriptors st current found s).2 := by
  induction s generalizing st current found with
  | nil => cases st <;> exact .inl rfl
  | cons c s ih =>
    have hnext : ∀ {st current found}, (descriptors st current found s).2 = [] ∨
        ∃ a, c :: s = a ++ comma :: (descriptors st current found s).2 := fun {st current found} =>
      (@ih st current found).imp_right fun ⟨a, ha⟩ => ⟨c :: a, by rw [List.cons_append, ← ha]⟩
    have hopen : ∀ {st}, st ≠ .inParens → (descriptors st current found (c :: s)).2 = [] ∨
        ∃ a, c :: s = a ++ comma :: (descriptors st current found (c :: s)).2 := by
      intro st hst
      rw [descriptors]
      · split
        · exact hnext
        · split
          · rename_i hcomma
            exact .inr ⟨[], by rw [hcomma]; rfl⟩
          · split <;> exact hnext
      · exact hst
    cases st with
    | inParens =>
      rw [descriptors]
      split <;> exact hnext
    | inDescriptor => exact hopen (fun h => by cases h)
    | afterDescriptor => exact hopen (fun h => by cases h)

/-- Every candidate URL has no ASCII white space, and its first word was found to be local. -/
theorem candidate_checked {accepts : List JsString → Bool} {text : JsString} (h : Checked text) :
    ∀ u ∈ parseSrcset accepts text, provablyLocal (checkedWord u) = true ∧ ∀ c ∈ u, isHtmlSpace c = false := by
  induction hn : text.length using Nat.strong_induction_on generalizing text with
  | _ n ih =>
    rw [parseSrcset]
    split
    · exact fun u hu => (nomatch hu)
    · rename_i hne
      have hlt := rest_length hne
      have hskip := h.skip
      have hsplit : skipSeparators text = (skipSeparators text).takeWhile (!isHtmlSpace ·) ++
          (skipSeparators text).dropWhile (!isHtmlSpace ·) := (List.takeWhile_append_dropWhile).symm
      have hclean : ∀ c ∈ (skipSeparators text).takeWhile (!isHtmlSpace ·), isHtmlSpace c = false := fun c hc => by
        simpa using List.mem_takeWhile_imp hc
      have hrest : ∀ c r, (skipSeparators text).dropWhile (!isHtmlSpace ·) = c :: r → isSpace c = true := by
        intro c r hr
        have hhead := List.head?_dropWhile_not (!isHtmlSpace ·) (skipSeparators text)
        rw [hr] at hhead
        exact isSpace_of_html (by simpa using hhead)
      dsimp only
      split
      · rename_i hcomma
        intro u hu
        rcases List.mem_append.mp hu with hu | hu
        · split at hu
          · rw [List.mem_singleton.mp hu]
            rw [hsplit, ← List.rdropWhile_append_rtakeWhile (p := fun c => decide (c = comma))
              (l := (skipSeparators text).takeWhile (!isHtmlSpace ·)), List.append_assoc] at hskip
            refine ⟨hskip.word fun c r hr => ?_, fun c hc => hclean c ((List.rdropWhile_prefix _ _).subset hc)⟩
            rcases hcommas : ((skipSeparators text).takeWhile (!isHtmlSpace ·)).rtakeWhile (fun c => decide (c = comma)) with
              - | ⟨d, ds⟩
            · rw [hcommas] at hr
              exact .inl (hrest c r hr)
            · rw [hcommas] at hr
              obtain ⟨rfl, -⟩ := List.cons.inj hr
              have hd : d ∈ ((skipSeparators text).takeWhile (!isHtmlSpace ·)).rtakeWhile (fun c => decide (c = comma)) :=
                hcommas ▸ List.mem_cons_self
              exact .inr (by simpa using List.mem_rtakeWhile_imp hd)
          · cases hu
        · obtain ⟨a, ha⟩ := List.getLast?_eq_some_iff.mp hcomma
          rw [ha, List.append_assoc, List.singleton_append] at hsplit
          rw [hsplit] at hskip
          exact ih _ (hn ▸ hlt) hskip.behind rfl u hu
      · intro u hu
        rcases List.mem_append.mp hu with hu | hu
        · split at hu
          · rw [List.mem_singleton.mp hu]
            rw [hsplit] at hskip
            exact ⟨hskip.word fun c r hr => .inl (hrest c r hr), hclean⟩
          · cases hu
        · refine ih _ (hn ▸ lt_of_le_of_lt descriptors_length hlt) ?_ rfl u hu
          rcases @descriptors_behind .inDescriptor [] [] ((skipSeparators text).dropWhile (!isHtmlSpace ·)) with hend | ⟨a, ha⟩
          · rw [hend]
            intro p hp
            rw [List.splitOn_nil, List.mem_singleton] at hp
            rw [hp]
            decide
          · rw [ha, ← List.append_assoc] at hsplit
            rw [hsplit] at hskip
            exact hskip.behind

end Pieces

/-! ### Candidates -/

section Candidates

variable {Host : Type} {hostOf : Bool → JsString → Option Host} {fileOf : JsString → Option (Option Host)}
  {base : Parsed Host} {host : Host} {port : Option ℕ} {u v w y z scheme rest : JsString} {c : UInt16}

theorem trim_free (h : ∀ c ∈ w, isSpace c = false) : trim w = w := by
  have hdrop : w.dropWhile isSpace = w := by
    rcases w with - | ⟨c, w⟩
    · rfl
    · exact List.dropWhile_cons_of_neg (Bool.eq_false_iff.mp (h c List.mem_cons_self))
  rw [trim, hdrop, List.rdropWhile_eq_self_iff]
  exact fun hne => Bool.eq_false_iff.mp (h _ (List.getLast_mem hne))

/-- Without tabs and newlines, cleaning up only cuts off both ends. -/
theorem normalise_clean (hv : ∀ d ∈ v, isC0OrSpace d = true) (hc : isC0OrSpace c = false)
    (hy : ∀ d ∈ c :: y, isTabOrNewline d = false) : ∃ tail, normalise (v ++ c :: y) ++ tail = c :: y := by
  have hdrop : (v ++ c :: y).dropWhile isC0OrSpace = c :: y := by
    rw [List.dropWhile_append_of_pos hv, List.dropWhile_cons_of_neg (Bool.eq_false_iff.mp hc)]
  have hfilter : ((c :: y).rdropWhile isC0OrSpace).filter (!isTabOrNewline ·) = (c :: y).rdropWhile isC0OrSpace :=
    List.filter_eq_self.mpr fun d hd => by rw [hy d ((List.rdropWhile_prefix _ _).subset hd)]; rfl
  rw [normalise, hdrop, hfilter]
  exact ⟨_, List.rdropWhile_append_rtakeWhile⟩

theorem not_unit_of_space (h : isSpace c = true ∨ c = comma) : isSchemeUnit c = false ∧ c ≠ colon := by
  rcases h with h | rfl
  · refine ⟨?_, fun hc => by rw [hc] at h; cases h⟩
    rw [Bool.eq_false_iff]
    intro hunit
    simp only [isSpace, isSchemeUnit, isAlpha, isDigit, Bool.or_eq_true, Bool.and_eq_true, decide_eq_true_eq,
      UInt16.le_iff_toNat_le, ← UInt16.toNat_inj] at h hunit
    simp only [UInt16.reduceToNat] at h hunit
    omega
  · decide

theorem isTab_of_html (h : isHtmlSpace c = false) : isTabOrNewline c = false := by
  rw [Bool.eq_false_iff]
  intro htab
  simp only [isTabOrNewline, Bool.or_eq_true, decide_eq_true_eq] at htab
  rcases htab with (rfl | rfl) | rfl <;> cases h

/-- A scheme whose letters are seen stands before a colon of the tested word. -/
theorem colon_mem_word (hu : ∀ d ∈ u, isHtmlSpace d = false) (hseen : ∃ d ∈ checkedWord u, isC0OrSpace d = false)
    (hscheme : schemeOf (normalise u) = some (scheme, rest)) : colon ∈ checkedWord u := by
  obtain ⟨v, z, hsplit, hv, hz⟩ := checkedWord_split u
  obtain ⟨x, c, w', hw, hx, hc⟩ : ∃ x c w', checkedWord u = x ++ c :: w' ∧ (∀ d ∈ x, isC0OrSpace d = true) ∧
      isC0OrSpace c = false := by
    rcases c0_split (checkedWord u) with hall | h
    · obtain ⟨d, hd, hd'⟩ := hseen
      rw [hall d hd] at hd'
      cases hd'
    · exact h
  rcases c0_split v with hall | ⟨v₁, d, v₂, rfl, hall, hd⟩
  · have hsplit' : u = (v ++ x) ++ c :: (w' ++ z) := by
      rw [hsplit, hw]
      simp
    have hclean : ∀ d ∈ c :: (w' ++ z), isTabOrNewline d = false := fun d hd =>
      isTab_of_html (hu d (hsplit' ▸ List.mem_append_right _ hd))
    obtain ⟨tail, htail⟩ := normalise_clean (v := v ++ x) (fun d hd => (List.mem_append.mp hd).elim (hall d) (hx d)) hc hclean
    rw [← hsplit'] at htail
    obtain ⟨a, ht, -, hunits, -, -⟩ := schemeOf_some hscheme
    rw [ht, List.append_assoc, List.cons_append] at htail
    have hword : a ++ colon :: (rest ++ tail) = (c :: w') ++ z := htail
    rw [hw]
    rcases List.append_eq_append_iff.mp hword with ⟨b, hb, hrest⟩ | ⟨b, hb, hrest⟩
    · -- the word goes on behind the scheme
      rcases b with - | ⟨d, b⟩
      · obtain ⟨hnot, hne⟩ := not_unit_of_space (hz colon _ hrest.symm)
        exact absurd rfl hne
      · obtain ⟨rfl, -⟩ := List.cons.inj hrest
        exact List.mem_append_right _ (hb ▸ List.mem_append_right _ List.mem_cons_self)
    · -- the scheme would go on behind the word
      rcases b with - | ⟨d, b⟩
      · obtain ⟨-, hne⟩ := not_unit_of_space (hz colon _ hrest)
        exact absurd rfl hne
      · obtain ⟨hnot, -⟩ := not_unit_of_space (hz d _ hrest)
        rw [hunits d (hb ▸ List.mem_append_right _ List.mem_cons_self)] at hnot
        cases hnot
  · -- white space that is not cut off begins the text
    obtain ⟨t, ht⟩ := normalise_append (y := v₂ ++ (checkedWord u ++ z)) hall (p := [d])
      (fun e he => List.mem_singleton.mp he ▸ hd) (List.cons_ne_nil _ _)
    have hsplit' : u = v₁ ++ ([d] ++ (v₂ ++ (checkedWord u ++ z))) := by
      conv_lhs => rw [hsplit]
      simp
    rw [hsplit', ht, List.singleton_append] at hscheme
    rw [schemeOf_not_alpha (not_alpha_of_space (hv d (List.mem_append_right _ List.mem_cons_self)))] at hscheme
    cases hscheme

/-- A candidate whose tested word is local and is seen has no scheme but a local one. -/
theorem candidate_scheme (hu : ∀ d ∈ u, isHtmlSpace d = false) (hlocal : provablyLocal (checkedWord u) = true)
    (hseen : ∃ d ∈ checkedWord u, isC0OrSpace d = false) (hscheme : schemeOf (normalise u) = some (scheme, rest)) :
    scheme ∈ localSchemes := by
  obtain ⟨v, z, hsplit, hv, hz⟩ := checkedWord_split u
  have htrim : trim (checkedWord u) = checkedWord u := trim_free fun d hd => (mem_checkedWord hd).1
  have hcolon := colon_mem_word hu hseen hscheme
  rw [provablyLocal, htrim] at hlocal
  split at hlocal
  · rename_i hnil
    rw [hnil] at hcolon
    cases hcolon
  · split at hlocal
    · rename_i hy
      rw [hsplit] at hscheme
      exact schemeOf_local hv hy _ _ hscheme
    · split at hlocal
      · rename_i hrel
        rw [hsplit, schemeOf_startsRelative hv hrel] at hscheme
        cases hscheme
      · rw [Bool.not_eq_true', List.any_eq_false] at hlocal
        exact absurd (by decide) (hlocal colon hcolon)

/-- If the tested word is cut off as nothing but controls, no scheme behind it leads to another host. -/
def NoHiddenScheme (hostOf : Bool → JsString → Option Host) (fileOf : JsString → Option (Option Host))
    (base : Parsed Host) (u : JsString) : Prop :=
  (∀ c ∈ checkedWord u, isC0OrSpace c = true) → ∀ scheme rest, schemeOf (normalise u) = some (scheme, rest) →
    scheme ∉ localSchemes → Safe base (afterScheme hostOf fileOf base scheme rest)

theorem candidate_safe (hu : ∀ d ∈ u, isHtmlSpace d = false) (hlocal : provablyLocal (checkedWord u) = true) :
    Safe (page host port) (parse hostOf fileOf (page host port) u) ↔
    NamesNoOther hostOf (page host port) (normalise u) ∧ NoHiddenScheme hostOf fileOf (page host port) u := by
  rcases hscheme : schemeOf (normalise u) with - | ⟨scheme, rest⟩
  · rw [parse_relative hscheme]
    refine (and_iff_left fun _ scheme rest h => ?_).symm
    rw [hscheme] at h
    cases h
  · rw [parse_eq, hscheme]
    have hno : NamesNoOther hostOf (page host port) (normalise u) := fun htwo => by
      rw [not_twoSlashes hscheme] at htwo
      cases htwo
    refine ⟨fun hsafe => ⟨hno, fun _ scheme' rest' h _ => ?_⟩, fun ⟨_, hhidden⟩ => ?_⟩
    · rw [hscheme] at h
      obtain ⟨rfl, rfl⟩ := Prod.mk.inj (Option.some.inj h)
      exact hsafe
    · by_cases hin : scheme ∈ localSchemes
      · exact afterScheme_local hin
      · refine hhidden (fun c hc => ?_) scheme rest hscheme hin
        by_contra hseen
        exact hin (candidate_scheme hu hlocal ⟨c, hc, Bool.eq_false_iff.mpr hseen⟩ hscheme)

/-- A value that passes the test is safe exactly if the browser's cleaning up brings out no two slashes that
    lead to another host, and of a srcset also no scheme behind a word of controls. -/
theorem local_is_safe (hostOf : Bool → JsString → Option Host) (fileOf : JsString → Option (Option Host))
    (accepts : List JsString → Bool) (host : Host) (port : Option ℕ) :
    (∀ s, provablyLocal s = true → (Safe (page host port) (parse hostOf fileOf (page host port) s) ↔
      NamesNoOther hostOf (page host port) (normalise s))) ∧
    ∀ text, srcsetIsLocal text = true →
      ((∀ u ∈ parseSrcset accepts text, Safe (page host port) (parse hostOf fileOf (page host port) u)) ↔
        ∀ u ∈ parseSrcset accepts text, NamesNoOther hostOf (page host port) (normalise u) ∧
          NoHiddenScheme hostOf fileOf (page host port) u) := by
  refine ⟨fun s hs => provablyLocal_safe hs, fun text htext => ?_⟩
  refine forall₂_congr fun u hu => ?_
  obtain ⟨hlocal, hclean⟩ := candidate_checked (checked_of_local htext) u hu
  exact candidate_safe hclean hlocal

/-- A word of one control hides the scheme behind it. -/
example : srcsetIsLocal (js "\x01\x0bhttps://evil.example/p") = true ∧
    schemeOf (normalise (js "\x01\x0bhttps://evil.example/p")) = some (js "https", js "//evil.example/p") := by
  decide +kernel

/-- A tab between two slashes passes the test, and leads to another host. -/
theorem tab_between_slashes : provablyLocal (js "/\t/evil.example/p") = true ∧
    ¬Safe (page (js "mail.example") none)
      (parse (fun _ host => some host) (fun _ => some none) (page (js "mail.example") none) (js "/\t/evil.example/p")) := by
  refine ⟨by decide +kernel, fun hsafe => ?_⟩
  have hparse : parse (fun _ host => some host) (fun _ => some none) (page (js "mail.example") none)
      (js "/\t/evil.example/p") = some (page (js "evil.example") none) := by
    decide +kernel
  rcases hsafe _ hparse with ⟨-, hhost, -⟩ | hlocal
  · revert hhost
    decide +kernel
  · revert hlocal
    decide +kernel

end Candidates

end OneMail.Content
