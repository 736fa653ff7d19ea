import OneMail.Js.Json

/-! The templates of the webhooks (`sendWebhook`).

    The fields of a mail are put into the body one after the other, each by a global replacement in what the earlier
    ones have left. What is meant is one replacement of all placeholders at once; `Faithful` says when the rounds
    come to that. -/

namespace OneMail.Templating

/-- The keys of a `WebhookMail`. -/
def fieldNames : List JsString :=
  [js "id", js "url", js "from", js "to", js "subject", js "raw", js "parsedText", js "parsedHtml", js "aiExtract",
    js "aiExtractType", js "aiExtractResult", js "aiExtractResultText"]

abbrev Entry := JsString × JsString

/-- A mail of strings, in the order of `Object.keys`. -/
structure WebhookMail where
  entries : List Entry
  named : ∀ e ∈ entries, e.1 ∈ fieldNames
  distinct : (entries.map (·.1)).Nodup

def dollar : UInt16 := 0x24

/-- The text that `\$\{key\}` matches. -/
def placeholder (key : JsString) : JsString := dollar :: 0x7B :: key ++ [0x7D]

/-- What a replacement stands for, where the match has no groups. -/
def expand (found before after : JsString) : JsString → JsString
  | [] => []
  | [c] => [c]
  | c :: d :: s =>
    if c = dollar then
      if d = dollar then dollar :: expand found before after s
      else if d = 0x26 then found ++ expand found before after s
      else if d = 0x60 then before ++ expand found before after s
      else if d = 0x27 then after ++ expand found before after s
      else c :: expand found before after (d :: s)
    else c :: expand found before after (d :: s)

/-- A global replacement of a text, after `before`; the first units still belong to a match. -/
def replaceFrom (p replacement : JsString) : ℕ → JsString → JsString → JsString
  | _, _, [] => []
  | skip + 1, before, c :: s => replaceFrom p replacement skip (before ++ [c]) s
  | 0, before, c :: s =>
    if p.isPrefixOf (c :: s) then
      expand p before ((c :: s).drop p.length) replacement ++ replaceFrom p replacement (p.length - 1) (before ++ [c]) s
    else c :: replaceFrom p replacement 0 (before ++ [c]) s

/-- The units that `.` does not match. -/
def isLineTerminator (c : UInt16) : Bool := c = 0xA || c = 0xD || c = 0x2028 || c = 0x2029

/-- `.replace(/^"(.*)"$/, '$1')` -/
def stripQuotes : JsString → JsString
  | [] => []
  | c :: s =>
    if c = Json.quotationMark ∧ s.getLast? = some Json.quotationMark ∧ ∀ d ∈ s.dropLast, isLineTerminator d = false then
      s.dropLast
    else c :: s

/-- One turn of the loop over the keys. -/
def replaceField (body : JsString) (e : Entry) : JsString :=
  replaceFrom (placeholder e.1) (stripQuotes (Json.quote e.2)) 0 [] body

/-- The body that is sent. -/
def webhookBody (template : JsString) (mail : WebhookMail) : JsString := mail.entries.foldl replaceField template

/-! ### All placeholders at once -/

inductive Piece
  | unit (c : UInt16)
  | hole (key : JsString)
  deriving DecidableEq

/-- A template in pieces; the first units still belong to a placeholder. -/
def piecesFrom (keys : List JsString) : ℕ → JsString → List Piece
  | _, [] => []
  | skip + 1, _ :: s => piecesFrom keys skip s
  | 0, c :: s =>
    match keys.find? fun key => (placeholder key).isPrefixOf (c :: s) with
    | some key => .hole key :: piecesFrom keys ((placeholder key).length - 1) s
    | none => .unit c :: piecesFrom keys 0 s

def pieces (template : JsString) (mail : WebhookMail) : List Piece := piecesFrom (mail.entries.map (·.1)) 0 template

/-- Texts for the placeholders, by their keys. -/
abbrev Texts := JsString → JsString

def Piece.text (t : Texts) : Piece → JsString
  | .unit c => [c]
  | .hole key => t key

def textOf (t : Texts) (ps : List Piece) : JsString := ps.flatMap (Piece.text t)

def valueOf (entries : List Entry) (key : JsString) : JsString := (entries.lookup key).getD []

/-- Every placeholder replaced, all at once. -/
def filled (template : JsString) (mail : WebhookMail) : JsString :=
  textOf (fun key => Json.escape (valueOf mail.entries key)) (pieces template mail)

/-! ### The condition -/

/-- The placeholder begins nowhere in `s`, which `rest` follows. -/
def Clear (p rest : JsString) : JsString → Prop
  | [] => True
  | c :: s => p.isPrefixOf (c :: s ++ rest) = false ∧ Clear p rest s

/-- The placeholder of the key is found at the template's own places only. -/
def OnlyHoles (t : Texts) (key : JsString) : List Piece → Prop
  | [] => True
  | x :: ps => (x = .hole key ∨ Clear (placeholder key) (textOf t ps) (x.text t)) ∧ OnlyHoles t key ps

/-- No `$$`, `$&`, `` $` `` or `$'`. -/
def NoPattern : JsString → Prop
  | c :: d :: s => ¬(c = dollar ∧ (d = dollar ∨ d = 0x26 ∨ d = 0x60 ∨ d = 0x27)) ∧ NoPattern (d :: s)
  | _ => True

/-- The value comes through the replacement as it is. -/
def Plain (value : JsString) : Prop :=
  (∀ c ∈ Json.escape value, isLineTerminator c = false) ∧ NoPattern (Json.escape value)

/-- The text of a placeholder after the first rounds. -/
def after (done : List Entry) (key : JsString) : JsString :=
  match done.lookup key with
  | some value => Json.escape value
  | none => placeholder key

/-- No round meets a replacement pattern, a line separator or a placeholder that the template does not have. -/
def FaithfulFrom (ps : List Piece) : List Entry → List Entry → Prop
  | _, [] => True
  | done, e :: todo =>
    (.hole e.1 ∈ ps → Plain e.2) ∧ OnlyHoles (after done) e.1 ps ∧ FaithfulFrom ps (done ++ [e]) todo

def Faithful (template : JsString) (mail : WebhookMail) : Prop :=
  FaithfulFrom (pieces template mail) [] mail.entries

instance decidableClear (p rest : JsString) : ∀ s, Decidable (Clear p rest s)
  | [] => inferInstanceAs (Decidable True)
  | c :: s =>
    have := decidableClear p rest s
    inferInstanceAs (Decidable (p.isPrefixOf (c :: s ++ rest) = false ∧ Clear p rest s))

instance decidableOnlyHoles (t : Texts) (key : JsString) : ∀ ps, Decidable (OnlyHoles t key ps)
  | [] => inferInstanceAs (Decidable True)
  | x :: ps =>
    have := decidableOnlyHoles t key ps
    inferInstanceAs (Decidable ((x = .hole key ∨ Clear (placeholder key) (textOf t ps) (x.text t)) ∧ OnlyHoles t key ps))

instance decidableNoPattern : ∀ s, Decidable (NoPattern s)
  | [] => inferInstanceAs (Decidable True)
  | [_] => inferInstanceAs (Decidable True)
  | c :: d :: s =>
    have := decidableNoPattern (d :: s)
    inferInstanceAs (Decidable (¬(c = dollar ∧ (d = dollar ∨ d = 0x26 ∨ d = 0x60 ∨ d = 0x27)) ∧ NoPattern (d :: s)))

instance decidablePlain (value : JsString) : Decidable (Plain value) := inferInstanceAs (Decidable (_ ∧ _))

instance decidableFaithfulFrom (ps : List Piece) : ∀ done todo, Decidable (FaithfulFrom ps done todo)
  | _, [] => inferInstanceAs (Decidable True)
  | done, e :: todo =>
    have := decidableFaithfulFrom ps (done ++ [e]) todo
    inferInstanceAs (Decidable
      ((.hole e.1 ∈ ps → Plain e.2) ∧ OnlyHoles (after done) e.1 ps ∧ FaithfulFrom ps (done ++ [e]) todo))

instance decidableFaithful (template : JsString) (mail : WebhookMail) : Decidable (Faithful template mail) :=
  decidableFaithfulFrom (pieces template mail) [] mail.entries

/-! ### One round -/

section Round

variable {p replacement : JsString}

theorem expand_of_noPattern {found before after : JsString} :
    ∀ {s : JsString}, NoPattern s → expand found before after s = s
  | [], _ => rfl
  | [_], _ => rfl
  | c :: d :: s, h => by
    have hrest : expand found before after (d :: s) = d :: s := expand_of_noPattern h.2
    rw [expand]
    split_ifs with hc hdollar hfound hbefore hafter
    · exact absurd ⟨hc, .inl hdollar⟩ h.1
    · exact absurd ⟨hc, .inr (.inl hfound)⟩ h.1
    · exact absurd ⟨hc, .inr (.inr (.inl hbefore))⟩ h.1
    · exact absurd ⟨hc, .inr (.inr (.inr hafter))⟩ h.1
    · rw [hrest]
    · rw [hrest]

theorem replace_skip (t before rest : JsString) :
    replaceFrom p replacement t.length before (t ++ rest) = replaceFrom p replacement 0 (before ++ t) rest := by
  induction t generalizing before with
  | nil => rw [List.append_nil]; rfl
  | cons c t ih =>
    rw [List.length_cons, List.cons_append, replaceFrom, ih, List.append_assoc]
    rfl

theorem replace_clear {t rest : JsString} (h : Clear p rest t) (before : JsString) :
    replaceFrom p replacement 0 before (t ++ rest) = t ++ replaceFrom p replacement 0 (before ++ t) rest := by
  induction t generalizing before with
  | nil => rw [List.append_nil]; rfl
  | cons c t ih =>
    have hc : p.isPrefixOf (c :: (t ++ rest)) = false := h.1
    rw [List.cons_append, replaceFrom, hc, if_neg Bool.false_ne_true, ih h.2, List.append_assoc]
    rfl

theorem replace_found (key rest before : JsString) :
    replaceFrom (placeholder key) replacement 0 before (placeholder key ++ rest) =
      expand (placeholder key) before rest replacement ++
        replaceFrom (placeholder key) replacement 0 (before ++ placeholder key) rest := by
  have hfirst : (placeholder key).isPrefixOf (placeholder key ++ rest) = true :=
    List.isPrefixOf_iff_prefix.mpr (List.prefix_append _ _)
  have hskip : replaceFrom (placeholder key) replacement (0x7B :: key ++ [0x7D]).length (before ++ [dollar])
      ((0x7B :: key ++ [0x7D]) ++ rest) =
      replaceFrom (placeholder key) replacement 0 (before ++ [dollar] ++ (0x7B :: key ++ [0x7D])) rest :=
    replace_skip _ _ _
  have hcons : placeholder key ++ rest = dollar :: ((0x7B :: key ++ [0x7D]) ++ rest) := rfl
  rw [hcons, replaceFrom, ← hcons, hfirst, if_pos rfl, List.drop_left,
    show (placeholder key).length - 1 = (0x7B :: key ++ [0x7D]).length from rfl, hskip, List.append_assoc]
  rfl

/-- Where only the holes of the key match, they are what is replaced. -/
theorem replace_holes {t : Texts} {key : JsString} (hkey : t key = placeholder key) {ps : List Piece}
    (honly : OnlyHoles t key ps)
    (hplain : .hole key ∈ ps → ∀ found before after, expand found before after replacement = replacement)
    (before : JsString) :
    replaceFrom (placeholder key) replacement 0 before (textOf t ps) =
      textOf (fun k => if k = key then replacement else t k) ps := by
  induction ps generalizing before with
  | nil => rfl
  | cons x ps ih =>
    have hrest := ih honly.2 (fun hmem => hplain (List.mem_cons_of_mem x hmem))
    have hsplit : ∀ u : Texts, textOf u (x :: ps) = x.text u ++ textOf u ps := fun _ => List.flatMap_cons
    rw [hsplit, hsplit]
    by_cases hx : x = .hole key
    · subst hx
      simp only [Piece.text, if_true]
      rw [hkey, replace_found, hplain List.mem_cons_self, hrest]
    · have hsame : x.text (fun k => if k = key then replacement else t k) = x.text t := by
        rcases x with c | k
        · rfl
        · have hk : k ≠ key := fun hk => hx (congrArg Piece.hole hk)
          exact if_neg hk
      rw [hsame, replace_clear (honly.1.resolve_left hx), hrest]

end Round

/-! ### All rounds -/

section Rounds

variable {template : JsString} {mail : WebhookMail}

theorem textOf_congr {t u : Texts} {ps : List Piece} (h : ∀ key, .hole key ∈ ps → t key = u key) :
    textOf t ps = textOf u ps := by
  refine List.flatMap_congr fun x hx => ?_
  rcases x with c | key
  · rfl
  · exact h key hx

theorem hole_key {keys : List JsString} {key : JsString} : ∀ (skip : ℕ) (s : JsString),
    .hole key ∈ piecesFrom keys skip s → key ∈ keys
  | _, [], h => by cases h
  | skip + 1, _ :: s, h => hole_key skip s h
  | 0, c :: s, h => by
    rw [piecesFrom] at h
    split at h
    · rename_i key' hfind
      rcases List.mem_cons.mp h with heq | h
      · cases heq
        exact List.mem_of_find?_eq_some hfind
      · exact hole_key _ s h
    · rcases List.mem_cons.mp h with heq | h
      · cases heq
      · exact hole_key _ s h

/-- The pieces make up the template. -/
theorem textOf_pieces (keys : List JsString) : ∀ (skip : ℕ) (s : JsString),
    textOf placeholder (piecesFrom keys skip s) = s.drop skip
  | _, [] => by rw [List.drop_nil]; rfl
  | skip + 1, _ :: s => textOf_pieces keys skip s
  | 0, c :: s => by
    rw [piecesFrom]
    split
    · rename_i key hfind
      have hfirst : (placeholder key).isPrefixOf (c :: s) = true := List.find?_some
        (p := fun key => (placeholder key).isPrefixOf (c :: s)) hfind
      obtain ⟨u, hu⟩ := List.isPrefixOf_iff_prefix.mp hfirst
      obtain ⟨rfl, rfl⟩ := List.cons.inj (show dollar :: ((0x7B :: key ++ [0x7D]) ++ u) = c :: s from hu)
      rw [textOf, List.flatMap_cons, ← textOf, textOf_pieces, Piece.text,
        show (placeholder key).length - 1 = (0x7B :: key ++ [0x7D]).length from rfl, List.drop_left]
      rfl
    · rw [textOf, List.flatMap_cons, ← textOf, textOf_pieces]
      rfl

theorem stripQuotes_quote {value : JsString} (h : Plain value) :
    stripQuotes (Json.quote value) = Json.escape value := by
  have hlast : (Json.escape value ++ [Json.quotationMark]).getLast? = some Json.quotationMark := List.getLast?_concat
  have hinit : (Json.escape value ++ [Json.quotationMark]).dropLast = Json.escape value := List.dropLast_concat
  rw [Json.quote, List.cons_append, stripQuotes, hlast, hinit, if_pos ⟨rfl, rfl, h.1⟩]

theorem after_append {done : List Entry} {e : Entry} {key : JsString} :
    after (done ++ [e]) key = if key = e.1 ∧ done.lookup key = none then Json.escape e.2 else after done key := by
  rw [after, after, List.lookup_append]
  rcases hdone : done.lookup key with - | value
  · by_cases hkey : key = e.1
    · subst hkey
      rcases e with ⟨k, v⟩
      simp
    · rw [if_neg fun h => hkey h.1]
      rcases e with ⟨k, v⟩
      simp [hkey]
  · simp

theorem replaceField_round {ps : List Piece} {done : List Entry} {e : Entry} (hnew : done.lookup e.1 = none)
    (hplain : .hole e.1 ∈ ps → Plain e.2) (honly : OnlyHoles (after done) e.1 ps) :
    replaceField (textOf (after done) ps) e = textOf (after (done ++ [e])) ps := by
  have hkey : after done e.1 = placeholder e.1 := by rw [after, hnew]
  rw [replaceField, replace_holes hkey honly ?_]
  · refine textOf_congr fun key hhole => ?_
    rw [after_append]
    by_cases hk : key = e.1
    · subst hk
      rw [if_pos rfl, if_pos ⟨rfl, hnew⟩, stripQuotes_quote (hplain hhole)]
    · rw [if_neg hk, if_neg fun h => hk h.1]
  · intro hhole found before after
    rw [stripQuotes_quote (hplain hhole)]
    exact expand_of_noPattern (hplain hhole).2

theorem rounds_faithful {ps : List Piece} {todo : List Entry} :
    ∀ {done : List Entry}, FaithfulFrom ps done todo → ((done ++ todo).map (·.1)).Nodup →
      todo.foldl replaceField (textOf (after done) ps) = textOf (after (done ++ todo)) ps := by
  induction todo with
  | nil =>
    intro done _ _
    rw [List.append_nil]
    rfl
  | cons e todo ih =>
    rintro done ⟨hplain, honly, hrest⟩ hnodup
    have hnew : done.lookup e.1 = none := by
      refine List.lookup_eq_none_iff.mpr fun d hd => ?_
      rw [List.map_append, List.nodup_append] at hnodup
      have hne := hnodup.2.2 _ (List.mem_map_of_mem hd) _ (List.mem_map_of_mem List.mem_cons_self)
      simpa using Ne.symm hne
    have happend : done ++ e :: todo = done ++ [e] ++ todo := by rw [List.append_assoc]; rfl
    rw [List.foldl_cons, replaceField_round hnew hplain honly, happend]
    rw [happend] at hnodup
    exact ih hrest hnodup

theorem webhookBody_eq (h : Faithful template mail) : webhookBody template mail = filled template mail := by
  have htemplate : textOf (after []) (pieces template mail) = template := textOf_pieces _ 0 template
  have hrounds := rounds_faithful h (by rw [List.nil_append]; exact mail.distinct)
  rw [htemplate, List.nil_append] at hrounds
  rw [webhookBody, hrounds, filled]
  refine textOf_congr fun key hhole => ?_
  obtain ⟨e, he, rfl⟩ := List.mem_map.mp (hole_key _ _ hhole)
  rw [after, valueOf]
  rcases hlookup : mail.entries.lookup e.1 with - | value
  · have hne := List.lookup_eq_none_iff.mp hlookup e he
    simp at hne
  · rfl

end Rounds

end OneMail.Templating
