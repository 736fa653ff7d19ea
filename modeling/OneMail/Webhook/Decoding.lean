import OneMail.Webhook.Template

/-! What the receiver of a webhook decodes.

    The scanner reads a template and every body made from it in step: where the template has a placeholder inside a
    string, the body has an escaped value, and both put one text into the same place of the same value. -/

namespace OneMail.Templating
open Json

/-- A JSON value with strings in pieces: what it is for any texts in the holes. -/
inductive Templated : (Texts → Value) → Prop
  | null : Templated fun _ => .null
  | bool (b : Bool) : Templated fun _ => .bool b
  | number (n : Numeral) : Templated fun _ => .number n
  | string (ps : List Piece) : Templated fun t => .string (textOf t ps)
  | array (Vs : List (Texts → Value)) (hVs : ∀ V ∈ Vs, Templated V) : Templated fun t => .array (Vs.map fun V => V t)
  | object (Ms : List (List Piece × (Texts → Value))) (hMs : ∀ M ∈ Ms, Templated M.2) :
      Templated fun t => .object (Ms.map fun M => (textOf t M.1, M.2 t))

def Mode.isString : Mode → Bool
  | .string _ => true
  | _ => false

/-- The placeholders among the pieces stand inside string literals, as far as the scanner gets. -/
def quotedFrom : Scan → List Piece → Bool
  | _, [] => true
  | s, .unit c :: ps =>
    match s.step c with
    | some s' => quotedFrom s' ps
    | none => true
  | s, .hole key :: ps =>
    Mode.isString s.mode && match s.run (placeholder key) with
      | some s' => quotedFrom s' ps
      | none => true

/-- Every placeholder of the template stands inside a string literal. -/
def Quoted (template : JsString) (mail : WebhookMail) : Prop :=
  quotedFrom ⟨.value [], .between⟩ (pieces template mail) = true

instance decidableQuoted (template : JsString) (mail : WebhookMail) : Decidable (Quoted template mail) :=
  inferInstanceAs (Decidable (_ = true))

/-- The text with the escaped values in the holes. -/
def encoded (t : Texts) (ps : List Piece) : JsString := textOf (fun key => escape (t key)) ps

/-! ### Families of states -/

inductive FrameT : (Texts → Frame) → Prop
  | array (Vs : List (Texts → Value)) (hVs : ∀ V ∈ Vs, Templated V) : FrameT fun t => .array (Vs.map fun V => V t)
  | member (Ms : List (List Piece × (Texts → Value))) (hMs : ∀ M ∈ Ms, Templated M.2) (key : List Piece) :
      FrameT fun t => .member (Ms.map fun M => (textOf t M.1, M.2 t)) (textOf t key)

inductive ParserT : (Texts → Parser) → Prop
  | value (Fs : List (Texts → Frame)) (hFs : ∀ F ∈ Fs, FrameT F) : ParserT fun t => .value (Fs.map fun F => F t)
  | element (Fs : List (Texts → Frame)) (hFs : ∀ F ∈ Fs, FrameT F) : ParserT fun t => .element (Fs.map fun F => F t)
  | firstKey (Fs : List (Texts → Frame)) (hFs : ∀ F ∈ Fs, FrameT F) : ParserT fun t => .firstKey (Fs.map fun F => F t)
  | key (Fs : List (Texts → Frame)) (hFs : ∀ F ∈ Fs, FrameT F) (Ms : List (List Piece × (Texts → Value)))
      (hMs : ∀ M ∈ Ms, Templated M.2) :
      ParserT fun t => .key (Fs.map fun F => F t) (Ms.map fun M => (textOf t M.1, M.2 t))
  | colon (Fs : List (Texts → Frame)) (hFs : ∀ F ∈ Fs, FrameT F) (Ms : List (List Piece × (Texts → Value)))
      (hMs : ∀ M ∈ Ms, Templated M.2) (key : List Piece) :
      ParserT fun t => .colon (Fs.map fun F => F t) (Ms.map fun M => (textOf t M.1, M.2 t)) (textOf t key)
  | after (Fs : List (Texts → Frame)) (hFs : ∀ F ∈ Fs, FrameT F) (V : Texts → Value) (hV : Templated V) :
      ParserT fun t => .after (Fs.map fun F => F t) (V t)

/-- No token of a string. -/
def NoString (k : Token) : Prop := ∀ s, k ≠ .string s

inductive TokenT : (Texts → Token) → Prop
  | plain (k : Token) (hk : NoString k) : TokenT fun _ => k
  | string (ps : List Piece) : TokenT fun t => .string (textOf t ps)

inductive ScanT : (Texts → Scan) → Prop
  | between (P : Texts → Parser) (hP : ParserT P) : ScanT fun t => ⟨P t, .between⟩
  | string (P : Texts → Parser) (hP : ParserT P) (ps : List Piece) : ScanT fun t => ⟨P t, .string (textOf t ps)⟩
  | escape (P : Texts → Parser) (hP : ParserT P) (ps : List Piece) : ScanT fun t => ⟨P t, .escape (textOf t ps)⟩
  | unicode (P : Texts → Parser) (hP : ParserT P) (ps : List Piece) (left value : ℕ) :
      ScanT fun t => ⟨P t, .unicode (textOf t ps) left value⟩
  | number (P : Texts → Parser) (hP : ParserT P) (stage : Stage) (n : Numeral) : ScanT fun t => ⟨P t, .number stage n⟩
  | word (P : Texts → Parser) (hP : ParserT P) (rest : JsString) (k : Token) (hk : NoString k) :
      ScanT fun t => ⟨P t, .word rest k⟩

/-- What succeeds for one choice of texts succeeds for all of them, in one shape. -/
def Follows {α : Type} (A : Texts → Option α) (Good : (Texts → α) → Prop) : Prop :=
  ∀ t₀ q, A t₀ = some q → ∃ Q, Good Q ∧ ∀ t, A t = some (Q t)

section Follows

variable {α β : Type} {A B : Texts → Option α} {Good : (Texts → α) → Prop} {Fine : (Texts → β) → Prop}

theorem Follows.some {Q : Texts → α} (h : Good Q) : Follows (fun t => some (Q t)) Good :=
  fun _ _ _ => ⟨Q, h, fun _ => rfl⟩

theorem Follows.none : Follows (fun _ => none) Good := by
  rintro t₀ q h
  cases h

theorem Follows.ite {c : Prop} [Decidable c] (hA : c → Follows A Good) (hB : ¬c → Follows B Good) :
    Follows (fun t => if c then A t else B t) Good := by
  by_cases hc : c
  · simpa only [if_pos hc] using hA hc
  · simpa only [if_neg hc] using hB hc

theorem Follows.bind {f : Texts → α → Option β} (hA : Follows A Good)
    (hf : ∀ Q, Good Q → Follows (fun t => f t (Q t)) Fine) : Follows (fun t => (A t).bind (f t)) Fine := by
  rintro t₀ q h
  obtain ⟨a, ha, hq⟩ := Option.bind_eq_some_iff.mp h
  obtain ⟨Q, hQ, hall⟩ := hA t₀ a ha
  have hQ₀ : Q t₀ = a := Option.some.inj ((hall t₀).symm.trans ha)
  have hq' : f t₀ (Q t₀) = Option.some q := by
    rw [hQ₀]
    exact hq
  obtain ⟨R, hR, hfine⟩ := hf Q hQ t₀ q hq'
  refine ⟨R, hR, fun t => ?_⟩
  change (A t).bind (f t) = _
  rw [hall t, Option.bind_some]
  exact hfine t

end Follows

section Parsing

variable {P : Texts → Parser} {T : Texts → Token} {Fs : List (Texts → Frame)}

theorem start_follows (hFs : ∀ F ∈ Fs, FrameT F) (hT : TokenT T) :
    Follows (fun t => Parser.start (Fs.map fun F => F t) (T t)) ParserT := by
  rcases hT with ⟨k, hk⟩ | ⟨ps⟩
  · cases k with
    | beginObject => exact .some (.firstKey Fs hFs)
    | beginArray => exact .some (.element Fs hFs)
    | null => exact .some (.after Fs hFs _ .null)
    | bool b => exact .some (.after Fs hFs _ (.bool b))
    | number n => exact .some (.after Fs hFs _ (.number n))
    | string s => exact absurd rfl (hk s)
    | _ => exact .none
  · exact .some (.after Fs hFs _ (.string ps))

theorem feed_follows (hP : ParserT P) (hT : TokenT T) : Follows (fun t => (P t).feed (T t)) ParserT := by
  cases hP with
  | value Fs hFs => exact start_follows hFs hT
  | element Fs hFs =>
    have harray : ∀ F ∈ (fun _ => .array []) :: Fs, FrameT F :=
      List.forall_mem_cons.mpr ⟨.array [] fun V hV => absurd hV List.not_mem_nil, hFs⟩
    have hstart := start_follows harray hT
    rcases hT with ⟨k, hk⟩ | ⟨ps⟩
    · cases k with
      | endArray => exact .some (.after Fs hFs _ (.array [] fun V hV => absurd hV List.not_mem_nil))
      | _ => exact hstart
    · exact hstart
  | firstKey Fs hFs =>
    rcases hT with ⟨k, hk⟩ | ⟨ps⟩
    · cases k with
      | endObject => exact .some (.after Fs hFs _ (.object [] fun M hM => absurd hM List.not_mem_nil))
      | string s => exact absurd rfl (hk s)
      | _ => exact .none
    · exact .some (.colon Fs hFs [] (fun M hM => absurd hM List.not_mem_nil) ps)
  | key Fs hFs Ms hMs =>
    rcases hT with ⟨k, hk⟩ | ⟨ps⟩
    · cases k with
      | string s => exact absurd rfl (hk s)
      | _ => exact .none
    · exact .some (.colon Fs hFs Ms hMs ps)
  | colon Fs hFs Ms hMs key =>
    have hmember : FrameT fun t => .member (Ms.map fun M => (textOf t M.1, M.2 t)) (textOf t key) :=
      .member Ms hMs key
    rcases hT with ⟨k, hk⟩ | ⟨ps⟩
    · cases k with
      | colon => exact Follows.some (ParserT.value _ (List.forall_mem_cons.mpr ⟨hmember, hFs⟩))
      | _ => exact .none
    · exact .none
  | after Fs hFs V hV =>
    rcases Fs with - | ⟨F, Fs⟩
    · rcases hT with ⟨k, hk⟩ | ⟨ps⟩ <;> exact .none
    obtain ⟨hF, hFs'⟩ := List.forall_mem_cons.mp hFs
    rcases hF with ⟨Vs, hVs⟩ | ⟨Ms, hMs, key⟩
    · have hmore : ∀ W ∈ Vs ++ [V], Templated W :=
        List.forall_mem_append.mpr ⟨hVs, List.forall_mem_singleton.mpr hV⟩
      rcases hT with ⟨k, hk⟩ | ⟨ps⟩
      · cases k with
        | comma =>
          have hall := Follows.some (ParserT.value _ (List.forall_mem_cons.mpr ⟨.array _ hmore, hFs'⟩))
          simp only [List.map_append, List.map_cons, List.map_nil] at hall
          exact hall
        | endArray =>
          have hall := Follows.some (ParserT.after Fs hFs' _ (.array _ hmore))
          simp only [List.map_append, List.map_cons, List.map_nil] at hall
          exact hall
        | _ => exact .none
      · exact .none
    · have hmore : ∀ M ∈ Ms ++ [(key, V)], Templated M.2 :=
        List.forall_mem_append.mpr ⟨hMs, List.forall_mem_singleton.mpr hV⟩
      rcases hT with ⟨k, hk⟩ | ⟨ps⟩
      · cases k with
        | comma =>
          have hall := Follows.some (ParserT.key Fs hFs' _ hmore)
          simp only [List.map_append, List.map_cons, List.map_nil] at hall
          exact hall
        | endObject =>
          have hall := Follows.some (ParserT.after Fs hFs' _ (.object _ hmore))
          simp only [List.map_append, List.map_cons, List.map_nil] at hall
          exact hall
        | _ => exact .none
      · exact .none

end Parsing

/-! ### The scanner -/

section Scanning

variable {P : Texts → Parser} {T : Texts → Token} {S : Texts → Scan}

theorem emit_follows (hP : ParserT P) (hT : TokenT T) : Follows (fun t => emit (P t) (T t)) ScanT := by
  rintro t₀ q h
  obtain ⟨p, hp, rfl⟩ := Option.map_eq_some_iff.mp h
  obtain ⟨Q, hQ, hall⟩ := feed_follows hP hT t₀ p hp
  refine ⟨_, .between Q hQ, fun t => ?_⟩
  change ((P t).feed (T t)).map _ = _
  rw [show (P t).feed (T t) = some (Q t) from hall t]
  rfl

theorem punctuator_noString {c : UInt16} {k : Token} (h : punctuator c = some k) : NoString k := by
  rintro s rfl
  unfold punctuator at h
  split_ifs at h <;> cases h

theorem enter_follows (hP : ParserT P) (c : UInt16) : Follows (fun t => enter (P t) c) ScanT := by
  have hword : ∀ (rest : JsString) (k : Token), NoString k →
      Follows (fun t => some (⟨P t, .word rest k⟩ : Scan)) ScanT := fun rest k hk => .some (.word P hP rest k hk)
  have hnumber : ∀ (stage : Stage) (n : Numeral), Follows (fun t => some (⟨P t, .number stage n⟩ : Scan)) ScanT :=
    fun stage n => .some (.number P hP stage n)
  unfold enter
  refine .ite (fun _ => .some (.between P hP)) fun _ => .ite (fun _ => .some (.string P hP [])) fun _ =>
    .ite (fun _ => hnumber _ _) fun _ => .ite (fun _ => hnumber _ _) fun _ => .ite (fun _ => hnumber _ _) fun _ =>
    .ite (fun _ => hword _ _ ?_) fun _ => .ite (fun _ => hword _ _ ?_) fun _ => .ite (fun _ => hword _ _ ?_) fun _ => ?_
  · rintro s h
    cases h
  · rintro s h
    cases h
  · rintro s h
    cases h
  · rcases hk : punctuator c with - | k
    · exact .none
    · exact emit_follows hP (.plain k (punctuator_noString hk))

theorem textOf_concat (t : Texts) (ps : List Piece) (x : Piece) : textOf t (ps ++ [x]) = textOf t ps ++ x.text t := by
  rw [textOf, textOf, List.flatMap_append, List.flatMap_singleton]

theorem step_follows (hS : ScanT S) (c : UInt16) : Follows (fun t => (S t).step c) ScanT := by
  have hmore : ∀ (P : Texts → Parser) (ps : List Piece) (d : UInt16), ParserT P →
      Follows (fun t => some (⟨P t, .string (textOf t ps ++ [d])⟩ : Scan)) ScanT := by
    intro P ps d hP
    have hall := Follows.some (ScanT.string P hP (ps ++ [.unit d]))
    simp only [textOf_concat] at hall
    exact hall
  cases hS with
  | between P hP => exact enter_follows hP c
  | string P hP ps =>
    simp only [Scan.step]
    exact .ite (fun _ => emit_follows hP (.string ps)) fun _ => .ite (fun _ => .some (.escape P hP ps)) fun _ =>
      .ite (fun _ => .none) fun _ => hmore P ps c hP
  | escape P hP ps =>
    simp only [Scan.step]
    refine .ite (fun _ => .some (.unicode P hP ps 4 0)) fun _ => ?_
    rcases unescape c with - | d
    · exact .none
    · exact hmore P ps d hP
  | unicode P hP ps left value =>
    simp only [Scan.step]
    rcases hexValue c with - | d
    · exact .none
    · by_cases hleft : left ≤ 1
      · simp only [Option.map_some, if_pos hleft]
        exact hmore P ps _ hP
      · simp only [Option.map_some, if_neg hleft]
        exact .some (.unicode P hP ps (left - 1) (16 * value + d))
  | number P hP stage n =>
    simp only [Scan.step]
    rcases stage.next n c with - | ⟨stage', n'⟩
    · change Follows (fun t => if stage.final = true then ((P t).feed (.number n)).bind (enter · c) else none) ScanT
      exact .ite (fun _ => .bind (feed_follows hP (.plain (.number n) (by rintro s h; cases h)))
        fun Q hQ => enter_follows hQ c) fun _ => .none
    · exact .some (.number P hP stage' n')
  | word P hP rest k hk =>
    rcases rest with - | ⟨d, - | ⟨e, rest⟩⟩
    · exact .none
    · change Follows (fun t => if c = d then emit (P t) k else none) ScanT
      exact .ite (fun _ => emit_follows hP (.plain k hk)) fun _ => .none
    · change Follows (fun t => if c = d then some ⟨P t, .word (e :: rest) k⟩ else none) ScanT
      exact .ite (fun _ => .some (.word P hP (e :: rest) k hk)) fun _ => .none

/-- A hole takes any text. -/
theorem hole_follows {key : JsString} (hS : ScanT S) {t₀ : Texts} (hmode : Mode.isString (S t₀).mode = true) :
    ∃ Q, ScanT Q ∧ ∀ t, (S t).run (escape (t key)) = some (Q t) := by
  cases hS with
  | string P hP ps =>
    refine ⟨_, .string P hP (ps ++ [.hole key]), fun t => ?_⟩
    rw [scan_escape, textOf_concat]
    rfl
  | between | escape | unicode | number | word => cases hmode

/-- The scanner goes through a template and through what is made of it in step. -/
theorem run_follows {ps : List Piece} (hnames : ∀ key, .hole key ∈ ps → escape (placeholder key) = placeholder key) :
    ∀ {S : Texts → Scan}, ScanT S → quotedFrom (S placeholder) ps = true →
      ∀ q, (S placeholder).run (textOf placeholder ps) = some q →
        ∃ Q, ScanT Q ∧ ∀ t, (S t).run (encoded t ps) = some (Q t) := by
  induction ps with
  | nil => exact fun hS _ q _ => ⟨_, hS, fun t => rfl⟩
  | cons x ps ih =>
    have ih := @ih fun key hkey => hnames key (List.mem_cons_of_mem x hkey)
    intro S hS hquoted q hrun
    have hsplit : ∀ u : Texts, textOf u (x :: ps) = x.text u ++ textOf u ps := fun _ => List.flatMap_cons
    rw [hsplit, scan_append] at hrun
    obtain ⟨s', hs', hrun⟩ := Option.bind_eq_some_iff.mp hrun
    rcases x with c | key
    · have hstep : (S placeholder).step c = some s' := by
        rw [Piece.text, scan_cons] at hs'
        simpa [scan_nil] using hs'
      obtain ⟨Q, hQ, hall⟩ := step_follows hS c placeholder s' hstep
      have hsame : Q placeholder = s' := Option.some.inj ((hall placeholder).symm.trans hstep)
      subst hsame
      rw [quotedFrom, hstep] at hquoted
      obtain ⟨R, hR, hfine⟩ := ih hQ hquoted q hrun
      refine ⟨R, hR, fun t => ?_⟩
      rw [encoded, hsplit, scan_append, Piece.text, scan_cons, show (S t).step c = some (Q t) from hall t]
      exact hfine t
    · rw [quotedFrom, Bool.and_eq_true] at hquoted
      obtain ⟨hstring, hquoted⟩ := hquoted
      obtain ⟨Q, hQ, hall⟩ : ∃ Q, ScanT Q ∧ ∀ t, (S t).run (escape (t key)) = some (Q t) := hole_follows hS hstring
      have hhere : (S placeholder).run (placeholder key) = some (Q placeholder) := by
        rw [← hnames key List.mem_cons_self]
        exact hall placeholder
      have hsame : Q placeholder = s' := Option.some.inj (hhere.symm.trans hs')
      subst hsame
      rw [hhere] at hquoted
      obtain ⟨R, hR, hfine⟩ := ih hQ hquoted q hrun
      refine ⟨R, hR, fun t => ?_⟩
      rw [encoded, hsplit, scan_append]
      change ((S t).run (escape (t key))).bind _ = _
      rw [hall t]
      exact hfine t

/-- The value, once the text is over. -/
def outcome : Parser → Option Value
  | .after [] v => some v
  | _ => none

theorem outcome_follows (hP : ParserT P) : Follows (fun t => outcome (P t)) Templated := by
  cases hP with
  | after Fs hFs V hV =>
    rcases Fs with - | ⟨F, Fs⟩
    · exact .some hV
    · exact .none
  | value | element | firstKey | key | colon => exact .none

theorem finish_between (p : Parser) : Scan.finish ⟨p, .between⟩ = outcome p := by
  rcases p with _ | _ | _ | _ | _ | ⟨_ | _, _⟩ <;> rfl

theorem finish_number (p : Parser) (stage : Stage) (n : Numeral) : Scan.finish ⟨p, .number stage n⟩ =
    if stage.final = true then (p.feed (.number n)).bind outcome else none := by
  by_cases hfinal : stage.final = true
  · rcases hfeed : p.feed (.number n) with - | q
    · simp only [Scan.finish, if_pos hfinal, hfeed, Option.bind_none]
    · simp only [Scan.finish, if_pos hfinal, hfeed, Option.bind_some]
      rcases q with _ | _ | _ | _ | _ | ⟨_ | _, _⟩ <;> rfl
  · simp only [Scan.finish, if_neg hfinal]

theorem finish_follows (hS : ScanT S) : Follows (fun t => (S t).finish) Templated := by
  cases hS with
  | between P hP =>
    simp only [finish_between]
    exact outcome_follows hP
  | number P hP stage n =>
    simp only [finish_number]
    exact .ite (fun _ => .bind (feed_follows hP (.plain (.number n) (by rintro s h; cases h)))
      fun Q hQ => outcome_follows hQ) fun _ => .none
  | string | escape | unicode | word => exact .none

end Scanning

/-! ### Bodies -/

section Bodies

variable {template : JsString} {mail : WebhookMail}

theorem escape_placeholder : ∀ key ∈ fieldNames, escape (placeholder key) = placeholder key := by decide

theorem hole_named {key : JsString} (h : .hole key ∈ pieces template mail) : key ∈ fieldNames := by
  obtain ⟨e, he, rfl⟩ := List.mem_map.mp (hole_key _ _ h)
  exact mail.named e he

/-- A template that is JSON with its placeholders in strings is decoded to one value with holes in its strings. -/
theorem decoded {v : Value} (hparse : Json.parse template = some v)
    (hquoted : Quoted template mail) :
    ∃ V, Templated V ∧ V placeholder = v ∧ ∀ t, Json.parse (encoded t (pieces template mail)) = some (V t) := by
  have hnames : ∀ key, .hole key ∈ pieces template mail → escape (placeholder key) = placeholder key :=
    fun key hkey => escape_placeholder key (hole_named hkey)
  have htemplate : textOf placeholder (pieces template mail) = template := textOf_pieces _ 0 template
  obtain ⟨s, hrun, hfinish⟩ := Option.bind_eq_some_iff.mp hparse
  have hstart : ScanT fun _ => ⟨.value [], .between⟩ := .between _ (.value [] fun F hF => absurd hF List.not_mem_nil)
  obtain ⟨Q, hQ, hall⟩ := run_follows hnames hstart hquoted s (by rw [htemplate]; exact hrun)
  have hsame : Q placeholder = s := by
    have hencoded : encoded placeholder (pieces template mail) = template :=
      (textOf_congr hnames).trans htemplate
    have hhere := hall placeholder
    rw [hencoded, hrun] at hhere
    exact (Option.some.inj hhere).symm
  have hend : (Q placeholder).finish = some v := by rw [hsame, hfinish]
  obtain ⟨V, hV, hvalue⟩ := finish_follows hQ placeholder v hend
  refine ⟨V, hV, ?_, fun t => ?_⟩
  · have hhere : (Q placeholder).finish = some (V placeholder) := hvalue placeholder
    rw [hsame, hfinish] at hhere
    exact (Option.some.inj hhere).symm
  · rw [Json.parse, hall t, Option.bind_some]
    exact hvalue t

/-- Under the condition the body is the template with every placeholder replaced at once. If the template is JSON
    with its placeholders in strings, so is the body, and it is decoded to the template's value with the fields in
    the strings. -/
theorem webhookBody_faithful (h : Faithful template mail) :
    webhookBody template mail = filled template mail ∧
    ∀ v, Json.parse template = some v → Quoted template mail →
      ∃ V, Templated V ∧ V placeholder = v ∧ (∀ t, Json.parse (encoded t (pieces template mail)) = some (V t)) ∧
        Json.parse (webhookBody template mail) = some (V (valueOf mail.entries)) := by
  refine ⟨webhookBody_eq h, fun v hparse hquoted => ?_⟩
  obtain ⟨V, hV, hv, hall⟩ := decoded hparse hquoted
  refine ⟨V, hV, hv, hall, ?_⟩
  rw [webhookBody_eq h]
  exact hall _

/-- A mail that has a sender only. -/
def sent (value : JsString) : WebhookMail := ⟨[(js "from", value)], by simp [fieldNames], List.nodup_singleton _⟩

/-- The sender's name is the placeholder of the recipient. -/
def nested : WebhookMail :=
  ⟨[(js "from", placeholder (js "to")), (js "to", js "x")], by decide, by decide⟩

/-- A replacement pattern, a line separator and another field's placeholder are not put in as they are. -/
theorem template_fails : webhookBody (placeholder (js "from")) (sent (js "$&")) ≠
      filled (placeholder (js "from")) (sent (js "$&")) ∧
    webhookBody (placeholder (js "from")) (sent [0x2028]) ≠ filled (placeholder (js "from")) (sent [0x2028]) ∧
    webhookBody (placeholder (js "from")) nested ≠ filled (placeholder (js "from")) nested := by
  refine ⟨by decide, by decide, by decide⟩

/-- `["${from}"]` -/
def demoTemplate : JsString := js "[\"" ++ placeholder (js "from") ++ js "\"]"

theorem template_demo : webhookBody demoTemplate (sent (js "\"A\" $5")) = filled demoTemplate (sent (js "\"A\" $5")) ∧
    ∃ V, Templated V ∧ V placeholder = .array [.string (placeholder (js "from"))] ∧
      (∀ t, Json.parse (encoded t (pieces demoTemplate (sent (js "\"A\" $5")))) = some (V t)) ∧
      Json.parse (webhookBody demoTemplate (sent (js "\"A\" $5"))) =
        some (V (valueOf (sent (js "\"A\" $5")).entries)) :=
  have h : Faithful demoTemplate (sent (js "\"A\" $5")) := by decide
  ⟨(webhookBody_faithful h).1, (webhookBody_faithful h).2 _ rfl (by decide)⟩

end Bodies

end OneMail.Templating
