import OneMail.Js.Host
import OneMail.Lib.Membership
import OneMail.Lib.Stream

/-! Which URLs a webhook may be sent to.

    `isSafeWebhookUrl` looks at the host as the URL parser has serialised it, without a port and once with
    it. The regular expressions are written as the readers they amount to: `\d{1,3}` before a dot takes
    the whole run of digits or fails, since a shorter match leaves a digit where the dot has to be. -/

namespace OneMail.Webhook
open Whatwg

/-- What `new URL` returns, as far as the guard reads it. The port is absent where it is the default one. -/
structure Url where
  protocol : Text
  hostKind : Host
  port : Option ℕ

def Url.hostname (u : Url) : Text := u.hostKind.serialise

def portSuffix (port : Option ℕ) : Text :=
  match port with
  | none => []
  | some n => ':' :: Whatwg.decimal n

/-- `u.host` -/
def Url.host (u : Url) : Text := u.hostname ++ portSuffix u.port

/-! ### The guard -/

/-- `(\d{1,3})`, and what follows it. -/
def octet (s : Text) : Option (ℕ × Text) :=
  let digits := (s.take 3).takeWhile Char.isDigit
  if digits = [] then none else some (readNat 10 digits, s.drop digits.length)

def dot : Text → Option Text
  | '.' :: s => some s
  | _ => none

structure Quad where
  (a b c d : ℕ)

/-- `(\d{1,3})\.(\d{1,3})\.(\d{1,3})\.(\d{1,3})` at the beginning of a text. -/
def quadAt (s : Text) : Option (Quad × Text) := do
  let (a, s) ← octet s
  let s ← dot s
  let (b, s) ← octet s
  let s ← dot s
  let (c, s) ← octet s
  let s ← dot s
  let (d, s) ← octet s
  return (⟨a, b, c, d⟩, s)

/-- The leftmost match. -/
def firstQuad : Text → Option Quad
  | [] => none
  | c :: s => match quadAt (c :: s) with
    | some (q, _) => some q
    | none => firstQuad s

def isPrivateRange (a b : ℕ) : Bool :=
  a = 0 || a = 10 || a = 127 || (a = 169 && b = 254) || (a = 172 && 16 ≤ b && b ≤ 31) || (a = 192 && b = 168)

def isPrivateIpv4 (host : Text) : Bool :=
  match quadAt host with
  | some (q, []) =>
    if 255 < q.a ∨ 255 < q.b ∨ 255 < q.c ∨ 255 < q.d then false else isPrivateRange q.a q.b
  | _ =>
    if host ≠ [] ∧ host.all Char.isDigit then
      let n := readNat 10 host
      if 4294967295 < n then false else isPrivateRange ((n >>> 24) &&& 0xff) ((n >>> 16) &&& 0xff)
    else false

/-- `host.replace(/^\[|\]$/g, "")` -/
def unbracket (host : Text) : Text :=
  let h := if host.head? = some '[' then host.tail else host
  if h.getLast? = some ']' then h.dropLast else h

def isPrivateIpv6 (host : Text) : Bool :=
  let h := (unbracket host).map Char.toLower
  h = "::1".toList || h = "::".toList || "fc".toList.isPrefixOf h || "fd".toList.isPrefixOf h ||
    "fe80:".toList.isPrefixOf h || "fe90:".toList.isPrefixOf h || "fea0:".toList.isPrefixOf h ||
    "feb0:".toList.isPrefixOf h

/-- `[0-9a-f]{1,4}` -/
def isGroup (s : Text) : Bool := s ≠ [] && s.length ≤ 4 && s.all isHexDigit

/-- `^start([0-9a-f]{1,4}):([0-9a-f]{1,4})$` -/
def twoGroups (start host : Text) : Option (ℕ × ℕ) :=
  if start.isPrefixOf host then
    let rest := host.drop start.length
    match rest.dropWhile (· ≠ ':') with
    | [] => none
    | _ :: y =>
      let x := rest.takeWhile (· ≠ ':')
      if isGroup x ∧ isGroup y then some (readNat 16 x, readNat 16 y) else none
  else none

/-- `mappedMatch || compatMatch` -/
def ipv6Embedded (ipv6Host : Text) : Option (ℕ × ℕ) :=
  (twoGroups "::ffff:".toList ipv6Host).or (twoGroups "::".toList ipv6Host)

def mappedIpv4 (x y : ℕ) : Text :=
  Whatwg.decimal (x >>> 8) ++ '.' :: (Whatwg.decimal (x &&& 0xff) ++ '.' ::
    (Whatwg.decimal (y >>> 8) ++ '.' :: Whatwg.decimal (y &&& 0xff)))

/-- `/0x[0-9a-f]+/i.test(host)` -/
def hasHexNumber : Text → Bool
  | [] => false
  | c :: s =>
    (c = '0' && match s with
      | x :: d :: _ => (x = 'x' || x = 'X') && isHexDigit d.toLower
      | _ => false) || hasHexNumber s

/-- `.replace(/\.$/, "")` -/
def stripDot (host : Text) : Text := if host.getLast? = some '.' then host.dropLast else host

def isSafeWebhookUrl {Raw : Type} (parse : Raw → Option Url) (urlStr : Raw) : Bool :=
  match parse urlStr with
  | none => false
  | some u =>
    if u.protocol ≠ "http:".toList ∧ u.protocol ≠ "https:".toList then false
    else
      let host := stripDot (u.hostname.map Char.toLower)
      if host = "localhost".toList then false
      else if ".local".toList.isSuffixOf host then false
      else if ".localhost".toList.isSuffixOf host then false
      else if isPrivateIpv4 host then false
      else if isPrivateIpv6 u.host then false
      else if (ipv6Embedded (unbracket host)).any fun e => isPrivateIpv4 (mappedIpv4 e.1 e.2) then false
      else if hasHexNumber host then false
      else match firstQuad host with
        | some q => !isPrivateRange q.a q.b
        | none => true

/-! ### What the guard is for -/

/-- The private IPv4 networks, by their first address and the length of their prefix. -/
def privateNetworks : List (ℕ × ℕ) :=
  [(0, 8), (10 * 2 ^ 24, 8), (127 * 2 ^ 24, 8), (169 * 2 ^ 24 + 254 * 2 ^ 16, 16), (172 * 2 ^ 24 + 16 * 2 ^ 16, 12),
    (192 * 2 ^ 24 + 168 * 2 ^ 16, 16)]

def PrivateV4 (value : ℕ) : Prop := ∃ net ∈ privateNetworks, value / 2 ^ (32 - net.2) = net.1 / 2 ^ (32 - net.2)

/-- `::`, `::1`, fc00::/7, fe80::/10, or a private IPv4 address in its mapped or its compatible form. -/
def PrivateV6 (value : ℕ) : Prop :=
  value = 0 ∨ value = 1 ∨ value / 2 ^ 121 = 0xfc00 * 2 ^ 112 / 2 ^ 121 ∨ value / 2 ^ 118 = 0xfe80 * 2 ^ 112 / 2 ^ 118 ∨
    ((value / 2 ^ 32 = 0xffff ∨ value / 2 ^ 32 = 0) ∧ PrivateV4 (value % 2 ^ 32))

/-- `localhost`, a `.local` or a `.localhost` name, with or without the dot of the root. -/
def LocalName (name : Text) : Prop :=
  stripDot name = "localhost".toList ∨ ".local".toList <:+ stripDot name ∨ ".localhost".toList <:+ stripDot name

def Forbidden : Host → Prop
  | .domain d => LocalName d.name
  | .ipv4 x => PrivateV4 x.value
  | .ipv6 x => PrivateV6 x.value

/-- One to three digits. -/
def IsOctet (s : Text) : Prop := s ≠ [] ∧ s.length ≤ 3 ∧ ∀ c ∈ s, c.isDigit = true

/-- Four groups of one to three digits with dots between them. -/
def DottedQuad (s : Text) : Prop :=
  ∃ a b c d, IsOctet a ∧ IsOctet b ∧ IsOctet c ∧ IsOctet d ∧ s = a ++ '.' :: (b ++ '.' :: (c ++ '.' :: d))

/-- A name that is not local, has no dotted quad in it and no `0x`. -/
structure Ordinary (name : Text) : Prop where
  not_local : ¬LocalName name
  no_quad : ∀ s, s <:+: name → ¬DottedQuad s
  no_hex : ¬"0x".toList <:+: name

/-- What is asked of the guard's answer. -/
structure Guards (safe : Bool) (u : Url) : Prop where
  sound : safe = true → ¬Forbidden u.hostKind
  precise : ∀ d, u.hostKind = .domain d → Ordinary d.name → safe = true

/-- The first pieces of fe80::/10 that the guard knows. -/
def knownLinkLocal : List ℕ := [0xfe80, 0xfe90, 0xfea0, 0xfeb0]

/-- Hosts that the guard gets right: no ordinary name that looks like an IPv6 address, no link-local address
    with another first piece, `::` and `::1` without a port, and no compatible form of 0.0.0.0/16 beyond. -/
def Recognised (u : Url) : Prop :=
  match u.hostKind with
  | .domain d => Ordinary d.name → ¬("fc".toList <+: d.name ∨ "fd".toList <+: d.name ∨
      (d.name ∈ ["fe80".toList, "fe90".toList, "fea0".toList, "feb0".toList] ∧ u.port ≠ none))
  | .ipv4 _ => True
  | .ipv6 x => (0xfe80 ≤ x.p0.val ∧ x.p0.val ≤ 0xfebf → x.p0.val ∈ knownLinkLocal) ∧
      (x.pieces.take 7 = List.replicate 7 0 → x.p7.val ≤ 1 ∧ u.port = none)

/-! ### The readers -/

section Readers

variable {s rest name : Text} {q : Quad}

theorem octet_some {n : ℕ} (h : octet s = some (n, rest)) : ∃ a, IsOctet a ∧ s = a ++ rest := by
  rw [octet] at h
  split at h
  · cases h
  · rename_i hne
    obtain ⟨-, rfl⟩ := Prod.mk.inj (Option.some.inj h)
    have hpre : (s.take 3).takeWhile Char.isDigit <+: s :=
      (List.takeWhile_prefix Char.isDigit).trans (List.take_prefix 3 s)
    refine ⟨_, ⟨hne, ?_, fun c hc => List.mem_takeWhile_imp hc⟩, ?_⟩
    · exact ((List.takeWhile_prefix Char.isDigit).length_le).trans (List.length_take_le 3 s)
    · exact (List.prefix_iff_eq_append.mp hpre).symm

theorem dot_some (h : dot s = some rest) : s = '.' :: rest := by
  unfold dot at h
  split at h
  · rw [Option.some.inj h]
  · cases h

theorem quadAt_some (h : quadAt s = some (q, rest)) : ∃ w, DottedQuad w ∧ s = w ++ rest := by
  simp only [quadAt, Option.bind_eq_bind, Option.bind_eq_some_iff, Prod.exists] at h
  obtain ⟨a, s₁, ha, s₂, h₂, b, s₃, hb, s₄, h₄, c, s₅, hc, s₆, h₆, d, s₇, hd, heq⟩ := h
  obtain ⟨-, rfl⟩ := Prod.mk.inj (Option.some.inj heq)
  obtain ⟨wa, hwa, rfl⟩ := octet_some ha
  obtain ⟨wb, hwb, rfl⟩ := octet_some hb
  obtain ⟨wc, hwc, rfl⟩ := octet_some hc
  obtain ⟨wd, hwd, rfl⟩ := octet_some hd
  rw [dot_some h₂, dot_some h₄, dot_some h₆]
  exact ⟨_, ⟨wa, wb, wc, wd, hwa, hwb, hwc, hwd, rfl⟩, by simp only [List.append_assoc, List.cons_append]⟩

theorem firstQuad_some (h : firstQuad s = some q) : ∃ w, w <:+: s ∧ DottedQuad w := by
  induction s with
  | nil => cases h
  | cons c s ih =>
    rw [firstQuad] at h
    split at h
    · rename_i hquad
      obtain ⟨w, hw, heq⟩ := quadAt_some hquad
      exact ⟨w, heq ▸ (List.prefix_append w _).isInfix, hw⟩
    · obtain ⟨w, hwithin, hw⟩ := ih h
      exact ⟨w, hwithin.trans (List.suffix_cons c s).isInfix, hw⟩

theorem octet_append {a : Text} (ha : IsOctet a) (hrest : ∀ c ∈ rest.head?, c.isDigit = false) :
    octet (a ++ rest) = some (readNat 10 a, rest) := by
  have hdigits : ((a ++ rest).take 3).takeWhile Char.isDigit = a := by
    rw [List.take_append, List.take_of_length_le ha.2.1, List.takeWhile_append_of_pos ha.2.2]
    have hnone : (rest.take (3 - a.length)).takeWhile Char.isDigit = [] := by
      rcases rest with - | ⟨c, rest⟩
      · rw [List.take_nil]; rfl
      · rcases 3 - a.length with - | k
        · rfl
        · rw [List.take_succ_cons, List.takeWhile_cons_of_neg (by simp [hrest c rfl])]
    rw [hnone, List.append_nil]
  rw [octet, hdigits, if_neg ha.1, List.drop_left]

theorem isOctet_decimal {n : ℕ} (h : n < 256) : IsOctet (Whatwg.decimal n) :=
  ⟨Nat.toDigits_ne_nil, (Nat.length_toDigits_le_iff (by decide) (by decide)).mpr (by omega),
    fun _ hc => Nat.isDigit_of_mem_toDigits (by decide) (by decide) hc⟩

theorem octet_decimal {n : ℕ} (h : n < 256) (hrest : ∀ c ∈ rest.head?, c.isDigit = false) :
    octet (Whatwg.decimal n ++ rest) = some (n, rest) := by
  rw [octet_append (isOctet_decimal h) hrest, Whatwg.decimal, readNat_toDigits (by decide) (by decide)]

variable {a b c d : ℕ} (ha : a < 256) (hb : b < 256) (hc : c < 256) (hd : d < 256)
include ha hb hc hd

theorem quadAt_decimal : quadAt (Whatwg.decimal a ++ '.' :: (Whatwg.decimal b ++ '.' ::
    (Whatwg.decimal c ++ '.' :: Whatwg.decimal d))) =
    some (⟨a, b, c, d⟩, []) := by
  have hdot : ∀ t : Text, ∀ e ∈ ('.' :: t).head?, e.isDigit = false := by
    rintro t e he
    rw [Option.mem_def.mp he |> Option.some.inj |>.symm]
    rfl
  have hlast : octet (Whatwg.decimal d) = some (d, []) := by
    have h : octet (Whatwg.decimal d ++ []) = some (d, []) := octet_decimal hd fun _ he => (nomatch he)
    rwa [List.append_nil] at h
  simp only [quadAt, octet_decimal ha (hdot _), octet_decimal hb (hdot _), octet_decimal hc (hdot _), hlast, dot,
    Option.bind_eq_bind, Option.bind_some]
  rfl

theorem isPrivateIpv4_decimal :
    isPrivateIpv4 (Whatwg.decimal a ++ '.' :: (Whatwg.decimal b ++ '.' ::
      (Whatwg.decimal c ++ '.' :: Whatwg.decimal d))) = isPrivateRange a b := by
  rw [isPrivateIpv4, quadAt_decimal ha hb hc hd]
  dsimp only
  rw [if_neg (by omega)]

end Readers

theorem privateV4_iff {a b c d : ℕ} (ha : a < 256) (hb : b < 256) (hc : c < 256) (hd : d < 256) :
    PrivateV4 (((a * 256 + b) * 256 + c) * 256 + d) ↔ isPrivateRange a b = true := by
  simp only [PrivateV4, privateNetworks, List.mem_cons, List.not_mem_nil, or_false, exists_eq_or_imp, exists_eq_left,
    isPrivateRange, Bool.or_eq_true, Bool.and_eq_true, decide_eq_true_eq]
  omega

section Guard

variable {Raw : Type} {parse : Raw → Option Url} {urlStr : Raw} {u : Url} {d : Domain}

/-- The host that the guard's tests look at. -/
def Url.tested (u : Url) : Text := stripDot (u.hostname.map Char.toLower)

/-- Each test of the guard on its own. -/
theorem safe_iff (hparse : parse urlStr = some u) (hweb : u.protocol = "http:".toList ∨ u.protocol = "https:".toList) :
    isSafeWebhookUrl parse urlStr = true ↔
      (u.tested ≠ "localhost".toList ∧ ¬".local".toList <:+ u.tested ∧ ¬".localhost".toList <:+ u.tested) ∧
      isPrivateIpv4 u.tested = false ∧ isPrivateIpv6 u.host = false ∧
      (∀ e, ipv6Embedded (unbracket u.tested) = some e → isPrivateIpv4 (mappedIpv4 e.1 e.2) = false) ∧
      hasHexNumber u.tested = false ∧ ∀ q, firstQuad u.tested = some q → isPrivateRange q.a q.b = false := by
  have hprotocol : ¬(u.protocol ≠ "http:".toList ∧ u.protocol ≠ "https:".toList) := by
    rintro ⟨h, h'⟩
    exact hweb.elim h h'
  rw [isSafeWebhookUrl, hparse]
  simp only [if_neg hprotocol, Bool.if_false_left, Bool.and_eq_true, Bool.not_eq_true', decide_eq_false_iff_not,
    List.isSuffixOf_iff_suffix, Url.tested, Bool.not_eq_true, Option.any_eq_false]
  have hlast : ∀ o : Option Quad, (match o with
      | some q => !isPrivateRange q.a q.b
      | none => true) = true ↔ ∀ q, o = some q → isPrivateRange q.a q.b = false := by
    rintro (- | q) <;> simp
  rw [hlast, and_assoc, and_assoc]

theorem stripDot_of_last {s : Text} (h : ∃ c, s.getLast? = some c ∧ c ≠ '.') : stripDot s = s := by
  obtain ⟨c, hc, hdot⟩ := h
  rw [stripDot, if_neg (by rw [hc]; exact fun h => hdot (Option.some.inj h))]

theorem stripDot_start (s : Text) : stripDot s <+: s := by
  rw [stripDot]
  split
  · exact List.dropLast_prefix s
  · exact List.prefix_rfl

theorem map_lower {s : Text} (h : ∀ c ∈ s, c.toLower = c) : s.map Char.toLower = s := by
  rw [List.map_congr_left h, List.map_id']

end Guard

end OneMail.Webhook
