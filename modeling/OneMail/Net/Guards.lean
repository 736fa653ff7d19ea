import Mathlib
import OneMail.Lib.Membership

/-! The two network guards of the aggregator.

    `assertPublicMailHost` decides whether an account's mail host is admitted, `guardedConnect` stands in
    front of every connect of a stream socket. Both read a host with `ipaddress.ip_address`; that module
    is a parameter, with its predicates as sets of addresses. -/

namespace OneMail.Net

abbrev Text := List Char

/-- An `IPv4Address` or an `IPv6Address` with its scope. -/
inductive Ip
  | v4 (address : BitVec 32)
  | v6 (address : BitVec 128) (scope : Option Text)
  deriving DecidableEq

inductive Network
  | v4 (base : BitVec 32) (length : ℕ)
  | v6 (base : BitVec 128) (length : ℕ)

/-- `ip in net`, which is false across versions. -/
def Ip.isIn : Ip → Network → Bool
  | .v4 a, .v4 base length => a >>> (32 - length) = base >>> (32 - length)
  | .v6 a _, .v6 base length => a >>> (128 - length) = base >>> (128 - length)
  | _, _ => false

def net4 (a b c d length : ℕ) : Network := .v4 (BitVec.ofNat 32 (((a * 256 + b) * 256 + c) * 256 + d)) length

/-- A network by its first two groups of sixteen bits. -/
def net6 (a b length : ℕ) : Network := .v6 (BitVec.ofNat 128 ((a * 65536 + b) * 2 ^ 96)) length

/-- What is used of the module `ipaddress`. -/
structure IpAddress where
  ipAddress : Text → Option Ip
  str : Ip → Text
  isGlobal : Ip → Bool
  isMulticast : Ip → Bool
  isReserved : Ip → Bool
  isLinkLocal : Ip → Bool
  isLoopback : Ip → Bool
  isUnspecified : Ip → Bool

/-! ### Texts -/

/-- The characters that `str.strip()` removes. -/
def isSpace (c : Char) : Bool :=
  (9 ≤ c.toNat && c.toNat ≤ 13) || (28 ≤ c.toNat && c.toNat ≤ 32) || c.toNat = 0x85 || c.toNat = 0xA0 ||
    c.toNat = 0x1680 || (0x2000 ≤ c.toNat && c.toNat ≤ 0x200A) || c.toNat = 0x2028 || c.toNat = 0x2029 ||
    c.toNat = 0x202F || c.toNat = 0x205F || c.toNat = 0x3000

def stripOf (p : Char → Bool) (s : Text) : Text := (s.dropWhile p).rdropWhile p

def strip (s : Text) : Text := stripOf isSpace s

/-- `.strip("[]")` -/
def stripBrackets (s : Text) : Text := stripOf (fun c => c = '[' || c = ']') s

/-- `.rstrip(".")` -/
def rstripDots (s : Text) : Text := s.rdropWhile (· = '.')

/-- `lower`, of ASCII letters. -/
def lower (s : Text) : Text := s.map Char.toLower

/-! ### Admission -/

/-- `_DOC_NET_V6` and `_TEREDO_IETF_V6` -/
def docNetV6 : Network := net6 0x2001 0xdb8 32

def teredoIetfV6 : Network := net6 0x2001 0 23

/-- `_is_public_ip` -/
def isPublicIp (M : IpAddress) (ip : Ip) : Bool :=
  match ip with
  | .v4 _ => M.isGlobal ip
  | .v6 _ _ =>
    if M.isLoopback ip || M.isUnspecified ip || M.isMulticast ip || M.isReserved ip || M.isLinkLocal ip then false
    else if ip.isIn (net6 0xfc00 0 7) then false
    else if ip.isIn docNetV6 then false
    else M.isGlobal ip || ip.isIn teredoIetfV6

inductive UnsafeMailTarget
  | missing | invalidPort | isLocal | notPublic | unresolved | invalidAddress | nonPublicAnswer
  deriving DecidableEq, Repr

def reservedTestNames : List Text := ["example".toList, "example.com".toList, "test".toList, "invalid".toList]

def reservedTestSuffixes : List Text := [".example".toList, ".example.com".toList, ".test".toList, ".invalid".toList]

def isReservedTestName (host : Text) : Bool :=
  let h := lower (rstripDots host)
  reservedTestNames.contains h || reservedTestSuffixes.any (·.isSuffixOf h)

/-- `_literal_ip` -/
def literalIp (M : IpAddress) (host : Text) : Option Ip := M.ipAddress (rstripDots (stripBrackets (strip host)))

/-- The loop over the answers of the resolver. -/
def checkAnswers (M : IpAddress) : List Text → Except UnsafeMailTarget Unit
  | [] => .ok ()
  | raw :: answers =>
    match M.ipAddress raw with
    | none => .error .invalidAddress
    | some ip => if isPublicIp M ip then checkAnswers M answers else .error .nonPublicAnswer

def assertPublicMailHost (M : IpAddress) (shouldUseProxy : Text → Bool) (resolve : Text → ℕ → List Text) (host : Text)
    (port : ℕ) : Except UnsafeMailTarget Unit :=
  if strip host = [] then .error .missing
  else if ¬(1 ≤ port ∧ port ≤ 65535) then .error .invalidPort
  else
    let normalized := lower (rstripDots (strip host))
    if normalized = "localhost".toList ∨ ".localhost".toList.isSuffixOf normalized ∨
        ".local".toList.isSuffixOf normalized then .error .isLocal
    else match literalIp M normalized with
      | some ip => if isPublicIp M ip then .ok () else .error .notPublic
      | none =>
        if isReservedTestName normalized then .ok ()
        else if shouldUseProxy normalized then .ok ()
        else if resolve normalized port = [] then .error .unresolved
        else checkAnswers M (resolve normalized port)

/-! ### Connecting -/

def denyNets : List Network :=
  [net4 0 0 0 0 8, net4 10 0 0 0 8, net4 100 64 0 0 10, net4 127 0 0 0 8, net4 169 254 0 0 16, net4 172 16 0 0 12,
    net4 192 0 0 0 24, net4 192 168 0 0 16, net4 198 18 0 0 15, net4 224 0 0 0 4, net4 240 0 0 0 4,
    net6 0 0 128, .v6 1 128, net6 0xfc00 0 7, net6 0xfe80 0 10, net6 0xff00 0 8]

/-- `_is_denied` -/
def isDenied (M : IpAddress) (allowedLoopbacks : Ip → ℕ → Bool) (ip : Ip) (port : ℕ) : Bool :=
  if allowedLoopbacks ip port then false
  else if denyNets.any ip.isIn then true
  else if ip.isIn teredoIetfV6 && !ip.isIn docNetV6 then false
  else !M.isGlobal ip

inductive Family
  | inet | inet6
  deriving DecidableEq

/-- What a connect raises: the guard's own error, or that of decoding or resolving the host. -/
inductive Raised
  | egressBlocked | undecodable | unresolved
  deriving DecidableEq

/-- `host.strip("[]").rstrip(".")` -/
def bare (host : Text) : Text := rstripDots (stripBrackets host)

/-- `_validate_sockaddr`, for a family that is guarded. -/
def validateSockaddr (M : IpAddress) (allowedLoopbacks : Ip → ℕ → Bool) (host : Text) (port : ℕ) :
    Except Raised (Option Ip) :=
  match M.ipAddress (bare host) with
  | none => .ok none
  | some ip => if isDenied M allowedLoopbacks ip port then .error .egressBlocked else .ok (some ip)

/-- The loop over the answers, which keeps those that are addresses. -/
def validateAnswers (M : IpAddress) (allowedLoopbacks : Ip → ℕ → Bool) (port : ℕ) :
    List (Family × Text) → Except Raised (List (Family × Text))
  | [] => .ok []
  | (family, host) :: infos =>
    match validateSockaddr M allowedLoopbacks host port with
    | .error e => .error e
    | .ok none => validateAnswers M allowedLoopbacks port infos
    | .ok (some ip) =>
      match validateAnswers M allowedLoopbacks port infos with
      | .error e => .error e
      | .ok validated => .ok ((family, M.str ip) :: validated)

/-- `_resolve_and_validate` -/
def resolveAndValidate (M : IpAddress) (allowedLoopbacks : Ip → ℕ → Bool) (port : ℕ)
    (answer : Option (List (Family × Text))) : Except Raised (List (Family × Text)) :=
  match answer with
  | none => .error .unresolved
  | some infos =>
    if infos = [] then .error .egressBlocked
    else match validateAnswers M allowedLoopbacks port infos with
      | .error e => .error e
      | .ok validated => if validated = [] then .error .egressBlocked else .ok validated

/-- The host of an address tuple. -/
inductive Host
  | str (text : Text)
  | bytes (bytes : List UInt8)
  deriving DecidableEq

inductive Outcome
  | raised (error : Raised)
  | connected (host : Host) (port : ℕ)
  deriving DecidableEq

/-- `_decode_host`, where `host.decode("idna")` is a parameter. -/
def decodeHost (idna : List UInt8 → Option Text) : Host → Option Text
  | .str text => some text
  | .bytes bytes => idna bytes

/-- `(same_family or [resolved[0][1]])[0]` -/
def choose (family : Family) (resolved : List (Family × Text)) : Option Text :=
  match resolved.filter (·.1 = family) with
  | sockaddr :: _ => some sockaddr.2
  | [] => resolved.head?.map Prod.snd

/-- `_guarded_connect` of a stream socket, and the names that it has resolved. The resolver's answer depends
    on how many it has given. -/
def guardedConnect (M : IpAddress) (allowedLoopbacks : Ip → ℕ → Bool) (idna : List UInt8 → Option Text)
    (getaddrinfo : ℕ → Text → ℕ → Option (List (Family × Text))) (family : Family) (host : Host) (port : ℕ) :
    Outcome × List Text :=
  match decodeHost idna host with
  | none => (.raised .undecodable, [])
  | some text =>
    match validateSockaddr M allowedLoopbacks text port with
    | .error e => (.raised e, [])
    | .ok (some _) => (.connected host port, [])
    | .ok none =>
      match resolveAndValidate M allowedLoopbacks port (getaddrinfo 0 text port) with
      | .error e => (.raised e, [text])
      | .ok resolved =>
        match choose family resolved with
        | some sockaddr => (.connected (.str sockaddr) port, [text])
        | none => (.raised .egressBlocked, [text])

/-! ### What is handed to the kernel -/

section Connect

variable {M : IpAddress} {allowed : Ip → ℕ → Bool} {idna : List UInt8 → Option Text}
  {getaddrinfo : ℕ → Text → ℕ → Option (List (Family × Text))} {family : Family} {host : Host} {text : Text} {port : ℕ}
  {infos resolved : List (Family × Text)}

/-- The address that a host is as it stands; bytes are read as the characters they encode. -/
def Host.literal (M : IpAddress) : Host → Option Ip
  | .str text => M.ipAddress text
  | .bytes bs => M.ipAddress (bs.map fun b => Char.ofNat b.toNat)

/-- A literal whose address is not denied. -/
def Numeric (M : IpAddress) (allowed : Ip → ℕ → Bool) (host : Host) (port : ℕ) : Prop :=
  ∃ ip, host.literal M = some ip ∧ isDenied M allowed ip port = false

/-- An answer whose address is denied. -/
def DeniedAnswer (M : IpAddress) (allowed : Ip → ℕ → Bool) (port : ℕ) (infos : List (Family × Text)) : Prop :=
  ∃ info ∈ infos, ∃ ip, M.ipAddress (bare info.2) = some ip ∧ isDenied M allowed ip port = true

/-- The kernel gets a literal that is not denied; a name is resolved once, and no answer is denied then. -/
structure Validated (M : IpAddress) (allowed : Ip → ℕ → Bool)
    (getaddrinfo : ℕ → Text → ℕ → Option (List (Family × Text))) (port : ℕ) (run : Outcome × List Text) : Prop where
  numeric : ∀ h p, run.1 = .connected h p → p = port ∧ Numeric M allowed h p
  once : run.2.length ≤ 1
  refused : ∀ text ∈ run.2, ∀ infos, getaddrinfo 0 text port = some infos → DeniedAnswer M allowed port infos →
    ∃ e, run.1 = .raised e

theorem validateSockaddr_ok {ip : Ip} (h : validateSockaddr M allowed text port = .ok (some ip)) :
    M.ipAddress (bare text) = some ip ∧ isDenied M allowed ip port = false := by
  rw [validateSockaddr] at h
  split at h
  · cases h
  · rename_i ip' hip
    split at h
    · cases h
    · rename_i hden
      cases h
      exact ⟨hip, Bool.eq_false_iff.mpr hden⟩

/-- The answers that are kept are addresses that are not denied, and no answer was. -/
theorem validateAnswers_ok (h : validateAnswers M allowed port infos = .ok resolved) :
    (∀ sockaddr ∈ resolved, ∃ s ip, M.ipAddress s = some ip ∧ sockaddr.2 = M.str ip ∧ isDenied M allowed ip port = false) ∧
    ¬DeniedAnswer M allowed port infos := by
  induction infos generalizing resolved with
  | nil =>
    cases h
    exact ⟨fun _ hs => (nomatch hs), fun ⟨_, hinfo, _⟩ => (nomatch hinfo)⟩
  | cons info infos ih =>
    have hdenied : ∀ {r}, validateSockaddr M allowed info.2 port = .ok r → ¬DeniedAnswer M allowed port infos →
        ¬DeniedAnswer M allowed port (info :: infos) := by
      rintro r hr hno ⟨answer, hmem, ip, hip, hden⟩
      rcases List.mem_cons.mp hmem with rfl | hmem
      · rw [validateSockaddr, hip] at hr
        dsimp only at hr
        rw [if_pos hden] at hr
        cases hr
      · exact hno ⟨answer, hmem, ip, hip, hden⟩
    rw [validateAnswers] at h
    split at h
    · cases h
    · rename_i hnone
      obtain ⟨hall, hno⟩ := ih h
      exact ⟨hall, hdenied hnone hno⟩
    · rename_i ip hsome
      split at h
      · cases h
      · rename_i hrest
        cases h
        obtain ⟨hall, hno⟩ := ih hrest
        obtain ⟨hip, hden⟩ := validateSockaddr_ok hsome
        exact ⟨List.forall_mem_cons.mpr ⟨⟨_, ip, hip, rfl, hden⟩, hall⟩, hdenied hsome hno⟩

theorem choose_mem {sockaddr : Text} (h : choose family resolved = some sockaddr) : ∃ f, (f, sockaddr) ∈ resolved := by
  rw [choose] at h
  split at h
  · rename_i entry rest hfilter
    cases h
    exact ⟨entry.1, List.mem_of_mem_filter (hfilter ▸ List.mem_cons_self)⟩
  · obtain ⟨entry, hhead, rfl⟩ := Option.map_eq_some_iff.mp h
    exact ⟨entry.1, List.mem_of_mem_head? hhead⟩

theorem raised_validated {e : Raised} {names : List Text} (h : names.length ≤ 1) :
    Validated M allowed getaddrinfo port (.raised e, names) :=
  ⟨fun _ _ hc => (nomatch hc), h, fun _ _ _ _ _ => ⟨e, rfl⟩⟩

/-- A host is no literal, or is one already without brackets and dots taken away. -/
def StandsAsIs (M : IpAddress) (allowed : Ip → ℕ → Bool) (idna : List UInt8 → Option Text) (host : Host) (port : ℕ) :
    Prop :=
  ∀ text ip, decodeHost idna host = some text → M.ipAddress (bare text) = some ip →
    isDenied M allowed ip port = false → Numeric M allowed host port

/-- `ipaddress` on the one literal `8.8.8.8`, a public address. -/
def publicDns : IpAddress where
  ipAddress text := if text = "8.8.8.8".toList then some (.v4 0x08080808) else none
  str _ := "8.8.8.8".toList
  isGlobal _ := true
  isMulticast _ := false
  isReserved _ := false
  isLinkLocal _ := false
  isLoopback _ := false
  isUnspecified _ := false

theorem publicDns_str (s : Text) (ip : Ip) (h : publicDns.ipAddress s = some ip) :
    publicDns.ipAddress (publicDns.str ip) = some ip := by
  rw [publicDns] at h ⊢
  dsimp only at h ⊢
  split at h
  · rw [if_pos rfl, h]
  · cases h

/-- A connect to `host` where every name has the answer `8.8.8.8`. -/
def connectTo (host : Host) : Outcome × List Text :=
  guardedConnect publicDns (fun _ _ => false) (fun _ => none) (fun _ _ _ => some [(.inet, "8.8.8.8".toList)]) .inet host 993

end Connect

/-! ### The two guards on literals -/

section Literals

variable {M : IpAddress} {allowed : Ip → ℕ → Bool} {text : Text} {ip : Ip} {port : ℕ}

def literalChars : List Char := "0123456789abcdefABCDEF:.".toList

/-- A text of hexadecimal digits, colons and dots that is read as an address, whatever the case of its
    letters. -/
structure Literal (M : IpAddress) (text : Text) (ip : Ip) : Prop where
  plain : ∀ c ∈ text, c ∈ literalChars
  undotted : ∃ c, text.getLast? = some c ∧ c ≠ '.'
  read : M.ipAddress text = some ip
  readLower : M.ipAddress (lower text) = some ip

theorem literalChars_facts : ∀ c ∈ literalChars, isSpace c = false ∧ (c = '[' || c = ']') = false ∧
    c.toLower ∈ literalChars ∧ (c ≠ '.' → c.toLower ≠ '.') ∧ c ≠ 'l' := by
  decide +kernel

theorem stripOf_eq {p : Char → Bool} (h : ∀ c ∈ text, p c = false) : stripOf p text = text := by
  have hdrop : text.dropWhile p = text := by
    rcases text with - | ⟨c, text⟩
    · rfl
    · exact List.dropWhile_cons_of_neg (Bool.eq_false_iff.mp (h c List.mem_cons_self))
  rw [stripOf, hdrop, List.rdropWhile_eq_self_iff]
  exact fun hne => Bool.eq_false_iff.mp (h _ (List.getLast_mem hne))

theorem rstripDots_eq (h : ∃ c, text.getLast? = some c ∧ c ≠ '.') : rstripDots text = text := by
  obtain ⟨c, hc, hdot⟩ := h
  rw [rstripDots, List.rdropWhile_eq_self_iff]
  intro hne
  rw [List.getLast?_eq_some_getLast hne] at hc
  rw [Option.some.inj hc]
  simpa using hdot

theorem Literal.lower (h : Literal M text ip) : Literal M (lower text) ip where
  plain c hc := by
    obtain ⟨d, hd, rfl⟩ := List.mem_map.mp hc
    exact (literalChars_facts d (h.plain d hd)).2.2.1
  undotted := by
    obtain ⟨c, hc, hdot⟩ := h.undotted
    refine ⟨c.toLower, by rw [Net.lower, List.getLast?_map, hc]; rfl, ?_⟩
    exact (literalChars_facts c (h.plain c (List.mem_of_getLast? hc))).2.2.2.1 hdot
  read := h.readLower
  readLower := by
    have htwice : Net.lower (Net.lower text) = Net.lower text := by
      rw [Net.lower, Net.lower, List.map_map]
      refine List.map_congr_left fun c hc => ?_
      have hall : ∀ c ∈ literalChars, c.toLower.toLower = c.toLower := by decide +kernel
      exact hall c (h.plain c hc)
    rw [htwice]
    exact h.readLower

theorem Literal.strip (h : Literal M text ip) : strip text = text :=
  stripOf_eq fun c hc => (literalChars_facts c (h.plain c hc)).1

theorem Literal.bare (h : Literal M text ip) : bare text = text := by
  rw [Net.bare, stripBrackets, stripOf_eq fun c hc => (literalChars_facts c (h.plain c hc)).2.1, rstripDots_eq h.undotted]

theorem Literal.literalIp (h : Literal M text ip) : literalIp M text = some ip := by
  rw [Net.literalIp, h.strip, show rstripDots (stripBrackets text) = Net.bare text from rfl, h.bare, h.read]

theorem Literal.not_local (h : Literal M text ip) : ¬(text = "localhost".toList ∨ ".localhost".toList.isSuffixOf text ∨
    ".local".toList.isSuffixOf text) := by
  have hno : 'l' ∉ text := fun hl => (literalChars_facts 'l' (h.plain 'l' hl)).2.2.2.2 rfl
  rintro (rfl | hs | hs)
  · exact hno (by decide)
  · exact hno ((List.isSuffixOf_iff_suffix.mp hs).subset (by decide))
  · exact hno ((List.isSuffixOf_iff_suffix.mp hs).subset (by decide))

/-- A literal is admitted for its address alone. -/
theorem Literal.admitted (h : Literal M text ip) (hport : 1 ≤ port ∧ port ≤ 65535) {shouldUseProxy : Text → Bool}
    {resolve : Text → ℕ → List Text} :
    assertPublicMailHost M shouldUseProxy resolve text port = .ok () ↔ isPublicIp M ip = true := by
  have hne : text ≠ [] := by
    obtain ⟨c, hc, -⟩ := h.undotted
    exact List.ne_nil_of_mem (List.mem_of_getLast? hc)
  rw [assertPublicMailHost, h.strip, if_neg hne, if_neg (not_not.mpr hport), rstripDots_eq h.undotted]
  dsimp only
  rw [if_neg h.lower.not_local, h.lower.literalIp]
  dsimp only
  split
  · rename_i hpublic
    exact iff_of_true rfl hpublic
  · rename_i hpublic
    exact iff_of_false (fun hok => (nomatch hok)) hpublic

theorem Literal.validated (h : Literal M text ip) : validateSockaddr M allowed text port =
    if isDenied M allowed ip port then .error .egressBlocked else .ok (some ip) := by
  rw [validateSockaddr, h.bare, h.read]

/-- A literal connects for its address and port alone. -/
theorem Literal.connects (h : Literal M text ip) {idna : List UInt8 → Option Text}
    {getaddrinfo : ℕ → Text → ℕ → Option (List (Family × Text))} {family : Family} :
    (guardedConnect M allowed idna getaddrinfo family (.str text) port).1 = .connected (.str text) port ↔
    isDenied M allowed ip port = false := by
  rw [guardedConnect, decodeHost]
  dsimp only
  rw [h.validated]
  cases isDenied M allowed ip port with
  | true => exact iff_of_false (fun hc => (nomatch hc)) Bool.true_eq_false.mp
  | false => exact iff_of_true rfl rfl

/-- What admission refuses of the IPv6 addresses, apart from those that are not public. -/
def isSpecial (M : IpAddress) (ip : Ip) : Bool :=
  M.isLoopback ip || M.isUnspecified ip || M.isMulticast ip || M.isReserved ip || M.isLinkLocal ip ||
    ip.isIn (net6 0xfc00 0 7) || ip.isIn docNetV6

/-- Where the two policies coincide: a global IPv4 address is in no denied network, and an IPv6 address that is
    global or of 2001::/23 is in one exactly if it is special. -/
def Coincide (M : IpAddress) : Ip → Prop
  | .v4 a => M.isGlobal (.v4 a) = true → denyNets.any (Ip.v4 a).isIn = false
  | .v6 a scope => (M.isGlobal (.v6 a scope) || (Ip.v6 a scope).isIn teredoIetfV6 && !(Ip.v6 a scope).isIn docNetV6) = true →
      denyNets.any (Ip.v6 a scope).isIn = isSpecial M (.v6 a scope)

theorem public_iff_allowed (hallowed : allowed ip port = false) :
    (isPublicIp M ip = true ↔ isDenied M allowed ip port = false) ↔ Coincide M ip := by
  rw [isDenied, hallowed, if_neg Bool.false_ne_true]
  cases ip with
  | v4 a =>
    have hteredo : (Ip.v4 a).isIn teredoIetfV6 = false := rfl
    rw [isPublicIp, Coincide, hteredo, Bool.false_and, if_neg Bool.false_ne_true]
    cases M.isGlobal (.v4 a) <;> cases denyNets.any (Ip.v4 a).isIn <;> decide
  | v6 a scope =>
    rw [isPublicIp, Coincide, isSpecial]
    generalize (M.isLoopback (.v6 a scope) || M.isUnspecified (.v6 a scope) || M.isMulticast (.v6 a scope) ||
      M.isReserved (.v6 a scope) || M.isLinkLocal (.v6 a scope)) = special
    cases special <;> cases M.isGlobal (.v6 a scope) <;> cases denyNets.any (Ip.v6 a scope).isIn <;>
      cases (Ip.v6 a scope).isIn teredoIetfV6 <;> cases (Ip.v6 a scope).isIn docNetV6 <;>
      cases (Ip.v6 a scope).isIn (net6 0xfc00 0 7) <;> decide

/-- The networks that Python's `IPv4Address.is_global` leaves out. -/
def notGlobal4 : List Network :=
  [net4 0 0 0 0 8, net4 10 0 0 0 8, net4 100 64 0 0 10, net4 127 0 0 0 8, net4 169 254 0 0 16, net4 172 16 0 0 12,
    net4 192 0 0 0 24, net4 192 0 2 0 24, net4 192 168 0 0 16, net4 198 18 0 0 15, net4 198 51 100 0 24,
    net4 203 0 113 0 24, net4 240 0 0 0 4]

/-- The literals `8.8.8.8` and `224.0.0.1`. -/
def twoLiterals : IpAddress :=
  { publicDns with
    ipAddress := fun text =>
      if text = "8.8.8.8".toList then some (.v4 0x08080808)
      else if text = "224.0.0.1".toList then some (.v4 0xE0000001)
      else none
    isGlobal := fun ip => !notGlobal4.any ip.isIn
    isMulticast := fun ip => ip.isIn (net4 224 0 0 0 4) }

end Literals

end OneMail.Net
