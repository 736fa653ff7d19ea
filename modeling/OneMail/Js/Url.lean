import OneMail.Js.JsString

/-! The URL parser of the browser, as far as scheme, host and port.

    The input is cleaned up (`normalise`) and then goes through the states of the basic URL parser:
    scheme, relative, relative slash, special authority, authority, host and port. The states of path,
    query and fragment neither fail nor change the origin, so they are left out. What a host's text
    stands for is a parameter, and so is what follows `file:`. -/

namespace OneMail.Url

structure Parsed (Host : Type) where
  scheme : JsString
  host : Option Host
  port : Option ℕ
  deriving DecidableEq

/-! ### Cleaning up -/

def isC0OrSpace (c : UInt16) : Bool := c ≤ 0x20

def isTabOrNewline (c : UInt16) : Bool := c = 0x9 || c = 0xA || c = 0xD

/-- C0 controls and spaces are removed at both ends, tabs and newlines everywhere. -/
def normalise (s : JsString) : JsString :=
  ((s.dropWhile isC0OrSpace).rdropWhile isC0OrSpace).filter (!isTabOrNewline ·)

/-! ### The states -/

def slash : UInt16 := 0x2F

def backslash : UInt16 := 0x5C

def colon : UInt16 := 0x3A

def isSlash (c : UInt16) : Bool := c = slash || c = backslash

def isAlpha (c : UInt16) : Bool := 0x41 ≤ c && c ≤ 0x5A || 0x61 ≤ c && c ≤ 0x7A

def isDigit (c : UInt16) : Bool := 0x30 ≤ c && c ≤ 0x39

/-- Letters, digits, `+`, `-` and `.` -/
def isSchemeUnit (c : UInt16) : Bool := isAlpha c || isDigit c || c = 0x2B || c = 0x2D || c = 0x2E

def lower (s : JsString) : JsString := s.map fun c => if 0x41 ≤ c ∧ c ≤ 0x5A then c + 0x20 else c

def defaultPort (scheme : JsString) : Option ℕ :=
  if scheme = js "ftp" then some 21
  else if scheme = js "http" ∨ scheme = js "ws" then some 80
  else if scheme = js "https" ∨ scheme = js "wss" then some 443
  else none

def isSpecial (scheme : JsString) : Bool := (defaultPort scheme).isSome || scheme = js "file"

/-- The host ends at the first colon outside of brackets. -/
def splitHost : Bool → JsString → JsString × Option JsString
  | _, [] => ([], none)
  | inside, c :: rest =>
    if c = colon ∧ inside = false then ([], some rest)
    else
      let (host, port) := splitHost (if c = 0x5B then true else if c = 0x5D then false else inside) rest
      (c :: host, port)

def portState (scheme digits : JsString) : Option (Option ℕ) :=
  if digits = [] then some none
  else if digits.all isDigit then
    let port := digits.foldl (fun n c => 10 * n + (c.toNat - 0x30)) 0
    if 65535 < port then none else some (if defaultPort scheme = some port then none else some port)
  else none

section Parser

variable {Host : Type} (hostOf : Bool → JsString → Option Host) (fileOf : JsString → Option (Option Host))

/-- The states of authority, host and port. -/
def authority (scheme rest : JsString) : Option (Parsed Host) :=
  let text := rest.takeWhile fun c => !(c = slash || c = 0x3F || c = 0x23 || isSpecial scheme && c = backslash)
  let hostPort := text.rtakeWhile (· ≠ 0x40)
  if 0x40 ∈ text ∧ hostPort = [] then none
  else
    let (host, port) := splitHost false hostPort
    if host = [] ∧ (port.isSome ∨ isSpecial scheme) then none
    else do
      let h ← hostOf (!isSpecial scheme) host
      let p ← portState scheme (port.getD [])
      some ⟨scheme, some h, p⟩

/-- The state that ignores slashes before the authority of a special URL. -/
def specialAuthority (scheme rest : JsString) : Option (Parsed Host) :=
  authority hostOf scheme (rest.dropWhile isSlash)

def relativeSlash (base : Parsed Host) : JsString → Option (Parsed Host)
  | c :: rest =>
    if isSpecial base.scheme ∧ isSlash c then specialAuthority hostOf base.scheme rest
    else if c = slash then authority hostOf base.scheme rest
    else some base
  | [] => some base

def relative (base : Parsed Host) : JsString → Option (Parsed Host)
  | c :: rest =>
    if c = slash ∨ isSpecial base.scheme ∧ c = backslash then relativeSlash hostOf base rest else some base
  | [] => some base

/-- Whether the text goes on with two slashes, and what follows them. -/
def afterSlashes : JsString → Option JsString
  | c :: d :: rest => if c = slash ∧ d = slash then some rest else none
  | _ => none

def specialRelativeOrAuthority (base : Parsed Host) (rest : JsString) : Option (Parsed Host) :=
  match afterSlashes rest with
  | some rest' => specialAuthority hostOf base.scheme rest'
  | none => relative hostOf base rest

def specialAuthoritySlashes (scheme rest : JsString) : Option (Parsed Host) :=
  match afterSlashes rest with
  | some rest' => specialAuthority hostOf scheme rest'
  | none => specialAuthority hostOf scheme rest

/-- The state after the colon of the scheme. -/
def afterScheme (base : Parsed Host) (scheme rest : JsString) : Option (Parsed Host) :=
  if scheme = js "file" then (fileOf rest).map fun host => ⟨scheme, host, none⟩
  else if isSpecial scheme then
    if base.scheme = scheme then specialRelativeOrAuthority hostOf base rest
    else specialAuthoritySlashes hostOf scheme rest
  else match afterSlashes rest with
    | some rest' => authority hostOf scheme rest'
    | none => some ⟨scheme, none, none⟩

/-- The scheme state, which goes back to the start of the input where there is no scheme. -/
def schemeState (base : Parsed Host) (input : JsString) : JsString → JsString → Option (Parsed Host)
  | buffer, c :: rest =>
    if isSchemeUnit c then schemeState base input (buffer ++ lower [c]) rest
    else if c = colon then afterScheme hostOf fileOf base buffer rest
    else relative hostOf base input
  | _, [] => relative hostOf base input

def schemeStart (base : Parsed Host) (input : JsString) : Option (Parsed Host) :=
  match input with
  | c :: rest => if isAlpha c then schemeState hostOf fileOf base input (lower [c]) rest else relative hostOf base input
  | [] => relative hostOf base input

/-- The basic URL parser on a base URL that has a host. -/
def parse (base : Parsed Host) (s : JsString) : Option (Parsed Host) := schemeStart hostOf fileOf base (normalise s)

end Parser

/-! ### The scheme -/

/-- The scheme of a text and what follows its colon. -/
def schemeOf (t : JsString) : Option (JsString × JsString) :=
  match t with
  | c :: _ =>
    if isAlpha c then
      match t.dropWhile isSchemeUnit with
      | d :: rest => if d = colon then some (lower (t.takeWhile isSchemeUnit), rest) else none
      | [] => none
    else none
  | [] => none

section Scheme

variable {Host : Type} {hostOf : Bool → JsString → Option Host} {fileOf : JsString → Option (Option Host)}
  {base : Parsed Host} {input buffer rest t : JsString} {c : UInt16}

theorem schemeState_eq : schemeState hostOf fileOf base input buffer rest =
    match rest.dropWhile isSchemeUnit with
    | d :: rest' =>
      if d = colon then afterScheme hostOf fileOf base (buffer ++ lower (rest.takeWhile isSchemeUnit)) rest'
      else relative hostOf base input
    | [] => relative hostOf base input := by
  induction rest generalizing buffer with
  | nil => rfl
  | cons c rest ih =>
    rw [schemeState]
    split
    · rename_i hc
      rw [ih, List.dropWhile_cons_of_pos hc, List.takeWhile_cons_of_pos hc, List.append_assoc,
        show lower [c] ++ lower (rest.takeWhile isSchemeUnit) = lower (c :: rest.takeWhile isSchemeUnit) from rfl]
    · rename_i hc
      rw [List.dropWhile_cons_of_neg hc, List.takeWhile_cons_of_neg hc, show lower [] = [] from rfl, List.append_nil]

theorem isSchemeUnit_of_isAlpha (h : isAlpha c = true) : isSchemeUnit c = true := by
  rw [isSchemeUnit, h, Bool.true_or, Bool.true_or, Bool.true_or, Bool.true_or]

/-- A text with a scheme is parsed by it, any other relative to the base. -/
theorem schemeStart_eq : schemeStart hostOf fileOf base t =
    match schemeOf t with
    | some (scheme, rest) => afterScheme hostOf fileOf base scheme rest
    | none => relative hostOf base t := by
  rcases t with - | ⟨c, rest⟩
  · rfl
  · rw [schemeStart, schemeOf]
    split
    · rename_i hc
      rw [schemeState_eq, List.dropWhile_cons_of_pos (isSchemeUnit_of_isAlpha hc),
        List.takeWhile_cons_of_pos (isSchemeUnit_of_isAlpha hc)]
      split
      · split
        · rfl
        · rfl
      · rfl
    · rfl

end Scheme

end OneMail.Url
