import Mathlib
import OneMail.Lib.Stream

/-! The HTTP reader of the fleet metrics.

    `readResponse` follows `_read_response`: a status line, header lines of which only the framing ones
    are kept, and a body in one of three framings. It returns what `json.loads` makes of the body, and
    with it every length that the body buffer has had. The stream is read through the buffer of
    `asyncio.StreamReader`, whose limit is that of `open_connection`. -/

namespace OneMail.Metrics

open Stream (Reader)

abbrev Bytes := List UInt8

def MAX_RESPONSE_BYTES : ℕ := 512 * 1024

/-- The limit of the stream's buffer. -/
def streamLimit : ℕ := 32 * 1024

/-- Digits that `int` converts before it refuses a text. -/
def intMaxStrDigits : ℕ := 4300

def LF : UInt8 := 10

def CR : UInt8 := 13

def colon : UInt8 := 58

def semicolon : UInt8 := 59

def CRLF : Bytes := [CR, LF]

def ascii (s : String) : Bytes := s.toList.map fun c => UInt8.ofNat c.toNat

def contentLength : Bytes := ascii "content-length"

def transferEncoding : Bytes := ascii "transfer-encoding"

def contentEncoding : Bytes := ascii "content-encoding"

/-- What the reader raises: a `MetricsError`, a `ValueError` or an `IncompleteReadError`. -/
inductive ReadError
  | invalidHttpFraming | invalidHttpStatus | http (code : Bytes) | invalidHttpHeaders
  | unsupportedHttpEncoding | invalidHttpChunk | responseTooLarge | invalidApiJson
  | valueError | incompleteRead
  deriving DecidableEq, Repr

/-! ### Texts in bytes -/

def lower (bs : Bytes) : Bytes := bs.map fun b => if 65 ≤ b ∧ b ≤ 90 then b + 32 else b

def isSpace (b : UInt8) : Bool := b = 32 || 9 ≤ b && b ≤ 13

def strip (bs : Bytes) : Bytes := ((bs.dropWhile isSpace).reverse.dropWhile isSpace).reverse

def isDigit (b : UInt8) : Bool := 48 ≤ b && b ≤ 57

def isHexDigit (b : UInt8) : Bool := isDigit b || 65 ≤ b && b ≤ 70 || 97 ≤ b && b ≤ 102

def digitValue (b : UInt8) : ℕ :=
  if b ≤ 57 then b.toNat - 48 else if b ≤ 70 then b.toNat - 55 else b.toNat - 87

/-- The number that digits of a base stand for. -/
def number (base : ℕ) (bs : Bytes) : ℕ := bs.foldl (fun n b => base * n + digitValue b) 0

/-! ### The reader -/

/-- `_read_line`, which leaves out the line end. -/
def readLine (maximum : ℕ) (r : Reader UInt8) : Except ReadError (Bytes × Reader UInt8) :=
  match Stream.readUntil LF streamLimit r.buffer r.segments with
  | none => .error .valueError
  | some (line, r') =>
    if ¬CRLF <:+ line ∨ maximum < line.length then .error .invalidHttpFraming
    else .ok (line.take (line.length - 2), r')

def readExactly (n : ℕ) (r : Reader UInt8) : Except ReadError (Bytes × Reader UInt8) :=
  match Stream.readExactly n r.buffer r.segments with
  | none => .error .incompleteRead
  | some p => .ok p

/-- The code that `HTTP/1\.[01] ([0-9]{3})(?: [^\r\n]*)?` finds in the status line. -/
def statusCode (status : Bytes) : Option Bytes :=
  if ascii "HTTP/1." <+: status then
    match status.drop 7 with
    | minor :: space :: a :: b :: c :: rest =>
      if (minor = 48 ∨ minor = 49) ∧ space = 32 ∧ isDigit a ∧ isDigit b ∧ isDigit c ∧
          (rest = [] ∨ rest.head? = some 32 ∧ CR ∉ rest ∧ LF ∉ rest) then some [a, b, c]
      else none
    | _ => none
  else none

/-- The dictionary of the framing headers. -/
abbrev Headers := List (Bytes × Bytes)

def Headers.get? (headers : Headers) (key : Bytes) : Option Bytes :=
  (headers.find? fun entry => entry.1 = key).map Prod.snd

def framingHeaders : List Bytes := [contentLength, transferEncoding, contentEncoding]

def keyOf (line : Bytes) : Bytes := lower (line.takeWhile (· ≠ colon))

def valueOf (line : Bytes) : Bytes := lower (strip ((line.dropWhile (· ≠ colon)).drop 1))

/-- A line that was read leaves less of the stream. -/
theorem readLine_ok {maximum : ℕ} {r r' : Reader UInt8} {line : Bytes} (h : readLine maximum r = .ok (line, r')) :
    r.remaining = line ++ CRLF ++ r'.remaining ∧ LF ∉ line ∧ line.length + 2 ≤ maximum := by
  rw [readLine] at h
  split at h
  · cases h
  · rename_i full r₁ hread
    split at h
    · cases h
    · rename_i hline
      obtain ⟨rfl, rfl⟩ := Prod.mk.inj (Except.ok.inj h)
      rw [not_or, not_not, not_lt] at hline
      obtain ⟨⟨l, rfl⟩, hlen⟩ := hline
      obtain ⟨hall, hcase⟩ := Stream.readUntil_some hread
      have htake : (l ++ CRLF).take ((l ++ CRLF).length - 2) = l := by
        rw [List.length_append, show CRLF.length = 2 from rfl, Nat.add_sub_cancel, List.take_left]
      rw [htake]
      have hfree : LF ∉ l := by
        rcases hcase with ⟨a, ha, hfree⟩ | ⟨hfree, -⟩
        · have hl : l ++ [CR] = a := by
            rw [show CRLF = [CR] ++ [LF] from rfl, ← List.append_assoc] at ha
            exact List.append_cancel_right ha
          exact fun hmem => hfree (hl ▸ List.mem_append_left _ hmem)
        · exact fun hmem => hfree (List.mem_append_left _ hmem)
      rw [List.length_append] at hlen
      exact ⟨hall, hfree, hlen⟩

theorem readLine_lt {maximum : ℕ} {r r' : Reader UInt8} {line : Bytes} (h : readLine maximum r = .ok (line, r')) :
    r'.remaining.length < r.remaining.length := by
  rw [(readLine_ok h).1, List.length_append, List.length_append, show CRLF.length = 2 from rfl]
  omega

/-- The loop that reads the header lines, to the empty one. -/
def readHeaders (r : Reader UInt8) (headers : Headers) (headerBytes : ℕ) :
    Except ReadError (Headers × ℕ × Reader UInt8) :=
  match _h : readLine 8192 r with
  | .error e => .error e
  | .ok (line, r') =>
    if line = [] then .ok (headers, headerBytes, r')
    else if colon ∉ line ∨ 32 * 1024 < headerBytes + line.length ∨ headers.any (·.1 = keyOf line) then
      .error .invalidHttpHeaders
    else
      readHeaders r' (if keyOf line ∈ framingHeaders then headers ++ [(keyOf line, valueOf line)] else headers)
        (headerBytes + line.length)
termination_by r.remaining.length
decreasing_by exact readLine_lt _h

def readTrailers (r : Reader UInt8) (headerBytes : ℕ) : Except ReadError (Reader UInt8) :=
  match _h : readLine 8192 r with
  | .error e => .error e
  | .ok (line, r') =>
    if line = [] then .ok r'
    else if 32 * 1024 < headerBytes + line.length then .error .invalidHttpHeaders
    else readTrailers r' (headerBytes + line.length)
termination_by r.remaining.length
decreasing_by exact readLine_lt _h

theorem readExactly_ok {n : ℕ} {r r' : Reader UInt8} {data : Bytes} (h : readExactly n r = .ok (data, r')) :
    r.remaining = data ++ r'.remaining ∧ data.length = n := by
  rw [readExactly] at h
  split at h
  · cases h
  · obtain rfl := Except.ok.inj h
    exact Stream.readExactly_some ‹_›

/-- What a loop over the body returns, and the lengths that it has given the body buffer. -/
abbrev Reading := Except ReadError (Bytes × Reader UInt8) × List ℕ

/-- The chunked framing. -/
def readChunks (r : Reader UInt8) (body : Bytes) (headerBytes : ℕ) : Reading :=
  match _h : readLine 256 r with
  | .error e => (.error e, [])
  | .ok (line, r₁) =>
    let sizeText := line.takeWhile (· ≠ semicolon)
    if ¬(sizeText ≠ [] ∧ sizeText.all isHexDigit) then (.error .invalidHttpChunk, [])
    else if MAX_RESPONSE_BYTES < body.length + number 16 sizeText then (.error .responseTooLarge, [])
    else if number 16 sizeText = 0 then
      match readTrailers r₁ headerBytes with
      | .error e => (.error e, [])
      | .ok r₂ => (.ok (body, r₂), [])
    else match _hdata : readExactly (number 16 sizeText) r₁ with
      | .error e => (.error e, [])
      | .ok (data, r₂) =>
        match _hend : readExactly 2 r₂ with
        | .error e => (.error e, [(body ++ data).length])
        | .ok (lineEnd, r₃) =>
          if lineEnd ≠ CRLF then (.error .invalidHttpChunk, [(body ++ data).length])
          else
            let (result, lengths) := readChunks r₃ (body ++ data) headerBytes
            (result, (body ++ data).length :: lengths)
termination_by r.remaining.length
decreasing_by
  have h₁ := readLine_lt _h
  rw [(readExactly_ok _hdata).1, List.length_append, (readExactly_ok _hend).1, List.length_append] at h₁
  omega

/-- What the next read may take. -/
def nextSize (body : Bytes) : ℕ := min (64 * 1024) (MAX_RESPONSE_BYTES + 1 - body.length)

/-- The framing by the end of the stream. -/
def readUntilClose (r : Reader UInt8) (body : Bytes) : Reading :=
  match _h : Stream.read (nextSize body) r.buffer r.segments with
  | (chunk, r') =>
    if chunk = [] then (.ok (body, r'), [])
    else if MAX_RESPONSE_BYTES < (body ++ chunk).length then (.error .responseTooLarge, [(body ++ chunk).length])
    else
      let (result, lengths) := readUntilClose r' (body ++ chunk)
      (result, (body ++ chunk).length :: lengths)
termination_by r.remaining.length
decreasing_by
  have hall := (@Stream.read_spec _ (nextSize body) r.buffer r.segments).1
  rw [_h] at hall
  have hpos : 0 < chunk.length := List.length_pos_of_ne_nil ‹_›
  rw [show r.remaining = chunk ++ r'.remaining from hall, List.length_append]
  omega

/-- `int` of decimal digits. -/
def intOf (digits : Bytes) : Except ReadError ℕ :=
  if intMaxStrDigits < digits.length then .error .valueError else .ok (number 10 digits)

/-- The body, in the framing that the headers declare. -/
def readBody (headers : Headers) (headerBytes : ℕ) (r : Reader UInt8) : Reading :=
  if (headers.get? contentEncoding).getD (ascii "identity") ≠ ascii "identity" then
    (.error .unsupportedHttpEncoding, [])
  else if headers.get? transferEncoding = some (ascii "chunked") then
    if (headers.get? contentLength).isSome then (.error .invalidHttpFraming, [])
    else readChunks r [] headerBytes
  else if (headers.get? transferEncoding).isSome then (.error .invalidHttpFraming, [])
  else match headers.get? contentLength with
    | some length =>
      if ¬(length ≠ [] ∧ length.all isDigit) then (.error .responseTooLarge, [])
      else match intOf length with
        | .error e => (.error e, [])
        | .ok size =>
          if MAX_RESPONSE_BYTES < size then (.error .responseTooLarge, [])
          else match readExactly size r with
            | .error e => (.error e, [])
            | .ok (data, r') => (.ok (data, r'), [data.length])
    | none => readUntilClose r []

/-- The response up to the end of its body. -/
def readMessage (r : Reader UInt8) : Reading :=
  match readLine 8192 r with
  | .error e => (.error e, [])
  | .ok (status, r₁) =>
    match statusCode status with
    | none => (.error .invalidHttpStatus, [])
    | some code =>
      if code ≠ ascii "200" then (.error (.http code), [])
      else match readHeaders r₁ [] status.length with
        | .error e => (.error e, [])
        | .ok (headers, headerBytes, r₂) => readBody headers headerBytes r₂

/-- `_read_response`, with `json.loads` as a parameter. -/
def readResponse {α : Type*} (loads : Bytes → Option α) (r : Reader UInt8) : Except ReadError α × List ℕ :=
  match readMessage r with
  | (.error e, lengths) => (.error e, lengths)
  | (.ok (body, _), lengths) =>
    match loads body with
    | some value => (.ok value, lengths)
    | none => (.error .invalidApiJson, lengths)

/-! ### Responses -/

structure Field where
  name : Bytes
  value : Bytes
  deriving DecidableEq

def Field.line (f : Field) : Bytes := f.name ++ colon :: f.value

/-- The name as it is compared. -/
def Field.key (f : Field) : Bytes := lower f.name

/-- The value without the white space around it, as it is compared. -/
def Field.content (f : Field) : Bytes := lower (strip f.value)

/-- No byte of a line end. -/
def OneLine (line : Bytes) : Prop := CR ∉ line ∧ LF ∉ line

structure Field.Plain (f : Field) : Prop where
  named : f.name ≠ []
  colonFree : colon ∉ f.name
  oneLine : OneLine f.line

structure Chunk where
  size : Bytes
  extension : Bytes
  data : Bytes

def Chunk.line (c : Chunk) : Bytes := c.size ++ c.extension

def Chunk.bytes (c : Chunk) : Bytes := c.line ++ CRLF ++ c.data ++ CRLF

structure Chunk.Plain (c : Chunk) : Prop where
  sized : c.size ≠ [] ∧ c.size.all isHexDigit = true
  counted : number 16 c.size = c.data.length
  extended : c.extension = [] ∨ c.extension.head? = some semicolon
  oneLine : OneLine c.extension

inductive Framing
  | length
  | chunked (chunks : List Chunk) (last : Chunk) (trailers : List Bytes)
  | untilClose

structure Response where
  status : Bytes
  fields : List Field
  framing : Framing
  body : Bytes

def linesOf (lines : List Bytes) : Bytes := lines.flatMap fun line => line ++ CRLF

def Framing.payload (body : Bytes) : Framing → Bytes
  | .chunked chunks last trailers =>
    chunks.flatMap Chunk.bytes ++ (last.line ++ CRLF) ++ linesOf trailers ++ CRLF
  | _ => body

def headOf (status : Bytes) (fields : List Field) : Bytes :=
  status ++ CRLF ++ linesOf (fields.map Field.line) ++ CRLF

def Response.bytes (resp : Response) : Bytes :=
  headOf resp.status resp.fields ++ resp.framing.payload resp.body

/-- A status line of status 200. -/
def IsSuccess (status : Bytes) : Prop :=
  ∃ minor reason, status = ascii "HTTP/1." ++ minor :: ascii " 200" ++ reason ∧
    (minor = 48 ∨ minor = 49) ∧ (reason = [] ∨ reason.head? = some 32) ∧ OneLine reason

/-- A response of status 200 with one framing, none of whose framing headers is repeated. -/
structure Response.WellFormed (resp : Response) : Prop where
  status : IsSuccess resp.status
  fields : ∀ f ∈ resp.fields, f.Plain
  unrepeated : ((resp.fields.map Field.key).filter (· ∈ framingHeaders)).Nodup
  encoding : ∀ f ∈ resp.fields, f.key = contentEncoding → f.content = ascii "identity"
  framing : match resp.framing with
    | .length => (∀ f ∈ resp.fields, f.key ≠ transferEncoding) ∧ ∃ f ∈ resp.fields, f.key = contentLength ∧
        f.content ≠ [] ∧ f.content.all isDigit = true ∧ number 10 f.content = resp.body.length
    | .chunked chunks last trailers => (∀ f ∈ resp.fields, f.key ≠ contentLength) ∧
        (∃ f ∈ resp.fields, f.key = transferEncoding ∧ f.content = ascii "chunked") ∧
        (∀ c ∈ chunks, c.Plain ∧ c.data ≠ []) ∧ last.Plain ∧ last.data = [] ∧
        (∀ line ∈ trailers, line ≠ [] ∧ OneLine line) ∧ resp.body = chunks.flatMap Chunk.data
    | .untilClose => ∀ f ∈ resp.fields, f.key ≠ contentLength ∧ f.key ≠ transferEncoding

/-! ### What a read decides -/

/-- A value that meets `P` if `fits` holds, and an error otherwise. -/
def Decides {ε α : Type*} (x : Except ε α) (fits : Prop) (P : α → Prop) : Prop :=
  fits ∧ (∃ a, x = .ok a ∧ P a) ∨ ¬fits ∧ ∃ e, x = .error e

section Decides

variable {ε α : Type*} {x y : Except ε α} {fits fits' : Prop} {P : α → Prop}

theorem Decides.ok (h : Decides x fits P) (hf : fits) : ∃ a, x = .ok a ∧ P a := by
  rcases h with ⟨-, h⟩ | ⟨hn, -⟩
  · exact h
  · exact absurd hf hn

theorem Decides.error (h : Decides x fits P) (hf : ¬fits) : ∃ e, x = .error e := by
  rcases h with ⟨hf', -⟩ | ⟨-, h⟩
  · exact absurd hf' hf
  · exact h

theorem Decides.value (h : Decides x fits P) {a : α} (hx : x = .ok a) : fits ∧ P a := by
  rcases h with ⟨hf, b, hb, hP⟩ | ⟨-, e, he⟩
  · rw [hx] at hb
    cases hb
    exact ⟨hf, hP⟩
  · rw [hx] at he
    cases he

theorem Decides.iff (h : Decides x fits P) (hf : fits ↔ fits') : Decides x fits' P := by
  rwa [Decides, ← hf]

theorem Decides.of_error {e : ε} (hf : ¬fits) : Decides (.error e : Except ε α) fits P := .inr ⟨hf, e, rfl⟩

theorem Decides.of_ok {a : α} (hf : fits) (hP : P a) : Decides (.ok a : Except ε α) fits P := .inl ⟨hf, a, rfl, hP⟩

end Decides

section Lines

variable {r : Reader UInt8} {line rest : Bytes} {maximum : ℕ}

theorem readLine_decides (hr : r.remaining = line ++ CRLF ++ rest) (hline : LF ∉ line) (hmax : maximum ≤ 8192) :
    Decides (readLine maximum r) (line.length + 2 ≤ maximum) fun p => p.1 = line ∧ p.2.remaining = rest := by
  have hfree : LF ∉ line ++ [CR] := by
    rw [List.mem_append, not_or]
    exact ⟨hline, by decide⟩
  have hr' : r.buffer ++ r.segments.flatten = line ++ [CR] ++ LF :: rest := by
    rw [show r.buffer ++ r.segments.flatten = r.remaining from rfl, hr]
    simp [CRLF]
  by_cases hlen : line.length + 2 ≤ maximum
  · obtain ⟨r', hread, hrest⟩ := @Stream.readUntil_found _ _ _ streamLimit _ _ _ _ hfree (by
      rw [List.length_append, streamLimit, List.length_singleton]
      omega) hr'
    have hend : line ++ [CR] ++ [LF] = line ++ CRLF := by simp [CRLF]
    refine .inl ⟨hlen, (line, r'), ?_, rfl, hrest⟩
    rw [readLine, hread]
    dsimp only
    rw [hend, if_neg, List.length_append, show CRLF.length = 2 from rfl, Nat.add_sub_cancel, List.take_left]
    rw [not_or, not_not, not_lt, List.length_append]
    exact ⟨List.suffix_append _ _, hlen⟩
  · refine .inr ⟨hlen, ?_⟩
    rcases hread : readLine maximum r with e | ⟨l, r'⟩
    · exact ⟨e, rfl⟩
    · obtain ⟨hall, hl, hshort⟩ := readLine_ok hread
      have hsplit : l ++ [CR] ++ LF :: r'.remaining = line ++ [CR] ++ LF :: rest := by
        rw [← hr', show r.buffer ++ r.segments.flatten = r.remaining from rfl, hall]
        simp [CRLF]
      have hl' : LF ∉ l ++ [CR] := by
        rw [List.mem_append, not_or]
        exact ⟨hl, by decide⟩
      obtain ⟨heq, -⟩ := Stream.separated_inj hl' hfree hsplit
      rw [List.append_cancel_right heq] at hshort
      exact absurd hshort hlen

theorem readExactly_eq {data : Bytes} (hr : r.remaining = data ++ rest) :
    ∃ r', readExactly data.length r = .ok (data, r') ∧ r'.remaining = rest := by
  obtain ⟨r', hread, hrest⟩ := Stream.readExactly_of_le data rest hr
  exact ⟨r', by rw [readExactly, hread], hrest⟩

theorem readHeaders_error {headers : Headers} {headerBytes : ℕ} {e : ReadError} (h : readLine 8192 r = .error e) :
    readHeaders r headers headerBytes = .error e := by
  rw [readHeaders]
  split
  · rename_i e' he
    rw [h] at he
    exact congrArg _ (Except.error.inj he).symm
  · rename_i he
    rw [h] at he
    cases he

theorem readHeaders_line {headers : Headers} {headerBytes : ℕ} {r' : Reader UInt8}
    (h : readLine 8192 r = .ok (line, r')) : readHeaders r headers headerBytes =
      if line = [] then .ok (headers, headerBytes, r')
      else if colon ∉ line ∨ 32 * 1024 < headerBytes + line.length ∨ headers.any (·.1 = keyOf line) then
        .error .invalidHttpHeaders
      else
        readHeaders r' (if keyOf line ∈ framingHeaders then headers ++ [(keyOf line, valueOf line)] else headers)
          (headerBytes + line.length) := by
  rw [readHeaders]
  split
  · rename_i he
    rw [h] at he
    cases he
  · rename_i he
    rw [h] at he
    obtain ⟨rfl, rfl⟩ := Prod.mk.inj (Except.ok.inj he)
    rfl

end Lines

/-! ### The header lines -/

def sizeOf (lines : List Bytes) : ℕ := (lines.map List.length).sum

/-- The entries that the reader keeps. -/
def framingFields (fields : List Field) : Headers :=
  (fields.filter fun f => f.key ∈ framingHeaders).map fun f => (f.key, f.content)

def framingKeys (fields : List Field) : List Bytes := (fields.map Field.key).filter (· ∈ framingHeaders)

section Headers

variable {f : Field} {fields : List Field} {r : Reader UInt8} {headers : Headers} {headerBytes : ℕ} {rest : Bytes}

theorem Field.Plain.keyOf_line (h : f.Plain) : keyOf f.line = f.key :=
  congrArg lower (Stream.takeWhile_separated h.colonFree)

theorem Field.Plain.valueOf_line (h : f.Plain) : valueOf f.line = f.content := by
  rw [valueOf, Field.line, Stream.dropWhile_separated h.colonFree]
  rfl

theorem Field.line_ne_nil (f : Field) : f.line ≠ [] := List.append_ne_nil_of_right_ne_nil _ (List.cons_ne_nil _ _)

theorem Field.colon_mem (f : Field) : colon ∈ f.line := List.mem_append_right _ List.mem_cons_self

/-- The limits that the header lines keep to. -/
structure HeadersFit (fields : List Field) (headers : Headers) (headerBytes : ℕ) : Prop where
  short : ∀ f ∈ fields, f.line.length + 2 ≤ 8192
  total : headerBytes + sizeOf (fields.map Field.line) ≤ 32 * 1024
  distinct : (headers.map Prod.fst ++ framingKeys fields).Nodup

theorem sizeOf_cons (line : Bytes) (lines : List Bytes) : sizeOf (line :: lines) = line.length + sizeOf lines := by
  rw [sizeOf, List.map_cons, List.sum_cons]
  rfl

theorem linesOf_cons (line : Bytes) (lines : List Bytes) :
    linesOf (line :: lines) = line ++ CRLF ++ linesOf lines := List.flatMap_cons

/-- The entries after one more line. -/
def Headers.add (headers : Headers) (f : Field) : Headers :=
  if f.key ∈ framingHeaders then headers ++ [(f.key, f.content)] else headers

theorem add_framingFields : headers.add f ++ framingFields fields = headers ++ framingFields (f :: fields) := by
  rw [Headers.add, framingFields, framingFields]
  split
  · rename_i hkey
    rw [List.filter_cons_of_pos (by simpa using hkey), List.map_cons, List.append_assoc, List.singleton_append]
  · rename_i hkey
    rw [List.filter_cons_of_neg (by simpa using hkey)]

theorem add_framingKeys :
    (headers.add f).map Prod.fst ++ framingKeys fields = headers.map Prod.fst ++ framingKeys (f :: fields) := by
  rw [Headers.add, framingKeys, framingKeys, List.map_cons]
  split
  · rename_i hkey
    rw [List.filter_cons_of_pos (by simpa using hkey), List.map_append, List.append_assoc]
    rfl
  · rename_i hkey
    rw [List.filter_cons_of_neg (by simpa using hkey)]

theorem headersFit_cons (hlen : f.line.length + 2 ≤ 8192) : HeadersFit (f :: fields) headers headerBytes ↔
    HeadersFit fields (headers.add f) (headerBytes + f.line.length) := by
  refine ⟨fun h => ⟨fun g hg => h.short g (List.mem_cons_of_mem _ hg), ?_, ?_⟩,
    fun h => ⟨fun g hg => ?_, ?_, ?_⟩⟩
  · have ht := h.total
    rw [List.map_cons, sizeOf_cons] at ht
    omega
  · rw [add_framingKeys]
    exact h.distinct
  · rcases List.mem_cons.mp hg with rfl | hg
    · exact hlen
    · exact h.short g hg
  · have ht := h.total
    rw [List.map_cons, sizeOf_cons]
    omega
  · rw [← add_framingKeys]
    exact h.distinct

theorem key_fresh (hkeep : ∀ entry ∈ headers, entry.1 ∈ framingHeaders)
    (h : (headers.any (·.1 = f.key)) = true) : ¬HeadersFit (f :: fields) headers headerBytes := by
  obtain ⟨entry, hentry, hkey⟩ := List.any_eq_true.mp h
  rw [decide_eq_true_eq] at hkey
  intro hfit
  have hmem : f.key ∈ framingKeys (f :: fields) :=
    List.mem_filter.mpr ⟨List.mem_cons_self, decide_eq_true (hkey ▸ hkeep entry hentry)⟩
  exact (List.nodup_append.mp hfit.distinct).2.2 entry.1 (List.mem_map_of_mem hentry) f.key hmem hkey

/-- The header lines are read as long as they fit, and their framing fields are kept in their order. -/
theorem readHeaders_decides (hplain : ∀ f ∈ fields, f.Plain) (hkeep : ∀ entry ∈ headers, entry.1 ∈ framingHeaders)
    (hnodup : (headers.map Prod.fst).Nodup) (hbytes : headerBytes ≤ 32 * 1024)
    (hr : r.remaining = linesOf (fields.map Field.line) ++ CRLF ++ rest) :
    Decides (readHeaders r headers headerBytes) (HeadersFit fields headers headerBytes) fun p =>
      p.1 = headers ++ framingFields fields ∧ p.2.1 = headerBytes + sizeOf (fields.map Field.line) ∧
      p.2.2.remaining = rest := by
  induction fields generalizing r headers headerBytes with
  | nil =>
    obtain ⟨⟨line, r'⟩, hread, rfl, hrest⟩ :=
      (@readLine_decides _ [] _ _ hr (List.not_mem_nil) (le_refl 8192)).ok (by decide)
    rw [readHeaders_line hread, if_pos rfl]
    refine .of_ok ⟨fun _ hf => (nomatch hf), hbytes, ?_⟩ ⟨?_, rfl, hrest⟩
    · rw [show framingKeys [] = [] from rfl, List.append_nil]
      exact hnodup
    · rw [show framingFields [] = [] from rfl, List.append_nil]
  | cons f fields ih =>
    have hf : f.Plain := hplain f List.mem_cons_self
    have hr' : r.remaining = f.line ++ CRLF ++ (linesOf (fields.map Field.line) ++ CRLF ++ rest) := by
      rw [hr, List.map_cons, linesOf_cons]
      simp only [List.append_assoc]
    have hread := readLine_decides hr' hf.oneLine.2 (le_refl 8192)
    by_cases hlen : f.line.length + 2 ≤ 8192
    · obtain ⟨⟨line, r'⟩, hline, rfl, hrest⟩ := hread.ok hlen
      rw [readHeaders_line hline, if_neg f.line_ne_nil, hf.keyOf_line, hf.valueOf_line]
      split
      · rename_i hbad
        refine .of_error ?_
        rcases hbad with hcolon | hlong | hdup
        · exact absurd f.colon_mem hcolon
        · intro hfit
          have ht := hfit.total
          rw [List.map_cons, sizeOf_cons] at ht
          omega
        · exact key_fresh hkeep hdup
      · rename_i hgood
        rw [not_or, not_or, not_lt, Bool.not_eq_true, List.any_eq_false] at hgood
        obtain ⟨-, hbytes', hfresh⟩ := hgood
        have hih := @ih _ (headers.add f) (headerBytes + f.line.length)
          (fun g hg => hplain g (List.mem_cons_of_mem _ hg)) ?_ ?_ hbytes' hrest
        · rw [add_framingFields, Nat.add_assoc, ← sizeOf_cons, ← List.map_cons] at hih
          exact hih.iff (headersFit_cons hlen).symm
        · intro entry hentry
          rw [Headers.add] at hentry
          split at hentry
          · rename_i hkey
            rcases List.mem_append.mp hentry with hentry | hentry
            · exact hkeep entry hentry
            · rw [List.mem_singleton.mp hentry]
              exact hkey
          · exact hkeep entry hentry
        · rw [Headers.add]
          split
          · rw [List.map_append, List.nodup_append]
            refine ⟨hnodup, List.nodup_singleton _, ?_⟩
            intro a ha b hb hab
            obtain ⟨entry, hentry, rfl⟩ := List.mem_map.mp ha
            obtain rfl := List.mem_singleton.mp hb
            exact hfresh entry hentry (decide_eq_true hab)
          · exact hnodup
    · obtain ⟨e, he⟩ := hread.error hlen
      rw [readHeaders_error he]
      exact .of_error fun hfit => hlen (hfit.short f List.mem_cons_self)

end Headers

/-! ### The trailers and the chunks -/

section Chunks

variable {r : Reader UInt8} {headerBytes : ℕ} {body rest : Bytes} {trailers : List Bytes} {c : Chunk}

theorem readTrailers_error {e : ReadError} (h : readLine 8192 r = .error e) : readTrailers r headerBytes = .error e := by
  rw [readTrailers]
  split
  · rename_i e' he
    rw [h] at he
    exact congrArg _ (Except.error.inj he).symm
  · rename_i he
    rw [h] at he
    cases he

theorem readTrailers_line {line : Bytes} {r' : Reader UInt8} (h : readLine 8192 r = .ok (line, r')) :
    readTrailers r headerBytes =
      if line = [] then .ok r'
      else if 32 * 1024 < headerBytes + line.length then .error .invalidHttpHeaders
      else readTrailers r' (headerBytes + line.length) := by
  rw [readTrailers]
  split
  · rename_i he
    rw [h] at he
    cases he
  · rename_i he
    rw [h] at he
    obtain ⟨rfl, rfl⟩ := Prod.mk.inj (Except.ok.inj he)
    rfl

def TrailersFit (trailers : List Bytes) (headerBytes : ℕ) : Prop :=
  (∀ line ∈ trailers, line.length + 2 ≤ 8192) ∧ headerBytes + sizeOf trailers ≤ 32 * 1024

theorem readTrailers_decides (hlines : ∀ line ∈ trailers, line ≠ [] ∧ OneLine line) (hbytes : headerBytes ≤ 32 * 1024)
    (hr : r.remaining = linesOf trailers ++ CRLF ++ rest) :
    Decides (readTrailers r headerBytes) (TrailersFit trailers headerBytes) fun r' => r'.remaining = rest := by
  induction trailers generalizing r headerBytes with
  | nil =>
    obtain ⟨⟨line, r'⟩, hread, rfl, hrest⟩ :=
      (@readLine_decides _ [] _ _ hr (List.not_mem_nil) (le_refl 8192)).ok (by decide)
    rw [readTrailers_line hread, if_pos rfl]
    exact .of_ok ⟨fun _ hl => (nomatch hl), hbytes⟩ hrest
  | cons line trailers ih =>
    obtain ⟨hne, hone⟩ := hlines line List.mem_cons_self
    have hr' : r.remaining = line ++ CRLF ++ (linesOf trailers ++ CRLF ++ rest) := by
      rw [hr, linesOf_cons]
      simp only [List.append_assoc]
    have hread := readLine_decides hr' hone.2 (le_refl 8192)
    by_cases hlen : line.length + 2 ≤ 8192
    · obtain ⟨⟨line', r'⟩, hline, rfl, hrest⟩ := hread.ok hlen
      rw [readTrailers_line hline, if_neg hne]
      split
      · rename_i hlong
        refine .of_error fun hfit => ?_
        have ht := hfit.2
        rw [sizeOf_cons] at ht
        dsimp only at ht
        omega
      · rename_i hlong
        refine (ih (fun l hl => hlines l (List.mem_cons_of_mem _ hl)) (not_lt.mp hlong) hrest).iff ?_
        rw [TrailersFit, TrailersFit, sizeOf_cons, List.forall_mem_cons, Nat.add_assoc]
        exact and_congr_left fun _ => (and_iff_right hlen).symm
    · obtain ⟨e, he⟩ := hread.error hlen
      rw [readTrailers_error he]
      exact .of_error fun hfit => hlen (hfit.1 line List.mem_cons_self)

theorem readChunks_error {e : ReadError} (h : readLine 256 r = .error e) :
    readChunks r body headerBytes = (.error e, []) := by
  rw [readChunks]
  split
  · rename_i e' he
    rw [h] at he
    rw [Except.error.inj he]
  · rename_i he
    rw [h] at he
    cases he

/-- The loop body after the size line. -/
theorem readChunks_line {line : Bytes} {r' : Reader UInt8} (h : readLine 256 r = .ok (line, r')) :
    readChunks r body headerBytes =
      if ¬(line.takeWhile (· ≠ semicolon) ≠ [] ∧ (line.takeWhile (· ≠ semicolon)).all isHexDigit) then
        (.error .invalidHttpChunk, [])
      else if MAX_RESPONSE_BYTES < body.length + number 16 (line.takeWhile (· ≠ semicolon)) then
        (.error .responseTooLarge, [])
      else if number 16 (line.takeWhile (· ≠ semicolon)) = 0 then
        match readTrailers r' headerBytes with
        | .error e => (.error e, [])
        | .ok r₂ => (.ok (body, r₂), [])
      else match readExactly (number 16 (line.takeWhile (· ≠ semicolon))) r' with
        | .error e => (.error e, [])
        | .ok (data, r₂) =>
          match readExactly 2 r₂ with
          | .error e => (.error e, [(body ++ data).length])
          | .ok (lineEnd, r₃) =>
            if lineEnd ≠ CRLF then (.error .invalidHttpChunk, [(body ++ data).length])
            else
              ((readChunks r₃ (body ++ data) headerBytes).1,
                (body ++ data).length :: (readChunks r₃ (body ++ data) headerBytes).2) := by
  rw [readChunks]
  split
  · rename_i he
    rw [h] at he
    cases he
  · rename_i he
    rw [h] at he
    obtain ⟨rfl, rfl⟩ := Prod.mk.inj (Except.ok.inj he)
    refine if_congr Iff.rfl rfl (if_congr Iff.rfl rfl (if_congr Iff.rfl rfl ?_))
    split
    · rename_i hdata
      rw [hdata]
    · rename_i hdata
      rw [hdata]
      dsimp only
      split
      · rename_i hend
        rw [hend]
      · rename_i hend
        rw [hend]

theorem Chunk.Plain.size_line (h : c.Plain) : c.line.takeWhile (· ≠ semicolon) = c.size := by
  have hfree : semicolon ∉ c.size := fun hmem =>
    absurd (List.all_eq_true.mp h.sized.2 semicolon hmem) (by decide)
  rcases h.extended with hnil | hsome
  · rw [Chunk.line, hnil, List.append_nil]
    have hall : ∀ x ∈ c.size, decide (x ≠ semicolon) = true := fun x hx => decide_eq_true fun hs => hfree (hs ▸ hx)
    rw [← List.append_nil c.size, List.takeWhile_append_of_pos hall, List.takeWhile_nil]
  · obtain ⟨rest, hrest⟩ : ∃ rest, c.extension = semicolon :: rest := by
      cases hext : c.extension with
      | nil =>
        rw [hext] at hsome
        cases hsome
      | cons b rest =>
        rw [hext] at hsome
        exact ⟨rest, by rw [Option.some.inj hsome]⟩
    rw [Chunk.line, hrest, Stream.takeWhile_separated hfree]

theorem Chunk.Plain.line_free (h : c.Plain) : LF ∉ c.line := by
  rw [Chunk.line, List.mem_append, not_or]
  exact ⟨fun hmem => absurd (List.all_eq_true.mp h.sized.2 LF hmem) (by decide), h.oneLine.2⟩

/-- The limits that the chunked framing keeps to. -/
structure ChunksFit (chunks : List Chunk) (last : Chunk) (trailers : List Bytes) (body : Bytes) (headerBytes : ℕ) :
    Prop where
  short : ∀ c ∈ chunks, c.line.length + 2 ≤ 256
  lastShort : last.line.length + 2 ≤ 256
  trailers : TrailersFit trailers headerBytes
  total : body.length + (chunks.flatMap Chunk.data).length ≤ MAX_RESPONSE_BYTES

variable {chunks : List Chunk} {last : Chunk}

theorem chunksFit_cons (hlen : c.line.length + 2 ≤ 256) : ChunksFit (c :: chunks) last trailers body headerBytes ↔
    ChunksFit chunks last trailers (body ++ c.data) headerBytes := by
  refine ⟨fun h => ⟨fun d hd => h.short d (List.mem_cons_of_mem _ hd), h.lastShort, h.trailers, ?_⟩,
    fun h => ⟨List.forall_mem_cons.mpr ⟨hlen, h.short⟩, h.lastShort, h.trailers, ?_⟩⟩
  · have ht := h.total
    rw [List.flatMap_cons, List.length_append] at ht
    rw [List.length_append]
    omega
  · have ht := h.total
    rw [List.length_append] at ht
    rw [List.flatMap_cons, List.length_append]
    omega

/-- The chunks are joined as long as they fit. -/
theorem readChunks_decides (hchunks : ∀ c ∈ chunks, c.Plain ∧ c.data ≠ []) (hlast : last.Plain)
    (hempty : last.data = []) (htrailers : ∀ line ∈ trailers, line ≠ [] ∧ OneLine line)
    (hbytes : headerBytes ≤ 32 * 1024) (hbody : body.length ≤ MAX_RESPONSE_BYTES)
    (hr : r.remaining = chunks.flatMap Chunk.bytes ++ (last.line ++ CRLF) ++ linesOf trailers ++ CRLF ++ rest) :
    Decides (readChunks r body headerBytes).1 (ChunksFit chunks last trailers body headerBytes) fun p =>
      p.1 = body ++ chunks.flatMap Chunk.data ∧ p.2.remaining = rest := by
  induction chunks generalizing r body with
  | nil =>
    have hr' : r.remaining = last.line ++ CRLF ++ (linesOf trailers ++ CRLF ++ rest) := by
      rw [hr, List.flatMap_nil, List.nil_append]
      simp only [List.append_assoc]
    have hread := @readLine_decides _ _ _ 256 hr' hlast.line_free (by decide)
    by_cases hlen : last.line.length + 2 ≤ 256
    · obtain ⟨⟨line, r'⟩, hline, rfl, hrest⟩ := hread.ok hlen
      have hzero : number 16 last.size = 0 := by rw [hlast.counted, hempty, List.length_nil]
      rw [readChunks_line hline, hlast.size_line, if_neg (not_not.mpr hlast.sized), hzero, if_neg (by omega),
        if_pos rfl]
      have htr := @readTrailers_decides _ headerBytes _ _ htrailers hbytes hrest
      by_cases hfit : TrailersFit trailers headerBytes
      · obtain ⟨r₂, hr₂, hrest₂⟩ := htr.ok hfit
        rw [hr₂]
        refine .of_ok ⟨fun _ hc => (nomatch hc), hlen, hfit, hbody⟩ ⟨?_, hrest₂⟩
        rw [List.flatMap_nil, List.append_nil]
      · obtain ⟨e, he⟩ := htr.error hfit
        rw [he]
        exact .of_error fun h => hfit h.trailers
    · obtain ⟨e, he⟩ := hread.error hlen
      rw [readChunks_error he]
      exact .of_error fun h => hlen h.lastShort
  | cons c chunks ih =>
    obtain ⟨hc, hne⟩ := hchunks c List.mem_cons_self
    have hr' : r.remaining = c.line ++ CRLF ++ (c.data ++ (CRLF ++
        (chunks.flatMap Chunk.bytes ++ (last.line ++ CRLF) ++ linesOf trailers ++ CRLF ++ rest))) := by
      rw [hr, List.flatMap_cons, Chunk.bytes]
      simp only [List.append_assoc]
    have hread := @readLine_decides _ _ _ 256 hr' hc.line_free (by decide)
    by_cases hlen : c.line.length + 2 ≤ 256
    · obtain ⟨⟨line, r'⟩, hline, rfl, hrest⟩ := hread.ok hlen
      rw [readChunks_line hline, hc.size_line, if_neg (not_not.mpr hc.sized), hc.counted]
      by_cases hsize : MAX_RESPONSE_BYTES < body.length + c.data.length
      · rw [if_pos hsize]
        refine .of_error fun h => ?_
        have ht := h.total
        rw [List.flatMap_cons, List.length_append] at ht
        omega
      · have hpos : c.data.length ≠ 0 := fun h => hne (List.length_eq_zero_iff.mp h)
        obtain ⟨r₂, hr₂, hrest₂⟩ := readExactly_eq hrest
        obtain ⟨r₃, hr₃, hrest₃⟩ := readExactly_eq hrest₂
        rw [show CRLF.length = 2 from rfl] at hr₃
        rw [if_neg hsize, if_neg hpos, hr₂]
        dsimp only
        rw [hr₃]
        dsimp only
        rw [if_neg (not_not.mpr rfl)]
        have hih := @ih _ (body ++ c.data) (fun d hd => hchunks d (List.mem_cons_of_mem _ hd))
          (by rw [List.length_append]; omega) hrest₃
        rw [List.append_assoc, ← List.flatMap_cons] at hih
        exact hih.iff (chunksFit_cons hlen).symm
    · obtain ⟨e, he⟩ := hread.error hlen
      rw [readChunks_error he]
      exact .of_error fun h => hlen (h.short c List.mem_cons_self)

end Chunks

/-! ### The end of the stream -/

section UntilClose

variable {r : Reader UInt8} {body : Bytes}

theorem readUntilClose_read {chunk : Bytes} {r' : Reader UInt8}
    (h : Stream.read (nextSize body) r.buffer r.segments = (chunk, r')) : readUntilClose r body =
      if chunk = [] then (.ok (body, r'), [])
      else if MAX_RESPONSE_BYTES < (body ++ chunk).length then (.error .responseTooLarge, [(body ++ chunk).length])
      else ((readUntilClose r' (body ++ chunk)).1, (body ++ chunk).length :: (readUntilClose r' (body ++ chunk)).2) := by
  rw [readUntilClose]
  split
  rename_i he
  rw [h] at he
  obtain ⟨rfl, rfl⟩ := Prod.mk.inj he
  rfl

theorem readUntilClose_decides (hbody : body.length ≤ MAX_RESPONSE_BYTES) :
    Decides (readUntilClose r body).1 (body.length + r.remaining.length ≤ MAX_RESPONSE_BYTES) fun p =>
      p.1 = body ++ r.remaining ∧ p.2.remaining = [] := by
  -- by induction on what is left of the stream: every read but the last takes something
  induction hn : r.remaining.length using Nat.strong_induction_on generalizing r body with
  | _ n ih =>
    obtain ⟨hall, hlen, hend⟩ := @Stream.read_spec _ (nextSize body) r.buffer r.segments
    rcases hread : Stream.read (nextSize body) r.buffer r.segments with ⟨chunk, r'⟩
    rw [hread] at hall hlen hend
    have hrem : r.remaining = chunk ++ r'.remaining := hall
    rw [readUntilClose_read hread]
    have hpos : 0 < nextSize body := by
      rw [nextSize]
      omega
    split
    · rename_i hnil
      have hempty : r.remaining = [] := by rw [hrem, hnil, hend hpos hnil, List.append_nil]
      rw [← hn, hempty]
      exact .of_ok hbody ⟨(List.append_nil body).symm, hend hpos hnil⟩
    · rename_i hne
      have hchunk : 0 < chunk.length := List.length_pos_of_ne_nil hne
      have hsize : n = chunk.length + r'.remaining.length := by rw [← hn, hrem, List.length_append]
      split
      · rename_i hlarge
        rw [List.length_append] at hlarge
        exact .of_error (by omega)
      · rename_i hsmall
        rw [not_lt] at hsmall
        have hih := ih r'.remaining.length (by omega) hsmall rfl
        rw [List.append_assoc, ← hrem, List.length_append] at hih
        exact hih.iff (by omega)

end UntilClose

/-! ### The body and the message -/

section Message

variable {headers : Headers} {key content : Bytes} {resp : Response} {headerBytes : ℕ} {r : Reader UInt8} {rest : Bytes}

theorem get?_eq_none (h : ∀ entry ∈ headers, entry.1 ≠ key) : headers.get? key = none := by
  rw [Headers.get?, Option.map_eq_none_iff, List.find?_eq_none]
  exact fun entry hentry => by simpa using h entry hentry

theorem get?_isSome (h : (key, content) ∈ headers) : (headers.get? key).isSome = true := by
  rw [Headers.get?, Option.isSome_map, List.find?_isSome]
  exact ⟨_, h, decide_eq_true rfl⟩

/-- An entry whose key is not repeated is what is found. -/
theorem get?_of_mem (hnodup : (headers.map Prod.fst).Nodup) (h : (key, content) ∈ headers) :
    headers.get? key = some content := by
  obtain ⟨entry, hentry⟩ := Option.isSome_iff_exists.mp (by
    rw [List.find?_isSome]
    exact ⟨_, h, decide_eq_true rfl⟩ : (headers.find? fun entry => entry.1 = key).isSome = true)
  have hkey : entry.1 = key := by simpa using List.find?_some hentry
  have heq : entry = (key, content) :=
    List.inj_on_of_nodup_map hnodup (List.mem_of_find?_eq_some hentry) h hkey
  rw [Headers.get?, hentry, heq]
  rfl

theorem map_framingFields (fields : List Field) : (framingFields fields).map Prod.fst = framingKeys fields := by
  rw [framingFields, framingKeys, List.map_map, List.filter_map]
  rfl

theorem mem_framingFields {f : Field} {fields : List Field} (hf : f ∈ fields) (hkey : f.key ∈ framingHeaders) :
    (f.key, f.content) ∈ framingFields fields :=
  List.mem_map.mpr ⟨f, List.mem_filter.mpr ⟨hf, decide_eq_true hkey⟩, rfl⟩

theorem get?_framingFields_none {fields : List Field} (h : ∀ f ∈ fields, f.key ≠ key) :
    (framingFields fields).get? key = none := by
  refine get?_eq_none fun entry hentry => ?_
  obtain ⟨f, hf, rfl⟩ := List.mem_map.mp hentry
  exact h f (List.mem_filter.mp hf).1

theorem get?_framingFields {f : Field} {fields : List Field} (hnodup : (framingKeys fields).Nodup) (hf : f ∈ fields)
    (hkey : f.key ∈ framingHeaders) : (framingFields fields).get? f.key = some f.content :=
  get?_of_mem (by rwa [map_framingFields]) (mem_framingFields hf hkey)

theorem IsSuccess.statusCode {status : Bytes} (h : IsSuccess status) : statusCode status = some (ascii "200") := by
  obtain ⟨minor, reason, hstatus, hminor, hhead, hone⟩ := h
  have hversion : ascii "HTTP/1." = [72, 84, 84, 80, 47, 49, 46] := by decide
  have hcode : ascii " 200" = [32, 50, 48, 48] := by decide
  have hrest : reason = [] ∨ reason.head? = some 32 ∧ CR ∉ reason ∧ LF ∉ reason := hhead.imp_right fun hh => ⟨hh, hone⟩
  have hplain : status = ascii "HTTP/1." ++ (minor :: 32 :: 50 :: 48 :: 48 :: reason) := by
    rw [hstatus, hcode]
    simp
  have hdrop : status.drop 7 = minor :: 32 :: 50 :: 48 :: 48 :: reason := by
    rw [hplain, hversion]
    rfl
  rw [Metrics.statusCode, if_pos (hplain ▸ List.prefix_append _ _), hdrop]
  dsimp only
  rw [if_pos ⟨hminor, rfl, by decide, by decide, by decide, hrest⟩]
  decide

theorem IsSuccess.free {status : Bytes} (h : IsSuccess status) : LF ∉ status := by
  obtain ⟨minor, reason, hstatus, hminor, -, hone⟩ := h
  rw [hstatus, List.mem_append, List.mem_append, List.mem_cons, not_or, not_or, not_or]
  refine ⟨⟨by decide, ?_, by decide⟩, hone.2⟩
  rcases hminor with rfl | rfl <;> decide

/-- The encoding is the identity, whether it is said or not. -/
theorem Response.WellFormed.identity (h : resp.WellFormed) :
    ((framingFields resp.fields).get? contentEncoding).getD (ascii "identity") = ascii "identity" := by
  by_cases hex : ∃ f ∈ resp.fields, f.key = contentEncoding
  · obtain ⟨f, hf, hkey⟩ := hex
    have hget := get?_framingFields h.unrepeated hf (by rw [hkey]; decide)
    rw [hkey, h.encoding f hf hkey] at hget
    rw [hget]
    rfl
  · rw [get?_framingFields_none fun f hf hkey => hex ⟨f, hf, hkey⟩]
    rfl

/-- The limits that the body keeps to, after `headerBytes` bytes of the head. -/
def Response.BodyFits (resp : Response) (headerBytes : ℕ) : Prop :=
  match resp.framing with
  | .length => (∀ f ∈ resp.fields, f.key = contentLength → f.content.length ≤ intMaxStrDigits) ∧
      resp.body.length ≤ MAX_RESPONSE_BYTES
  | .chunked chunks last trailers => ChunksFit chunks last trailers [] headerBytes
  | .untilClose => resp.body.length ≤ MAX_RESPONSE_BYTES

theorem readBody_decides (h : resp.WellFormed) (hbytes : headerBytes ≤ 32 * 1024)
    (hclose : resp.framing = .untilClose → rest = [])
    (hr : r.remaining = resp.framing.payload resp.body ++ rest) :
    Decides (readBody (framingFields resp.fields) headerBytes r).1 (resp.BodyFits headerBytes) fun p =>
      p.1 = resp.body ∧ p.2.remaining = rest := by
  have hframing := h.framing
  rw [readBody, if_neg (not_not.mpr h.identity)]
  rcases hf : resp.framing with - | ⟨chunks, last, trailers⟩ | -
  · rw [hf] at hframing hr
    obtain ⟨hno, f, hmem, hkey, hne, hdigits, hnumber⟩ := hframing
    have hget := get?_framingFields h.unrepeated hmem (by rw [hkey]; decide)
    rw [hkey] at hget
    rw [get?_framingFields_none hno, if_neg (by decide), if_neg (by decide), hget]
    dsimp only
    rw [if_neg (not_not.mpr ⟨hne, hdigits⟩), intOf]
    have hsame : ∀ g ∈ resp.fields, g.key = contentLength → g.content = f.content := fun g hg hgkey => by
      have hgget := get?_framingFields h.unrepeated hg (by rw [hgkey]; decide)
      rw [hgkey, hget] at hgget
      exact (Option.some.inj hgget).symm
    rw [Response.BodyFits, hf]
    dsimp only
    by_cases hlong : intMaxStrDigits < f.content.length
    · rw [if_pos hlong]
      exact .of_error fun hfit => absurd (hfit.1 f hmem hkey) (not_le.mpr hlong)
    · rw [if_neg hlong, hnumber]
      dsimp only
      by_cases hlarge : MAX_RESPONSE_BYTES < resp.body.length
      · rw [if_pos hlarge]
        exact .of_error fun hfit => absurd hfit.2 (not_le.mpr hlarge)
      · obtain ⟨r', hread, hrest⟩ := @readExactly_eq _ _ resp.body hr
        rw [if_neg hlarge, hread]
        exact .of_ok ⟨fun g hg hgkey => by rw [hsame g hg hgkey]; omega, by omega⟩ ⟨rfl, hrest⟩
  · rw [hf] at hframing hr
    obtain ⟨hno, ⟨f, hmem, hkey, hcontent⟩, hchunks, hlast, hempty, htrailers, hbody⟩ := hframing
    have hget := get?_framingFields h.unrepeated hmem (by rw [hkey]; decide)
    rw [hkey, hcontent] at hget
    rw [hget, if_pos rfl, get?_framingFields_none hno, if_neg (by decide), Response.BodyFits, hf, hbody]
    exact readChunks_decides hchunks hlast hempty htrailers hbytes (Nat.zero_le _) hr
  · rw [hf] at hframing hr
    rw [get?_framingFields_none fun f hmem => (hframing f hmem).2, if_neg (by decide), if_neg (by decide),
      get?_framingFields_none fun f hmem => (hframing f hmem).1, Response.BodyFits, hf]
    dsimp only
    have hall : r.remaining = resp.body := by
      rw [hr, hclose hf, List.append_nil]
      rfl
    have hread := @readUntilClose_decides r [] (Nat.zero_le _)
    rw [hall, List.length_nil, Nat.zero_add] at hread
    rw [hclose hf]
    exact hread

/-- The limits of the reader. -/
structure Response.Fits (resp : Response) : Prop where
  statusShort : resp.status.length + 2 ≤ 8192
  headers : HeadersFit resp.fields [] resp.status.length
  body : resp.BodyFits (resp.status.length + sizeOf (resp.fields.map Field.line))

theorem readMessage_decides (h : resp.WellFormed) (hclose : resp.framing = .untilClose → rest = [])
    (hr : r.remaining = resp.bytes ++ rest) :
    Decides (readMessage r).1 resp.Fits fun p => p.1 = resp.body ∧ p.2.remaining = rest := by
  have hr' : r.remaining = resp.status ++ CRLF ++
      (linesOf (resp.fields.map Field.line) ++ CRLF ++ (resp.framing.payload resp.body ++ rest)) := by
    rw [hr, Response.bytes, headOf]
    simp only [List.append_assoc]
  have hread := readLine_decides hr' h.status.free (le_refl 8192)
  rw [readMessage]
  by_cases hlen : resp.status.length + 2 ≤ 8192
  · obtain ⟨⟨status, r₁⟩, hline, rfl, hrest₁⟩ := hread.ok hlen
    rw [hline]
    dsimp only
    rw [h.status.statusCode]
    dsimp only
    rw [if_neg (not_not.mpr rfl)]
    have hheaders := @readHeaders_decides _ _ [] resp.status.length _ h.fields (fun _ he => (nomatch he)) List.nodup_nil (by omega) hrest₁
    by_cases hfit : HeadersFit resp.fields [] resp.status.length
    · obtain ⟨⟨headers, headerBytes, r₂⟩, hok, rfl, rfl, hrest₂⟩ := hheaders.ok hfit
      rw [hok]
      dsimp only
      rw [List.nil_append]
      exact (readBody_decides h hfit.total hclose hrest₂).iff ⟨fun hb => ⟨hlen, hfit, hb⟩, Response.Fits.body⟩
    · obtain ⟨e, he⟩ := hheaders.error hfit
      rw [he]
      exact .of_error fun hf => hfit hf.headers
  · obtain ⟨e, he⟩ := hread.error hlen
    rw [he]
    exact .of_error fun hf => hlen hf.statusShort

end Message

/-! ### More of the stream -/

section Extend

variable {r r₁ r₂ : Reader UInt8} {ext : Bytes}

theorem readLine_extend {maximum : ℕ} {line : Bytes} (h : readLine maximum r = .ok (line, r₁)) (hmax : maximum ≤ 8192)
    (hr : r₂.remaining = r.remaining ++ ext) :
    ∃ r₃, readLine maximum r₂ = .ok (line, r₃) ∧ r₃.remaining = r₁.remaining ++ ext := by
  obtain ⟨hall, hfree, hlen⟩ := readLine_ok h
  rw [hall, List.append_assoc] at hr
  obtain ⟨⟨line', r₃⟩, hread, rfl, hrest⟩ := (readLine_decides hr hfree hmax).ok hlen
  exact ⟨r₃, hread, hrest⟩

theorem readExactly_extend {n : ℕ} {data : Bytes} (h : readExactly n r = .ok (data, r₁))
    (hr : r₂.remaining = r.remaining ++ ext) :
    ∃ r₃, readExactly n r₂ = .ok (data, r₃) ∧ r₃.remaining = r₁.remaining ++ ext := by
  obtain ⟨hall, rfl⟩ := readExactly_ok h
  rw [hall, List.append_assoc] at hr
  exact readExactly_eq hr

theorem readHeaders_extend {headers headers' : Headers} {headerBytes headerBytes' : ℕ}
    (h : readHeaders r headers headerBytes = .ok (headers', headerBytes', r₁))
    (hr : r₂.remaining = r.remaining ++ ext) :
    ∃ r₃, readHeaders r₂ headers headerBytes = .ok (headers', headerBytes', r₃) ∧
      r₃.remaining = r₁.remaining ++ ext := by
  induction hn : r.remaining.length using Nat.strong_induction_on generalizing r r₂ headers headerBytes with
  | _ n ih =>
    rcases hline : readLine 8192 r with e | ⟨line, r'⟩
    · rw [readHeaders_error hline] at h
      cases h
    · obtain ⟨r₂', hline₂, hr'⟩ := readLine_extend hline (le_refl 8192) hr
      rw [readHeaders_line hline] at h
      rw [readHeaders_line hline₂]
      split at h
      · rename_i hnil
        cases h
        rw [if_pos hnil]
        exact ⟨r₂', rfl, hr'⟩
      · rename_i hne
        rw [if_neg hne]
        split at h
        · cases h
        · rename_i hgood
          rw [if_neg hgood]
          exact ih _ (hn ▸ readLine_lt hline) h hr' rfl

theorem readTrailers_extend {headerBytes : ℕ} (h : readTrailers r headerBytes = .ok r₁)
    (hr : r₂.remaining = r.remaining ++ ext) :
    ∃ r₃, readTrailers r₂ headerBytes = .ok r₃ ∧ r₃.remaining = r₁.remaining ++ ext := by
  induction hn : r.remaining.length using Nat.strong_induction_on generalizing r r₂ headerBytes with
  | _ n ih =>
    rcases hline : readLine 8192 r with e | ⟨line, r'⟩
    · rw [readTrailers_error hline] at h
      cases h
    · obtain ⟨r₂', hline₂, hr'⟩ := readLine_extend hline (le_refl 8192) hr
      rw [readTrailers_line hline] at h
      rw [readTrailers_line hline₂]
      split at h
      · rename_i hnil
        cases h
        rw [if_pos hnil]
        exact ⟨r₂', rfl, hr'⟩
      · rename_i hne
        rw [if_neg hne]
        split at h
        · cases h
        · rename_i hgood
          rw [if_neg hgood]
          exact ih _ (hn ▸ readLine_lt hline) h hr' rfl

theorem readChunks_extend {body body' : Bytes} {headerBytes : ℕ}
    (h : (readChunks r body headerBytes).1 = .ok (body', r₁)) (hr : r₂.remaining = r.remaining ++ ext) :
    ∃ r₃, (readChunks r₂ body headerBytes).1 = .ok (body', r₃) ∧ r₃.remaining = r₁.remaining ++ ext := by
  induction hn : r.remaining.length using Nat.strong_induction_on generalizing r r₂ body with
  | _ n ih =>
    rcases hline : readLine 256 r with e | ⟨line, r'⟩
    · rw [readChunks_error hline] at h
      cases h
    · obtain ⟨r₂', hline₂, hr'⟩ := readLine_extend hline (by decide) hr
      rw [readChunks_line hline] at h
      rw [readChunks_line hline₂]
      split at h
      · cases h
      · rename_i hsized
        rw [if_neg hsized]
        split at h
        · cases h
        · rename_i hsmall
          rw [if_neg hsmall]
          split at h
          · rename_i hzero
            rw [if_pos hzero]
            rcases htr : readTrailers r' headerBytes with e | r''
            · rw [htr] at h
              cases h
            · rw [htr] at h
              cases h
              obtain ⟨r₃, hr₃, hrest⟩ := readTrailers_extend htr hr'
              rw [hr₃]
              exact ⟨r₃, rfl, hrest⟩
          · rename_i hpos
            rw [if_neg hpos]
            rcases hdata : readExactly (number 16 (line.takeWhile (· ≠ semicolon))) r' with e | ⟨data, ra⟩
            · rw [hdata] at h
              cases h
            · rw [hdata] at h
              obtain ⟨ra', hdata₂, hra⟩ := readExactly_extend hdata hr'
              rw [hdata₂]
              dsimp only at h ⊢
              rcases hend : readExactly 2 ra with e | ⟨lineEnd, rb⟩
              · rw [hend] at h
                cases h
              · rw [hend] at h
                obtain ⟨rb', hend₂, hrb⟩ := readExactly_extend hend hra
                rw [hend₂]
                dsimp only at h ⊢
                split at h
                · cases h
                · rename_i hcrlf
                  rw [if_neg hcrlf]
                  have hlt : rb.remaining.length < n := by
                    have hlt := readLine_lt hline
                    rw [(readExactly_ok hdata).1, List.length_append, (readExactly_ok hend).1, List.length_append] at hlt
                    omega
                  exact ih _ hlt h hrb rfl

/-- A body in a declared framing does not depend on what follows it. -/
theorem readBody_extend {headers : Headers} {headerBytes : ℕ} {body : Bytes}
    (hdeclared : (headers.get? transferEncoding).isSome = true ∨ (headers.get? contentLength).isSome = true)
    (h : (readBody headers headerBytes r).1 = .ok (body, r₁)) (hr : r₂.remaining = r.remaining ++ ext) :
    ∃ r₃, (readBody headers headerBytes r₂).1 = .ok (body, r₃) ∧ r₃.remaining = r₁.remaining ++ ext := by
  rw [readBody] at h ⊢
  split at h
  · cases h
  · rename_i henc
    rw [if_neg henc]
    split at h
    · rename_i hchunked
      rw [if_pos hchunked]
      split at h
      · cases h
      · rename_i hno
        rw [if_neg hno]
        exact readChunks_extend h hr
    · rename_i hchunked
      rw [if_neg hchunked]
      split at h
      · cases h
      · rename_i hno
        rw [if_neg hno]
        rcases hlen : headers.get? contentLength with - | length
        · rw [hlen] at hdeclared
          exact absurd (hdeclared.resolve_right (by decide)) hno
        · rw [hlen] at h
          dsimp only at h ⊢
          split at h
          · cases h
          · rename_i hdigits
            rw [if_neg hdigits]
            rcases hint : intOf length with e | size
            · rw [hint] at h
              cases h
            · rw [hint] at h
              dsimp only at h ⊢
              split at h
              · cases h
              · rename_i hsmall
                rw [if_neg hsmall]
                rcases hread : readExactly size r with e | ⟨data, r'⟩
                · rw [hread] at h
                  cases h
                · rw [hread] at h
                  cases h
                  obtain ⟨r₃, hread₂, hrest⟩ := readExactly_extend hread hr
                  rw [hread₂]
                  exact ⟨r₃, rfl, hrest⟩

end Extend

/-! ### The body buffer -/

section Lengths

variable {r : Reader UInt8} {body : Bytes}

theorem readChunks_lengths {headerBytes : ℕ} : ∀ n ∈ (readChunks r body headerBytes).2, n ≤ MAX_RESPONSE_BYTES := by
  induction hn : r.remaining.length using Nat.strong_induction_on generalizing r body with
  | _ n ih =>
    rcases hline : readLine 256 r with e | ⟨line, r'⟩
    · rw [readChunks_error hline]
      exact fun _ hm => (nomatch hm)
    · rw [readChunks_line hline]
      split
      · exact fun _ hm => (nomatch hm)
      · split
        · exact fun _ hm => (nomatch hm)
        · rename_i hsmall
          split
          · split <;> exact fun _ hm => (nomatch hm)
          · rcases hdata : readExactly (number 16 (line.takeWhile (· ≠ semicolon))) r' with e | ⟨data, ra⟩
            · exact fun _ hm => (nomatch hm)
            · have hlen : (body ++ data).length ≤ MAX_RESPONSE_BYTES := by
                rw [List.length_append, (readExactly_ok hdata).2]
                omega
              dsimp only
              rcases hend : readExactly 2 ra with e | ⟨lineEnd, rb⟩
              · exact fun m hm => (List.mem_singleton.mp hm).le.trans hlen
              · dsimp only
                split
                · exact fun m hm => (List.mem_singleton.mp hm).le.trans hlen
                · have hlt : rb.remaining.length < n := by
                    have hlt := readLine_lt hline
                    rw [(readExactly_ok hdata).1, List.length_append, (readExactly_ok hend).1, List.length_append] at hlt
                    omega
                  exact List.forall_mem_cons.mpr ⟨hlen, ih _ hlt rfl⟩

theorem readUntilClose_lengths (hbody : body.length ≤ MAX_RESPONSE_BYTES) :
    ∀ n ∈ (readUntilClose r body).2, n ≤ MAX_RESPONSE_BYTES + 1 := by
  induction hn : r.remaining.length using Nat.strong_induction_on generalizing r body with
  | _ n ih =>
    obtain ⟨hall, hlen, -⟩ := @Stream.read_spec _ (nextSize body) r.buffer r.segments
    rcases hread : Stream.read (nextSize body) r.buffer r.segments with ⟨chunk, r'⟩
    rw [hread] at hall hlen
    have hgrown : (body ++ chunk).length ≤ MAX_RESPONSE_BYTES + 1 := by
      rw [nextSize] at hlen
      rw [List.length_append]
      dsimp only at hlen
      omega
    rw [readUntilClose_read hread]
    split
    · exact fun _ hm => (nomatch hm)
    · rename_i hne
      split
      · exact fun m hm => (List.mem_singleton.mp hm).le.trans hgrown
      · rename_i hsmall
        have hchunk : 0 < chunk.length := List.length_pos_of_ne_nil hne
        have hsize : n = chunk.length + r'.remaining.length := by
          rw [← hn, show r.remaining = chunk ++ r'.remaining from hall, List.length_append]
        exact List.forall_mem_cons.mpr ⟨hgrown, ih _ (by omega) (not_lt.mp hsmall) rfl⟩

theorem readBody_lengths {headers : Headers} {headerBytes : ℕ} :
    ∀ n ∈ (readBody headers headerBytes r).2, n ≤ MAX_RESPONSE_BYTES + 1 := by
  rw [readBody]
  split
  · exact fun _ hm => (nomatch hm)
  · split
    · split
      · exact fun _ hm => (nomatch hm)
      · exact fun n hm => (readChunks_lengths n hm).trans (Nat.le_succ _)
    · split
      · exact fun _ hm => (nomatch hm)
      · split
        · split
          · exact fun _ hm => (nomatch hm)
          · split
            · exact fun _ hm => (nomatch hm)
            · split
              · exact fun _ hm => (nomatch hm)
              · rename_i size _ hsmall
                split
                · exact fun _ hm => (nomatch hm)
                · rename_i hread
                  intro m hm
                  rw [List.mem_singleton.mp hm, (readExactly_ok hread).2]
                  omega
        · exact readUntilClose_lengths (Nat.zero_le _)

theorem readMessage_lengths : ∀ n ∈ (readMessage r).2, n ≤ MAX_RESPONSE_BYTES + 1 := by
  rw [readMessage]
  split
  · exact fun _ hm => (nomatch hm)
  · split
    · exact fun _ hm => (nomatch hm)
    · split
      · exact fun _ hm => (nomatch hm)
      · split
        · exact fun _ hm => (nomatch hm)
        · exact readBody_lengths

end Lengths

/-! ### What is returned and what is raised -/

section Exactness

variable {resp : Response} {r : Reader UInt8} {rest : Bytes}

def Framing.trailers : Framing → List Bytes
  | .chunked _ _ trailers => trailers
  | _ => []

/-- The lines that say the sizes of the chunks. -/
def Framing.sizeLines : Framing → List Bytes
  | .chunked chunks last _ => last.line :: chunks.map Chunk.line
  | _ => []

/-- The limits on lines: those of the head and the trailers count together, without their line ends. -/
structure Response.Limited (resp : Response) : Prop where
  statusShort : resp.status.length + 2 ≤ 8192
  fieldsShort : ∀ f ∈ resp.fields, f.line.length + 2 ≤ 8192
  trailersShort : ∀ line ∈ resp.framing.trailers, line.length + 2 ≤ 8192
  total : resp.status.length + sizeOf (resp.fields.map Field.line) + sizeOf resp.framing.trailers ≤ 32 * 1024
  sizesShort : ∀ line ∈ resp.framing.sizeLines, line.length + 2 ≤ 256
  numberShort : ∀ f ∈ resp.fields, f.key = contentLength → f.content.length ≤ intMaxStrDigits

theorem Response.Limited.fits (h : resp.Limited) (hw : resp.WellFormed) (hbody : resp.body.length ≤ MAX_RESPONSE_BYTES) :
    resp.Fits := by
  have htotal := h.total
  refine ⟨h.statusShort, ⟨h.fieldsShort, by omega, hw.unrepeated⟩, ?_⟩
  have hframing := hw.framing
  have htrailers := h.trailersShort
  have hsizes := h.sizesShort
  rw [Response.BodyFits]
  split
  · exact ⟨h.numberShort, hbody⟩
  · rename_i chunks last trailers hf
    rw [hf] at htrailers hsizes htotal hframing
    obtain ⟨-, -, -, -, -, -, hdata⟩ := hframing
    obtain ⟨hlast, hchunks⟩ := List.forall_mem_cons.mp hsizes
    refine ⟨fun c hc => hchunks _ (List.mem_map_of_mem hc), hlast, ⟨htrailers, htotal⟩, ?_⟩
    rw [List.length_nil, Nat.zero_add, ← hdata]
    exact hbody
  · exact hbody

theorem Response.Fits.body_le (h : resp.Fits) (hw : resp.WellFormed) : resp.body.length ≤ MAX_RESPONSE_BYTES := by
  have hbody := h.body
  have hframing := hw.framing
  rw [Response.BodyFits] at hbody
  split at hbody
  · exact hbody.2
  · rename_i hf
    rw [hf] at hframing
    have htotal := hbody.total
    rw [List.length_nil, Nat.zero_add, ← hframing.2.2.2.2.2.2] at htotal
    exact htotal
  · exact hbody

/-- The call raises. -/
def Raises {α : Type*} (reading : Except ReadError α × List ℕ) : Prop := ∃ e, reading.1 = .error e

theorem readResponse_error {α : Type*} {loads : Bytes → Option α} {e : ReadError} (h : (readMessage r).1 = .error e) :
    Raises (readResponse loads r) := by
  rcases hm : readMessage r with ⟨result, lengths⟩
  rw [hm] at h
  dsimp only at h
  subst h
  exact ⟨e, by rw [readResponse, hm]⟩

theorem readMessage_both {status : Bytes} {fields : List Field} (hstatus : IsSuccess status)
    (hplain : ∀ f ∈ fields, f.Plain) (hlength : ∃ f ∈ fields, f.key = contentLength)
    (hencoding : ∃ f ∈ fields, f.key = transferEncoding) (hr : r.remaining = headOf status fields ++ rest) :
    ∃ e, (readMessage r).1 = .error e := by
  have hr' : r.remaining = status ++ CRLF ++ (linesOf (fields.map Field.line) ++ CRLF ++ rest) := by
    rw [hr, headOf]
    simp only [List.append_assoc]
  rw [readMessage]
  rcases hline : readLine 8192 r with e | ⟨line, r₁⟩
  · exact ⟨e, rfl⟩
  · obtain ⟨hlen, hval, hrest₁⟩ := (readLine_decides hr' hstatus.free (le_refl 8192)).value hline
    dsimp only at hval hrest₁ ⊢
    subst hval
    rw [hstatus.statusCode]
    dsimp only
    rw [if_neg (not_not.mpr rfl)]
    rcases hheaders : readHeaders r₁ [] line.length with e | ⟨headers, headerBytes, r₂⟩
    · exact ⟨e, rfl⟩
    · obtain ⟨-, hval, -, -⟩ := (@readHeaders_decides _ _ [] line.length _ hplain (fun _ he => (nomatch he)) List.nodup_nil (by omega) hrest₁).value hheaders
      dsimp only at hval ⊢
      rw [List.nil_append] at hval
      subst hval
      obtain ⟨f, hf, hfkey⟩ := hlength
      obtain ⟨g, hg, hgkey⟩ := hencoding
      have hfget := get?_isSome (mem_framingFields hf (by rw [hfkey]; decide))
      have hgget := get?_isSome (mem_framingFields hg (by rw [hgkey]; decide))
      rw [hfkey] at hfget
      rw [hgkey] at hgget
      rw [readBody, if_pos hfget, if_pos hgget]
      split
      · exact ⟨_, rfl⟩
      · split <;> exact ⟨_, rfl⟩

/-- A response that is cut off before the end of its declared framing. -/
theorem readMessage_truncated {ext : Bytes} (hw : resp.WellFormed) (hdeclared : resp.framing ≠ .untilClose)
    (hext : ext ≠ []) (hr : resp.bytes = r.remaining ++ ext) : ∃ e, (readMessage r).1 = .error e := by
  rcases hm : (readMessage r).1 with e | ⟨body, r'⟩
  · exact ⟨e, rfl⟩
  · -- with the rest of the response the reader would go on from where it stopped, and yet reach the end
    have hfull : Reader.remaining ⟨r.remaining ++ ext, []⟩ = r.remaining ++ ext := by
      rw [Stream.remaining_mk, List.flatten_nil, List.append_nil]
    have hbytes : Reader.remaining ⟨r.remaining ++ ext, []⟩ = resp.bytes ++ [] := by
      rw [hfull, ← hr, List.append_nil]
    have hsplit : Reader.remaining ⟨r.remaining ++ ext, []⟩ = resp.status ++ CRLF ++
        (linesOf (resp.fields.map Field.line) ++ CRLF ++ resp.framing.payload resp.body) := by
      rw [hbytes, Response.bytes, headOf]
      simp only [List.append_assoc, List.append_nil]
    have hwhole := @readMessage_decides _ _ [] hw (fun _ => rfl) hbytes
    rw [readMessage] at hm hwhole
    rcases hline : readLine 8192 r with e | ⟨line, r₁⟩
    · rw [hline] at hm
      cases hm
    · rw [hline] at hm
      obtain ⟨r₁', hline', hrest₁⟩ := readLine_extend hline (le_refl 8192) hfull
      obtain ⟨hlen, hval, hrest₁'⟩ := (readLine_decides hsplit hw.status.free (le_refl 8192)).value hline'
      rw [hline'] at hwhole
      dsimp only at hval hrest₁' hm hwhole
      subst hval
      rw [hw.status.statusCode] at hm hwhole
      dsimp only at hm hwhole
      rw [if_neg (not_not.mpr rfl)] at hm hwhole
      rcases hheaders : readHeaders r₁ [] resp.status.length with e | ⟨headers, headerBytes, r₂⟩
      · rw [hheaders] at hm
        cases hm
      · rw [hheaders] at hm
        obtain ⟨r₂', hheaders', hrest₂⟩ := readHeaders_extend hheaders hrest₁
        obtain ⟨-, hval, -, -⟩ := (@readHeaders_decides _ _ [] resp.status.length _ hw.fields (fun _ he => (nomatch he)) List.nodup_nil (by omega) hrest₁').value hheaders'
        rw [hheaders'] at hwhole
        dsimp only at hval hm hwhole
        rw [List.nil_append] at hval
        subst hval
        have hdecl : ((framingFields resp.fields).get? transferEncoding).isSome = true ∨
            ((framingFields resp.fields).get? contentLength).isSome = true := by
          have hframing := hw.framing
          split at hframing
          · obtain ⟨-, f, hf, hkey, -⟩ := hframing
            exact .inr (hkey ▸ get?_isSome (mem_framingFields hf (by rw [hkey]; decide)))
          · obtain ⟨-, ⟨f, hf, hkey, -⟩, -⟩ := hframing
            exact .inl (hkey ▸ get?_isSome (mem_framingFields hf (by rw [hkey]; decide)))
          · exact absurd ‹_› hdeclared
        obtain ⟨r₃, hbody, hrest₃⟩ := readBody_extend hdecl hm hrest₂
        have hend := (hwhole.value hbody).2.2
        dsimp only at hend
        rw [hrest₃] at hend
        exact absurd (List.append_eq_nil_iff.mp hend).2 hext

/-- A response within the limits gives the value of its body; one with a larger body, with both framings or
    cut off in its declared framing raises; the body buffer holds at most one byte more than the limit. -/
theorem response_reassembled {α : Type*} (loads : Bytes → Option α) :
    (∀ (resp : Response) (r : Reader UInt8) (rest : Bytes) (value : α), resp.WellFormed → resp.Limited →
      resp.body.length ≤ MAX_RESPONSE_BYTES → loads resp.body = some value →
      (resp.framing = .untilClose → rest = []) → r.remaining = resp.bytes ++ rest →
      (readResponse loads r).1 = .ok value) ∧
    (∀ (resp : Response) (r : Reader UInt8) (rest : Bytes), resp.WellFormed →
      MAX_RESPONSE_BYTES < resp.body.length → (resp.framing = .untilClose → rest = []) →
      r.remaining = resp.bytes ++ rest → Raises (readResponse loads r)) ∧
    (∀ (status : Bytes) (fields : List Field) (r : Reader UInt8) (rest : Bytes), IsSuccess status →
      (∀ f ∈ fields, f.Plain) → (∃ f ∈ fields, f.key = contentLength) → (∃ f ∈ fields, f.key = transferEncoding) →
      r.remaining = headOf status fields ++ rest → Raises (readResponse loads r)) ∧
    (∀ (resp : Response) (r : Reader UInt8) (ext : Bytes), resp.WellFormed → resp.framing ≠ .untilClose →
      ext ≠ [] → resp.bytes = r.remaining ++ ext → Raises (readResponse loads r)) ∧
    ∀ (r : Reader UInt8), ∀ n ∈ (readResponse loads r).2, n ≤ MAX_RESPONSE_BYTES + 1 := by
  refine ⟨?_, ?_, ?_, ?_, ?_⟩
  · intro resp r rest value hw hlimited hbody hloads hclose hr
    obtain ⟨⟨body, r'⟩, hm, rfl, -⟩ := (readMessage_decides hw hclose hr).ok (hlimited.fits hw hbody)
    rcases hmessage : readMessage r with ⟨result, lengths⟩
    rw [hmessage] at hm
    dsimp only at hm hloads
    subst hm
    rw [readResponse, hmessage]
    dsimp only
    rw [hloads]
  · intro resp r rest hw hlarge hclose hr
    obtain ⟨e, he⟩ := (readMessage_decides hw hclose hr).error fun hfits => absurd (hfits.body_le hw) (not_le.mpr hlarge)
    exact readResponse_error he
  · intro status fields r rest hstatus hplain hlength hencoding hr
    obtain ⟨e, he⟩ := readMessage_both hstatus hplain hlength hencoding hr
    exact readResponse_error he
  · intro resp r ext hw hdeclared hext hr
    obtain ⟨e, he⟩ := readMessage_truncated hw hdeclared hext hr
    exact readResponse_error he
  · intro r
    have hlengths := readMessage_lengths (r := r)
    rw [readResponse]
    rcases hmessage : readMessage r with ⟨e | ⟨body, r'⟩, lengths⟩
    · rw [hmessage] at hlengths
      exact hlengths
    · rw [hmessage] at hlengths
      dsimp only at hlengths ⊢
      split <;> exact hlengths

/-- `[1]` in two chunks, with an extension, a trailer and a repeated header. -/
def inChunks : Response where
  status := ascii "HTTP/1.1 200 OK"
  fields := [⟨ascii "Set-Cookie", ascii " a"⟩, ⟨ascii "Transfer-Encoding", ascii " Chunked "⟩, ⟨ascii "Set-Cookie", ascii " b"⟩]
  framing := .chunked [⟨ascii "2", ascii ";x", ascii "[1"⟩, ⟨ascii "01", [], ascii "]"⟩] ⟨ascii "0", [], []⟩ [ascii "t: 1"]
  body := ascii "[1]"

theorem inChunks_wellFormed : inChunks.WellFormed := by
  refine ⟨⟨49, ascii " OK", by decide, .inr rfl, .inr (by decide), by decide, by decide⟩, ?_, by decide, by decide,
    by decide, ⟨⟨ascii "Transfer-Encoding", ascii " Chunked "⟩, by decide, by decide, by decide⟩, ?_,
    ⟨by decide, by decide, .inl rfl, by decide, by decide⟩, rfl, ?_, by decide⟩
  · intro f hf
    simp only [inChunks, List.mem_cons, List.not_mem_nil, or_false] at hf
    rcases hf with rfl | rfl | rfl
    · exact ⟨by decide, by decide, by decide, by decide⟩
    · exact ⟨by decide, by decide, by decide, by decide⟩
    · exact ⟨by decide, by decide, by decide, by decide⟩
  · intro c hc
    simp only [List.mem_cons, List.not_mem_nil, or_false] at hc
    rcases hc with rfl | rfl
    · exact ⟨⟨by decide, by decide, .inr rfl, by decide, by decide⟩, by decide⟩
    · exact ⟨⟨by decide, by decide, .inl rfl, by decide, by decide⟩, by decide⟩
  · intro line hline
    rw [List.mem_singleton.mp hline]
    exact ⟨by decide, by decide, by decide⟩

/-- The response comes in two segments, the first of which ends within the head. -/
theorem response_reassembled_chunked : (readResponse (fun body => if body = ascii "[1]" then some 1 else none)
    ⟨[], [inChunks.bytes.take 30, inChunks.bytes.drop 30]⟩).1 = .ok 1 :=
  (response_reassembled fun body => if body = ascii "[1]" then some 1 else none).1 inChunks _ [] 1
    inChunks_wellFormed ⟨by decide, by decide, by decide, by decide, by decide, by decide⟩ (by decide) (if_pos rfl)
    (fun _ => rfl) (by rw [List.append_nil, Stream.remaining_mk, List.flatten_cons, List.flatten_singleton,
      List.nil_append, List.take_append_drop])

/-- A header line of `n` bytes and two more. -/
def padded (n : ℕ) : Field := ⟨ascii "x", List.replicate n 97⟩

theorem padded_length (n : ℕ) : (padded n).line.length = n + 2 := by
  rw [padded, Field.line, List.length_append, List.length_cons, List.length_replicate]
  exact Nat.add_comm 1 (n + 1)

theorem padded_plain (n : ℕ) : (padded n).Plain := by
  have hfree : ∀ b, b ∉ ascii "x" → b ≠ colon → b ≠ 97 → b ∉ (padded n).line := by
    intro b hname hcolon hvalue hb
    rcases List.mem_append.mp hb with hb | hb
    · exact hname hb
    · rcases List.mem_cons.mp hb with hb | hb
      · exact hcolon hb
      · exact hvalue (List.eq_of_mem_replicate hb)
  have hnamed : ascii "x" ≠ [] := by decide
  have hcolon : colon ∉ ascii "x" := by decide
  exact ⟨hnamed, hcolon, hfree CR (by decide) (by decide) (by decide),
    hfree LF (by decide) (by decide) (by decide)⟩

theorem padded_key (n : ℕ) : (padded n).key ∉ framingHeaders := by
  have hkey : lower (ascii "x") ∉ framingHeaders := by decide
  exact hkey

/-- Four such lines, and a body to the end of the stream. -/
def longHeaders (n : ℕ) : Response where
  status := ascii "HTTP/1.1 200 OK"
  fields := [padded n, padded n, padded n, padded n]
  framing := .untilClose
  body := ascii "[]"

theorem mem_longHeaders {n : ℕ} {f : Field} (hf : f ∈ (longHeaders n).fields) : f = padded n := by
  rw [longHeaders] at hf
  simpa using hf

theorem longHeaders_wellFormed (n : ℕ) : (longHeaders n).WellFormed := by
  have hkey : ∀ f ∈ (longHeaders n).fields, f.key ∉ framingHeaders := fun f hf => mem_longHeaders hf ▸ padded_key n
  have hno : ∀ f ∈ (longHeaders n).fields, ∀ key ∈ framingHeaders, f.key ≠ key := fun f hf key hk h =>
    hkey f hf (h ▸ hk)
  have hstatus : IsSuccess (ascii "HTTP/1.1 200 OK") :=
    ⟨49, ascii " OK", by decide, .inr rfl, .inr (by decide), by decide, by decide⟩
  refine ⟨hstatus, fun f hf => mem_longHeaders hf ▸ padded_plain n, ?_, ?_, ?_⟩
  · rw [List.filter_eq_nil_iff.mpr]
    · exact List.nodup_nil
    · intro key hmem
      obtain ⟨f, hf, rfl⟩ := List.mem_map.mp hmem
      exact fun h => hkey f hf (of_decide_eq_true h)
  · exact fun f hf h => absurd h (hno f hf _ (by decide))
  · exact fun f hf => ⟨hno f hf _ (by decide), hno f hf _ (by decide)⟩

theorem longHeaders_size (n : ℕ) : sizeOf ((longHeaders n).fields.map Field.line) = 4 * n + 8 := by
  simp only [longHeaders, List.map_cons, List.map_nil, sizeOf_cons, padded_length]
  rw [show sizeOf [] = 0 from rfl]
  omega

/-- The status line counts, so headers that stay within 32 KiB with all their line ends are refused. -/
theorem long_headers_refused : (longHeaders 8187).WellFormed ∧ (longHeaders 8187).body.length ≤ MAX_RESPONSE_BYTES ∧
    (∀ f ∈ (longHeaders 8187).fields, f.line.length + 2 ≤ 8192) ∧
    sizeOf ((longHeaders 8187).fields.map fun f => f.line ++ CRLF) + CRLF.length ≤ 32 * 1024 ∧
    ∀ (loads : Bytes → Option Unit) (r : Reader UInt8), r.remaining = (longHeaders 8187).bytes →
      Raises (readResponse loads r) := by
  refine ⟨longHeaders_wellFormed 8187, by rw [longHeaders]; decide, fun f hf => ?_, ?_, fun loads r hr => ?_⟩
  · rw [mem_longHeaders hf, padded_length]
    decide
  · simp only [longHeaders, List.map_cons, List.map_nil, sizeOf_cons, List.length_append, padded_length]
    decide
  · have hr' : r.remaining = (longHeaders 8187).bytes ++ [] := by rw [hr, List.append_nil]
    obtain ⟨e, he⟩ := (readMessage_decides (longHeaders_wellFormed 8187) (fun _ => rfl) hr').error fun hfits => by
      have htotal := hfits.headers.total
      rw [longHeaders_size] at htotal
      have hstatus : (longHeaders 8187).status.length = 15 := by
        rw [longHeaders]
        decide
      omega
    exact readResponse_error he

end Exactness

end OneMail.Metrics
