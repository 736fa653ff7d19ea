import OneMail.Lib.Numeral

/-! The hosts of the URL parser, for schemes such as `http:`, and how they are serialised.

    A host is a domain, an IPv4 address or an IPv6 address. A domain has been through the parser: its
    letters are small, it has no forbidden code point, and it does not end in a number, since such a host
    is an IPv4 address or no host at all. -/

namespace OneMail.Whatwg

abbrev Text := List Char

/-- The domain ends in a number, after a dot at its end if there is one. -/
def endsInNumber (name : Text) : Bool :=
  let parts := name.splitOn '.'
  let parts := if parts.getLast? = some [] ∧ 1 < parts.length then parts.dropLast else parts
  match parts.getLast? with
  | none => false
  | some last => (last ≠ [] && last.all Char.isDigit) ||
    ("0x".toList.isPrefixOf last && (last.drop 2).all isHexDigit)

def forbiddenCodePoints : List Char := "\t\n\r #/:<>?@[\\]^|%".toList

structure Domain where
  name : Text
  ne_nil : name ≠ []
  lower : ∀ c ∈ name, c.toLower = c
  permitted : ∀ c ∈ name, c ∉ forbiddenCodePoints
  not_number : endsInNumber name = false

structure Ipv4 where
  (a b c d : Fin 256)

/-- An IPv6 address by its eight pieces. -/
structure Ipv6 where
  (p0 p1 p2 p3 p4 p5 p6 p7 : Fin 65536)

inductive Host
  | domain (name : Domain)
  | ipv4 (address : Ipv4)
  | ipv6 (address : Ipv6)

/-! ### Serialising -/

def decimal (n : ℕ) : Text := Nat.toDigits 10 n

def hex (n : ℕ) : Text := Nat.toDigits 16 n

def Ipv4.serialise (x : Ipv4) : Text :=
  decimal x.a ++ '.' :: (decimal x.b ++ '.' :: (decimal x.c ++ '.' :: decimal x.d))

def Ipv6.pieces (x : Ipv6) : List ℕ := [x.p0, x.p1, x.p2, x.p3, x.p4, x.p5, x.p6, x.p7]

def Ipv4.value (x : Ipv4) : ℕ := ((x.a * 256 + x.b) * 256 + x.c) * 256 + x.d

def Ipv6.value (x : Ipv6) : ℕ := x.pieces.foldl (fun n p => 65536 * n + p) 0

/-- How many zeros the pieces begin with. -/
def zeros (pieces : List ℕ) : ℕ := (pieces.takeWhile (· = 0)).length

/-- The index of the first of the longest runs of zeros, of two pieces at least. -/
def compressed (pieces : List ℕ) : Option ℕ :=
  let runs := (List.range 8).map fun i => zeros (pieces.drop i)
  let longest := runs.foldl max 0
  if longest < 2 then none else some (runs.idxOf longest)

/-- The IPv6 serialiser at the piece `i`. -/
def serialisePieces (compress : Option ℕ) : ℕ → Bool → List ℕ → Text
  | _, _, [] => []
  | i, ignore0, p :: pieces =>
    if ignore0 ∧ p = 0 then serialisePieces compress (i + 1) true pieces
    else if compress = some i then
      (if i = 0 then "::".toList else ":".toList) ++ serialisePieces compress (i + 1) true pieces
    else hex p ++ (if i = 7 then [] else ":".toList) ++ serialisePieces compress (i + 1) false pieces

def Ipv6.serialise (x : Ipv6) : Text := serialisePieces (compressed x.pieces) 0 false x.pieces

def Host.serialise : Host → Text
  | .domain name => name.name
  | .ipv4 x => x.serialise
  | .ipv6 x => '[' :: (x.serialise ++ [']'])

/-! ### The texts of addresses -/

theorem isHexDigit_of_mem_hex {n : ℕ} {c : Char} (h : c ∈ hex n) : isHexDigit c = true :=
  isHexDigit_of_mem_toDigits (by decide) (by decide) h

theorem readNat_hex (n : ℕ) : readNat 16 (hex n) = n := readNat_toDigits (by decide) (by decide) n

theorem hex_ne_nil (n : ℕ) : hex n ≠ [] := Nat.toDigits_ne_nil

theorem length_hex_le (p : Fin 65536) : (hex p).length ≤ 4 :=
  (Nat.length_toDigits_le_iff (by decide) (by decide)).mpr p.isLt

theorem mem_serialisePieces {compress : Option ℕ} {c : Char} : ∀ {pieces : List ℕ} {i : ℕ} {ignore0 : Bool},
    c ∈ serialisePieces compress i ignore0 pieces → isHexDigit c = true ∨ c = ':'
  | [], _, _, h => (nomatch h)
  | p :: pieces, i, ignore0, h => by
    rw [serialisePieces] at h
    split at h
    · exact mem_serialisePieces h
    · split at h
      · rcases List.mem_append.mp h with h | h
        · refine .inr ?_
          split at h
          · exact List.eq_of_mem_replicate (n := 2) h
          · exact List.mem_singleton.mp h
        · exact mem_serialisePieces h
      · rcases List.mem_append.mp h with h | h
        · rcases List.mem_append.mp h with h | h
          · exact .inl (isHexDigit_of_mem_hex h)
          · refine .inr ?_
            split at h
            · cases h
            · exact List.mem_singleton.mp h
        · exact mem_serialisePieces h

theorem Ipv6.mem_serialise {x : Ipv6} {c : Char} (h : c ∈ x.serialise) : isHexDigit c = true ∨ c = ':' :=
  mem_serialisePieces h

theorem zeros_cons_zero (pieces : List ℕ) : zeros (0 :: pieces) = zeros pieces + 1 := rfl

theorem zeros_cons {p : ℕ} (h : p ≠ 0) (pieces : List ℕ) : zeros (p :: pieces) = 0 := by
  rw [zeros, List.takeWhile_cons_of_neg (by simpa using h)]
  rfl

/-- A first piece that is not zero is written out. -/
theorem Ipv6.serialise_first {x : Ipv6} (h : x.p0.val ≠ 0) : ∃ rest, x.serialise = hex x.p0 ++ ':' :: rest := by
  rw [Ipv6.serialise, Ipv6.pieces]
  generalize [x.p1.val, x.p2.val, x.p3.val, x.p4.val, x.p5.val, x.p6.val, x.p7.val] = rest
  have hcompressed : compressed (x.p0.val :: rest) ≠ some 0 := by
    rw [compressed]
    simp only [List.range_succ_eq_map, List.map_cons, List.drop_zero, zeros_cons h]
    split
    · exact nofun
    · rename_i hlong
      rw [List.idxOf_cons, cond_eq_ite, if_neg (by rw [beq_iff_eq]; omega)]
      exact nofun
  rw [serialisePieces, if_neg (fun hp => h hp.2), if_neg hcompressed]
  exact ⟨_, List.append_assoc _ _ _⟩

theorem Ipv6.serialise_low {x : Ipv6} (h : x.pieces.take 7 = List.replicate 7 0) :
    x.serialise = "::".toList ++ if x.p7.val = 0 then [] else hex x.p7 := by
  have hpieces : x.pieces = [0, 0, 0, 0, 0, 0, 0, x.p7.val] := by
    rw [← List.take_append_drop 7 x.pieces, h]
    rfl
  rw [Ipv6.serialise, hpieces]
  generalize x.p7.val = p7
  by_cases h7 : p7 = 0
  · subst h7
    decide
  · rw [if_neg h7]
    have hcompressed : compressed [0, 0, 0, 0, 0, 0, 0, p7] = some 0 := by
      simp [compressed, List.range_succ_eq_map, zeros_cons_zero, zeros_cons h7]
    rw [hcompressed]
    simp [serialisePieces, h7]

theorem Ipv6.serialise_compat {x : Ipv6} (h : x.pieces.take 6 = List.replicate 6 0) (h6 : x.p6.val ≠ 0) :
    x.serialise = "::".toList ++ hex x.p6 ++ ':' :: hex x.p7 := by
  have hpieces : x.pieces = [0, 0, 0, 0, 0, 0, x.p6.val, x.p7.val] := by
    rw [← List.take_append_drop 6 x.pieces, h]
    rfl
  rw [Ipv6.serialise, hpieces]
  generalize x.p6.val = p6 at *
  generalize x.p7.val = p7
  have hcompressed : compressed [0, 0, 0, 0, 0, 0, p6, p7] = some 0 := by
    by_cases h7 : p7 = 0
    · simp [compressed, List.range_succ_eq_map, zeros_cons_zero, zeros_cons h6, h7]
      decide
    · simp [compressed, List.range_succ_eq_map, zeros_cons_zero, zeros_cons h6, zeros_cons h7]
  rw [hcompressed]
  simp [serialisePieces, h6]

theorem Ipv6.serialise_mapped {x : Ipv6} (h : x.pieces.take 6 = [0, 0, 0, 0, 0, 0xffff]) :
    x.serialise = "::ffff:".toList ++ hex x.p6 ++ ':' :: hex x.p7 := by
  have hpieces : x.pieces = [0, 0, 0, 0, 0, 0xffff, x.p6.val, x.p7.val] := by
    rw [← List.take_append_drop 6 x.pieces, h]
    rfl
  rw [Ipv6.serialise, hpieces]
  generalize x.p6.val = p6
  generalize x.p7.val = p7
  have hcompressed : compressed [0, 0, 0, 0, 0, 0xffff, p6, p7] = some 0 := by
    by_cases h6 : p6 = 0 <;> by_cases h7 : p7 = 0 <;>
      simp [compressed, List.range_succ_eq_map, zeros_cons_zero, zeros_cons, h6, h7] <;> decide
  have hffff : hex 0xffff = "ffff".toList := by decide
  rw [hcompressed]
  simp [serialisePieces, hffff]

end OneMail.Whatwg
