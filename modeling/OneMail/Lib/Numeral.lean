import Mathlib

/-! Numerals in a base up to sixteen, with lower-case letters for the digits from ten on. -/

namespace OneMail

def isHexDigit (c : Char) : Bool := ('0' ≤ c && c ≤ '9') || ('a' ≤ c && c ≤ 'f')

def digitValue (c : Char) : ℕ := if c ≤ '9' then c.toNat - 48 else c.toNat - 87

/-- The number that a numeral stands for. -/
def readNat (base : ℕ) (text : List Char) : ℕ := text.foldl (fun n c => base * n + digitValue c) 0

theorem digitValue_digitChar {d : ℕ} (h : d < 16) : digitValue d.digitChar = d := by
  have hall : ∀ d < 16, digitValue d.digitChar = d := by decide
  exact hall d h

theorem isHexDigit_digitChar {d : ℕ} (h : d < 16) : isHexDigit d.digitChar = true := by
  have hall : ∀ d < 16, isHexDigit d.digitChar = true := by decide
  exact hall d h

theorem readNat_append (base : ℕ) (text : List Char) (c : Char) :
    readNat base (text ++ [c]) = base * readNat base text + digitValue c := by
  rw [readNat, List.foldl_append]
  rfl

section Base

variable {base : ℕ} (hbase : 1 < base) (hsixteen : base ≤ 16)
include hbase hsixteen

theorem readNat_toDigits (n : ℕ) : readNat base (Nat.toDigits base n) = n := by
  induction n using Nat.strongRecOn with
  | ind n ih =>
    rcases Nat.lt_or_ge n base with hn | hn
    · rw [Nat.toDigits_of_lt_base hn, ← List.nil_append [n.digitChar], readNat_append,
        digitValue_digitChar (Nat.lt_of_lt_of_le hn hsixteen)]
      exact Nat.zero_add n
    · have hmod : n % base < 16 := Nat.lt_of_lt_of_le (Nat.mod_lt n (Nat.zero_lt_of_lt hbase)) hsixteen
      rw [Nat.toDigits_of_base_le hbase hn, readNat_append, ih _ (Nat.div_lt_self (by omega) hbase),
        digitValue_digitChar hmod, Nat.div_add_mod]

theorem isHexDigit_of_mem_toDigits {n : ℕ} {c : Char} (h : c ∈ Nat.toDigits base n) : isHexDigit c = true := by
  induction n using Nat.strongRecOn with
  | ind n ih =>
    rcases Nat.lt_or_ge n base with hn | hn
    · rw [Nat.toDigits_of_lt_base hn, List.mem_singleton] at h
      rw [h]
      exact isHexDigit_digitChar (Nat.lt_of_lt_of_le hn hsixteen)
    · rw [Nat.toDigits_of_base_le hbase hn, List.mem_append, List.mem_singleton] at h
      rcases h with h | rfl
      · exact ih _ (Nat.div_lt_self (by omega) hbase) h
      · exact isHexDigit_digitChar (Nat.lt_of_lt_of_le (Nat.mod_lt n (Nat.zero_lt_of_lt hbase)) hsixteen)

end Base

end OneMail
