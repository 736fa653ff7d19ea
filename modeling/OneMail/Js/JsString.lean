import Mathlib
import OneMail.Lib.Membership

/-! JavaScript strings as sequences of UTF-16 code units, with the built-ins the worker uses on
    them: `trim`, `split(",")`, `join(",")`, `toLowerCase`, `startsWith`, and the falsy test. -/

namespace OneMail

/-- A JavaScript string: its UTF-16 code units, lone surrogates included. -/
abbrev JsString := List UInt16

instance lawfulBEqJsString : LawfulBEq JsString := inferInstance

/-- JavaScript compares strings by their code units. -/
instance unitLinearOrder : LinearOrder UInt16 where
  le_refl _ := UInt16.le_refl _
  le_trans _ _ _ := UInt16.le_trans
  le_antisymm _ _ := UInt16.le_antisymm
  le_total := UInt16.le_total
  lt_iff_le_not_ge _ _ := by simp only [UInt16.lt_iff_toNat_lt, UInt16.le_iff_toNat_le]; omega
  toDecidableLE := inferInstance

/-- The code units of a literal whose characters all lie in the basic plane. -/
def js (s : String) : JsString := s.toList.map fun c => c.val.toUInt16

namespace JsString

/-- The code units that `String.prototype.trim` removes: WhiteSpace and LineTerminator. -/
def isSpace (c : UInt16) : Bool :=
  c = 0x20 || (0x9 ≤ c && c ≤ 0xD) || c = 0xA0 || c = 0x1680 || (0x2000 ≤ c && c ≤ 0x200A) ||
    c = 0x2028 || c = 0x2029 || c = 0x202F || c = 0x205F || c = 0x3000 || c = 0xFEFF

def trim (s : JsString) : JsString := (s.dropWhile isSpace).rdropWhile isSpace

/-- `toLowerCase` as far as comparisons with ASCII names can see: besides the ASCII capitals only
    the Kelvin sign U+212A folds to a lone ASCII letter. -/
def toLowerCase (s : JsString) : JsString :=
  s.map fun c => if 0x41 ≤ c ∧ c ≤ 0x5A then c + 0x20 else if c = 0x212A then 0x6B else c

def startsWith (s pre : JsString) : Bool := pre.isPrefixOf s

/-- `a || b` on nullable strings: `null` and the empty string are falsy. -/
def orElse (a b : Option JsString) : Option JsString :=
  match a with
  | some (_ :: _) => a
  | _ => b

/-- `!!s` on a nullable string. -/
def truthy (s : Option JsString) : Bool := (s.getD []) ≠ []

@[simp] theorem orElse_of_ne {s : JsString} (h : s ≠ []) (b : Option JsString) :
    orElse (some s) b = some s := by
  cases s with
  | nil => exact absurd rfl h
  | cons => rfl

theorem orElse_none {a : Option JsString} {s : JsString} (h : orElse a none = some s) : a = some s := by
  rcases a with _ | _ | ⟨x, xs⟩
  · cases h
  · cases h
  · exact h

/-! ### Comma-separated lists -/

def comma : UInt16 := 0x2C

/-- `s.split(",").map((x) => x.trim()).filter(Boolean)` -/
def parts (s : JsString) : List JsString := ((s.splitOn comma).map trim).filter (· ≠ [])

theorem mem_of_mem_trim {s : JsString} {c : UInt16} (h : c ∈ trim s) : c ∈ s :=
  (List.dropWhile_sublist _).subset ((List.rdropWhile_prefix _ _).subset h)

theorem trim_trim (s : JsString) : trim (trim s) = trim s := by
  have hdrop : (trim s).dropWhile isSpace = trim s := by
    rcases ht : trim s with _ | ⟨c, t⟩
    · rfl
    -- the first unit of the trimmed string is the first one that is not removed at the start
    obtain ⟨u, hu⟩ := List.rdropWhile_prefix isSpace (s.dropWhile isSpace)
    have hhead := List.head?_dropWhile_not isSpace s
    rw [← hu, show (s.dropWhile isSpace).rdropWhile isSpace = c :: t from ht] at hhead
    exact List.dropWhile_cons_of_neg (by simpa using hhead)
  rw [trim, hdrop]
  exact List.rdropWhile_idempotent _ _

theorem splitOn_free (a : UInt16) : ∀ (s : JsString), ∀ p ∈ s.splitOn a, a ∉ p
  | [], p, hp => by
    rw [List.splitOn_nil, List.mem_singleton] at hp
    subst hp
    exact List.not_mem_nil
  | c :: s, p, hp => by
    rw [List.splitOn_cons_eq_if_modifyHead] at hp
    split at hp
    · rcases List.mem_cons.mp hp with rfl | hp
      · exact List.not_mem_nil
      · exact splitOn_free a s p hp
    · rename_i hne
      rcases hs : s.splitOn a with _ | ⟨q, qs⟩
      · exact absurd hs (List.splitOn_ne_nil a s)
      · rw [hs, List.modifyHead_cons] at hp
        rcases List.mem_cons.mp hp with rfl | hp
        · rw [List.mem_cons, not_or]
          refine ⟨fun heq => hne (by simp [heq]), splitOn_free a s q (by rw [hs]; exact List.mem_cons_self)⟩
        · exact splitOn_free a s p (by rw [hs]; exact List.mem_cons_of_mem _ hp)

/-- A part is its own only part. -/
theorem parts_part {s p : JsString} (h : p ∈ parts s) : parts p = [p] := by
  obtain ⟨hmap, hne⟩ := List.mem_filter.mp h
  obtain ⟨q, hq, rfl⟩ := List.mem_map.mp hmap
  have hfree : comma ∉ trim q := fun hc => splitOn_free comma s q hq (mem_of_mem_trim hc)
  have hne : trim q ≠ [] := by simpa using hne
  simp [parts, List.splitOn_eq_singleton hfree, trim_trim, hne]

theorem part_ne_nil {s p : JsString} (h : p ∈ parts s) : p ≠ [] := by
  simpa using (List.mem_filter.mp h).2

@[simp] theorem parts_nil : parts [] = [] := by decide

end JsString

end OneMail
