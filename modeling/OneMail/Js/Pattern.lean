import OneMail.Js.Uri
import OneMail.Lib.Regex

/-! Classes and assertions of JavaScript's regular expressions. -/

namespace OneMail.Pattern
open JsString Regex

/-- `\w` -/
def isWordChar (c : UInt16) : Bool :=
  isDigit c || (0x41 ≤ c && c ≤ 0x5A) || (0x61 ≤ c && c ≤ 0x7A) || c = 0x5F

/-- `\b` -/
def wordBoundary : Regex UInt16 := .between fun a b => a.any isWordChar != b.any isWordChar

/-- `\d` -/
def digit : Regex UInt16 := .one isDigit

/-- The canonical form of a unit under the flag `i`, as far as ASCII letters have one. -/
def foldCase (c : UInt16) : UInt16 := if 0x41 ≤ c ∧ c ≤ 0x5A then c + 0x20 else c

/-- A literal under the flag `i`. -/
def caseless : JsString → Regex UInt16
  | [] => .empty
  | c :: text => .cat (.one fun d => foldCase d = foldCase c) (caseless text)

variable {s e : Place UInt16}

theorem mem_caseless {text : JsString} : ∀ {s : Place UInt16}, e ∈ (caseless text).run s →
    ∃ w, w.map foldCase = text.map foldCase ∧ s.after = w ++ e.after ∧ e.before = w.reverse ++ s.before := by
  induction text with
  | nil =>
    intro s h
    rw [caseless, run, List.mem_singleton] at h
    exact ⟨[], rfl, by rw [h]; rfl, by rw [h]; rfl⟩
  | cons c text ih =>
    intro s h
    obtain ⟨m, hm, he⟩ := mem_cat.mp h
    obtain ⟨d, rest, hafter, hd, rfl⟩ := mem_one.mp hm
    obtain ⟨w, hw, hs, hb⟩ := ih he
    refine ⟨d :: w, ?_, by rw [hafter, List.cons_append, ← hs], ?_⟩
    · rw [List.map_cons, List.map_cons, hw, of_decide_eq_true hd]
    · rw [hb, List.reverse_cons, List.append_assoc, List.singleton_append]

theorem groupFree_caseless (text : JsString) : (caseless text).groupFree = true := by
  induction text with
  | nil => rfl
  | cons c text ih => exact ih

theorem isDigit_foldCase (c : UInt16) : isDigit (foldCase c) = isDigit c := by
  unfold foldCase
  split
  · rename_i h
    have hlow : 0x41 ≤ c.toNat := h.1
    have hhigh : c.toNat ≤ 0x5A := h.2
    have hsum : (c + 0x20).toNat = c.toNat + 0x20 := by
      rw [UInt16.toNat_add]
      exact Nat.mod_eq_of_lt (show c.toNat + 0x20 < 65536 by omega)
    have hdigit {d : UInt16} (hd : 0x39 < d.toNat) : isDigit d = false := by
      rw [isDigit, Bool.and_eq_false_iff]
      exact .inr (decide_eq_false fun hle => absurd hd (Nat.not_lt.mpr hle))
    rw [hdigit (by omega), hdigit (by omega)]
  · rfl

theorem isWordChar_of_isDigit {c : UInt16} (h : isDigit c = true) : isWordChar c = true := by
  simp only [isWordChar, h, Bool.true_or]

/-- Before a digit, `\b` stands behind no digit. -/
theorem wordBoundary_before {c : UInt16} {rest : JsString} (h : e ∈ wordBoundary.run s) (hafter : s.after = c :: rest)
    (hc : isDigit c = true) : e = s ∧ s.before.head?.any isDigit = false := by
  obtain ⟨rfl, hp⟩ := mem_between.mp h
  refine ⟨rfl, ?_⟩
  rw [hafter, List.head?_cons, Option.any_some, isWordChar_of_isDigit hc] at hp
  rcases hb : e.before.head? with _ | d
  · rfl
  · rw [hb, Option.any_some] at hp
    rw [Option.any_some, ← Bool.not_eq_true]
    intro hd
    rw [isWordChar_of_isDigit hd] at hp
    cases hp

/-- Behind a digit, `\b` stands before no digit. -/
theorem wordBoundary_after {c : UInt16} {rest : JsString} (h : e ∈ wordBoundary.run s) (hbefore : s.before = c :: rest)
    (hc : isDigit c = true) : e = s ∧ s.after.head?.any isDigit = false := by
  obtain ⟨rfl, hp⟩ := mem_between.mp h
  refine ⟨rfl, ?_⟩
  rw [hbefore, List.head?_cons, Option.any_some, isWordChar_of_isDigit hc] at hp
  rcases ha : e.after.head? with _ | d
  · rfl
  · rw [ha, Option.any_some] at hp
    rw [Option.any_some, ← Bool.not_eq_true]
    intro hd
    rw [isWordChar_of_isDigit hd] at hp
    cases hp

end OneMail.Pattern
