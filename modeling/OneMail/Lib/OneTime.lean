import OneMail.Lib.Interleave

/-! Secrets that are good for one use.

    A secret is stored in its slot until an expiry, later stores replace earlier ones, and it may be
    dropped at any time. What is observed are the stores and the uses. Such a history is single-use when
    every use is of the secret that the last event of its slot has stored, before the expiry. A store that
    holds its secrets by whatever means is shown to be one by naming what it holds (`Held`) and by classing
    each of its steps as one of three moves (`Move`). -/

namespace OneTime
open Interleave

variable {α κ : Type*}

inductive Use (α : Type*) where
  | stored (a : α) (expires : ℕ)
  | consumed (a : α) (now : ℕ)
  deriving DecidableEq

def Use.secret : Use α → α
  | .stored a _ => a
  | .consumed a _ => a

def Use.isStored : Use α → Bool
  | .stored _ _ => true
  | .consumed _ _ => false

variable [DecidableEq κ] (slot : α → κ)

/-- The last event of a slot; histories have the newest event first. -/
def latest (k : κ) (τ : List (Use α)) : Option (Use α) := τ.find? fun e => slot e.secret = k

/-- A use has the secret that its slot was last given, before the expiry. -/
def Fresh (earlier : List (Use α)) : Use α → Prop
  | .stored _ _ => True
  | .consumed a now => ∃ expires, now < expires ∧ latest slot (slot a) earlier = some (.stored a expires)

/-- Every use of the history is the first one of a secret that is still good. -/
def SingleUse (τ : List (Use α)) : Prop := Historic (Fresh slot) τ

variable {slot}

theorem latest_cons_self (e : Use α) (τ : List (Use α)) : latest slot (slot e.secret) (e :: τ) = some e := by
  simp [latest]

theorem latest_cons_ne {e : Use α} {k : κ} (h : slot e.secret ≠ k) (τ : List (Use α)) :
    latest slot k (e :: τ) = latest slot k τ := by
  simp [latest, h]

/-- Between the store of a secret and its use, its slot is left alone. -/
theorem SingleUse.between {τ later earlier : List (Use α)} {a : α} {now : ℕ} (h : SingleUse slot τ)
    (hτ : τ = later ++ .consumed a now :: earlier) :
    ∃ expires since before, earlier = since ++ .stored a expires :: before ∧ now < expires ∧
      ∀ e ∈ since, slot e.secret ≠ slot a := by
  obtain ⟨expires, hlt, hlatest⟩ := historic_iff.mp h later _ earlier hτ
  obtain ⟨-, since, before, heq, hsince⟩ := List.find?_eq_some_iff_append.mp hlatest
  exact ⟨expires, since, before, heq, hlt, fun e he => by simpa using hsince e he⟩

/-! ### Stores of secrets -/

/-- What is held was stored by the last event of its slot. -/
def Held (slot : α → κ) (holds : α → ℕ → Prop) (τ : List (Use α)) : Prop :=
  ∀ a expires, holds a expires → latest slot (slot a) τ = some (.stored a expires)

/-- What a step may do to the secrets held: drop some, replace the one in a slot, or give one out and drop it. -/
inductive Move (slot : α → κ) (holds holds' : α → ℕ → Prop) : List (Use α) → Prop
  | drop (h : ∀ a e, holds' a e → holds a e) : Move slot holds holds' []
  | store (a : α) (expires : ℕ)
      (h : ∀ b e, holds' b e → b = a ∧ e = expires ∨ holds b e ∧ slot b ≠ slot a) :
      Move slot holds holds' [.stored a expires]
  | consume (a : α) (expires now : ℕ) (ha : holds a expires) (hnow : now < expires)
      (h : ∀ b e, holds' b e → holds b e ∧ slot b ≠ slot a) : Move slot holds holds' [.consumed a now]

variable {holds holds' : α → ℕ → Prop} {ev τ : List (Use α)}

theorem Move.held (h : Move slot holds holds' ev) (hheld : Held slot holds τ) :
    Held slot holds' (ev ++ τ) := by
  intro b e hb
  cases h with
  | drop h => exact hheld b e (h b e hb)
  | store a expires h =>
    rcases h b e hb with ⟨rfl, rfl⟩ | ⟨hb, hne⟩
    · exact latest_cons_self _ _
    · exact (latest_cons_ne hne.symm τ).trans (hheld b e hb)
  | consume a expires now _ _ h =>
    obtain ⟨hb, hne⟩ := h b e hb
    exact (latest_cons_ne hne.symm τ).trans (hheld b e hb)

omit [DecidableEq κ] in
/-- A use that is not answered only drops the secret. -/
theorem Move.unanswered (h : Move slot holds holds' ev) : Move slot holds holds' (ev.filter Use.isStored) := by
  cases h with
  | drop h => exact .drop h
  | store a expires h => exact .store a expires h
  | consume _ _ _ _ _ h => exact .drop fun b e hb => (h b e hb).1

theorem Move.singleUse (h : Move slot holds holds' ev) (hheld : Held slot holds τ)
    (hτ : SingleUse slot τ) : SingleUse slot (ev ++ τ) := by
  cases h with
  | drop => exact hτ
  | store => exact ⟨trivial, hτ⟩
  | consume a expires now ha hnow => exact ⟨⟨expires, hnow, hheld a expires ha⟩, hτ⟩

end OneTime
