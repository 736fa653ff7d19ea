import Mathlib

/-! Computations that may throw.

    What a sequence returns, its first part returned (`bind_ok`); what it throws, one of the two threw
    (`bind_error`). A check that throws under a condition is `throwIf`. -/

namespace Fallible

universe u v

variable {ε : Type u} {α β : Type v} {x : Except ε α} {f : α → Except ε β} {b : β} {e e' : ε} {c : Prop} [Decidable c]

theorem bind_ok : x >>= f = .ok b ↔ ∃ a, x = .ok a ∧ f a = .ok b := by
  cases x <;> simp [bind, Except.bind]

theorem bind_error : x >>= f = .error e ↔ x = .error e ∨ ∃ a, x = .ok a ∧ f a = .error e := by
  cases x <;> simp [bind, Except.bind]

def throwIf (c : Prop) [Decidable c] (e : ε) : Except ε Unit := if c then .error e else .ok ()

@[simp] theorem throwIf_ok {u : Unit} : throwIf c e = .ok u ↔ ¬ c := by
  unfold throwIf
  split <;> simp_all

@[simp] theorem throwIf_error : throwIf c e = .error e' ↔ c ∧ e = e' := by
  unfold throwIf
  split <;> simp_all

end Fallible
