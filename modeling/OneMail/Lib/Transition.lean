import Mathlib

/-! Labelled transition systems.

    One party moves at a time: a `System` has initial states and steps, each step with a label that
    says what was done and what the surroundings answered. `Run S C` holds of the states reached by
    the runs whose every step meets `C`, a condition on the state before the step and on its label.
    What holds at the start and is kept by every step that meets `C` holds along all of them
    (`Run.invariant`). -/

namespace Transition

structure System (σ α : Type*) where
  init : σ → Prop
  step : σ → α → σ → Prop

variable {σ α : Type*} {S : System σ α} {C D : σ → α → Prop} {s s' : σ} {a : α}

/-- The states reached by runs whose every step meets `C`. -/
inductive Run (S : System σ α) (C : σ → α → Prop) : σ → Prop
  | start {s : σ} : S.init s → Run S C s
  | next {s s' : σ} {a : α} : Run S C s → C s a → S.step s a s' → Run S C s'

/-- The states reached by any run at all. -/
abbrev Reachable (S : System σ α) : σ → Prop := Run S fun _ _ => True

theorem Run.mono (hCD : ∀ s a, C s a → D s a) (h : Run S C s) : Run S D s := by
  induction h with
  | start hs => exact .start hs
  | next _ hc hst ih => exact .next ih (hCD _ _ hc) hst

theorem Run.reachable (h : Run S C s) : Reachable S s := h.mono fun _ _ _ => trivial

theorem Reachable.step (h : Reachable S s) (hst : S.step s a s') : Reachable S s' :=
  .next h trivial hst

/-- An inductive invariant. The step case may use that the state before the step is reached. -/
theorem Run.invariant {I : σ → Prop} (h0 : ∀ s, S.init s → I s)
    (hstep : ∀ s a s', Run S C s → I s → C s a → S.step s a s' → I s') (h : Run S C s) : I s := by
  induction h with
  | start hs => exact h0 _ hs
  | next hr hc hst ih => exact hstep _ _ _ hr ih hc hst

end Transition
