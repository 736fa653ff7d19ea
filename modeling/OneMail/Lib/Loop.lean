import Mathlib

/-! Loops that may throw.

    `run done step n s` iterates `step` from `s` until `done`, at most `n` times; `none` is a throw. An
    invariant of the steps holds of whatever the loop returns (`run_partial`). With a variant that every
    step decreases, unless it ends the loop, the loop returns, and it returns a state where it is done
    (`run_total`). Where the invariant alone knows the variant, any well-founded rank does, given enough
    steps (`run_ranked`). -/

namespace Loop

variable {σ : Type*}

def run (done : σ → Bool) (step : σ → Option σ) : ℕ → σ → Option σ
  | 0, s => some s
  | n + 1, s => if done s then some s else (step s).bind (run done step n)

variable {done : σ → Bool} {step : σ → Option σ} {P : σ → Prop}

theorem run_partial (hstep : ∀ s s', P s → done s = false → step s = some s' → P s') :
    ∀ {n : ℕ} {s s' : σ}, P s → run done step n s = some s' → P s'
  | 0, s, s', h, hrun => by
    cases hrun
    exact h
  | n + 1, s, s', h, hrun => by
    rw [run] at hrun
    split at hrun
    · cases hrun
      exact h
    · rename_i hdone
      obtain ⟨s₁, hs₁, hrun⟩ := Option.bind_eq_some_iff.mp hrun
      exact run_partial hstep (hstep s s₁ h (by simpa using hdone) hs₁) hrun

theorem run_total (variant : σ → ℕ) (hstep : ∀ s, P s → done s = false →
      ∃ s', step s = some s' ∧ P s' ∧ (done s' = true ∨ variant s' < variant s)) :
    ∀ {n : ℕ} {s : σ}, P s → (done s = true ∨ variant s < n) →
      ∃ s', run done step n s = some s' ∧ P s' ∧ done s' = true
  | 0, s, h, hn => ⟨s, rfl, h, hn.resolve_right (Nat.not_lt_zero _)⟩
  | n + 1, s, h, hn => by
    rw [run]
    rcases hdone : done s
    · rw [if_neg Bool.false_ne_true]
      obtain ⟨s₁, hs₁, h₁, hvar⟩ := hstep s h hdone
      rw [hs₁, Option.bind_some]
      refine run_total variant hstep h₁ (hvar.imp_right fun hlt => ?_)
      rcases hn with hn | hn
      · rw [hdone] at hn
        cases hn
      · omega
    · exact ⟨s, if_pos rfl, h, hdone⟩

theorem run_done {s : σ} (hdone : done s = true) (n : ℕ) : run done step n s = some s := by
  rcases n with - | n
  · rfl
  · exact if_pos hdone

/-- As `run_total`, with a rank that the invariant knows and the state need not. -/
theorem run_ranked {ι : Type*} [LT ι] [WellFoundedLT ι] {Q : ι → σ → Prop}
    (hstep : ∀ i s, Q i s → done s = false → ∃ j < i, ∃ s', step s = some s' ∧ Q j s') (i : ι) (s : σ) (h : Q i s) :
    ∃ n, ∀ m ≥ n, ∃ j s', run done step m s = some s' ∧ Q j s' ∧ done s' = true := by
  induction i using WellFoundedLT.induction generalizing s with
  | ind i ih =>
    rcases hdone : done s
    · obtain ⟨j, hj, s₁, hs₁, h₁⟩ := hstep i s h hdone
      obtain ⟨n, hn⟩ := ih j hj s₁ h₁
      refine ⟨n + 1, fun m hm => ?_⟩
      rcases m with - | m
      · omega
      · rw [run, if_neg (by simp [hdone]), hs₁, Option.bind_some]
        exact hn m (by omega)
    · exact ⟨0, fun m _ => ⟨i, s, run_done hdone m, h, hdone⟩⟩

end Loop
