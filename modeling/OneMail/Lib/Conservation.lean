import Mathlib
import OneMail.Lib.Interleave

/-! Conservation laws over all requests.

    Each request holds an amount `f` of something, nothing at first. If every step balances what the
    moving request holds against what its events bring in (`gain`) and take out (`loss`), then the sum
    over all requests balances against the whole trace (`Reach.conserved`). The sum is finite: in every
    world all but finitely many requests have not started. -/

namespace Interleave

open Finset (range)

variable {σ ℓ ε M : Type*} [AddCommMonoid M] {P : Prog σ ℓ ε} {C : World σ ℓ ε → ℕ → Prop}
  {w : World σ ℓ ε} {f : ℓ → M} {gain loss : ε → M}

/-- What the first `n` requests hold together. -/
def World.sum (w : World σ ℓ ε) (f : ℓ → M) (n : ℕ) : M := ∑ i ∈ range n, f (w.pc i)

/-- All requests from `n` on are idle. -/
def World.IdleFrom (w : World σ ℓ ε) (P : Prog σ ℓ ε) (n : ℕ) : Prop := ∀ i, n ≤ i → w.pc i = P.idle

theorem sum_advance {i n : ℕ} (hi : i < n) (s' : σ) (l' : ℓ) (ev : List ε) :
    (w.advance i s' l' ev).sum f n + f (w.pc i) = w.sum f n + f l' := by
  have hmem : i ∈ range n := Finset.mem_range.mpr hi
  have hrest : ∑ j ∈ (range n).erase i, f ((w.advance i s' l' ev).pc j) =
      ∑ j ∈ (range n).erase i, f (w.pc j) :=
    Finset.sum_congr rfl fun j hj => by rw [advance_pc_ne _ _ _ _ (Finset.ne_of_mem_erase hj)]
  rw [World.sum, World.sum, ← Finset.add_sum_erase _ _ hmem, ← Finset.add_sum_erase _ _ hmem, hrest,
    advance_pc_self, add_comm (f l'), add_assoc, add_comm (f l'), ← add_assoc,
    add_comm (∑ j ∈ (range n).erase i, f (w.pc j))]

/-- The sums over the first `n` requests agree with the trace, for every large enough `n`. -/
theorem Reach.conserved [IsCancelAdd M] (f : ℓ → M) (gain loss : ε → M) (hidle : f P.idle = 0)
    (hstep : ∀ w i s' l' ev, Reach P C w → C w i → P.step w.store (w.pc i) s' l' ev →
      f l' + (ev.map loss).sum = f (w.pc i) + (ev.map gain).sum) (h : Reach P C w) :
    ∃ n, w.IdleFrom P n ∧ ∀ m, n ≤ m →
      w.sum f m + (w.trace.map loss).sum = (w.trace.map gain).sum := by
  induction h with
  | start _ =>
    refine ⟨0, fun _ _ => rfl, fun m _ => ?_⟩
    simp [World.sum, hidle]
  | next i hw hc hst ih =>
    rename_i w s' l' ev
    obtain ⟨n, hn, hsum⟩ := ih
    refine ⟨max n (i + 1), fun j hj => ?_, fun m hm => ?_⟩
    · rw [advance_pc_ne _ _ _ _ (by omega)]
      exact hn j (by omega)
    · have hadv := sum_advance (f := f) (w := w) (show i < m by omega) s' l' ev
      have hlaw := hstep w i s' l' ev hw hc hst
      have hold := hsum m (by omega)
      have hkey : ((w.advance i s' l' ev).sum f m + (ev.map loss).sum + (w.trace.map loss).sum) +
          f (w.pc i) = ((ev.map gain).sum + (w.trace.map gain).sum) + f (w.pc i) := by
        calc (w.advance i s' l' ev).sum f m + (ev.map loss).sum + (w.trace.map loss).sum + f (w.pc i)
            = ((w.advance i s' l' ev).sum f m + f (w.pc i)) + (ev.map loss).sum +
                (w.trace.map loss).sum := by abel
          _ = w.sum f m + (f l' + (ev.map loss).sum) + (w.trace.map loss).sum := by rw [hadv]; abel
          _ = (w.sum f m + (w.trace.map loss).sum) + (f (w.pc i) + (ev.map gain).sum) := by
              rw [hlaw]; abel
          _ = ((ev.map gain).sum + (w.trace.map gain).sum) + f (w.pc i) := by rw [hold]; abel
      rw [advance_trace, List.map_append, List.sum_append, List.map_append, List.sum_append,
        ← add_assoc]
      exact add_right_cancel hkey

end Interleave
