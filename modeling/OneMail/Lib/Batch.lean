import OneMail.Lib.Table

/-! Statements and batches of a transactional store.

    A statement leaves a store and the number of rows it changed, or fails on a constraint. A batch runs its statements
    one after the other, each on what the ones before it left, and is rolled back as a whole when one fails. Statements
    that all carry one guard write nothing when the guard is false (`run_fenced`). -/

namespace Batch

abbrev Statement (σ : Type*) := σ → Option (σ × ℕ)

variable {σ α : Type*}

/-- The store after all statements, and the rows that each has changed. -/
def run : List (Statement σ) → σ → Option (σ × List ℕ)
  | [], s => some (s, [])
  | statement :: rest, s =>
    (statement s).bind fun r => (run rest r.1).map fun r' => (r'.1, r.2 :: r'.2)

/-- The rows changed by the last statement. -/
def changes (counts : List ℕ) : ℕ := counts.getLastD 0

/-- The statement writes nothing unless the guard holds. -/
def Fenced (guard : σ → Bool) (statement : Statement σ) : Prop :=
  ∀ s r, guard s = false → statement s = some r → r = (s, 0)

theorem run_cons {statement : Statement σ} {rest : List (Statement σ)} {s s' : σ} {n : ℕ}
    (h : statement s = some (s', n)) : run (statement :: rest) s = (run rest s').map fun r => (r.1, n :: r.2) := by
  rw [run, h]
  rfl

theorem run_fenced {guard : σ → Bool} {s : σ} (hs : guard s = false) : ∀ {statements : List (Statement σ)},
    (∀ statement ∈ statements, Fenced guard statement) → ∀ {r}, run statements s = some r → r.1 = s ∧ ∀ n ∈ r.2, n = 0
  | [], _, r, h => by
    cases h
    exact ⟨rfl, fun n hn => by cases hn⟩
  | statement :: rest, hall, r, h => by
    obtain ⟨first, hfirst, h⟩ := Option.bind_eq_some_iff.mp h
    obtain ⟨r', hr', rfl⟩ := Option.map_eq_some_iff.mp h
    obtain rfl := hall _ List.mem_cons_self s first hs hfirst
    obtain ⟨hsame, hzero⟩ := run_fenced hs (fun st hst => hall st (List.mem_cons_of_mem _ hst)) hr'
    exact ⟨hsame, List.forall_mem_cons.mpr ⟨rfl, hzero⟩⟩

theorem changes_eq_zero {counts : List ℕ} (h : ∀ n ∈ counts, n = 0) : changes counts = 0 := by
  rw [changes, List.getLastD_eq_getLast?]
  cases hlast : counts.getLast? with
  | none => rfl
  | some n => exact h n (List.mem_of_getLast? hlast)

end Batch
