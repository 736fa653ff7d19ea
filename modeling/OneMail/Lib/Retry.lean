import Mathlib

/-! Requests that are sent again until an answer is good enough.

    What has been asked and answered is kept in a log; the answer to a request depends on how many there
    were before it, and on nothing else, so that any run of any servers over any network is one such
    function. `attempts` is the retry loop: an answer is accepted, ends the loop, or calls for another try. -/

namespace Retry

variable {ρ ς β ε γ : Type*}

abbrev Log (ρ ς : Type*) := List (ρ × ς)

/-- A program that asks, and ends with a value or is broken off. -/
abbrev Effect (ρ ς ε β : Type*) := Log ρ ς → Except ε β × Log ρ ς

inductive Verdict (β ε : Type*)
  | accept (value : β)
  | stop (error : ε)
  | again (error : ε)

/-- At most so many tries. The error is the last one, if there was a try. -/
def attempts (answer : ℕ → ς) (judge : ς → Verdict β ε) (request : ρ) : ℕ → Option ε → Effect ρ ς (Option ε) β
  | 0, last, log => (.error last, log)
  | n + 1, _, log =>
    let reply := answer log.length
    match judge reply with
    | .accept value => (.ok value, log ++ [(request, reply)])
    | .stop error => (.error (some error), log ++ [(request, reply)])
    | .again error => attempts answer judge request n (some error) (log ++ [(request, reply)])

/-- One effect after the other, until one is broken off. -/
def each (f : γ → Effect ρ ς ε β) : List γ → Effect ρ ς ε (List β)
  | [], log => (.ok [], log)
  | x :: xs, log =>
    match f x log with
    | (.error e, log) => (.error e, log)
    | (.ok y, log) =>
      match each f xs log with
      | (.error e, log) => (.error e, log)
      | (.ok ys, log) => (.ok (y :: ys), log)

/-- How the tries of one loop end. -/
inductive Ends (judge : ς → Verdict β ε) : Except (Option ε) β → List ς → Prop
  | accepted (reply : ς) (value : β) (h : judge reply = .accept value) : Ends judge (.ok value) [reply]
  | stopped (reply : ς) (error : ε) (h : judge reply = .stop error) : Ends judge (.error (some error)) [reply]
  | exhausted (last : Option ε) : Ends judge (.error last) []

variable {answer : ℕ → ς} {judge : ς → Verdict β ε} {request : ρ}

variable (answer judge request) in
theorem attempts_spec (n : ℕ) (last : Option ε) (log : Log ρ ς) : ∃ fails final : List ς,
    (attempts answer judge request n last log).2 = log ++ (fails ++ final).map (Prod.mk request) ∧
    (∀ reply ∈ fails, ∃ error, judge reply = .again error) ∧ (fails ++ final).length ≤ n ∧
    Ends judge (attempts answer judge request n last log).1 final := by
  induction n generalizing last log with
  | zero => exact ⟨[], [], (List.append_nil log).symm, fun _ h => (nomatch h), Nat.le_refl 0, .exhausted last⟩
  | succ n ih =>
    rw [attempts]
    split
    · rename_i value h
      exact ⟨[], [_], rfl, fun _ h => (nomatch h), Nat.succ_le_succ (Nat.zero_le n), .accepted _ value h⟩
    · rename_i error h
      exact ⟨[], [_], rfl, fun _ h => (nomatch h), Nat.succ_le_succ (Nat.zero_le n), .stopped _ error h⟩
    · rename_i error h
      obtain ⟨fails, final, hlog, hfails, hlength, hends⟩ := ih (some error) (log ++ [(request, answer log.length)])
      refine ⟨answer log.length :: fails, final, ?_, ?_, Nat.succ_le_succ hlength, hends⟩
      · rw [hlog, List.append_assoc]
        rfl
      · exact List.forall_mem_cons.mpr ⟨⟨error, h⟩, hfails⟩

/-! ### What an effect adds to the log -/

/-- The effect only adds to the log. `Q` holds of what it adds, with `true` if it ends with a value, and then
    `R` holds of the value and what was added. -/
def Yields (Q : Bool → Log ρ ς → Prop) (R : Log ρ ς → β → Prop) (effect : Effect ρ ς ε β) : Prop :=
  ∀ log, ∃ added, (effect log).2 = log ++ added ∧
    match (effect log).1 with
    | .ok y => Q true added ∧ R added y
    | .error _ => Q false added

theorem Yields.ok {Q : Bool → Log ρ ς → Prop} {R : Log ρ ς → β → Prop} {effect : Effect ρ ς ε β} {y : β}
    {log log' : Log ρ ς} (h : Yields Q R effect) (heq : effect log = (.ok y, log')) :
    ∃ added, log' = log ++ added ∧ Q true added ∧ R added y := by
  obtain ⟨added, hlog, hend⟩ := h log
  rw [heq] at hlog hend
  exact ⟨added, hlog, hend⟩

theorem Yields.error {Q : Bool → Log ρ ς → Prop} {R : Log ρ ς → β → Prop} {effect : Effect ρ ς ε β} {e : ε}
    {log log' : Log ρ ς} (h : Yields Q R effect) (heq : effect log = (.error e, log')) :
    ∃ added, log' = log ++ added ∧ Q false added := by
  obtain ⟨added, hlog, hend⟩ := h log
  rw [heq] at hlog hend
  exact ⟨added, hlog, hend⟩

theorem each_yields {Q : Bool → Log ρ ς → Prop} {R : γ → Log ρ ς → β → Prop} {f : γ → Effect ρ ς ε β} {xs : List γ}
    (hnil : Q true []) (happend : ∀ {b l₁ l₂}, Q true l₁ → Q b l₂ → Q b (l₁ ++ l₂))
    (hmono : ∀ {x l₁ l₂ y}, R x l₁ y ∨ R x l₂ y → R x (l₁ ++ l₂) y) (hf : ∀ x ∈ xs, Yields Q (R x) (f x)) :
    Yields Q (fun added ys => List.Forall₂ (fun x y => R x added y) xs ys) (each f xs) := by
  induction xs with
  | nil => exact fun log => ⟨[], (List.append_nil log).symm, hnil, .nil⟩
  | cons x xs ih =>
    intro log
    have ih := ih fun x hx => hf x (List.mem_cons_of_mem _ hx)
    have hx := hf x List.mem_cons_self
    rw [each]
    split
    · rename_i e log₁ heq
      obtain ⟨added, rfl, hq⟩ := hx.error heq
      exact ⟨added, rfl, hq⟩
    · rename_i y log₁ heq
      obtain ⟨added, rfl, hq, hr⟩ := hx.ok heq
      split
      · rename_i e log₂ heq'
        obtain ⟨more, rfl, hq'⟩ := ih.error heq'
        exact ⟨added ++ more, List.append_assoc _ _ _, happend hq hq'⟩
      · rename_i ys log₂ heq'
        obtain ⟨more, rfl, hq', hr'⟩ := ih.ok heq'
        refine ⟨added ++ more, List.append_assoc _ _ _, happend hq hq', .cons (hmono (.inl hr)) ?_⟩
        exact hr'.imp fun _ _ h => hmono (.inr h)

/-- Of each entry and what stands before it, `P` holds. -/
def Told {α : Type*} (P : List α → α → Prop) (l : List α) : Prop := ∀ l₁ x l₂, l = l₁ ++ x :: l₂ → P l₁ x

theorem told_imp {α : Type*} {P P' : List α → α → Prop} {l : List α} (h : Told P l)
    (hpp : ∀ l₁ x, P l₁ x → P' l₁ x) : Told P' l :=
  fun l₁ x l₂ heq => hpp l₁ x (h l₁ x l₂ heq)

theorem told_append {α : Type*} {P : List α → α → Prop} {l l' : List α} (hl : Told P l)
    (hl' : ∀ l₁ x l₂, l' = l₁ ++ x :: l₂ → P (l ++ l₁) x) : Told P (l ++ l') := by
  intro l₁ x l₂ h
  rcases List.append_eq_append_iff.mp h with ⟨t, rfl, ht⟩ | ⟨t, rfl, ht⟩
  · exact hl' t x l₂ ht
  · rcases t with - | ⟨y, t⟩
    · have h := hl' [] x l₂ ht.symm
      rwa [List.append_nil, List.append_nil] at h
    · obtain ⟨rfl, ht⟩ := List.cons.inj ht
      exact hl l₁ x t rfl

end Retry
