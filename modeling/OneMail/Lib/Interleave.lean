import Mathlib

/-! Requests that share one store.

    A `Prog` is a family of requests over a shared store: each request keeps a local state (where
    it stands, and what it has read so far) and moves by atomic statements that read and write the
    store and report the events an outside observer sees. A `World` is the store, the local state
    of every request and the events so far, newest first. Every interleaving of every number of
    requests is a `Reach` derivation; a request that never moves again is a request that crashed.

    The three rules: `Reach.invariant` (whole worlds), `Reach.shared` (a store invariant and a
    local one that survives the steps of the others) and `Reach.pairwise` (a fact about any two
    requests). `Historic` states facts about the order of events. -/

namespace Interleave

/-- A shared program: the request that has not started, the initial stores, and one atomic step of
    one request: store and local state before, store and local state after, events (newest first). -/
structure Prog (σ ℓ ε : Type*) where
  idle : ℓ
  init : σ → Prop
  step : σ → ℓ → σ → ℓ → List ε → Prop

@[ext] structure World (σ ℓ ε : Type*) where
  store : σ
  pc : ℕ → ℓ
  trace : List ε

variable {σ ℓ ε : Type*}

/-- The world after request `i` took a step to store `s'` and local state `l'`. -/
def World.advance (w : World σ ℓ ε) (i : ℕ) (s' : σ) (l' : ℓ) (ev : List ε) : World σ ℓ ε :=
  ⟨s', Function.update w.pc i l', ev ++ w.trace⟩

@[simp] theorem advance_store (w : World σ ℓ ε) (i : ℕ) (s' : σ) (l' : ℓ) (ev : List ε) :
    (w.advance i s' l' ev).store = s' := rfl

@[simp] theorem advance_trace (w : World σ ℓ ε) (i : ℕ) (s' : σ) (l' : ℓ) (ev : List ε) :
    (w.advance i s' l' ev).trace = ev ++ w.trace := rfl

@[simp] theorem advance_pc_self (w : World σ ℓ ε) (i : ℕ) (s' : σ) (l' : ℓ) (ev : List ε) :
    (w.advance i s' l' ev).pc i = l' := Function.update_self ..

theorem advance_pc_ne (w : World σ ℓ ε) {i j : ℕ} (s' : σ) (l' : ℓ) (ev : List ε) (h : j ≠ i) :
    (w.advance i s' l' ev).pc j = w.pc j := Function.update_of_ne h ..

/-- `Step P i w w'`: request `i` takes one atomic step. -/
def Step (P : Prog σ ℓ ε) (i : ℕ) (w w' : World σ ℓ ε) : Prop :=
  ∃ s' l' ev, P.step w.store (w.pc i) s' l' ev ∧ w' = w.advance i s' l' ev

theorem Step.of {P : Prog σ ℓ ε} {w : World σ ℓ ε} {s' : σ} {l' : ℓ} {ev : List ε} (i : ℕ)
    (h : P.step w.store (w.pc i) s' l' ev) : Step P i w (w.advance i s' l' ev) :=
  ⟨s', l', ev, h, rfl⟩

/-- The worlds reached by runs whose every step meets `C`: `C w i` is asked of the world before the
    step and of the request that moves. -/
inductive Reach (P : Prog σ ℓ ε) (C : World σ ℓ ε → ℕ → Prop) : World σ ℓ ε → Prop
  | start {s : σ} : P.init s → Reach P C ⟨s, fun _ => P.idle, []⟩
  | next {w : World σ ℓ ε} {s' : σ} {l' : ℓ} {ev : List ε} (i : ℕ) : Reach P C w → C w i →
      P.step w.store (w.pc i) s' l' ev → Reach P C (w.advance i s' l' ev)

/-- The worlds reached by any run at all. -/
abbrev Reachable (P : Prog σ ℓ ε) : World σ ℓ ε → Prop := Reach P fun _ _ => True

variable {P : Prog σ ℓ ε} {C D : World σ ℓ ε → ℕ → Prop}

theorem Reach.mono (hCD : ∀ w i, C w i → D w i) {w : World σ ℓ ε} (h : Reach P C w) :
    Reach P D w := by
  induction h with
  | start hs => exact .start hs
  | next i _ hc hst ih => exact .next i ih (hCD _ _ hc) hst

theorem Reach.reachable {w : World σ ℓ ε} (h : Reach P C w) : Reachable P w :=
  h.mono fun _ _ _ => trivial

theorem Reachable.step {w w' : World σ ℓ ε} {i : ℕ} (h : Reachable P w) (hst : Step P i w w') :
    Reachable P w' := by
  obtain ⟨s', l', ev, hs, rfl⟩ := hst
  exact .next i h trivial hs

/-- One more step of a run, with the store and the request's local state given by equations. -/
theorem Reach.move {w : World σ ℓ ε} {s s' : σ} {l l' : ℓ} {ev : List ε} (h : Reach P C w) (i : ℕ) (hC : C w i)
    (hs : w.store = s) (hl : w.pc i = l) (hst : P.step s l s' l' ev) :
    ∃ w', Reach P C w' ∧ w'.store = s' ∧ w'.trace = ev ++ w.trace ∧ w'.pc i = l' ∧
      ∀ j, j ≠ i → w'.pc j = w.pc j := by
  subst hs hl
  exact ⟨_, h.next i hC hst, rfl, rfl, advance_pc_self .., fun j hj => advance_pc_ne _ _ _ _ hj⟩

/-- An inductive invariant of whole worlds. The step case may use that the world is reached. -/
theorem Reach.invariant {I : World σ ℓ ε → Prop} (h0 : ∀ s, P.init s → I ⟨s, fun _ => P.idle, []⟩)
    (hstep : ∀ w i s' l' ev, Reach P C w → I w → C w i → P.step w.store (w.pc i) s' l' ev →
      I (w.advance i s' l' ev)) {w : World σ ℓ ε} (h : Reach P C w) : I w := by
  induction h with
  | start hs => exact h0 _ hs
  | next i hw hc hst ih => exact hstep _ i _ _ _ hw ih hc hst

/-- A shared invariant `I` and a local one `L`: the request that moves re-establishes both, and its
    step leaves the `L` of every other request standing. -/
theorem Reach.shared {I : σ → List ε → Prop} {L : σ → List ε → ℓ → Prop}
    (h0 : ∀ s, P.init s → I s [] ∧ L s [] P.idle)
    (own : ∀ w i s' l' ev, Reach P C w → C w i → I w.store w.trace → L w.store w.trace (w.pc i) →
      P.step w.store (w.pc i) s' l' ev → I s' (ev ++ w.trace) ∧ L s' (ev ++ w.trace) l')
    (stable : ∀ w i j s' l' ev, Reach P C w → C w i → j ≠ i → I w.store w.trace →
      L w.store w.trace (w.pc i) → L w.store w.trace (w.pc j) →
      P.step w.store (w.pc i) s' l' ev → L s' (ev ++ w.trace) (w.pc j))
    {w : World σ ℓ ε} (h : Reach P C w) : I w.store w.trace ∧ ∀ i, L w.store w.trace (w.pc i) := by
  refine Reach.invariant (I := fun w => I w.store w.trace ∧ ∀ i, L w.store w.trace (w.pc i))
    (fun s hs => ⟨(h0 s hs).1, fun _ => (h0 s hs).2⟩) ?_ h
  intro w i s' l' ev hw ⟨hI, hL⟩ hc hst
  refine ⟨(own w i s' l' ev hw hc hI (hL i) hst).1, fun j => ?_⟩
  by_cases hj : j = i
  · subst hj
    rw [advance_pc_self]
    exact (own w j s' l' ev hw hc hI (hL j) hst).2
  · rw [advance_pc_ne _ _ _ _ hj]
    exact stable w i j s' l' ev hw hc hj hI (hL i) (hL j) hst

/-- A fact about any two requests, kept by the one that moves against every other one. -/
theorem Reach.pairwise {Q : ℓ → ℓ → Prop} (symm : ∀ l m, Q l m → Q m l) (h0 : Q P.idle P.idle)
    (own : ∀ w i j s' l' ev, Reach P C w → C w i → j ≠ i → Q (w.pc i) (w.pc j) →
      P.step w.store (w.pc i) s' l' ev → Q l' (w.pc j))
    {w : World σ ℓ ε} (h : Reach P C w) : ∀ i j, i ≠ j → Q (w.pc i) (w.pc j) := by
  refine Reach.invariant (I := fun w => ∀ i j, i ≠ j → Q (w.pc i) (w.pc j))
    (fun _ _ _ _ _ => h0) ?_ h
  intro w i s' l' ev hw hQ hc hst j k hjk
  by_cases hj : j = i
  · subst hj
    rw [advance_pc_self, advance_pc_ne _ _ _ _ hjk.symm]
    exact own w j k s' l' ev hw hc hjk.symm (hQ j k hjk) hst
  · rw [advance_pc_ne _ _ _ _ hj]
    by_cases hk : k = i
    · subst hk
      rw [advance_pc_self]
      exact symm _ _ (own w k j s' l' ev hw hc hj (hQ k j hjk.symm) hst)
    · rw [advance_pc_ne _ _ _ _ hk]
      exact hQ j k hjk

/-! ### Facts about the order of events -/

/-- Every event of the trace meets `ok` against the events before it. -/
def Historic (ok : List ε → ε → Prop) : List ε → Prop
  | [] => True
  | e :: τ => ok τ e ∧ Historic ok τ

/-- The events of one step, each checked against what came before it. -/
theorem Historic.append {ok : List ε → ε → Prop} : ∀ {ev τ : List ε},
    (∀ later e earlier, ev = later ++ e :: earlier → ok (earlier ++ τ) e) → Historic ok τ →
      Historic ok (ev ++ τ)
  | [], _, _, hτ => hτ
  | e :: ev, τ, h, hτ => by
    refine ⟨h [] e ev rfl, Historic.append (fun later e' earlier hev => ?_) hτ⟩
    exact h (e :: later) e' earlier (by rw [hev, List.cons_append])

/-- `Historic` read as a statement about every split of the trace at an event. -/
theorem historic_iff {ok : List ε → ε → Prop} : ∀ {τ : List ε},
    Historic ok τ ↔ ∀ later e earlier, τ = later ++ e :: earlier → ok earlier e
  | [] => by simp [Historic]
  | e :: τ => by
    rw [Historic, historic_iff (τ := τ)]
    constructor
    · rintro ⟨he, hτ⟩ later e' earlier h
      cases later with
      | nil => obtain ⟨rfl, rfl⟩ := List.cons.inj h; exact he
      | cons _ later => exact hτ later e' earlier (List.cons.inj h).2
    · intro h
      refine ⟨h [] e τ rfl, fun later e' earlier hτ => h (e :: later) e' earlier ?_⟩
      rw [hτ, List.cons_append]

end Interleave
