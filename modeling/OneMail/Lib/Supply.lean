import OneMail.Lib.Interleave

/-! Ids drawn from a counter.

    A `Supply` is a counter in the store from which requests draw ids: an own id is below the counter
    (`Supply.own_lt`) and no two requests own the same one (`Supply.own_apart`). An event that a request
    emits for its own id when it leaves the states `before` it (`Once`) is emitted at most once for
    each id (`Once.nodup`), and not yet for the id of a request that is still before it
    (`Once.fresh`). Two such events exclude each other when emitting one leaves the states before the
    other (`Once.exclusive`). -/

namespace Interleave

variable {σ ℓ ε : Type*} {P : Prog σ ℓ ε}

/-- A step draws the next id, or keeps the own id or gives it up. -/
structure Supply (P : Prog σ ℓ ε) where
  next : σ → ℕ
  own : ℓ → Option ℕ
  idle : own P.idle = none
  step : ∀ {s l s' l' ev}, P.step s l s' l' ev →
    (next s' = next s + 1 ∧ own l' = some (next s)) ∨
      (next s' = next s ∧ ∀ n, own l' = some n → own l = some n)

variable {C : World σ ℓ ε → ℕ → Prop} {w : World σ ℓ ε}

theorem Supply.mono (S : Supply P) {s s' : σ} {l l' : ℓ} {ev : List ε} (h : P.step s l s' l' ev) :
    S.next s ≤ S.next s' := by
  rcases S.step h with ⟨hn, -⟩ | ⟨hn, -⟩ <;> omega

theorem Supply.own_lt (S : Supply P) (h : Reachable P w) :
    ∀ i n, S.own (w.pc i) = some n → n < S.next w.store := by
  refine (Reach.shared (I := fun _ _ => True) (L := fun s _ l => ∀ n, S.own l = some n → n < S.next s)
    ?_ ?_ ?_ h).2
  · exact fun s _ => ⟨trivial, fun n hn => by rw [S.idle] at hn; cases hn⟩
  · intro w i s' l' ev _ _ _ hlt hst
    refine ⟨trivial, fun n hn => ?_⟩
    rcases S.step hst with ⟨hnext, hown⟩ | ⟨hnext, hown⟩
    · rw [hown] at hn
      cases hn
      omega
    · rw [hnext]
      exact hlt n (hown n hn)
  · intro w i j s' l' ev _ _ _ _ _ hlt hst n hn
    exact Nat.lt_of_lt_of_le (hlt n hn) (S.mono hst)

/-- No two requests own the same id. -/
theorem Supply.own_apart (S : Supply P) (h : Reachable P w) :
    ∀ i j, i ≠ j → ∀ n, S.own (w.pc i) = some n → S.own (w.pc j) ≠ some n := by
  refine Reach.pairwise (Q := fun l l' => ∀ n, S.own l = some n → S.own l' ≠ some n)
    (fun _ _ hq n hm hl => hq n hl hm) (fun n hn => by rw [S.idle] at hn; cases hn) ?_ h
  intro w i j s' l' ev hw _ _ hq hst n hn hj
  rcases S.step hst with ⟨-, hown⟩ | ⟨-, hown⟩
  · rw [hown] at hn
    cases hn
    exact absurd (S.own_lt hw j _ hj) (Nat.lt_irrefl _)
  · exact hq n (hown n hn) hj

/-- An event emitted when a request leaves the states `before` it, which it entered by drawing its
    id or not at all. -/
structure Once (S : Supply P) where
  id : ε → Option ℕ
  before : ℓ → Option ℕ
  owned : ∀ {l n}, before l = some n → S.own l = some n
  step : ∀ {s l s' l' ev}, P.step s l s' l' ev →
    (ev.filterMap id = [] ∧ ∀ n, before l' = some n → before l = some n ∨ n = S.next s) ∨
      ∃ n, ev.filterMap id = [n] ∧ before l = some n ∧ before l' = none

/-- The ids the event was emitted for. -/
def Once.ids {S : Supply P} (O : Once S) (τ : List ε) : List ℕ := τ.filterMap O.id

theorem Once.ids_append {S : Supply P} (O : Once S) (ev τ : List ε) :
    O.ids (ev ++ τ) = O.ids ev ++ O.ids τ := List.filterMap_append

theorem Once.intact {S : Supply P} (O : Once S) (h : Reachable P w) :
    ((O.ids w.trace).Nodup ∧ ∀ n ∈ O.ids w.trace, n < S.next w.store) ∧
      ∀ i n, O.before (w.pc i) = some n → n ∉ O.ids w.trace := by
  refine Reach.shared (I := fun s τ => (O.ids τ).Nodup ∧ ∀ n ∈ O.ids τ, n < S.next s)
    (L := fun _ τ l => ∀ n, O.before l = some n → n ∉ O.ids τ) ?_ ?_ ?_ h
  · exact fun s _ => ⟨⟨.nil, fun n hn => by cases hn⟩, fun n _ hn => by cases hn⟩
  · rintro w i s' l' ev hw - ⟨hnd, hlt⟩ hfresh hst
    rw [O.ids_append]
    have hold : ∀ n ∈ O.ids w.trace, n < S.next s' := fun n hn => Nat.lt_of_lt_of_le (hlt n hn) (S.mono hst)
    rcases O.step hst with ⟨hnone, hbefore⟩ | ⟨n, hone, hn, hdone⟩
    · rw [Once.ids, hnone, List.nil_append]
      refine ⟨⟨hnd, hold⟩, fun n hn hmem => ?_⟩
      rcases hbefore n hn with hn | rfl
      · exact hfresh n hn hmem
      · exact absurd (hlt _ hmem) (Nat.lt_irrefl _)
    · rw [Once.ids, hone, List.singleton_append]
      refine ⟨⟨List.nodup_cons.mpr ⟨hfresh n hn, hnd⟩, ?_⟩, fun m hm => by rw [hdone] at hm; cases hm⟩
      rintro m (_ | ⟨_, hm⟩)
      · exact Nat.lt_of_lt_of_le (S.own_lt hw i n (O.owned hn)) (S.mono hst)
      · exact hold m hm
  · intro w i j s' l' ev hw _ hji _ _ hfresh hst n hn hmem
    rw [O.ids_append, List.mem_append] at hmem
    rcases hmem with hmem | hmem
    · rcases O.step hst with ⟨hnone, -⟩ | ⟨m, hone, hm, -⟩
      · rw [Once.ids, hnone] at hmem
        cases hmem
      · rw [Once.ids, hone, List.mem_singleton] at hmem
        subst hmem
        exact S.own_apart hw i j hji.symm n (O.owned hm) (O.owned hn)
    · exact hfresh n hn hmem

theorem Once.nodup {S : Supply P} (O : Once S) (h : Reachable P w) : (O.ids w.trace).Nodup :=
  (O.intact h).1.1

theorem Once.fresh {S : Supply P} (O : Once S) (h : Reachable P w) :
    ∀ i n, O.before (w.pc i) = some n → n ∉ O.ids w.trace := (O.intact h).2

/-- A request that is past `O₁` is not before `O₂`. -/
def Once.Bars {S : Supply P} (O₁ O₂ : Once S) : Prop :=
  ∀ {s l s' l' ev n}, P.step s l s' l' ev → O₁.ids ev = [n] → O₂.ids ev = [] ∧ O₂.before l' = none

theorem Once.ids_own {S : Supply P} (O : Once S) {s s' : σ} {l l' : ℓ} {ev : List ε}
    (h : P.step s l s' l' ev) {n : ℕ} (hn : n ∈ O.ids ev) : O.ids ev = [n] ∧ O.before l = some n := by
  rcases O.step h with ⟨hnone, -⟩ | ⟨m, hone, hm, -⟩
  · rw [Once.ids, hnone] at hn
    cases hn
  · rw [Once.ids, hone, List.mem_singleton] at hn
    subst hn
    exact ⟨hone, hm⟩

/-- A request before `O₂` has not emitted `O₁`. -/
theorem Once.barred {S : Supply P} {O₁ O₂ : Once S} (hbars : O₁.Bars O₂) (h : Reachable P w) :
    ∀ i n, O₂.before (w.pc i) = some n → n ∉ O₁.ids w.trace := by
  refine (Reach.shared (I := fun _ _ => True)
    (L := fun _ τ l => ∀ n, O₂.before l = some n → n ∉ O₁.ids τ) ?_ ?_ ?_ h).2
  · exact fun s _ => ⟨trivial, fun n _ hn => by cases hn⟩
  · intro w i s' l' ev hw _ _ hfresh hst
    refine ⟨trivial, fun n hn hmem => ?_⟩
    rw [O₁.ids_append, List.mem_append] at hmem
    rcases hmem with hmem | hmem
    · obtain ⟨hone, -⟩ := O₁.ids_own hst hmem
      rw [(hbars hst hone).2] at hn
      cases hn
    · rcases O₂.step hst with ⟨-, hbefore⟩ | ⟨m, -, -, hdone⟩
      · rcases hbefore n hn with hn | rfl
        · exact hfresh n hn hmem
        · exact absurd ((O₁.intact hw).1.2 _ hmem) (Nat.lt_irrefl _)
      · rw [hdone] at hn
        cases hn
  · intro w i j s' l' ev hw _ hji _ _ hfresh hst n hn hmem
    rw [O₁.ids_append, List.mem_append] at hmem
    rcases hmem with hmem | hmem
    · obtain ⟨-, hm⟩ := O₁.ids_own hst hmem
      exact S.own_apart hw i j hji.symm n (O₁.owned hm) (O₂.owned hn)
    · exact hfresh n hn hmem

/-- No id has both events. -/
theorem Once.exclusive {S : Supply P} {O₁ O₂ : Once S} (h₁₂ : O₁.Bars O₂) (h₂₁ : O₂.Bars O₁)
    (h : Reachable P w) : ∀ n ∈ O₁.ids w.trace, n ∉ O₂.ids w.trace := by
  refine Reach.invariant (I := fun w => ∀ n ∈ O₁.ids w.trace, n ∉ O₂.ids w.trace)
    (fun _ _ _ hn => by cases hn) ?_ h
  intro w i s' l' ev hw hex _ hst n hn hn'
  rw [advance_trace, O₁.ids_append, List.mem_append] at hn
  rw [advance_trace, O₂.ids_append, List.mem_append] at hn'
  rcases hn with hn | hn <;> rcases hn' with hn' | hn'
  · obtain ⟨hone, -⟩ := O₁.ids_own hst hn
    rw [(h₁₂ hst hone).1] at hn'
    cases hn'
  · exact Once.barred h₂₁ hw i n (O₁.ids_own hst hn).2 hn'
  · exact Once.barred h₁₂ hw i n (O₂.ids_own hst hn').2 hn
  · exact hex n hn hn'

end Interleave
