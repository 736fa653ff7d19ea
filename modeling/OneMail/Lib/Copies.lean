import Mathlib

/-! Copies of a value that is renewed by those who hold them.

    Each renewal replaces the value by a new one, which the renewing holder has and which is written to
    the master copy or not; a holder may pull the master copy at any time. Who has the newest value is
    decided by the log of these moves: the master has it if the last renewal was written (`Written`), a
    holder has it if it made the last renewal itself, or pulled a master that had it, and no renewal has
    come since (`UpToDate`). -/

namespace Copies

variable {η τ : Type*}

inductive Note (η : Type*)
  | renewed (h : η) (written : Bool)
  | pulled (h : η)
  deriving DecidableEq

/-- The last renewal was written to the master. -/
def Written : List (Note η) → Prop
  | [] => True
  | .renewed _ written :: _ => written = true
  | .pulled _ :: log => Written log

/-- Since the last renewal the holder has made it itself or pulled a master that has it. -/
def UpToDate (h : η) : List (Note η) → Prop
  | [] => False
  | .renewed h' _ :: _ => h' = h
  | .pulled h' :: log => (h' = h ∧ Written log) ∨ (h' ≠ h ∧ UpToDate h log)

/-- The values ever in force, the newest first, with the copies and the log. -/
structure Cell (η τ : Type*) where
  issued : List τ
  master : Option τ
  copy : η → Option τ
  log : List (Note η)

/-- The value in force. -/
def Cell.newest (c : Cell η τ) : Option τ := c.issued.head?

variable [DecidableEq η]

def Cell.renewed (c : Cell η τ) (h : η) (n : τ) (written : Bool) : Cell η τ where
  issued := n :: c.issued
  master := if written then some n else c.master
  copy := Function.update c.copy h (some n)
  log := .renewed h written :: c.log

def Cell.pulled (c : Cell η τ) (h : η) : Cell η τ :=
  { c with copy := Function.update c.copy h c.master, log := .pulled h :: c.log }

/-- The holder gives its copy up. -/
def Cell.dropped (c : Cell η τ) (h : η) : Cell η τ := { c with copy := Function.update c.copy h none }

inductive Move : Cell η τ → Cell η τ → Prop
  | renew {c : Cell η τ} {h : η} {n : τ} {written : Bool} : n ∉ c.issued → Move c (c.renewed h n written)
  | pull {c : Cell η τ} {h : η} : Move c (c.pulled h)
  | drop {c : Cell η τ} {h : η} : Move c (c.dropped h)

/-- Every copy was in force once, and the log tells which are in force now. -/
structure Sound (c : Cell η τ) : Prop where
  master_issued : ∀ v, c.master = some v → v ∈ c.issued
  copy_issued : ∀ h v, c.copy h = some v → v ∈ c.issued
  master_newest : ∀ v, c.master = some v → (c.newest = some v ↔ Written c.log)
  copy_newest : ∀ h v, c.copy h = some v → (c.newest = some v ↔ UpToDate h c.log)

variable {c c' : Cell η τ}

theorem Sound.renewed (hc : Sound c) {n : τ} (hn : n ∉ c.issued) (h : η) (written : Bool) :
    Sound (c.renewed h n written) := by
  have hold : ∀ v, v ∈ c.issued → ¬(c.renewed h n written).newest = some v :=
    fun v hv heq => hn (Option.some.inj heq ▸ hv)
  refine ⟨fun v hv => ?_, fun i v hv => ?_, fun v hv => ?_, fun i v hv => ?_⟩
  · cases written with
    | true => exact Option.some.inj hv ▸ List.mem_cons_self
    | false => exact List.mem_cons_of_mem _ (hc.master_issued v hv)
  · by_cases hi : i = h
    · rw [hi] at hv
      have hnv : n = v := Option.some.inj ((Function.update_self h _ _).symm.trans hv)
      exact hnv ▸ List.mem_cons_self
    · exact List.mem_cons_of_mem _ (hc.copy_issued i v ((Function.update_of_ne hi _ _).symm.trans hv))
  · cases written with
    | true =>
      rw [← Option.some.inj hv]
      exact iff_of_true rfl rfl
    | false => exact iff_of_false (hold v (hc.master_issued v hv)) Bool.false_ne_true
  · by_cases hi : i = h
    · rw [hi] at hv ⊢
      have hnv : n = v := Option.some.inj ((Function.update_self h _ _).symm.trans hv)
      exact iff_of_true (hnv ▸ rfl) rfl
    · have hv' := hc.copy_issued i v ((Function.update_of_ne hi _ _).symm.trans hv)
      exact iff_of_false (hold v hv') (Ne.symm hi)

theorem Sound.pulled (hc : Sound c) (h : η) : Sound (c.pulled h) := by
  refine ⟨hc.master_issued, fun i v hv => ?_, hc.master_newest, fun i v hv => ?_⟩
  · by_cases hi : i = h
    · rw [hi] at hv
      exact hc.master_issued v ((Function.update_self h _ _).symm.trans hv)
    · exact hc.copy_issued i v ((Function.update_of_ne hi _ _).symm.trans hv)
  · by_cases hi : i = h
    · rw [hi] at hv ⊢
      have hm := hc.master_newest v ((Function.update_self h _ _).symm.trans hv)
      exact hm.trans ⟨fun hw => .inl ⟨rfl, hw⟩, fun hu => hu.elim And.right fun hu => absurd rfl hu.1⟩
    · have hcopy := hc.copy_newest i v ((Function.update_of_ne hi _ _).symm.trans hv)
      exact hcopy.trans ⟨fun hu => .inr ⟨Ne.symm hi, hu⟩, fun hu => hu.elim (fun hu => absurd hu.1.symm hi) And.right⟩

theorem Sound.dropped (hc : Sound c) (h : η) : Sound (c.dropped h) := by
  have hcopy : ∀ i v, (c.dropped h).copy i = some v → c.copy i = some v := by
    intro i v hv
    by_cases hi : i = h
    · rw [hi] at hv
      cases (Function.update_self h _ _).symm.trans hv
    · exact (Function.update_of_ne hi _ _).symm.trans hv
  exact ⟨hc.master_issued, fun i v hv => hc.copy_issued i v (hcopy i v hv), hc.master_newest,
    fun i v hv => hc.copy_newest i v (hcopy i v hv)⟩

theorem Sound.move (hc : Sound c) (h : Move c c') : Sound c' := by
  cases h with
  | renew hn => exact hc.renewed hn _ _
  | pull => exact hc.pulled _
  | drop => exact hc.dropped _

theorem Sound.moves (hc : Sound c) (h : Relation.ReflTransGen Move c c') : Sound c' := by
  induction h with
  | refl => exact hc
  | tail _ hmove ih => exact ih.move hmove

end Copies
