import OneMail.Mutation.Identity

/-! Who owns the visible flag.

    `emails.is_read` and `emails.is_starred` are written by the UPDATE that ends a request and by the
    success projection of a report. Neither looks at the job table in the statement that writes: the
    UPDATE of a request is unconditional, and the report compared its job with newer ones a round
    trip earlier. `flagWrite` is what the next step of a request would write. Along runs where no
    such write comes from a job that a finished, different-minded request has overtaken, the newest
    intent owns the flag (`newest_owns_flag`); `overlapping_requests` is a run where it does not. -/

namespace OneMail.Mutation
open Interleave Table

variable {t u : List JobRow} {c : Call} {s : Store}

/-- No job of the same email and operation was queued after `n`. -/
def Newest (t : List JobRow) (n : JobRow) : Prop :=
  n ∈ t ∧ ∀ k ∈ t, k.emailId = n.emailId → k.operation = n.operation → k.rowid ≤ n.rowid

/-- The request stands between the INSERT of the job `id` and the UPDATE of `emails`. -/
def Call.Queuing (id : JsString) : Call → Prop
  | .inserted _ _ id' _ | .superseded _ _ id' _ => id' = id
  | _ => False

/-- In a state where no request stands between its INSERT and its UPDATE, the flag of every email is
    what the newest read (or star) job of the email desires. -/
def NewestOwnsFlag (w : World Store Call Event) : Prop :=
  (∀ i id, ¬ (w.pc i).Queuing id) → ∀ n, Newest w.store.jobs n →
    ∀ column, desiredStateColumn n.operation = some column →
      ∀ row ∈ w.store.emails, row.id = n.emailId → row.flag column = n.desiredValue

/-! ### Desired values -/

/-- A read or star intent desires 0 or 1. -/
def Boolean (operation : Operation) (desired : Option ℕ) : Prop :=
  (desiredStateColumn operation).isSome = true → desired = some 0 ∨ desired = some 1

theorem planMutation_boolean {row : EmailRow} {request : Request} {intent : Intent}
    (h : planMutation row request = some intent) : Boolean intent.operation intent.desired := by
  intro hcol
  unfold planMutation at h
  split at h
  · cases h
  · cases h
  · split at h
    · obtain rfl := Option.some.inj h
      simp only [desiredFlag]
      split_ifs <;> simp
    · obtain rfl := Option.some.inj h
      cases hcol
    · repeat' split at h
      all_goals first | cases h; cases hcol | cases h

def Call.Planned : Call → Prop
  | .stamped _ intent _ _ | .inserted _ intent _ _ | .superseded _ intent _ _ =>
    Boolean intent.operation intent.desired
  | _ => True

theorem Call.Planned.own {s' : Store} {c' : Call} {ev : List Event} (hc : c.Planned)
    (h : QueueStep s c s' c' ev) : c'.Planned := by
  cases h with
  | plan intent request id hplan => exact planMutation_boolean hplan
  | insert => exact hc
  | supersede =>
    unfold afterSupersede
    split
    · exact hc
    · trivial
  | _ => trivial

/-- Every queued read or star job desires 0 or 1, and so does every request on its way there. -/
theorem booleans {C : World Store Call Event → ℕ → Prop} {w : World Store Call Event}
    (h : Reach queue C w) :
    (∀ j ∈ w.store.jobs, Boolean j.operation j.desiredValue) ∧ ∀ i, (w.pc i).Planned := by
  refine Reach.shared (I := fun s _ => ∀ j ∈ s.jobs, Boolean j.operation j.desiredValue)
    (L := fun _ _ c => c.Planned) ?_ ?_ ?_ h
  · intro s hs
    rw [show s.jobs = [] from hs]
    exact ⟨by simp, trivial⟩
  · intro w i s' l' ev hw _ hI hL hst
    refine ⟨fun j' hj' => ?_, hL.own hst⟩
    obtain ⟨ho, hsound⟩ := ordered hw
    rcases (hsound i).step_jobs ho hst with hm | ⟨row, intent, id, now, rowid, hpc, hjobs, -, -⟩
    · obtain ⟨j, hj, hjm⟩ := Forall₂.prev hm hj'
      have key := JobMoves.key hjm
      rw [key.operation, key.desired]
      exact hI j hj
    · rw [hjobs] at hj'
      rcases List.mem_append.mp hj' with hj' | hj'
      · exact hI j' hj'
      · obtain rfl := List.mem_singleton.mp hj'
        rw [hpc] at hL
        exact hL
  · exact fun _ _ _ _ _ _ _ _ _ _ _ hm _ => hm

/-! ### What a step writes -/

structure FlagWrite where
  jobId : JsString
  emailId : JsString
  column : FlagColumn
  value : ℕ

/-- The flag write of the request's next statement, if that statement is one. -/
def Call.flagWrite (s : Store) : Call → Option FlagWrite
  | .superseded row intent id _ =>
    (desiredStateColumn intent.operation).map fun column =>
      ⟨id, row.id, column, intent.desired.getD 0⟩
  | .writing r job newer now =>
    if r.status = .succeeded ∧ newer = false ∧ leaseGuard r job now s.jobs = true then
      (desiredStateColumn job.operation).map fun column =>
        ⟨job.id, job.emailId, column, if job.desiredValue.getD 0 = 0 then 0 else 1⟩
    else none
  | _ => none

/-- A flag after a write that may concern it. -/
def flagAfter (write : Option FlagWrite) (row : EmailRow) (column : FlagColumn) : Option ℕ :=
  match write with
  | some f => if f.emailId = row.id ∧ f.column = column then some f.value else row.flag column
  | none => row.flag column

theorem flag_setFlag (column column' : FlagColumn) (value now : ℕ) (row : EmailRow) :
    (row.setFlag column value now).flag column' =
      if column = column' then some value else row.flag column' := by
  cases column <;> cases column' <;> rfl

theorem flags_projectFlag (f : FlagWrite) (now : ℕ) {emails : List EmailRow} {row' : EmailRow}
    (h : row' ∈ projectFlag f.column f.value now f.emailId emails) :
    ∃ row ∈ emails, row'.id = row.id ∧ ∀ column, row'.flag column = flagAfter (some f) row column := by
  obtain ⟨row, hrow, rfl⟩ := mem_updateWhere.mp h
  refine ⟨row, hrow, ?_⟩
  by_cases hid : row.id = f.emailId
  · simp [hid, flagAfter, flag_setFlag]
  · have hne : ¬ f.emailId = row.id := fun he => hid he.symm
    simp [hid, hne, flagAfter]

theorem beforeClose_desired {r : Report} {job : JobRow} {newer : Bool} {now : ℕ} {column : FlagColumn}
    (hr : r.status = .succeeded) (hcol : desiredStateColumn job.operation = some column) :
    beforeClose s r job newer now = if !newer && leaseGuard r job now s.jobs then
        { s with
          emails := projectFlag column (if job.desiredValue.getD 0 = 0 then 0 else 1) now job.emailId
            s.emails }
      else s := by
  cases hop : job.operation <;> rw [hop] at hcol <;> first | cases hcol; done | skip
  all_goals simp only [beforeClose, hr, hop, hcol]

/-- A report that is not about a succeeded read or star job leaves the flags alone. -/
theorem beforeClose_flags {r : Report} {job : JobRow} {newer : Bool} {now : ℕ}
    (h : r.status = .succeeded → desiredStateColumn job.operation = none) :
    ∀ row' ∈ (beforeClose s r job newer now).emails, ∃ row ∈ s.emails, row'.id = row.id ∧
      ∀ column, row'.flag column = row.flag column := by
  have same : ∀ row' ∈ s.emails, ∃ row ∈ s.emails, row'.id = row.id ∧
      ∀ column, row'.flag column = row.flag column := fun row hrow => ⟨row, hrow, rfl, fun _ => rfl⟩
  intro row' hrow'
  unfold beforeClose at hrow'
  split at hrow'
  · split at hrow'
    · exact same row' hrow'
    · split at hrow'
      · obtain ⟨row, hrow, rfl⟩ := mem_updateWhere.mp hrow'
        refine ⟨row, hrow, ?_⟩
        split
        · exact ⟨rfl, fun column => by cases column <;> rfl⟩
        · exact ⟨rfl, fun _ => rfl⟩
      · exact same row' hrow'
  · split at hrow'
    · exact same row' (mem_deleteWhere.mp hrow').1
    · exact same row' hrow'
  · rw [h ‹_›] at hrow'
    exact same row' hrow'
  · exact same row' hrow'

/-- Every step changes the flags by its `flagWrite` and by nothing else. -/
theorem step_flags {s' : Store} {c' : Call} {ev : List Event} (h : QueueStep s c s' c' ev) :
    ∀ row' ∈ s'.emails, ∃ row ∈ s.emails, row'.id = row.id ∧
      ∀ column, row'.flag column = flagAfter (c.flagWrite s) row column := by
  have same : ∀ row' ∈ s.emails, ∃ row ∈ s.emails, row'.id = row.id ∧
      ∀ column, row'.flag column = flagAfter none row column :=
    fun row hrow => ⟨row, hrow, rfl, fun _ => rfl⟩
  cases h with
  | @project row intent id now column hcol =>
    intro row' hrow'
    have := flags_projectFlag ⟨id, row.id, column, intent.desired.getD 0⟩ now hrow'
    simpa only [Call.flagWrite, hcol, Option.map_some] using this
  | @write r job newer now =>
    have hemails : (reportWrite s r job newer now).1.emails = s.emails ∨
        (reportWrite s r job newer now).1.emails = (beforeClose s r job newer now).emails := by
      unfold reportWrite
      split
      · exact .inr rfl
      · exact .inl rfl
    by_cases hflag : r.status = .succeeded ∧ (desiredStateColumn job.operation).isSome = true
    · obtain ⟨hr, hcol⟩ := hflag
      obtain ⟨column, hcol⟩ := Option.isSome_iff_exists.mp hcol
      have ha : acceptsProjection r job = true := by
        have hop : job.operation ≠ .move := fun hop => by rw [hop] at hcol; cases hcol
        simp [acceptsProjection, hop]
      rw [reportWrite_accepted newer now ha, beforeClose_desired hr hcol]
      by_cases hg : newer = false ∧ leaseGuard r job now s.jobs = true
      · intro row' hrow'
        have := flags_projectFlag ⟨job.id, job.emailId, column,
          if job.desiredValue.getD 0 = 0 then 0 else 1⟩ now (by simpa [hg] using hrow')
        simpa [Call.flagWrite, hr, hg, hcol] using this
      · have hnone : (Call.writing r job newer now).flagWrite s = none := by
          rw [Call.flagWrite, if_neg fun h => hg h.2]
        rw [if_neg (by simpa using hg), hnone]
        exact same
    · have hcol : r.status = .succeeded → desiredStateColumn job.operation = none := fun hr => by
        simpa using fun h => hflag ⟨hr, h⟩
      have hnone : (Call.writing r job newer now).flagWrite s = none := by
        by_cases hr : r.status = .succeeded
        · simp [Call.flagWrite, hcol hr]
        · simp [Call.flagWrite, hr]
      rw [hnone]
      rcases hemails with h | h <;> rw [h]
      · exact same
      · exact beforeClose_flags hcol
  | _ => exact same

/-- A flag is written with what the job that writes it desires. -/
theorem flagWrite_desired (ho : Ordered s.jobs) (hs : c.Sound s.jobs)
    (hb : ∀ j ∈ s.jobs, Boolean j.operation j.desiredValue) {f : FlagWrite}
    (hf : c.flagWrite s = some f) {n : JobRow} (hn : n ∈ s.jobs) (hid : n.id = f.jobId) :
    n.desiredValue = some f.value := by
  have value : ∀ {d : Option ℕ}, (d = some 0 ∨ d = some 1) →
      d = some (d.getD 0) ∧ d = some (if d.getD 0 = 0 then 0 else 1) := by
    rintro d (rfl | rfl) <;> simp
  unfold Call.flagWrite at hf
  split at hf
  · obtain ⟨column, hcol, rfl⟩ := Option.map_eq_some_iff.mp hf
    obtain ⟨k, hk, hkid, -, hop, hd⟩ := hs
    obtain rfl : n = k := eq_of_key ho.ids hn hk (hid.trans hkid.symm)
    rw [← hd]
    exact (value (hb n hn (by rw [hop, hcol]; rfl))).1
  · split at hf
    · obtain ⟨column, hcol, rfl⟩ := Option.map_eq_some_iff.mp hf
      obtain ⟨k, hk, hkey, -⟩ := hs
      obtain rfl : n = k := eq_of_key ho.ids hn hk (hid.trans hkey.id.symm)
      rw [← hkey.desired]
      exact (value (hb n hn (by rw [hkey.operation, hcol]; rfl))).2
    · cases hf
  · cases hf

/-! ### Runs without an overtaken write -/

/-- When the request is about to write a flag, the newest job of that email and operation is its own,
    or the request that queued the newest job has its own UPDATE still to come, or the newest job
    desires the value written. -/
def NotOvertaken (w : World Store Call Event) (i : ℕ) : Prop :=
  ∀ f, (w.pc i).flagWrite w.store = some f → ∀ n, Newest w.store.jobs n → n.emailId = f.emailId →
    desiredStateColumn n.operation = some f.column →
      n.id = f.jobId ∨ (∃ k, (w.pc k).Queuing n.id) ∨ n.desiredValue = some f.value

/-- The newest job of an email and operation owns the flag, or its request is about to write it. -/
def OwnsOrQueuing (w : World Store Call Event) (n : JobRow) : Prop :=
  ∀ column, desiredStateColumn n.operation = some column →
    (∃ k, (w.pc k).Queuing n.id) ∨
      ∀ row ∈ w.store.emails, row.id = n.emailId → row.flag column = n.desiredValue

/-- Between its INSERT and its UPDATE a request moves on to the UPDATE, or writes the flag. -/
theorem Queuing.step {s' : Store} {c' : Call} {ev : List Event} {n : JobRow} {column : FlagColumn}
    (h : QueueStep s c s' c' ev) (hq : c.Queuing n.id) (hs : c.Sound s.jobs) (hp : c.Planned)
    (ho : Ordered s.jobs) (hn : n ∈ s.jobs) (hcol : desiredStateColumn n.operation = some column) :
    c'.Queuing n.id ∨ ∃ value, c.flagWrite s = some ⟨n.id, n.emailId, column, value⟩ := by
  cases h with
  | @supersede row intent id now =>
    obtain rfl : id = n.id := hq
    obtain ⟨k, hk, hkid, -, hop, -⟩ := hs
    obtain rfl : n = k := eq_of_key ho.ids hn hk hkid.symm
    have hisSome : (desiredStateColumn intent.operation).isSome = true := by rw [← hop, hcol]; rfl
    rw [afterSupersede, if_pos ⟨hisSome, hp hisSome⟩]
    exact .inl rfl
  | @project row intent id now =>
    obtain rfl : id = n.id := hq
    obtain ⟨k, hk, hkid, he, hop, -⟩ := hs
    obtain rfl : n = k := eq_of_key ho.ids hn hk hkid.symm
    exact .inr ⟨_, by rw [Call.flagWrite, ← hop, hcol, he]; rfl⟩
  | _ => cases hq

theorem Newest.of_moved (h : List.Forall₂ (JobMoves t c) t u) {j n : JobRow} (hj : j ∈ t)
    (key : SameKey j n) (hn : Newest u n) : Newest t j := by
  refine ⟨hj, fun k hk he hop => ?_⟩
  obtain ⟨k', hk', hm⟩ := Forall₂.next h hk
  have key' := JobMoves.key hm
  have := hn.2 k' hk' (by rw [key'.emailId, he, key.emailId])
    (by rw [key'.operation, hop, key.operation])
  rw [key'.rowid, key.rowid] at this
  exact this

theorem owned {w : World Store Call Event} (h : Reach queue NotOvertaken w) :
    ∀ n, Newest w.store.jobs n → OwnsOrQueuing w n := by
  refine Reach.invariant (I := fun w => ∀ n, Newest w.store.jobs n → OwnsOrQueuing w n) ?_ ?_ h
  · intro s hs n hn
    rw [show s.jobs = [] from hs] at hn
    cases hn.1
  intro w i s' l' ev hw hinv hc hst n' hn' column hcol'
  obtain ⟨ho, hsound⟩ := ordered hw
  obtain ⟨hbool, hplanned⟩ := booleans hw
  have others : ∀ {k id}, k ≠ i → (w.pc k).Queuing id → ∃ k, ((w.advance i s' l' ev).pc k).Queuing id :=
    fun hk hq => ⟨_, by rw [advance_pc_ne _ _ _ _ hk]; exact hq⟩
  rcases (hsound i).step_jobs ho hst with hm | ⟨row, intent, id, now, rowid, hpc, hjobs, -, -⟩
  · obtain ⟨n, hn, hnm⟩ := Forall₂.prev hm hn'.1
    have key := JobMoves.key hnm
    have hnew := hn'.of_moved hm hn key
    have hcol : desiredStateColumn n.operation = some column := by rw [← key.operation, hcol']
    rw [key.id, key.emailId, key.desired]
    have queued : ∀ k, (w.pc k).Queuing n.id →
        (∃ k, ((w.advance i s' l' ev).pc k).Queuing n.id) ∨
          ∃ value, (w.pc i).flagWrite w.store = some ⟨n.id, n.emailId, column, value⟩ := by
      intro k hq
      by_cases hk : k = i
      · subst hk
        refine (Queuing.step hst hq (hsound k) (hplanned k) ho hn hcol).imp_left fun h => ⟨k, ?_⟩
        rw [advance_pc_self]
        exact h
      · exact .inl (others hk hq)
    -- what the step may write to the flag of this email
    by_cases hfw : ∃ f, (w.pc i).flagWrite w.store = some f ∧ f.emailId = n.emailId ∧ f.column = column
    · obtain ⟨f, hf, hfe, hfc⟩ := hfw
      have written : n.desiredValue = some f.value → ∀ row ∈ s'.emails, row.id = n.emailId →
          row.flag column = n.desiredValue := by
        intro hd row' hrow' hid
        obtain ⟨row, -, hrid, hflag⟩ := step_flags hst row' hrow'
        rw [hflag column, hf, flagAfter, if_pos ⟨by rw [hfe, ← hid, hrid], hfc⟩, hd]
      rcases hc f hf n hnew hfe.symm (by rw [hfc]; exact hcol) with hid | ⟨k, hq⟩ | hd
      · exact .inr (written (flagWrite_desired ho (hsound i) hbool hf hn hid))
      · rcases queued k hq with hq | ⟨value, hf'⟩
        · exact .inl hq
        · obtain rfl : f = _ := Option.some.inj (hf.symm.trans hf')
          exact .inr (written (flagWrite_desired ho (hsound i) hbool hf hn rfl))
      · exact .inr (written hd)
    · rcases hinv n hnew column hcol with ⟨k, hq⟩ | hown
      · rcases queued k hq with hq | ⟨value, hf⟩
        · exact .inl hq
        · exact absurd ⟨_, hf, rfl, rfl⟩ hfw
      · refine .inr fun row' hrow' hid => ?_
        obtain ⟨row, hrow, hrid, hflag⟩ := step_flags hst row' hrow'
        have kept : flagAfter ((w.pc i).flagWrite w.store) row column = row.flag column := by
          unfold flagAfter
          split
          · exact if_neg fun h => hfw ⟨_, ‹_›, by rw [h.1, ← hrid, hid], h.2⟩
          · rfl
        rw [hflag column, kept]
        exact hown row hrow (by rw [← hrid, hid])
  · rw [advance_store, hjobs] at hn'
    rcases List.mem_append.mp hn'.1 with hn | hn
    · have hnew : Newest w.store.jobs n' :=
        ⟨hn, fun k hk => hn'.2 k (List.mem_append_left _ hk)⟩
      have hnone : (w.pc i).flagWrite w.store = none := by rw [hpc]; rfl
      rcases hinv n' hnew column hcol' with ⟨k, hq⟩ | hown
      · refine .inl (others (fun hk => ?_) hq)
        rw [hk, hpc] at hq
        exact hq
      · refine .inr fun row' hrow' hid => ?_
        obtain ⟨row, hrow, hrid, hflag⟩ := step_flags hst row' hrow'
        rw [hflag column, hnone]
        exact hown row hrow (by rw [← hrid, hid])
    · -- the new job: its request has its UPDATE still to come
      obtain rfl := List.mem_singleton.mp hn
      refine .inl ⟨i, ?_⟩
      rw [advance_pc_self]
      rw [hpc] at hst
      cases hst
      rfl

/-- Along every run in which no flag write has been overtaken, the newest intent owns the flag. -/
theorem newest_owns_flag {w : World Store Call Event} (h : Reach queue NotOvertaken w) :
    NewestOwnsFlag w := by
  intro hq n hn column hcol row hrow hid
  rcases owned h n hn column hcol with ⟨k, hk⟩ | hown
  · exact absurd hk (hq k _)
  · exact hown row hrow hid

/-! ### Runs -/

theorem NotOvertaken.of_none {w : World Store Call Event} {i : ℕ}
    (h : (w.pc i).flagWrite w.store = none) : NotOvertaken w i := by
  intro f hf
  rw [h] at hf
  cases hf

/-- One read request from its load to its UPDATE. -/
theorem newest_owns_flag_run : ∃ w : World Store Call Event, Reach queue NotOvertaken w ∧
    NewestOwnsFlag w ∧ w.store.emails.map (·.isRead) = [some 1] := by
  have h : Reach queue NotOvertaken ⟨demoStore, fun _ => .idle, []⟩ := .start rfl
  have h := h.next 0 (.of_none rfl) (.load demoEmail (js "m1") (by decide))
  have h := h.next 0 (.of_none rfl) (.plan (readIntent 1) (.state .isRead (some 1)) (js "j1") (by decide))
  have h := h.next 0 (.of_none rfl) (.insert 1 (by decide) (by decide))
  have h := h.next 0 (.of_none rfl) .supersede
  have h := h.next 0 (fun f hf n hn _ _ => .inl ?_) (.project rfl)
  · exact ⟨_, h, newest_owns_flag h, by decide⟩
  · obtain rfl := Option.some.inj hf
    rw [List.mem_singleton.mp hn.1]
    rfl

/-- Request 0 inserts first, request 1 inserts second and writes its flag first: the older intent
    owns the flag. -/
theorem overlapping_requests : ¬ ∀ w : World Store Call Event, Reachable queue w → NewestOwnsFlag w := by
  intro hall
  have h : Reachable queue ⟨demoStore, fun _ => .idle, []⟩ := .start rfl
  have h := h.next 0 trivial (.load demoEmail (js "m1") (by decide))
  have h := h.next 1 trivial (.load demoEmail (js "m1") (by decide))
  have h := h.next 0 trivial (.plan (readIntent 1) (.state .isRead (some 1)) (js "j1") (by decide))
  have h := h.next 0 trivial (.insert 1 (by decide) (by decide))
  have h := h.next 1 trivial (.plan (readIntent 0) (.state .isRead (some 0)) (js "j2") (by decide))
  have h := h.next 1 trivial (.insert 2 (by decide) (by decide))
  have h := h.next 1 trivial .supersede
  have h := h.next 1 trivial (.project rfl)
  have h := h.next 0 trivial .supersede
  have h := h.next 0 trivial (.project rfl)
  have hflag := hall _ h (fun i id => ?_) (newJob 2 demoEmail (readIntent 0) (js "j2") 0)
    ⟨by decide, by decide⟩ .isRead rfl
    ((demoEmail.setFlag .isRead 0 0).setFlag .isRead 1 0) (by decide) rfl
  · revert hflag
    decide
  · by_cases h0 : i = 0 <;> by_cases h1 : i = 1 <;>
      simp_all [World.advance, Function.update, Call.Queuing]

end OneMail.Mutation
