import OneMail.Backfill.Migration

/-! Backfill loses nothing and stays within its budget.

    A page is deleted at the source only after every row of it was found, with the same digest, in the
    target, and the DELETE names all columns; as nobody writes the account's rows, each deleted row is
    in the target when it goes. The ledger is charged before the DELETE is sent and corrected after its
    answer, so that at each moment it covers what was written (`backfill_safe`). The charge is booked on
    the day of the reservation: a DELETE that takes effect later than the guard before midnight allows
    for may write on the next day (`late_delete_uncovered`). -/

namespace OneMail.Backfill

open Table Transition

/-- No row of the source shares its digest with a different row of the target. -/
def NoCollision (digest : Row → BitVec 256) (w : World) : Prop :=
  ∀ a ∈ w.source, ∀ b ∈ w.target, digest a = digest b → a = b

/-- Each run's daily budget is at most `budget`, and no DELETE writes more rows than were reserved for
    it. -/
def Affordable (budget : ℕ) (w : World) : Label → Prop
  | .launch o => o.dailyBudget ≤ budget
  | .delete actual => ∀ o s cost l day page used reservedAt,
      w.pc = .reserved o s cost l day page used reservedAt → actual ≤ page.length * cost
  | .other => True

/-- A DELETE takes effect within the timeout and a minute of the clock reading that it was reserved
    at. -/
def Prompt (w : World) : Label → Prop
  | .delete _ => ∀ o s cost l day page used reservedAt,
      w.pc = .reserved o s cost l day page used reservedAt →
        w.clock ≤ reservedAt + o.timeoutMs + 60000
  | _ => True

def Fair (digest : Row → BitVec 256) (budget : ℕ) (w : World) (label : Label) : Prop :=
  NoCollision digest w ∧ Affordable budget w label

def PromptlyFair (digest : Row → BitVec 256) (budget : ℕ) (w : World) (label : Label) : Prop :=
  Fair digest budget w label ∧ Prompt w label

/-! ### Pages -/

variable {digest : Row → BitVec 256} {quiesced : JsString → Prop} {budget : ℕ} {w w' : World}

theorem mem_emailPage {rows : List Row} {account : JsString} {cursor : Option (ℤ × JsString)} {size : ℕ}
    {row : Row} (h : row ∈ emailPage rows account cursor size) : row ∈ rows ∧ row.accountId = account := by
  obtain ⟨hmem, hp⟩ := mem_of_mem_selectTop h
  rw [Bool.and_eq_true, emailScope, Bool.and_eq_true, decide_eq_true_iff] at hp
  exact ⟨hmem, hp.1.1⟩

theorem emailPage_length_le (rows : List Row) (account : JsString) (cursor : Option (ℤ × JsString))
    (size : ℕ) : (emailPage rows account cursor size).length ≤ size := List.length_take_le _ _

/-- A verified page is in the target, if no digest is shared by two rows. -/
theorem mem_target_of_verified {source target page : List Row} {row : Row}
    (hcollision : ∀ a ∈ source, ∀ b ∈ target, digest a = digest b → a = b)
    (h : verifyEmailChunk digest target page = true) (hsource : row ∈ source) (hrow : row ∈ page) :
    row ∈ target := by
  rw [verifyEmailChunk, Bool.and_eq_true] at h
  obtain ⟨m, hfind, hdigest⟩ := (Option.any_eq_true _ _).mp (List.all_eq_true.mp h.2 row hrow)
  have hmem : m ∈ target := by
    have hfound := List.mem_reverse.mp (List.mem_of_find?_eq_some hfind)
    exact List.mem_of_mem_filter (List.mem_of_mem_take hfound)
  rwa [hcollision row hsource m hmem (of_decide_eq_true hdigest)]

/-- A page that the budget has room for. -/
theorem page_affordable {o : Options} {used cost capacity n : ℕ}
    (hcapacity : capacity = (o.dailyBudget - used) / cost) (hpos : 0 < capacity)
    (hn : n ≤ maxRows o capacity) : used + n * cost ≤ o.dailyBudget := by
  have hle : n ≤ capacity := hn.trans ((min_le_left _ _).trans (min_le_right _ _))
  have hroom : n * cost ≤ o.dailyBudget - used := by
    refine (Nat.mul_le_mul_right cost hle).trans ?_
    rw [hcapacity]
    exact Nat.div_mul_le_self _ _
  have hused : used ≤ o.dailyBudget := by
    by_contra hcon
    rw [Nat.sub_eq_zero_of_le (not_le.mp hcon).le, Nat.zero_div] at hcapacity
    omega
  omega

/-! ### The invariant -/

def Pc.options : Pc → Option Options
  | .idle => none
  | .opened o _ | .copying o _ | .ingesting o _ _ | .acknowledging o _ _ | .finishing o _
  | .stabilizing o _ _ | .costing o _ | .deleting o _ _ _ | .checking o _ _ _ _ _
  | .reserved o _ _ _ _ _ _ _ | .answered o _ _ _ _ _ _ _ _ | .settled o _ _ _ _ => some o

/-- The reservation of a DELETE is stored, and covers what has been written and what it may write. -/
structure Charged (w : World) (cost : ℕ) (l : Ledger) (day : ℕ) (page : List Row)
    (used spent : ℕ) : Prop where
  stored : l = w.stored
  entry : l.days day = used + page.length * cost
  written : w.written day ≤ used + spent
  spent : spent ≤ page.length * cost

/-- What a run knows where it stands. -/
def Local (budget : ℕ) (w : World) : Pc → Prop
  | .deleting _ _ _ l => l = w.stored
  | .settled _ _ _ l _ => l = w.stored
  | .checking o _ cost l day page => l = w.stored ∧ l.days day + page.length * cost ≤ budget ∧
      ∀ row ∈ page, row ∈ w.source ∧ row.accountId = o.account
  | .reserved o _ cost l day page used reservedAt => Charged w cost l day page used 0 ∧
      (∀ row ∈ page, row ∈ w.target ∧ row.accountId = o.account) ∧
      reservedAt / dayMs = day ∧ reservedAt ≤ w.clock ∧ beforeMidnight o reservedAt = true
  | .answered _ _ cost l day page used actual _ => Charged w cost l day page used actual
  | _ => True

structure Inv (quiesced : JsString → Prop) (budget : ℕ) (w : World) : Prop where
  covered : ∀ day, w.written day ≤ w.stored.days day
  within : ∀ day, w.stored.days day ≤ budget
  kept : ∀ d ∈ w.deletions, d.row ∈ d.target
  options : ∀ o, w.pc.options = some o → quiesced o.account ∧ o.dailyBudget ≤ budget
  here : Local budget w w.pc

/-- A step that leaves the ledger and the record of what happened as they are. -/
theorem Inv.move (h : Inv quiesced budget w) (hledger : w'.ledger = w.ledger)
    (hwritten : w'.written = w.written) (hdeletions : w'.deletions = w.deletions)
    (hoptions : ∀ o, w'.pc.options = some o → quiesced o.account ∧ o.dailyBudget ≤ budget)
    (hhere : Local budget w' w'.pc) : Inv quiesced budget w' where
  covered day := by
    rw [hwritten, World.stored, hledger]
    exact h.covered day
  within day := by
    rw [World.stored, hledger]
    exact h.within day
  kept d hd := h.kept d (hdeletions ▸ hd)
  options := hoptions
  here := hhere

/-- A step that only changes the ledger, and where the run stands. -/
theorem Inv.charge (h : Inv quiesced budget w) {l : Ledger} {pc : Pc} (day n : ℕ)
    (hothers : ∀ d, d ≠ day → l.days d = w.stored.days d) (hday : l.days day = n)
    (hwritten : w.written day ≤ n) (hn : n ≤ budget)
    (hoptions : ∀ o, pc.options = some o → quiesced o.account ∧ o.dailyBudget ≤ budget)
    (hhere : Local budget { w with ledger := some l, pc := pc } pc) :
    Inv quiesced budget { w with ledger := some l, pc := pc } where
  covered d := by
    show w.written d ≤ l.days d
    by_cases hd : d = day
    · rw [hd, hday]
      exact hwritten
    · rw [hothers d hd]
      exact h.covered d
  within d := by
    show l.days d ≤ budget
    by_cases hd : d = day
    · rw [hd, hday]
      exact hn
    · rw [hothers d hd]
      exact h.within d
  kept := h.kept
  options := hoptions
  here := hhere

theorem Ledger.set_other {l : Ledger} {day n d : ℕ} (h : d ≠ day) : (l.set day n).days d = l.days d :=
  Function.update_of_ne h ..

theorem Ledger.set_day (l : Ledger) (day n : ℕ) : (l.set day n).days day = n := Function.update_self ..

/-- What a run knows survives the writers of other accounts and the passing of time. -/
theorem Local.elsewhere {source target : List Row} (ms : ℕ) (h : Inv quiesced budget w)
    (hsource : Undisturbed quiesced w.source source) (htarget : Undisturbed quiesced w.target target) :
    Local budget { w with source := source, target := target, clock := w.clock + ms } w.pc := by
  have hhere := h.here
  have hoptions := h.options
  cases hpc : w.pc with
  | checking o s cost l day page =>
    rw [hpc] at hhere hoptions
    refine ⟨hhere.1, hhere.2.1, fun row hrow => ?_⟩
    obtain ⟨hmem, hacc⟩ := hhere.2.2 row hrow
    exact ⟨(hsource row (hacc ▸ (hoptions o rfl).1)).mp hmem, hacc⟩
  | reserved o s cost l day page used reservedAt =>
    rw [hpc] at hhere hoptions
    obtain ⟨hcharged, hpage, hday, hclock, hguard⟩ := hhere
    refine ⟨⟨hcharged.stored, hcharged.entry, hcharged.written, hcharged.spent⟩, fun row hrow => ?_,
      hday, hclock.trans (Nat.le_add_right _ _), hguard⟩
    obtain ⟨hmem, hacc⟩ := hpage row hrow
    exact ⟨(htarget row (hacc ▸ (hoptions o rfl).1)).mp hmem, hacc⟩
  | answered o s cost l day page used actual changes =>
    rw [hpc] at hhere
    exact ⟨hhere.stored, hhere.entry, hhere.written, hhere.spent⟩
  | deleting o s cost l =>
    rw [hpc] at hhere
    exact hhere
  | settled o s cost l page =>
    rw [hpc] at hhere
    exact hhere
  | _ => trivial

/-- A prompt DELETE takes effect on the day of its reservation. -/
theorem same_day {o : Options} {clock reservedAt : ℕ} (hguard : beforeMidnight o reservedAt = true)
    (hle : reservedAt ≤ clock) (hprompt : clock ≤ reservedAt + o.timeoutMs + 60000) :
    clock / dayMs = reservedAt / dayMs := by
  rw [beforeMidnight, decide_eq_true_iff, dayMs] at hguard
  rw [dayMs]
  omega

/-- The DELETE itself: it finds its rows in the target, and its reservation covers it. -/
theorem delete_inv {o : Options} {s : Checkpoint} {cost : ℕ} {l : Ledger} {day : ℕ} {page gone : List Row}
    {used reservedAt actual changes : ℕ} (h : Inv quiesced budget w)
    (hpc : w.pc = .reserved o s cost l day page used reservedAt) (hactual : actual ≤ page.length * cost)
    (hprompt : w.clock ≤ reservedAt + o.timeoutMs + 60000) (hgone : ∀ row ∈ gone, row ∈ page) :
    Inv quiesced budget { w with
      source := deleteWhere (fun row => gone.contains row) w.source
      pc := .answered o s cost l day page used actual changes
      written := Function.update w.written w.today (w.written w.today + actual)
      deletions := gone.map (fun row => ⟨row, w.target⟩) ++ w.deletions } := by
  have hhere := h.here
  have hoptions := h.options
  rw [hpc] at hhere hoptions
  obtain ⟨hcharged, hpage, hday, hclock, hguard⟩ := hhere
  have htoday : w.today = day := (same_day hguard hclock hprompt).trans hday
  have hentry : w.stored.days day = used + page.length * cost := hcharged.stored ▸ hcharged.entry
  have hwritten := hcharged.written
  refine ⟨fun d => ?_, h.within, fun d hd => ?_, hoptions, hcharged.stored, hcharged.entry, ?_, hactual⟩
  · show Function.update w.written w.today (w.written w.today + actual) d ≤ w.stored.days d
    rw [htoday]
    by_cases hd : d = day
    · subst hd
      rw [Function.update_self, hentry]
      omega
    · rw [Function.update_of_ne hd]
      exact h.covered d
  · rcases List.mem_append.mp hd with hd | hd
    · obtain ⟨row, hrow, rfl⟩ := List.mem_map.mp hd
      exact (hpage row (hgone row hrow)).1
    · exact h.kept d hd
  · show Function.update w.written w.today (w.written w.today + actual) day ≤ used + actual
    rw [htoday, Function.update_self]
    omega

theorem step_inv {label : Label} (h : Inv quiesced budget w)
    (hc : PromptlyFair digest budget w label) (hst : Acts digest quiesced w label w') :
    Inv quiesced budget w' := by
  obtain ⟨⟨hcollision, hafford⟩, hprompt⟩ := hc
  have hoptions := h.options
  have hhere := h.here
  cases hst with
  | tick ms => exact h.move rfl rfl rfl hoptions (Local.elsewhere ms h (fun _ _ => .rfl) fun _ _ => .rfl)
  | elsewhere hsource htarget =>
    exact h.move rfl rfl rfl hoptions (Local.elsewhere 0 h hsource htarget)
  | crash => exact h.move rfl rfl rfl (fun o ho => absurd ho (by simp [Pc.options])) trivial
  | launch hpc hquiesced hload =>
    refine h.move rfl rfl rfl (fun o ho => ?_) trivial
    obtain rfl := Option.some.inj ho
    exact ⟨hquiesced, hafford⟩
  | startCopy hpc _ | folderPage _ hpc _ _ | foldersDone hpc _ _ | readPage hpc _ _ _ _ _
  | ingest hpc _ | acknowledge hpc _ _ _ | copied hpc _ _ _ | verifyFirst _ hpc _ _ _ _
  | verifyStable _ hpc _ _ =>
    rw [hpc] at hoptions
    exact h.move rfl rfl rfl hoptions trivial
  | finishCopy _ hpc _ _ | count hpc _ | verify _ hpc _ _ | finishDelete _ hpc _ _ _ _ =>
    exact h.move rfl rfl rfl (fun o ho => absurd ho (by simp [Pc.options])) trivial
  | startDelete _ hpc _ _ =>
    rw [hpc] at hoptions
    exact h.move rfl rfl rfl hoptions rfl
  | choosePage hpc hverified hcount hguard hcapacity hpos hpage hne =>
    rename_i o s cost l t capacity page
    rw [hpc] at hoptions hhere
    refine h.move rfl rfl rfl hoptions ⟨hhere, ?_, fun row hrow => ?_⟩
    · have hlength : page.length ≤ maxRows o capacity := hpage ▸ emailPage_length_le _ _ _ _
      exact (page_affordable hcapacity hpos hlength).trans (hoptions o rfl).2
    · rw [hpage] at hrow
      exact mem_emailPage hrow
  | reserve hpc hverified hday hguard =>
    rename_i o s cost l day page
    rw [hpc] at hoptions hhere
    obtain ⟨rfl, hroom, hpage⟩ := hhere
    refine h.charge day _ (fun d hd => Ledger.set_other hd) (Ledger.set_day _ _ _)
      ((h.covered day).trans (Nat.le_add_right _ _)) hroom hoptions ⟨⟨rfl, ?_, ?_, Nat.zero_le _⟩, ?_,
        hday, le_rfl, hguard⟩
    · exact Ledger.set_day _ _ _
    · exact h.covered day
    · exact fun row hrow =>
        ⟨mem_target_of_verified hcollision hverified (hpage row hrow).1 hrow, (hpage row hrow).2⟩
  | delete pendingJobs actual hpc hgone =>
    refine delete_inv h hpc (hafford _ _ _ _ _ _ _ _ hpc) (hprompt _ _ _ _ _ _ _ _ hpc)
      fun row hrow => ?_
    rw [hgone] at hrow
    split at hrow
    · cases hrow
    · have hp := (List.mem_filter.mp hrow).2
      rw [Bool.and_eq_true, List.contains_iff_mem] at hp
      exact hp.2
  | unaccounted hpc =>
    rename_i o s cost l day page used actual changes
    rw [hpc] at hhere
    refine h.charge day (l.days day) (fun d _ => ?_) rfl ?_ ?_
      (fun o ho => absurd ho (by simp [Pc.options])) trivial
    · rw [hhere.stored]
    · rw [hhere.stored]
      exact h.covered day
    · rw [hhere.stored]
      exact h.within day
  | overspent hpc hover =>
    rw [hpc] at hhere
    exact absurd hhere.spent (not_le.mpr hover)
  | settle hpc hspent =>
    rename_i o s cost l day page used actual changes
    rw [hpc] at hoptions hhere
    have hentry : w.stored.days day = used + page.length * cost := hhere.stored ▸ hhere.entry
    have hwithin := h.within day
    refine h.charge day (used + actual) (fun d hd => ?_) (Ledger.set_day _ _ _) hhere.written (by omega)
      (fun o ho => ?_) ?_
    · rw [Ledger.set_other hd, hhere.stored]
    · split at ho
      · exact hoptions o ho
      · cases ho
    · split
      · rfl
      · trivial
  | record hpc _ =>
    rw [hpc] at hoptions hhere
    exact h.move rfl rfl rfl hoptions hhere

theorem run_inv (h : Run (system digest quiesced) (PromptlyFair digest budget) w) :
    Inv quiesced budget w := by
  refine h.invariant (fun w hinit => ?_) fun w label w' _ hinv hc hst => step_inv hinv hc hst
  obtain ⟨-, hledger, hpc, hwritten, hdeletions⟩ := hinit
  refine ⟨fun day => ?_, fun day => ?_, fun d hd => ?_, fun o ho => ?_, ?_⟩
  · rw [hwritten]
    exact Nat.zero_le _
  · rw [World.stored, hledger]
    exact Nat.zero_le _
  · rw [hdeletions] at hd
    cases hd
  · rw [hpc] at ho
    cases ho
  · rw [hpc]
    trivial

/-- In every sequence of runs, with crashes and lost answers anywhere, each row deleted from the source
    was in the target with the same columns at that moment, and on each day the rows written at the
    source are covered by the ledger's entry, which stays within the daily budget; if no DELETE takes
    effect later than the guard before midnight allows for. -/
theorem backfill_safe (digest : Row → BitVec 256) (quiesced : JsString → Prop) (budget : ℕ)
    (h : Run (system digest quiesced) (PromptlyFair digest budget) w) :
    (∀ d ∈ w.deletions, d.row ∈ d.target) ∧
      ∀ day, w.written day ≤ w.stored.days day ∧ w.stored.days day ≤ budget := by
  have hinv := run_inv h
  exact ⟨hinv.kept, fun day => ⟨hinv.covered day, hinv.within day⟩⟩

/-! ### A run that moves one mail -/

def oneMail : Row := ⟨js "m", js "imap_qq", js "a", 1, []⟩

/-- The options of the run, two minutes before midnight of the first day. -/
def moving (command : Command) : Options where
  command := command
  account := js "a"
  shard := js "s"
  stateFile := js "f"
  chunkSize := 15
  timeoutMs := 45000
  dailyBudget := 80000
  confirmCopy := some (js "a")
  confirmDelete := some (js "a")
  sourceQuiesced := true
  chunk_bounds := by decide
  timeout_bounds := by decide
  budget_bounds := by decide

/-- The checkpoint while the copy runs. -/
def copyCheckpoint (folders : Bool) (cursor : Option (ℤ × JsString)) (copied : ℕ) : Checkpoint :=
  ⟨js "a", js "s", false, some ⟨.copy, folders, none, cursor, copied, false⟩, none, false⟩

/-- The checkpoint after the copy. -/
def copiedCheckpoint (verified : Option Tally) (deletionStarted : Bool) : Checkpoint :=
  ⟨js "a", js "s", true, some ⟨.copy, false, none, some (1, js "m"), 1, true⟩, verified,
    deletionStarted⟩

def movingTally : Tally := ⟨1, 1, 0, 1⟩

def movingSystem : System World Label := system (fun _ => 1) fun _ => True

/-- Two minutes before midnight, one mail in the source and no ledger yet. -/
abbrev stageWorld (target : List Row) (files : JsString → Option Checkpoint) (pc : Pc) : World :=
  ⟨[oneMail], target, files, none, 86280000, pc, fun _ => 0, []⟩

/-- The run has come to `pc`, with this target and this checkpoint file. -/
def Stage (target : List Row) (s : Option Checkpoint) (pc : Pc) : Prop :=
  ∃ files : JsString → Option Checkpoint, files (js "f") = s ∧
    Run movingSystem (PromptlyFair (fun _ => 1) 80000) (stageWorld target files pc)

variable {target target' : List Row} {s s' : Option Checkpoint} {pc pc' : Pc}

theorem noCollision_of_oneMail {files : JsString → Option Checkpoint} {ledger : Option Ledger}
    {clock : ℕ} {written : ℕ → ℕ} {deletions : List Deletion} (h : ∀ row ∈ target, row = oneMail) :
    NoCollision (fun _ => 1) ⟨[oneMail], target, files, ledger, clock, pc, written, deletions⟩ := by
  intro a ha b hb _
  rw [List.mem_singleton.mp ha, h b hb]

/-- A step that writes no checkpoint. -/
theorem Stage.next (h : Stage target s pc) (htarget : ∀ row ∈ target, row = oneMail)
    (hst : ∀ files : JsString → Option Checkpoint, Acts (fun _ => 1) (fun _ => True)
      (stageWorld target files pc) .other (stageWorld target' files pc')) : Stage target' s pc' := by
  obtain ⟨files, hfile, hrun⟩ := h
  exact ⟨files, hfile,
    hrun.next (a := .other) ⟨⟨noCollision_of_oneMail htarget, trivial⟩, trivial⟩ (hst files)⟩

/-- A step that saves the checkpoint. -/
theorem Stage.save (h : Stage target s pc) (htarget : ∀ row ∈ target, row = oneMail) {c : Checkpoint}
    (hst : ∀ files : JsString → Option Checkpoint, Acts (fun _ => 1) (fun _ => True)
      (stageWorld target files pc) .other
      (stageWorld target (Function.update files (js "f") (some c)) pc')) : Stage target (some c) pc' := by
  obtain ⟨files, hfile, hrun⟩ := h
  exact ⟨_, Function.update_self .., hrun.next (a := .other)
    ⟨⟨noCollision_of_oneMail htarget, trivial⟩, trivial⟩ (hst files)⟩

theorem Stage.launch (h : Stage target s .idle) (htarget : ∀ row ∈ target, row = oneMail)
    (command : Command) {c : Checkpoint} (hload : loadCheckpoint (moving command) s = some c) :
    Stage target s (.opened (moving command) c) := by
  obtain ⟨files, hfile, hrun⟩ := h
  refine ⟨files, hfile, hrun.next (a := .launch (moving command))
    ⟨⟨noCollision_of_oneMail htarget, le_rfl⟩, trivial⟩ (.launch rfl trivial ?_)⟩
  rwa [← hfile] at hload

theorem page_of_oneMail : [oneMail] = emailPage [oneMail] (js "a") none 15 := by decide

theorem chunk_of_oneMail : verifyEmailChunk (fun _ => 1) [oneMail] [oneMail] = true := by decide

theorem verify_oneMail :
    verify (fun _ => 1) [oneMail] [oneMail] (js "a") (some []) = some movingTally := by decide

theorem stage_copied : Stage [oneMail] (some (copiedCheckpoint none false)) .idle := by
  have hnone : ∀ row ∈ ([] : List Row), row = oneMail := fun row h => absurd h List.not_mem_nil
  have hone : ∀ row ∈ [oneMail], row = oneMail := fun row h => List.mem_singleton.mp h
  have hend : emailPage [oneMail] (js "a") (some (1, js "m")) 15 = [] := by decide
  have started : Stage [] none .idle :=
    ⟨fun _ => none, rfl, .start ⟨rfl, rfl, rfl, rfl, rfl⟩⟩
  have opened := started.launch hnone .copy rfl
  have copying : Stage [] (some (copyCheckpoint true none 0))
      (.copying (moving .copy) (copyCheckpoint true none 0)) :=
    opened.save hnone fun files => .startCopy (w := stageWorld [] files _) rfl rfl
  have emails : Stage [] (some (copyCheckpoint false none 0))
      (.copying (moving .copy) (copyCheckpoint false none 0)) :=
    copying.save hnone fun files => .foldersDone (w := stageWorld [] files _) rfl rfl rfl
  have ingesting : Stage [] (some (copyCheckpoint false none 0))
      (.ingesting (moving .copy) (copyCheckpoint false none 0) [oneMail]) :=
    emails.next hnone fun files => .readPage (w := stageWorld [] files _) rfl rfl rfl
      page_of_oneMail (by decide) (by decide)
  have ingested : Stage [oneMail] (some (copyCheckpoint false none 0))
      (.acknowledging (moving .copy) (copyCheckpoint false none 0) [oneMail]) :=
    ingesting.next hnone fun files =>
      .ingest (w := stageWorld [] files _) rfl ⟨[oneMail], .refl _, fun _ _ _ h => absurd h List.not_mem_nil, rfl⟩
  have acknowledged : Stage [oneMail] (some (copyCheckpoint false (some (1, js "m")) 1))
      (.copying (moving .copy) (copyCheckpoint false (some (1, js "m")) 1)) :=
    ingested.save hone fun files => .acknowledge (w := stageWorld [oneMail] files _) rfl chunk_of_oneMail
      rfl rfl
  have finishing : Stage [oneMail] (some (copyCheckpoint false (some (1, js "m")) 1))
      (.finishing (moving .copy) (copyCheckpoint false (some (1, js "m")) 1)) :=
    acknowledged.next hone fun files => .copied (w := stageWorld [oneMail] files _) rfl rfl rfl hend
  exact finishing.save hone fun files => .finishCopy (w := stageWorld [oneMail] files _)
    (t := movingTally) (some []) rfl verify_oneMail rfl

/-- The day of the run. -/
abbrev firstDay : ℕ := 86280000 / dayMs

def reservedLedger : Ledger := Ledger.empty.set firstDay (0 + 1 * 2)

/-- The run has reserved its DELETE. -/
abbrev reservedWorld (files : JsString → Option Checkpoint) : World :=
  ⟨[oneMail], [oneMail], files, some reservedLedger, 86280000,
    .reserved (moving .delete) (copiedCheckpoint (some movingTally) true) 2 reservedLedger
      firstDay [oneMail] 0 86280000, fun _ => 0, []⟩

theorem run_reserved : ∃ files : JsString → Option Checkpoint,
    Run movingSystem (PromptlyFair (fun _ => 1) 80000) (reservedWorld files) := by
  have hone : ∀ row ∈ [oneMail], row = oneMail := fun row h => List.mem_singleton.mp h
  have hguard : beforeMidnight (moving .delete) 86280000 = true := by decide
  have hcapacity : 40000 = (80000 - Ledger.empty.days firstDay) / 2 := by decide
  have hpage : [oneMail] = emailPage [oneMail] (js "a") none (maxRows (moving .delete) 40000) := by decide
  have verified : Stage [oneMail] (some (copiedCheckpoint (some movingTally) false)) .idle :=
    (stage_copied.launch hone .verify rfl).save hone fun files =>
      .verify (w := stageWorld [oneMail] files _) (some []) rfl rfl verify_oneMail
  have stabilizing : Stage [oneMail] (some (copiedCheckpoint (some movingTally) false))
      (.stabilizing (moving .delete) (copiedCheckpoint (some movingTally) false) movingTally) :=
    (verified.launch hone .delete rfl).next hone fun files =>
      .verifyFirst (w := stageWorld [oneMail] files _) (some []) rfl rfl rfl verify_oneMail rfl
  have costing : Stage [oneMail] (some (copiedCheckpoint (some movingTally) false))
      (.costing (moving .delete) (copiedCheckpoint (some movingTally) false)) :=
    stabilizing.next hone fun files =>
      .verifyStable (w := stageWorld [oneMail] files _) (some []) rfl verify_oneMail rfl
  have deleting : Stage [oneMail] (some (copiedCheckpoint (some movingTally) true))
      (.deleting (moving .delete) (copiedCheckpoint (some movingTally) true) 2 .empty) :=
    costing.save hone fun files =>
      .startDelete (w := stageWorld [oneMail] files _) 1 rfl (by decide) rfl
  have checking : Stage [oneMail] (some (copiedCheckpoint (some movingTally) true))
      (.checking (moving .delete) (copiedCheckpoint (some movingTally) true) 2 .empty firstDay [oneMail]) :=
    deleting.next hone fun files =>
      .choosePage (w := stageWorld [oneMail] files _) (t := movingTally) rfl rfl (by decide) hguard
        hcapacity (by decide) hpage (by decide)
  obtain ⟨files, -, hrun⟩ := checking
  exact ⟨files, hrun.next (a := .other) ⟨⟨noCollision_of_oneMail hone, trivial⟩, trivial⟩
    (.reserve (w := stageWorld [oneMail] files _) rfl chunk_of_oneMail rfl hguard)⟩

theorem prompt_of_eq {clock reservedAt timeoutMs : ℕ} (h : clock = reservedAt) :
    clock ≤ reservedAt + timeoutMs + 60000 := by
  omega

theorem gone_oneMail : [oneMail] = if false then [] else
    [oneMail].filter fun row => emailScope (js "a") row && [oneMail].contains row := by decide

theorem backfill_safe_demo : ∃ w : World, w.deletions = [⟨oneMail, [oneMail]⟩] ∧ w.source = [] ∧
    (∀ d ∈ w.deletions, d.row ∈ d.target) ∧
      ∀ day, w.written day ≤ w.stored.days day ∧ w.stored.days day ≤ 80000 := by
  obtain ⟨files, hrun⟩ := run_reserved
  refine ⟨_, ?_, ?_, backfill_safe (fun _ => 1) (fun _ => True) 80000
    (hrun.next (a := .delete 2) ⟨⟨?_, ?_⟩, ?_⟩ (.delete false 2 rfl gone_oneMail))⟩
  · rfl
  · show deleteWhere (fun row => [oneMail].contains row) [oneMail] = []
    decide
  · exact noCollision_of_oneMail fun row h => List.mem_singleton.mp h
  · rintro o s cost l day page used reservedAt hpc
    cases hpc
    decide
  · rintro o s cost l day page used reservedAt hpc
    cases hpc
    exact prompt_of_eq rfl

/-- The process stalls for three minutes between the reservation and the DELETE. The rows are written
    on the second day, whose entry is 0. -/
theorem late_delete_uncovered : ∃ w : World,
    Run (system (fun _ => 1) fun _ => True) (Fair (fun _ => 1) 80000) w ∧
      w.stored.days 1 < w.written 1 := by
  obtain ⟨files, hrun⟩ := run_reserved
  have hone : ∀ row ∈ [oneMail], row = oneMail := fun row h => List.mem_singleton.mp h
  have reserved : Run movingSystem (Fair (fun _ => 1) 80000) (reservedWorld files) :=
    hrun.mono fun _ _ h => h.1
  have stalled : Run movingSystem (Fair (fun _ => 1) 80000)
      { reservedWorld files with clock := 86280000 + 180000 } :=
    reserved.next (a := .other) ⟨noCollision_of_oneMail hone, trivial⟩
      (.tick (w := reservedWorld files) 180000)
  refine ⟨_, stalled.next (a := .delete 2) ⟨noCollision_of_oneMail hone, ?_⟩
    (.delete false 2 rfl gone_oneMail), ?_⟩
  · rintro o s cost l day page used reservedAt hpc
    cases hpc
    decide
  · simp [World.stored, World.today, dayMs, reservedLedger, Ledger.set, Ledger.empty, firstDay]

end OneMail.Backfill
