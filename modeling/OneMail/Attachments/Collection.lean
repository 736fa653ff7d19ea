import Mathlib
import OneMail.Js.JsString
import OneMail.Lib.Interleave
import OneMail.Lib.KeyValue
import OneMail.Lib.Table

/-! Attachment objects and their garbage collection.

    An upload registers its key in `attachment_gc` before it writes the object; an insert of emails
    releases the keys it references; a trigger registers the keys of every deleted email. A drain leases
    each old row whose key no email references, deletes the object, and clears the row. Every statement
    and every storage operation is one step at the time of a common clock; a crash is a task that never
    moves again. -/

namespace OneMail.Attachments

open Interleave Table
open KeyValue (Map putNew lookup_put lookup_del lookup_putNewAll lookup_eraseAll)

def attachmentGcGraceMs : ℤ := 3600000
def attachmentGcLeaseMs : ℤ := 600000
def attachmentGcBatchLimit : ℕ := 100
def attachmentRefChunk : ℕ := 50

def gcInProgress : JsString := js "gc_in_progress"

def keyChar (c : UInt16) : Bool :=
  (0x41 ≤ c && c ≤ 0x5A) || (0x61 ≤ c && c ≤ 0x7A) || (0x30 ≤ c && c ≤ 0x39) || c = 0x5F || c = 0x2D

/-- `/^unified\/[A-Za-z0-9_-]{43}$/`, which the trigger spells with `length`, `substr` and `GLOB`. -/
def safeAttachmentKey (key : JsString) : Bool :=
  key.take 8 = js "unified/" && key.length = 51 && (key.drop 8).all keyChar

abbrev EmailId := JsString

structure Attachment where
  storageKey : Option JsString

structure Email where
  attachments : List Attachment
  isRead : Bool
  receivedAt : ℤ
  isStarred : Bool

structure GcRow where
  attempts : ℕ
  lastError : Option JsString
  createdAt : ℤ
  updatedAt : ℤ

/-- The clock, the two tables, and the objects of the attachment storage. -/
structure Store where
  now : ℤ
  emails : Map EmailId Email
  gc : Map JsString GcRow
  objects : Finset JsString

/-- All the keys in `attachments_json`. -/
def Email.keys (e : Email) : List JsString := e.attachments.filterMap (·.storageKey)

/-- The keys that are registered when the email goes. -/
def Email.attachmentKeys (e : Email) : List JsString := (e.keys.filter (safeAttachmentKey ·)).eraseDups

def Store.Referenced (s : Store) (key : JsString) : Prop :=
  ∃ id e, s.emails.lookup id = some e ∧ key ∈ e.keys

/-! ### Statements -/

/-- The row is leased, and the lease has not run out. -/
def GcRow.blocked (row : GcRow) (now : ℤ) : Bool :=
  row.lastError = some gcInProgress && now - attachmentGcLeaseMs < row.updatedAt

/-- The upsert that every registration makes; `stamp` is what it does to the old `updated_at`. -/
def enqueue (stamp : ℤ → ℤ) (now : ℤ) (gc : Map JsString GcRow) (key : JsString) :
    Map JsString GcRow :=
  match gc.lookup key with
  | none => gc.insert key ⟨0, none, now, now⟩
  | some row =>
    if row.blocked now then gc
    else gc.insert key { row with updatedAt := stamp row.updatedAt, attempts := 0, lastError := none }

/-- `attachmentGcInsert`: no change is the answer false. -/
def Store.attachmentGcInsert (s : Store) (key : JsString) : Option Store :=
  if (s.gc.lookup key).any (·.blocked s.now) then none
  else some { s with gc := enqueue (fun _ => s.now) s.now s.gc key }

/-- A DELETE on emails, with the trigger on each row. -/
def Store.deleteEmails (s : Store) (p : EmailId → Email → Bool) : Store :=
  let gone := s.emails.entries.filter fun e => p e.1 e.2
  { s with
    emails := gone.foldl (fun m e => m.erase e.1) s.emails
    gc := (gone.flatMap fun e => e.2.attachmentKeys).foldl
      (enqueue (fun old => max s.now (old + 1)) s.now) s.gc }

/-- `INSERT OR IGNORE` of a batch of emails. -/
def Store.insertEmails (s : Store) (rows : List (EmailId × Email)) : Store :=
  { s with emails := rows.foldl (putNew (·.1) (·.2)) s.emails }

/-- Does one of the emails with these ids reference the key? -/
def Store.referencedBy (s : Store) (ids : List EmailId) (key : JsString) : Bool :=
  ids.any fun id => (s.emails.lookup id).any fun e => e.keys.contains key

/-- `releaseAttachmentGc`. -/
def Store.release (s : Store) (keys : List JsString) (ids : List EmailId) : Store :=
  { s with
    gc := (keys.filter fun key => s.referencedBy ids key).foldl (fun m key => m.erase key) s.gc }

def createdBefore (a b : Σ _ : JsString, GcRow) : Prop := a.2.createdAt ≤ b.2.createdAt

instance : DecidableRel createdBefore := fun _ _ => inferInstanceAs (Decidable (_ ≤ _))

/-- The old rows that a drain selects, each with the `updated_at` that it saw. -/
def Store.oldRows (s : Store) : List (JsString × ℤ) :=
  (selectTop (·.2.updatedAt ≤ s.now - attachmentGcGraceMs) createdBefore attachmentGcBatchLimit
    s.gc.entries).map fun e => (e.1, e.2.updatedAt)

/-- One chunk of `findReferencedAttachmentKeys`. -/
def Store.referencedKeys (s : Store) (chunk : List JsString) : List JsString :=
  chunk.filter fun key => s.emails.entries.any fun e => e.2.keys.contains key

/-- An update or delete of the row of a key, where the row meets a condition. -/
def Store.modifyRow (s : Store) (key : JsString) (p : GcRow → Bool) (f : GcRow → Option GcRow) : Store :=
  match s.gc.lookup key with
  | some row =>
    if p row then
      { s with
        gc := match f row with
          | some row' => s.gc.insert key row'
          | none => s.gc.erase key }
    else s
  | none => s

/-- `DELETE FROM attachment_gc WHERE storage_key = ? AND updated_at = ?`. -/
def Store.unlist (s : Store) (key : JsString) (observed : ℤ) : Store :=
  s.modifyRow key (·.updatedAt = observed) fun _ => none

/-- The lease: no change is the answer none. -/
def Store.lease (s : Store) (key : JsString) (observed : ℤ) : Option Store :=
  if (s.gc.lookup key).any (·.updatedAt = observed) then
    some (s.modifyRow key (·.updatedAt = observed) fun row =>
      some { row with lastError := some gcInProgress, updatedAt := s.now })
  else none

def GcRow.leasedAt (row : GcRow) (leaseAt : ℤ) : Bool :=
  row.lastError = some gcInProgress && row.updatedAt = leaseAt

/-- `String(error).slice(0, 500)` of an error of the storage client. -/
def errorText (message : JsString) : JsString := (js "AttachmentStorageError: " ++ message).take 500

def Store.retain (s : Store) (key : JsString) (leaseAt : ℤ) (message : JsString) : Store :=
  s.modifyRow key (·.leasedAt leaseAt) fun row =>
    some { row with
      attempts := row.attempts + 1
      lastError := some (errorText message)
      updatedAt := s.now }

def Store.clear (s : Store) (key : JsString) (leaseAt : ℤ) : Store :=
  s.modifyRow key (·.leasedAt leaseAt) fun _ => none

/-- The retention condition on emails. -/
def Email.expired (e : Email) (cutoff : ℤ) : Bool := e.isRead && e.receivedAt < cutoff && !e.isStarred

/-- The batch of `cleanupReadEmails`: the keys of the page are registered, and the emails of the page
    that still meet the condition are deleted. -/
def Store.purge (s : Store) (cutoff : ℤ) (page : List (EmailId × Email)) : Store :=
  Store.deleteEmails
    { s with
      gc := ((page.flatMap fun e => e.2.attachmentKeys).eraseDups).foldl
        (enqueue (fun _ => s.now) s.now) s.gc }
    fun id e => e.expired cutoff && page.any (·.1 = id)

/-! ### Tasks -/

/-- The rows that a drain has still to work off, each with the `updated_at` that it saw. -/
abbrev Todo := List (JsString × ℤ)

inductive Task where
  | idle
  | uploading (key : JsString) (registeredAt : ℤ)
  /-- The batch, and the rows that no other unique constraint makes the statement ignore. -/
  | inserting (rows kept : List (EmailId × Email))
  | releasing (keys : List JsString) (ids : List EmailId)
  | scanning (rows : Todo) (todo referenced : List JsString)
  | draining (rows : Todo) (referenced : List JsString)
  | removing (key : JsString) (leaseAt : ℤ) (rows : Todo) (referenced : List JsString)
  | failing (key : JsString) (leaseAt : ℤ) (message : JsString) (rows : Todo) (referenced : List JsString)
  | clearing (key : JsString) (leaseAt : ℤ) (rows : Todo) (referenced : List JsString)
  | purging (cutoff : ℤ) (page : List (EmailId × Email))

inductive Event where
  | registered (key : JsString) (time : ℤ)
  /-- The object was written, by an upload that registered at the time. -/
  | uploaded (key : JsString) (registeredAt : ℤ)
  | removed (key : JsString)

inductive GcStep : Store → Task → Store → Task → List Event → Prop
  | tick {s} (now : ℤ) : s.now ≤ now → GcStep s .idle { s with now := now } .idle []
  | register {s s' key} : safeAttachmentKey key = true → s.attachmentGcInsert key = some s' →
      GcStep s .idle s' (.uploading key s.now) [.registered key s.now]
  | upload {s key registeredAt} :
      GcStep s (.uploading key registeredAt) { s with objects := insert key s.objects } .idle
        [.uploaded key registeredAt]
  | open {s} (rows kept : List (EmailId × Email)) : kept.Sublist rows →
      GcStep s .idle s (.inserting rows kept) []
  | insertEmails {s rows kept} :
      GcStep s (.inserting rows kept) (s.insertEmails kept)
        (.releasing (rows.flatMap fun e => e.2.keys) (rows.map (·.1))) []
  | release {s keys ids} : GcStep s (.releasing keys ids) (s.release keys ids) .idle []
  /-- The flags of an email change. -/
  | flag {s id e} (isRead isStarred : Bool) : s.emails.lookup id = some e →
      GcStep s .idle
        { s with emails := s.emails.insert id { e with isRead := isRead, isStarred := isStarred } } .idle []
  /-- Another part of the program deletes emails. -/
  | delete {s} (p : EmailId → Email → Bool) : GcStep s .idle (s.deleteEmails p) .idle []
  /-- The page that a cleanup selects. -/
  | select {s page} (cutoff : ℤ) :
      (∀ e ∈ page, s.emails.lookup e.1 = some e.2 ∧ e.2.expired cutoff = true) →
      GcStep s .idle s (.purging cutoff page) []
  | purge {s cutoff page} : GcStep s (.purging cutoff page) (s.purge cutoff page) .idle []
  | drain {s} : GcStep s .idle s (.scanning s.oldRows (s.oldRows.map (·.1)) []) []
  | scan {s rows todo referenced} :
      GcStep s (.scanning rows todo referenced) s
        (.scanning rows (todo.drop attachmentRefChunk)
          (s.referencedKeys (todo.take attachmentRefChunk) ++ referenced)) []
  | scanned {s rows referenced} :
      GcStep s (.scanning rows [] referenced) s (.draining rows referenced) []
  | drained {s referenced} : GcStep s (.draining [] referenced) s .idle []
  | keep {s key observed rows referenced} : key ∈ referenced →
      GcStep s (.draining ((key, observed) :: rows) referenced) (s.unlist key observed)
        (.draining rows referenced) []
  | skip {s key observed rows referenced} : key ∉ referenced → s.lease key observed = none →
      GcStep s (.draining ((key, observed) :: rows) referenced) s (.draining rows referenced) []
  | lease {s s' key observed rows referenced} : key ∉ referenced → s.lease key observed = some s' →
      GcStep s (.draining ((key, observed) :: rows) referenced) s' (.removing key s.now rows referenced) []
  | remove {s key leaseAt rows referenced} :
      GcStep s (.removing key leaseAt rows referenced) { s with objects := s.objects.erase key }
        (.clearing key leaseAt rows referenced) [.removed key]
  | removeFails {s key leaseAt rows referenced} (message : JsString) :
      GcStep s (.removing key leaseAt rows referenced) s (.failing key leaseAt message rows referenced) []
  /-- The object is deleted, and the answer is lost. -/
  | removeThrows {s key leaseAt rows referenced} (message : JsString) :
      GcStep s (.removing key leaseAt rows referenced) { s with objects := s.objects.erase key }
        (.failing key leaseAt message rows referenced) [.removed key]
  | retain {s key leaseAt message rows referenced} :
      GcStep s (.failing key leaseAt message rows referenced) (s.retain key leaseAt message)
        (.draining rows referenced) []
  | clear {s key leaseAt rows referenced} :
      GcStep s (.clearing key leaseAt rows referenced) (s.clear key leaseAt) (.draining rows referenced) []

def collection : Prog Store Task Event where
  idle := .idle
  init s := s.emails = ∅ ∧ s.gc = ∅ ∧ s.objects = ∅
  step := GcStep

/-! ### What an upsert leaves -/

section Statements

variable {gc gc' gc'' : Map JsString GcRow} {keys keys' : List JsString} {now : ℤ} {s s' : Store}
  {key j : JsString}

/-- The keys have been registered: every row is old or stamped anew, and a leased row stays as it is. -/
structure Enqueued (now : ℤ) (gc gc' : Map JsString GcRow) (keys : List JsString) : Prop where
  row : ∀ j row', gc'.lookup j = some row' → gc.lookup j = some row' ∨
    (j ∈ keys ∧ (∀ row, gc.lookup j = some row → row.blocked now = false) ∧ now ≤ row'.updatedAt ∧
      row'.lastError = none)
  there : ∀ j, gc.lookup j ≠ none → gc'.lookup j ≠ none
  listed : ∀ j ∈ keys, ∃ row', gc'.lookup j = some row' ∧
    (row'.blocked now = true ∨ now ≤ row'.updatedAt)

theorem enqueued_nil : Enqueued now gc gc [] :=
  ⟨fun _ _ h => .inl h, fun _ h => h, fun _ h => by cases h⟩

theorem enqueued_one {stamp : ℤ → ℤ} (hstamp : ∀ old, now ≤ stamp old) :
    Enqueued now gc (enqueue stamp now gc key) [key] := by
  have hput : ∀ {row' : GcRow}, (∀ row, gc.lookup key = some row → row.blocked now = false) →
      now ≤ row'.updatedAt → row'.lastError = none → Enqueued now gc (gc.insert key row') [key] := by
    intro row' hfree hnow herr
    refine ⟨fun j row hrow => ?_, fun j hj => ?_, fun j hj => ?_⟩
    · rw [lookup_put] at hrow
      split at hrow
      · rename_i heq
        cases hrow
        exact .inr ⟨heq ▸ List.mem_cons_self, heq ▸ hfree, hnow, herr⟩
      · exact .inl hrow
    · rw [lookup_put]
      split
      · simp
      · exact hj
    · obtain rfl := List.mem_singleton.mp hj
      exact ⟨row', AList.lookup_insert _, .inr hnow⟩
  rw [enqueue]
  split
  · rename_i hnone
    exact hput (fun row hrow => by rw [hnone] at hrow; cases hrow) le_rfl rfl
  · rename_i row hrow
    split
    · rename_i hblocked
      refine ⟨fun _ _ h => .inl h, fun _ h => h, fun j hj => ?_⟩
      obtain rfl := List.mem_singleton.mp hj
      exact ⟨row, hrow, .inl hblocked⟩
    · rename_i hfree
      refine hput (fun row' hrow' => ?_) (hstamp _) rfl
      obtain rfl := Option.some.inj (hrow.symm.trans hrow')
      simpa using hfree

theorem Enqueued.trans (h : Enqueued now gc gc' keys) (h' : Enqueued now gc' gc'' keys') :
    Enqueued now gc gc'' (keys ++ keys') := by
  refine ⟨fun j row hrow => ?_, fun j hj => h'.there j (h.there j hj), fun j hj => ?_⟩
  · rcases h'.row j row hrow with hrow | ⟨hj, hfree, hnow, herr⟩
    · refine (h.row j row hrow).imp_right fun ⟨hj, hrest⟩ => ⟨List.mem_append_left _ hj, hrest⟩
    · refine .inr ⟨List.mem_append_right _ hj, fun row₀ hrow₀ => ?_, hnow, herr⟩
      -- a leased row would still be there
      by_contra hblocked
      rcases hmid : gc'.lookup j with _ | row₁
      · exact h.there j (by rw [hrow₀]; simp) hmid
      · rcases h.row j row₁ hmid with hsame | ⟨-, hfree₀, -⟩
        · obtain rfl := Option.some.inj (hrow₀.symm.trans hsame)
          exact hblocked (hfree _ hmid)
        · exact hblocked (hfree₀ _ hrow₀)
  · rcases List.mem_append.mp hj with hj | hj
    · obtain ⟨row, hrow, hok⟩ := h.listed j hj
      obtain ⟨row', hrow'⟩ := Option.ne_none_iff_exists'.mp (h'.there j (by rw [hrow]; simp))
      refine ⟨row', hrow', ?_⟩
      rcases h'.row j row' hrow' with hsame | ⟨-, -, hnow, -⟩
      · obtain rfl := Option.some.inj (hrow.symm.trans hsame)
        exact hok
      · exact .inr hnow
    · exact h'.listed j hj

theorem enqueued_all {stamp : ℤ → ℤ} (hstamp : ∀ old, now ≤ stamp old) (keys : List JsString) :
    Enqueued now gc (keys.foldl (enqueue stamp now) gc) keys := by
  induction keys generalizing gc with
  | nil => exact enqueued_nil
  | cons key keys ih => exact (enqueued_one hstamp).trans ih

theorem mem_attachmentKeys {e : Email} :
    key ∈ e.attachmentKeys ↔ key ∈ e.keys ∧ safeAttachmentKey key = true := by
  rw [Email.attachmentKeys, List.mem_eraseDups, List.mem_filter]

end Statements

end OneMail.Attachments
