import Mathlib
import OneMail.Sync.Imap

/-! The watermark of an IMAP folder.

    A `Mailbox` is the folder on the server: under each UIDVALIDITY a numbering of its own, with
    ascending UIDs, from which messages may vanish. Rounds of `syncFolder` run against a mailbox that
    changes between and during them. `Covered` says that every message up to a UID has been dealt
    with; a round that starts under some UIDVALIDITY searches from a covered UID
    (`watermark_covers`), unless a round was not `Orderly`. -/

namespace OneMail.Imap

open Transition

/-! ### The mailbox -/

/-- A folder on the server: the UIDVALIDITY it answers with, and under each UIDVALIDITY the messages
    that exist and the next UID to give. -/
structure Mailbox where
  uidvalidity : ℕ
  alive : ℕ → List ℕ
  nextUid : ℕ → ℕ
  ascending : ∀ v, (alive v).Pairwise (· < ·)
  bounds : ∀ v, ∀ u ∈ alive v, 0 < u ∧ u < nextUid v
  nextUid_pos : ∀ v, 0 < nextUid v

/-- A message arrives with a UID above every earlier one. -/
def Mailbox.arrive (mb : Mailbox) (u : ℕ) (h : mb.nextUid mb.uidvalidity ≤ u) : Mailbox where
  uidvalidity := mb.uidvalidity
  alive := Function.update mb.alive mb.uidvalidity (mb.alive mb.uidvalidity ++ [u])
  nextUid := Function.update mb.nextUid mb.uidvalidity (u + 1)
  ascending v := by
    by_cases hv : v = mb.uidvalidity
    · subst hv
      rw [Function.update_self, List.pairwise_append]
      refine ⟨mb.ascending _, List.pairwise_singleton _ _, fun a ha b hb => ?_⟩
      rw [List.mem_singleton.mp hb]
      exact (mb.bounds _ a ha).2.trans_le h
    · rw [Function.update_of_ne hv]
      exact mb.ascending v
  bounds v a ha := by
    by_cases hv : v = mb.uidvalidity
    · subst hv
      rw [Function.update_self] at ha ⊢
      have hpos := mb.nextUid_pos mb.uidvalidity
      rcases List.mem_append.mp ha with ha | ha
      · have := mb.bounds _ a ha
        omega
      · rw [List.mem_singleton.mp ha]
        omega
    · rw [Function.update_of_ne hv] at ha ⊢
      exact mb.bounds v a ha
  nextUid_pos v := by
    by_cases hv : v = mb.uidvalidity
    · subst hv
      rw [Function.update_self]
      omega
    · rw [Function.update_of_ne hv]
      exact mb.nextUid_pos v

/-- Messages vanish. -/
def Mailbox.expunge (mb : Mailbox) (keep : ℕ → ℕ → Bool) : Mailbox where
  uidvalidity := mb.uidvalidity
  alive v := (mb.alive v).filter (keep v)
  nextUid := mb.nextUid
  ascending v := (mb.ascending v).filter _
  bounds v u hu := mb.bounds v u (List.mem_of_mem_filter hu)
  nextUid_pos := mb.nextUid_pos

inductive Mailbox.Change (mb : Mailbox) : Mailbox → Prop
  | arrive (u : ℕ) (h : mb.nextUid mb.uidvalidity ≤ u) : mb.Change (mb.arrive u h)
  | expunge (keep : ℕ → ℕ → Bool) : mb.Change (mb.expunge keep)
  | renumber (v : ℕ) : mb.Change { mb with uidvalidity := v }

/-- What any number of changes make of a mailbox. -/
abbrev Mailbox.Evolves : Mailbox → Mailbox → Prop := Relation.ReflTransGen Mailbox.Change

/-- `SEARCH UID lo:*`, where `*` is the last message and the ends of the range may be swapped. -/
def Mailbox.search (mb : Mailbox) (v : ℕ) (lo : ℕ) : List ℕ :=
  (mb.alive v).filter fun u => lo ≤ u ∨ u = (mb.alive v).getLastD 0

/-- A later mailbox has no message with an old UID that it did not have before. -/
structure Mailbox.Since (mb mb' : Mailbox) : Prop where
  nextUid : ∀ v, mb.nextUid v ≤ mb'.nextUid v
  alive : ∀ v, ∀ u ∈ mb'.alive v, u < mb.nextUid v → u ∈ mb.alive v

variable {mb mb' mb'' : Mailbox} {u v : ℕ}

theorem Mailbox.Since.trans (h : mb.Since mb') (h' : mb'.Since mb'') : mb.Since mb'' where
  nextUid v := (h.nextUid v).trans (h'.nextUid v)
  alive v u hu hlt := h.alive v u (h'.alive v u hu (hlt.trans_le (h.nextUid v))) hlt

theorem Mailbox.Change.since (h : mb.Change mb') : mb.Since mb' := by
  cases h with
  | arrive u h =>
    refine ⟨fun v => ?_, fun v a ha hlt => ?_⟩
    · by_cases hv : v = mb.uidvalidity
      · subst hv
        simp only [Mailbox.arrive, Function.update_self]
        omega
      · simp only [Mailbox.arrive, Function.update_of_ne hv, le_refl]
    · by_cases hv : v = mb.uidvalidity
      · subst hv
        simp only [Mailbox.arrive, Function.update_self, List.mem_append, List.mem_singleton] at ha
        rcases ha with ha | rfl
        · exact ha
        · omega
      · simpa only [Mailbox.arrive, Function.update_of_ne hv] using ha
  | expunge keep => exact ⟨fun _ => le_rfl, fun v a ha _ => List.mem_of_mem_filter ha⟩
  | renumber v => exact ⟨fun _ => le_rfl, fun _ _ ha _ => ha⟩

theorem Mailbox.Evolves.since (h : mb.Evolves mb') : mb.Since mb' := by
  induction h with
  | refl => exact ⟨fun _ => le_rfl, fun _ _ hu _ => hu⟩
  | tail _ hc ih => exact ih.trans hc.since

theorem mem_search {lo : ℕ} (hu : u ∈ mb.alive v) (hlo : lo ≤ u) : u ∈ mb.search v lo :=
  List.mem_filter.mpr ⟨hu, decide_eq_true (.inl hlo)⟩

theorem alive_of_mem_search {lo : ℕ} (hu : u ∈ mb.search v lo) : u ∈ mb.alive v :=
  List.mem_of_mem_filter hu

theorem search_ascending {lo : ℕ} : (mb.search v lo).Pairwise (· < ·) := (mb.ascending v).filter _

/-! ### Rounds against a mailbox -/

/-- The replies of a round come from the mailbox as it is at each command. A SEARCH is answered for
    the UIDVALIDITY that its SELECT saw; what the FETCHes answer is left open. -/
def Mailbox.Serves (mb : Mailbox) (replies : Replies) (mb' : Mailbox) : Prop :=
  ∃ atOuter atInner atSearch : Mailbox, mb.Evolves atOuter ∧ atOuter.Evolves atInner ∧
    atInner.Evolves atSearch ∧ atSearch.Evolves mb' ∧
    (∀ v, replies.outer = some v → v = atOuter.uidvalidity) ∧
    ∀ v, replies.inner = some v → v = atInner.uidvalidity ∧
      ∀ lo found, replies.search lo = some found → found = atSearch.search v lo

structure World where
  mailbox : Mailbox
  state : FolderState
  events : List Event

inductive Label where
  | mailbox
  | round (replies : Replies)

variable {ε : Type*} (normalize : ℕ → RawMessage → Option ε) (account : Account)

/-- Sync rounds of a new account folder, with mailbox changes between and during them. -/
def system : System World Label where
  init w := w.state = ⟨0, none⟩ ∧ w.events = []
  step w label w' := match label with
    | .mailbox => w.mailbox.Change w'.mailbox ∧ w'.state = w.state ∧ w'.events = w.events
    | .round replies =>
      w.mailbox.Serves replies w'.mailbox ∧
        w'.state = (syncFolder normalize account replies w.state).state ∧
        w'.events = w.events ++ (syncFolder normalize account replies w.state).events

/-- The message was skipped, dropped or uploaded. -/
def Handled (events : List Event) (v u : ℕ) : Prop :=
  .skipped v u ∈ events ∨ .overLimit v u ∈ events ∨ .unnormalised v u ∈ events ∨
    .uploaded v u ∈ events

def fits (sizes : ℕ → Option ℤ) (u : ℕ) : Bool := (sizes u).any (· ≤ maxSingleBytes)

def tooLarge (sizes : ℕ → Option ℤ) (u : ℕ) : Bool := (sizes u).any (maxSingleBytes < ·)

/-- The bytes of the messages that fit. -/
def fitBytes (sizes : ℕ → Option ℤ) (uids : List ℕ) : ℤ :=
  ((uids.filter (fits sizes)).map fun u => (sizes u).getD 0).sum

/-- Among the candidates of one window, a message that is too large comes after one that fits. -/
def Overtakes (sizes : ℕ → Option ℤ) (uids : List ℕ) : Prop :=
  ∃ before u after, uids = before ++ u :: after ∧ tooLarge sizes u = true ∧
    (∀ m ∈ before, (sizes m).isSome) ∧ (∃ m ∈ before, fits sizes m = true) ∧
    (before.filter (fits sizes)).length < batchSize ∧ fitBytes sizes before ≤ batchBytes

/-- A round is orderly when its two SELECTs see one UIDVALIDITY; when a UIDVALIDITY that is new to
    the stored state numbers all its messages, present and future, above the stored watermark; and when
    a window in which a too large message comes after one that fits is fetched and uploaded. -/
structure Orderly (w : World) (replies : Replies) : Prop where
  sameSelect : ∀ v v', replies.outer = some v → replies.inner = some v' → v = v'
  renumbered : ∀ v known, replies.inner = some v → w.state.uidvalidity = some known → known ≠ v →
    w.state.lastUid < w.mailbox.nextUid v ∧ ∀ u ∈ w.mailbox.alive v, w.state.lastUid < u
  finished : ∀ v found sizes, replies.inner = some v →
    replies.search (w.state.searchesFrom v + 1) = some found → replies.sizes = some sizes →
    Overtakes sizes (candidates account (w.state.searchesFrom v)
      (found.filter fun u => w.state.searchesFrom v < u)) →
    replies.bodies ≠ none ∧ replies.uploaded = true

def OrderlyStep (w : World) : Label → Prop
  | .mailbox => True
  | .round replies => Orderly account w replies

/-! ### The window scan -/

/-- `set_last_uid_max` for one UID after another. -/
def FolderState.advance (st : FolderState) (uids : List ℕ) : FolderState :=
  uids.foldl FolderState.setLastUidMax st

@[simp] theorem setLastUidMax_uidvalidity (st : FolderState) (u : ℕ) :
    (st.setLastUidMax u).uidvalidity = st.uidvalidity := by
  rw [FolderState.setLastUidMax]
  split <;> rfl

theorem advance_append (st : FolderState) (l l' : List ℕ) :
    st.advance (l ++ l') = (st.advance l).advance l' := List.foldl_append ..

@[simp] theorem advance_uidvalidity (uids : List ℕ) : ∀ st : FolderState,
    (st.advance uids).uidvalidity = st.uidvalidity := by
  induction uids with
  | nil => exact fun _ => rfl
  | cons u uids ih => exact fun st => (ih _).trans (setLastUidMax_uidvalidity st u)

theorem advance_lastUid (uids : List ℕ) : ∀ st : FolderState,
    (st.advance uids).lastUid = st.lastUid ∨ (st.advance uids).lastUid ∈ uids := by
  induction uids with
  | nil => exact fun _ => .inl rfl
  | cons u uids ih =>
    intro st
    have hset : (st.setLastUidMax u).lastUid = st.lastUid ∨ (st.setLastUidMax u).lastUid = u := by
      rw [FolderState.setLastUidMax]
      split
      · exact .inr rfl
      · exact .inl rfl
    rcases ih (st.setLastUidMax u) with h | h
    · rcases hset with hset | hset
      · exact .inl (h.trans hset)
      · exact .inr (List.mem_cons.mpr (.inl (h.trans hset)))
    · exact .inr (List.mem_cons_of_mem _ h)

theorem fits_of_some {sizes : ℕ → Option ℤ} {size : ℤ} (h : sizes u = some size) :
    fits sizes u = decide (size ≤ maxSingleBytes) ∧
      tooLarge sizes u = decide (maxSingleBytes < size) := by
  rw [fits, tooLarge, h]
  exact ⟨rfl, rfl⟩

/-- What the scan has consumed: every message of known size, each met while the batch and the byte
    budget had room. -/
structure Scanned (sizes : ℕ → Option ℤ) (count : ℕ) (total : ℤ) (done : List ℕ) : Prop where
  known : ∀ u ∈ done, (sizes u).isSome
  room : ∀ before u after, done = before ++ u :: after →
    count + (before.filter (fits sizes)).length < batchSize ∧ total + fitBytes sizes before ≤ batchBytes

theorem Scanned.cons {sizes : ℕ → Option ℤ} {count count' : ℕ} {total total' : ℤ} {done : List ℕ}
    (h : Scanned sizes count' total' done) (hu : (sizes u).isSome) (hcount : count < batchSize)
    (htotal : total ≤ batchBytes)
    (hcount' : count' = count + ([u].filter (fits sizes)).length)
    (htotal' : total' = total + fitBytes sizes [u]) : Scanned sizes count total (u :: done) where
  known := by
    intro m hm
    rcases List.mem_cons.mp hm with rfl | hm
    · exact hu
    · exact h.known m hm
  room before m after heq := by
    cases before with
    | nil => simpa [fitBytes] using ⟨hcount, htotal⟩
    | cons b before =>
      obtain ⟨rfl, hdone⟩ := List.cons.inj heq
      obtain ⟨hc, ht⟩ := h.room before m after hdone
      have hsplit : u :: before = [u] ++ before := rfl
      have hbytes : fitBytes sizes (u :: before) = fitBytes sizes [u] + fitBytes sizes before := by
        rw [hsplit, fitBytes, List.filter_append, List.map_append, List.sum_append, fitBytes, fitBytes]
      rw [hbytes, hsplit, List.filter_append, List.length_append]
      constructor
      · omega
      · omega

/-- The scan consumes a prefix: it picks the messages that fit and moves the watermark over those that
    are too large. -/
theorem scan_spec (sizes : ℕ → Option ℤ) (uids : List ℕ) : ∀ s : Scan, s.total ≤ batchBytes →
    (s.picked = [] → s.total = 0) → ∃ done rest, uids = done ++ rest ∧
      Scanned sizes s.picked.length s.total done ∧
      (scan sizes uids s).picked = s.picked ++ done.filter (fits sizes) ∧
      (scan sizes uids s).overLimit = s.overLimit ++ done.filter (tooLarge sizes) ∧
      (scan sizes uids s).state = s.state.advance (done.filter (tooLarge sizes)) := by
  induction uids with
  | nil =>
    intro s _ _
    exact ⟨[], [], rfl, ⟨by simp, by simp⟩, by simp [scan], by simp [scan], rfl⟩
  | cons u uids ih =>
    intro s htotal hzero
    have hstop : ∃ done rest, u :: uids = done ++ rest ∧ Scanned sizes s.picked.length s.total done ∧
        s.picked = s.picked ++ done.filter (fits sizes) ∧
        s.overLimit = s.overLimit ++ done.filter (tooLarge sizes) ∧
        s.state = s.state.advance (done.filter (tooLarge sizes)) :=
      ⟨[], u :: uids, rfl, ⟨by simp, by simp⟩, by simp, by simp, rfl⟩
    rw [scan]
    split
    · exact hstop
    · rename_i hroom
      split
      · exact hstop
      · rename_i size hsize
        obtain ⟨hfits, hlarge⟩ := fits_of_some hsize
        have hknown : (sizes u).isSome := by rw [hsize]; rfl
        split
        · rename_i hover
          have hf : fits sizes u = false := hfits.trans (decide_eq_false (not_le.mpr hover))
          have hl : tooLarge sizes u = true := hlarge.trans (decide_eq_true hover)
          obtain ⟨done, rest, rfl, hscanned, hpicked, hoverLimit, hstate⟩ := ih { s with
            overLimit := s.overLimit ++ [u], state := s.state.setLastUidMax u } htotal hzero
          refine ⟨u :: done, rest, rfl, ?_, ?_, ?_, ?_⟩
          · exact hscanned.cons hknown (not_le.mp hroom) htotal (by simp [hf]) (by simp [fitBytes, hf])
          · rw [hpicked, List.filter_cons_of_neg (by simp [hf])]
          · rw [hoverLimit, List.filter_cons_of_pos hl, List.append_assoc, List.singleton_append]
          · rw [hstate, List.filter_cons_of_pos hl]
            rfl
        · rename_i hover
          have hf : fits sizes u = true := hfits.trans (decide_eq_true (not_lt.mp hover))
          have hl : tooLarge sizes u = false := hlarge.trans (decide_eq_false hover)
          split
          · exact hstop
          · rename_i hbudget
            have hbytes : s.total + size ≤ batchBytes := by
              by_contra hcon
              refine hbudget ⟨not_le.mp hcon, fun hnil => hcon ?_⟩
              rw [hzero hnil, zero_add]
              exact (not_lt.mp hover).trans (by decide)
            obtain ⟨done, rest, rfl, hscanned, hpicked, hoverLimit, hstate⟩ := ih { s with
              picked := s.picked ++ [u], total := s.total + size } hbytes (by simp)
            refine ⟨u :: done, rest, rfl, ?_, ?_, ?_, ?_⟩
            · exact hscanned.cons hknown (not_le.mp hroom) htotal (by simp [hf])
                (by simp [fitBytes, hf, hsize])
            · rw [hpicked, List.filter_cons_of_pos hf, List.append_assoc, List.singleton_append]
            · rw [hoverLimit, List.filter_cons_of_neg (by simp [hl])]
            · rw [hstate, List.filter_cons_of_neg (by simp [hl])]

/-! ### What a round leaves -/

variable {normalize account} {replies : Replies} {st : FolderState} {lastUid a : ℕ}
  {uids skipped done rest : List ℕ} {sizes : ℕ → Option ℤ} {events events' : List Event}

/-- The UIDs that `fetch_new_messages` moves the watermark to. -/
def fetchAdvances (sizes : ℕ → Option ℤ) (skipped done : List ℕ) : List ℕ :=
  (if skipped = [] then [] else [maxUid skipped]) ++ done.filter (tooLarge sizes)

theorem fetchWindow_spec (account : Account) (replies : Replies) (v lastUid : ℕ) (uids : List ℕ)
    (st : FolderState) : ∃ sizes done rest, candidates account lastUid uids = done ++ rest ∧
      (done ≠ [] → replies.sizes = some sizes) ∧ Scanned sizes 0 0 done ∧
      (fetchWindow account replies v lastUid uids st).state =
        st.advance (fetchAdvances sizes (skippedUids account lastUid uids) done) ∧
      (fetchWindow account replies v lastUid uids st).events =
        (skippedUids account lastUid uids).map (.skipped v) ++
          (done.filter (tooLarge sizes)).map (.overLimit v) ∧
      (((fetchWindow account replies v lastUid uids st).messages = none ∧
          (done = [] ∨ replies.bodies = none)) ∨
        ∃ msgs, (fetchWindow account replies v lastUid uids st).messages = some msgs ∧
          msgs.map (·.uid) = done.filter (fits sizes)) := by
  have hskip (l : List ℕ) : (if l = [] then st else st.setLastUidMax (maxUid l)) =
      st.advance (if l = [] then [] else [maxUid l]) := by
    split <;> rfl
  simp only [fetchWindow, hskip]
  cases hsizes : replies.sizes with
  | none =>
    refine ⟨fun _ => none, [], _, rfl, fun h => absurd rfl h, ⟨by simp, by simp⟩, ?_, ?_, ?_⟩
    · simp only [fetchAdvances, List.filter_nil, List.append_nil]
    · simp only [List.filter_nil, List.map_nil, List.append_nil]
    · exact .inl ⟨rfl, .inl rfl⟩
  | some sizes =>
    obtain ⟨done, rest, hcand, hscanned, hpicked, hlarge, hstate⟩ :=
      scan_spec sizes (candidates account lastUid uids) ⟨[], 0, [], st.advance
        (if skippedUids account lastUid uids = [] then [] else [maxUid (skippedUids account lastUid uids)])⟩
        (show (0 : ℤ) ≤ batchBytes by decide) fun _ => rfl
    refine ⟨sizes, done, rest, hcand, fun _ => rfl, hscanned, ?_⟩
    rw [List.nil_append] at hpicked hlarge
    simp only [hpicked, hlarge, fetchAdvances, advance_append]
    split
    · rename_i hnone
      exact ⟨hstate, rfl, .inr ⟨[], rfl, hnone.symm⟩⟩
    · cases hbodies : replies.bodies with
      | none => exact ⟨hstate, rfl, .inl ⟨rfl, .inr rfl⟩⟩
      | some bodies =>
        refine ⟨hstate, rfl, .inr ⟨_, rfl, ?_⟩⟩
        rw [List.map_map]
        exact List.map_id'' (fun _ => rfl) _

theorem maxUid_mem (h : uids ≠ []) : maxUid uids ∈ uids := by
  have hgen (l : List ℕ) : ∀ n, l.foldl max n = n ∨ l.foldl max n ∈ l := by
    induction l with
    | nil => exact fun _ => .inl rfl
    | cons u l ih =>
      intro n
      rcases ih (max n u) with h | h
      · rcases max_choice n u with hmax | hmax
        · exact .inl (h.trans hmax)
        · exact .inr (List.mem_cons.mpr (.inl (h.trans hmax)))
      · exact .inr (List.mem_cons_of_mem _ h)
  cases uids with
  | nil => exact absurd rfl h
  | cons u l =>
    rcases hgen l (max 0 u) with hl | hl
    · exact List.mem_cons.mpr (.inl (hl.trans (Nat.zero_max u)))
    · exact List.mem_cons_of_mem _ hl

/-- In an ascending list, what is not above a member of a prefix is in the prefix. -/
theorem mem_prefix_of_le {l l' : List ℕ} (h : (l ++ l').Pairwise (· < ·)) (ha : a ∈ l)
    (hu : u ∈ l ++ l') (hle : u ≤ a) : u ∈ l := by
  rcases List.mem_append.mp hu with hu | hu
  · exact hu
  · exact absurd ((List.pairwise_append.mp h).2.2 a ha u hu) (not_lt.mpr hle)

theorem fits_or_tooLarge (h : (sizes u).isSome) :
    fits sizes u = true ∨ tooLarge sizes u = true := by
  obtain ⟨size, hsize⟩ := Option.isSome_iff_exists.mp h
  rw [(fits_of_some hsize).1, (fits_of_some hsize).2, decide_eq_true_iff, decide_eq_true_iff]
  exact le_or_gt _ _

/-- A message that fits and is passed by the watermark of a too large one is overtaken. -/
theorem Scanned.overtakes (h : Scanned sizes 0 0 done) (hasc : done.Pairwise (· < ·)) (ha : a ∈ done)
    (hlarge : tooLarge sizes a = true) (hu : u ∈ done) (hfits : fits sizes u = true) (hle : u ≤ a) :
    Overtakes sizes (done ++ rest) := by
  obtain ⟨before, after, rfl⟩ := List.append_of_mem ha
  obtain ⟨hcount, hbytes⟩ := h.room before a after rfl
  have hne : u ≠ a := by
    rintro rfl
    obtain ⟨size, hsize⟩ := Option.isSome_iff_exists.mp (h.known u hu)
    rw [(fits_of_some hsize).1, decide_eq_true_iff] at hfits
    rw [(fits_of_some hsize).2, decide_eq_true_iff] at hlarge
    exact absurd hlarge (not_lt.mpr hfits)
  have hbefore : u ∈ before := by
    rw [← List.singleton_append, ← List.append_assoc] at hu hasc
    have hmem := mem_prefix_of_le hasc (List.mem_append_right _ (List.mem_singleton_self a)) hu hle
    exact (List.mem_append.mp hmem).resolve_right fun h => hne (List.mem_singleton.mp h)
  refine ⟨before, a, after ++ rest, by simp, hlarge, fun m hm => ?_, ⟨u, hbefore, hfits⟩, ?_, ?_⟩
  · exact h.known m (List.mem_append_left _ hm)
  · simpa using hcount
  · simpa using hbytes

/-- Everything up to a message the scan has consumed has been handled, if the messages that fit have. -/
theorem scanned_handled (hasc : (skipped ++ (done ++ rest)).Pairwise (· < ·))
    (hscanned : Scanned sizes 0 0 done) (hskip : ∀ u ∈ skipped, .skipped v u ∈ events)
    (hlarge : ∀ u ∈ done.filter (tooLarge sizes), .overLimit v u ∈ events) (ha : a ∈ done)
    (hfits : ∀ u ∈ done.filter (fits sizes), u ≤ a → Handled events v u) :
    a ∈ skipped ++ (done ++ rest) ∧
      ∀ u ∈ skipped ++ (done ++ rest), u ≤ a → Handled events v u := by
  refine ⟨List.mem_append_right _ (List.mem_append_left _ ha), fun u hu hle => ?_⟩
  rw [← List.append_assoc] at hasc hu
  rcases List.mem_append.mp (mem_prefix_of_le hasc (List.mem_append_right _ ha) hu hle) with hu | hu
  · exact .inl (hskip u hu)
  · rcases fits_or_tooLarge (hscanned.known u hu) with hf | hl
    · exact hfits u (List.mem_filter.mpr ⟨hu, hf⟩) hle
    · exact .inr (.inl (hlarge u (List.mem_filter.mpr ⟨hu, hl⟩)))

/-- Everything up to a UID the fetch moves the watermark to has been handled, if what the watermark
    overtakes has. -/
theorem fetchAdvances_handled (hasc : (skipped ++ (done ++ rest)).Pairwise (· < ·))
    (hscanned : Scanned sizes 0 0 done) (hskip : ∀ u ∈ skipped, .skipped v u ∈ events)
    (hlarge : ∀ u ∈ done.filter (tooLarge sizes), .overLimit v u ∈ events)
    (hfits : Overtakes sizes (done ++ rest) → ∀ u ∈ done.filter (fits sizes), Handled events v u)
    (ha : a ∈ fetchAdvances sizes skipped done) :
    a ∈ skipped ++ (done ++ rest) ∧
      ∀ u ∈ skipped ++ (done ++ rest), u ≤ a → Handled events v u := by
  rcases List.mem_append.mp ha with ha | ha
  · split at ha
    · cases ha
    · rename_i hne
      have hmem : a ∈ skipped := (List.mem_singleton.mp ha).symm ▸ maxUid_mem hne
      refine ⟨List.mem_append_left _ hmem, fun u hu hle => .inl (hskip u ?_)⟩
      exact mem_prefix_of_le hasc hmem hu hle
  · obtain ⟨hmem, hover⟩ := List.mem_filter.mp ha
    refine scanned_handled hasc hscanned hskip hlarge hmem fun u hu hle => hfits ?_ u hu
    have hdone := (List.pairwise_append.mp (List.pairwise_append.mp hasc).2.1).1
    obtain ⟨hu, hf⟩ := List.mem_filter.mp hu
    exact hscanned.overtakes hdone hmem hover hu hf hle

theorem fetchNewMessages_cases (account : Account) (replies : Replies) (st : FolderState) :
    (fetchNewMessages account replies st = ⟨st, [], [], none⟩) ∨
      ∃ v, replies.inner = some v ∧
        ((∃ msgs, fetchNewMessages account replies st = ⟨st.selected v, [], [], msgs⟩ ∧
            (msgs = none ∨ msgs = some [])) ∨
          ∃ found, replies.search (st.searchesFrom v + 1) = some found ∧
            fetchNewMessages account replies st = fetchWindow account replies v (st.searchesFrom v)
              (found.filter fun u => st.searchesFrom v < u) (st.selected v)) := by
  rw [fetchNewMessages]
  cases hinner : replies.inner with
  | none => exact .inl rfl
  | some v =>
    refine .inr ⟨v, rfl, ?_⟩
    cases hsearch : replies.search (st.searchesFrom v + 1) with
    | none => exact .inl ⟨none, by simp only [hsearch], .inl rfl⟩
    | some found =>
      simp only [hsearch]
      split
      · exact .inl ⟨some [], rfl, .inr rfl⟩
      · exact .inr ⟨found, rfl, rfl⟩

/-- What the folder loop makes of a fetch: it stops there, or it fails to upload, or every message of
    the batch is dropped or uploaded and the watermark moves to the last one. -/
theorem syncFolder_cases (normalize : ℕ → RawMessage → Option ε) (account : Account)
    (replies : Replies) (st : FolderState) :
    (syncFolder normalize account replies st).state = st ∨
      ∃ outer, replies.outer = some outer ∧
        (∃ more, (syncFolder normalize account replies st).events =
          (fetchNewMessages account replies st).events ++ more) ∧
        (((syncFolder normalize account replies st).state = (fetchNewMessages account replies st).state ∧
            ((fetchNewMessages account replies st).messages = none ∨
              (fetchNewMessages account replies st).messages = some [] ∨ replies.uploaded = false)) ∨
          ∃ msgs, (fetchNewMessages account replies st).messages = some msgs ∧ msgs ≠ [] ∧
            (syncFolder normalize account replies st).state =
              (fetchNewMessages account replies st).state.setLastUidMax (maxUid (msgs.map (·.uid))) ∧
            ∀ m ∈ msgs, Handled (syncFolder normalize account replies st).events outer m.uid) := by
  rw [syncFolder]
  cases houter : replies.outer with
  | none => exact .inl rfl
  | some outer =>
    refine .inr ⟨outer, rfl, ?_⟩
    cases hmsgs : (fetchNewMessages account replies st).messages with
    | none => exact ⟨⟨[], by simp only [hmsgs, List.append_nil]⟩, .inl ⟨by simp only [hmsgs], .inl rfl⟩⟩
    | some msgs =>
      simp only [hmsgs]
      split
      · rename_i hnil
        exact ⟨⟨[], (List.append_nil _).symm⟩, .inl ⟨rfl, .inr (.inl (congrArg some hnil))⟩⟩
      · rename_i hne
        split
        · rename_i hup
          exact ⟨⟨_, rfl⟩, .inl ⟨rfl, .inr (.inr hup.2)⟩⟩
        · refine ⟨⟨_, List.append_assoc ..⟩, .inr ⟨msgs, rfl, hne, rfl, fun m hm => ?_⟩⟩
          cases hnorm : normalize outer m with
          | none =>
            have hbad : m ∈ msgs.filter fun m => (normalize outer m).isNone :=
              List.mem_filter.mpr ⟨hm, by rw [hnorm]; rfl⟩
            refine .inr (.inr (.inl (List.mem_append_left _ (List.mem_append_right _ ?_))))
            exact List.mem_map.mpr ⟨m, hbad, rfl⟩
          | some email =>
            have hgood : m ∈ msgs.filter fun m => (normalize outer m).isSome :=
              List.mem_filter.mpr ⟨hm, by rw [hnorm]; rfl⟩
            refine .inr (.inr (.inr (List.mem_append_right _ ?_)))
            exact List.mem_map.mpr ⟨m, hgood, rfl⟩

/-- What a window does to the watermark: it moves to UIDs that SEARCH has found, up to which every
    message found has been handled. -/
theorem window_advances {found : List ℕ} {st' : FolderState} (hasc : found.Pairwise (· < ·))
    (hfinished : ∀ sizes, replies.sizes = some sizes →
      Overtakes sizes (candidates account lastUid (found.filter fun u => lastUid < u)) →
        replies.bodies ≠ none ∧ replies.uploaded = true)
    {fetched : Fetched}
    (hfetched : fetched = fetchWindow account replies v lastUid (found.filter fun u => lastUid < u) st)
    (hevents : ∃ more, events = fetched.events ++ more)
    (hround : (st' = fetched.state ∧
        (fetched.messages = none ∨ fetched.messages = some [] ∨ replies.uploaded = false)) ∨
      ∃ msgs, fetched.messages = some msgs ∧ msgs ≠ [] ∧
        st' = fetched.state.setLastUidMax (maxUid (msgs.map (·.uid))) ∧
        ∀ m ∈ msgs, Handled events v m.uid) :
    ∃ advances, st' = st.advance advances ∧ ∀ a ∈ advances, a ∈ found ∧
      ∀ u ∈ found, lastUid < u → u ≤ a → Handled events v u := by
  obtain ⟨sizes, done, rest, hcand, hsizes, hscanned, hstate, hev, hmessages⟩ := fetchWindow_spec
    account replies v lastUid (found.filter fun u => lastUid < u) st
  rw [← hfetched] at hstate hev hmessages
  have hsplit : (found.filter fun u => lastUid < u) =
      skippedUids account lastUid (found.filter fun u => lastUid < u) ++ (done ++ rest) := by
    rw [← hcand, skippedUids, candidates, List.take_append_drop]
  have hasc' := hasc.filter fun u => lastUid < u
  have hfound : ∀ a, (a ∈ found.filter fun u => lastUid < u) ∧
      (∀ u ∈ found.filter fun u => lastUid < u, u ≤ a → Handled events v u) →
      a ∈ found ∧ ∀ u ∈ found, lastUid < u → u ≤ a → Handled events v u := fun a ha =>
    ⟨List.mem_of_mem_filter ha.1, fun u hu hlt =>
      ha.2 u (List.mem_filter.mpr ⟨hu, decide_eq_true hlt⟩)⟩
  rw [hsplit] at hasc' hfound
  obtain ⟨more, rfl⟩ := hevents
  rw [hev] at hfound hround ⊢
  generalize skippedUids account lastUid (found.filter fun u => lastUid < u) = skipped at *
  have hskip : ∀ u ∈ skipped, Event.skipped v u ∈ skipped.map (.skipped v) ++
      (done.filter (tooLarge sizes)).map (.overLimit v) ++ more := fun u hu =>
    List.mem_append_left _ (List.mem_append_left _ (List.mem_map_of_mem hu))
  have hlarge : ∀ u ∈ done.filter (tooLarge sizes), Event.overLimit v u ∈
      skipped.map (.skipped v) ++ (done.filter (tooLarge sizes)).map (.overLimit v) ++ more :=
    fun u hu => List.mem_append_left _ (List.mem_append_right _ (List.mem_map_of_mem hu))
  rcases hround with ⟨hst, hstop⟩ | ⟨msgs, hmsgs, hne, hst, hall⟩
  · refine ⟨_, hst.trans hstate, fun a ha => hfound a ?_⟩
    refine fetchAdvances_handled hasc' hscanned hskip hlarge (fun hover u hu => ?_) ha
    -- the batch was not finished, so an orderly round has overtaken nothing
    have hdone : done ≠ [] := by
      rintro rfl
      cases hu
    rw [← hcand] at hover
    obtain ⟨hbodies, hup⟩ := hfinished sizes (hsizes hdone) hover
    exfalso
    rcases hmessages with ⟨hnone, hcases⟩ | ⟨msgs, hsome, huids⟩
    · exact hcases.elim hdone hbodies
    · rcases hstop with hstop | hstop | hstop
      · cases hsome.symm.trans hstop
      · obtain rfl := Option.some.inj (hsome.symm.trans hstop)
        rw [← huids] at hu
        cases hu
      · cases hup.symm.trans hstop
  · rcases hmessages with ⟨hnone, -⟩ | ⟨msgs', hsome, huids⟩
    · cases hnone.symm.trans hmsgs
    · obtain rfl := Option.some.inj (hsome.symm.trans hmsgs)
      have hpicked : ∀ u ∈ done.filter (fits sizes), Handled (skipped.map (.skipped v) ++
          (done.filter (tooLarge sizes)).map (.overLimit v) ++ more) v u := fun u hu => by
        rw [← huids] at hu
        obtain ⟨m, hm, rfl⟩ := List.mem_map.mp hu
        exact hall m hm
      refine ⟨fetchAdvances sizes skipped done ++ [maxUid (msgs'.map (·.uid))], ?_, ?_⟩
      · rw [hst, hstate, advance_append]
        rfl
      · intro a ha
        rcases List.mem_append.mp ha with ha | ha
        · exact hfound a (fetchAdvances_handled hasc' hscanned hskip hlarge (fun _ => hpicked) ha)
        · have hmem : a ∈ done.filter (fits sizes) := by
            rw [List.mem_singleton.mp ha, huids]
            refine maxUid_mem fun hnil => hne ?_
            exact List.map_eq_nil_iff.mp (huids.trans hnil)
          exact hfound a (scanned_handled hasc' hscanned hskip hlarge (List.mem_of_mem_filter hmem)
            fun u hu _ => hpicked u hu)

/-- What an orderly round does to the watermark. -/
theorem syncFolder_advances (normalize : ℕ → RawMessage → Option ε) {w : World} (h : Orderly account w replies)
    (hasc : ∀ v found, replies.inner = some v →
      replies.search (w.state.searchesFrom v + 1) = some found → found.Pairwise (· < ·)) :
    (syncFolder normalize account replies w.state).state = w.state ∨
      ∃ v advances, replies.inner = some v ∧
        (syncFolder normalize account replies w.state).state = (w.state.selected v).advance advances ∧
        ∀ a ∈ advances, ∃ found, replies.search (w.state.searchesFrom v + 1) = some found ∧
          a ∈ found ∧ ∀ u ∈ found, w.state.searchesFrom v < u → u ≤ a →
            Handled (syncFolder normalize account replies w.state).events v u := by
  rcases syncFolder_cases normalize account replies w.state with
    hstate | ⟨outer, houter, hevents, hround⟩
  · exact .inl hstate
  rcases fetchNewMessages_cases account replies w.state with
    hfetch | ⟨v, hinner, ⟨msgs, hfetch, hmsgs⟩ | ⟨found, hsearch, hfetch⟩⟩
  · rw [hfetch] at hround
    rcases hround with ⟨hstate, -⟩ | ⟨msgs, hmsgs, -⟩
    · exact .inl hstate
    · cases hmsgs
  · rw [hfetch] at hround
    rcases hround with ⟨hstate, -⟩ | ⟨msgs', hmsgs', hne, -⟩
    · exact .inr ⟨v, [], hinner, hstate, fun a ha => absurd ha List.not_mem_nil⟩
    · rcases hmsgs with rfl | rfl
      · cases hmsgs'
      · exact absurd (Option.some.inj hmsgs').symm hne
  · obtain rfl := h.sameSelect outer v houter hinner
    obtain ⟨advances, hstate, hall⟩ := window_advances (hasc outer found hinner hsearch)
      (fun sizes => h.finished outer found sizes hinner hsearch) hfetch hevents hround
    exact .inr ⟨outer, advances, hinner, hstate, fun a ha => ⟨found, hsearch, hall a ha⟩⟩

/-! ### The watermark covers the folder -/

/-- Every message up to `n` has been handled, and no later message will get a UID up to `n`. -/
structure Covered (mb : Mailbox) (events : List Event) (v n : ℕ) : Prop where
  below : n < mb.nextUid v
  handled : ∀ u ∈ mb.alive v, u ≤ n → Handled events v u

/-- The watermark that the next round searches from is covered, whatever UIDVALIDITY it sees. -/
structure Inv (w : World) : Prop where
  fresh : w.state.uidvalidity = none → w.state.lastUid = 0
  covered : ∀ v, Covered w.mailbox w.events v (w.state.searchesFrom v)

theorem Handled.append (h : Handled events v u) : Handled (events ++ events') v u := by
  rcases h with h | h | h | h
  · exact .inl (List.mem_append_left _ h)
  · exact .inr (.inl (List.mem_append_left _ h))
  · exact .inr (.inr (.inl (List.mem_append_left _ h)))
  · exact .inr (.inr (.inr (List.mem_append_left _ h)))

theorem Handled.append_right (h : Handled events' v u) : Handled (events ++ events') v u := by
  rcases h with h | h | h | h
  · exact .inl (List.mem_append_right _ h)
  · exact .inr (.inl (List.mem_append_right _ h))
  · exact .inr (.inr (.inl (List.mem_append_right _ h)))
  · exact .inr (.inr (.inr (List.mem_append_right _ h)))

theorem covered_zero (mb : Mailbox) (events : List Event) (v : ℕ) : Covered mb events v 0 where
  below := mb.nextUid_pos v
  handled u hu hle := by
    have := mb.bounds v u hu
    omega

theorem Covered.mono {n : ℕ} (h : Covered mb events v n) (hsince : mb.Since mb') :
    Covered mb' (events ++ events') v n where
  below := h.below.trans_le (hsince.nextUid v)
  handled u hu hle := (h.handled u (hsince.alive v u hu (hle.trans_lt h.below)) hle).append

theorem searchesFrom_known (h : st.uidvalidity = some v) : st.searchesFrom v = st.lastUid := by
  rw [FolderState.searchesFrom, h]
  exact if_neg fun hne => hne rfl

theorem searchesFrom_other (h : st.uidvalidity = some u) (hne : u ≠ v) : st.searchesFrom v = 0 := by
  rw [FolderState.searchesFrom, h]
  exact if_pos hne

theorem Mailbox.Serves.since (h : mb.Serves replies mb') : mb.Since mb' := by
  obtain ⟨_, _, _, h1, h2, h3, h4, -⟩ := h
  exact h1.since.trans (h2.since.trans (h3.since.trans h4.since))

/-- The stored watermark is covered under the UIDVALIDITY of an orderly round. -/
theorem Inv.stored {w : World} (h : Inv w) (horderly : Orderly account w replies)
    (hinner : replies.inner = some v) : Covered w.mailbox w.events v w.state.lastUid := by
  have hcov := h.covered v
  cases hknown : w.state.uidvalidity with
  | none =>
    rw [FolderState.searchesFrom, hknown] at hcov
    exact hcov
  | some known =>
    by_cases hv : known = v
    · subst hv
      rwa [searchesFrom_known hknown] at hcov
    · obtain ⟨hnext, hall⟩ := horderly.renumbered v known hinner hknown hv
      exact ⟨hnext, fun u hu hle => absurd (hall u hu) (not_lt.mpr hle)⟩

/-- A UID that SEARCH has found is covered once everything found up to it has been handled. -/
theorem covered_found {n a : ℕ} (hcov : Covered mb events v n) (hserves : mb.Serves replies mb')
    (hinner : replies.inner = some v) {found : List ℕ} (hsearch : replies.search (n + 1) = some found)
    (ha : a ∈ found) (hall : ∀ u ∈ found, n < u → u ≤ a → Handled events' v u) :
    Covered mb' (events ++ events') v a := by
  obtain ⟨atOuter, atInner, atSearch, h1, h2, h3, h4, -, hreplies⟩ := hserves
  obtain rfl := (hreplies v hinner).2 _ _ hsearch
  have hsince := h1.since.trans (h2.since.trans h3.since)
  have hnext := (atSearch.bounds v a (alive_of_mem_search ha)).2
  refine ⟨hnext.trans_le (h4.since.nextUid v), fun u hu hle => ?_⟩
  have hu' := h4.since.alive v u hu (hle.trans_lt hnext)
  by_cases hn : u ≤ n
  · exact (hcov.handled u (hsince.alive v u hu' (hn.trans_lt hcov.below)) hn).append
  · exact (hall u (mem_search hu' (not_le.mp hn)) (not_le.mp hn) hle).append_right

theorem round_inv {w w' : World} (h : Inv w) (horderly : Orderly account w replies)
    (hstep : (system normalize account).step w (.round replies) w') : Inv w' := by
  obtain ⟨hserves, hstate, hevents⟩ := hstep
  have hsorted (v : ℕ) (found : List ℕ) (hinner : replies.inner = some v)
      (hsearch : replies.search (w.state.searchesFrom v + 1) = some found) :
      found.Pairwise (· < ·) := by
    obtain ⟨_, _, atSearch, -, -, -, -, -, hreplies⟩ := hserves
    rw [(hreplies v hinner).2 _ _ hsearch]
    exact search_ascending
  rcases syncFolder_advances normalize horderly hsorted with
    hsame | ⟨v, advances, hinner, hmoved, hall⟩
  · rw [hsame] at hstate
    refine ⟨fun hnone => ?_, fun v => ?_⟩
    · rw [hstate] at hnone ⊢
      exact h.fresh hnone
    · rw [hstate, hevents]
      exact (h.covered v).mono hserves.since
  · have hknown : w'.state.uidvalidity = some v := by
      rw [hstate, hmoved, advance_uidvalidity]
      rfl
    refine ⟨fun hnone => ?_, fun v' => ?_⟩
    · rw [hknown] at hnone
      cases hnone
    · by_cases hv : v = v'
      · subst hv
        rw [searchesFrom_known hknown, hstate, hmoved, hevents]
        rcases advance_lastUid advances (w.state.selected v) with hlast | hlast
        · rw [hlast]
          exact (h.stored horderly hinner).mono hserves.since
        · obtain ⟨found, hsearch, ha, hhandled⟩ := hall _ hlast
          exact covered_found (h.covered v) hserves hinner hsearch ha hhandled
      · rw [searchesFrom_other hknown hv]
        exact covered_zero _ _ _

theorem run_inv {w : World} (h : Run (system normalize account) (OrderlyStep account) w) : Inv w := by
  refine h.invariant (fun w hinit => ⟨fun _ => ?_, fun v => ?_⟩) fun w label w' _ hinv hc hst => ?_
  · rw [hinit.1]
  · rw [hinit.1]
    exact covered_zero _ _ _
  · cases label with
    | mailbox =>
      obtain ⟨hchange, hstate, hevents⟩ := hst
      refine ⟨fun hnone => ?_, fun v => ?_⟩
      · rw [hstate] at hnone ⊢
        exact hinv.fresh hnone
      · rw [hstate, hevents, ← List.append_nil w.events]
        exact (hinv.covered v).mono hchange.since
    | round replies => exact round_inv hinv hc hst

theorem reachable_round {w : World} (h : Reachable (system normalize account) w) (replies : Replies)
    (hserves : w.mailbox.Serves replies mb') : Reachable (system normalize account)
      ⟨mb', (syncFolder normalize account replies w.state).state,
        w.events ++ (syncFolder normalize account replies w.state).events⟩ := by
  have hstep : (system normalize account).step w (.round replies) ⟨mb', _, _⟩ := ⟨hserves, rfl, rfl⟩
  exact h.step hstep

theorem reachable_change {w : World} (h : Reachable (system normalize account) w)
    (hchange : w.mailbox.Change mb') :
    Reachable (system normalize account) ⟨mb', w.state, w.events⟩ := by
  have hstep : (system normalize account).step w .mailbox ⟨mb', _, _⟩ := ⟨hchange, rfl, rfl⟩
  exact h.step hstep

/-- The replies of a round during which the mailbox stands still, with the given sizes. -/
def undisturbed (mb : Mailbox) (sizes : ℕ → Option ℤ) (bodies : Option (ℕ → Body)) : Replies where
  outer := some mb.uidvalidity
  inner := some mb.uidvalidity
  search lo := some (mb.search mb.uidvalidity lo)
  sizes := some sizes
  bodies := bodies
  uploaded := true

theorem undisturbed_serves (mb : Mailbox) (sizes : ℕ → Option ℤ) (bodies : Option (ℕ → Body)) :
    mb.Serves (undisturbed mb sizes bodies) mb := by
  refine ⟨mb, mb, mb, .refl, .refl, .refl, .refl, fun v hv => (Option.some.inj hv).symm,
    fun v hv => ⟨(Option.some.inj hv).symm, fun lo found hfound => ?_⟩⟩
  rw [← Option.some.inj hv]
  exact (Option.some.inj hfound).symm

/-- A folder with the messages 1 and 2 under UIDVALIDITY 1. -/
def twoMessages : Mailbox where
  uidvalidity := 1
  alive v := if v = 1 then [1, 2] else []
  nextUid v := if v = 1 then 3 else 1
  ascending v := by
    split
    · decide
    · exact .nil
  bounds v u hu := by
    split at hu
    · rename_i hv
      rw [if_pos hv]
      revert u
      decide
    · cases hu
  nextUid_pos v := by
    split <;> decide

/-- Message 1 is small, every other one is too large. -/
def secondTooLarge (u : ℕ) : Option ℤ := if u = 1 then some 100 else some (31 * 1024 * 1024)

def emptyBody : Body := ⟨none, none, none⟩

/-- The sync of an account without an initial sync limit, where every message can be normalised. -/
abbrev plainSync : System World Label := system (fun _ m => some m.uid) ⟨0, false⟩

end OneMail.Imap
