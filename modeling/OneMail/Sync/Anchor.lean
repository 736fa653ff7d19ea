import Mathlib
import OneMail.Sync.Graph

/-! The seen anchor of a Graph folder.

    A `Mailbox` is the folder on the server: its listing, newest first, gains messages at the front and
    loses any of them. A round reads one listing, takes what stands above the first seen key and works
    on the oldest part of it. So whatever stands below a seen key has been dealt with
    (`no_message_stranded`), as long as no later round starts the first sync again from a window that
    has moved (`Kept`). -/

namespace OneMail.Graph

open Transition
open Imap (batchSize)

/-! ### The mailbox -/

/-- A folder on the server: the ids of all messages that ever arrived, and the listing, both newest
    first. -/
structure Mailbox where
  arrivals : List String
  listing : List Item
  distinct : arrivals.Nodup
  listed : (listing.map (·.id)).Sublist arrivals

def Mailbox.arrive (mb : Mailbox) (item : Item) (h : item.id ∉ mb.arrivals) : Mailbox where
  arrivals := item.id :: mb.arrivals
  listing := item :: mb.listing
  distinct := List.nodup_cons.mpr ⟨h, mb.distinct⟩
  listed := mb.listed.cons_cons _

def Mailbox.lose (mb : Mailbox) (keep : Item → Bool) : Mailbox where
  arrivals := mb.arrivals
  listing := mb.listing.filter keep
  distinct := mb.distinct
  listed := (List.filter_sublist.map _).trans mb.listed

inductive Mailbox.Change (mb : Mailbox) : Mailbox → Prop
  | arrive (item : Item) (h : item.id ∉ mb.arrivals) : mb.Change (mb.arrive item h)
  | lose (keep : Item → Bool) : mb.Change (mb.lose keep)

/-- What any number of changes make of a mailbox. -/
abbrev Mailbox.Evolves : Mailbox → Mailbox → Prop := Relation.ReflTransGen Mailbox.Change

/-! ### Rounds against a mailbox -/

/-- The stored keys of the folder, and what a reader needs to know of the past: the messages that the
    first sync found below its window (`none` before the first sync) and the events. -/
structure World where
  mailbox : Mailbox
  seen : List String
  beyond : Option (List String)
  events : List Event

variable {ρ ε : Type*}

/-- What a first sync collects: the first page, cut to the initial sync limit. -/
def firstWindow (account : Account) (replies : Replies ρ) : Option (List Item) :=
  match replies.pages with
  | [] => none
  | page :: _ =>
    if replies.failing 0 then none
    else if 0 < account.initialSyncLimit ∧ account.initialSyncLimit < page.length then
      some (page.take account.initialSyncLimit.toNat)
    else some page

/-- The ids of what is listed below the window. -/
def belowWindow (listing window : List Item) : List String :=
  (listing.drop window.length).map (·.id)

inductive Label (ρ : Type*) where
  | mailbox
  | round (replies : Replies ρ)

variable (formats : Formats ρ ε) (account : Account) (folder : String)

/-- Sync rounds of a new account folder, with mailbox changes between and during them. The pages of a
    round are one consistent listing, cut anywhere. -/
def system : System World (Label ρ) where
  init w := w.seen = [] ∧ w.beyond = none ∧ w.events = []
  step w label w' := match label with
    | .mailbox =>
      w.mailbox.Change w'.mailbox ∧ w'.seen = w.seen ∧ w'.beyond = w.beyond ∧ w'.events = w.events
    | .round replies => ∃ listed : Mailbox,
      w.mailbox.Evolves listed ∧ listed.Evolves w'.mailbox ∧ replies.pages.flatten = listed.listing ∧
        w'.seen = (syncFolder formats account folder replies w.seen).seen ∧
        w'.beyond = w.beyond.or ((firstWindow account replies).map (belowWindow listed.listing)) ∧
        w'.events = w.events ++ (syncFolder formats account folder replies w.seen).events

/-- The message was uploaded, or dropped as over-size or as impossible to normalise. -/
def Handled (events : List Event) (id : String) : Prop :=
  .overLimit id ∈ events ∨ .unnormalised id ∈ events ∨ .uploaded id ∈ events

/-- A round that finds no seen key although the first sync has already had its window still has every
    listed message of that window, and every later one, in the window that it collects itself. -/
def Kept (w : World) (replies : Replies ρ) : Prop :=
  w.seen = [] → ∀ beyond window, w.beyond = some beyond → firstWindow account replies = some window →
    ∀ item ∈ replies.pages.flatten, item.id ∉ beyond → item ∈ window

def KeptStep (w : World) : Label ρ → Prop
  | .mailbox => True
  | .round replies => Kept account w replies

/-! ### The seen keys -/

theorem mem_appendSeen {ordered : List String} {uid k : String} (h : k ∈ appendSeen ordered uid) :
    k ∈ ordered ∨ k = uid := by
  rw [appendSeen] at h
  split at h
  · exact .inl h
  · exact (List.mem_append.mp h).imp_right List.mem_singleton.mp

theorem mem_foldl_appendSeen {k : String} (uids : List String) : ∀ {ordered : List String},
    k ∈ uids.foldl appendSeen ordered → k ∈ ordered ∨ k ∈ uids := by
  induction uids with
  | nil => exact fun h => .inl h
  | cons uid uids ih =>
    intro ordered h
    rcases ih h with h | h
    · rcases mem_appendSeen h with h | rfl
      · exact .inl h
      · exact .inr List.mem_cons_self
    · exact .inr (List.mem_cons_of_mem _ h)

/-- Only the given keys are added. -/
theorem mem_addPop3SeenMany {seen uidls : List String} {k : String}
    (h : k ∈ addPop3SeenMany seen uidls) : k ∈ seen ∨ k ∈ uidls := by
  rw [addPop3SeenMany] at h
  split at h
  · exact .inl h
  · rcases mem_foldl_appendSeen _ (List.mem_of_mem_drop h) with h | h
    · exact .inl ((mem_foldl_appendSeen _ h).resolve_left List.not_mem_nil)
    · exact .inr h

theorem graphUidKey_injective (account : Account) (folder : String) :
    Function.Injective (graphUidKey account folder) := by
  intro a b h
  rw [graphUidKey, graphUidKey, String.append_right_inj] at h
  exact h

/-! ### What a round collects -/

variable {formats account folder} {replies : Replies ρ} {seen : List String} {key : String → String}

/-- The rest of a listing starts at a seen key, if there is a rest. -/
def AtAnchor (seen : List String) (key : String → String) (rest : List Item) : Prop :=
  rest = [] ∨ ∃ anchor tail, rest = anchor :: tail ∧ key anchor.id ∈ seen

/-- Pagination collects everything above the first seen key. -/
theorem collectPages_spec {failing : ℕ → Bool} (hseen : seen ≠ []) (pages : List (List Item)) :
    ∀ {n scanned : ℕ} {pending collected : List Item},
      collectPages seen key failing n pages scanned pending = some collected →
        ∃ rest, pending ++ pages.flatten = collected ++ rest ∧ AtAnchor seen key rest := by
  induction pages with
  | nil =>
    intro n scanned pending collected h
    exact ⟨[], by rw [← Option.some.inj h]; rfl, .inl rfl⟩
  | cons page pages ih =>
    intro n scanned pending collected h
    have hpage := List.takeWhile_append_dropWhile (p := fun item => key item.id ∉ seen) (l := page)
    rw [collectPages] at h
    split at h
    · cases h
    · simp only [hseen, or_false] at h
      split at h
      · rename_i hshort
        rw [← Option.some.inj h]
        refine ⟨(page.dropWhile fun item => key item.id ∉ seen) ++ pages.flatten, ?_, .inr ?_⟩
        · rw [List.flatten_cons, List.append_assoc, ← List.append_assoc (List.takeWhile _ _), hpage]
        · cases hdrop : page.dropWhile fun item => key item.id ∉ seen with
          | nil =>
            rw [hdrop, List.append_nil] at hpage
            rw [hpage] at hshort
            exact absurd hshort (lt_irrefl _)
          | cons anchor tail =>
            refine ⟨anchor, tail ++ pages.flatten, rfl, ?_⟩
            have hne : (page.dropWhile fun item => key item.id ∉ seen) ≠ [] := by
              rw [hdrop]
              exact List.cons_ne_nil _ _
            have hhead := List.head_dropWhile_not _ hne
            simp only [hdrop, List.head_cons] at hhead
            simpa using hhead
      · rename_i hfull
        have hall : (page.takeWhile fun item => key item.id ∉ seen) = page :=
          (List.takeWhile_prefix _).eq_of_length_le (not_lt.mp hfull)
        rw [hall] at h
        split at h
        · rename_i hlast
          rw [← Option.some.inj h, hlast]
          exact ⟨[], by simp, .inl rfl⟩
        · split at h
          · cases h
          · obtain ⟨rest, hrest, hanchor⟩ := ih h
            exact ⟨rest, by rw [List.flatten_cons, ← List.append_assoc, hrest], hanchor⟩

theorem prefix_append_drop {l l' : List Item} (h : l <+: l') : l ++ l'.drop l.length = l' := by
  obtain ⟨t, rfl⟩ := h
  rw [List.drop_left]

theorem mem_drop_take {l l' : List Item} {n : ℕ} {item : Item} (h : item ∈ l.drop n) :
    item ∈ (l ++ l').drop (l.take n).length := by
  have hsub : l.drop n <+: (l ++ l').drop (l.take n).length := by
    rw [List.length_take]
    by_cases hn : n ≤ l.length
    · rw [min_eq_left hn, List.drop_append_of_le_length hn]
      exact List.prefix_append _ _
    · rw [List.drop_of_length_le (not_le.mp hn).le]
      exact List.nil_prefix
  exact hsub.subset h

/-- Where the part of the listing ends that a round works on: at the window of the first sync, which
    may mark what is below as seen, or at a seen key. -/
inductive Boundary (account : Account) (folder : String) (replies : Replies ρ) (seen : List String) :
    List Item → List Item → Prop
  | first {marked rest : List Item} (window : List Item) : seen = [] →
      firstWindow account replies = some window → rest = replies.pages.flatten.drop window.length →
      marked ⊆ rest → Boundary account folder replies seen marked rest
  | anchor {rest : List Item} : (seen = [] → replies.pages = []) →
      AtAnchor seen (graphUidKey account folder) rest → Boundary account folder replies seen [] rest

/-- A round collects one piece of the listing, down to a boundary. -/
theorem collect_spec (account : Account) (folder : String) (replies : Replies ρ) (seen : List String) :
    (collectPendingGraphItems account folder replies seen = ⟨seen, none⟩) ∨
      ∃ newer batch rest marked, replies.pages.flatten = newer ++ (batch ++ rest) ∧
        Boundary account folder replies seen marked rest ∧
        collectPendingGraphItems account folder replies seen =
          ⟨addPop3SeenMany seen (marked.map fun row => graphUidKey account folder row.id),
            some batch.reverse⟩ := by
  rw [collectPendingGraphItems]
  cases hpages : collectPages seen (graphUidKey account folder) replies.failing 0 replies.pages 0 [] with
  | none => exact .inl rfl
  | some pending =>
    refine .inr ?_
    simp only
    split
    · rename_i hfirst
      subst hfirst
      cases hcut : replies.pages with
      | nil =>
        rw [hcut, collectPages] at hpages
        rw [← Option.some.inj hpages]
        exact ⟨[], [], [], [], rfl, .anchor (fun _ => hcut) (.inl rfl), by simp [addPop3SeenMany]⟩
      | cons page pages =>
        have hall : (page.takeWhile fun item => graphUidKey account folder item.id ∉ []) = page :=
          List.takeWhile_eq_self_iff.mpr fun _ _ => by simp
        rw [hcut, collectPages] at hpages
        split at hpages
        · cases hpages
        · rename_i hget
          rw [hall, if_pos (.inr rfl), List.nil_append] at hpages
          obtain rfl := Option.some.inj hpages
          have hwindow : firstWindow account replies =
              if 0 < account.initialSyncLimit ∧ account.initialSyncLimit < page.length then
                some (page.take account.initialSyncLimit.toNat) else some page := by
            rw [firstWindow, hcut]
            exact if_neg hget
          split
          · rename_i hlimit
            rw [if_pos hlimit] at hwindow
            refine ⟨[], _, _, page.drop account.initialSyncLimit.toNat, ?_, .first _ rfl hwindow rfl ?_, rfl⟩
            · rw [List.nil_append, hcut, List.flatten_cons]
              exact (prefix_append_drop ((List.take_prefix _ _).trans (List.prefix_append _ _))).symm
            · intro item hitem
              rw [hcut, List.flatten_cons]
              exact mem_drop_take hitem
          · rename_i hlimit
            rw [if_neg hlimit] at hwindow
            refine ⟨[], page, _, [], ?_, .first _ rfl hwindow rfl (List.nil_subset _), rfl⟩
            rw [hcut, List.flatten_cons, List.drop_left, List.nil_append]
    · rename_i hseen
      obtain ⟨rest, hrest, hanchor⟩ := collectPages_spec hseen _ hpages
      rw [List.nil_append] at hrest
      split
      · refine ⟨pending.take (pending.length - batchSize), _, rest, [], ?_, .anchor (absurd · hseen) hanchor, rfl⟩
        rw [← List.append_assoc, List.take_append_drop, hrest]
      · exact ⟨[], pending, rest, [], hrest, .anchor (absurd · hseen) hanchor, rfl⟩

/-- The ids that a fetch accounts for. -/
def Fetch.ids (f : Fetch ρ) : List String := f.oversize ++ f.fetched.map (·.1.legacyId)

/-- The MIME loop accounts for a prefix of what is pending, and for nothing else. -/
theorem fetchMime_spec {immutable : String → Stable} (pending : List Item) : ∀ {f f' : Fetch ρ},
    fetchMime formats replies immutable pending f = some f' →
      ∃ done rest, pending = done ++ rest ∧
        ∀ id, id ∈ f'.ids ↔ id ∈ f.ids ∨ id ∈ done.map (·.id) := by
  induction pending with
  | nil =>
    intro f f' h
    rw [← Option.some.inj h]
    exact ⟨[], [], rfl, by simp⟩
  | cons item items ih =>
    intro f f' h
    rw [fetchMime] at h
    split at h
    · cases h
    · rw [← Option.some.inj h]
      exact ⟨[], item :: items, rfl, by simp⟩
    · split at h
      · obtain ⟨done, rest, hsplit, hids⟩ := ih h
        refine ⟨item :: done, rest, congrArg (item :: ·) hsplit, fun id => ?_⟩
        rw [hids, Fetch.ids, Fetch.ids, List.map_cons, List.mem_cons, List.mem_append, List.mem_append,
          List.mem_append, List.mem_singleton]
        tauto
      · obtain ⟨done, rest, hsplit, hids⟩ := ih h
        refine ⟨item :: done, rest, congrArg (item :: ·) hsplit, fun id => ?_⟩
        rw [hids, Fetch.ids, Fetch.ids, List.map_cons, List.mem_cons, List.map_append, List.mem_append,
          List.mem_append, List.mem_append, List.map_singleton, List.mem_singleton]
        exact ⟨fun h => by tauto, fun h => by tauto⟩

theorem fetchGraphMessages_spec {pending : List Item} {f : Fetch ρ}
    (h : fetchGraphMessages formats replies pending = some f) :
    ∃ done rest, pending = done ++ rest ∧ ∀ id, id ∈ f.ids ↔ id ∈ done.map (·.id) := by
  rw [fetchGraphMessages] at h
  split at h
  · rename_i hnil
    rw [← Option.some.inj h]
    exact ⟨[], [], hnil, by simp [Fetch.ids]⟩
  · split at h
    · cases h
    · obtain ⟨done, rest, hsplit, hids⟩ := fetchMime_spec pending h
      exact ⟨done, rest, hsplit, fun id => by simpa [Fetch.ids] using hids id⟩

/-- The folder loop stores nothing more than the collected keys, or also the keys of everything the
    fetch accounts for, and then each of these messages has been dropped or uploaded. -/
theorem syncFolder_cases (formats : Formats ρ ε) (account : Account) (folder : String)
    (replies : Replies ρ) (seen : List String) :
    (syncFolder formats account folder replies seen).seen =
        (collectPendingGraphItems account folder replies seen).seen ∨
      ∃ pending f, (collectPendingGraphItems account folder replies seen).pending = some pending ∧
        fetchGraphMessages formats replies pending = some f ∧
        (syncFolder formats account folder replies seen).seen =
          addPop3SeenMany (collectPendingGraphItems account folder replies seen).seen
            (f.ids.map (graphUidKey account folder)) ∧
        ∀ id ∈ f.ids, Handled (syncFolder formats account folder replies seen).events id := by
  rw [syncFolder]
  generalize collectPendingGraphItems account folder replies seen = collected
  cases hfetch : collected.pending.bind (fetchGraphMessages formats replies) with
  | none => exact .inl rfl
  | some f =>
    obtain ⟨pending, hpending, hf⟩ := Option.bind_eq_some_iff.mp hfetch
    simp only
    have hids : f.oversize.map (graphUidKey account folder) ++
        f.fetched.map (fun m => graphUidKey account folder m.1.legacyId) =
          f.ids.map (graphUidKey account folder) := by
      rw [Fetch.ids, List.map_append, List.map_map]
      rfl
    split
    · rename_i hnone
      refine .inr ⟨pending, f, hpending, hf, ?_, fun id hid => .inl ?_⟩
      · rw [← hids, hnone, List.map_nil, List.append_nil]
      · rw [Fetch.ids, hnone, List.map_nil, List.append_nil] at hid
        exact List.mem_map_of_mem hid
    · -- what has been fetched is either in the batch or was impossible to normalise
      have hall : ∀ more, (∀ m ∈ f.fetched, (formats.normalize m.1 m.2).isSome →
            Event.uploaded m.1.legacyId ∈ more) → ∀ id ∈ f.ids,
          Handled (f.oversize.map Event.overLimit ++ ((f.fetched.filter fun m =>
            (formats.normalize m.1 m.2).isNone).map fun m => .unnormalised m.1.legacyId) ++ more) id := by
        intro more hmore id hid
        rcases List.mem_append.mp hid with hid | hid
        · exact .inl (List.mem_append_left _ (List.mem_append_left _ (List.mem_map_of_mem hid)))
        · obtain ⟨m, hm, rfl⟩ := List.mem_map.mp hid
          cases hnorm : formats.normalize m.1 m.2 with
          | none =>
            refine .inr (.inl (List.mem_append_left _ (List.mem_append_right _ ?_)))
            exact List.mem_map.mpr ⟨m, List.mem_filter.mpr ⟨hm, by rw [hnorm]; rfl⟩, rfl⟩
          | some email =>
            exact .inr (.inr (List.mem_append_right _ (hmore m hm (by rw [hnorm]; rfl))))
      split
      · rename_i hempty
        refine .inr ⟨pending, f, hpending, hf, congrArg (addPop3SeenMany _) hids, fun id hid => ?_⟩
        have hid' := hall [] (fun m hm hsome => ?_) id hid
        · rwa [List.append_nil] at hid'
        · exact absurd (hempty ▸ List.mem_filter.mpr ⟨hm, hsome⟩) List.not_mem_nil
      · split
        · exact .inl rfl
        · refine .inr ⟨pending, f, hpending, hf, congrArg (addPop3SeenMany _) hids, hall _ fun m hm hsome => ?_⟩
          exact List.mem_map.mpr ⟨m, List.mem_filter.mpr ⟨hm, hsome⟩, rfl⟩

/-- What a round does: below a piece of the listing that ends at a boundary, it marks messages as seen;
    of the piece, it works on the oldest messages, and marks those as seen once they are handled. -/
theorem syncFolder_spec (formats : Formats ρ ε) (account : Account) (folder : String)
    (replies : Replies ρ) (seen : List String) :
    (syncFolder formats account folder replies seen).seen = seen ∨
      ∃ newer processed rest marked, replies.pages.flatten = newer ++ (processed ++ rest) ∧
        Boundary account folder replies seen marked rest ∧
        (∀ k ∈ (syncFolder formats account folder replies seen).seen,
          k ∈ seen ∨ ∃ item ∈ marked ++ processed, k = graphUidKey account folder item.id) ∧
        ∀ item ∈ processed, Handled (syncFolder formats account folder replies seen).events item.id := by
  rcases collect_spec account folder replies seen with
    hnone | ⟨newer, batch, rest, marked, hsplit, hboundary, hcollect⟩
  · rcases syncFolder_cases formats account folder replies seen with hseen | ⟨pending, f, hpending, -⟩
    · rw [hnone] at hseen
      exact .inl hseen
    · rw [hnone] at hpending
      cases hpending
  · have hmarked : ∀ k ∈ addPop3SeenMany seen (marked.map fun row => graphUidKey account folder row.id),
        k ∈ seen ∨ ∃ item ∈ marked, k = graphUidKey account folder item.id := fun k hk =>
      (mem_addPop3SeenMany hk).imp_right fun hk =>
        (List.mem_map.mp hk).imp fun item h => ⟨h.1, h.2.symm⟩
    rcases syncFolder_cases formats account folder replies seen with
      hseen | ⟨pending, f, hpending, hf, hseen, hhandled⟩
    · rw [hcollect] at hseen
      refine .inr ⟨newer ++ batch, [], rest, marked, ?_, hboundary, fun k hk => ?_, by simp⟩
      · rw [hsplit, List.append_assoc, List.nil_append]
      · rw [hseen] at hk
        simpa only [List.append_nil] using hmarked k hk
    · rw [hcollect] at hpending hseen
      obtain ⟨done, left, hdone, hids⟩ := fetchGraphMessages_spec hf
      have hbatch : batch = left.reverse ++ done.reverse := by
        rw [← List.reverse_append, ← hdone, ← Option.some.inj hpending, List.reverse_reverse]
      refine .inr ⟨newer ++ left.reverse, done.reverse, rest, marked, ?_, hboundary, fun k hk => ?_, ?_⟩
      · rw [hsplit, hbatch, List.append_assoc, List.append_assoc]
      · rw [hseen] at hk
        rcases mem_addPop3SeenMany hk with hk | hk
        · rcases hmarked k hk with hk | ⟨item, hitem, hkey⟩
          · exact .inl hk
          · exact .inr ⟨item, List.mem_append_left _ hitem, hkey⟩
        · obtain ⟨id, hid, rfl⟩ := List.mem_map.mp hk
          obtain ⟨item, hitem, rfl⟩ := List.mem_map.mp ((hids id).mp hid)
          exact .inr ⟨item, List.mem_append_right _ (List.mem_reverse.mpr hitem), rfl⟩
      · intro item hitem
        refine hhandled _ ((hids _).mpr (List.mem_map_of_mem (List.mem_reverse.mp hitem)))

/-! ### Nothing is stranded -/

/-- The message was handled, or it was below the window of the first sync. -/
def Settled (w : World) (id : String) : Prop := Handled w.events id ∨ id ∈ w.beyond.getD []

/-- `s` is the message `m`, or a later one. -/
def NotOlder (arrivals : List String) (s m : String) : Prop := m = s ∨ [s, m].Sublist arrivals

/-- Below a seen key everything listed is settled. -/
structure Inv (account : Account) (folder : String) (w : World) : Prop where
  known : ∀ k ∈ w.seen, ∃ id ∈ w.mailbox.arrivals, k = graphUidKey account folder id
  fresh : w.beyond = none → w.seen = []
  settled : ∀ s, graphUidKey account folder s ∈ w.seen → ∀ item ∈ w.mailbox.listing,
    NotOlder w.mailbox.arrivals s item.id → Settled w item.id

theorem Inv.arrived {w : World} (h : Inv account folder w) {s : String}
    (hs : graphUidKey account folder s ∈ w.seen) : s ∈ w.mailbox.arrivals := by
  obtain ⟨id, hid, hkey⟩ := h.known _ hs
  rwa [graphUidKey_injective account folder hkey]

theorem Handled.append {events more : List Event} {id : String} (h : Handled events id) :
    Handled (events ++ more) id := by
  rcases h with h | h | h
  · exact .inl (List.mem_append_left _ h)
  · exact .inr (.inl (List.mem_append_left _ h))
  · exact .inr (.inr (List.mem_append_left _ h))

theorem Handled.append_right {events more : List Event} {id : String} (h : Handled more id) :
    Handled (events ++ more) id := by
  rcases h with h | h | h
  · exact .inl (List.mem_append_right _ h)
  · exact .inr (.inl (List.mem_append_right _ h))
  · exact .inr (.inr (List.mem_append_right _ h))

variable {w w' : World} {mb : Mailbox}

theorem Inv.change (h : Inv account folder w) (hchange : w.mailbox.Change mb) :
    Inv account folder { w with mailbox := mb } := by
  cases hchange with
  | arrive item hnew =>
    refine ⟨fun k hk => ?_, h.fresh, fun s hs m hm hle => ?_⟩
    · obtain ⟨id, hid, rfl⟩ := h.known k hk
      exact ⟨id, List.mem_cons_of_mem _ hid, rfl⟩
    · have hold := h.arrived hs
      have hne : s ≠ item.id := fun heq => hnew (heq ▸ hold)
      rcases List.mem_cons.mp hm with rfl | hm
      · -- the new message stands above every seen one
        exfalso
        rcases hle with heq | hsub
        · exact hne heq.symm
        · exact hnew (((List.cons_sublist_cons'.mp hsub).resolve_right fun h => hne h.1).subset
            (List.mem_cons_of_mem _ List.mem_cons_self))
      · refine h.settled s hs m hm (hle.imp_right fun hsub => ?_)
        exact (List.cons_sublist_cons'.mp hsub).resolve_right fun h => hne h.1
  | lose keep =>
    exact ⟨h.known, h.fresh, fun s hs m hm hle => h.settled s hs m (List.mem_of_mem_filter hm) hle⟩

theorem Inv.evolve (h : Inv account folder w) (hevolve : w.mailbox.Evolves mb) :
    Inv account folder { w with mailbox := mb } := by
  induction hevolve with
  | refl => exact h
  | tail _ hchange ih => exact ih.change hchange

/-- A list without repetition has two members in one order only. -/
theorem sublist_pair_asymm {a b : String} (l : List String) : l.Nodup → [a, b].Sublist l →
    ¬ [b, a].Sublist l := by
  induction l with
  | nil => exact fun _ h => absurd h (by simp)
  | cons x l ih =>
    intro hnodup hab hba
    obtain ⟨hx, hl⟩ := List.nodup_cons.mp hnodup
    rcases List.cons_sublist_cons'.mp hab with hab' | ⟨rfl, hb⟩
    · rcases List.cons_sublist_cons'.mp hba with hba' | ⟨rfl, ha⟩
      · exact ih hl hab' hba'
      · exact hx (hab'.subset (List.mem_cons_of_mem _ List.mem_cons_self))
    · rcases List.cons_sublist_cons'.mp hba with hba' | ⟨rfl, ha⟩
      · exact hx (hba'.subset (List.mem_cons_of_mem _ List.mem_cons_self))
      · exact hx (List.singleton_sublist.mp ha)

/-- What is not older than a message of the lower part of the listing is in the lower part. -/
theorem Mailbox.below_of_notOlder (mb : Mailbox) {upper lower : List Item} {s item : Item}
    (hsplit : mb.listing = upper ++ lower) (hs : s ∈ lower) (hitem : item ∈ mb.listing)
    (hle : NotOlder mb.arrivals s.id item.id) : item ∈ lower := by
  rw [hsplit] at hitem
  rcases List.mem_append.mp hitem with hup | hlow
  · exfalso
    have hlisted := mb.listed
    rw [hsplit, List.map_append] at hlisted
    have hnodup := mb.distinct.sublist hlisted
    have hpair : [item.id, s.id].Sublist mb.arrivals := by
      refine List.Sublist.trans ?_ hlisted
      exact (List.singleton_sublist.mpr (List.mem_map_of_mem hup)).append
        (List.singleton_sublist.mpr (List.mem_map_of_mem hs))
    rcases hle with heq | hsub
    · rw [heq] at hpair
      exact absurd (mb.distinct.sublist hpair) (by simp)
    · exact sublist_pair_asymm _ mb.distinct hsub hpair
  · exact hlow

/-- The message at a seen anchor, and all below it, are settled. -/
theorem Inv.below_anchor (h : Inv account folder w) {upper rest : List Item} {item : Item}
    (hsplit : w.mailbox.listing = upper ++ rest)
    (hanchor : AtAnchor w.seen (graphUidKey account folder) rest) (hitem : item ∈ rest) :
    Settled w item.id := by
  rcases hanchor with rfl | ⟨anchor, tail, rfl, hseen⟩
  · cases hitem
  · refine h.settled anchor.id hseen item (hsplit ▸ List.mem_append_right _ hitem) ?_
    rcases List.mem_cons.mp hitem with rfl | htail
    · exact .inl rfl
    · refine .inr (List.Sublist.trans ?_ w.mailbox.listed)
      rw [hsplit, List.map_append, List.map_cons]
      exact ((List.singleton_sublist.mpr (List.mem_map_of_mem htail)).cons_cons anchor.id).trans
        (List.sublist_append_right _ _)

theorem firstWindow_begins {replies : Replies ρ} {window : List Item}
    (h : firstWindow account replies = some window) : window <+: replies.pages.flatten := by
  rw [firstWindow] at h
  split at h
  · cases h
  · rename_i page pages hpages
    rw [hpages, List.flatten_cons]
    split at h
    · cases h
    · split at h
      · rw [← Option.some.inj h]
        exact (List.take_prefix _ _).trans (List.prefix_append _ _)
      · rw [← Option.some.inj h]
        exact List.prefix_append _ _

/-- No message is both in the window and below it. -/
theorem window_below_disjoint {replies : Replies ρ} {window : List Item} {item : Item}
    (h : firstWindow account replies = some window) (hnodup : (replies.pages.flatten.map (·.id)).Nodup)
    (hin : item ∈ window) : item ∉ replies.pages.flatten.drop window.length := by
  rw [← prefix_append_drop (firstWindow_begins h), List.map_append] at hnodup
  exact fun hbelow => (List.nodup_append.mp hnodup).2.2 _ (List.mem_map_of_mem hin) _
    (List.mem_map_of_mem hbelow) rfl

/-- A round keeps the invariant on the listing that it reads. -/
theorem round_settled {replies : Replies ρ} (h : Inv account folder w) (hkept : Kept account w replies)
    (hlisting : replies.pages.flatten = w.mailbox.listing)
    (hw' : w' = ⟨w.mailbox, (syncFolder formats account folder replies w.seen).seen,
      w.beyond.or ((firstWindow account replies).map (belowWindow w.mailbox.listing)),
      w.events ++ (syncFolder formats account folder replies w.seen).events⟩) :
    Inv account folder w' := by
  have hbeyond : ∀ id, id ∈ w.beyond.getD [] → id ∈ w'.beyond.getD [] := fun id hid => by
    subst hw'
    cases hb : w.beyond with
    | none =>
      rw [hb] at hid
      cases hid
    | some b =>
      rw [hb] at hid
      exact hid
  have hmono : ∀ id, Settled w id → Settled w' id := fun id hid => by
    refine hid.imp (fun hid => ?_) (hbeyond id)
    subst hw'
    exact hid.append
  have hmailbox : w'.mailbox = w.mailbox := by rw [hw']
  rcases syncFolder_spec formats account folder replies w.seen with
    hseen | ⟨newer, processed, rest, marked, hsplit, hboundary, hkeys, hhandled⟩
  · have hseen' : w'.seen = w.seen := by
      subst hw'
      exact hseen
    refine ⟨fun k hk => ?_, fun hnone => ?_, fun s hs item hitem hle => ?_⟩
    · rw [hseen'] at hk
      rw [hmailbox]
      exact h.known k hk
    · subst hw'
      exact hseen'.trans (h.fresh (Option.or_eq_none_iff.mp hnone).1)
    · rw [hmailbox] at hitem hle
      exact hmono _ (h.settled s (hseen' ▸ hs) item hitem hle)
  · rw [hlisting] at hsplit
    have hrest : ∀ item ∈ rest, Settled w' item.id := by
      intro item hitem
      cases hboundary with
      | anchor _ hanchor =>
        rw [← List.append_assoc] at hsplit
        exact hmono _ (h.below_anchor hsplit hanchor hitem)
      | first window hfirst hwindow hrest hmarked =>
        refine .inr ?_
        have hmem : item.id ∈ belowWindow w.mailbox.listing window := by
          rw [← hlisting, belowWindow, ← hrest]
          exact List.mem_map_of_mem hitem
        cases hb : w.beyond with
        | none =>
          subst hw'
          simpa only [hb, hwindow, Option.none_or, Option.map_some, Option.getD_some] using hmem
        | some b =>
          -- a later first sync: what is now below the window was below the first one
          have hbelow : item.id ∈ b := by
            by_contra hnot
            have hlist : item ∈ replies.pages.flatten := by
              rw [hrest] at hitem
              exact List.mem_of_mem_drop hitem
            have hin := hkept hfirst b window hb hwindow item hlist hnot
            have hnodup : (replies.pages.flatten.map (·.id)).Nodup := by
              rw [hlisting]
              exact w.mailbox.distinct.sublist w.mailbox.listed
            rw [hrest] at hitem
            exact window_below_disjoint hwindow hnodup hin hitem
          refine hbeyond _ ?_
          rwa [hb]
    have hmarked : marked ⊆ rest := by
      cases hboundary with
      | anchor => exact List.nil_subset _
      | first window hfirst hwindow hrest hmarked => exact hmarked
    refine ⟨fun k hk => ?_, fun hnone => ?_, fun s hs item hitem hle => ?_⟩
    · subst hw'
      rcases hkeys k hk with hk | ⟨item, hitem, rfl⟩
      · exact h.known k hk
      · refine ⟨item.id, w.mailbox.listed.subset (List.mem_map_of_mem ?_), rfl⟩
        rw [hsplit]
        rcases List.mem_append.mp hitem with hitem | hitem
        · exact List.mem_append_right _ (List.mem_append_right _ (hmarked hitem))
        · exact List.mem_append_right _ (List.mem_append_left _ hitem)
    · subst hw'
      obtain ⟨hb, hwindow⟩ := Option.or_eq_none_iff.mp hnone
      have hseen := h.fresh hb
      refine List.eq_nil_iff_forall_not_mem.mpr fun k hk => ?_
      rcases hkeys k hk with hk | ⟨item, hitem, -⟩
      · rw [hseen] at hk
        cases hk
      · cases hboundary with
        | anchor hpages _ =>
          rw [hpages hseen] at hlisting
          rw [← hlisting] at hsplit
          have hnil := (List.append_eq_nil_iff.mp (List.append_eq_nil_iff.mp hsplit.symm).2).1
          rw [List.nil_append, hnil] at hitem
          cases hitem
        | first window _ hsome _ _ =>
          rw [hsome] at hwindow
          cases hwindow
    · rw [hmailbox] at hitem hle
      have hseen' : graphUidKey account folder s ∈
          (syncFolder formats account folder replies w.seen).seen := by
        subst hw'
        exact hs
      rcases hkeys _ hseen' with hold | ⟨m, hm, hkey⟩
      · exact hmono _ (h.settled s hold item hitem hle)
      · obtain rfl := graphUidKey_injective account folder hkey
        rcases List.mem_append.mp hm with hm | hm
        · rw [← List.append_assoc] at hsplit
          exact hrest item (w.mailbox.below_of_notOlder hsplit (hmarked hm) hitem hle)
        · rcases List.mem_append.mp (w.mailbox.below_of_notOlder hsplit (List.mem_append_left _ hm)
            hitem hle) with hitem | hitem
          · subst hw'
            exact .inl (hhandled item hitem).append_right
          · exact hrest item hitem

theorem run_inv (h : Run (system formats account folder) (KeptStep account) w) :
    Inv account folder w := by
  refine h.invariant (fun w hinit => ?_) fun w label w' _ hinv hc hst => ?_
  · obtain ⟨hseen, -, -⟩ := hinit
    refine ⟨fun k hk => ?_, fun _ => hseen, fun s hs => ?_⟩
    · rw [hseen] at hk
      cases hk
    · rw [hseen] at hs
      cases hs
  · cases label with
    | mailbox =>
      obtain ⟨mailbox', seen', beyond', events'⟩ := w'
      obtain ⟨hchange, rfl, rfl, rfl⟩ := hst
      exact hinv.change hchange
    | round replies =>
      obtain ⟨mailbox', seen', beyond', events'⟩ := w'
      obtain ⟨listed, hbefore, hafter, hlisting, rfl, rfl, rfl⟩ := hst
      exact (round_settled (hinv.evolve hbefore) hc hlisting rfl).evolve hafter

/-- In every run in which no first sync starts again from a window that has moved, each listed message
    that is older than a seen one, and was not below the window of the first sync, was uploaded, or
    dropped as over-size or as impossible to normalise. -/
theorem no_message_stranded (formats : Formats ρ ε) (account : Account) (folder : String)
    (h : Run (system formats account folder) (KeptStep account) w) (s : String) (item : Item)
    (hseen : graphUidKey account folder s ∈ w.seen) (hitem : item ∈ w.mailbox.listing)
    (holder : [s, item.id].Sublist w.mailbox.arrivals) (hwindow : item.id ∉ w.beyond.getD []) :
    Handled w.events item.id :=
  ((run_inv h).settled s hseen item hitem (.inr holder)).resolve_right hwindow

theorem reachable_round (h : Reachable (system formats account folder) w) (replies : Replies ρ)
    (hlisting : replies.pages.flatten = w.mailbox.listing) :
    Reachable (system formats account folder)
      ⟨w.mailbox, (syncFolder formats account folder replies w.seen).seen,
        w.beyond.or ((firstWindow account replies).map (belowWindow w.mailbox.listing)),
        w.events ++ (syncFolder formats account folder replies w.seen).events⟩ := by
  refine h.step (a := .round replies) ?_
  exact ⟨w.mailbox, .refl, .refl, hlisting, rfl, rfl, rfl⟩

theorem reachable_change (h : Reachable (system formats account folder) w)
    (hchange : w.mailbox.Change mb) :
    Reachable (system formats account folder) ⟨mb, w.seen, w.beyond, w.events⟩ := by
  refine h.step (a := .mailbox) ?_
  exact ⟨hchange, rfl, rfl, rfl⟩

/-- Raw messages that are their own length, and can be normalised. -/
def plainFormats : Formats ℕ String where
  size := id
  parseMs _ := none
  normalize m _ := some m.legacyId

def twoAtMost : Account := ⟨"g1", 2⟩

def bare (id : String) : Item := ⟨id, none, none⟩

/-- A listing of two messages. -/
def twoMessages : Mailbox where
  arrivals := ["b", "a"]
  listing := [bare "b", bare "a"]
  distinct := by decide
  listed := List.Sublist.refl _

/-- A round that reads the listing in one page, with the given MIME answers. -/
def onePage (listing : List Item) (mime : String → Mime ℕ) : Replies ℕ where
  pages := [listing]
  failing _ := false
  immutable := some fun id => ⟨id, none, none⟩
  mime := mime
  uploaded := some 0

theorem no_message_stranded_demo :
    Handled ([] ++ (syncFolder plainFormats twoAtMost "INBOX"
      (onePage twoMessages.listing fun _ => .content 1) []).events) "a" := by
  refine no_message_stranded plainFormats twoAtMost "INBOX" (w := ⟨twoMessages, _, _, _⟩)
    (.next (a := .round (onePage twoMessages.listing fun _ => .content 1))
      (.start (s := ⟨twoMessages, [], none, []⟩) ⟨rfl, rfl, rfl⟩) ?_
      ⟨twoMessages, .refl, .refl, rfl, rfl, rfl, rfl⟩) "b" (bare "a") ?_ ?_ ?_ ?_
  · intro _ beyond window hbeyond
    cases hbeyond
  · decide
  · decide
  · exact List.Sublist.refl _
  · decide

/-- The first sync of two messages stops at the older one, whose MIME content cannot be read, and
    stores nothing. A third message arrives. The next round is a first sync again: it marks the oldest
    message as seen, because it is now beyond the limit of two. -/
theorem retry_stranded : ∃ w s item, Reachable (system plainFormats twoAtMost "INBOX") w ∧
    graphUidKey twoAtMost "INBOX" s ∈ w.seen ∧ item ∈ w.mailbox.listing ∧
    [s, item.id].Sublist w.mailbox.arrivals ∧ item.id ∉ w.beyond.getD [] ∧
    ¬ Handled w.events item.id := by
  have start : Reachable (system plainFormats twoAtMost "INBOX") ⟨twoMessages, [], none, []⟩ :=
    .start ⟨rfl, rfl, rfl⟩
  have failed : Reachable (system plainFormats twoAtMost "INBOX") ⟨twoMessages, [], some [], []⟩ :=
    reachable_round start (onePage twoMessages.listing fun _ => .failed) rfl
  have arrived := reachable_change failed (.arrive (bare "c") (by decide))
  have synced := reachable_round arrived
    (onePage (bare "c" :: twoMessages.listing) fun _ => .content 1) rfl
  refine ⟨_, "b", bare "a", synced, ?_, ?_, ?_, ?_, ?_⟩
  · decide
  · decide
  · exact (List.Sublist.refl _).cons "c"
  · decide
  · rintro (h | h | h) <;> revert h <;> decide

end OneMail.Graph
