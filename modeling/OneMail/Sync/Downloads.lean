import Mathlib
import OneMail.Sync.Pop3

/-! Each POP3 message is downloaded at most once, as long as the mailbox holds no more messages than the seen
    set has room for.

    Every UIDL that is marked is one of the mailbox, so nothing is cut off a seen set as large as the mailbox,
    and what was uploaded or marked as older stays seen. A mailbox with more messages always has one that is
    not seen, and the rounds come round to it again (`overfull_downloads_again`). -/

namespace OneMail.Pop3
open Graph (addPop3SeenMany appendSeen pop3SeenMax)
open Imap (maxSingleBytes)
open Transition

/-! ### The seen set -/

theorem nodup_appendSeen {ordered : List String} (uid : String) (h : ordered.Nodup) :
    (appendSeen ordered uid).Nodup := by
  rw [appendSeen]
  split
  · exact h
  · rename_i hnot
    exact List.nodup_append.mpr ⟨h, List.nodup_singleton _, fun a ha b hb hab => hnot (by
      rwa [← List.mem_singleton.mp hb, ← hab])⟩

theorem mem_appendSeen_iff {ordered : List String} {uid k : String} :
    k ∈ appendSeen ordered uid ↔ k ∈ ordered ∨ k = uid := by
  rw [appendSeen]
  split
  · exact ⟨.inl, fun h => h.elim id fun h => h ▸ ‹_›⟩
  · simp

theorem foldl_appendSeen (uids : List String) : ∀ {ordered : List String}, ordered.Nodup →
    (uids.foldl appendSeen ordered).Nodup ∧ ∀ k, k ∈ uids.foldl appendSeen ordered ↔ k ∈ ordered ∨ k ∈ uids := by
  induction uids with
  | nil => exact fun h => ⟨h, fun k => by simp⟩
  | cons uid uids ih =>
    intro ordered h
    obtain ⟨hnodup, hmem⟩ := ih (nodup_appendSeen uid h)
    refine ⟨hnodup, fun k => ?_⟩
    rw [List.foldl_cons, hmem, mem_appendSeen_iff, List.mem_cons, or_assoc]

/-- The keys that marking leaves, before the oldest are cut off. -/
def marked (seen uidls : List String) : List String := uidls.foldl appendSeen (seen.foldl appendSeen [])

theorem marked_nodup (seen uidls : List String) : (marked seen uidls).Nodup :=
  (foldl_appendSeen uidls (foldl_appendSeen seen List.nodup_nil).1).1

theorem mem_marked {seen uidls : List String} {k : String} : k ∈ marked seen uidls ↔ k ∈ seen ∨ k ∈ uidls := by
  rw [marked, (foldl_appendSeen uidls (foldl_appendSeen seen List.nodup_nil).1).2,
    (foldl_appendSeen seen List.nodup_nil).2]
  simp

theorem addPop3SeenMany_length (seen uidls : List String) (h : seen.length ≤ pop3SeenMax) :
    (addPop3SeenMany seen uidls).length ≤ pop3SeenMax := by
  rw [addPop3SeenMany]
  split
  · exact h
  · rw [List.length_drop]
    omega

/-- Nothing is cut off as long as all keys fit. -/
theorem mem_addPop3SeenMany_iff {seen uidls box : List String} {k : String} (hbox : box.length ≤ pop3SeenMax)
    (hseen : seen ⊆ box) (huidls : uidls ⊆ box) : k ∈ addPop3SeenMany seen uidls ↔ k ∈ seen ∨ k ∈ uidls := by
  rw [addPop3SeenMany]
  split
  · simp [*]
  · have hsub : marked seen uidls ⊆ box := fun k hk => (mem_marked.mp hk).elim (hseen ·) (huidls ·)
    have hlength : (marked seen uidls).length ≤ pop3SeenMax :=
      ((marked_nodup seen uidls).subperm hsub).length_le.trans hbox
    rw [← mem_marked]
    show k ∈ (marked seen uidls).drop ((marked seen uidls).length - pop3SeenMax) ↔ _
    rw [Nat.sub_eq_zero_of_le hlength, List.drop_zero]

/-! ### One round -/

variable {ρ ε : Type*} {formats : Formats ρ ε} {account : Account} {messages : List (Message ρ)} {seen : List String}
  {uploadEmails : List ε → Except String (Option ℕ)}

def uidls (ms : List (ℕ × Message ρ)) : List String := ms.map (·.2.uidl)

@[simp] theorem uidls_nil : uidls ([] : List (ℕ × Message ρ)) = [] := rfl

@[simp] theorem uidls_cons (m : ℕ × Message ρ) (ms : List (ℕ × Message ρ)) : uidls (m :: ms) = m.2.uidl :: uidls ms := rfl

theorem mem_uidls {m : ℕ × Message ρ} {ms : List (ℕ × Message ρ)} (hm : m ∈ ms) : m.2.uidl ∈ uidls ms :=
  List.mem_map_of_mem hm

def tooLarge (m : ℕ × Message ρ) : Prop := maxSingleBytes < m.2.listedSize

/-- The seen set after each of the UIDLs was marked on its own. -/
def markEach (seen uidls : List String) : List String := uidls.foldl (fun seen uidl => addPop3SeenMany seen [uidl]) seen

theorem markEach_cons (seen : List String) (uidl : String) (uidls : List String) :
    markEach seen (uidl :: uidls) = markEach (addPop3SeenMany seen [uidl]) uidls := by
  rw [markEach, List.foldl_cons, ← markEach]

/-- A window scan from `s` picks `picks` and finds `excess` too large. -/
structure Scanned (s : Scan ρ) (ms picks excess : List (ℕ × Message ρ)) : Prop where
  picks_sub : picks.Sublist ms
  over_sub : excess.Sublist ms
  small : ∀ m ∈ picks, ¬ tooLarge m
  large : ∀ m ∈ excess, tooLarge m
  whole : s.picked ++ picks = [] → excess = ms
  picked : (scan ms s).picked = s.picked ++ picks
  oversize : (scan ms s).oversize = s.oversize ++ uidls excess
  seen : (scan ms s).seen = markEach s.seen (uidls excess)

theorem scanned_stop {s : Scan ρ} {ms : List (ℕ × Message ρ)} (hs : s.picked ≠ []) (h : scan ms s = s) :
    Scanned s ms [] [] where
  picks_sub := List.nil_sublist _
  over_sub := List.nil_sublist _
  small := nofun
  large := nofun
  whole hnil := absurd (List.append_eq_nil_iff.mp hnil).1 hs
  picked := by rw [h, List.append_nil]
  oversize := by simp [h, uidls]
  seen := by simp [h, uidls, markEach]

theorem scan_spec : ∀ (ms : List (ℕ × Message ρ)) (s : Scan ρ), ∃ picks excess, Scanned s ms picks excess
  | [], s => ⟨[], [], .slnil, .slnil, nofun, nofun, fun _ => rfl, by simp [scan], by simp [scan, uidls],
      by simp [scan, uidls, markEach]⟩
  | m :: ms, s => by
    by_cases hfull : Imap.batchSize ≤ s.picked.length
    · refine ⟨[], [], scanned_stop (fun hnil => ?_) (by rw [scan, if_pos hfull])⟩
      rw [hnil] at hfull
      exact Nat.not_succ_le_zero _ hfull
    by_cases hlarge : maxSingleBytes < m.2.listedSize
    · have hscan : scan (m :: ms) s = scan ms
          { s with oversize := s.oversize ++ [m.2.uidl], seen := addPop3SeenMany s.seen [m.2.uidl] } := by
        rw [scan, if_neg hfull, if_pos hlarge]
      obtain ⟨picks, excess, h⟩ := scan_spec ms
        { s with oversize := s.oversize ++ [m.2.uidl], seen := addPop3SeenMany s.seen [m.2.uidl] }
      refine ⟨picks, m :: excess, h.picks_sub.cons m, h.over_sub.cons_cons m, h.small,
        List.forall_mem_cons.mpr ⟨hlarge, h.large⟩, fun hnil => by rw [h.whole hnil], ?_, ?_, ?_⟩
      · rw [hscan, h.picked]
      · rw [hscan, h.oversize, List.append_assoc, uidls_cons, List.singleton_append]
      · rw [hscan, h.seen, uidls_cons, markEach_cons]
    by_cases hbudget : Imap.batchBytes < s.total + m.2.listedSize ∧ s.picked ≠ []
    · exact ⟨[], [], scanned_stop hbudget.2 (by rw [scan, if_neg hfull, if_neg hlarge, if_pos hbudget])⟩
    · have hscan : scan (m :: ms) s =
          scan ms { s with picked := s.picked ++ [m], total := s.total + m.2.listedSize } := by
        rw [scan, if_neg hfull, if_neg hlarge, if_neg hbudget]
      obtain ⟨picks, excess, h⟩ := scan_spec ms
        { s with picked := s.picked ++ [m], total := s.total + m.2.listedSize }
      refine ⟨m :: picks, excess, h.picks_sub.cons_cons m, h.over_sub.cons m,
        List.forall_mem_cons.mpr ⟨hlarge, h.small⟩, h.large,
        fun hnil => absurd (List.append_eq_nil_iff.mp hnil).2 (List.cons_ne_nil _ _), ?_, ?_, ?_⟩
      · rw [hscan, h.picked, List.append_assoc, List.singleton_append]
      · rw [hscan, h.oversize]
      · rw [hscan, h.seen]

/-- The message can be normalised. -/
def fine (formats : Formats ρ ε) (account : Account) (m : ℕ × Message ρ) : Bool :=
  ((rawMessage formats m).normalized formats account).isSome

/-- The window scan of a round begins with the older messages marked. -/
def windowStart (account : Account) (messages : List (Message ρ)) (seen : List String) : Scan ρ :=
  ⟨[], 0, [], addPop3SeenMany seen (uidls (older account messages seen))⟩

/-- What a round does: it marks the older messages and the large ones of its window, downloads the others, and
    uploads and marks those in `done`. -/
structure Round (formats : Formats ρ ε) (account : Account) (uploadEmails : List ε → Except String (Option ℕ))
    (messages : List (Message ρ)) (seen : List String) (r : Synced) (picks excess done bad : List (ℕ × Message ρ)) :
    Prop where
  window : Scanned (windowStart account messages seen) (candidates account messages seen) picks excess
  done_sub : done.Sublist (picks.filter (fine formats account))
  done_all : r.result.isOk → done = picks.filter (fine formats account)
  succeeds : (∀ batch, (uploadEmails batch).isOk) → (picks ≠ [] → picks.filter (fine formats account) ≠ []) → r.result.isOk
  seen_eq : r.seen = addPop3SeenMany (markEach (windowStart account messages seen).seen (uidls excess)) (uidls done)
  events : r.events = (uidls (older account messages seen)).map .older ++ (uidls excess).map .overLimit ++
    (uidls picks).map .downloaded ++ (uidls bad).map .unnormalised ++ (uidls done).map .uploaded

def HasInbox (formats : Formats ρ ε) (account : Account) : Prop :=
  ∃ folder ∈ account.folders, formats.upper (formats.strip folder) = "INBOX"

theorem syncPop3_round (uploadEmails : List ε → Except String (Option ℕ)) (messages : List (Message ρ))
    (seen : List String) (hinbox : HasInbox formats account) : ∃ picks excess done bad,
    Round formats account uploadEmails messages seen (syncPop3 formats account uploadEmails messages seen)
      picks excess done bad := by
  obtain ⟨picks, excess, h⟩ := scan_spec (candidates account messages seen) (windowStart account messages seen)
  have hfolders : ¬ (account.folders.all fun folder => formats.upper (formats.strip folder) ≠ "INBOX") := by
    obtain ⟨folder, hmem, heq⟩ := hinbox
    intro hall
    simpa [heq] using List.all_eq_true.mp hall folder hmem
  have hscan : scan (candidates account messages seen) (windowStart account messages seen) =
      ⟨picks, (scan (candidates account messages seen) (windowStart account messages seen)).total, uidls excess,
        markEach (windowStart account messages seen).seen (uidls excess)⟩ := by
    rw [← h.seen]
    exact congrArg₂ (fun p o => (⟨p, _, o, _⟩ : Scan ρ)) h.picked h.oversize
  have hfetched : fetchNewPop3Messages formats account messages seen =
      ⟨markEach (windowStart account messages seen).seen (uidls excess), uidls excess,
        (uidls (older account messages seen)).map .older ++ (uidls excess).map .overLimit ++
          (uidls picks).map .downloaded, picks.map (rawMessage formats)⟩ := by
    have hmap : picks.map (fun m => Event.downloaded m.2.uidl) = (uidls picks).map .downloaded := by
      rw [uidls, List.map_map]
      rfl
    rw [← hmap]
    exact congrArg (fun s : Scan ρ => (⟨s.seen, s.oversize, (uidls (older account messages seen)).map .older ++
      s.oversize.map .overLimit ++ s.picked.map fun m => .downloaded m.2.uidl, s.picked.map (rawMessage formats)⟩ :
        Fetched ρ)) hscan
  have hgood : (picks.map (rawMessage formats)).filter (fun m => (m.normalized formats account).isSome) =
      (picks.filter (fine formats account)).map (rawMessage formats) := List.filter_map
  have hbad : (picks.map (rawMessage formats)).filter (fun m => (m.normalized formats account).isNone) =
      (picks.filter fun m => !fine formats account m).map (rawMessage formats) := by
    rw [List.filter_map]
    exact congrArg _ (List.filter_congr fun m _ => (Option.not_isSome _).symm)
  unfold syncPop3
  rw [if_neg hfolders, hfetched]
  simp only [List.map_eq_nil_iff, hgood, hbad, List.map_map, Function.comp_def]
  by_cases hpicks : picks = []
  · rw [if_pos hpicks]
    exact ⟨picks, excess, [], [], h, List.nil_sublist _, fun _ => by simp [hpicks], fun _ _ => rfl,
      by simp [addPop3SeenMany], by simp [hpicks]⟩
  have hevent (event : String → Event) (ms : List (ℕ × Message ρ)) :
      ms.map (fun m => event (rawMessage formats m).uidl) = (uidls ms).map event := by
    rw [uidls, List.map_map]
    rfl
  have hbatch : (picks.map (rawMessage formats)).filterMap (fun m => m.normalized formats account) = [] ↔
      picks.filter (fine formats account) = [] := by
    simp [fine, List.filterMap_eq_nil_iff, List.filter_eq_nil_iff]
  simp only [if_neg hpicks, hbatch, hevent]
  by_cases hfine : picks.filter (fine formats account) = []
  · rw [if_pos hfine]
    exact ⟨picks, excess, [], picks.filter fun m => !fine formats account m, h, List.nil_sublist _, (fun h => by cases h),
      fun _ hne => absurd hfine (hne hpicks), by simp [addPop3SeenMany], by simp⟩
  rw [if_neg hfine]
  cases hupload : uploadEmails ((picks.map (rawMessage formats)).filterMap fun m => m.normalized formats account) with
  | error e =>
    refine ⟨picks, excess, [], picks.filter fun m => !fine formats account m, h, List.nil_sublist _, (fun h => by cases h),
      fun hok _ => ?_, by simp [addPop3SeenMany], by simp⟩
    have hfails := hok ((picks.map (rawMessage formats)).filterMap fun m => m.normalized formats account)
    rw [hupload] at hfails
    cases hfails
  | ok inserted =>
    refine ⟨picks, excess, picks.filter (fine formats account), picks.filter fun m => !fine formats account m, h,
      List.Sublist.refl _, fun _ => rfl, fun _ _ => rfl, ?_, by simp⟩
    simp only [uidls, rawMessage]

/-! ### Nothing is forgotten while the mailbox fits -/

/-- The mailbox has no more messages than the seen set has room for. -/
def Fits (messages : List (Message ρ)) : Prop := messages.length ≤ pop3SeenMax

def boxUidls (messages : List (Message ρ)) : List String := messages.map Message.uidl

theorem uidlList_messages (messages : List (Message ρ)) : (uidlList messages).map (·.2) = messages := by
  refine List.ext_getElem? fun i => ?_
  rw [uidlList, List.getElem?_map, List.getElem?_mapIdx, Option.map_map]
  simp

theorem pending_uidls : uidls (pending messages seen) = (boxUidls messages).filter (· ∉ seen) := by
  conv_rhs => rw [boxUidls, ← uidlList_messages messages, List.map_map, List.filter_map]
  rfl

theorem older_append_candidates (account : Account) (messages : List (Message ρ)) (seen : List String) :
    uidls (older account messages seen) ++ uidls (candidates account messages seen) = uidls (pending messages seen) := by
  rw [uidls, uidls, ← List.map_append, older, candidates, List.take_append_drop, uidls]

theorem older_subset : uidls (older account messages seen) ⊆ boxUidls messages := by
  intro k hk
  have hmem : k ∈ uidls (pending messages seen) := older_append_candidates account messages seen ▸ List.mem_append_left _ hk
  rw [pending_uidls] at hmem
  exact List.mem_of_mem_filter hmem

/-- A candidate is a message of the mailbox that was not seen. -/
theorem candidate_mem {m : ℕ × Message ρ} (hm : m ∈ candidates account messages seen) :
    m.2.uidl ∈ boxUidls messages ∧ m.2.uidl ∉ seen := by
  have hmem : m.2.uidl ∈ uidls (pending messages seen) :=
    mem_uidls (List.mem_of_mem_drop hm)
  rw [pending_uidls, List.mem_filter] at hmem
  exact ⟨hmem.1, by simpa using hmem.2⟩

theorem uidls_mono {ms ms' : List (ℕ × Message ρ)} (h : ms.Sublist ms') : (uidls ms).Sublist (uidls ms') := h.map _

variable {picks excess done bad : List (ℕ × Message ρ)} {r : Synced} {k : String}

theorem candidates_subset {ms : List (ℕ × Message ρ)} (h : ms.Sublist (candidates account messages seen)) :
    uidls ms ⊆ boxUidls messages := by
  intro k hk
  obtain ⟨m, hm, rfl⟩ := List.mem_map.mp hk
  exact (candidate_mem (h.subset hm)).1

theorem Round.done_candidates (h : Round formats account uploadEmails messages seen r picks excess done bad) :
    done.Sublist (candidates account messages seen) :=
  h.done_sub.trans (List.filter_sublist.trans h.window.picks_sub)

theorem mem_markEach_iff {box : List String} (hbox : box.length ≤ pop3SeenMax) (us : List String) :
    ∀ {seen : List String}, seen ⊆ box → us ⊆ box → (k ∈ markEach seen us ↔ k ∈ seen ∨ k ∈ us) := by
  induction us with
  | nil => simp [markEach]
  | cons u us ih =>
    intro seen hseen hus
    have hu : [u] ⊆ box := List.cons_subset.mpr ⟨hus List.mem_cons_self, List.nil_subset _⟩
    have hmem : ∀ k, k ∈ addPop3SeenMany seen [u] ↔ k ∈ seen ∨ k ∈ [u] :=
      fun k => mem_addPop3SeenMany_iff hbox hseen hu
    have hnext : addPop3SeenMany seen [u] ⊆ box := fun k hk => ((hmem k).mp hk).elim (hseen ·) (hu ·)
    rw [markEach_cons, ih hnext (fun k hk => hus (List.mem_cons_of_mem _ hk)), hmem, List.mem_singleton,
      List.mem_cons, or_assoc]

/-- What is seen after a round: nothing was cut off. -/
theorem Round.mem_seen (h : Round formats account uploadEmails messages seen r picks excess done bad)
    (hfits : Fits messages) (hseen : seen ⊆ boxUidls messages) :
    k ∈ r.seen ↔ (k ∈ seen ∨ k ∈ uidls (older account messages seen)) ∨ k ∈ uidls excess ∨ k ∈ uidls done := by
  have hbox : (boxUidls messages).length ≤ pop3SeenMax := by
    rw [boxUidls, List.length_map]
    exact hfits
  have hstart : ∀ k, k ∈ (windowStart account messages seen).seen ↔
      k ∈ seen ∨ k ∈ uidls (older account messages seen) :=
    fun k => mem_addPop3SeenMany_iff hbox hseen older_subset
  have hstart_sub : (windowStart account messages seen).seen ⊆ boxUidls messages :=
    fun k hk => ((hstart k).mp hk).elim (hseen ·) (older_subset ·)
  have hover_sub := candidates_subset h.window.over_sub
  have hover : ∀ k, k ∈ markEach (windowStart account messages seen).seen (uidls excess) ↔
      k ∈ (windowStart account messages seen).seen ∨ k ∈ uidls excess :=
    fun k => mem_markEach_iff hbox _ hstart_sub hover_sub
  rw [h.seen_eq, mem_addPop3SeenMany_iff hbox (fun k hk => ((hover k).mp hk).elim (hstart_sub ·) (hover_sub ·))
    (candidates_subset h.done_candidates), hover, hstart, or_assoc]

theorem Round.seen_subset (h : Round formats account uploadEmails messages seen r picks excess done bad)
    (hfits : Fits messages) (hseen : seen ⊆ boxUidls messages) : r.seen ⊆ boxUidls messages := by
  intro k hk
  rcases (h.mem_seen hfits hseen).mp hk with (hk | hk) | hk | hk
  · exact hseen hk
  · exact older_subset hk
  · exact candidates_subset h.window.over_sub hk
  · exact candidates_subset h.done_candidates hk

/-! ### The events of a round -/

theorem Round.downloaded_mem (h : Round formats account uploadEmails messages seen r picks excess done bad) :
    Event.downloaded k ∈ r.events ↔ k ∈ uidls picks := by
  rw [h.events]
  simp

theorem Round.uploaded_mem (h : Round formats account uploadEmails messages seen r picks excess done bad) :
    Event.uploaded k ∈ r.events ↔ k ∈ uidls done := by
  rw [h.events]
  simp

theorem Round.older_mem (h : Round formats account uploadEmails messages seen r picks excess done bad) :
    Event.older k ∈ r.events ↔ k ∈ uidls (older account messages seen) := by
  rw [h.events]
  simp

/-- No message that was seen is downloaded. -/
theorem Round.not_seen (h : Round formats account uploadEmails messages seen r picks excess done bad)
    (hk : Event.downloaded k ∈ r.events) : k ∉ seen := by
  obtain ⟨m, hm, rfl⟩ := List.mem_map.mp (h.downloaded_mem.mp hk)
  exact (candidate_mem (h.window.picks_sub.subset hm)).2

theorem older_disjoint (hnodup : (boxUidls messages).Nodup) :
    (uidls (older account messages seen)).Disjoint (uidls (candidates account messages seen)) := by
  have hpending : (uidls (pending messages seen)).Nodup := by
    rw [pending_uidls]
    exact hnodup.filter _
  rw [← older_append_candidates account] at hpending
  exact List.disjoint_of_nodup_append hpending

/-- Events that are no downloads may follow. -/
theorem once_append {events more : List Event} (h : Once events) (hmore : ∀ uidl, .downloaded uidl ∉ more) :
    Once (events ++ more) := by
  have hquiet : ∀ event ∈ more, ∀ before : Event, ∀ uidl, event = .downloaded uidl →
      before ≠ .uploaded uidl ∧ before ≠ .older uidl := by
    rintro event hevent before uidl rfl
    exact absurd hevent (hmore uidl)
  exact List.pairwise_append.mpr ⟨h, List.pairwise_of_forall_mem_list fun before _ event hevent => hquiet event hevent before,
    fun before _ event hevent => hquiet event hevent before⟩

theorem Round.once (h : Round formats account uploadEmails messages seen r picks excess done bad)
    (hnodup : (boxUidls messages).Nodup) : Once r.events := by
  have hmarks : Once ((uidls (older account messages seen)).map .older ++ (uidls excess).map .overLimit) := by
    have hnil : Once [] := List.Pairwise.nil
    exact once_append (once_append hnil (by simp)) (by simp)
  have hdownloads : Once ((uidls (older account messages seen)).map .older ++ (uidls excess).map .overLimit ++
      (uidls picks).map .downloaded) := by
    refine List.pairwise_append.mpr ⟨hmarks, ?_, ?_⟩
    · refine List.pairwise_of_forall_mem_list fun before hbefore event _ uidl _ => ?_
      obtain ⟨u, -, rfl⟩ := List.mem_map.mp hbefore
      simp
    · rintro before hbefore event hevent uidl rfl
      have huidl : uidl ∈ uidls picks := by simpa using hevent
      refine ⟨?_, ?_⟩ <;> rintro rfl
      · simp at hbefore
      · have holder : uidl ∈ uidls (older account messages seen) := by simpa using hbefore
        exact older_disjoint hnodup holder ((uidls_mono h.window.picks_sub).subset huidl)
  rw [h.events]
  exact once_append (once_append hdownloads (by simp)) (by simp)

/-! ### Whole runs -/

structure Inv (w : World ρ) : Prop where
  seen : w.seen ⊆ w.mailbox.uidls
  handled : ∀ uidl, .uploaded uidl ∈ w.events ∨ .older uidl ∈ w.events → uidl ∈ w.seen
  once : Once w.events

theorem hasInbox_of_ok {result : Result} (h : (syncPop3 formats account uploadEmails messages seen).result = .ok result) :
    HasInbox formats account := by
  by_contra hnone
  have hall : account.folders.all fun folder => formats.upper (formats.strip folder) ≠ "INBOX" := by
    refine List.all_eq_true.mpr fun folder hmem => decide_eq_true fun heq => hnone ⟨folder, hmem, heq⟩
  rw [syncPop3, if_pos hall] at h
  cases h

theorem Inv.round {w : World ρ} (h : Inv w) (hfits : Fits w.mailbox.messages)
    (hr : Round formats account uploadEmails w.mailbox.messages w.seen r picks excess done bad) :
    Inv { w with seen := r.seen, events := w.events ++ r.events } where
  seen := hr.seen_subset hfits h.seen
  handled uidl hmem := by
    refine (hr.mem_seen hfits h.seen).mpr ?_
    simp only [List.mem_append, hr.uploaded_mem, hr.older_mem] at hmem
    rcases hmem with (hmem | hmem) | hmem | hmem
    · exact .inl (.inl (h.handled uidl (.inl hmem)))
    · exact .inr (.inr hmem)
    · exact .inl (.inl (h.handled uidl (.inr hmem)))
    · exact .inl (.inr hmem)
  once := by
    refine List.pairwise_append.mpr ⟨h.once, hr.once w.mailbox.nodup, ?_⟩
    rintro before hbefore event hevent uidl rfl
    have hnot := hr.not_seen hevent
    constructor <;> rintro rfl
    · exact hnot (h.handled uidl (.inl hbefore))
    · exact hnot (h.handled uidl (.inr hbefore))

/-- Rounds are made while the mailbox fits. -/
def FitsStep (w : World ρ) : Label ρ ε → Prop
  | .grow _ => True
  | .round _ => Fits w.mailbox.messages

theorem run_inv {w : World ρ} (h : Run (system formats account) FitsStep w) : Inv w := by
  refine h.invariant (fun w hinit => ?_) fun w label w' _ hinv hfits hstep => ?_
  · obtain ⟨hseen, hevents⟩ := hinit
    refine ⟨by simp [hseen], fun uidl hmem => ?_, by simp [Once, hevents]⟩
    simp [hevents] at hmem
  · cases hstep with
    | grow mb hsub => exact ⟨fun k hk => hsub (hinv.seen hk), hinv.handled, hinv.once⟩
    | round uploadEmails hok =>
      obtain ⟨picks, excess, done, bad, hr⟩ := syncPop3_round uploadEmails w.mailbox.messages w.seen
        (hasInbox_of_ok hok)
      exact hinv.round hfits hr

/-! ### A mailbox left alone -/

theorem Round.seen_grows (h : Round formats account uploadEmails messages seen r picks excess done bad)
    (hfits : Fits messages) (hseen : seen ⊆ boxUidls messages) : seen ⊆ r.seen :=
  fun _ hk => (h.mem_seen hfits hseen).mpr (.inl (.inl hk))

theorem pending_later {seen' : List String} (h : seen ⊆ seen') :
    pending messages seen' = (pending messages seen).filter fun m => m.2.uidl ∉ seen' := by
  rw [pending, pending, List.filter_filter]
  refine List.filter_congr fun m _ => ?_
  by_cases hmem : m.2.uidl ∈ seen'
  · simp [hmem]
  · have hbefore : m.2.uidl ∉ seen := fun h' => hmem (h h')
    simp [hmem, hbefore]

/-- What a window scan leaves aside is not everything there was. -/
theorem Round.progress (h : Round formats account uploadEmails messages seen r picks excess done bad)
    (hfine : ∀ m ∈ candidates account messages seen, tooLarge m ∨ fine formats account m)
    (hok : ∀ batch, (uploadEmails batch).isOk) (hfits : Fits messages) (hseen : seen ⊆ boxUidls messages)
    (hpending : pending messages seen ≠ []) : (pending messages r.seen).length < (pending messages seen).length := by
  have hpicks : picks.filter (fine formats account) = picks :=
    List.filter_eq_self.mpr fun m hm =>
      (hfine m (h.window.picks_sub.subset hm)).resolve_left (h.window.small m hm)
  have hdone : done = picks.filter (fine formats account) :=
    h.done_all (h.succeeds hok fun hne => hpicks.symm ▸ hne)
  rw [pending_later (h.seen_grows hfits hseen), List.length_filter_lt_length_iff_exists]
  suffices hmarked : ∃ m ∈ pending messages seen, m.2.uidl ∈ r.seen by
    obtain ⟨m, hm, hmem⟩ := hmarked
    exact ⟨m, hm, by simpa using hmem⟩
  rcases holder : older account messages seen with _ | ⟨m, ms⟩
  · have hall : candidates account messages seen = pending messages seen := by
      rw [← List.take_append_drop (initialSkip account messages seen) (pending messages seen)]
      exact (List.nil_append _).symm.trans (congrArg (· ++ _) holder.symm)
    rcases hcase : picks with _ | ⟨m, ms⟩
    · obtain ⟨m, hm⟩ := List.exists_mem_of_ne_nil _ hpending
      refine ⟨m, hm, (h.mem_seen hfits hseen).mpr (.inr (.inl ?_))⟩
      rw [h.window.whole (by rw [hcase]; rfl), hall]
      exact mem_uidls hm
    · have hm : m ∈ picks := hcase ▸ List.mem_cons_self
      refine ⟨m, List.mem_of_mem_drop (h.window.picks_sub.subset hm), (h.mem_seen hfits hseen).mpr (.inr (.inr ?_))⟩
      rw [hdone, hpicks]
      exact mem_uidls hm
  · have hm : m ∈ older account messages seen := holder ▸ List.mem_cons_self
    refine ⟨m, List.mem_of_mem_take hm, (h.mem_seen hfits hseen).mpr (.inl (.inr ?_))⟩
    exact mem_uidls hm

/-- A candidate of the next round was one of this round. -/
theorem Round.candidates_later (h : Round formats account uploadEmails messages seen r picks excess done bad)
    (hfits : Fits messages) (hseen : seen ⊆ boxUidls messages) {m : ℕ × Message ρ}
    (hm : m ∈ candidates account messages r.seen) : m ∈ candidates account messages seen := by
  have hpending : m ∈ pending messages r.seen := List.mem_of_mem_drop hm
  rw [pending_later (h.seen_grows hfits hseen), List.mem_filter] at hpending
  obtain ⟨hmem, hnew⟩ := hpending
  rw [← List.take_append_drop (initialSkip account messages seen) (pending messages seen)] at hmem
  refine (List.mem_append.mp hmem).resolve_left fun holder => ?_
  refine absurd ((h.mem_seen hfits hseen).mpr (.inl (.inr ?_))) (by simpa using hnew)
  exact mem_uidls holder

/-- A message that can be neither passed over nor normalised stays a candidate. -/
theorem Round.candidate_stays (h : Round formats account uploadEmails messages seen r picks excess done bad)
    (hfits : Fits messages) (hseen : seen ⊆ boxUidls messages) (hnodup : (boxUidls messages).Nodup)
    {m : ℕ × Message ρ} (hm : m ∈ candidates account messages seen) (hsmall : ¬ tooLarge m)
    (hbad : ¬ fine formats account m) : m ∈ candidates account messages r.seen := by
  have hunique : (uidls (candidates account messages seen)).Nodup := by
    have hpending : (uidls (pending messages seen)).Nodup := by
      rw [pending_uidls]
      exact hnodup.filter _
    exact hpending.sublist (uidls_mono (List.drop_sublist _ _))
  have hself : ∀ m' ∈ candidates account messages seen, m'.2.uidl = m.2.uidl → m' = m :=
    fun m' hm' => List.inj_on_of_nodup_map hunique hm' hm
  have hnew : m.2.uidl ∉ r.seen := by
    intro hmem
    rcases (h.mem_seen hfits hseen).mp hmem with (hmem | hmem) | hmem | hmem
    · exact (candidate_mem hm).2 hmem
    · exact older_disjoint hnodup hmem (mem_uidls hm)
    · obtain ⟨m', hm', heq⟩ := List.mem_map.mp hmem
      exact hsmall (hself m' (h.window.over_sub.subset hm') heq ▸ h.window.large m' hm')
    · obtain ⟨m', hm', heq⟩ := List.mem_map.mp hmem
      exact hbad (hself m' (h.done_candidates.subset hm') heq ▸ (List.mem_filter.mp (h.done_sub.subset hm')).2)
  have hpending : m ∈ pending messages r.seen := by
    rw [pending_later (h.seen_grows hfits hseen), List.mem_filter]
    exact ⟨List.mem_of_mem_drop hm, by simpa using hnew⟩
  by_cases hskip : initialSkip account messages r.seen = 0
  · rwa [candidates, hskip, List.drop_zero]
  · -- the initial sync limit applies again only if nothing has been marked
    have hnil : r.seen = [] := by
      by_contra hne
      exact hskip (if_neg fun h => hne h.1)
    have hsame : r.seen = seen := by
      have hsub := h.seen_grows hfits hseen
      rw [hnil] at hsub ⊢
      exact (List.eq_nil_of_subset_nil hsub).symm
    rwa [hsame]

theorem Round.fetched_nil (h : Round formats account uploadEmails messages seen r picks excess done bad) :
    (fetchNewPop3Messages formats account messages seen).messages = [] ↔ picks = [] := by
  have hpicked : (scan (candidates account messages seen) (windowStart account messages seen)).picked = picks :=
    h.window.picked
  rw [← hpicked]
  exact List.map_eq_nil_iff

/-- The state of the account after some rounds on its own. -/
theorem rounds_inv (hinbox : HasInbox formats account) (hok : ∀ batch, (uploadEmails batch).isOk) (hfits : Fits messages)
    (hseen : seen ⊆ boxUidls messages)
    (hfine : ∀ m ∈ candidates account messages seen, tooLarge m ∨ fine formats account m) : ∀ n,
    ∃ seen', (roundSeen formats account uploadEmails messages)^[n] seen = seen' ∧ seen' ⊆ boxUidls messages ∧
      (∀ m ∈ candidates account messages seen', tooLarge m ∨ fine formats account m) ∧
      (pending messages seen').length ≤ (pending messages seen).length - n
  | 0 => ⟨seen, rfl, hseen, hfine, le_rfl⟩
  | n + 1 => by
    obtain ⟨seen', hrounds, hsub, hfine', hlength⟩ := rounds_inv hinbox hok hfits hseen hfine n
    obtain ⟨picks, excess, done, bad, h⟩ := syncPop3_round uploadEmails messages seen' hinbox
    refine ⟨_, by rw [Function.iterate_succ_apply', hrounds, roundSeen], h.seen_subset hfits hsub,
      fun m hm => hfine' m (h.candidates_later hfits hsub hm), ?_⟩
    by_cases hpending : pending messages seen' = []
    · rw [pending_later (h.seen_grows hfits hsub), hpending]
      exact Nat.zero_le _
    · have hless := h.progress hfine' hok hfits hsub hpending
      omega

/-- The mailbox settles exactly if the sync can normalise every message it would download. -/
theorem settles_iff (hinbox : HasInbox formats account) (hok : ∀ batch, (uploadEmails batch).isOk)
    (hfits : Fits messages) (hseen : seen ⊆ boxUidls messages) (hnodup : (boxUidls messages).Nodup) :
    Settles formats account uploadEmails messages seen ↔
      ∀ m ∈ candidates account messages seen, tooLarge m ∨ fine formats account m := by
  constructor
  · rintro ⟨-, n, hn⟩ m hm
    by_contra hnot
    obtain ⟨hsmall, hbad⟩ := not_or.mp hnot
    -- the message stays a candidate, so some fetch finds it too large
    have hstays : ∀ k, (roundSeen formats account uploadEmails messages)^[k] seen ⊆ boxUidls messages ∧
        m ∈ candidates account messages ((roundSeen formats account uploadEmails messages)^[k] seen) := by
      intro k
      induction k with
      | zero => exact ⟨hseen, hm⟩
      | succ k ih =>
        obtain ⟨picks, excess, done, bad, h⟩ := syncPop3_round uploadEmails messages
          ((roundSeen formats account uploadEmails messages)^[k] seen) hinbox
        rw [Function.iterate_succ_apply']
        exact ⟨h.seen_subset hfits ih.1, h.candidate_stays hfits ih.1 hnodup ih.2 hsmall hbad⟩
    obtain ⟨picks, excess, done, bad, h⟩ := syncPop3_round uploadEmails messages
      ((roundSeen formats account uploadEmails messages)^[n] seen) hinbox
    have hnone : picks = [] := h.fetched_nil.mp (hn n le_rfl)
    have hwhole := h.window.whole (by rw [hnone]; rfl)
    exact hsmall (h.window.large m (hwhole ▸ (hstays n).2))
  · intro hfine
    have hrounds := rounds_inv hinbox hok hfits hseen hfine
    refine ⟨fun n => ?_, (pending messages seen).length, fun k hk => ?_⟩
    · obtain ⟨seen', heq, -, hfine', -⟩ := hrounds n
      obtain ⟨picks, excess, done, bad, h⟩ := syncPop3_round uploadEmails messages seen' hinbox
      rw [heq]
      refine h.succeeds hok fun hne => ?_
      rwa [List.filter_eq_self.mpr fun m hm =>
        (hfine' m (h.window.picks_sub.subset hm)).resolve_left (h.window.small m hm)]
    · obtain ⟨seen', heq, -, -, hlength⟩ := hrounds k
      have hnone : pending messages seen' = [] := List.length_eq_zero_iff.mp (by omega)
      rw [heq, fetchNewPop3Messages, candidates, hnone, List.drop_nil]
      rfl

/-- Along every run whose rounds find no more messages than the seen set has room for, none is downloaded after it
    was uploaded or marked as older. Left alone, the mailbox then settles exactly if the sync can normalise all
    that it would download. -/
theorem downloads_at_most_once (formats : Formats ρ ε) (account : Account) :
    (∀ w, Run (system formats account) FitsStep w → Once w.events) ∧
      ∀ w uploadEmails, Run (system formats account) FitsStep w → Fits w.mailbox.messages → HasInbox formats account →
        (∀ batch, (uploadEmails batch).isOk) →
        (Settles formats account uploadEmails w.mailbox.messages w.seen ↔
          ∀ m ∈ candidates account w.mailbox.messages w.seen, tooLarge m ∨ fine formats account m) :=
  ⟨fun _ h => (run_inv h).once, fun w _ h hfits hinbox hok =>
    settles_iff hinbox hok hfits (run_inv h).seen w.mailbox.nodup⟩

/-! ### A mailbox that does not fit -/

theorem candidates_ne_nil (account : Account) (hlength : seen.length < messages.length) (hnodup : (boxUidls messages).Nodup) :
    candidates account messages seen ≠ [] := by
  have hpending : pending messages seen ≠ [] := by
    intro hnil
    have hall : boxUidls messages ⊆ seen := by
      intro k hk
      by_contra hnot
      have hmem : k ∈ uidls (pending messages seen) := by
        rw [pending_uidls, List.mem_filter]
        exact ⟨hk, by simpa using hnot⟩
      rw [hnil] at hmem
      cases hmem
    have hle := (hnodup.subperm hall).length_le
    rw [boxUidls, List.length_map] at hle
    omega
  have hpos := List.length_pos_iff.mpr hpending
  rw [candidates, ← List.length_pos_iff, List.length_drop, initialSkip]
  split <;> omega

/-- The downloads of `n` rounds, each marked as uploaded, on a mailbox where nothing was forgotten yet. -/
structure Downloads (mb : Mailbox ρ) (w : World ρ) (n : ℕ) (downloads : List String) : Prop where
  mailbox : w.mailbox = mb
  seen : w.seen.length ≤ pop3SeenMax
  nodup : downloads.Nodup
  box : downloads ⊆ mb.uidls
  length : n ≤ downloads.length
  uploaded : ∀ uidl ∈ downloads, .uploaded uidl ∈ w.events

/-- With more messages than the seen set has room for, some message is downloaded again. -/
theorem overfull_downloads_again (hinbox : HasInbox formats account) (mb : Mailbox ρ)
    (hlength : pop3SeenMax < mb.messages.length) (hsmall : ∀ m : ℕ × Message ρ, m.2 ∈ mb.messages → ¬ tooLarge m)
    (hfine : ∀ m, fine formats account m) : ∃ w, Reachable (system formats account) w ∧ ¬ Once w.events := by
  by_contra hnone
  have honce : ∀ w, Reachable (system formats account) w → Once w.events := by
    intro w hw
    by_contra hnot
    exact hnone ⟨w, hw, hnot⟩
  have hrounds : ∀ n, ∃ w downloads, Reachable (system formats account) w ∧ Downloads mb w n downloads := by
    intro n
    induction n with
    | zero =>
      exact ⟨⟨mb, [], []⟩, [], .start ⟨rfl, rfl⟩, rfl, Nat.zero_le _, List.nodup_nil, List.nil_subset _, le_rfl, nofun⟩
    | succ n ih =>
      obtain ⟨w, downloads, hw, h⟩ := ih
      obtain ⟨picks, excess, done, bad, hr⟩ := syncPop3_round (fun _ => .ok none) w.mailbox.messages
        w.seen hinbox
      have hmessage : ∀ m ∈ candidates account w.mailbox.messages w.seen, ¬ tooLarge m := by
        intro m hm
        have hmem : m.2 ∈ (uidlList w.mailbox.messages).map (·.2) :=
          List.mem_map_of_mem (List.mem_of_mem_filter (List.mem_of_mem_drop hm))
        rw [uidlList_messages, h.mailbox] at hmem
        exact hsmall m hmem
      have hover : excess = [] :=
        List.eq_nil_iff_forall_not_mem.mpr fun m hm => hmessage m (hr.window.over_sub.subset hm) (hr.window.large m hm)
      have hpicks : picks ≠ [] := by
        intro hnil
        have hwhole := hr.window.whole (by rw [hnil]; rfl)
        refine candidates_ne_nil account ?_ w.mailbox.nodup (hwhole.symm.trans hover)
        rw [h.mailbox]
        exact h.seen.trans_lt hlength
      have hall : picks.filter (fine formats account) = picks := List.filter_eq_self.mpr fun m _ => hfine m
      have hok := hr.succeeds (fun _ => rfl) fun hne => hall.symm ▸ hne
      have hdone : done = picks := (hr.done_all hok).trans hall
      obtain ⟨result, hresult⟩ : ∃ result, (syncPop3 formats account (fun _ => .ok none) w.mailbox.messages
          w.seen).result = .ok result := by
        cases hcase : (syncPop3 formats account (fun _ => .ok none) w.mailbox.messages w.seen).result with
        | error e =>
          rw [hcase] at hok
          cases hok
        | ok result => exact ⟨result, rfl⟩
      have hnext := Reachable.step hw (Step.round (fun _ => .ok none) hresult)
      obtain ⟨m, hm⟩ := List.exists_mem_of_ne_nil _ hpicks
      have hdownloaded := hr.downloaded_mem.mpr (mem_uidls hm)
      have hfresh : m.2.uidl ∉ downloads := by
        intro hmem
        have hpair := (List.pairwise_append.mp (honce _ hnext)).2.2 _ (h.uploaded _ hmem) _ hdownloaded
        exact (hpair _ rfl).1 rfl
      refine ⟨_, m.2.uidl :: downloads, hnext, h.mailbox, ?_, List.nodup_cons.mpr ⟨hfresh, h.nodup⟩, ?_,
        Nat.succ_le_succ h.length, ?_⟩
      · rw [show _ = _ from hr.seen_eq, hover]
        exact addPop3SeenMany_length _ _ (addPop3SeenMany_length _ _ h.seen)
      · refine List.cons_subset.mpr ⟨?_, h.box⟩
        have hbox := (candidate_mem (hr.window.picks_sub.subset hm)).1
        rw [h.mailbox] at hbox
        exact hbox
      · refine List.forall_mem_cons.mpr ⟨?_, fun uidl hmem => List.mem_append_left _ (h.uploaded uidl hmem)⟩
        exact List.mem_append_right _ (hr.uploaded_mem.mpr (hdone ▸ mem_uidls hm))
  obtain ⟨w, downloads, -, h⟩ := hrounds (mb.uidls.length + 1)
  have hle := (h.nodup.subperm h.box).length_le
  have hlt := h.length
  omega

/-! ### A mailbox of 2001 messages -/

def demoFormats : Formats Unit Unit := ⟨fun s => s, fun s => s, fun _ => none, fun _ _ _ => some ()⟩

def demoAccount : Account := ⟨"a", "h", ["INBOX"], 50⟩

/-- `n` small messages. -/
def demoMailbox (n : ℕ) : Mailbox Unit where
  messages := (List.range n).map fun i => ⟨String.ofList (List.replicate i 'a'), some 0, ()⟩
  nodup := by
    rw [List.map_map]
    refine List.Nodup.map (fun i j h => ?_) List.nodup_range
    have hlength := congrArg List.length (String.ofList_injective h)
    simpa using hlength

theorem demoMailbox_small (n : ℕ) (m : ℕ × Message Unit) (hm : m.2 ∈ (demoMailbox n).messages) : ¬ tooLarge m := by
  obtain ⟨i, m⟩ := m
  obtain ⟨j, -, rfl⟩ := List.mem_map.mp hm
  simp [tooLarge, Message.listedSize, maxSingleBytes]

theorem overfull_mailbox : ¬ ∀ w, Reachable (system demoFormats demoAccount) w → Once w.events := by
  intro hall
  have hinbox : HasInbox demoFormats demoAccount := ⟨"INBOX", List.mem_cons_self, rfl⟩
  obtain ⟨w, hw, hnot⟩ := overfull_downloads_again hinbox (demoMailbox (pop3SeenMax + 1)) (by simp [demoMailbox])
    (demoMailbox_small _) fun _ => rfl
  exact hnot (hall w hw)

/-- The only message has been uploaded. -/
def demoWorld : World Unit := ⟨demoMailbox 1, [""], [.downloaded "", .uploaded ""]⟩

theorem demoWorld_reach : Run (system demoFormats demoAccount) FitsStep demoWorld := by
  have h : Run (system demoFormats demoAccount) FitsStep ⟨demoMailbox 1, [], []⟩ := .start ⟨rfl, rfl⟩
  have hfits : Fits (demoMailbox 1).messages := by simp [Fits, demoMailbox, pop3SeenMax]
  exact Run.next (a := Label.round fun _ => .ok none) h hfits (Step.round _ rfl)

theorem downloads_at_most_once_demo : Once demoWorld.events ∧
    (Settles demoFormats demoAccount (fun _ => .ok none) demoWorld.mailbox.messages demoWorld.seen ↔
      ∀ m ∈ candidates demoAccount demoWorld.mailbox.messages demoWorld.seen,
        tooLarge m ∨ fine demoFormats demoAccount m) :=
  ⟨(downloads_at_most_once demoFormats demoAccount).1 demoWorld demoWorld_reach,
    (downloads_at_most_once demoFormats demoAccount).2 demoWorld (fun _ => .ok none) demoWorld_reach
      (by simp [Fits, demoWorld, demoMailbox, pop3SeenMax]) ⟨"INBOX", List.mem_cons_self, rfl⟩ fun _ => rfl⟩

end OneMail.Pop3
