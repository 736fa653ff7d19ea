import OneMail.Proxy.Numbers

/-! Numbers that the client was told keep their meaning.

    A command leaves the index as it was or builds it anew from the backend (`next_moved`). If every
    number the client was told still fits the backend's mails whenever the index is built anew, all of
    them agree with the index along the whole session (`numbering`), and a command by numbers acts
    through the index (`stable_of_numbering`). -/

namespace OneMail.Proxy

open Ordered (Ascending)

variable {ρ μ : Type} {settings : Settings ρ μ} {b : Backend ρ} {store : FlagStore}
  {old mid new box : SimpleMailbox μ} {w : World ρ μ} {e : Event ρ} {messages : MessageSet} {uid x y : Bool}
  {index us : List ℕ} {n u : ℕ}

/-! ### What a command does to the index -/

structure SameIndex (old new : SimpleMailbox μ) : Prop where
  index : new.uidIndex = old.uidIndex
  count : new.messageCount = old.messageCount
  built : new.uidIndexBuilt = old.uidIndexBuilt

/-- The index lists the mails that the backend holds. -/
structure Lists (b : Backend ρ) (box : SimpleMailbox μ) : Prop where
  index : box.uidIndex = b.ids
  count : box.messageCount = b.rows.length
  built : box.uidIndexBuilt = true

/-- The index is built anew if `x`, and otherwise kept. -/
def Moved (b : Backend ρ) (x : Bool) (old new : SimpleMailbox μ) : Prop :=
  (x = false ∧ SameIndex old new) ∨ (x = true ∧ Lists b new)

/-- The test of `STATUS` and `FETCH`. -/
def stale (b : Backend ρ) (box : SimpleMailbox μ) : Bool :=
  !box.uidIndexBuilt || b.rows.length != box.messageCount

theorem SameIndex.refl (box : SimpleMailbox μ) : SameIndex box box := ⟨rfl, rfl, rfl⟩

theorem Built.lists (h : Built b old box) : Lists b box := ⟨h.index, h.count, h.built⟩

theorem Lists.not_stale (h : Lists b box) : stale b box = false := by
  rw [stale, h.built, h.count]
  simp

theorem Moved.same (h : Moved b x old mid) (hs : SameIndex mid new) : Moved b x old new := by
  refine h.imp (fun ⟨hx, h⟩ => ⟨hx, ?_⟩) fun ⟨hx, h⟩ => ⟨hx, ?_⟩
  · exact ⟨hs.index.trans h.index, hs.count.trans h.count, hs.built.trans h.built⟩
  · exact ⟨hs.index.trans h.index, hs.count.trans h.count, hs.built.trans h.built⟩

theorem not_built_or_stale : (!box.uidIndexBuilt || stale b box) = stale b box := by
  rw [stale, ← Bool.or_assoc, Bool.or_self]

/-- Before a `refresh` the index may have been built anew, but not without need. -/
theorem Moved.refreshed (h : Moved b x old mid) (hr : Moved b (stale b mid) mid new) :
    Moved b (x || stale b old) old new := by
  rcases h with ⟨rfl, hs⟩ | ⟨rfl, hl⟩
  · rw [stale, hs.built, hs.count] at hr
    rw [Bool.false_or, stale]
    refine hr.imp_left fun ⟨hx, h⟩ => ⟨hx, ?_⟩
    exact ⟨h.index.trans hs.index, h.count.trans hs.count, h.built.trans hs.built⟩
  · rw [hl.not_stale] at hr
    refine .inr ⟨rfl, ?_⟩
    rcases hr with ⟨-, h⟩ | ⟨h, -⟩
    · exact ⟨h.index.trans hl.index, h.count.trans hl.count, h.built.trans hl.built⟩
    · cases h

theorem refresh_moved (b : Backend ρ) (store : FlagStore) (box : SimpleMailbox μ) :
    Moved b (stale b box) box (box.refresh b store) := by
  rcases refresh_spec b store box with ⟨hb, hcount, heq⟩ | ⟨hstale, h⟩
  · rw [heq]
    exact .inl ⟨by simp [stale, hb, hcount], .refl box⟩
  · exact .inr ⟨hstale, h.lists⟩

theorem ensureIndex_moved (b : Backend ρ) (store : FlagStore) (box : SimpleMailbox μ) :
    Moved b (!box.uidIndexBuilt) box (box.ensureIndex b store) := by
  rcases ensureIndex_spec b store box with ⟨hb, heq⟩ | ⟨hb, h⟩
  · rw [heq]
    exact .inl ⟨by simp [hb], .refl box⟩
  · exact .inr ⟨by simp [hb], h.lists⟩

theorem fetchAndCache_same (us : List ℕ) : SameIndex box (box.fetchAndCacheMessages settings b us) := by
  rw [SimpleMailbox.fetchAndCacheMessages]
  dsimp only
  split_ifs <;> exact ⟨rfl, rfl, rfl⟩

theorem fetch_same : SameIndex (box.refresh b store) (box.fetch settings b store messages uid).1 := by
  rw [SimpleMailbox.fetch]
  dsimp only
  split
  · exact .refl _
  · split
    · exact .refl _
    · exact ⟨(fetchAndCache_same _).index, (fetchAndCache_same _).count, (fetchAndCache_same _).built⟩

theorem fetch_moved : Moved b (stale b box) box (box.fetch settings b store messages uid).1 :=
  (refresh_moved b store box).same fetch_same

theorem store_same {flags : Finset String} {mode : StoreMode} :
    SameIndex (box.ensureIndex b store) (box.store b store messages flags mode uid).1 := by
  rw [SimpleMailbox.store]
  dsimp only
  split
  · exact .refl _
  · split
    · exact .refl _
    · split <;> exact ⟨rfl, rfl, rfl⟩

theorem store_moved {flags : Finset String} {mode : StoreMode} :
    Moved b (!box.uidIndexBuilt) box (box.store b store messages flags mode uid).1 :=
  (ensureIndex_moved b store box).same store_same

theorem doFetch_moved {query : List FetchPart} :
    Moved b (stale b box) box (doFetch settings b store box messages query uid).box := by
  rw [doFetch]
  split
  · exact fetch_moved
  · rw [← not_built_or_stale]
    exact store_moved.refreshed fetch_moved

/-- Every event but a `SELECT`. -/
theorem next_moved (he : e ≠ .select) :
    Moved w.backend (w.rebuilds e) w.box (w.next settings e).box := by
  cases e with
  | arrive _ _ | delete _ | flagged _ => exact .inl ⟨rfl, .refl _⟩
  | select => exact (he rfl).elim
  | status reindex names =>
    cases reindex with
    | false => exact refresh_moved w.backend w.flagStore w.box
    | true =>
      have h : Moved w.backend true w.box (w.box.buildUidIndex w.backend w.flagStore) :=
        .inr ⟨rfl, (buildUidIndex_spec _ _ _).lists⟩
      exact h.refreshed (refresh_moved w.backend w.flagStore _)
  | fetch _ _ _ => exact doFetch_moved
  | store _ _ _ _ => exact store_moved
  | search _ _ => exact ensureIndex_moved w.backend w.flagStore w.box

/-! ### The numbers told -/

/-- What the client was told agrees with the index, as far as the index reaches. -/
def Numbering (told : List (ℕ × ℕ)) (index : List ℕ) : Prop :=
  ∀ n u, (n, u) ∈ told → index.length < n ∨ seqToUid index n = some u

/-- What holds along every session. -/
structure Sane (w : World ρ μ) : Prop where
  ascending : Ascending id w.box.uidIndex
  silent : w.box.uidIndexBuilt = false → w.told = []

theorem Moved.ascending (h : Moved b x old new) (ho : Ascending id old.uidIndex) : Ascending id new.uidIndex := by
  rcases h with ⟨-, h⟩ | ⟨-, h⟩
  · rwa [h.index]
  · rw [h.index]
    exact b.ids_ascending

theorem Moved.numbering {told : List (ℕ × ℕ)} (h : Moved b x old new) (ho : Numbering told old.uidIndex)
    (hkept : x = true → ∀ n u, (n, u) ∈ told → b.Kept n u) : Numbering told new.uidIndex := by
  rcases h with ⟨-, h⟩ | ⟨hx, h⟩
  · rwa [h.index]
  · rw [h.index]
    intro n u htold
    refine (hkept hx n u htold).imp (fun hlt => ?_) fun ⟨hu, hn⟩ => seqToUid_of_count b.ids_ascending hu hn
    rwa [b.length_ids]

/-- A number that the index has acts on the message that the client knows under it. -/
theorem Numbering.eq {told : List (ℕ × ℕ)} {v : ℕ} (h : Numbering told index) (htold : (n, u) ∈ told)
    (hseq : seqToUid index n = some v) : v = u := by
  rcases h n u htold with hlt | hu
  · have := (seqToUid_le hseq).2
    omega
  · exact Option.some.inj (hseq.symm.trans hu)

/-! ### Answers are numbered by the index -/

theorem mem_collect {flags : FlagStore} {cache : List (ℕ × μ)} {m : ℕ × SimpleMessage μ}
    (h : m ∈ (SimpleMailbox.collect index flags us cache).1) :
    m.2.uid ∈ us ∧ uidToSeq index m.2.uid = some m.1 := by
  induction us generalizing cache with
  | nil => cases h
  | cons u us ih =>
    rw [SimpleMailbox.collect] at h
    split at h
    · split at h
      · rename_i hseq
        rcases List.mem_cons.mp h with rfl | h
        · exact ⟨List.mem_cons_self, hseq⟩
        · exact (ih h).imp_left (List.mem_cons_of_mem _)
      · exact (ih h).imp_left (List.mem_cons_of_mem _)
    · exact (ih h).imp_left (List.mem_cons_of_mem _)

theorem fetch_numbers (h : (n, u) ∈ numbers (box.fetch settings b store messages uid).2) :
    uidToSeq (box.fetch settings b store messages uid).1.uidIndex u = some n ∧
      ∃ us, resolveMessageSet (box.fetch settings b store messages uid).1.uidIndex messages uid = some us ∧ u ∈ us := by
  have hsame : SameIndex (box.refresh b store) (box.fetch settings b store messages uid).1 := fetch_same
  rw [hsame.index]
  rw [SimpleMailbox.fetch] at h
  dsimp only at h
  split at h
  · cases h
  · rename_i us hus
    split at h
    · cases h
    · obtain ⟨m, hm, heq⟩ := List.mem_map.mp h
      obtain ⟨rfl, rfl⟩ := Prod.mk.inj heq
      rw [Option.getD_some, (fetchAndCache_same us).index] at hm
      obtain ⟨hmem, hseq⟩ := mem_collect hm
      exact ⟨hseq, us, hus, hmem⟩

/-- The answer of a `STORE` is numbered by the index, and it names every message written. -/
structure Answered (index : List ℕ) (messages : MessageSet) (uid : Bool) (s : SimpleMailbox.Stored) : Prop where
  result : ∀ e ∈ s.result, uidToSeq index e.uid = some e.seq ∧
    ∃ us, resolveMessageSet index messages uid = some us ∧ e.uid ∈ us
  updated : ∀ p ∈ s.updated, ∃ e ∈ s.result, e.uid = p.1

theorem store_answered {flags : Finset String} {mode : StoreMode} {s : SimpleMailbox.Stored}
    (ho : Ascending id box.uidIndex) (h : (box.store b store messages flags mode uid).2.2 = some s) :
    Answered (box.store b store messages flags mode uid).1.uidIndex messages uid s := by
  have hsame : SameIndex (box.ensureIndex b store) (box.store b store messages flags mode uid).1 := store_same
  have hasc := (ensureIndex_moved b store box).ascending ho
  rw [hsame.index]
  rw [SimpleMailbox.store] at h
  dsimp only at h
  split at h
  · obtain rfl := Option.some.inj h
    exact ⟨fun e he => (nomatch he), fun p hp => (nomatch hp)⟩
  · split at h
    · cases h
    · rename_i us hus
      split at h
      · obtain rfl := Option.some.inj h
        exact ⟨fun e he => (nomatch he), fun p hp => (nomatch hp)⟩
      · obtain rfl := Option.some.inj h
        refine ⟨fun e he => ?_, fun p hp => ?_⟩
        · obtain ⟨p, hp, he⟩ := List.mem_filterMap.mp he
          obtain ⟨seq, hseq, rfl⟩ := Option.map_eq_some_iff.mp he
          obtain ⟨u, hu, rfl⟩ := List.mem_map.mp hp
          exact ⟨hseq, us, hus, hu⟩
        · obtain ⟨u, hu, rfl⟩ := List.mem_map.mp hp
          obtain ⟨seq, hseq⟩ := exists_seq (resolve_mem hus hu)
          refine ⟨_, List.mem_filterMap.mpr ⟨_, hp, Option.map_eq_some_iff.mpr ⟨seq, ?_, rfl⟩⟩, rfl⟩
          exact (uidToSeq_eq_some hasc).mpr hseq

/-! ### Stable numbers -/

/-- An act by numbers goes through a number of the set, to the message that the client knows under it. -/
theorem act_stable (hasc : Ascending id index) {told : List (ℕ × ℕ)} (hnum : Numbering told index)
    (hseq : uidToSeq index u = some n)
    (hus : ∃ us, resolveMessageSet index messages false = some us ∧ u ∈ us) :
    messages.Lists n ∧ ∀ v, (n, v) ∈ told → u = v := by
  have hn := (uidToSeq_eq_some hasc).mp hseq
  obtain ⟨us, hus, hu⟩ := hus
  obtain ⟨m, hm, hlists⟩ := resolve_listed hus hu
  obtain rfl : m = n := Option.some.inj (((uidToSeq_eq_some hasc).mpr hm).symm.trans hseq)
  exact ⟨hlists, fun v htold => hnum.eq htold hn⟩

theorem touched_acts {r : Reply μ} (hs : ∀ s, r.stored = some s → Answered index messages uid s) (hu : u ∈ r.touched) :
    ∃ n, (n, u) ∈ r.acts := by
  rcases List.mem_append.mp hu with hu | hu
  · rcases hstored : r.stored with - | s
    · rw [hstored] at hu
      cases hu
    · rw [hstored] at hu
      obtain ⟨p, hp, rfl⟩ := List.mem_map.mp hu
      obtain ⟨e, he, heq⟩ := (hs s hstored).updated p hp
      refine ⟨e.seq, List.mem_append_left _ ?_⟩
      rw [hstored]
      exact List.mem_map.mpr ⟨e, he, by rw [heq]⟩
  · obtain ⟨⟨n, u⟩, hm, rfl⟩ := List.mem_map.mp hu
    exact ⟨n, List.mem_append_right _ hm⟩

/-- A reply whose acts are numbered by indexes that agree with what the client was told. -/
theorem stable_of_numbering {r : Reply μ} {told : List (ℕ × ℕ)} {index' : List ℕ}
    (hs : ∀ s, r.stored = some s → Answered index messages false s) (hasc : Ascending id index)
    (hnum : Numbering told index)
    (hf : ∀ n u, (n, u) ∈ numbers r.fetched → uidToSeq index' u = some n ∧
      ∃ us, resolveMessageSet index' messages false = some us ∧ u ∈ us)
    (hasc' : Ascending id index') (hnum' : Numbering told index') :
    (∀ u ∈ r.touched, ∃ n, (n, u) ∈ r.acts) ∧
      ∀ n u', (n, u') ∈ r.acts → messages.Lists n ∧ ∀ u, (n, u) ∈ told → u' = u := by
  refine ⟨fun u hu => touched_acts hs hu, fun n u' hact => ?_⟩
  rcases List.mem_append.mp hact with hact | hact
  · rcases hstored : r.stored with - | s
    · rw [hstored] at hact
      cases hact
    · rw [hstored] at hact
      obtain ⟨e, he, heq⟩ := List.mem_map.mp hact
      obtain ⟨rfl, rfl⟩ := Prod.mk.inj heq
      obtain ⟨hseq, hus⟩ := (hs s hstored).result e he
      exact act_stable hasc hnum hseq hus
  · obtain ⟨hseq, hus⟩ := hf n u' hact
    exact act_stable hasc' hnum' hseq hus

theorem stable_next (hsane : Sane w) (hnum : Numbering w.told w.box.uidIndex) (hkeeps : KeepsNumbers w e) :
    Stable settings w e := by
  intro messages r hby hreply
  -- before the first index the client has been told nothing
  have hfirst : (!w.box.uidIndexBuilt) = true → ∀ n u, (n, u) ∈ w.told → w.backend.Kept n u := by
    intro hb n u htold
    rw [hsane.silent (by simpa using hb)] at htold
    cases htold
  cases e with
  | arrive _ _ | delete _ | flagged _ | select | status _ _ | search _ _ => cases hreply
  | store messages' flags mode uid =>
    cases uid with
    | true => cases hby
    | false =>
      obtain rfl := Option.some.inj hby
      obtain rfl := Option.some.inj hreply
      have hmoved : Moved w.backend _ w.box (w.box.store w.backend w.flagStore messages' flags mode false).1 :=
        store_moved
      exact stable_of_numbering (fun s hs => store_answered hsane.ascending hs) (hmoved.ascending hsane.ascending)
        (hmoved.numbering hnum hfirst) (fun n u h => nomatch h) (hmoved.ascending hsane.ascending)
        (hmoved.numbering hnum hfirst)
  | fetch messages' query uid =>
    cases uid with
    | true => cases hby
    | false =>
      obtain rfl := Option.some.inj hby
      obtain rfl := Option.some.inj hreply
      have hafter : Moved w.backend _ w.box (doFetch settings w.backend w.flagStore w.box messages' query false).box :=
        doFetch_moved
      have hasc := hafter.ascending hsane.ascending
      have hnew := hafter.numbering hnum hkeeps
      rw [doFetch] at hasc hnew ⊢
      split at hasc
      · rename_i hquiet
        rw [if_pos hquiet] at hnew ⊢
        exact stable_of_numbering (fun s hs => nomatch hs) hasc hnew (fun n u h => fetch_numbers h) hasc hnew
      · rename_i hseen
        rw [if_neg hseen] at hnew ⊢
        have hmoved : Moved w.backend _ w.box
            (w.box.store w.backend w.flagStore messages' {"\\Seen"} .add false).1 := store_moved
        exact stable_of_numbering (fun s hs => store_answered hsane.ascending hs)
          (hmoved.ascending hsane.ascending) (hmoved.numbering hnum hfirst) (fun n u h => fetch_numbers h) hasc hnew

/-! ### Sessions -/

theorem sane_next (h : Sane w) : Sane (w.next settings e) := by
  by_cases he : e = .select
  · subst he
    refine ⟨?_, fun _ => rfl⟩
    rw [World.next, (buildUidIndex_spec w.backend w.flagStore w.box).index]
    exact w.backend.ids_ascending
  · have hmoved : Moved w.backend (w.rebuilds e) w.box (w.next settings e).box := next_moved he
    refine ⟨hmoved.ascending h.ascending, fun hb => ?_⟩
    rcases hmoved with ⟨hx, hs⟩ | ⟨-, hl⟩
    · rw [hs.built] at hb
      cases e with
      | arrive _ _ | delete _ | flagged _ | status _ _ | store _ _ _ _ | search _ _ => exact h.silent hb
      | select => exact (he rfl).elim
      | fetch _ _ _ =>
        -- a `FETCH` builds the index if there is none
        rw [World.rebuilds, hb] at hx
        cases hx
    · rw [hl.built] at hb
      cases hb

theorem numbering_next (hsane : Sane w) (hnum : Numbering w.told w.box.uidIndex) (hkeeps : KeepsNumbers w e) :
    Numbering (w.next settings e).told (w.next settings e).box.uidIndex := by
  by_cases he : e = .select
  · subst he
    exact fun n u h => nomatch h
  · have hmoved : Moved w.backend (w.rebuilds e) w.box (w.next settings e).box := next_moved he
    have hold := hmoved.numbering hnum hkeeps
    cases e with
    | arrive _ _ | delete _ | flagged _ | status _ _ | store _ _ _ _ | search _ _ => exact hold
    | select => exact (he rfl).elim
    | fetch messages query uid =>
      intro n u htold
      have hasc := hmoved.ascending hsane.ascending
      rw [World.next] at htold hold hasc ⊢
      dsimp only at htold hold hasc ⊢
      split at htold
      · rcases List.mem_append.mp htold with htold | htold
        · exact hold n u htold
        · right
          rw [← uidToSeq_eq_some hasc]
          rw [doFetch] at htold ⊢
          split at htold
          · rw [if_pos ‹_›]
            exact (fetch_numbers htold).1
          · rw [if_neg ‹_›]
            exact (fetch_numbers htold).1
      · exact hold n u htold

theorem sane_run {C : World ρ μ → Event ρ → Prop} (h : Transition.Run (session settings) C w) : Sane w := by
  refine h.invariant (fun w h0 => ?_) fun w e w' _ hsane _ hstep => ?_
  · refine ⟨?_, fun _ => h0.2⟩
    rw [h0.1]
    exact List.Pairwise.nil
  · obtain rfl := hstep
    exact sane_next hsane

/-- Along a session that keeps them, the numbers told agree with the index. -/
theorem numbering (h : Transition.Run (session settings) KeepsNumbers w) : Numbering w.told w.box.uidIndex := by
  refine h.invariant (I := fun w => Numbering w.told w.box.uidIndex) (fun w h0 n u htold => ?_)
    fun w e w' hrun hnum hkeeps hstep => ?_
  · rw [h0.2] at htold
    cases htold
  · obtain rfl := hstep
    exact numbering_next (sane_run hrun) hnum hkeeps

end OneMail.Proxy
