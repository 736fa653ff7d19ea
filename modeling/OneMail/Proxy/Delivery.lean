import OneMail.Proxy.Stability

/-! A `UID FETCH` returns what the backend holds.

    The search for uncached mails goes through the whole listing unless it has found them all
    (`idToData_find`), so every readable mail of the set is put into the cache. What the cache holds is
    what the backend's rows read as (`Stocked`), and a mail of the set stays there until it is
    returned if the cache has room for it (`fetch_complete`). -/

namespace OneMail.Proxy

open Ordered (Ascending)

variable {ρ μ : Type} {settings : Settings ρ μ} {b : Backend ρ} {store : FlagStore} {box : SimpleMailbox μ}
  {w : World ρ μ} {e : Event ρ} {messages : MessageSet} {uid : Bool} {index us uncached : List ℕ} {n u : ℕ}
  {cache : List (ℕ × μ)} {flags : FlagStore}

/-! ### The search for uncached mails -/

theorem foldl_pick : ∀ (l found : List (Item ρ)), (found.map Item.id ++ l.map Item.id).Nodup →
    l.foldl (SimpleMailbox.pick uncached) found = found ++ l.filter fun item => item.id ∈ uncached
  | [], found, _ => (List.append_nil found).symm
  | item :: l, found, h => by
    have hnew : item.id ∉ found.map Item.id := fun hmem =>
      (List.nodup_append.mp h).2.2 _ hmem _ (List.mem_cons_self ..) rfl
    have hrest : (found.map Item.id ++ l.map Item.id).Nodup :=
      h.sublist (List.Sublist.append_left (List.sublist_cons_self _ _) _)
    rw [List.foldl_cons, SimpleMailbox.pick]
    by_cases hmem : item.id ∈ uncached
    · rw [if_pos ⟨hmem, hnew⟩, List.filter_cons_of_pos (by simpa using hmem), foldl_pick l _ (by simpa using h)]
      simp
    · rw [if_neg fun hc => hmem hc.1, List.filter_cons_of_neg (by simpa using hmem), foldl_pick l _ hrest]

/-- The search ends with all rows of the uncached mails. -/
theorem mem_idToData (hcount : box.messageCount = b.rows.length) {item : Item ρ} :
    item ∈ box.idToData b uncached ↔ item ∈ b.rows ∧ item.id ∈ uncached := by
  rw [SimpleMailbox.idToData, hcount]
  obtain ⟨k, hk, hend⟩ := Paging.sweep_take (getMessages_eq b) (show 0 < 50 by omega)
    (fun found => decide (uncached.length ≤ found.length)) (SimpleMailbox.pick uncached) b.rows.length 0 []
    (by simp)
  rw [List.length_reverse] at hk hend
  have hnodup : ((b.rows.reverse.take k).map Item.id).Nodup :=
    rows_reverse_nodup.sublist ((List.take_sublist _ _).map _)
  rw [List.drop_zero, foldl_pick _ _ (by simpa using hnodup), List.nil_append] at hk
  rw [hk] at hend ⊢
  constructor
  · intro h
    obtain ⟨hmem, hid⟩ := List.mem_filter.mp h
    exact ⟨List.mem_reverse.mp (List.mem_of_mem_take hmem), by simpa using hid⟩
  · rintro ⟨hmem, hid⟩
    rcases hend with hfull | hall
    · -- as many rows as uncached mails, all distinct: none is missing
      have hsub : ((b.rows.reverse.take k).filter fun item => decide (item.id ∈ uncached)).map Item.id
          ⊆ uncached := by
        intro u hu
        obtain ⟨item, hitem, rfl⟩ := List.mem_map.mp hu
        simpa using (List.mem_filter.mp hitem).2
      have hperm := (List.subperm_of_subset (hnodup.sublist (List.filter_sublist.map _)) hsub).perm_of_length_le
        (by simpa using hfull)
      obtain ⟨item', hitem', heq⟩ := List.mem_map.mp (hperm.mem_iff.mpr hid)
      have hrow' := List.mem_reverse.mp (List.mem_of_mem_take (List.mem_of_mem_filter hitem'))
      rwa [← b.eq_of_id hrow' hmem heq]
    · rw [List.take_of_length_le (by simpa using hall)]
      exact List.mem_filter.mpr ⟨List.mem_reverse.mpr hmem, by simpa using hid⟩

theorem find_idToData (hcount : box.messageCount = b.rows.length) {item : Item ρ} :
    ((box.idToData b uncached).find? fun item => item.id = u) = some item ↔
      item ∈ b.rows ∧ item.id = u ∧ u ∈ uncached := by
  constructor
  · intro h
    have hid : item.id = u := by simpa using List.find?_some h
    obtain ⟨hrow, hmem⟩ := (mem_idToData hcount).mp (List.mem_of_find?_eq_some h)
    exact ⟨hrow, hid, hid ▸ hmem⟩
  · rintro ⟨hrow, rfl, hmem⟩
    have hdata := (mem_idToData hcount).mpr ⟨hrow, hmem⟩
    rcases hfind : (box.idToData b uncached).find? fun item' => decide (item'.id = item.id) with - | item'
    · exact absurd (List.find?_eq_none.mp hfind item hdata) (by simp)
    · obtain ⟨hrow', -⟩ := (mem_idToData hcount).mp (List.mem_of_find?_eq_some hfind)
      rw [hfind, b.eq_of_id hrow' hrow (by simpa using List.find?_some hfind)]

/-! ### The cache -/

/-- The cache is sound, and what it holds is what the backend's rows read as. -/
structure Stocked (settings : Settings ρ μ) (b : Backend ρ) (cache : List (ℕ × μ)) : Prop where
  sound : Recency.Sound settings.imapCacheSize cache
  issued : ∀ e ∈ cache, e.1 ≤ b.lastId
  reads : ∀ e ∈ cache, ∀ item ∈ b.rows, item.id = e.1 → settings.parse item.row = some e.2

/-- The uncached mails of the targets that the backend holds and the proxy can read. -/
def parsed (settings : Settings ρ μ) (b : Backend ρ) (box : SimpleMailbox μ) (us : List ℕ) : List (ℕ × μ) :=
  let uncached := us.filter fun u => u ∉ Recency.keys box.cache
  uncached.filterMap fun u => ((box.idToData b uncached).find? fun item => item.id = u).bind fun item =>
    (settings.parse item.row).map (u, ·)

theorem mem_parsed (hcount : box.messageCount = b.rows.length) {p : ℕ × μ} :
    p ∈ parsed settings b box us ↔ p.1 ∈ us ∧ p.1 ∉ Recency.keys box.cache ∧
      ∃ item ∈ b.rows, item.id = p.1 ∧ settings.parse item.row = some p.2 := by
  obtain ⟨v, email⟩ := p
  simp only [parsed, List.mem_filterMap, Option.bind_eq_some_iff, Option.map_eq_some_iff, find_idToData hcount,
    List.mem_filter, decide_eq_true_eq]
  constructor
  · rintro ⟨u, ⟨hu, hnew⟩, item, ⟨hrow, hid, -⟩, email', hparse, heq⟩
    obtain ⟨rfl, rfl⟩ := Prod.mk.inj heq
    exact ⟨hu, hnew, item, hrow, hid, hparse⟩
  · rintro ⟨hu, hnew, item, hrow, hid, hparse⟩
    exact ⟨v, ⟨hu, hnew⟩, item, ⟨hrow, hid, hu, hnew⟩, email, hparse, rfl⟩

theorem fetchAndCache_cache (hcount : box.messageCount = b.rows.length) :
    (box.fetchAndCacheMessages settings b us).cache =
      Recency.putAll settings.imapCacheSize box.cache (parsed settings b box us) := by
  rw [SimpleMailbox.fetchAndCacheMessages]
  dsimp only
  split_ifs with hempty hzero
  · rw [parsed, hempty]
    rfl
  · have hnone : parsed settings b box us = [] := by
      refine List.eq_nil_iff_forall_not_mem.mpr fun p hp => ?_
      obtain ⟨-, -, item, hrow, -⟩ := (mem_parsed hcount).mp hp
      rw [List.length_eq_zero_iff.mp (hcount.symm.trans hzero)] at hrow
      cases hrow
    rw [hnone]
    rfl
  · rfl

theorem Stocked.fetchAndCache (h : Stocked settings b box.cache) (hcount : box.messageCount = b.rows.length) :
    Stocked settings b (box.fetchAndCacheMessages settings b us).cache := by
  rw [fetchAndCache_cache hcount]
  refine ⟨h.sound.putAll settings.imapCacheSize_pos, fun e he => ?_, fun e he item hrow hid => ?_⟩
  · rcases Recency.mem_of_putAll he with he | he
    · exact h.issued e he
    · obtain ⟨-, -, item, hrow, hid, -⟩ := (mem_parsed hcount).mp he
      exact hid ▸ b.issued item hrow
  · rcases Recency.mem_of_putAll he with he | he
    · exact h.reads e he item hrow hid
    · obtain ⟨-, -, item', hrow', hid', hparse⟩ := (mem_parsed hcount).mp he
      rwa [b.eq_of_id hrow hrow' (hid.trans hid'.symm)]

/-! ### The answer -/

theorem collect_complete (hu : u ∈ us) (hkey : u ∈ Recency.keys cache) (hseq : uidToSeq index u = some n) :
    ∃ m ∈ (SimpleMailbox.collect index flags us cache).1, m.2.uid = u := by
  induction us generalizing cache with
  | nil => cases hu
  | cons v us ih =>
    have hget := Recency.get_fst (s := cache) (k := v)
    have hkeep : u ∈ Recency.keys (Recency.get cache v).2 := Recency.mem_keys_get.mpr hkey
    rw [SimpleMailbox.collect]
    rcases hcase : Recency.get cache v with ⟨- | email, cache'⟩
    · rw [hcase] at hget hkeep
      rcases List.mem_cons.mp hu with rfl | hu
      · obtain ⟨w, hw⟩ := Recency.lookup_of_mem_keys hkey
        rw [hw] at hget
        cases hget
      · exact ih hu hkeep
    · rw [hcase] at hkeep
      dsimp only
      split
      · rename_i seq hv
        rcases List.mem_cons.mp hu with rfl | hu
        · exact ⟨_, List.mem_cons_self, rfl⟩
        · obtain ⟨m, hm, huid⟩ := ih hu hkeep
          exact ⟨m, List.mem_cons_of_mem _ hm, huid⟩
      · rename_i hv
        rcases List.mem_cons.mp hu with rfl | hu
        · rw [hseq] at hv
          cases hv
        · exact ih hu hkeep

/-- An answer is taken from the cache, which the answering reorders at most. -/
theorem collect_cache (h : Recency.Sound n cache) :
    (∀ m ∈ (SimpleMailbox.collect index flags us cache).1, (m.2.uid, m.2.email) ∈ cache) ∧
      Recency.Sound n (SimpleMailbox.collect index flags us cache).2 ∧
      ∀ e ∈ (SimpleMailbox.collect index flags us cache).2, e ∈ cache := by
  induction us generalizing cache with
  | nil => exact ⟨fun m hm => (nomatch hm), h, fun e he => he⟩
  | cons v us ih =>
    have hget := Recency.get_fst (s := cache) (k := v)
    have hsub : ∀ e ∈ (Recency.get cache v).2, e ∈ cache := fun e he => Recency.mem_of_get he
    obtain ⟨hemails, hsound, hmem⟩ := ih (h.get (k := v))
    rw [SimpleMailbox.collect]
    rcases hcase : Recency.get cache v with ⟨- | email, cache'⟩
    · rw [hcase] at hsub hemails hsound hmem
      exact ⟨fun m hm => hsub _ (hemails m hm), hsound, fun e he => hsub e (hmem e he)⟩
    · rw [hcase] at hget hsub hemails hsound hmem
      dsimp only
      split
      · refine ⟨fun m hm => ?_, hsound, fun e he => hsub e (hmem e he)⟩
        rcases List.mem_cons.mp hm with rfl | hm
        · exact Recency.lookup_mem hget.symm
        · exact hsub _ (hemails m hm)
      · exact ⟨fun m hm => hsub _ (hemails m hm), hsound, fun e he => hsub e (hmem e he)⟩

/-! ### A complete answer -/

theorem le_top (hu : u ∈ b.ids) : u ≤ b.top := by
  rw [Backend.top, List.getLastD_eq_getLast?]
  rcases hlast : b.ids.getLast? with - | v
  · rw [List.getLast?_eq_none_iff.mp hlast] at hu
    cases hu
  · exact b.ids_ascending.le_getLast hu hlast

/-- What the cache holds when a `FETCH` reads its targets from it. -/
theorem Fits.kept (hfits : Fits settings w messages) (hstock : Stocked settings w.backend w.box.cache)
    (hcount : w.box.messageCount = w.backend.rows.length)
    (hus : ∀ u ∈ us, u ∈ w.backend.ids → messages.Covers w.backend.top u) {item : Item ρ}
    (hwant : w.backend.Wanted settings messages item) (hu : item.id ∈ us) :
    item.id ∈ Recency.keys (w.box.fetchAndCacheMessages settings w.backend us).cache := by
  obtain ⟨hroom, hcached⟩ := hfits
  have hsub : (Recency.keys (parsed settings w.backend w.box us)).toFinset
      ⊆ ((newcomers settings w messages).map Item.id).toFinset := by
    intro u hu
    obtain ⟨p, hp, rfl⟩ := List.mem_map.mp (List.mem_toFinset.mp hu)
    obtain ⟨hmem, hnew, item, hrow, hid, hparse⟩ := (mem_parsed hcount).mp hp
    refine List.mem_toFinset.mpr (List.mem_map.mpr ⟨item, List.mem_filter.mpr ⟨hrow, ?_⟩, hid⟩)
    simp only [hid, hnew, hparse, hus _ hmem (Backend.mem_ids.mpr ⟨item, hrow, hid⟩), Option.isSome_some,
      not_false_eq_true, and_self, decide_true]
  have hcard : (Recency.keys (parsed settings w.backend w.box us)).toFinset.card
      ≤ (newcomers settings w messages).length := by
    refine (Finset.card_le_card hsub).trans ((List.toFinset_card_le _).trans ?_)
    rw [List.length_map]
  rw [fetchAndCache_cache hcount]
  by_cases hkey : item.id ∈ Recency.keys w.box.cache
  · obtain ⟨older, newer, hsplit⟩ := List.append_of_mem hkey
    refine Recency.mem_putAll hstock.sound settings.imapCacheSize_pos hsplit ?_
    calc ((newer.toFinset ∪ (Recency.keys (parsed settings w.backend w.box us)).toFinset).erase item.id).card
        ≤ (newer.toFinset ∪ (Recency.keys (parsed settings w.backend w.box us)).toFinset).card :=
          Finset.card_le_card (Finset.erase_subset _ _)
      _ ≤ newer.toFinset.card + (Recency.keys (parsed settings w.backend w.box us)).toFinset.card :=
          Finset.card_union_le _ _
      _ ≤ newer.length + (newcomers settings w messages).length :=
          Nat.add_le_add (List.toFinset_card_le _) hcard
      _ < settings.imapCacheSize := hcached item older newer hwant hsplit
  · obtain ⟨email, hparse⟩ := Option.isSome_iff_exists.mp hwant.2.2
    refine Recency.mem_putAll_of_mem hstock.sound settings.imapCacheSize_pos (hcard.trans hroom) ?_
    exact Recency.mem_keys_of_mem ((mem_parsed (p := (item.id, email)) hcount).mpr
      ⟨hu, hkey, item, hwant.1, rfl, hparse⟩)

/-- The targets of a `UID FETCH` are the mails of its set, as far as the index has them. -/
theorem targets_covered (hread : Readable w.backend messages) (hasc : Ascending id index)
    (hne : w.backend.rows ≠ []) : ∃ us, resolveMessageSet index messages true = some us ∧
      ∀ u ∈ w.backend.ids, u ∈ us ↔ u ∈ index ∧ messages.Covers w.backend.top u := by
  obtain ⟨us, hus, hmem⟩ := resolve_covered (fun range hrange =>
    let ⟨start, hstart, _⟩ := hread hne range hrange
    ⟨start, hstart⟩) index
  refine ⟨us, hus, fun u hu => (hmem u).trans (and_congr_right fun hindex => ?_)⟩
  have hle := le_top hu
  have hlast : u ≤ index.getLastD 0 := by
    rw [List.getLastD_eq_getLast?]
    rcases hlast : index.getLast? with - | v
    · rw [List.getLast?_eq_none_iff.mp hlast] at hindex
      cases hindex
    · exact hasc.le_getLast hindex hlast
  refine exists_congr fun range => and_congr_right fun hrange => ?_
  obtain ⟨start, hstart, hopen⟩ := hread hne range hrange
  rw [hstart, Option.getD_some, Option.getD_some]
  rcases hstop : range.2 with - | stop
  · have hst := hopen hstop
    rw [Option.getD_none, Option.getD_none]
    omega
  · have hst := messages.ordered range hrange start stop hstart hstop
    rw [Option.getD_some, Option.getD_some]
    omega

/-- A `UID FETCH` by a mailbox that is current and has room returns every readable mail of the set. -/
theorem fetch_complete (hasc : Ascending id w.box.uidIndex) (hstock : Stocked settings w.backend w.box.cache)
    (hread : Readable w.backend messages) (hcur : Current w messages) (hfits : Fits settings w messages)
    {item : Item ρ} {email : μ} (hwant : w.backend.Wanted settings messages item)
    (hparse : settings.parse item.row = some email) (store : FlagStore) :
    ∃ m ∈ ((w.box.fetch settings w.backend store messages true).2).getD [], m.2.uid = item.id ∧ m.2.email = email := by
  have hne : w.backend.rows ≠ [] := List.ne_nil_of_mem hwant.1
  have hitem : item.id ∈ w.backend.ids := Backend.mem_ids.mpr ⟨item, hwant.1, rfl⟩
  -- after the refresh the index has every mail of the set
  obtain ⟨hcount, hindex, hcache, hasc'⟩ : (w.box.refresh w.backend store).messageCount = w.backend.rows.length ∧
      item.id ∈ (w.box.refresh w.backend store).uidIndex ∧
      (w.box.refresh w.backend store).cache = w.box.cache ∧
      Ascending id (w.box.refresh w.backend store).uidIndex := by
    have hasc' := (refresh_moved w.backend store w.box).ascending hasc
    rcases refresh_spec w.backend store w.box with ⟨hb, hcount, heq⟩ | ⟨-, h⟩
    · rw [heq] at hasc' ⊢
      exact ⟨hcount.symm, hcur hb hcount item hwant.1 hwant.2.1, rfl, hasc'⟩
    · exact ⟨h.count, h.index ▸ hitem, h.cache, hasc'⟩
  rw [SimpleMailbox.fetch]
  generalize w.box.refresh w.backend store = box at hcount hindex hcache hasc'
  obtain ⟨us, hus, hmem⟩ := targets_covered hread hasc' hne
  have htarget : item.id ∈ us := (hmem _ hitem).mpr ⟨hindex, hwant.2.1⟩
  have hstock' : Stocked settings w.backend box.cache := hcache ▸ hstock
  have hfits' : Fits settings { w with box := box } messages := by
    simp only [Fits, newcomers, hcache] at hfits ⊢
    exact hfits
  have hkept : item.id ∈ Recency.keys (box.fetchAndCacheMessages settings w.backend us).cache :=
    hfits'.kept hstock' hcount (fun u hu hid => ((hmem u hid).mp hu).2) hwant htarget
  obtain ⟨seq, hseq⟩ := exists_seq hindex
  have hseq' := (uidToSeq_eq_some hasc').mpr hseq
  have hsame : SameIndex box (box.fetchAndCacheMessages settings w.backend us) := fetchAndCache_same us
  rw [← hsame.index] at hseq'
  simp only [hus, if_neg (List.ne_nil_of_mem htarget), Option.getD_some]
  obtain ⟨m, hm, huid⟩ := collect_complete htarget hkept hseq'
  refine ⟨m, hm, huid, ?_⟩
  have hstock'' : Stocked settings w.backend (box.fetchAndCacheMessages settings w.backend us).cache :=
    hstock'.fetchAndCache hcount
  have hreads := hstock''.reads _ ((collect_cache hstock''.sound).1 m hm) item hwant.1 huid.symm
  exact Option.some.inj (hreads.symm.trans hparse)

/-! ### Sessions -/

theorem Stocked.arrive (h : Stocked settings b cache) (skipped : ℕ) (row : ρ) :
    Stocked settings (b.arrive skipped row) cache := by
  refine ⟨h.sound, fun e he => ?_, fun e he item hrow hid => ?_⟩
  · have := h.issued e he
    show e.1 ≤ b.lastId + skipped + 1
    omega
  · rcases List.mem_append.mp hrow with hrow | hrow
    · exact h.reads e he item hrow hid
    · have := h.issued e he
      rw [List.mem_singleton.mp hrow] at hid
      have hid : b.lastId + skipped + 1 = e.1 := hid
      omega

theorem Stocked.delete (h : Stocked settings b cache) (i : ℕ) : Stocked settings (b.delete i) cache :=
  ⟨h.sound, h.issued, fun e he item hrow hid => h.reads e he item (List.mem_of_mem_filter hrow) hid⟩

theorem refresh_cache (b : Backend ρ) (store : FlagStore) (box : SimpleMailbox μ) :
    (box.refresh b store).cache = box.cache := by
  rcases refresh_spec b store box with ⟨-, -, h⟩ | ⟨-, h⟩
  · rw [h]
  · exact h.cache

theorem store_cache {stored : Finset String} {mode : StoreMode} :
    (box.store b store messages stored mode uid).1.cache = box.cache := by
  have h : (box.ensureIndex b store).cache = box.cache := by
    rcases ensureIndex_spec b store box with ⟨-, h⟩ | ⟨-, h⟩
    · rw [h]
    · exact h.cache
  rw [SimpleMailbox.store]
  dsimp only
  split
  · exact h
  · split
    · exact h
    · split <;> exact h

theorem Stocked.fetch (h : Stocked settings b box.cache) :
    Stocked settings b (box.fetch settings b store messages uid).1.cache := by
  have hcount : (box.refresh b store).messageCount = b.rows.length := by
    rcases refresh_spec b store box with ⟨-, hcount, heq⟩ | ⟨-, hbuilt⟩
    · rw [heq, hcount]
    · exact hbuilt.count
  rw [← refresh_cache b store box] at h
  rw [SimpleMailbox.fetch]
  dsimp only
  split
  · exact h
  · split
    · exact h
    · rename_i us _ _
      have hnext : Stocked settings b ((box.refresh b store).fetchAndCacheMessages settings b us).cache :=
        h.fetchAndCache hcount
      obtain ⟨-, hsound, hmem⟩ := collect_cache hnext.sound
      exact ⟨hsound, fun e he => hnext.issued e (hmem e he), fun e he => hnext.reads e (hmem e he)⟩

theorem stocked_next (h : Stocked settings w.backend w.box.cache) :
    Stocked settings (w.next settings e).backend (w.next settings e).box.cache := by
  cases e with
  | arrive skipped row => exact h.arrive skipped row
  | delete i => exact h.delete i
  | flagged _ => exact h
  | select =>
    rw [World.next, (buildUidIndex_spec w.backend w.flagStore w.box).cache]
    exact h
  | status reindex names =>
    rw [World.next, SimpleMailbox.requestStatus, refresh_cache]
    cases reindex with
    | false => exact h
    | true =>
      rw [if_pos rfl, (buildUidIndex_spec w.backend w.flagStore w.box).cache]
      exact h
  | search query uid =>
    have hsearch : (w.box.search w.backend w.flagStore query uid).1.cache = w.box.cache := by
      rcases ensureIndex_spec w.backend w.flagStore w.box with ⟨-, h⟩ | ⟨-, h⟩
      · exact congrArg SimpleMailbox.cache h
      · exact h.cache
    rw [World.next, hsearch]
    exact h
  | store messages flags mode uid =>
    rw [World.next, store_cache]
    exact h
  | fetch messages query uid =>
    rw [World.next, doFetch]
    split
    · exact h.fetch
    · refine Stocked.fetch ?_
      rw [store_cache]
      exact h

theorem stocked_run {C : World ρ μ → Event ρ → Prop} (h : Transition.Run (session settings) C w) :
    Stocked settings w.backend w.box.cache := by
  refine h.invariant (I := fun w => Stocked settings w.backend w.box.cache) (fun w h0 => ?_)
    fun w e w' _ hstock _ hstep => ?_
  · rw [h0.1]
    exact ⟨.nil, fun e he => (nomatch he), fun e he => (nomatch he)⟩
  · obtain rfl := hstep
    exact stocked_next hstock

theorem complete_next (hsane : Sane w) (hstock : Stocked settings w.backend w.box.cache)
    (hanswer : Answerable settings w e) : Complete settings w e := by
  rintro messages query r rfl hreply item email hwant hparse
  obtain ⟨hread, hcur, hfits⟩ := hanswer messages query rfl
  obtain rfl := Option.some.inj hreply
  rw [doFetch]
  split
  · exact fetch_complete hsane.ascending hstock hread hcur hfits hwant hparse w.flagStore
  · -- the `STORE` before it builds the index if there is none, and leaves the cache alone
    set seen := w.box.store w.backend w.flagStore messages {"\\Seen"} .add true
    have hmoved : Moved w.backend (!w.box.uidIndexBuilt) w.box seen.1 := store_moved
    have hcache : seen.1.cache = w.box.cache := store_cache
    have hcur' : Current { w with box := seen.1 } messages := by
      intro hb hcount item hrow hcovers
      rcases hmoved with ⟨-, hs⟩ | ⟨-, hl⟩
      · rw [show ({ w with box := seen.1 } : World ρ μ).box.uidIndex = w.box.uidIndex from hs.index]
        exact hcur (hs.built.symm.trans hb) (hcount.trans hs.count) item hrow hcovers
      · rw [show ({ w with box := seen.1 } : World ρ μ).box.uidIndex = w.backend.ids from hl.index]
        exact Backend.mem_ids.mpr ⟨item, hrow, rfl⟩
    have hfits' : Fits settings { w with box := seen.1 } messages := by
      simp only [Fits, newcomers, hcache] at hfits ⊢
      exact hfits
    have hstock' : Stocked settings w.backend seen.1.cache := hcache ▸ hstock
    exact fetch_complete (w := { w with box := seen.1 }) (hmoved.ascending hsane.ascending) hstock' hread hcur' hfits'
      hwant hparse seen.2.1

/-- In a session whose every rebuilding of the index finds the backend's mails under the numbers that
    the client was told, a command by numbers acts on the messages known under them or on none; and at
    any time a `UID FETCH` that finds the index current and room in the cache, by a set of ranges that
    start with a number, returns every readable mail of the set that the backend holds. -/
theorem numbers_stable_and_complete (settings : Settings ρ μ) :
    (∀ w, Transition.Run (session settings) KeepsNumbers w → ∀ e, KeepsNumbers w e → Stable settings w e) ∧
    ∀ w, Transition.Reachable (session settings) w → ∀ e, Answerable settings w e → Complete settings w e :=
  ⟨fun _ hrun _ hkeeps => stable_next (sane_run hrun) (numbering hrun) hkeeps,
    fun _ hrun _ hanswer => complete_next (sane_run hrun) (stocked_run hrun) hanswer⟩

/-! ### A demonstration -/

def demoSettings : Settings String String where
  imapCacheSize := 2
  imapCacheSize_pos := by decide
  uidValidity := 1700000000
  parse := fun raw => if raw = "" then none else some raw

/-- A mailbox with three mails before its session. -/
def demoStart : World String String where
  backend := ⟨[⟨1, "a"⟩, ⟨2, "b"⟩, ⟨3, "c"⟩], 3, by simp [Ascending], by decide⟩
  flagStore := fun _ => ∅
  box := SimpleMailbox.fresh
  told := []

/-- The numbers or UIDs from `start` to `stop`. -/
def upTo (start stop : ℕ) (h : start ≤ stop) : MessageSet where
  ranges := [(some start, some stop)]
  ordered := by
    rintro range hrange s t hs ht
    rw [List.mem_singleton.mp hrange] at hs ht
    obtain rfl := Option.some.inj hs
    obtain rfl := Option.some.inj ht
    exact h

/-- `FETCH 1:2 (UID)` -/
def askNumbers : Event String := .fetch (upTo 1 2 (by decide)) [.uid] false

/-- The session has told two numbers, the third mail is deleted and a fourth and a fifth arrive. -/
def demoGrown : World String String :=
  ((((demoStart.next demoSettings .select).next demoSettings askNumbers).next demoSettings
    (.delete 3)).next demoSettings (.arrive 0 "d")).next demoSettings (.arrive 0 "e")

theorem numbers_stable_and_complete_demo :
    Stable demoSettings demoGrown (.store (upTo 2 2 (by decide)) {"\\Flagged"} .add false) ∧
      Complete demoSettings demoGrown (.fetch (upTo 4 5 (by decide)) [.uid] true) := by
  have hquiet : ∀ (w : World String String) (e : Event String), w.rebuilds e = false → KeepsNumbers w e :=
    fun w e h hx => absurd (h.symm.trans hx) Bool.false_ne_true
  have hstart : Transition.Run (session demoSettings) KeepsNumbers demoStart := .start ⟨rfl, rfl⟩
  have h₁ := hstart.next (hquiet _ .select rfl) rfl
  have h₂ := h₁.next (hquiet _ askNumbers (by decide)) rfl
  have h₃ := h₂.next (hquiet _ (.delete 3) rfl) rfl
  have h₄ := h₃.next (hquiet _ (.arrive 0 "d") rfl) rfl
  have hgrown : Transition.Run (session demoSettings) KeepsNumbers demoGrown :=
    h₄.next (hquiet _ (.arrive 0 "e") rfl) rfl
  refine ⟨(numbers_stable_and_complete demoSettings).1 demoGrown hgrown _ (hquiet _ _ (by decide)),
    (numbers_stable_and_complete demoSettings).2 demoGrown hgrown.reachable _ ?_⟩
  intro messages query heq
  obtain ⟨rfl, rfl, -⟩ := Event.fetch.inj heq
  refine ⟨fun _ range hrange => ?_, fun _ hcount => ?_, by decide, fun item older newer hwant hkeys => ?_⟩
  · rw [List.mem_singleton.mp hrange]
    exact ⟨4, rfl, fun h => nomatch h⟩
  · exact absurd hcount (by decide)
  · -- the cache holds the first two mails, and the set starts with the fourth
    have hcached : item.id ∈ Recency.keys demoGrown.box.cache := by rw [hkeys]; simp
    obtain ⟨range, hrange, hge, -⟩ := hwant.2.1
    rw [List.mem_singleton.mp hrange] at hge
    have hle : ∀ u ∈ Recency.keys demoGrown.box.cache, u ≤ 2 := by decide
    have := hle _ hcached
    have hge : 4 ≤ item.id := hge
    omega

/-- The first of three mails is deleted after the client has learnt that number 2 is UID 2. -/
def demoShifted : World String String :=
  ((demoStart.next demoSettings .select).next demoSettings askNumbers).next demoSettings (.delete 1)

/-- A mail is deleted and another arrives, so that the count is the one the index was built with. -/
def demoReplaced : World String String :=
  ((demoStart.next demoSettings .select).next demoSettings (.delete 1)).next demoSettings (.arrive 0 "d")

/-- `FETCH 2` then acts on UID 3, and `UID FETCH 4` misses the mail that has arrived. -/
theorem deletion_shifts_numbers :
    (∃ w e, Transition.Reachable (session demoSettings) w ∧ ¬Stable demoSettings w e) ∧
      ∃ w e, Transition.Reachable (session demoSettings) w ∧ ¬Complete demoSettings w e := by
  have hselected : Transition.Reachable (session demoSettings) (demoStart.next demoSettings .select) :=
    .next (.start ⟨rfl, rfl⟩) trivial rfl
  refine ⟨⟨demoShifted, .fetch (upTo 2 2 (by decide)) [.uid] false, ?_, fun h => ?_⟩,
    ⟨demoReplaced, .fetch (upTo 4 4 (by decide)) [.uid] true, ?_, fun h => ?_⟩⟩
  · exact (hselected.step rfl).step rfl
  · obtain ⟨-, hact⟩ := h _ _ rfl rfl
    exact absurd ((hact 2 3 (by decide)).2 2 (by decide)) (by decide)
  · exact (hselected.step rfl).step rfl
  · obtain ⟨m, hm, -⟩ := h _ _ _ rfl rfl ⟨4, "d"⟩ "d" ⟨by decide, by decide, by decide⟩ rfl
    exact absurd hm (by
      rw [show (doFetch demoSettings demoReplaced.backend demoReplaced.flagStore demoReplaced.box
        (upTo 4 4 (by decide)) [.uid] true).fetched = some [] from rfl]
      exact List.not_mem_nil)

end OneMail.Proxy
