import OneMail.Lib.Loop
import OneMail.Lib.Membership

/-! The discovery of the folders of a Graph mailbox (`folder_catalog.py`).

    Folders are listed breadth first: a queue of addresses, each the first page of the children of one folder.
    The pages of a listing are followed by their links. The search ends when it has five hundred rows; with
    fewer it has found every folder. -/

namespace OneMail.Folders

open scoped List

/-- An object of a listing: its id and its name as stripped texts, empty where they are missing, and its
    count of children, 0 where it is no number. -/
structure Item where
  id : String
  displayName : String
  childFolderCount : ℤ
  deriving DecidableEq

/-- A page. Its values are absent if they are no list; among them are items that are no objects. A link that is
    missing, empty or no text is absent. -/
structure Payload where
  values : Option (List (Option Item))
  nextLink : Option String
  deriving DecidableEq

/-- What a row has of the folder. -/
structure Row where
  providerFolderId : String
  displayName : String
  deriving DecidableEq

def maxGraphFolders : ℕ := 500

def graphFolderUrl (quote : String → String) (parentId : Option String) : String :=
  "https://graph.microsoft.com/v1.0/me/mailFolders" ++
    (match parentId with
    | none => ""
    | some parent => if parent = "" then "" else "/" ++ quote parent ++ "/childFolders") ++
    "?$select=id,displayName,childFolderCount&$top=100&includeHiddenFolders=true"

/-- `_validated_graph_next_link`; the outer `none` where it raises. -/
def validatedGraphNextLink : Option String → Option (Option String)
  | none => some none
  | some link => if "https://graph.microsoft.com/".toList.isPrefixOf link.toList then some (some link) else none

/-- The local variables of the search. -/
structure State where
  url : Option String
  queue : List String
  rows : List Row
  seenIds : List String

variable (quote : String → String)

def start : State := ⟨none, [graphFolderUrl quote none], [], []⟩

/-- The body of the loop over the values of a page. -/
def visit (s : State) : Option Item → State
  | none => s
  | some item =>
    if item.id = "" ∨ item.displayName = "" ∨ item.id ∈ s.seenIds then s
    else
      let rows := s.rows ++ [⟨item.id, item.displayName⟩]
      { s with
        seenIds := s.seenIds ++ [item.id]
        rows := rows
        queue := if 0 < item.childFolderCount ∧ rows.length < maxGraphFolders then
          s.queue ++ [graphFolderUrl quote (some item.id)] else s.queue }

/-- Both loops end when this holds. -/
def done (s : State) : Bool := maxGraphFolders ≤ s.rows.length || (s.url = none && s.queue = [])

/-- One round: the next page of a listing, or the next address of the queue. `get` is a request and what the
    response says, absent where either raises. -/
def step (get : String → Option Payload) (s : State) : Option State :=
  match s.url with
  | some url => do
    let payload ← get url
    let values ← payload.values
    let next ← validatedGraphNextLink payload.nextLink
    return { values.foldl (visit quote) s with url := next }
  | none => match s.queue with
    | [] => some s
    | url :: queue => some { s with url := some url, queue := queue }

/-- `discover_graph_folders`, in so many rounds. -/
def discoverGraphFolders (get : String → Option Payload) (rounds : ℕ) : Option (List Row) :=
  (Loop.run done (step quote get) rounds (start quote)).map (·.rows)

/-! ### A mailbox and its server -/

inductive Folder
  | mk (item : Item) (subfolders : List Folder)

def Folder.item : Folder → Item
  | .mk item _ => item

def Folder.subfolders : Folder → List Folder
  | .mk _ subfolders => subfolders

def Folder.id (f : Folder) : String := f.item.id

def Folder.row (f : Folder) : Row := ⟨f.id, f.item.displayName⟩

mutual

/-- A folder and all below it. -/
def Folder.nodes : Folder → List Folder
  | .mk item subfolders => .mk item subfolders :: nodesOf subfolders

def nodesOf : List Folder → List Folder
  | [] => []
  | f :: fs => f.nodes ++ nodesOf fs

end

/-- The pages of a listing, by the folders on them. -/
inductive Pages (get : String → Option Payload) : String → List (List Folder) → Prop
  | last {url : String} {page : List Folder} {values : List (Option Item)} {link : Option String} :
      get url = some ⟨some values, link⟩ → values.filterMap id = page.map Folder.item →
      validatedGraphNextLink link = some none → Pages get url [page]
  | more {url next : String} {page : List Folder} {pages : List (List Folder)} {values : List (Option Item)}
      {link : Option String} : get url = some ⟨some values, link⟩ → values.filterMap id = page.map Folder.item →
      validatedGraphNextLink link = some (some next) → Pages get next pages → Pages get url (page :: pages)

/-- The address that lists the children of a folder, or the folders at the top. -/
def address (parent : Option Folder) : String := graphFolderUrl quote (parent.map Folder.id)

/-- Where it is asked: at the top, and for the folders that say they have children. -/
def Asked (mailbox : List Folder) : Option Folder → Prop
  | none => True
  | some f => f ∈ nodesOf mailbox ∧ 0 < f.item.childFolderCount

def children (mailbox : List Folder) : Option Folder → List Folder
  | none => mailbox
  | some f => f.subfolders

/-- The server lists this mailbox, in whatever pages. -/
structure Serves (get : String → Option Payload) (mailbox : List Folder) : Prop where
  listed : ∀ p, Asked mailbox p → ∃ pages, Pages get (address quote p) pages ∧ pages.flatten = children mailbox p
  counted : ∀ f ∈ nodesOf mailbox, f.subfolders ≠ [] → 0 < f.item.childFolderCount
  distinct : ((nodesOf mailbox).map Folder.id).Nodup
  named : ∀ f ∈ nodesOf mailbox, f.id ≠ "" ∧ f.item.displayName ≠ ""

/-! ### Folders and those below them -/

theorem nodesOf_cons (f : Folder) (fs : List Folder) :
    nodesOf (f :: fs) = f :: (nodesOf f.subfolders ++ nodesOf fs) := by
  cases f
  rfl

theorem nodesOf_eq_flatMap (fs : List Folder) : nodesOf fs = fs.flatMap Folder.nodes := by
  induction fs with
  | nil => rfl
  | cons f fs ih => rw [nodesOf, List.flatMap_cons, ih]

theorem nodesOf_append (fs gs : List Folder) : nodesOf (fs ++ gs) = nodesOf fs ++ nodesOf gs := by
  simp only [nodesOf_eq_flatMap, List.flatMap_append]

theorem nodesOf_congr {fs gs : List Folder} (h : fs.Perm gs) : (nodesOf fs).Perm (nodesOf gs) := by
  rw [nodesOf_eq_flatMap, nodesOf_eq_flatMap]
  exact h.flatMap_right _

/-- The folders of a list first, then those below them. -/
theorem nodesOf_perm (fs : List Folder) : (nodesOf fs).Perm (fs ++ nodesOf (fs.flatMap Folder.subfolders)) := by
  induction fs with
  | nil => exact .refl _
  | cons f fs ih =>
    rw [nodesOf_cons, List.flatMap_cons, nodesOf_append, List.cons_append]
    refine List.Perm.cons f ((ih.append_left _).trans ?_)
    rw [← List.append_assoc, ← List.append_assoc]
    exact List.perm_append_comm.append_right _

/-- The folders whose children are listed. -/
def parents (fs : List Folder) : List Folder := fs.filter fun f => 0 < f.item.childFolderCount

theorem parents_cons {f : Folder} (h : 0 < f.item.childFolderCount) (fs : List Folder) :
    parents (f :: fs) = f :: parents fs := List.filter_cons_of_pos (decide_eq_true h)

theorem parents_skip {f : Folder} (h : ¬0 < f.item.childFolderCount) (fs : List Folder) :
    parents (f :: fs) = parents fs := List.filter_cons_of_neg (by simpa using h)

theorem below_parents {fs : List Folder} (h : ∀ f ∈ fs, f.subfolders ≠ [] → 0 < f.item.childFolderCount) :
    (parents fs).flatMap Folder.subfolders = fs.flatMap Folder.subfolders := by
  induction fs with
  | nil => rfl
  | cons f fs ih =>
    have ih' := ih fun g hg => h g (List.mem_cons_of_mem f hg)
    rw [List.flatMap_cons, ← ih']
    by_cases hcount : 0 < f.item.childFolderCount
    · rw [parents_cons hcount, List.flatMap_cons]
    · have hnone : f.subfolders = [] := by
        by_contra hsome
        exact hcount (h f List.mem_cons_self hsome)
      rw [parents_skip hcount, hnone, List.nil_append]

/-! ### A page -/

section Page

theorem visit_new {f : Folder} {s : State} (hid : f.id ≠ "") (hname : f.item.displayName ≠ "")
    (hnew : f.id ∉ s.seenIds) : visit quote s (some f.item) =
      ⟨s.url, if 0 < f.item.childFolderCount ∧ (s.rows ++ [f.row]).length < maxGraphFolders then
        s.queue ++ [address quote (some f)] else s.queue, s.rows ++ [f.row], s.seenIds ++ [f.id]⟩ := by
  have hskip : ¬(f.item.id = "" ∨ f.item.displayName = "" ∨ f.item.id ∈ s.seenIds) := by
    rintro (h | h | h)
    · exact hid h
    · exact hname h
    · exact hnew h
  rw [visit, if_neg hskip]
  rfl

/-- New folders are added, and those with children are queued until the cap is reached. -/
theorem visit_page {values : List (Option Item)} {fs : List Folder} {s : State}
    (hvalues : values.filterMap id = fs.map Folder.item)
    (hnamed : ∀ f ∈ fs, f.id ≠ "" ∧ f.item.displayName ≠ "")
    (hnew : ∀ f ∈ fs, f.id ∉ s.seenIds) (hdistinct : (fs.map Folder.id).Nodup) :
    ∃ kept dropped, (parents fs).Perm (kept ++ dropped) ∧ values.foldl (visit quote) s =
      ⟨s.url, s.queue ++ kept.map fun f => address quote (some f), s.rows ++ fs.map Folder.row,
        s.seenIds ++ fs.map Folder.id⟩ ∧ (dropped ≠ [] → maxGraphFolders ≤ s.rows.length + fs.length) := by
  induction values generalizing fs s with
  | nil =>
    obtain rfl := List.map_eq_nil_iff.mp hvalues.symm
    refine ⟨[], [], .refl _, ?_, fun h => absurd rfl h⟩
    simp only [List.map_nil, List.append_nil, List.foldl_nil]
  | cons value values ih =>
    rcases value with - | item
    · exact ih hvalues hnamed hnew hdistinct
    rcases fs with - | ⟨f, fs⟩
    · cases hvalues
    have hcons : item :: values.filterMap id = f.item :: fs.map Folder.item := hvalues
    obtain ⟨rfl, hrest⟩ := List.cons.inj hcons
    obtain ⟨hf, hdistinct'⟩ := List.nodup_cons.mp hdistinct
    obtain ⟨hid, hname⟩ := hnamed f List.mem_cons_self
    have hnew' : ∀ g ∈ fs, g.id ∉ s.seenIds ++ [f.id] := by
      rintro g hg hmem
      rcases List.mem_append.mp hmem with hmem | hmem
      · exact hnew g (List.mem_cons_of_mem f hg) hmem
      · have hg' := List.mem_map_of_mem (f := Folder.id) hg
        rw [List.mem_singleton.mp hmem] at hg'
        exact hf hg'
    rw [List.foldl_cons, visit_new quote hid hname (hnew f List.mem_cons_self)]
    obtain ⟨kept, dropped, hparents, hfold, hcap⟩ := ih (s := ⟨s.url, if 0 < f.item.childFolderCount ∧
        (s.rows ++ [f.row]).length < maxGraphFolders then s.queue ++ [address quote (some f)] else s.queue,
        s.rows ++ [f.row], s.seenIds ++ [f.id]⟩) hrest
      (fun g hg => hnamed g (List.mem_cons_of_mem f hg)) hnew' hdistinct'
    rw [hfold]
    simp only [List.length_append, List.length_singleton, List.append_assoc, List.singleton_append] at hcap ⊢
    by_cases hcount : 0 < f.item.childFolderCount
    · rw [parents_cons hcount]
      by_cases hlength : s.rows.length + 1 < maxGraphFolders
      · refine ⟨f :: kept, dropped, hparents.cons f, ?_, fun h => ?_⟩
        · simp only [if_pos (And.intro hcount hlength), List.map_cons, List.append_assoc, List.singleton_append]
        · have := hcap h
          rw [List.length_cons]
          omega
      · refine ⟨kept, f :: dropped, (hparents.cons f).trans List.perm_middle.symm, ?_, fun _ => ?_⟩
        · simp only [if_neg fun h : _ ∧ _ => hlength h.2, List.map_cons]
        · rw [List.length_cons]
          omega
    · rw [parents_skip hcount]
      refine ⟨kept, dropped, hparents, ?_, fun h => ?_⟩
      · simp only [if_neg fun h : _ ∧ _ => hcount h.1, List.map_cons]
      · have := hcap h
        rw [List.length_cons]
        omega

end Page

/-! ### The search -/

section Search

variable {get : String → Option Payload} {mailbox : List Folder}

/-- What the search has still to see: the rest of this listing, the listings that are queued, and those that
    were not queued because of the cap. -/
def ahead (mailbox : List Folder) (pages : List (List Folder)) (queued : List (Option Folder)) (lost : List Folder) :
    List Folder :=
  pages.flatten ++ queued.flatMap (children mailbox) ++ lost.flatMap Folder.subfolders

/-- The pages that follow an address, if there is one. -/
def Listing (get : String → Option Payload) (url : Option String) (pages : List (List Folder)) : Prop :=
  (url = none ∧ pages = []) ∨ ∃ link, url = some link ∧ Pages get link pages

/-- Where the search stands; each round lowers the rank. -/
structure Covers (get : String → Option Payload) (mailbox : List Folder) (rank : ℕ ×ₗ ℕ) (s : State)
    (found : List Folder) (pages : List (List Folder)) (queued : List (Option Folder)) (lost : List Folder) : Prop where
  rows : s.rows = found.map Folder.row
  seenIds : s.seenIds = found.map Folder.id
  listing : Listing get s.url pages
  queue : s.queue = queued.map (address quote)
  asked : ∀ p ∈ queued, Asked mailbox p
  all : (found ++ nodesOf (ahead mailbox pages queued lost)).Perm (nodesOf mailbox)
  capped : lost ≠ [] → maxGraphFolders ≤ s.rows.length
  rank : rank = toLex (2 * (nodesOf (ahead mailbox pages queued lost)).length + queued.length, pages.length)

variable {quote}

/-- A page moves its folders to the found ones, and what is below them to the queue or to the lost. -/
theorem page_ahead {page : List Folder} {rest : List (List Folder)} {queued : List (Option Folder)}
    {kept dropped lost : List Folder} (hparents : (parents page).Perm (kept ++ dropped))
    (hcounted : ∀ f ∈ page, f.subfolders ≠ [] → 0 < f.item.childFolderCount) :
    (nodesOf (ahead mailbox (page :: rest) queued lost)).Perm
      (page ++ nodesOf (ahead mailbox rest (queued ++ kept.map some) (dropped ++ lost))) := by
  have hbelow : (page.flatMap Folder.subfolders).Perm
      (kept.flatMap Folder.subfolders ++ dropped.flatMap Folder.subfolders) := by
    rw [← below_parents hcounted, ← List.flatMap_append]
    exact hparents.flatMap_right _
  have hkept : (kept.map some).flatMap (children mailbox) = kept.flatMap Folder.subfolders := by
    rw [List.flatMap_map]
    rfl
  simp only [ahead, List.flatten_cons, List.flatMap_append, hkept]
  calc nodesOf (page ++ rest.flatten ++ queued.flatMap (children mailbox) ++ lost.flatMap Folder.subfolders)
      = nodesOf page ++
          nodesOf (rest.flatten ++ queued.flatMap (children mailbox) ++ lost.flatMap Folder.subfolders) := by
        rw [← nodesOf_append, List.append_assoc, List.append_assoc, List.append_assoc]
    _ ~ page ++ nodesOf (page.flatMap Folder.subfolders) ++
          nodesOf (rest.flatten ++ queued.flatMap (children mailbox) ++ lost.flatMap Folder.subfolders) :=
        (nodesOf_perm page).append_right _
    _ = page ++ nodesOf (page.flatMap Folder.subfolders ++
          (rest.flatten ++ queued.flatMap (children mailbox) ++ lost.flatMap Folder.subfolders)) := by
        rw [List.append_assoc, ← nodesOf_append]
    _ ~ page ++ nodesOf (rest.flatten ++ (queued.flatMap (children mailbox) ++ kept.flatMap Folder.subfolders) ++
          (dropped.flatMap Folder.subfolders ++ lost.flatMap Folder.subfolders)) := by
        refine (nodesOf_congr ((hbelow.append_right _).trans ?_)).append_left _
        classical
        refine List.perm_iff_count.mpr fun f => ?_
        simp only [List.count_append]
        omega

theorem Pages.first {url : String} {pages : List (List Folder)} (h : Pages get url pages) :
    ∃ page rest values link next, pages = page :: rest ∧ get url = some ⟨some values, link⟩ ∧
      values.filterMap id = page.map Folder.item ∧ validatedGraphNextLink link = some next ∧ Listing get next rest := by
  rcases h with ⟨hget, hvalues, hlink⟩ | ⟨hget, hvalues, hlink, hrest⟩
  · exact ⟨_, [], _, _, none, rfl, hget, hvalues, hlink, .inl ⟨rfl, rfl⟩⟩
  · exact ⟨_, _, _, _, some _, rfl, hget, hvalues, hlink, .inr ⟨_, rfl, hrest⟩⟩

section Round

variable {rank : ℕ ×ₗ ℕ} {s : State} {found : List Folder} {pages : List (List Folder)}
  {queued : List (Option Folder)} {lost : List Folder}

/-- Some round goes on from here. -/
def Goes (quote : String → String) (get : String → Option Payload) (mailbox : List Folder) (rank : ℕ ×ₗ ℕ)
    (s : State) : Prop :=
  ∃ found pages queued lost, Covers quote get mailbox rank s found pages queued lost

theorem open_listing (hserves : Serves quote get mailbox) (h : Covers quote get mailbox rank s found pages queued lost)
    (hurl : s.url = none) (hqueue : s.queue ≠ []) :
    ∃ rank' < rank, ∃ s', step quote get s = some s' ∧ Goes quote get mailbox rank' s' := by
  have hpages : pages = [] := by
    rcases h.listing with ⟨-, h⟩ | ⟨url, h, -⟩
    · exact h
    · rw [hurl] at h
      cases h
  subst hpages
  rcases queued with - | ⟨p, queued⟩
  · exact absurd h.queue hqueue
  obtain ⟨pages, hpages, hflatten⟩ := hserves.listed p (h.asked p List.mem_cons_self)
  have hahead : ahead mailbox pages queued lost = ahead mailbox [] (p :: queued) lost := by
    rw [ahead, ahead, hflatten, List.flatten_nil, List.nil_append, List.flatMap_cons]
  refine ⟨_, ?_, ⟨some (address quote p), queued.map (address quote), s.rows, s.seenIds⟩, ?_,
    found, pages, queued, lost, ⟨h.rows, h.seenIds, .inr ⟨_, rfl, hpages⟩, rfl,
      fun q hq => h.asked q (List.mem_cons_of_mem p hq), ?_, h.capped, rfl⟩⟩
  · rw [h.rank, hahead, Prod.Lex.toLex_lt_toLex]
    left
    simp only [List.length_cons]
    omega
  · have hs : s = ⟨none, address quote p :: queued.map (address quote), s.rows, s.seenIds⟩ := by
      rw [← hurl, ← List.map_cons, ← h.queue]
    rw [hs, step]
  · rw [hahead]
    exact h.all

theorem read_page (hserves : Serves quote get mailbox) {url : String}
    (h : Covers quote get mailbox rank s found pages queued lost) (hurl : s.url = some url) :
    ∃ rank' < rank, ∃ s', step quote get s = some s' ∧ Goes quote get mailbox rank' s' := by
  have hpages : Pages get url pages := by
    rcases h.listing with ⟨hnone, -⟩ | ⟨url', hsome, hpages⟩
    · rw [hurl] at hnone
      cases hnone
    · rw [hurl] at hsome
      cases hsome
      exact hpages
  obtain ⟨page, rest, values, link, next, rfl, hget, hvalues, hlink, hnext⟩ := hpages.first
  -- the folders of the page are folders of the mailbox that have not been found yet
  obtain ⟨others, hothers⟩ : ∃ others, (found ++ (page ++ others)).Perm (nodesOf mailbox) := by
    refine ⟨rest.flatten ++ queued.flatMap (children mailbox) ++ lost.flatMap Folder.subfolders ++
      nodesOf ((ahead mailbox (page :: rest) queued lost).flatMap Folder.subfolders), ?_⟩
    have hsplit := ((nodesOf_perm (ahead mailbox (page :: rest) queued lost)).append_left found).symm.trans h.all
    conv at hsplit => arg 1; arg 2; arg 1; rw [ahead, List.flatten_cons]
    simpa only [List.append_assoc] using hsplit
  have hmem : ∀ f ∈ page, f ∈ nodesOf mailbox := fun f hf =>
    hothers.mem_iff.mp (List.mem_append_right _ (List.mem_append_left _ hf))
  have hids : (found.map Folder.id ++ (page.map Folder.id ++ others.map Folder.id)).Nodup := by
    have := (hothers.map Folder.id).nodup_iff.mpr hserves.distinct
    rwa [List.map_append, List.map_append] at this
  obtain ⟨-, hpage, hapart⟩ := List.nodup_append.mp hids
  have hnew : ∀ f ∈ page, f.id ∉ s.seenIds := by
    rintro f hf hseen
    rw [h.seenIds] at hseen
    exact hapart _ hseen _ (List.mem_append_left _ (List.mem_map_of_mem hf)) rfl
  obtain ⟨kept, dropped, hparents, hfold, hcap⟩ := visit_page quote hvalues (fun f hf => hserves.named f (hmem f hf))
    hnew (List.nodup_append.mp hpage).1
  have hmove : (nodesOf (ahead mailbox (page :: rest) queued lost)).Perm
      (page ++ nodesOf (ahead mailbox rest (queued ++ kept.map some) (dropped ++ lost))) :=
    page_ahead hparents fun f hf => hserves.counted f (hmem f hf)
  refine ⟨_, ?_, ⟨next, s.queue ++ kept.map fun f => address quote (some f), s.rows ++ page.map Folder.row,
      s.seenIds ++ page.map Folder.id⟩, ?_, found ++ page, rest, queued ++ kept.map some, dropped ++ lost,
    ⟨?_, ?_, hnext, ?_, ?_, ?_, ?_, rfl⟩⟩
  · have hlength := hmove.length_eq
    have hkept := hparents.length_eq
    have hfilter : (parents page).length ≤ page.length := List.length_filter_le _ _
    rw [h.rank, Prod.Lex.toLex_lt_toLex]
    simp only [List.length_append, List.length_map, List.length_cons] at hlength hkept ⊢
    omega
  · rw [step, hurl]
    simp only [hget, hlink, hfold, Option.bind_eq_bind, Option.bind_some, Option.pure_def]
  · rw [h.rows, List.map_append]
  · rw [h.seenIds, List.map_append]
  · rw [h.queue, List.map_append, List.map_map]
    rfl
  · rintro p hp
    rcases List.mem_append.mp hp with hp | hp
    · exact h.asked p hp
    · obtain ⟨f, hf, rfl⟩ := List.mem_map.mp hp
      obtain ⟨hfpage, hcount⟩ := List.mem_filter.mp (hparents.mem_iff.mpr (List.mem_append_left _ hf))
      exact ⟨hmem f hfpage, of_decide_eq_true hcount⟩
  · rw [List.append_assoc]
    exact (hmove.append_left found).symm.trans h.all
  · intro hlost
    rw [List.length_append, List.length_map]
    rcases dropped with - | ⟨f, dropped⟩
    · have := h.capped hlost
      omega
    · exact hcap (List.cons_ne_nil _ _)

theorem round_goes (hserves : Serves quote get mailbox) (hgoes : Goes quote get mailbox rank s)
    (hdone : done s = false) :
    ∃ rank' < rank, ∃ s', step quote get s = some s' ∧ Goes quote get mailbox rank' s' := by
  obtain ⟨found, pages, queued, lost, h⟩ := hgoes
  rcases hurl : s.url with - | url
  · refine open_listing hserves h hurl fun hqueue => ?_
    simp [done, hurl, hqueue] at hdone
  · exact read_page hserves h hurl

end Round

/-- With enough rounds the search returns folders of the mailbox, none twice: all of them, or as many as the cap
    allows. -/
theorem discovers (hserves : Serves quote get mailbox) : ∃ n, ∀ rounds ≥ n, ∃ found : List Folder,
    discoverGraphFolders quote get rounds = some (found.map Folder.row) ∧ found.Subperm (nodesOf mailbox) ∧
    (found.length < maxGraphFolders → found.Perm (nodesOf mailbox)) := by
  have hstart : Covers quote get mailbox (toLex (2 * (nodesOf mailbox).length + 1, 0)) (start quote) [] [] [none] [] :=
    ⟨rfl, rfl, .inl ⟨rfl, rfl⟩, rfl, fun p hp => by rw [List.mem_singleton.mp hp]; trivial,
      by simp [ahead, children], fun h => absurd rfl h, by simp [ahead, children]⟩
  obtain ⟨n, hn⟩ := Loop.run_ranked (Q := Goes quote get mailbox) (fun rank s => round_goes hserves) _ _
    ⟨_, _, _, _, hstart⟩
  refine ⟨n, fun rounds hrounds => ?_⟩
  obtain ⟨rank, s, hrun, ⟨found, pages, queued, lost, h⟩, hdone⟩ := hn rounds hrounds
  refine ⟨found, by rw [discoverGraphFolders, hrun, Option.map_some, h.rows],
    (List.sublist_append_left found _).subperm.trans h.all.subperm, fun hlength => ?_⟩
  have hrows : s.rows.length = found.length := by rw [h.rows, List.length_map]
  have hlost : lost = [] := by
    by_contra hne
    have := h.capped hne
    omega
  simp only [done, Bool.or_eq_true, decide_eq_true_eq, Bool.and_eq_true] at hdone
  rcases hdone with hcap | ⟨hurl, hqueue⟩
  · omega
  have hpages : pages = [] := by
    rcases h.listing with ⟨-, hpages⟩ | ⟨link, hlink, -⟩
    · exact hpages
    · rw [hurl] at hlink
      cases hlink
  have hqueued : queued = [] := List.map_eq_nil_iff.mp (h.queue.symm.trans hqueue)
  have hall := h.all
  rwa [hpages, hqueued, hlost, show ahead mailbox [] [] [] = [] from rfl, nodesOf, List.append_nil] at hall

/-- The rows are folders of the mailbox, none twice. They are all its folders if there are fewer than the cap, and
    at least as many as the cap otherwise. -/
theorem catalog_complete (hserves : Serves quote get mailbox) : ∃ n, ∀ rounds ≥ n, ∃ rows,
    discoverGraphFolders quote get rounds = some rows ∧ (rows.map Row.providerFolderId).Nodup ∧
    (∀ r ∈ rows, ∃ f ∈ nodesOf mailbox, r = f.row) ∧
    ((nodesOf mailbox).length < maxGraphFolders → ∀ f ∈ nodesOf mailbox, f.row ∈ rows) ∧
    (maxGraphFolders ≤ (nodesOf mailbox).length → maxGraphFolders ≤ rows.length) := by
  obtain ⟨n, hn⟩ := discovers hserves
  refine ⟨n, fun rounds hrounds => ?_⟩
  obtain ⟨found, hrun, hfound, hall⟩ := hn rounds hrounds
  refine ⟨_, hrun, ?_, fun r hr => ?_, fun hsmall f hf => ?_, fun hlarge => ?_⟩
  · rw [List.map_map]
    obtain ⟨l, hl, hsub⟩ := hfound
    exact (hl.map Folder.id).nodup_iff.mp ((hsub.map Folder.id).nodup hserves.distinct)
  · obtain ⟨f, hf, rfl⟩ := List.mem_map.mp hr
    exact ⟨f, hfound.subset hf, rfl⟩
  · have hperm := hall (hfound.length_le.trans_lt hsmall)
    exact List.mem_map_of_mem (hperm.mem_iff.mpr hf)
  · rw [List.length_map]
    by_contra hfew
    have hlength := (hall (Nat.lt_of_not_le hfew)).length_eq
    omega

def demoWork : Folder := .mk ⟨"2", "Work", 0⟩ []

def demoInbox : Folder := .mk ⟨"1", "Inbox", 1⟩ [demoWork]

def demoSent : Folder := .mk ⟨"3", "Sent", 0⟩ []

def demoMailbox : List Folder := [demoInbox, demoSent]

/-- The folders at the top on two pages. -/
def demoGet (url : String) : Option Payload :=
  if url = graphFolderUrl id none then some ⟨some [some demoInbox.item, none], some "https://graph.microsoft.com/2"⟩
  else if url = "https://graph.microsoft.com/2" then some ⟨some [some demoSent.item], none⟩
  else if url = graphFolderUrl id (some "1") then some ⟨some [some demoWork.item], none⟩
  else none

theorem demoMailbox_nodes : nodesOf demoMailbox = [demoInbox, demoWork, demoSent] := rfl

theorem demoGet_serves : Serves id demoGet demoMailbox := by
  have hnodes : ∀ f ∈ nodesOf demoMailbox, f = demoInbox ∨ f = demoWork ∨ f = demoSent := by
    rintro f hf
    rw [demoMailbox_nodes] at hf
    simpa only [List.mem_cons, List.not_mem_nil, or_false] using hf
  refine ⟨?_, ?_, by decide, ?_⟩
  · rintro (- | f) hasked
    · have hfirst : demoGet (address id none) =
        some ⟨some [some demoInbox.item, none], some "https://graph.microsoft.com/2"⟩ := by decide
      have hsecond : demoGet "https://graph.microsoft.com/2" = some ⟨some [some demoSent.item], none⟩ := by decide
      exact ⟨[[demoInbox], [demoSent]], .more hfirst rfl (by decide) (.last hsecond rfl rfl), rfl⟩
    · have hwork : demoGet (address id (some demoInbox)) = some ⟨some [some demoWork.item], none⟩ := by decide
      rcases hnodes f hasked.1 with rfl | rfl | rfl
      · exact ⟨[[demoWork]], .last hwork rfl rfl, rfl⟩
      · exact absurd hasked.2 (by decide)
      · exact absurd hasked.2 (by decide)
  · rintro f hf hne
    rcases hnodes f hf with rfl | rfl | rfl
    · decide
    · exact absurd rfl hne
    · exact absurd rfl hne
  · rintro f hf
    rcases hnodes f hf with rfl | rfl | rfl <;> exact ⟨by decide, by decide⟩

theorem catalog_demo : ∃ n, ∀ rounds ≥ n, ∃ rows,
    discoverGraphFolders id demoGet rounds = some rows ∧ (rows.map Row.providerFolderId).Nodup ∧
    (∀ r ∈ rows, ∃ f ∈ nodesOf demoMailbox, r = f.row) ∧
    ((nodesOf demoMailbox).length < maxGraphFolders → ∀ f ∈ nodesOf demoMailbox, f.row ∈ rows) ∧
    (maxGraphFolders ≤ (nodesOf demoMailbox).length → maxGraphFolders ≤ rows.length) :=
  catalog_complete demoGet_serves

end Search

end OneMail.Folders
