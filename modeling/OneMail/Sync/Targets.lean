import OneMail.Lib.Membership
import OneMail.Sync.Folders

/-! The folders that an account is configured to read (`_resolve_graph_folder_targets`).

    A well-known name and an id stand for themselves. Any other text is the display name of one folder, which is
    looked up in the catalog. In a mailbox below the cap it is found exactly if there is one such folder. -/

namespace OneMail.Folders

/-- Python's `str.strip` and `str.lower`, and `"".join(s.split())`. -/
structure Texts where
  strip : String → String
  lower : String → String
  joined : String → String

def graphWellKnown : List (String × String) :=
  [("inbox", "inbox"), ("draft", "drafts"), ("drafts", "drafts"), ("sent", "sentitems"), ("sentitem", "sentitems"),
    ("sentitems", "sentitems"), ("deleted", "deleteditems"), ("deleteditem", "deleteditems"),
    ("deleteditems", "deleteditems"), ("trash", "deleteditems"), ("archive", "archive"), ("junk", "junkemail"),
    ("junkemail", "junkemail"), ("spam", "junkemail"), ("outbox", "outbox")]

/-- What the function raises; `search` is what a request or a page of the discovery raised. -/
inductive TargetError
  | emptyName
  | emptyId
  | search
  | notFound (logical : String)
  | ambiguous (logical : String) (matched : ℕ)
  deriving DecidableEq

/-- A configured text, and the id of its folder; no id for a well-known name, and an empty one while it is to be
    looked up. -/
structure Target where
  logical : String
  ref : Option String
  deriving DecidableEq

variable (py : Texts)

def wellKnownFolderRef (folder : String) : Option String :=
  graphWellKnown.lookup (py.joined (py.lower (py.strip folder)))

/-- The body of the loop over the configured folders. -/
def target (folder : String) : Except TargetError Target :=
  let value := py.strip folder
  if value = "" then .error .emptyName
  else if (wellKnownFolderRef py value).isSome then .ok ⟨value, none⟩
  else if "id:".toList.isPrefixOf (py.lower value).toList then
    let folderId := py.strip (String.ofList (value.toList.drop 3))
    if folderId = "" then .error .emptyId else .ok ⟨value, some folderId⟩
  else .ok ⟨value, some ""⟩

/-- `by_name.get(name, [])`; the texts of a row are stripped already. -/
def byName (rows : List Row) (name : String) : List String :=
  (rows.filter fun r => r.displayName ≠ "" ∧ r.providerFolderId ≠ "" ∧ py.lower r.displayName = name).map
    Row.providerFolderId

/-- The body of the second loop. -/
def resolve (rows : List Row) (t : Target) : Except TargetError Target :=
  if t.ref ≠ some "" then .ok t
  else match (byName py rows (py.lower t.logical)).eraseDups with
    | [] => .error (.notFound t.logical)
    | [folderId] => .ok ⟨t.logical, some folderId⟩
    | ids => .error (.ambiguous t.logical ids.length)

def resolveGraphFolderTargets (quote : String → String) (get : String → Option Payload) (rounds : ℕ)
    (folders : List String) : Except TargetError (List Target × Option (List Row)) := do
  let targets ← folders.mapM (target py)
  if ∀ t ∈ targets, t.ref ≠ some "" then return (targets, none)
  match discoverGraphFolders quote get rounds with
  | none => throw .search
  | some rows => return (← targets.mapM (resolve py rows), some rows)

/-- What a configured text stands for in a mailbox. -/
def StandsFor (mailbox : List Folder) (folder : String) (t : Target) : Prop :=
  (target py folder = .ok t ∧ t.ref ≠ some "") ∨
    (target py folder = .ok ⟨t.logical, some ""⟩ ∧ ∃ f ∈ nodesOf mailbox, t.ref = some f.id ∧
      ∀ g ∈ nodesOf mailbox, py.lower g.item.displayName = py.lower t.logical ↔ g = f)

section Lists

variable {α β γ ε : Type}

theorem mapM_ok {f : α → Except ε β} {l : List α} {ys : List β} :
    l.mapM f = .ok ys ↔ List.Forall₂ (fun x y => f x = .ok y) l ys := by
  induction l generalizing ys with
  | nil =>
    rw [List.mapM_nil, List.forall₂_nil_left_iff]
    exact ⟨fun h => (Except.ok.inj h).symm, fun h => by rw [h]; rfl⟩
  | cons x l ih =>
    rw [List.mapM_cons, List.forall₂_cons_left_iff]
    rcases hx : f x with e | y
    · refine iff_of_false (fun h => nomatch h) ?_
      rintro ⟨y, zs, h, -⟩
      cases h
    · rcases hl : l.mapM f with e | zs
      · refine iff_of_false (fun h => nomatch h) ?_
        rintro ⟨y, zs, -, h, -⟩
        rw [ih.mpr h] at hl
        cases hl
      · refine ⟨fun h => ⟨y, zs, rfl, ih.mp hl, (Except.ok.inj h).symm⟩, ?_⟩
        rintro ⟨y', zs', hy, hzs, rfl⟩
        cases hy
        rw [ih.mpr hzs] at hl
        cases hl
        rfl

theorem forall₂_comp {R : α → β → Prop} {S : β → γ → Prop} {xs : List α} {zs : List γ} :
    (∃ ys, List.Forall₂ R xs ys ∧ List.Forall₂ S ys zs) ↔ List.Forall₂ (fun x z => ∃ y, R x y ∧ S y z) xs zs := by
  constructor
  · rintro ⟨ys, hR, hS⟩
    induction hR generalizing zs with
    | nil =>
      cases hS
      exact .nil
    | cons hR _ ih =>
      cases hS with
      | cons hS hrest => exact .cons ⟨_, hR, hS⟩ (ih hrest)
  · intro h
    induction h with
    | nil => exact ⟨[], .nil, .nil⟩
    | cons h _ ih =>
      obtain ⟨y, hR, hS⟩ := h
      obtain ⟨ys, hRs, hSs⟩ := ih
      exact ⟨y :: ys, .cons hR hRs, .cons hS hSs⟩

/-- One value, however often. -/
theorem eraseDups_eq_singleton {xs : List String} {a : String} : xs.eraseDups = [a] ↔ a ∈ xs ∧ ∀ b ∈ xs, b = a := by
  constructor
  · intro h
    refine ⟨List.mem_eraseDups.mp (by rw [h]; exact List.mem_singleton_self a), fun b hb => ?_⟩
    have hmem := List.mem_eraseDups.mpr hb
    rw [h] at hmem
    exact List.mem_singleton.mp hmem
  · rintro ⟨hmem, hall⟩
    rcases xs with - | ⟨b, xs⟩
    · cases hmem
    · have hrest : xs.filter (fun c => !c == b) = [] := by
        refine List.filter_eq_nil_iff.mpr fun c hc => ?_
        rw [hall b List.mem_cons_self, hall c (List.mem_cons_of_mem b hc), beq_self_eq_true]
        exact Bool.false_ne_true
      rw [List.eraseDups_cons, hrest, List.eraseDups_nil, hall b List.mem_cons_self]

end Lists

section Resolution

variable {py} {quote : String → String} {get : String → Option Payload} {mailbox : List Folder}

theorem resolve_plain {rows : List Row} {t : Target} (h : t.ref ≠ some "") : resolve py rows t = .ok t := if_pos h

theorem resolve_name {rows : List Row} {logical : String} {t : Target} :
    resolve py rows ⟨logical, some ""⟩ = .ok t ↔
      t.logical = logical ∧ ∃ a, t.ref = some a ∧ (byName py rows (py.lower logical)).eraseDups = [a] := by
  rw [resolve, if_neg (not_not.mpr rfl)]
  rcases t with ⟨logical', ref⟩
  split
  · rename_i h
    refine iff_of_false (fun h => nomatch h) ?_
    rintro ⟨-, a, -, ha⟩
    rw [h] at ha
    cases ha
  · rename_i a h
    rw [Except.ok.injEq, Target.mk.injEq, h]
    constructor
    · rintro ⟨rfl, rfl⟩
      exact ⟨rfl, a, rfl, rfl⟩
    · rintro ⟨rfl, b, hb, hab⟩
      cases hab
      exact ⟨rfl, hb.symm⟩
  · rename_i hone
    refine iff_of_false (fun h => nomatch h) ?_
    rintro ⟨-, a, -, ha⟩
    exact hone a ha

/-- The catalog of the whole mailbox has the ids of the folders of a name. -/
theorem mem_byName {found : List Folder} (hserves : Serves quote get mailbox) (hfound : found.Perm (nodesOf mailbox))
    {name a : String} : a ∈ byName py (found.map Folder.row) name ↔
      ∃ f ∈ nodesOf mailbox, py.lower f.item.displayName = name ∧ f.id = a := by
  simp only [byName, List.mem_map, List.mem_filter, decide_eq_true_eq]
  constructor
  · rintro ⟨r, ⟨⟨f, hf, rfl⟩, -, -, hname⟩, rfl⟩
    exact ⟨f, hfound.mem_iff.mp hf, hname, rfl⟩
  · rintro ⟨f, hf, hname, rfl⟩
    obtain ⟨hid, hdisplay⟩ := hserves.named f hf
    exact ⟨f.row, ⟨⟨f, hfound.mem_iff.mpr hf, rfl⟩, hdisplay, hid, hname⟩, rfl⟩

theorem standsFor_iff {found : List Folder} (hserves : Serves quote get mailbox) (hfound : found.Perm (nodesOf mailbox))
    {folder : String} {t : Target} : (∃ u, target py folder = .ok u ∧ resolve py (found.map Folder.row) u = .ok t) ↔
      StandsFor py mailbox folder t := by
  have hsame : ∀ f ∈ nodesOf mailbox, ∀ g ∈ nodesOf mailbox, f.id = g.id → f = g := fun f hf g hg =>
    List.inj_on_of_nodup_map hserves.distinct hf hg
  constructor
  · rintro ⟨⟨logical, ref⟩, hu, ht⟩
    by_cases href : ref = some ""
    · subst href
      obtain ⟨rfl, a, ha, hone⟩ := resolve_name.mp ht
      obtain ⟨hmem, honly⟩ := eraseDups_eq_singleton.mp hone
      obtain ⟨f, hf, hname, rfl⟩ := (mem_byName hserves hfound).mp hmem
      refine .inr ⟨hu, f, hf, ha, fun g hg => ⟨fun hg' => ?_, fun hg' => by rw [hg', hname]⟩⟩
      exact hsame g hg f hf (honly _ ((mem_byName hserves hfound).mpr ⟨g, hg, hg', rfl⟩))
    · rw [resolve_plain href] at ht
      cases ht
      exact .inl ⟨hu, href⟩
  · rintro (⟨hu, href⟩ | ⟨hu, f, hf, href, honly⟩)
    · exact ⟨t, hu, resolve_plain href⟩
    · refine ⟨_, hu, resolve_name.mpr ⟨rfl, f.id, href, eraseDups_eq_singleton.mpr ⟨?_, fun b hb => ?_⟩⟩⟩
      · exact (mem_byName hserves hfound).mpr ⟨f, hf, (honly f hf).mpr rfl, rfl⟩
      · obtain ⟨g, hg, hname, rfl⟩ := (mem_byName hserves hfound).mp hb
        rw [(honly g hg).mp hname]

theorem resolves {rounds : ℕ} {folders : List String} {ts : List Target} {rows : List Row}
    (hts : folders.mapM (target py) = .ok ts) (hrun : discoverGraphFolders quote get rounds = some rows) :
    resolveGraphFolderTargets py quote get rounds folders = if ∀ t ∈ ts, t.ref ≠ some "" then .ok (ts, none)
      else (ts.mapM (resolve py rows)).map fun targets => (targets, some rows) := by
  rw [resolveGraphFolderTargets, hts]
  refine if_congr Iff.rfl rfl ?_
  rw [hrun]
  change (ts.mapM (resolve py rows) >>= fun targets => pure (targets, some rows)) = _
  rcases ts.mapM (resolve py rows) with e | targets <;> rfl

/-- Without a name to look up the second loop changes nothing. -/
theorem resolves_ok {rounds : ℕ} {folders : List String} {rows : List Row} {targets : List Target}
    (hrun : discoverGraphFolders quote get rounds = some rows) :
    (∃ rows', resolveGraphFolderTargets py quote get rounds folders = .ok (targets, rows')) ↔
      ∃ ts, folders.mapM (target py) = .ok ts ∧ ts.mapM (resolve py rows) = .ok targets := by
  rcases hts : folders.mapM (target py) with e | ts
  · refine iff_of_false ?_ ?_
    · rintro ⟨rows', h⟩
      rw [resolveGraphFolderTargets, hts] at h
      cases h
    · rintro ⟨ts, h, -⟩
      cases h
  · rw [resolves hts hrun]
    split
    · rename_i hplain
      have hsame : ts.mapM (resolve py rows) = .ok ts :=
        mapM_ok.mpr (List.forall₂_same.mpr fun t ht => resolve_plain (hplain t ht))
      constructor
      · rintro ⟨rows', h⟩
        cases h
        exact ⟨_, rfl, hsame⟩
      · rintro ⟨us, hus, h⟩
        cases hus
        rw [hsame] at h
        cases h
        exact ⟨none, rfl⟩
    · constructor
      · rintro ⟨rows', h⟩
        rcases hmap : ts.mapM (resolve py rows) with e | us
        · rw [hmap] at h
          cases h
        · rw [hmap] at h
          cases h
          exact ⟨ts, rfl, hmap⟩
      · rintro ⟨us, hus, h⟩
        cases hus
        exact ⟨some rows, by rw [h]; rfl⟩

/-- Below the cap the configured folders are resolved exactly to what they stand for. -/
theorem targets_resolve (hserves : Serves quote get mailbox) (hsmall : (nodesOf mailbox).length < maxGraphFolders) :
    ∃ n, ∀ rounds ≥ n, ∀ folders targets,
      (∃ rows, resolveGraphFolderTargets py quote get rounds folders = .ok (targets, rows)) ↔
        List.Forall₂ (StandsFor py mailbox) folders targets := by
  obtain ⟨n, hn⟩ := discovers hserves
  refine ⟨n, fun rounds hrounds folders targets => ?_⟩
  obtain ⟨found, hrun, hsub, hall⟩ := hn rounds hrounds
  have hfound := hall (hsub.length_le.trans_lt hsmall)
  rw [resolves_ok hrun]
  simp only [mapM_ok]
  rw [forall₂_comp]
  simp only [standsFor_iff hserves hfound]

/-- The methods on ASCII texts. -/
def asciiTexts : Texts where
  strip s := String.ofList ((s.toList.dropWhile Char.isWhitespace).reverse.dropWhile Char.isWhitespace).reverse
  lower := String.toLower
  joined s := String.ofList (s.toList.filter (!·.isWhitespace))

theorem targets_demo : ∃ n, ∀ rounds ≥ n, ∀ folders targets,
    (∃ rows, resolveGraphFolderTargets asciiTexts id demoGet rounds folders = .ok (targets, rows)) ↔
      List.Forall₂ (StandsFor asciiTexts demoMailbox) folders targets :=
  targets_resolve demoGet_serves (by decide)

end Resolution

end OneMail.Folders
