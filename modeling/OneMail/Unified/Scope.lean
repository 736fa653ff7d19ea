import OneMail.Unified.Auth

/-! When the list scope of an API key is its row scope.

    `canAccessRow` asks that a column is an entry of the whitelist. The list endpoints join the
    whitelist with commas and split it again, which drops blank entries, trims padded ones and cuts at
    the commas inside an entry: a whitelist of blanks ends as no clause at all. The two agree exactly
    when every part of the joined whitelist is one of its entries (`Faithful`). -/

namespace OneMail.Unified
open JsString

/-! ### One dimension -/

/-- The whitelist survives the way through `join` and `split`. -/
def Faithful (list : Option (List Json)) : Prop :=
  ∀ items v, list = some items → items ≠ [] → joinComma items = some v → inWhitelist list (some v) = true

/-- No request passes the whitelist: `join` throws, and no entry can be asked for by name. -/
def Blocked (list : Option (List Json)) : Prop :=
  ∃ items, list = some items ∧ items ≠ [] ∧ joinComma items = none ∧
    ∀ p, includes items p = true → parts p ≠ [p]

/-- An accepted request with parameter `v` selects a row with value `col`. -/
def Serves (list : Option (List Json)) (v col : Option JsString) : Prop :=
  inWhitelist list v = true ∧ ∃ v', scopeParam list v = some v' ∧
    (parts (v'.getD []) = [] ∨ ∃ part ∈ parts (v'.getD []), col = some part)

variable {list : Option (List Json)} {items : List Json} {v col : Option JsString}

/-- A row passes a whitelist by a value whose parts are entries. -/
theorem inWhitelistRow_some {s : JsString} (hne : items ≠ []) :
    inWhitelistRow (some items) (some s) = inWhitelist (some items) (some s) := by
  rcases items with _ | ⟨item, items⟩
  · exact absurd rfl hne
  · rfl

/-- A whitelist that is null or empty restricts nothing. -/
theorem inWhitelistRow_open (h : ∀ items, list = some items → items = []) :
    inWhitelistRow list col = true := by
  rcases list with _ | _ | ⟨item, items⟩
  · rfl
  · rfl
  · cases h _ rfl

theorem scopeParam_given (hv : truthy v = true) : scopeParam list v = some v := by
  rcases list with _ | _ | ⟨item, items⟩
  · rfl
  · rfl
  · exact if_pos hv

theorem scopeParam_absent (hne : items ≠ []) :
    scopeParam (some items) none = (joinComma items).map some := by
  rcases items with _ | ⟨item, items⟩
  · exact absurd rfl hne
  · rfl

/-- The value of a selected row, when the parts of the parameter are all entries. -/
theorem row_of_parts {s : JsString} (hne : items ≠ []) (hs : inWhitelist (some items) (some s) = true)
    (hcol : parts s = [] ∨ ∃ part ∈ parts s, col = some part) :
    inWhitelistRow (some items) col = true := by
  obtain ⟨hparts, hall⟩ := (inWhitelist_some hne).mp hs
  rcases hcol with hnil | ⟨part, hpart, rfl⟩
  · exact absurd hnil hparts
  · rw [inWhitelistRow_some hne, inWhitelist_some hne, parts_part hpart]
    simpa using hall part hpart

theorem truthy_accepted {s : JsString} (hne : items ≠ [])
    (h : inWhitelist (some items) (some s) = true) : truthy (some s) = true := by
  have hparts := ((inWhitelist_some hne).mp h).1
  simp only [truthy, Option.getD_some, decide_eq_true_eq]
  rintro rfl
  exact hparts parts_nil

theorem serves_row (hf : Faithful list) (h : Serves list v col) : inWhitelistRow list col = true := by
  obtain ⟨haccess, v', hv', hcol⟩ := h
  by_cases hopen : ∀ items, list = some items → items = []
  · exact inWhitelistRow_open hopen
  push Not at hopen
  obtain ⟨items, rfl, hne⟩ := hopen
  rcases v with _ | s
  · -- the whitelist itself is the parameter
    rw [scopeParam_absent hne] at hv'
    obtain ⟨j, hj, rfl⟩ := Option.map_eq_some_iff.mp hv'
    exact row_of_parts hne (hf items j rfl hne hj) hcol
  · rw [scopeParam_given (truthy_accepted hne haccess)] at hv'
    cases hv'
    exact row_of_parts hne haccess hcol

theorem serves_live (h : ¬ Blocked list) : ∃ v col, Serves list v col := by
  by_cases hopen : ∀ items, list = some items → items = []
  · refine ⟨none, none, ?_, none, ?_, .inl parts_nil⟩
    all_goals
      rcases list with _ | _ | ⟨item, items⟩
      · rfl
      · rfl
      · cases hopen _ rfl
  push Not at hopen
  obtain ⟨items, rfl, hne⟩ := hopen
  have hnone : inWhitelist (some items) none = true := by
    rcases items with _ | ⟨item, items⟩ <;> rfl
  rcases hj : joinComma items with _ | j
  · -- an entry that is its own only part can be asked for by name
    unfold Blocked at h
    push Not at h
    obtain ⟨p, hp, hpart⟩ := h items rfl hne hj
    have haccess : inWhitelist (some items) (some p) = true := by
      rw [inWhitelist_some hne, hpart]
      simpa using hp
    refine ⟨some p, some p, haccess, some p, scopeParam_given (truthy_accepted hne haccess), .inr ?_⟩
    exact ⟨p, by rw [Option.getD_some, hpart]; exact List.mem_cons_self, rfl⟩
  · rcases hparts : parts j with _ | ⟨p, ps⟩
    · refine ⟨none, none, hnone, some j, by rw [scopeParam_absent hne, hj]; rfl, .inl hparts⟩
    · refine ⟨none, some p, hnone, some j, by rw [scopeParam_absent hne, hj]; rfl, .inr ⟨p, ?_, rfl⟩⟩
      rw [Option.getD_some, hparts]
      exact List.mem_cons_self

theorem serves_blocked (h : Blocked list) : ¬ Serves list v col := by
  obtain ⟨items, rfl, hne, hj, hnamed⟩ := h
  rintro ⟨haccess, v', hv', -⟩
  rcases v with _ | s
  · rw [scopeParam_absent hne, hj] at hv'
    cases hv'
  · obtain ⟨hparts, hall⟩ := (inWhitelist_some hne).mp haccess
    obtain ⟨p, hp⟩ := List.exists_mem_of_ne_nil _ hparts
    exact hnamed p (hall p hp) (parts_part hp)

/-- A whitelist that is not faithful serves a row outside of it to a request without parameters. -/
theorem serves_beyond (h : ¬ Faithful list) : ∃ v col, Serves list v col ∧
    inWhitelistRow list col = false := by
  unfold Faithful at h
  push Not at h
  obtain ⟨items, j, rfl, hne, hj, hbad⟩ := h
  have hnone : inWhitelist (some items) none = true := by
    rcases items with _ | ⟨item, items⟩ <;> rfl
  have hparam : scopeParam (some items) none = some (some j) := by rw [scopeParam_absent hne, hj]; rfl
  rw [Ne, inWhitelist_some hne] at hbad
  by_cases hparts : parts j = []
  · refine ⟨none, none, ⟨hnone, some j, hparam, .inl hparts⟩, ?_⟩
    rcases items with _ | ⟨item, items⟩
    · exact absurd rfl hne
    · rfl
  · push Not at hbad
    obtain ⟨p, hp, hout⟩ := hbad hparts
    refine ⟨none, some p, ⟨hnone, some j, hparam, .inr ⟨p, hp, rfl⟩⟩, ?_⟩
    rw [inWhitelistRow_some hne, ← Bool.not_eq_true, inWhitelist_some hne, parts_part hp]
    simpa using hout

/-! ### The list of a key -/

/-- Every row that an accepted request selects is one the key may read. -/
def Confined (key : ApiKeyRow) : Prop :=
  ∀ (e : Engine) (q : Query) (clauses : List Clause) (row : EmailRow),
    canAccess key true q.source q.accountId = true → resolveScopedEmailFilter (.apiKey key) q = some clauses →
      selects e clauses row = true → canAccessRow key row.source row.accountId = true

variable {key : ApiKeyRow}

theorem canAccess_readonly (hrole : key.role = .readonly) (source accountId : Option JsString) :
    canAccess key true source accountId = true ↔
      inWhitelist (parseList key.allowedSources) source = true ∧
        inWhitelist (parseList key.allowedAccounts) accountId = true := by
  simp [canAccess, hrole]

theorem canAccessRow_readonly (hrole : key.role = .readonly) (source accountId : Option JsString) :
    canAccessRow key source accountId = true ↔
      inWhitelistRow (parseList key.allowedSources) source = true ∧
        inWhitelistRow (parseList key.allowedAccounts) accountId = true := by
  simp [canAccessRow, hrole]

/-- A selected row was served in both dimensions. -/
theorem selected_serves (hrole : key.role = .readonly) {e : Engine} {q : Query} {clauses : List Clause}
    {row : EmailRow} (haccess : canAccess key true q.source q.accountId = true)
    (hfilter : resolveScopedEmailFilter (.apiKey key) q = some clauses) (hrow : selects e clauses row = true) :
    Serves (parseList key.allowedSources) q.source row.source ∧
      Serves (parseList key.allowedAccounts) q.accountId row.accountId := by
  obtain ⟨hsource, haccount⟩ := (canAccess_readonly hrole _ _).mp haccess
  simp only [resolveScopedEmailFilter] at hfilter
  split at hfilter
  · cases hfilter
    simp [selects, Clause.holds] at hrow
  · obtain ⟨q', hq', rfl⟩ := Option.map_eq_some_iff.mp hfilter
    rw [scopeQuery, if_neg (by rw [hrole]; decide)] at hq'
    obtain ⟨source, hs, hq'⟩ := Option.bind_eq_some_iff.mp hq'
    obtain ⟨accountId, ha, hq'⟩ := Option.bind_eq_some_iff.mp hq'
    cases hq'
    simp only [buildEmailFilters, selects_append, Bool.and_eq_true] at hrow
    exact ⟨⟨hsource, source, hs, selects_given.mp hrow.1.1.1.1.1.1.1.1.1⟩,
      ⟨haccount, accountId, ha, selects_given.mp hrow.1.1.1.1.1.1.1.1.2⟩⟩

/-- A request with only these two parameters, and a row with only these two columns. -/
def scopeOnly (source accountId : Option JsString) : Query := { Query.empty with source, accountId }

def plainRow (source accountId : Option JsString) : EmailRow :=
  ⟨js "id", source, accountId, none, none, none, none, 0, none, 0, none, none, none⟩

theorem serves_selected (hrole : key.role = .readonly) (e : Engine)
    {source accountId rowSource rowAccount : Option JsString}
    (hs : Serves (parseList key.allowedSources) source rowSource)
    (ha : Serves (parseList key.allowedAccounts) accountId rowAccount) :
    canAccess key true source accountId = true ∧ ∃ clauses,
      resolveScopedEmailFilter (.apiKey key) (scopeOnly source accountId) = some clauses ∧
        selects e clauses (plainRow rowSource rowAccount) = true := by
  obtain ⟨hsource, source', hs', hrs⟩ := hs
  obtain ⟨haccount, accountId', ha', hra⟩ := ha
  refine ⟨(canAccess_readonly hrole _ _).mpr ⟨hsource, haccount⟩,
    buildEmailFilters (scopeOnly source' accountId'), ?_, ?_⟩
  · rw [resolveScopedEmailFilter, if_neg (by simp [scopeOnly, Query.empty, JsString.truthy]), scopeQuery,
      if_neg (by rw [hrole]; decide)]
    simp [scopeOnly, hs', ha']
  · have hgiven : selects e (given source' (inClause .source)) (plainRow rowSource rowAccount) = true :=
      selects_given.mpr hrs
    have hgiven' : selects e (given accountId' (inClause .accountId)) (plainRow rowSource rowAccount)
        = true := selects_given.mpr hra
    simp only [buildEmailFilters, selects_append, Bool.and_eq_true, scopeOnly, Query.empty]
    exact ⟨⟨⟨⟨⟨⟨⟨⟨⟨hgiven, hgiven'⟩, rfl⟩, rfl⟩, rfl⟩, rfl⟩, rfl⟩, rfl⟩, rfl⟩, rfl⟩

/-- A key that `createKey` stores for a reader is confined to its whitelists exactly when each of them
    is faithful, or one of them serves no request at all. -/
theorem scope_confined_iff (allowedSources allowedAccounts : Option Json) :
    Confined (createKey false allowedSources allowedAccounts) ↔
      Blocked (parseList (storedList allowedSources)) ∨ Blocked (parseList (storedList allowedAccounts)) ∨
        Faithful (parseList (storedList allowedSources)) ∧
          Faithful (parseList (storedList allowedAccounts)) := by
  have hrole : (createKey false allowedSources allowedAccounts).role = .readonly := rfl
  constructor
  · intro hconf
    by_contra hno
    simp only [not_or, not_and] at hno
    obtain ⟨hliveS, hliveA, hunfaithful⟩ := hno
    have e : Engine := ⟨fun _ _ => false, fun _ _ => false, fun _ _ => false⟩
    -- a dimension that is not faithful serves a row outside of it, the other one serves some row
    by_cases hf : Faithful (parseList (storedList allowedSources))
    · obtain ⟨v, col, hserves⟩ := serves_live hliveS
      obtain ⟨v', col', hserves', hbad⟩ := serves_beyond (hunfaithful hf)
      obtain ⟨haccess, clauses, hfilter, hrow⟩ := serves_selected hrole e hserves hserves'
      have hok := (canAccessRow_readonly hrole _ _).mp (hconf e _ clauses _ haccess hfilter hrow)
      exact Bool.false_ne_true (hbad.symm.trans hok.2)
    · obtain ⟨v, col, hserves, hbad⟩ := serves_beyond hf
      obtain ⟨v', col', hserves'⟩ := serves_live hliveA
      obtain ⟨haccess, clauses, hfilter, hrow⟩ := serves_selected hrole e hserves hserves'
      have hok := (canAccessRow_readonly hrole _ _).mp (hconf e _ clauses _ haccess hfilter hrow)
      exact Bool.false_ne_true (hbad.symm.trans hok.1)
  · intro hcond e q clauses row haccess hfilter hrow
    obtain ⟨hs, ha⟩ := selected_serves hrole haccess hfilter hrow
    rcases hcond with hblocked | hblocked | ⟨hfs, hfa⟩
    · exact absurd hs (serves_blocked hblocked)
    · exact absurd ha (serves_blocked hblocked)
    · exact (canAccessRow_readonly hrole _ _).mpr ⟨serves_row hfs hs, serves_row hfa ha⟩

/-- A whitelist of one blank source serves every row. -/
theorem blank_whitelist_unrestricted :
    ¬ ∀ allowedSources allowedAccounts : Option Json,
      Confined (createKey false allowedSources allowedAccounts) := by
  intro hall
  have hrow := hall (some (.array [.string (js " ")])) none ⟨fun _ _ => false, fun _ _ => false,
    fun _ _ => false⟩ Query.empty [] (plainRow (some (js "imap_qq")) none) (by decide) rfl rfl
  revert hrow
  decide

end OneMail.Unified
