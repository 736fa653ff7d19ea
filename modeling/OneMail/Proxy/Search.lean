import OneMail.Lib.Membership
import OneMail.Proxy.Numbers

/-! Searching the proxy's mailbox.

    A query of IMAP is a list of keys, and `NOT`, `OR` and parentheses make keys of keys. Twisted hands it over
    as the list of its words, a group as a nested list and an argument as a word like any other. `search` scans
    the words of the outer list for names of flags. So a name that is not a condition of its own, but stands
    behind `NOT` or `OR` or is the argument of another key, is a stray: the scan takes it for a condition. -/

namespace OneMail.Proxy
open Ordered

/-! ### Queries -/

/-- A word as `search` reads it: decoded text, or a term that is not text. -/
abbrev Term := Option String

/-- The condition that a word stands for to the scan. -/
def flagCondition (term : Term) : Option (String × Bool) :=
  term.bind fun text => SimpleMailbox.flagSearchKeys.lookup text.toUpper

/-- A flag key in one of its spellings. -/
structure FlagKey where
  spelling : String
  condition : String × Bool
  spelled : flagCondition (some spelling) = some condition

/-- `NOT` or `OR` in one of its spellings. -/
structure Operator (name : String) where
  spelling : String
  spelled : spelling.toUpper = name

/-- The name of a key that is about something else than flags. -/
structure OtherName where
  term : Term
  noFlag : flagCondition term = none
  noOperator : ∀ text, term = some text → text.toUpper ≠ "NOT" ∧ text.toUpper ≠ "OR"

inductive SearchKey
  | flag (key : FlagKey)
  | not (name : Operator "NOT") (key : SearchKey)
  | or (name : Operator "OR") (first second : SearchKey)
  | group (keys : List SearchKey)
  | other (name : OtherName) (arguments : List Term)

/-- The message has the flag, or lacks it. -/
def Meets (flags : Finset String) (condition : String × Bool) : Prop := decide (condition.1 ∈ flags) = condition.2

instance (flags : Finset String) (condition : String × Bool) : Decidable (Meets flags condition) :=
  inferInstanceAs (Decidable (_ = _))

mutual

/-- What a key asks of a message; a key that the mailbox cannot evaluate matches every message. -/
def SearchKey.selects (flags : Finset String) : SearchKey → Bool
  | .flag key => decide (Meets flags key.condition)
  | .not _ key => !key.selects flags
  | .or _ first second => first.selects flags || second.selects flags
  | .group keys => selectsAll flags keys
  | .other _ _ => true

/-- All keys of a query match. -/
def selectsAll (flags : Finset String) : List SearchKey → Bool
  | [] => true
  | key :: keys => key.selects flags && selectsAll flags keys

end

def SearchKey.words : SearchKey → List Term
  | .flag key => [some key.spelling]
  | .not name key => some name.spelling :: key.words
  | .or name first second => some name.spelling :: (first.words ++ second.words)
  | .group _ => [none]
  | .other name arguments => name.term :: arguments

/-- The words of a query as `search` gets them. -/
def queryWords (query : List SearchKey) : List Term := query.flatMap SearchKey.words

/-- A plain conjunction of flag keys. -/
def IsPlain (query : List SearchKey) : Prop := ∀ key ∈ query, ∃ k, key = .flag k

/-- The conditions that the scan takes from a key although they are not the key's own. -/
def SearchKey.strays : SearchKey → List (String × Bool)
  | .flag _ | .group _ => []
  | .not _ key => key.words.filterMap flagCondition
  | .or _ first second => (first.words ++ second.words).filterMap flagCondition
  | .other _ arguments => arguments.filterMap flagCondition

/-- Every message that the query matches meets the strays of its keys. -/
def StraysHold (index : List ℕ) (flags : FlagStore) (query : List SearchKey) : Prop :=
  ∀ u ∈ index, selectsAll (flags u) query = true → ∀ key ∈ query, ∀ p ∈ key.strays, Meets (flags u) p

/-! ### The scan -/

theorem flagCondition_operator {name : String} (operator : Operator name) (hname : name = "NOT" ∨ name = "OR") :
    flagCondition (some operator.spelling) = none := by
  rw [flagCondition, Option.bind_some, operator.spelled]
  rcases hname with rfl | rfl <;> decide +kernel

theorem selectsAll_iff {flags : Finset String} : ∀ {query : List SearchKey},
    selectsAll flags query = true ↔ ∀ key ∈ query, key.selects flags = true
  | [] => by simp [selectsAll]
  | key :: query => by rw [selectsAll, Bool.and_eq_true, selectsAll_iff, List.forall_mem_cons]

/-- What the scan takes from a key: its own condition, and its strays. -/
theorem conditions_of_key (key : SearchKey) : key.words.filterMap flagCondition = match key with
    | .flag k => [k.condition]
    | key => key.strays := by
  cases key with
  | flag k => simp [SearchKey.words, k.spelled]
  | not name key =>
    exact List.filterMap_cons_none (flagCondition_operator name (.inl rfl))
  | or name first second =>
    exact List.filterMap_cons_none (flagCondition_operator name (.inr rfl))
  | group keys => rfl
  | other name arguments => exact List.filterMap_cons_none name.noFlag

/-- A message that the query matches passes the scan exactly if it meets all strays. -/
theorem scan_iff {query : List SearchKey} {flags : Finset String} (h : selectsAll flags query = true) :
    (∀ p ∈ (queryWords query).filterMap flagCondition, Meets flags p) ↔
      ∀ key ∈ query, ∀ p ∈ key.strays, Meets flags p := by
  have hkeys : ∀ p, p ∈ (queryWords query).filterMap flagCondition ↔
      ∃ key ∈ query, p ∈ key.words.filterMap flagCondition := by
    intro p
    rw [queryWords, List.filterMap_flatMap, List.mem_flatMap]
  constructor
  · intro hscan key hkey p hp
    refine hscan p ((hkeys p).mpr ⟨key, hkey, ?_⟩)
    rw [conditions_of_key]
    cases key with
    | flag k => cases hp
    | not | or | group | other => exact hp
  · intro hstrays p hp
    obtain ⟨key, hkey, hp⟩ := (hkeys p).mp hp
    rw [conditions_of_key] at hp
    cases key with
    | flag k =>
      obtain rfl := List.mem_singleton.mp hp
      have hmatch := selectsAll_iff.mp h _ hkey
      rw [SearchKey.selects] at hmatch
      exact of_decide_eq_true hmatch
    | not | or | group | other => exact hstrays _ hkey p hp

/-- A message passes the scan of a plain conjunction exactly if that matches it. -/
theorem scan_plain {query : List SearchKey} {flags : Finset String} (h : IsPlain query) :
    (∀ p ∈ (queryWords query).filterMap flagCondition, Meets flags p) ↔ selectsAll flags query = true := by
  constructor
  · intro hscan
    refine selectsAll_iff.mpr fun key hkey => ?_
    obtain ⟨k, rfl⟩ := h key hkey
    rw [SearchKey.selects]
    refine decide_eq_true (hscan k.condition ?_)
    rw [queryWords, List.filterMap_flatMap, List.mem_flatMap]
    exact ⟨_, hkey, by simp [SearchKey.words, k.spelled]⟩
  · intro hmatch
    refine (scan_iff hmatch).mpr fun key hkey p hp => ?_
    obtain ⟨k, rfl⟩ := h key hkey
    cases hp

/-! ### Searches -/

variable {ρ μ : Type}

/-- The number under which a message is reported. -/
def messageNumber (index : List ℕ) (uid : Bool) (u : ℕ) : Option ℕ := if uid then some u else uidToSeq index u

/-- The messages that are reported, by the index that the search works on. -/
theorem search_eq (b : Backend ρ) (flagStore : FlagStore) (box : SimpleMailbox μ) (query : List Term) (uid : Bool) :
    (box.search b flagStore query uid).2 =
      ((box.ensureIndex b flagStore).uidIndex.filter fun u => decide (∀ p ∈ query.filterMap flagCondition,
        Meets ((box.ensureIndex b flagStore).flags u) p)).filterMap
          (messageNumber (box.ensureIndex b flagStore).uidIndex uid) := by
  have hscan : ∀ u, ((query.filterMap flagCondition).all fun p =>
      decide (p.1 ∈ (box.ensureIndex b flagStore).flags u) == p.2) =
        decide (∀ p ∈ query.filterMap flagCondition, Meets ((box.ensureIndex b flagStore).flags u) p) := by
    intro u
    rw [Bool.eq_iff_iff, List.all_eq_true, decide_eq_true_iff]
    exact forall₂_congr fun p _ => beq_iff_eq
  rw [SimpleMailbox.search, show (fun term : Term => term.bind fun term =>
    SimpleMailbox.flagSearchKeys.lookup term.toUpper) = flagCondition from rfl]
  dsimp only
  rw [List.filter_congr fun u _ => hscan u]
  cases uid with
  | true => exact (List.filterMap_some ..).symm
  | false => rfl

/-- The search reports every message that the query matches, and no other if that is a plain conjunction. -/
def Lossless (b : Backend ρ) (flagStore : FlagStore) (box : SimpleMailbox μ) (query : List SearchKey) : Prop :=
  ∀ uid,
    (∀ u ∈ (box.ensureIndex b flagStore).uidIndex,
      selectsAll ((box.ensureIndex b flagStore).flags u) query = true →
        ∃ n, messageNumber (box.ensureIndex b flagStore).uidIndex uid u = some n ∧
          n ∈ (box.search b flagStore (queryWords query) uid).2) ∧
    (IsPlain query → (box.search b flagStore (queryWords query) uid).2 =
      ((box.ensureIndex b flagStore).uidIndex.filter fun u =>
        selectsAll ((box.ensureIndex b flagStore).flags u) query).filterMap
          (messageNumber (box.ensureIndex b flagStore).uidIndex uid))

theorem messageNumber_total {index : List ℕ} {u : ℕ} (hindex : Ascending id index) (hu : u ∈ index) (uid : Bool) :
    ∃ n, messageNumber index uid u = some n := by
  cases uid with
  | true => exact ⟨u, rfl⟩
  | false =>
    obtain ⟨n, hn⟩ := exists_seq hu
    exact ⟨n, (uidToSeq_eq_some hindex).mpr hn⟩

theorem ensureIndex_ascending {b : Backend ρ} {flagStore : FlagStore} {box : SimpleMailbox μ}
    (h : box.uidIndexBuilt = true → Ascending id box.uidIndex) :
    Ascending id (box.ensureIndex b flagStore).uidIndex := by
  rcases ensureIndex_spec b flagStore box with ⟨hbuilt, heq⟩ | ⟨-, hbuilt⟩
  · rw [heq]
    exact h hbuilt
  · rw [hbuilt.index]
    exact b.ids_ascending

/-- A search loses no match exactly if every message that the query matches meets its strays. -/
theorem search_lossless (b : Backend ρ) (flagStore : FlagStore) (box : SimpleMailbox μ) (query : List SearchKey)
    (h : box.uidIndexBuilt = true → Ascending id box.uidIndex) :
    Lossless b flagStore box query ↔
      StraysHold (box.ensureIndex b flagStore).uidIndex (box.ensureIndex b flagStore).flags query := by
  have hindex := @ensureIndex_ascending _ _ b flagStore _ h
  constructor
  · intro hlossless u hu hmatch
    obtain ⟨n, hn, hmem⟩ := (hlossless true).1 u hu hmatch
    obtain rfl : u = n := Option.some.inj hn
    rw [search_eq] at hmem
    obtain ⟨u', hu', hnum⟩ := List.mem_filterMap.mp hmem
    obtain rfl : u' = u := Option.some.inj hnum
    exact (scan_iff hmatch).mp (of_decide_eq_true (List.mem_filter.mp hu').2)
  · intro hstrays uid
    rw [search_eq]
    refine ⟨fun u hu hmatch => ?_, fun hplain => ?_⟩
    · obtain ⟨n, hn⟩ := messageNumber_total hindex hu uid
      refine ⟨n, hn, List.mem_filterMap.mpr ⟨u, List.mem_filter.mpr ⟨hu, ?_⟩, hn⟩⟩
      exact decide_eq_true ((scan_iff hmatch).mpr (hstrays u hu hmatch))
    · refine congrArg _ (List.filter_congr fun u _ => ?_)
      rw [Bool.eq_iff_iff, decide_eq_true_iff]
      exact scan_plain hplain

/-! ### A negation -/

def emptyBackend : Backend ℕ := ⟨[], 0, .nil, fun _ h => nomatch h⟩

/-- One message without flags. -/
def unreadBox : SimpleMailbox ℕ := ⟨0, [1], fun _ => ∅, [], true⟩

def notSeen : List SearchKey :=
  [.not ⟨"NOT", by decide +kernel⟩ (.flag ⟨"SEEN", ("\\Seen", true), by decide +kernel⟩)]

theorem search_lossless_unread : Lossless emptyBackend (fun _ => ∅) unreadBox
    [.flag ⟨"UNSEEN", ("\\Seen", false), by decide +kernel⟩] :=
  (search_lossless emptyBackend (fun _ => ∅) unreadBox _ fun _ => List.pairwise_singleton _ _).mpr
    fun _ _ _ key hkey p hp => by
      obtain rfl := List.mem_singleton.mp hkey
      cases hp

/-- `NOT SEEN` is searched as `SEEN`. -/
theorem negated_key_dropped : ¬ Lossless emptyBackend (fun _ => ∅) unreadBox notSeen := fun h => by
  obtain ⟨n, -, hmem⟩ := (h true).1 1 (by decide) (by decide)
  have hnone : (unreadBox.search emptyBackend (fun _ => ∅) (queryWords notSeen) true).2 = [] := by decide +kernel
  rw [hnone] at hmem
  cases hmem

end OneMail.Proxy
