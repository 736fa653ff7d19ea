import OneMail.Binding.Requests

/-! When the ownership of an address changes only by its owner.

    A transfer checks the requester's binding in an early round trip and deletes the address by its id in a
    late one; a bind checks the address early and inserts late. As long as no batch meets the binding of
    another user, and no INSERT an address that is gone, nobody loses a name to a foreign request. -/

namespace OneMail.Binding
open JsString Interleave Table
open Accounts (AddressRow BindingRow external)

variable {s s' : Store} {c c' : Call} {ev : List Event} {w : World Store Call Event}

/-- Whose name an unbind or a transfer may take. -/
def Call.owner : Call → Option ℕ
  | .unbindDelete r => some r.user
  | .transferBatch t _ _ => some t.user
  | _ => none

/-- A step of a request takes a name only from its own user, a transfer that succeeds leaves the name with its
    target alone, and a step that does not answer success changes no ownership. -/
structure Lawful (s : Store) (c : Call) (s' : Store) (ev : List Event) : Prop where
  byOwner : ∀ user name, Owns s user name → ¬ Owns s' user name → c.owner = some user
  handedOver : ∀ t name target, c = .transferBatch t name target → .succeeded ∈ ev →
    ∀ user, Owns s' user name ↔ user = target
  unchanged : .succeeded ∉ ev → ∀ user name, Owns s' user name ↔ Owns s user name

/-- The batch of a transfer that finds the address finds it bound to no other user, and the INSERT of a bind finds
    the address. -/
def Unraced (s : Store) : Call → Prop
  | .transferBatch t _ _ => (∃ row ∈ s.address, row.id = t.addressId) →
      ∀ b ∈ s.bindings, b.addressId = t.addressId → b.userId = t.user
  | .bindInsert r => ∃ row ∈ s.address, row.id = r.addressId
  | _ => True

/-! ### The statements -/

theorem insertBinding_some {bindings bindings' : List BindingRow} {row : BindingRow}
    (h : insertBinding bindings row = some bindings') :
    (∀ b ∈ bindings, b.addressId ≠ row.addressId) ∧ bindings' = bindings ++ [row] := by
  unfold insertBinding at h
  split at h
  · cases h
  · rename_i hnew
    refine ⟨fun b hb heq => hnew (List.any_eq_true.mpr ⟨b, hb, by simp [heq]⟩), ?_⟩
    exact (Option.some.inj h).symm

/-- What a committed batch of a transfer has done: the name had no other row, and the new row is the target's. -/
theorem replaceAddress_some {t : Transfer} {name : JsString} {target changes : ℕ}
    (h : s.replaceAddress t name target = some (s', changes)) :
    (∀ row ∈ s.address, row.name = name → row.id = t.addressId) ∧ changes = 1 ∧
      s' = { s with
        address := deleteWhere (·.id = t.addressId) s.address ++ [⟨s.nextAddress, name, none⟩]
        bindings := deleteWhere (fun b => b.userId = t.user && b.addressId = t.addressId) s.bindings ++
          [⟨target, s.nextAddress⟩]
        nextAddress := s.nextAddress + 1 } := by
  simp only [Store.replaceAddress] at h
  split at h
  · cases h
  · rename_i hnone
    have hgone : (deleteWhere (·.id = t.addressId) s.address).filter (·.name = name) = [] := by
      refine List.filter_eq_nil_iff.mpr fun row hrow hname => hnone ?_
      exact List.any_eq_true.mpr ⟨row, hrow, hname⟩
    rw [List.filter_append, hgone] at h
    obtain ⟨bindings, hfold, heq⟩ := Option.map_eq_some_iff.mp h
    simp only [List.nil_append, decide_true, List.filter_cons_of_pos, List.filter_nil, List.map_cons, List.map_nil,
      List.foldlM_cons, List.foldlM_nil, Option.bind_eq_bind, Option.pure_def] at hfold heq
    obtain ⟨rows, hins, hrows⟩ := Option.bind_eq_some_iff.mp hfold
    obtain ⟨-, hins⟩ := insertBinding_some hins
    obtain ⟨hs', hchanges⟩ := Prod.mk.inj heq
    refine ⟨fun row hrow hname => ?_, hchanges.symm, ?_⟩
    · by_contra hid
      refine hnone (List.any_eq_true.mpr ⟨row, mem_deleteWhere.mpr ⟨hrow, ?_⟩, ?_⟩)
      · simp [hid]
      · simp [hname]
    · rw [← hs', ← Option.some.inj hrows, hins]

/-- The rows of the batch: the binding of the requester and the address are gone, and new ones are there. -/
theorem mem_replaced {t : Transfer} {row : AddressRow} {name : JsString} :
    row ∈ deleteWhere (·.id = t.addressId) s.address ++ [⟨s.nextAddress, name, none⟩] ↔
      row ∈ s.address ∧ row.id ≠ t.addressId ∨ row = ⟨s.nextAddress, name, none⟩ := by
  simp [mem_deleteWhere]

theorem mem_unbound {t : Request} {b : BindingRow} :
    b ∈ deleteWhere (fun b => b.userId = t.user && b.addressId = t.addressId) s.bindings ↔
      b ∈ s.bindings ∧ (b.userId = t.user → b.addressId ≠ t.addressId) := by
  simp [mem_deleteWhere]

/-! ### One step -/

theorem consistent_step (h : BindStep s c s' c' ev) (hU : Unraced s c) (hcon : Consistent s) : Consistent s' := by
  cases h with
  | @bindInsert r _ hins =>
    obtain ⟨hnew, rfl⟩ := insertBinding_some hins
    refine { hcon with boundOnce := nodup_append_key hcon.boundOnce hnew, referenced := fun b hb => ?_ }
    rcases List.mem_append.mp hb with hold | hone
    · exact hcon.referenced b hold
    · obtain rfl := List.mem_singleton.mp hone
      exact hU
  | unbindDelete =>
    exact { hcon with
      boundOnce := hcon.boundOnce.sublist (List.filter_sublist.map _)
      referenced := fun b hb => hcon.referenced b (mem_deleteWhere.mp hb).1 }
  | @transferBatch t name target _ _ hbatch =>
    obtain ⟨hname, -, rfl⟩ := replaceAddress_some hbatch
    have hold {row : AddressRow} (hrow : row ∈ deleteWhere (·.id = t.addressId) s.address) :
        row ∈ s.address ∧ row.id ≠ t.addressId := by simpa using mem_deleteWhere.mp hrow
    constructor
    · exact nodup_append_key (hcon.addressIds.sublist (List.filter_sublist.map _)) fun row hrow =>
        (hcon.nextAddress row (hold hrow).1).ne
    · exact nodup_append_key (hcon.addressNames.sublist (List.filter_sublist.map _)) fun row hrow heq =>
        (hold hrow).2 (hname row (hold hrow).1 heq)
    · intro row hrow
      rcases mem_replaced.mp hrow with ⟨hrow, -⟩ | rfl
      · exact (hcon.nextAddress row hrow).trans (Nat.lt_succ_self _)
      · exact Nat.lt_succ_self _
    · refine nodup_append_key (hcon.boundOnce.sublist (List.filter_sublist.map _)) fun b hb => ?_
      obtain ⟨row, hrow, hid⟩ := hcon.referenced b (mem_unbound.mp hb).1
      exact hid ▸ (hcon.nextAddress row hrow).ne
    · intro b hb
      rcases List.mem_append.mp hb with hb | hone
      · obtain ⟨hb, hother⟩ := mem_unbound.mp hb
        obtain ⟨row, hrow, hid⟩ := hcon.referenced b hb
        refine ⟨row, mem_replaced.mpr (.inl ⟨hrow, fun heq => ?_⟩), hid⟩
        have hown := hU ⟨row, hrow, heq⟩ b hb (hid ▸ heq)
        exact hother hown (hid ▸ heq)
      · obtain rfl := List.mem_singleton.mp hone
        exact ⟨_, mem_replaced.mpr (.inr rfl), rfl⟩
  | _ => exact hcon

/-- After the batch the name is the target's alone. -/
theorem owns_replaced {t : Transfer} {name : JsString} {target changes : ℕ}
    (h : s.replaceAddress t name target = some (s', changes)) (hcon : Consistent s) (user : ℕ) :
    Owns s' user name ↔ user = target := by
  obtain ⟨hname, -, rfl⟩ := replaceAddress_some h
  constructor
  · rintro ⟨row, hrow, heq, hb⟩
    rcases mem_replaced.mp hrow with ⟨hrow, hid⟩ | rfl
    · exact absurd (hname row hrow heq) hid
    · rcases List.mem_append.mp hb with hb | hone
      · obtain ⟨row, hrow, hid⟩ := hcon.referenced _ (mem_unbound.mp hb).1
        exact absurd hid (hcon.nextAddress row hrow).ne
      · exact congrArg BindingRow.userId (List.mem_singleton.mp hone)
  · rintro rfl
    exact ⟨_, mem_replaced.mpr (.inr rfl), rfl, List.mem_append_right _ List.mem_cons_self⟩

theorem lawful_step (h : BindStep s c s' c' ev) (hU : Unraced s c) (hcon : Consistent s) : Lawful s c s' ev := by
  cases h with
  | @bindInsert r _ hins =>
    obtain ⟨-, rfl⟩ := insertBinding_some hins
    refine ⟨fun user name ⟨row, hrow, hname, hb⟩ hlost => ?_, fun t name target hc => (nomatch hc), fun hev => ?_⟩
    · exact absurd ⟨row, hrow, hname, List.mem_append_left _ hb⟩ hlost
    · exact absurd List.mem_cons_self hev
  | @unbindDelete r =>
    refine ⟨fun user name ⟨row, hrow, hname, hb⟩ hlost => ?_, fun t name target hc => (nomatch hc), fun hev => ?_⟩
    · by_contra huser
      refine hlost ⟨row, hrow, hname, mem_unbound.mpr ⟨hb, fun heq => ?_⟩⟩
      exact absurd (congrArg some heq.symm) huser
    · exact absurd List.mem_cons_self hev
  | @transferBatch t name target _ changes hbatch =>
    obtain ⟨-, rfl, hs'⟩ := replaceAddress_some hbatch
    refine ⟨fun user other ⟨row, hrow, hname, hb⟩ hlost => ?_, fun t' name' target' hc _ user => ?_, fun hev => ?_⟩
    · -- the name is lost only if its address is the one that is deleted, and then its binding is the requester's
      by_contra huser
      have hid : row.id = t.addressId := by
        by_contra hid
        refine hlost (hs' ▸ ⟨row, mem_replaced.mpr (.inl ⟨hrow, hid⟩), hname, List.mem_append_left _ ?_⟩)
        exact mem_unbound.mpr ⟨hb, fun _ => hid⟩
      exact huser (congrArg some (hU ⟨row, hrow, hid⟩ _ hb hid).symm)
    · obtain ⟨rfl, rfl, rfl⟩ : t = t' ∧ name = name' ∧ target = target' := by simpa using hc
      exact owns_replaced hbatch hcon user
    · exact absurd List.mem_cons_self hev
  | _ =>
    exact ⟨fun _ _ howns hlost => absurd howns hlost, fun _ _ _ hc => by simp_all,
      fun _ _ _ => Iff.rfl⟩

/-- Along a run whose transfers meet no foreign binding and whose binds meet their address, every binding
    references an address, and every next step of such a kind is lawful. -/
theorem ownership_by_owner {w : World Store Call Event}
    (h : Reach requests (fun w i => Unraced w.store (w.pc i)) w) :
    Referenced w.store ∧ ∀ i s' c' ev, Unraced w.store (w.pc i) → BindStep w.store (w.pc i) s' c' ev →
      Lawful w.store (w.pc i) s' ev := by
  have hcon : Consistent w.store := by
    refine Reach.invariant (I := fun w => Consistent w.store) (fun s hs => hs) ?_ h
    exact fun w i s' l' ev _ hcon hU hst => consistent_step hst hU hcon
  exact ⟨hcon.referenced, fun i s' c' ev hU hst => lawful_step hst hU hcon⟩

/-! ### Runs -/

def demoStore : Store where
  users := [⟨1, js "a@example.org"⟩, ⟨2, js "b@example.org"⟩, ⟨3, js "c@example.org"⟩]
  address := [⟨1, js "x@one.test", none⟩]
  bindings := [⟨1, 1⟩]
  nextAddress := 2

theorem demoStore_consistent : Consistent demoStore where
  addressIds := by decide
  addressNames := by decide
  nextAddress := by decide
  boundOnce := by decide
  referenced := by unfold Referenced; decide

/-- The first user transfers the address to the third. -/
def demoTransfer : Transfer := ⟨⟨1, 1, 5⟩, js "c@example.org"⟩

theorem demoTransfer_batch : ∃ s', BindStep demoStore (.transferBatch demoTransfer (js "x@one.test") 3) s' .idle
    [.succeeded] := ⟨_, @BindStep.transferBatch _ _ _ _ _ 1 rfl⟩

/-- The transfer succeeds, and its batch is lawful. -/
theorem ownership_by_owner_demo : ∃ (w : World Store Call Event) (s' : Store),
    (w.pc 0).owner = some 1 ∧ Lawful w.store (w.pc 0) s' [.succeeded] ∧ Referenced w.store := by
  have h : Reach requests (fun w i => Unraced w.store (w.pc i)) ⟨demoStore, fun _ => .idle, []⟩ :=
    .start demoStore_consistent
  have h := h.next 0 trivial (.transfer demoTransfer)
  have h := h.next 0 trivial (.transferName ⟨1, js "x@one.test", none⟩ (by decide) rfl (by decide))
  have h := h.next 0 trivial (.transferUser (by decide))
  have h := h.next 0 trivial (.transferTarget ⟨3, js "c@example.org"⟩ (by decide) rfl (by decide))
  have h := h.next 0 trivial (.transferLimit (by decide))
  have h := h.next 0 trivial (.transferExisting (by decide))
  have h := h.next 0 trivial .transferTelegram
  obtain ⟨s', hbatch⟩ := demoTransfer_batch
  have hlaw := ownership_by_owner h
  exact ⟨_, s', rfl, hlaw.2 0 s' .idle [.succeeded] (fun _ => by decide) hbatch, hlaw.1⟩

/-- A transfer has checked its binding when its user unbinds the address and another user binds it; its batch then
    takes the name from that user. -/
theorem transfer_takes_foreign_name :
    ¬ ∀ w : World Store Call Event, Reachable requests w → Referenced w.store ∧ ∀ i s' c' ev,
      BindStep w.store (w.pc i) s' c' ev → Lawful w.store (w.pc i) s' ev := by
  intro hall
  have h : Reachable requests ⟨demoStore, fun _ => .idle, []⟩ := .start demoStore_consistent
  have h := h.next 0 trivial (.transfer demoTransfer)
  have h := h.next 0 trivial (.transferName ⟨1, js "x@one.test", none⟩ (by decide) rfl (by decide))
  have h := h.next 0 trivial (.transferUser (by decide))
  have h := h.next 0 trivial (.transferTarget ⟨3, js "c@example.org"⟩ (by decide) rfl (by decide))
  have h := h.next 0 trivial (.transferLimit (by decide))
  have h := h.next 0 trivial (.transferExisting (by decide))
  have h := h.next 0 trivial .transferTelegram
  have h := h.next 1 trivial (.unbind ⟨1, 1, 5⟩ (by decide))
  have h := h.next 1 trivial (.unbindAddress (by decide))
  have h := h.next 1 trivial (.unbindUser (by decide))
  have h := h.next 1 trivial .unbindDelete
  have h := h.next 2 trivial (.bind ⟨2, 1, 5⟩ (by decide))
  have h := h.next 2 trivial (.bindAddress (by decide))
  have h := h.next 2 trivial (.bindUser (by decide))
  have h := h.next 2 trivial (.bindFree (by decide))
  have h := h.next 2 trivial (.bindLimit (by decide))
  have h := h.next 2 trivial (.bindInsert rfl)
  have hlaw := (hall _ h).2 0 _ _ _ (.transferBatch rfl)
  have howns := hlaw.byOwner 2 (js "x@one.test") (by unfold Owns; decide) (by unfold Owns; decide)
  exact absurd howns (by decide)

end OneMail.Binding
