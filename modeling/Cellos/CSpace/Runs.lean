import Cellos.CSpace.Change
import Cellos.CSpace.Table

/-!
# Cellos.CSpace.Runs

Runs of the authority table.

Every call returns and moves only the row of its key, by one `Change`
(`step_spec`).  So every run from the empty table returns and every authority it
reaches is well formed (`tableInv_of_run`).  `Evolves` is what survives a whole run
about the tickets issued before it: cut stays cut and closed stays closed.
-/

namespace Cellos.CSpace

open Lib CellAuthority Option

variable {a : CellAuthority} {t : AuthorityTable}

/-- The ticket a control result issues: only a successful derivation reports progress. -/
def ControlResultHeader.issued (h : ControlResultHeader) : Option Nat :=
  if h.status = .success ∧ h.progress = 1 then some h.ticket else none

@[simp] theorem issued_new_zero (status : ControlStatus) (ticket n : Nat) :
    (ControlResultHeader.new status ticket n 0).issued = none := by
  simp [ControlResultHeader.issued, ControlResultHeader.new]

@[simp] theorem issued_new_one (ticket n : Nat) :
    (ControlResultHeader.new .success ticket n 1).issued = some ticket := by
  simp [ControlResultHeader.issued, ControlResultHeader.new]

/-- The ticket a call issues. -/
def Response.issued : Response → Option Nat
  | .allocated (.ok ticket) => some ticket
  | .header h => h.issued
  | _ => none

/-- Every way of calling in except a direct in-kernel allocation below a parent
gives a derived slot its parent's kind. -/
def Op.inheritsKind : Op → Prop
  | .allocate _ _ _ _ _ _ (some _) => False
  | _ => True

/-! ## control requests as changes -/

theorem verifyTicket_eq_ok (h : a.verifyTicket ticket = .ok s) :
    ∃ i, s = slotAt a.slots i ∧ names ticket s = true ∧ s.admissionCut = false := by
  unfold verifyTicket at h
  cases hl : a.liveSlotIndex ticket with
  | error => simp [hl] at h
  | ok i =>
    simp only [hl] at h
    split_ifs at h with hc
    cases h
    exact ⟨i, rfl, names_of_liveSlotIndex hl, by simpa using hc⟩

/-- A derivation below `ticket` is refused and nothing changes, or a fresh slot of the ticket's
kind is published below its slot. -/
def DeriveOutcome (a : CellAuthority) (ticket : Nat)
    (out : ControlResultHeader × CellAuthority) : Prop :=
  (∃ status, out = (.new status ticket 32 0, a)) ∨
  ∃ idx slot p, out = (.new .success a.nextTicketCounter 32 1, a.publishSlot idx slot) ∧
    Fresh a idx slot ∧ slot.lineageParent = some p ∧ (slotAt a.slots p).ticket = ticket ∧
    slot.kind = (slotAt a.slots p).kind

variable (ha : WellFormed a)

include ha

theorem controlAllocate_outcome (holder issuer : Principal)
    (rights : BitVec 32) (expiry : Option Nat)
    (hi : names ticket (slotAt a.slots i) = true) (hkind : kind = (slotAt a.slots i).kind) :
    DeriveOutcome a ticket (controlAllocate a holder issuer kind rights expiry ticket) := by
  unfold controlAllocate
  rcases allocateSlot_cases ha holder issuer kind rights expiry (some ticket) with
    ⟨e, he⟩ | ⟨idx, slot, he, hfresh, hk, hroot, hp⟩
  · rw [he]
    exact .inl ⟨e, rfl⟩
  rw [he]
  cases hpar : slot.lineageParent with
  | none => exact absurd (hroot.mp hpar) (by simp)
  | some p =>
    -- both `p` and `i` carry the ticket
    obtain ⟨hu, -, ht⟩ := names_iff.mp hi
    have hpt : ticket = (slotAt a.slots p).ticket := some.inj (hp p hpar)
    have hip := ha.ticket_inj i p hu (hfresh.parent p hpar).inUse (ht.trans hpt)
    exact .inr ⟨idx, slot, p, rfl, hfresh, hpar, hpt.symm, by rw [hk, hkind, hip]⟩

variable (cellId generation : Nat) {rs : List Response}
  {a' : CellAuthority}

theorem handleDerive_outcome (req : HandleControlRequest) :
    DeriveOutcome a req.ticket (handleDerive a cellId generation req) := by
  unfold handleDerive
  cases hv : a.verifyTicket req.ticket with
  | error e => exact .inl ⟨e, rfl⟩
  | ok =>
    obtain ⟨i, rfl, hi, -⟩ := verifyTicket_eq_ok hv
    dsimp only
    split_ifs
    · exact .inl ⟨_, rfl⟩
    · exact .inl ⟨_, rfl⟩
    all_goals
      split
      · exact .inl ⟨_, rfl⟩
      · exact controlAllocate_outcome ha _ _ _ _ hi rfl

theorem cspaceDerive_outcome (req : CSpaceRequest) :
    DeriveOutcome a req.parentTicket (cspaceDerive a cellId generation req) := by
  unfold cspaceDerive
  by_cases hmask : req.mmioMask ≠ 0 ∨ req.blockRegionMask ≠ 0
  · exact .inl ⟨.invalid, if_pos hmask⟩
  rw [if_neg hmask]
  cases hv : a.verifyTicket req.parentTicket with
  | error e => exact .inl ⟨e, rfl⟩
  | ok =>
    obtain ⟨i, rfl, hi, -⟩ := verifyTicket_eq_ok hv
    dsimp only
    split_ifs with hkind
    · exact .inl ⟨_, rfl⟩
    · exact .inl ⟨_, rfl⟩
    all_goals
      split
      · exact .inl ⟨_, rfl⟩
      · exact controlAllocate_outcome ha _ _ _ _ hi (not_not.mp hkind).symm

omit ha in
theorem DeriveOutcome.change
    (h : DeriveOutcome a ticket out) : Change True a out.1.issued out.2 := by
  rcases h with ⟨_, rfl⟩ | ⟨_, _, _, rfl, hfresh, hpar, -, hkind⟩
  · simpa using .same
  refine .publish hfresh fun _ q hq => ?_
  rw [hpar] at hq
  rw [hkind, some.inj hq]

theorem closeTicket_change (inherits : Prop) (ticket : Nat) :
    ∃ r a', a.closeTicket ticket = some (r, a') ∧ Change inherits a none a' := by
  rcases closeTicket_cases ha ticket with ⟨_, -, he⟩ | ⟨_, _, hl, he, hf, hlive, hr⟩
  · exact ⟨_, a, he, .same⟩
  · have hu := (names_iff.mp (names_of_liveSlotIndex hl)).1
    exact ⟨_, _, he, .close hu hf hlive hr⟩

theorem revokeTicket_change (inherits : Prop) (ticket : Nat) :
    ∃ r a', a.revokeTicket ticket = some (r, a') ∧ Change inherits a none a' := by
  rcases revokeTicket_cases ha ticket with ⟨e, -, he⟩ | ⟨target, slots, -, he, hlen, hat⟩
  · exact ⟨_, a, he, .same⟩
  refine ⟨_, _, he, .cut hlen fun j => ?_⟩
  by_cases hj : RevokedBy a.slots target j
  · exact .inr ((hat j).1 hj)
  · exact .inl ((hat j).2 hj)

theorem controlClose_change (ticket : Nat) :
    ∃ h a', controlClose a ticket = some (h, a') ∧ Change True a h.issued a' := by
  obtain ⟨r, _, he, hc⟩ := closeTicket_change ha True ticket
  unfold controlClose
  rw [he]
  cases r <;> exact ⟨_, _, rfl, by simpa using hc⟩

theorem controlRevoke_change (ticket : Nat) :
    ∃ h a', controlRevoke a ticket = some (h, a') ∧ Change True a h.issued a' := by
  obtain ⟨r, _, he, hc⟩ := revokeTicket_change ha True ticket
  unfold controlRevoke
  rw [he]
  cases r <;> exact ⟨_, _, rfl, by simpa using hc⟩

omit ha in
theorem controlQuery_issued (a : CellAuthority) (ticket : Nat) :
    (controlQuery a ticket).issued = none := by
  unfold controlQuery
  split <;> simp

/-- The dispatch of both control entry points, each with what its derive arm has
`derived`. -/
def dispatchControl (a : CellAuthority) (action ticket : Nat)
    (derived : ControlResultHeader × CellAuthority) :
    Option (ControlResultHeader × CellAuthority) :=
  if a.revoking ∧ action ≠ 0 ∧ action ≠ 3 then some (.new .admissionCut 0 32 0, a)
  else match action with
  | 0 => controlClose a ticket
  | 1 => some derived
  | 2 => controlRevoke a ticket
  | 3 => some (controlQuery a ticket, a)
  | _ => some (.new .invalid ticket 32 0, a)

theorem dispatchControl_change (action : Nat) (hderived : DeriveOutcome a ticket derived) :
    ∃ h a', dispatchControl a action ticket derived = some (h, a') ∧ Change True a h.issued a' := by
  unfold dispatchControl
  split_ifs
  · exact ⟨_, _, rfl, by simpa using .same⟩
  split
  · exact controlClose_change ha _
  · exact ⟨_, _, rfl, hderived.change⟩
  · exact controlRevoke_change ha _
  · exact ⟨_, _, rfl, by simpa [controlQuery_issued] using Change.same⟩
  · exact ⟨_, _, rfl, by simpa using .same⟩

omit ha

/-! ## the table -/

namespace AuthorityTable

variable (t : AuthorityTable)

theorem get_set_self (h : t.get key = some a) (a' : CellAuthority) :
    (t.set key a').get key = some a' := by
  obtain ⟨rows⟩ := t
  simp only [get, set] at h ⊢
  induction rows with
  | nil => simp at h
  | cons row _ ih =>
    by_cases hr : row.1 = key
    · simp [hr]
    · simpa [hr] using ih (by simpa [hr] using h)

theorem get_set_of_ne (hk : k ≠ key) (a' : CellAuthority) : (t.set key a').get k = t.get k := by
  obtain ⟨rows⟩ := t
  simp only [get, set]
  induction rows with
  | nil => rfl
  | cons row _ ih =>
    by_cases hr : row.1 = key
    · simpa [hr, Ne.symm hk] using ih
    · by_cases hrk : row.1 = k
      · simp [hrk, hk]
      · simpa [hr, hrk] using ih

theorem get_insertRow (rows : List (Key × CellAuthority)) (h : (⟨rows⟩ : AuthorityTable).get key = none)
    (k : Key) : (⟨insertRow key a rows⟩ : AuthorityTable).get k =
      if k = key then some a else (⟨rows⟩ : AuthorityTable).get k := by
  simp only [get] at h ⊢
  induction rows with
  | nil =>
    by_cases hk : k = key
    · simp [insertRow, hk]
    · simp [insertRow, hk, Ne.symm hk]
  | cons row _ ih =>
    have hr : row.1 ≠ key := by
      intro hr
      simp [hr] at h
    unfold insertRow
    split_ifs with hlt hk hk
    · simp [hk]
    · simp [Ne.symm hk]
    · subst hk
      simpa [hr] using ih (by simpa [hr] using h)
    · by_cases hrk : row.1 = k
      · simp [hrk]
      · simpa [hrk, hk] using ih (by simpa [hr] using h)

theorem get_commit (key k : Key) : (t.commit key).get k =
    if k = key ∧ t.get key = none then some (.new key.1 key.2) else t.get k := by
  unfold commit
  cases h : t.get key with
  | some => simp
  | none =>
    obtain ⟨rows⟩ := t
    rw [get_insertRow rows h]
    simp

end AuthorityTable

/-- What one call does to the row of a key. -/
inductive RowChange (op : Op) (r : Response) (key : Key) :
    Option CellAuthority → Option CellAuthority → Prop
  | other {o : Option CellAuthority} (hkey : op.key ≠ key) : RowChange op r key o o
  | absent (hkey : op.key = key) (hr : r.issued = none) : RowChange op r key none none
  | published (hkey : op.key = key) (hr : r.issued = none) :
      RowChange op r key none (some (.new key.1 key.2))
  | change {a a' : CellAuthority} (hkey : op.key = key)
      (hc : Change op.inheritsKind a r.issued a') : RowChange op r key (some a) (some a')

/-- Every published authority is well formed. -/
def TableInv (t : AuthorityTable) : Prop := ∀ key a, t.get key = some a → WellFormed a

/-- A call on a published authority returns and is a change. -/
theorem onAuthority_change (ha : WellFormed a) (op : Op) :
    ∃ r a', op.onAuthority a = some (r, a') ∧ Change op.inheritsKind a r.issued a' := by
  cases op with
  | publish => exact ⟨_, _, rfl, .same⟩
  | allocate _ holder issuer kind rights expiry parentTicket =>
    simp only [Op.onAuthority]
    rcases allocateSlot_cases ha holder issuer kind rights expiry parentTicket with
      ⟨e, he⟩ | ⟨idx, slot, he, hfresh, -, hroot, -⟩
    · rw [he]
      exact ⟨_, _, rfl, .same⟩
    rw [he]
    refine ⟨_, _, rfl, .publish hfresh fun hin p hp => ?_⟩
    cases parentTicket with
    | none =>
      rw [hroot.mpr rfl] at hp
      contradiction
    | some => exact hin.elim
  | close _ ticket =>
    obtain ⟨r, a', he, hc⟩ := closeTicket_change ha True ticket
    exact ⟨.closed r, a', by simp only [Op.onAuthority, he, map_some], hc⟩
  | revoke _ ticket =>
    obtain ⟨r, a', he, hc⟩ := revokeTicket_change ha True ticket
    exact ⟨.revoked r, a', by simp only [Op.onAuthority, he, map_some], hc⟩
  | retire => exact ⟨_, _, rfl, .retire⟩
  | handleControl key buf =>
    simp only [Op.onAuthority]
    cases HandleControlRequest.decode buf with
    | error => exact ⟨_, _, rfl, by simpa [Response.issued] using Change.same⟩
    | ok req =>
      obtain ⟨h, a', he, hc⟩ :=
        dispatchControl_change ha req.action (handleDerive_outcome ha key.1 key.2 req)
      exact ⟨.header h, a', congrArg (Option.map fun p => (Response.header p.1, p.2)) he, hc⟩
  | cspaceControl key buf =>
    simp only [Op.onAuthority]
    cases CSpaceRequest.decode buf with
    | error => exact ⟨_, _, rfl, by simpa [Response.issued] using Change.same⟩
    | ok req =>
      obtain ⟨h, a', he, hc⟩ :=
        dispatchControl_change ha req.action (cspaceDerive_outcome ha key.1 key.2 req)
      exact ⟨.header h, a', congrArg (Option.map fun p => (Response.header p.1, p.2)) he, hc⟩

theorem unpublished_issued (op : Op) : op.unpublished.issued = none := by
  cases op with
  | handleControl _ buf =>
    simp only [Op.unpublished]
    cases HandleControlRequest.decode buf <;> simp [Response.issued]
  | cspaceControl _ buf =>
    simp only [Op.unpublished]
    cases CSpaceRequest.decode buf <;> simp [Response.issued]
  | _ => rfl

theorem step_of_get (hget : t.get op.key = some a) (hop : ∀ key, op ≠ .publish key) :
    step t op = (op.onAuthority a).map fun p => (p.1, t.set op.key p.2) := by
  cases op with
  | publish key => exact absurd rfl (hop key)
  | _ => simp only [step, hget]

/-- **Every call returns** and changes at most the row of its key. -/
theorem step_spec (ht : TableInv t) (op : Op) :
    ∃ r t', step t op = some (r, t') ∧ ∀ key, RowChange op r key (t.get key) (t'.get key) := by
  by_cases hpub : ∃ key, op = .publish key
  · obtain ⟨key, rfl⟩ := hpub
    refine ⟨.done, t.commit key, rfl, fun k => ?_⟩
    rw [AuthorityTable.get_commit]
    by_cases hk : k = key
    · subst hk
      cases hget : t.get k with
      | none =>
        rw [if_pos ⟨rfl, rfl⟩]
        exact .published rfl rfl
      | some =>
        rw [if_neg (by simp)]
        exact .change rfl .same
    · rw [if_neg (fun h => hk h.1)]
      exact .other (Ne.symm hk)
  · have hop : ∀ key, op ≠ .publish key := fun key h => hpub ⟨key, h⟩
    cases hget : t.get op.key with
    | none =>
      refine ⟨op.unpublished, t, ?_, fun k => ?_⟩
      · cases op with
        | publish key => exact absurd rfl (hop key)
        | _ => simp only [step, hget]
      by_cases hk : op.key = k
      · subst hk
        rw [hget]
        exact .absent rfl (unpublished_issued op)
      · exact .other hk
    | some =>
      obtain ⟨r, a', he, hc⟩ := onAuthority_change (ht _ _ hget) op
      refine ⟨r, t.set op.key a', by rw [step_of_get hget hop, he, map_some], fun k => ?_⟩
      by_cases hk : op.key = k
      · subst hk
        rw [t.get_set_self hget, hget]
        exact .change rfl hc
      · rw [t.get_set_of_ne (Ne.symm hk)]
        exact .other hk

theorem rowChange_of_step (ht : TableInv t) (h : step t op = some (r, t'))
    (key : Key) : RowChange op r key (t.get key) (t'.get key) := by
  obtain ⟨_, _, he, hrow⟩ := step_spec ht op
  rw [h] at he
  cases he
  exact hrow key

theorem TableInv.step (ht : TableInv t) (h : step t op = some (r, t')) : TableInv t' := by
  intro key a ha
  have hrow := rowChange_of_step ht h key
  rw [ha] at hrow
  generalize ho : t.get key = o at hrow
  cases hrow with
  | other => exact ht key a ho
  | published => exact wellFormed_new key.1 key.2
  | change _ hc => exact hc.wellFormed (ht key _ ho)

theorem tableInv_empty : TableInv .empty := by
  intro key a h
  simp [AuthorityTable.empty, AuthorityTable.get] at h

theorem tableInv_of_run (h : run step .empty ops = some (rs, t)) : TableInv t :=
  run_invariant (fun _ _ _ _ ht => ht.step) h tableInv_empty

/-- **The forest theorem**: every sequence of calls returns, and in every authority it leaves
behind lineage pointers link in-use slots on neighbouring levels, at most eight deep; child
counts are exact; an in-use slot that is not being revoked is open or has an in-use child; and
in-use tickets are positive, pairwise distinct and below the counter. -/
theorem inUse_slots_form_forest (ops : List Op) :
    ∃ rs t, run step .empty ops = some (rs, t) ∧ ∀ key a, t.get key = some a →
      (∀ i p, (slotAt a.slots i).inUse = true → (slotAt a.slots i).lineageParent = some p →
        (slotAt a.slots p).inUse = true ∧ (slotAt a.slots i).depth = (slotAt a.slots p).depth + 1) ∧
      (∀ i, (slotAt a.slots i).inUse = true → (slotAt a.slots i).depth ≤ maxLineageDepth) ∧
      (∀ i, (slotAt a.slots i).childCount = (childrenOf a.slots i).card) ∧
      (∀ i, (slotAt a.slots i).inUse = true →
        (a.revoking = false ∨ (slotAt a.slots i).admissionCut = false) →
        (slotAt a.slots i).holderOpen = true ∨
          ∃ c, (slotAt a.slots c).inUse = true ∧ (slotAt a.slots c).lineageParent = some i) ∧
      (∀ i, (slotAt a.slots i).inUse = true →
        0 < (slotAt a.slots i).ticket ∧ (slotAt a.slots i).ticket < a.nextTicketCounter) ∧
      (∀ i j, (slotAt a.slots i).inUse = true → (slotAt a.slots j).inUse = true →
        (slotAt a.slots i).ticket = (slotAt a.slots j).ticket → i = j) := by
  -- no run gets stuck: every reclaim and every revoke walk ends, and no count goes below zero
  obtain ⟨rs, t, hrun, ht⟩ : ∃ rs t, run step .empty ops = some (rs, t) ∧ TableInv t := by
    refine run_total (fun op _ t ht => ?_) tableInv_empty
    obtain ⟨r, t', he, -⟩ := step_spec ht op
    exact ⟨r, t', he, ht.step he⟩
  refine ⟨rs, t, hrun, fun key a hget => ?_⟩
  have ha := ht key a hget
  refine ⟨fun i p _ hp => (ha.forest.parent i p hp).2, ha.forest.depth_le, ha.forest.childCount,
    fun i hi hnot => ?_, ha.ticket_bounds, ha.ticket_inj⟩
  have hrev : a.revoking = false := by
    rcases hnot with h | h
    · exact h
    by_contra hr
    have hc := ha.cut (by simpa using hr) i hi
    rw [h] at hc
    contradiction
  rcases ha.live hrev i hi with ho | hc
  · exact .inl ho
  · rw [ha.forest.childCount i] at hc
    obtain ⟨c, hc⟩ := Finset.card_pos.mp hc
    exact .inr ⟨c, mem_childrenOf.mp hc⟩

/-! ## what a run keeps about issued tickets -/

/-- The counter does not go back, and a slot that carries a ticket issued before was in use under
that ticket, is still cut if it was cut, and is open only if it was open. -/
structure Evolves (a a' : CellAuthority) : Prop where
  counter : a.nextTicketCounter ≤ a'.nextTicketCounter
  old : ∀ j, (slotAt a'.slots j).inUse = true → (slotAt a'.slots j).ticket < a.nextTicketCounter →
    ∃ i, (slotAt a.slots i).inUse = true ∧ (slotAt a.slots i).ticket = (slotAt a'.slots j).ticket ∧
      ((slotAt a.slots i).admissionCut = true → (slotAt a'.slots j).admissionCut = true) ∧
      ((slotAt a'.slots j).holderOpen = true → (slotAt a.slots i).holderOpen = true)

namespace Evolves

theorem refl (a : CellAuthority) : Evolves a a := ⟨le_rfl, fun j hj _ => ⟨j, hj, rfl, id, id⟩⟩

theorem trans (h₁ : Evolves a a') (h₂ : Evolves a' a'') : Evolves a a'' := by
  refine ⟨h₁.counter.trans h₂.counter, fun k hk hlt => ?_⟩
  obtain ⟨j, hj, hjt, hjc, hjo⟩ := h₂.old k hk (hlt.trans_le h₁.counter)
  obtain ⟨i, hi, hit, hic, hio⟩ := h₁.old j hj (hjt ▸ hlt)
  exact ⟨i, hi, hit.trans hjt, fun h => hjc (hic h), fun h => hio (hjo h)⟩

/-- Changes that keep each in-use slot at its index. -/
theorem of_slots (hcounter : a.nextTicketCounter ≤ a'.nextTicketCounter)
    (h : ∀ j, (slotAt a'.slots j).inUse = true → (slotAt a'.slots j).ticket < a.nextTicketCounter →
      (slotAt a.slots j).inUse = true ∧ (slotAt a.slots j).ticket = (slotAt a'.slots j).ticket ∧
      ((slotAt a.slots j).admissionCut = true → (slotAt a'.slots j).admissionCut = true) ∧
      ((slotAt a'.slots j).holderOpen = true → (slotAt a.slots j).holderOpen = true)) :
    Evolves a a' :=
  ⟨hcounter, fun j hj hlt => ⟨j, h j hj hlt⟩⟩

end Evolves

theorem evolves_of_cut (hcounter : a'.nextTicketCounter = a.nextTicketCounter)
    (hcut : ∀ j, slotAt a'.slots j = slotAt a.slots j ∨
      slotAt a'.slots j = CellAuthority.cut (slotAt a.slots j)) :
    Evolves a a' := by
  refine Evolves.of_slots hcounter.ge fun j hj _ => ?_
  rcases hcut j with h | h <;> simpa [h] using hj

theorem Change.evolves (h : Change inherits a issued a') : Evolves a a' := by
  cases h with
  | same => exact .refl a
  | @publish idx _ hfresh =>
    refine Evolves.of_slots (Nat.le_succ _) fun j hj hlt => ?_
    by_cases hji : j = idx
    · -- the fresh ticket is not an old one
      rw [hfresh.slotAt_publishSlot, if_pos hji, hfresh.ticket] at hlt
      omega
    · obtain ⟨n, -, hat⟩ := hfresh.slotAt_old hji
      rw [hat] at hj ⊢
      exact ⟨hj, rfl, id, id⟩
  | @close idx _ hidx _ _ hreclaimed =>
    refine Evolves.of_slots le_rfl fun j hj _ => ?_
    have hat := hreclaimed.slotAt_of_close hidx hj
    rw [hat] at hj ⊢
    refine ⟨hj, rfl, id, fun ho => ?_⟩
    by_cases hji : j = idx
    · simp [hji] at ho
    · simpa [hji] using ho
  | cut _ hcut => exact evolves_of_cut rfl hcut
  | retire =>
    refine evolves_of_cut rfl fun j => ?_
    rw [slotAt_retire]
    split_ifs
    · exact .inr rfl
    · exact .inl rfl

/-- **An authority evolves along every run** and never leaves the table. -/
theorem evolves_of_run (ht : TableInv t)
    (h : run step t ops = some (rs, t')) (ha : t.get key = some a) :
    ∃ a', t'.get key = some a' ∧ Evolves a a' := by
  have hinv : TableInv t' ∧ ∃ a', t'.get key = some a' ∧ Evolves a a' := by
    refine run_invariant (P := fun t => TableInv t ∧ ∃ a', t.get key = some a' ∧ Evolves a a')
      ?_ h ⟨ht, a, ha, .refl a⟩
    rintro u op r u' ⟨hu, b, hb, hev⟩ hs
    refine ⟨hu.step hs, ?_⟩
    have hrow := rowChange_of_step hu hs key
    rw [hb] at hrow
    generalize ho : u'.get key = o at hrow
    cases hrow with
    | other => exact ⟨b, rfl, hev⟩
    | change _ hc => exact ⟨_, rfl, hev.trans hc.evolves⟩
  exact hinv.2

/-! ## cells side by side -/

theorem get_of_step (hkey : op.key ≠ key) (h : step t op = some (r, t')) :
    t'.get key = t.get key := by
  cases op with
  | publish k =>
    cases h
    rw [AuthorityTable.get_commit, if_neg fun hk => hkey hk.1.symm]
  | _ =>
    simp only [step] at h
    split at h
    · cases h
      rfl
    · obtain ⟨p, -, hp⟩ := map_eq_some_iff.mp h
      cases hp
      exact t.get_set_of_ne hkey.symm _

/-- What a call answers and leaves depends on the row of its key only. -/
theorem step_local (hget : t.get op.key = u.get op.key) (h : step t op = some (r, t')) :
    ∃ u', step u op = some (r, u') ∧ t'.get op.key = u'.get op.key := by
  cases op with
  | publish k =>
    cases h
    have hget : t.get k = u.get k := hget
    exact ⟨_, rfl, by simp only [Op.key, AuthorityTable.get_commit, hget]⟩
  | _ =>
    simp only [step] at h ⊢
    rw [← hget]
    split at h
    · cases h
      exact ⟨u, rfl, hget⟩
    · next hrow =>
      obtain ⟨p, hp, heq⟩ := map_eq_some_iff.mp h
      cases heq
      refine ⟨_, by rw [hp]; rfl, ?_⟩
      rw [t.get_set_self hrow, u.get_set_self (hget ▸ hrow)]

/-- **Cells do not interfere**: the calls that name one cell get the answers, and leave the cell
with the authority, that they would without all the others. -/
theorem cells_isolated (key : Key) (ops : List Op) : ∃ rs t t₁, run step .empty ops = some (rs, t) ∧
    run step .empty (ops.filter (·.key = key)) =
      some (((ops.zip rs).filter (·.1.key = key)).map Prod.snd, t₁) ∧ t.get key = t₁.get key := by
  obtain ⟨rs, t, hrun, -⟩ : ∃ rs t, run step .empty ops = some (rs, t) ∧ TableInv t := by
    refine run_total (fun op _ t ht => ?_) tableInv_empty
    obtain ⟨r, t', hstep, -⟩ := step_spec ht op
    exact ⟨r, t', hstep, ht.step hstep⟩
  obtain ⟨t₁, hrun₁, hget⟩ := run_project (V := (·.get key)) (p := (·.key = key))
    (fun t op r t' hkey hstep => get_of_step (by simpa using hkey) hstep)
    (fun t u op r t' hkey hget hstep => by
      obtain rfl : op.key = key := by simpa using hkey
      exact step_local hget hstep) hrun rfl
  exact ⟨rs, t, t₁, hrun, hrun₁, hget⟩

end Cellos.CSpace
