import Cellos.CSpace.Forest

/-!
# Cellos.CSpace.Change

What one operation can do to an authority, said once.

`WellFormed` is the invariant of an authority.  `Change` lists the four ways a
well-formed authority can move: publish a fresh slot, close a slot and reclaim
its lineage, cut a set of slots, retire.  Every change keeps the invariant, and later
modules only look at changes.
-/

namespace Cellos.CSpace

open Lib CellAuthority List

variable {ticket idx : Nat} {slots : List SlotEntry} {a : CellAuthority} {slot : SlotEntry}
  {i : Nat}

/-- The invariant of a cell's authority. -/
structure WellFormed (a : CellAuthority) : Prop where
  length : a.slots.length = maxSlotsPerCell
  forest : Forest a.slots
  /-- until the cell retires nothing closed and childless stays in use -/
  live : a.revoking = false → Live a.slots
  /-- retirement has cut everything still in use -/
  cut : a.revoking = true → ∀ i, (slotAt a.slots i).inUse = true →
    (slotAt a.slots i).admissionCut = true
  ticket_bounds : ∀ i, (slotAt a.slots i).inUse = true →
    0 < (slotAt a.slots i).ticket ∧ (slotAt a.slots i).ticket < a.nextTicketCounter
  ticket_inj : ∀ i j, (slotAt a.slots i).inUse = true → (slotAt a.slots j).inUse = true →
    (slotAt a.slots i).ticket = (slotAt a.slots j).ticket → i = j
  counter : 0 < a.nextTicketCounter ∧ a.nextTicketCounter < 2 ^ 64

theorem wellFormed_new (cellId generation : Nat) : WellFormed (.new cellId generation) := by
  have hfree : ∀ i, (slotAt (new cellId generation).slots i).inUse ≠ true := by
    intro i
    rw [slotAt_new]
    exact Bool.false_ne_true
  constructor
  · simp [new]
  · exact forest_new cellId generation
  · intro _ i hi
    exact absurd hi (hfree i)
  · intro _ i hi
    exact absurd hi (hfree i)
  · intro i hi
    exact absurd hi (hfree i)
  · intro i j hi
    exact absurd hi (hfree i)
  · simp [new]

/-! ## resolving tickets -/

theorem names_iff :
    names ticket s = true ↔ s.inUse = true ∧ s.holderOpen = true ∧ s.ticket = ticket := by
  simp [names, and_assoc]

/-- A predicate that rejects the default entry is found at an index exactly when
some arena entry satisfies it. -/
theorem findIdx?_slotAt (h : slots.findIdx? f = some i) :
    i < slots.length ∧ f (slotAt slots i) = true := by
  obtain ⟨hlt, hf, -⟩ := List.findIdx?_eq_some_iff_getElem.mp h
  simpa [slotAt, getD_eq_getElem?_getD, hlt] using hf

theorem liveSlotIndex_cases (a : CellAuthority) (ticket : Nat) :
    (ticket = 0 ∧ a.liveSlotIndex ticket = .error .invalid) ∨
    (ticket ≠ 0 ∧ ∃ i, a.liveSlotIndex ticket = .ok i ∧ names ticket (slotAt a.slots i) = true) ∨
    (ticket ≠ 0 ∧ a.liveSlotIndex ticket = .error .stale ∧
      ∀ i, names ticket (slotAt a.slots i) = false) := by
  unfold liveSlotIndex
  by_cases h0 : ticket = 0
  · exact .inl ⟨h0, if_pos h0⟩
  rw [if_neg h0]
  cases hf : a.slots.findIdx? (names ticket) with
  | some i => exact .inr (.inl ⟨h0, i, rfl, (findIdx?_slotAt hf).2⟩)
  | none =>
    refine .inr (.inr ⟨h0, rfl, fun i => ?_⟩)
    by_cases hi : i < a.slots.length
    · have := List.findIdx?_eq_none_iff.mp hf (a.slots[i]) (getElem_mem hi)
      simpa [slotAt, getD_eq_getElem?_getD, hi] using this
    · rw [slotAt_of_length_le (by omega)]
      rfl

theorem names_of_liveSlotIndex (h : a.liveSlotIndex ticket = .ok i) :
    names ticket (slotAt a.slots i) = true := by
  rcases liveSlotIndex_cases a ticket with ⟨-, h'⟩ | ⟨-, j, h', hj⟩ | ⟨-, h', -⟩
  · rw [h] at h'; contradiction
  · rw [h] at h'
    obtain rfl : i = j := by simpa using h'
    exact hj
  · rw [h] at h'; contradiction

/-- In a well-formed authority a ticket resolves to the slot that carries it. -/
theorem WellFormed.liveSlotIndex_eq_ok (ha : WellFormed a) :
    a.liveSlotIndex ticket = .ok i ↔ names ticket (slotAt a.slots i) = true := by
  refine ⟨names_of_liveSlotIndex, fun hi => ?_⟩
  obtain ⟨hu, -, ht⟩ := names_iff.mp hi
  rcases liveSlotIndex_cases a ticket with ⟨h0, -⟩ | ⟨-, j, h, hj⟩ | ⟨-, -, hnone⟩
  · have := (ha.ticket_bounds i hu).1
    omega
  · obtain ⟨hu', -, ht'⟩ := names_iff.mp hj
    rw [h, ha.ticket_inj i j hu hu' (ht.trans ht'.symm)]
  · rw [hnone i] at hi
    contradiction

/-! ## changes -/

/-- What a derivation checks of the parent: it is live and not cut, one level up, and bounds
rights and expiry. -/
structure Admits (parent child : SlotEntry) : Prop where
  inUse : parent.inUse = true
  holderOpen : parent.holderOpen = true
  notCut : parent.admissionCut = false
  depth : child.depth = parent.depth + 1
  rights : child.rights &&& ~~~parent.rights = 0#32
  expiry : ∀ limit, parent.expiry = some limit → ∃ value, child.expiry = some value ∧ value ≤ limit

/-- A slot an allocation may publish at `idx`. -/
structure Fresh (a : CellAuthority) (idx : Nat) (slot : SlotEntry) : Prop where
  notRevoking : a.revoking = false
  lt_length : idx < a.slots.length
  free : (slotAt a.slots idx).inUse = false
  inUse : slot.inUse = true
  holderOpen : slot.holderOpen = true
  childCount : slot.childCount = 0
  ticket : slot.ticket = a.nextTicketCounter
  counter : a.nextTicketCounter + 1 < 2 ^ 64
  depth_le : slot.depth ≤ maxLineageDepth
  root : slot.lineageParent = none → slot.depth = 0
  parent : ∀ p, slot.lineageParent = some p → Admits (slotAt a.slots p) slot

/-- The moves of an authority.  `inherits` says that a derived slot must have its
parent's kind; the option is the ticket the move issues. -/
inductive Change (inherits : Prop) (a : CellAuthority) : Option Nat → CellAuthority → Prop
  | same : Change inherits a none a
  | publish {idx : Nat} {slot : SlotEntry} (hfresh : Fresh a idx slot)
      (hkind : inherits → ∀ p, slot.lineageParent = some p → slot.kind = (slotAt a.slots p).kind) :
      Change inherits a (some a.nextTicketCounter) (a.publishSlot idx slot)
  | close {idx : Nat} {slots : List SlotEntry} (hidx : (slotAt a.slots idx).inUse = true)
      (hforest : Forest slots) (hlive : a.revoking = false → Live slots)
      (hreclaimed : Reclaimed
        (a.slots.modify idx fun slot => { slot with holderOpen := false }) slots) :
      Change inherits a none { a with slots }
  | cut {slots : List SlotEntry} (hlen : slots.length = a.slots.length)
      (hcut : ∀ j, slotAt slots j = slotAt a.slots j ∨
        slotAt slots j = CellAuthority.cut (slotAt a.slots j)) :
      Change inherits a none { a with slots }
  | retire : Change inherits a none a.retire

theorem slotAt_retire (a : CellAuthority) (j : Nat) : slotAt a.retire.slots j =
      if (slotAt a.slots j).inUse = true then cut (slotAt a.slots j)
      else slotAt a.slots j := by
  unfold slotAt retire
  by_cases hj : j < a.slots.length
  · simp [getD_eq_getElem?_getD, hj]
  · simp [getD_eq_getElem?_getD, hj]

theorem WellFormed.of_cut (ha : WellFormed a) (hlen : slots.length = a.slots.length)
    (hcut : ∀ j, slotAt slots j = slotAt a.slots j ∨
      slotAt slots j = CellAuthority.cut (slotAt a.slots j)) : WellFormed { a with slots } := by
  have huse : ∀ j, (slotAt slots j).inUse = (slotAt a.slots j).inUse := by
    intro j
    rcases hcut j with h | h <;> simp [h]
  have htick : ∀ j, (slotAt slots j).ticket = (slotAt a.slots j).ticket := by
    intro j
    rcases hcut j with h | h <;> simp [h]
  constructor
  · exact hlen.trans ha.length
  · exact ha.forest.cut hcut
  · intro hr j hj
    have hl := ha.live hr j (huse j ▸ hj)
    rcases hcut j with h | h <;> simpa [h] using hl
  · intro hr j hj
    have hc := ha.cut hr j (huse j ▸ hj)
    rcases hcut j with h | h <;> simp [h, hc]
  · intro j hj
    rw [htick]
    exact ha.ticket_bounds j (huse j ▸ hj)
  · intro i j hi hj hij
    rw [htick, htick] at hij
    exact ha.ticket_inj i j (huse i ▸ hi) (huse j ▸ hj) hij
  · exact ha.counter

theorem Fresh.slotAt_publishSlot (h : Fresh a idx slot) (j : Nat) :
    slotAt (a.publishSlot idx slot).slots j =
      if j = idx then slot
      else if slot.lineageParent = some j then
        { slotAt a.slots j with childCount := (slotAt a.slots j).childCount + 1 }
      else slotAt a.slots j := by
  refine CSpace.slotAt_publishSlot h.lt_length (fun p hp => ?_) j
  have hu := (h.parent p hp).inUse
  refine ⟨?_, lt_length_of_inUse hu⟩
  rintro rfl
  rw [h.free] at hu
  contradiction

theorem Fresh.slotAt_old (h : Fresh a idx slot) (hj : j ≠ idx) :
    ∃ n, (slotAt a.slots j).childCount ≤ n ∧
      slotAt (a.publishSlot idx slot).slots j = { slotAt a.slots j with childCount := n } := by
  rw [h.slotAt_publishSlot, if_neg hj]
  split_ifs
  · exact ⟨_, Nat.le_succ _, rfl⟩
  · exact ⟨_, le_rfl, rfl⟩

theorem Fresh.wellFormed (ha : WellFormed a) (h : Fresh a idx slot) :
    WellFormed (a.publishSlot idx slot) := by
  have hnew : slotAt (a.publishSlot idx slot).slots idx = slot := by
    rw [h.slotAt_publishSlot, if_pos rfl]
  constructor
  · unfold publishSlot
    cases slot.lineageParent <;> simp [ha.length]
  · exact ha.forest.publishSlot h.lt_length h.free h.inUse h.childCount h.depth_le h.root
      fun p hp => ⟨(h.parent p hp).inUse, (h.parent p hp).depth⟩
  · intro _ j hj
    by_cases hji : j = idx
    · subst hji
      rw [hnew]
      exact .inl h.holderOpen
    obtain ⟨n, hn, hat⟩ := h.slotAt_old hji
    rw [hat] at hj ⊢
    rcases ha.live h.notRevoking j hj with ho | hc
    · exact .inl ho
    · exact .inr (hc.trans_le hn)
  · intro hr
    rw [show (a.publishSlot idx slot).revoking = a.revoking from rfl, h.notRevoking] at hr
    contradiction
  · intro j hj
    by_cases hji : j = idx
    · subst hji
      rw [hnew, h.ticket]
      exact ⟨ha.counter.1, Nat.lt_succ_self _⟩
    · obtain ⟨n, -, hat⟩ := h.slotAt_old hji
      rw [hat] at hj ⊢
      have := ha.ticket_bounds j hj
      exact ⟨this.1, Nat.lt_succ_of_lt this.2⟩
  · -- an old ticket is below the counter, the new one is the counter
    have hold : ∀ j, j ≠ idx → (slotAt (a.publishSlot idx slot).slots j).inUse = true →
        (slotAt a.slots j).inUse = true ∧ (slotAt (a.publishSlot idx slot).slots j).ticket =
          (slotAt a.slots j).ticket := by
      intro j hji hj
      obtain ⟨n, -, hat⟩ := h.slotAt_old hji
      rw [hat] at hj ⊢
      exact ⟨hj, rfl⟩
    intro i j hi hj hij
    by_cases hii : i = idx <;> by_cases hji : j = idx
    · rw [hii, hji]
    · obtain ⟨hu, ht⟩ := hold j hji hj
      rw [hii, hnew, h.ticket, ht] at hij
      have := (ha.ticket_bounds j hu).2
      omega
    · obtain ⟨hu, ht⟩ := hold i hii hi
      rw [hji, hnew, h.ticket, ht] at hij
      have := (ha.ticket_bounds i hu).2
      omega
    · obtain ⟨hu, ht⟩ := hold i hii hi
      obtain ⟨hu', ht'⟩ := hold j hji hj
      rw [ht, ht'] at hij
      exact ha.ticket_inj i j hu hu' hij
  · exact ⟨Nat.succ_pos _, h.counter⟩

theorem slotAt_close (hidx : (slotAt slots idx).inUse = true) (j : Nat) :
    slotAt (slots.modify idx fun slot => { slot with holderOpen := false }) j =
      { slotAt slots j with
        holderOpen := if j = idx then false else (slotAt slots j).holderOpen } := by
  rw [slotAt_modify (lt_length_of_inUse hidx)]
  split_ifs with h
  · rw [h]
  · rfl

/-- The slots in use after a close were in use before and differ only in child counts and, at the
closed index, the open flag. -/
theorem Reclaimed.slotAt_of_close (hidx : (slotAt slots idx).inUse = true)
    (h : Reclaimed (slots.modify idx fun slot => { slot with holderOpen := false }) slots')
    (hj : (slotAt slots' j).inUse = true) :
    slotAt slots' j = { slotAt slots j with
      holderOpen := if j = idx then false else (slotAt slots j).holderOpen
      childCount := (slotAt slots' j).childCount } := by
  have hat := h.kept j hj
  rw [slotAt_close hidx] at hat
  exact hat

/-- **Every change keeps the invariant.** -/
theorem Change.wellFormed
    (ha : WellFormed a) (h : Change inherits a issued a') : WellFormed a' := by
  cases h with
  | same => exact ha
  | publish hfresh => exact hfresh.wellFormed ha
  | @close _ slots hidx hforest hlive hreclaimed =>
    have hkept : ∀ j, (slotAt slots j).inUse = true → (slotAt a.slots j).inUse = true ∧
        (slotAt slots j).ticket = (slotAt a.slots j).ticket ∧
        (slotAt slots j).admissionCut = (slotAt a.slots j).admissionCut := by
      intro j hj
      have hat := hreclaimed.slotAt_of_close hidx hj
      rw [hat] at hj ⊢
      exact ⟨hj, rfl, rfl⟩
    constructor
    · rw [← ha.length]
      simpa using hreclaimed.length
    · exact hforest
    · exact hlive
    · intro hr j hj
      obtain ⟨hu, -, hc⟩ := hkept j hj
      rw [hc]
      exact ha.cut hr j hu
    · intro j hj
      obtain ⟨hu, ht, -⟩ := hkept j hj
      rw [ht]
      exact ha.ticket_bounds j hu
    · intro i j hi hj hij
      obtain ⟨hu, ht, -⟩ := hkept i hi
      obtain ⟨hu', ht', -⟩ := hkept j hj
      exact ha.ticket_inj i j hu hu' (by rw [← ht, ← ht', hij])
    · exact ha.counter
  | cut hlen hcut => exact ha.of_cut hlen hcut
  | retire =>
    have hcut : ∀ j, slotAt a.retire.slots j = slotAt a.slots j ∨
        slotAt a.retire.slots j = CellAuthority.cut (slotAt a.slots j) := by
      intro j
      rw [slotAt_retire]
      split_ifs
      · exact .inr rfl
      · exact .inl rfl
    have hlen : a.retire.slots.length = a.slots.length := by simp [CellAuthority.retire]
    have hwf := ha.of_cut hlen hcut
    refine { hwf with live := Bool.noConfusion, cut := ?_ }
    intro _ j hj
    rw [slotAt_retire] at hj ⊢
    split_ifs at hj ⊢
    · rfl
    · contradiction

/-! ## the operations as changes -/

theorem childDepth_eq_ok (h : a.childDepth rights expiry parent = .ok depth) :
    (parent = none → depth = 0) ∧ depth ≤ maxLineageDepth ∧
    ∀ p, parent = some p → (slotAt a.slots p).admissionCut = false ∧
      depth = (slotAt a.slots p).depth + 1 ∧ rights &&& ~~~(slotAt a.slots p).rights = 0#32 ∧
      ∀ limit, (slotAt a.slots p).expiry = some limit →
        ∃ value, expiry = some value ∧ value ≤ limit := by
  cases parent with
  | none =>
    cases h
    exact ⟨fun _ => rfl, Nat.zero_le _, by simp⟩
  | some =>
    simp only [childDepth] at h
    split_ifs at h with hc hd hm
    cases h
    refine ⟨by simp, by omega, ?_⟩
    rintro q ⟨rfl⟩
    obtain ⟨hr, he⟩ := not_or.mp hd
    refine ⟨by simpa using hc, rfl, by simpa using hr, fun limit hl => ?_⟩
    rw [hl] at he
    cases hv : expiry with
    | none => simp [hv] at he
    | some value => exact ⟨value, rfl, by simpa [hv] using he⟩

/-- **Allocation**: it fails and the authority is untouched, or it publishes a fresh slot with the
requested grant below the parent ticket's slot and answers the counter. -/
theorem allocateSlot_cases (ha : WellFormed a) (holder issuer : Principal) (kind : ResourceKind)
    (rights : BitVec 32) (expiry parentTicket : Option Nat) :
    (∃ e, a.allocateSlot holder issuer kind rights expiry parentTicket = (.error e, a)) ∨
    ∃ idx slot, a.allocateSlot holder issuer kind rights expiry parentTicket =
        (.ok a.nextTicketCounter, a.publishSlot idx slot) ∧ Fresh a idx slot ∧ slot.kind = kind ∧
      (slot.lineageParent = none ↔ parentTicket = none) ∧
      ∀ p, slot.lineageParent = some p → parentTicket = some (slotAt a.slots p).ticket := by
  unfold allocateSlot
  by_cases hrev : a.revoking = true
  · exact .inl ⟨_, if_pos hrev⟩
  rw [if_neg hrev]
  by_cases hkind : kind = .cSpaceAuthority ∧ rights &&& ~~~0x1FF#32 ≠ 0#32
  · exact .inl ⟨_, if_pos hkind⟩
  rw [if_neg hkind]
  cases hpar : a.lineageParentOf parentTicket with
  | error e => exact .inl ⟨e, rfl⟩
  | ok parent =>
  cases hdep : a.childDepth rights expiry parent with
  | error e => exact .inl ⟨e, by simp only [hdep]⟩
  | ok depth =>
  cases hfree : a.slots.findIdx? (fun slot => !slot.inUse) with
  | none => exact .inl ⟨.capacity, by simp only [hdep]⟩
  | some idx =>
  by_cases hmax : 2 ^ 64 ≤ a.nextTicketCounter + 1
  · exact .inl ⟨.exhausted, by simp only [hdep, if_pos hmax]⟩
  have h0 : a.nextTicketCounter ≠ 0 := Nat.pos_iff_ne_zero.mp ha.counter.1
  right
  simp only [hdep, if_neg hmax, if_neg h0]
  -- the parent index is the live slot of the parent ticket
  have hlive : ∀ p, parent = some p → ∃ t, parentTicket = some t ∧
      names t (slotAt a.slots p) = true := by
    rintro p rfl
    cases parentTicket with
    | none => simp [lineageParentOf] at hpar
    | some t =>
      simp only [lineageParentOf] at hpar
      split at hpar
      · next i hi =>
        cases hpar
        exact ⟨t, rfl, names_of_liveSlotIndex hi⟩
      · contradiction
  obtain ⟨hidx, hunused⟩ := findIdx?_slotAt hfree
  obtain ⟨hroot, hle, hchecks⟩ := childDepth_eq_ok hdep
  refine ⟨idx, _, rfl, ?_, rfl, ?_, ?_⟩
  · refine
      { notRevoking := by simpa using hrev, lt_length := hidx, free := by simpa using hunused
        inUse := rfl, holderOpen := rfl, childCount := rfl, ticket := rfl, counter := by omega
        depth_le := hle, root := hroot, parent := fun p hp => ?_ }
    obtain ⟨t, -, hn⟩ := hlive p hp
    obtain ⟨hu, ho, -⟩ := names_iff.mp hn
    obtain ⟨hc, hd, hr, he⟩ := hchecks p hp
    exact ⟨hu, ho, hc, hd, hr, he⟩
  · cases parentTicket with
    | none =>
      cases hpar
      simp
    | some t =>
      simp only [lineageParentOf] at hpar
      split at hpar
      · next i hi =>
        cases hpar
        simp
      · contradiction
  · intro p hp
    obtain ⟨t, ht, hn⟩ := hlive p hp
    rw [ht, (names_iff.mp hn).2.2]

/-- **Closing** returns; an unresolved ticket leaves the authority untouched, a resolved one
closes its slot and reclaims the lineage above it. -/
theorem closeTicket_cases (ha : WellFormed a) (ticket : Nat) :
    (∃ e, a.liveSlotIndex ticket = .error e ∧ a.closeTicket ticket = some (.error e, a)) ∨
    ∃ idx slots, a.liveSlotIndex ticket = .ok idx ∧
      a.closeTicket ticket = some (.ok (), { a with slots }) ∧ Forest slots ∧
      (a.revoking = false → Live slots) ∧
      Reclaimed (a.slots.modify idx fun slot => { slot with holderOpen := false }) slots := by
  unfold closeTicket
  cases hl : a.liveSlotIndex ticket with
  | error e => exact .inl ⟨e, rfl, rfl⟩
  | ok idx =>
    right
    obtain ⟨hu, -⟩ := names_iff.mp (names_of_liveSlotIndex hl)
    have hat := slotAt_close hu
    set shut := a.slots.modify idx fun slot => { slot with holderOpen := false } with hshut
    have hforest : Forest shut := by
      refine ha.forest.congr fun i => ?_
      unfold lineage
      rw [hat]
      exact ⟨rfl, rfl, rfl, rfl⟩
    by_cases hrev : a.revoking = true
    · refine ⟨idx, shut, rfl, by simp only [if_pos hrev, hshut], hforest, ?_, .refl _⟩
      intro h
      rw [hrev] at h
      contradiction
    have hlive : LiveExcept shut idx := by
      intro j hji hj
      rw [hat] at hj ⊢
      rw [if_neg hji]
      exact ha.live (by simpa using hrev) j hj
    have hdepth := ha.forest.depth_le idx hu
    have hfuel : (slotAt shut idx).depth < shut.length + 1 := by
      rw [hat, hshut, length_modify, ha.length]
      unfold maxLineageDepth at hdepth
      unfold maxSlotsPerCell
      dsimp only
      omega
    obtain ⟨slots, he, hf, hl, hr⟩ := reclaimClosedLineage_spec hforest
      (by rw [hat]; exact hu) hlive hfuel
    exact ⟨idx, slots, rfl, by simp only [if_neg hrev, ← hshut, he], hf, fun _ => hl, hr⟩

/-- The target of a revocation and the in-use slots below it. -/
def RevokedBy (slots : List SlotEntry) (target j : Nat) : Prop :=
  j = target ∨ ((slotAt slots j).inUse = true ∧ Below (lineage slots) j target)

/-- **Revoking** returns; an unresolved ticket leaves the authority untouched, a resolved one cuts
its slot and the in-use slots below it. -/
theorem revokeTicket_cases (ha : WellFormed a) (ticket : Nat) :
    (∃ e, a.liveSlotIndex ticket = .error e ∧ a.revokeTicket ticket = some (.error e, a)) ∨
    ∃ target slots, a.liveSlotIndex ticket = .ok target ∧
      a.revokeTicket ticket = some (.ok ticket, { a with slots }) ∧
      slots.length = a.slots.length ∧
      ∀ j, (RevokedBy a.slots target j → slotAt slots j = cut (slotAt a.slots j)) ∧
        (¬RevokedBy a.slots target j → slotAt slots j = slotAt a.slots j) := by
  unfold revokeTicket
  cases hl : a.liveSlotIndex ticket with
  | error e => exact .inl ⟨e, rfl, rfl⟩
  | ok target =>
    right
    obtain ⟨hu, -⟩ := names_iff.mp (names_of_liveSlotIndex hl)
    have hlt := lt_length_of_inUse hu
    have hmod := slotAt_modify hlt cut
    have hforest : Forest (a.slots.modify target cut) := ha.forest.cut fun j => by
      rw [hmod]
      split_ifs with h <;> simp [h]
    obtain ⟨slots, he, hlen, hat⟩ := cutDescendants_spec target
      (List.range (a.slots.modify target cut).length) hforest (by
        rw [length_modify, ha.length]
        decide)
    rw [lineage_modify_cut hlt] at hat
    refine ⟨target, slots, rfl, by simp only [he], by simpa using hlen, fun j => ?_⟩
    have hj := hat j
    rw [hmod] at hj
    by_cases hjt : j = target
    · subst hjt
      rw [if_pos rfl] at hj
      have hself : ¬Below (lineage a.slots) j j := Below.irrefl ha.forest.ranked
      exact ⟨fun _ => hj.2 fun h => hself h.2, fun h => absurd (.inl rfl) h⟩
    rw [if_neg hjt] at hj
    refine ⟨?_, fun h => hj.2 fun hb => h (.inr ?_)⟩
    · rintro (h | ⟨hu, hb⟩)
      · exact absurd h hjt
      · exact hj.1 ⟨by simpa using lt_length_of_inUse hu, hb⟩
    · obtain ⟨q, hq, -⟩ := Below.head_iff.mp hb.2
      exact ⟨(ha.forest.parent j q hq).1, hb.2⟩

end Cellos.CSpace
