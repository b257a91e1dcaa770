import Cellos.CSpace.Wire
import Cellos.Lib

/-!
# Cellos.CSpace.Authority

The slot arena of one cell incarnation and the operations on it
(`kernel/src/cell/cspace.rs`, `CellAuthority`).

A slot is *in use* from allocation until its holder has closed it and its last
child is gone; a closed slot with children stays in use, so that the lineage
below it stays connected.  A ticket names an in-use, open slot.

A `none` is a kernel that does not return: an index out of bounds, a `child_count`
that would go below zero, or a loop that outruns its fuel.
-/

namespace Cellos.CSpace

open Lib

/-- Slots in one cell's arena. -/
def maxSlotsPerCell : Nat := 256

/-- Deepest lineage a derivation may reach. -/
def maxLineageDepth : Nat := 8

/-- One entry of the slot arena; the defaults are `SlotEntry::default`. -/
structure SlotEntry where
  inUse : Bool := false
  holderOpen : Bool := false
  childCount : Nat := 0
  ticket : Nat := 0
  holder : Principal := .kernel
  issuer : Principal := .kernel
  kind : ResourceKind := .none
  rights : BitVec 32 := 0#32
  expiry : Option Nat := none
  lineageParent : Option Nat := none
  depth : Nat := 0
  admissionCut : Bool := false
  quiesced : Bool := true
deriving DecidableEq

/-- The arena entry at `i`.  Past the end this is the default entry, which is
not in use. -/
def slotAt (slots : List SlotEntry) (i : Nat) : SlotEntry := slots.getD i {}

/-- The lineage pointers of an arena. -/
def lineage (slots : List SlotEntry) (i : Nat) : Option Nat := (slotAt slots i).lineageParent

variable {slots : List SlotEntry}

theorem slotAt_of_length_le (h : slots.length ≤ i) : slotAt slots i = {} := by
  simp [slotAt, List.getElem?_eq_none h]

theorem lt_length_of_inUse (h : (slotAt slots i).inUse = true) : i < slots.length := by
  by_contra hi
  rw [slotAt_of_length_le (by omega)] at h
  contradiction

theorem slotAt_set (h : i < slots.length) (x : SlotEntry)
    (j : Nat) : slotAt (slots.set i x) j = if j = i then x else slotAt slots j := by
  unfold slotAt
  by_cases hj : j = i
  · subst hj
    simp [h]
  · simp [hj, Ne.symm hj]

theorem slotAt_modify (h : i < slots.length) (f : SlotEntry → SlotEntry) (j : Nat) :
    slotAt (slots.modify i f) j = if j = i then f (slotAt slots i) else slotAt slots j := by
  unfold slotAt
  by_cases hj : j = i
  · subst hj
    simp [h]
  · simp [hj, Ne.symm hj]

/-- The authority of one `(CellId, generation)`. -/
structure CellAuthority where
  (cellId generation : Nat)
  slots : List SlotEntry
  nextTicketCounter : Nat
  revoking : Bool
deriving DecidableEq

namespace CellAuthority

/-- `CellAuthority::new`. -/
def new (cellId generation : Nat) : CellAuthority :=
  { cellId, generation, slots := List.replicate maxSlotsPerCell {}, nextTicketCounter := 1,
    revoking := false }

variable (a : CellAuthority) (ticket : Nat)

/-- The slot a ticket names is in use, open at its holder, and carries the ticket. -/
def names (slot : SlotEntry) : Bool := slot.inUse && slot.holderOpen && slot.ticket == ticket

/-- Resolve a ticket to the index of its live slot. -/
def liveSlotIndex : Except ControlStatus Nat :=
  if ticket = 0 then .error .invalid
  else match a.slots.findIdx? (names ticket) with
    | some i => .ok i
    | none => .error .stale

/-! ## allocation -/

/-- Resolve the parent ticket of an allocation, if it names one. -/
def lineageParentOf : Option Nat → Except ControlStatus (Option Nat)
  | none => .ok none
  | some ticket => match a.liveSlotIndex ticket with
    | .ok i => .ok (some i)
    | .error e => .error e

/-- Check a derivation against its parent and compute the child's depth: the
parent must not be cut, the rights must be a subset, the expiry must not outlive
the parent's, and the lineage must not get too deep. -/
def childDepth (rights : BitVec 32) (expiry : Option Nat) : Option Nat → Except ControlStatus Nat
  | none => .ok 0
  | some parentIdx =>
    let p := slotAt a.slots parentIdx
    if p.admissionCut then .error .admissionCut
    else if rights &&& ~~~p.rights ≠ 0#32 ∨
        p.expiry.any (fun limit => expiry.all fun value => limit < value) then .error .denied
    else if maxLineageDepth < p.depth + 1 then .error .capacity
    else .ok (p.depth + 1)

/-- Write the new slot and count it at its parent. -/
def publishSlot (idx : Nat) (slot : SlotEntry) : CellAuthority :=
  let slots := a.slots.set idx slot
  let slots := match slot.lineageParent with
    | none => slots
    | some p => slots.modify p fun parent => { parent with childCount := parent.childCount + 1 }
  { a with slots, nextTicketCounter := a.nextTicketCounter + 1 }

/-- `CellAuthority::allocate_slot`. -/
def allocateSlot (holder issuer : Principal) (kind : ResourceKind)
    (rights : BitVec 32) (expiry : Option Nat) (parentTicket : Option Nat) :
    Except ControlStatus Nat × CellAuthority :=
  if a.revoking then (.error .admissionCut, a)
  else if kind = .cSpaceAuthority ∧ rights &&& ~~~0x1FF#32 ≠ 0#32 then (.error .invalid, a)
  else match a.lineageParentOf parentTicket with
    | .error e => (.error e, a)
    | .ok lineageParent => match a.childDepth rights expiry lineageParent with
      | .error e => (.error e, a)
      | .ok depth => match a.slots.findIdx? (fun slot => !slot.inUse) with
        | none => (.error .capacity, a)
        | some idx =>
          -- `checked_add(1)` on the 64-bit counter
          if 2 ^ 64 ≤ a.nextTicketCounter + 1 then (.error .exhausted, a)
          else if a.nextTicketCounter = 0 then (.error .exhausted, a)
          else (.ok a.nextTicketCounter, a.publishSlot idx
            { inUse := true, holderOpen := true, childCount := 0, ticket := a.nextTicketCounter,
              holder, issuer, kind, rights, expiry, lineageParent, depth,
              admissionCut := false, quiesced := false })

/-! ## verification and closing -/

/-- `CellAuthority::verify_ticket`. -/
def verifyTicket : Except ControlStatus SlotEntry :=
  match a.liveSlotIndex ticket with
  | .error e => .error e
  | .ok i =>
    if (slotAt a.slots i).admissionCut then .error .admissionCut else .ok (slotAt a.slots i)

/-- `CellAuthority::reclaim_closed_lineage`: free the slot and climb, as long as
the slot is closed and childless. -/
def reclaimClosedLineage : Nat → List SlotEntry → Nat → Option (List SlotEntry)
  | 0, _, _ => none
  | fuel + 1, slots, idx =>
    if slots.length ≤ idx then none
    else if (slotAt slots idx).holderOpen || (slotAt slots idx).childCount != 0 then some slots
    else
      let freed := slots.modify idx fun slot => { slot with lineageParent := none, inUse := false }
      match (slotAt slots idx).lineageParent with
      | none => some freed
      | some parentIdx =>
        if freed.length ≤ parentIdx then none
        -- `child_count -= 1` must not underflow
        else if (slotAt freed parentIdx).childCount = 0 then none
        else reclaimClosedLineage fuel
          (freed.modify parentIdx fun slot => { slot with childCount := slot.childCount - 1 })
          parentIdx

/-- `CellAuthority::close_ticket`. -/
def closeTicket : Option (Except ControlStatus Unit × CellAuthority) :=
  match a.liveSlotIndex ticket with
  | .error e => some (.error e, a)
  | .ok idx =>
    let slots := a.slots.modify idx fun slot => { slot with holderOpen := false }
    if a.revoking then some (.ok (), { a with slots })
    else match reclaimClosedLineage (slots.length + 1) slots idx with
      | none => none
      | some slots => some (.ok (), { a with slots })

/-! ## revocation -/

/-- Put a slot out of use for verification and derivation. -/
def cut (slot : SlotEntry) : SlotEntry := { slot with admissionCut := true }

/-- The sweep of a revocation over the given indices: an in-use slot that is not cut yet climbs
its lineage, and is cut when it meets the target. -/
def cutDescendants (target : Nat) : List Nat → List SlotEntry → Option (List SlotEntry)
  | [], slots => some slots
  | i :: is, slots =>
    if (slotAt slots i).inUse && !(slotAt slots i).admissionCut then
      match climb (lineage slots) target (slots.length + 1) (lineage slots i) with
      | none => none
      | some true => cutDescendants target is (slots.modify i cut)
      | some false => cutDescendants target is slots
    else cutDescendants target is slots

/-- `CellAuthority::revoke_ticket`. -/
def revokeTicket : Option (Except ControlStatus Nat × CellAuthority) :=
  match a.liveSlotIndex ticket with
  | .error e => some (.error e, a)
  | .ok target =>
    let slots := a.slots.modify target cut
    match cutDescendants target (List.range slots.length) slots with
    | none => none
    | some slots => some (.ok ticket, { a with slots })

/-- `CellAuthority::query_revoke`. -/
def queryRevoke : Except ControlStatus ControlStatus :=
  if a.revoking then
    if ticket = 0 then .error .invalid
    else if a.slots.any (fun slot => slot.inUse && slot.ticket == ticket) then .ok .admissionCut
    else .error .stale
  else match a.liveSlotIndex ticket with
    | .error e => .error e
    | .ok i =>
      if (slotAt a.slots i).quiesced then .ok .quiesced
      else if (slotAt a.slots i).admissionCut then .ok .admissionCut
      else .ok .pending

/-- The body of `retire_cell_authority`: stop admissions and cut every in-use slot. -/
def retire : CellAuthority :=
  { a with
    revoking := true
    slots := a.slots.map fun slot => if slot.inUse then cut slot else slot }

end CellAuthority

end Cellos.CSpace
