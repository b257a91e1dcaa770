import Cellos.Lib

/-!
# Cellos.Memory.Quota

Heap quotas of cells (`memory/cell_quota.rs`, `QuotaAlloc` of `memory/heap.rs`).

`IN_USE` has one counter for each cell and is updated without a lock; the limits are behind
a lock that is held for one lookup or one update.  An allocation reads the limit, adds its
size to the counter and takes it back when the limit is exceeded; a free subtracts from the
counter of whichever cell is current.  A cell identity is given to a new cell after the old
one is deregistered.

A block is live from the return of the allocation to the call of the free.  It belongs to
the registration of the cell it was charged to, which `era` numbers.
-/

namespace Cellos.Memory.Quota

open Lib List Function

/-- `usize::MAX`. -/
def usizeMax : Nat := 2 ^ 64 - 1

/-- A build with `MAX_CELLS` counters, on which `callers` calls can be in progress. -/
structure Machine where
  (maxCells callers : Nat)

/-- A block of the heap: the cell its allocation was charged to, the registration of that
cell at the time, and its size. -/
structure Block where
  (id cell era size : Nat)
deriving DecidableEq

/-- What a call does next. -/
inductive Phase where
  | idle
  /-- `charge` looks up the limit. -/
  | charging (cell size : Nat)
  /-- `charge` adds the size to the counter and compares with the limit. -/
  | adding (cell size limit : Nat)
  /-- `charge` takes the size back. -/
  | rolling (cell size : Nat)
  /-- `alloc_impl` asks the heap for a block. -/
  | granted (cell size era : Nat)
  /-- `alloc_impl` refunds, since the heap had none. -/
  | refunding (cell size era : Nat)
  /-- `dealloc` refunds the block to the current cell. -/
  | releasing (cell : Nat) (block : Block)
  /-- `reserve` looks whether the identity is taken. -/
  | checking (cell limit : Nat)
  /-- `register` clears the counter. -/
  | zeroing (cell limit : Nat)
  /-- `register` stores the limit. -/
  | inserting (cell limit : Nat)
  /-- `deregister` clears the counter. -/
  | clearing (cell : Nat)
  /-- `deregister` removes the limit. -/
  | removing (cell : Nat)
deriving DecidableEq

open Phase

structure World (m : Machine) where
  inUse : Nat → Nat
  limits : Nat → Option Nat
  calls : Fin m.callers → Phase
  /-- How often each identity was registered. -/
  era : Nat → Nat
  live : List Block
  nextBlock : Nat

/-- The state before the first cell. -/
def boot (m : Machine) : World m where
  inUse := fun _ => 0
  limits := fun _ => none
  calls := fun _ => .idle
  era := fun _ => 0
  live := []
  nextBlock := 0

inductive Op (m : Machine) where
  /-- `alloc` while `cell` is current. -/
  | alloc (c : Fin m.callers) (cell size : Nat)
  /-- `dealloc` of a live block while `cell` is current. -/
  | dealloc (c : Fin m.callers) (cell block : Nat)
  /-- `QuotaReservation::reserve`. -/
  | reserve (c : Fin m.callers) (cell limit : Nat)
  | deregister (c : Fin m.callers) (cell : Nat)
  /-- The next atomic operation of a call; `found` says whether the heap has a block. -/
  | turn (c : Fin m.callers) (found : Bool)

/-- What the caller sees. -/
inductive Response where
  | pending
  | allocated (block : Nat)
  /-- A null pointer: the quota is exceeded. -/
  | nullFromQuota
  /-- A null pointer: the heap is exhausted. -/
  | nullFromHeap
  | freed
  | reserved
  | permissionDenied
  | alreadyExists
  | deregistered

namespace World

variable {m : Machine}

variable (w : World m)

/-- A call goes on in another phase. -/
def goto (c : Fin m.callers) (phase : Phase) : World m :=
  { w with calls := update w.calls c phase }

/-- Store a counter. -/
def setInUse (cell value : Nat) : World m :=
  { w with inUse := update w.inUse cell value }

/-- Store or remove a limit; a stored one begins a registration. -/
def setRow (cell : Nat) (row : Option Nat) : World m :=
  { w with
    limits := update w.limits cell row
    era := update w.era cell (w.era cell + if row.isSome then 1 else 0) }

/-- `refund`: a saturating subtraction; the kernel and identities without a counter have
nothing to refund. -/
def refund (cell size : Nat) : World m :=
  if cell = 0 ∨ m.maxCells ≤ cell then w else w.setInUse cell (w.inUse cell - size)

/-- The limit `charge` compares with; a cell without one has no limit. -/
def limit (cell : Nat) : Nat := (w.limits cell).getD usizeMax

/-- The next atomic operation of a call. -/
def turn (c : Fin m.callers) (found : Bool) : Option (Response × World m) :=
  match w.calls c with
  | .idle => none
  | .charging cell size =>
    if m.maxCells ≤ cell then some (.pending, w.goto c (.granted cell size (w.era cell)))
    else some (.pending, w.goto c (.adding cell size (w.limit cell)))
  | .adding cell size limit =>
    let added := w.setInUse cell ((w.inUse cell + size) % 2 ^ 64)
    if limit < min (w.inUse cell + size) usizeMax then
      some (.pending, added.goto c (.rolling cell size))
    else some (.pending, added.goto c (.granted cell size (w.era cell)))
  | .rolling cell size =>
    some (.nullFromQuota,
      (w.setInUse cell ((w.inUse cell + (2 ^ 64 - size)) % 2 ^ 64)).goto c .idle)
  | .granted cell size era =>
    if found then
      some (.allocated w.nextBlock, { w.goto c .idle with
        live := ⟨w.nextBlock, cell, era, size⟩ :: w.live
        nextBlock := w.nextBlock + 1 })
    else some (.pending, w.goto c (.refunding cell size era))
  | .refunding cell size _ => some (.nullFromHeap, (w.refund cell size).goto c .idle)
  | .releasing cell block => some (.freed, (w.refund cell block.size).goto c .idle)
  | .checking cell limit =>
    if (w.limits cell).isSome then some (.alreadyExists, w.goto c .idle)
    else some (.pending, w.goto c (.zeroing cell limit))
  | .zeroing cell limit => some (.pending, (w.setInUse cell 0).goto c (.inserting cell limit))
  | .inserting cell limit => some (.reserved, (w.setRow cell (some limit)).goto c .idle)
  | .clearing cell =>
    let cleared := if cell < m.maxCells then w.setInUse cell 0 else w
    some (.pending, cleared.goto c (.removing cell))
  | .removing cell => some (.deregistered, (w.setRow cell none).goto c .idle)

end World

/-- One step: a call begins, or a call in progress performs its next atomic operation. -/
def step (m : Machine) (w : World m) : Op m → Option (Response × World m)
  | .alloc c cell size =>
    if w.calls c ≠ .idle ∨ usizeMax < size then none
    else if cell = 0 then some (.pending, w.goto c (.granted cell size (w.era cell)))
    else some (.pending, w.goto c (.charging cell size))
  | .dealloc c cell block =>
    if w.calls c ≠ .idle then none
    else
      match w.live.find? fun b => b.id = block with
      | none => none
      | some b => some (.pending, { w.goto c (.releasing cell b) with live := w.live.erase b })
  | .reserve c cell limit =>
    if w.calls c ≠ .idle then none
    else if cell = 0 ∨ m.maxCells ≤ cell then some (.permissionDenied, w)
    else some (.pending, w.goto c (.checking cell limit))
  | .deregister c cell =>
    if w.calls c ≠ .idle then none else some (.pending, w.goto c (.clearing cell))
  | .turn c found => w.turn c found

/-! ## what is charged -/

/-- The call changes the row of the cell. -/
def Phase.changes (cell : Nat) : Phase → Bool
  | .zeroing id _ | .inserting id _ | .clearing id | .removing id => id = cell
  | _ => false

/-- The call runs on behalf of the cell. -/
def Phase.actsFor (cell : Nat) : Phase → Bool
  | .charging id _ | .adding id _ _ | .rolling id _ | .granted id _ _ | .refunding id _ _
  | .releasing id _ => id = cell
  | _ => false

/-- What the call has charged to a registration and not turned into a block or refunded. -/
def Phase.charge (cell era : Nat) : Phase → Nat
  | .granted id size e | .refunding id size e => if id = cell ∧ e = era then size else 0
  | .releasing id b => if id = cell ∧ b.cell = cell ∧ b.era = era then b.size else 0
  | _ => 0

/-- What the call added to the counter without a charge. -/
def Phase.excess (cell : Nat) : Phase → Nat
  | .rolling id size => if id = cell then size else 0
  | _ => 0

/-- A call on behalf of one cell has nothing to do with another. -/
theorem Phase.elsewhere {phase : Phase} {cell id : Nat}
    (h : phase.actsFor cell = true ∨ phase = .idle) (hid : id ≠ cell) (era : Nat) :
    phase.actsFor id = false ∧ phase.charge id era = 0 ∧ phase.excess id = 0 := by
  cases phase <;> simp only [actsFor, charge, excess] at h ⊢ <;> grind

theorem Phase.not_changes {phase : Phase}
    (h : phase.actsFor cell = true ∨ phase = .idle) (id : Nat) : phase.changes id = false := by
  cases phase <;> simp only [actsFor, changes] at h ⊢ <;> grind

namespace World

variable {m : Machine}

/-- The total size of the live blocks charged to the current registration of a cell. -/
def charged (w : World m) (cell : Nat) : Nat :=
  ((w.live.filter fun b => b.cell = cell ∧ b.era = w.era cell).map (·.size)).sum

/-- The row of the cell is not being changed. -/
def steady (w : World m) (cell : Nat) : Bool := ∀ c, (w.calls c).changes cell = false

/-- No call runs on behalf of the cell. -/
def quiet (w : World m) (cell : Nat) : Bool := ∀ c, (w.calls c).actsFor cell = false

/-- The block was charged to the current registration of the cell. -/
def owns (w : World m) (cell : Nat) (b : Block) : Bool := b.cell = cell ∧ b.era = w.era cell

end World

/-- No call runs on behalf of a cell while its row is being registered or deregistered, a
registered cell frees what was charged to it, and no addition wraps the counter. -/
def disciplined {m : Machine} (w : World m) : Op m → Bool
  | .alloc _ cell _ => w.steady cell
  | .dealloc _ cell block => w.steady cell ∧
      ((w.limits cell).isSome → (w.live.find? fun b => b.id = block).all (w.owns cell))
  | .reserve _ _ _ => true
  | .deregister _ cell => w.quiet cell
  | .turn c _ =>
    match w.calls c with
    | .checking cell _ => (w.limits cell).isSome ∨ w.quiet cell
    | .adding cell size _ => w.inUse cell + size ≤ usizeMax
    | _ => true

/-! ## the counters cover the charges -/

namespace World

variable {m : Machine} {w w' : World m} {c : Fin m.callers} {phase : Phase} {cell : Nat} {b : Block}
  {row : Option Nat}

/-- What is charged to a cell, in blocks and in calls. -/
def held (w : World m) (cell : Nat) : Nat :=
  w.charged cell + tally (Phase.charge cell (w.era cell)) w.calls

/-- What is added to a counter and taken back later. -/
def excess (w : World m) (cell : Nat) : Nat := tally (Phase.excess cell) w.calls

/-- What a call in progress may rely on. -/
def Sensible (w : World m) : Phase → Prop
  | .charging cell _ => 0 < cell
  | .adding cell _ limit => limit = w.limit cell ∧ 0 < cell ∧ cell < m.maxCells
  | .rolling cell _ => 0 < cell
  | .granted cell _ era | .refunding cell _ era => era = w.era cell
  | .releasing cell b => (w.limits cell).isSome → w.owns cell b
  | .checking cell _ | .zeroing cell _ | .inserting cell _ => 0 < cell ∧ cell < m.maxCells
  | _ => True

/-- The counters against the blocks and the calls. -/
structure Sound (w : World m) : Prop where
  words : ∀ cell, w.inUse cell ≤ usizeMax
  rows : ∀ cell, (w.limits cell).isSome → 0 < cell ∧ cell < m.maxCells
  apart : ∀ c d cell, (w.calls c).changes cell = true → (w.calls d).actsFor cell = false
  calls : ∀ c, w.Sensible (w.calls c)
  past : ∀ b ∈ w.live, b.era ≤ w.era b.cell
  covered : ∀ cell, (w.limits cell).isSome → w.steady cell →
    w.held cell + w.excess cell ≤ w.inUse cell
  bounded : ∀ cell limit, w.limits cell = some limit → w.held cell ≤ limit

/-- A call may move on to a phase: it can rely on what it has to, and it acts for a cell or
changes a row only if it did so before or nothing stands against it. -/
structure Enters (w : World m) (c : Fin m.callers) (phase : Phase) : Prop where
  sensible : w.Sensible phase
  acts : ∀ cell, phase.actsFor cell = true → (w.calls c).actsFor cell = true ∨ w.steady cell = true
  changes : ∀ cell, phase.changes cell = true →
    (w.calls c).changes cell = true ∨ w.quiet cell = true
  keeps : ∀ cell, (w.calls c).changes cell = true → phase.changes cell = true

theorem steady_iff : w.steady cell = true ↔ ∀ c, (w.calls c).changes cell = false := by
  simp [steady]

theorem held_update (cell : Nat) (hcalls : w'.calls = update w.calls c phase)
    (hera : w'.era cell = w.era cell) :
    w'.held cell + w.charged cell + (w.calls c).charge cell (w.era cell) =
      w.held cell + w'.charged cell + phase.charge cell (w.era cell) := by
  have := tally_update (charge cell (w.era cell)) w.calls c phase
  simp only [held, hcalls, hera]
  omega

theorem excess_update (cell : Nat) (hcalls : w'.calls = update w.calls c phase) :
    w'.excess cell + (w.calls c).excess cell = w.excess cell + phase.excess cell := by
  have := tally_update (Phase.excess cell) w.calls c phase
  simp only [excess, hcalls]
  omega

theorem charged_cons (hlive : w'.live = b :: w.live) (hera : w'.era = w.era) : w'.charged cell =
      (if b.cell = cell ∧ b.era = w.era cell then b.size else 0) + w.charged cell := by
  simp only [charged, hlive, hera, filter_cons, decide_eq_true_eq]
  split <;> simp

theorem charged_erase (hb : b ∈ w.live) (hlive : w'.live = w.live.erase b) (hera : w'.era = w.era) :
    (if b.cell = cell ∧ b.era = w.era cell then b.size else 0) + w'.charged cell =
      w.charged cell := by
  have hperm := ((perm_cons_erase hb).filter fun b =>
    b.cell = cell ∧ b.era = w.era cell).map (·.size)
  simp only [charged, hlive, hera, hperm.sum_eq, filter_cons, decide_eq_true_eq]
  split <;> simp

theorem sensible_congr (hlimits : w'.limits = w.limits) (hera : w'.era = w.era)
    (h : w.Sensible phase) : w'.Sensible phase := by
  cases phase <;> simp_all [Sensible, limit, owns]

/-- A row that a call has nothing to do with does not matter to it. -/
theorem sensible_of_ne {e : Nat} (h : phase.actsFor cell = false)
    (hlimits : w'.limits = update w.limits cell row)
    (hera : w'.era = update w.era cell e) (hs : w.Sensible phase) : w'.Sensible phase := by
  cases phase <;>
    simp_all [Sensible, limit, owns, actsFor, update_of_ne]

/-- A call that does nothing for a cell has charged nothing to it. -/
theorem charge_of_actsFor (h : phase.actsFor cell = false) (era : Nat) :
    phase.charge cell era = 0 ∧ phase.excess cell = 0 := by
  cases phase <;> simp_all [Phase.actsFor, Phase.charge, Phase.excess]

/-- A call that changes a row does nothing else. -/
theorem actsFor_of_changes (h : phase.changes cell = true) (id : Nat) :
    phase.actsFor id = false := by
  cases phase <;> simp_all [changes, actsFor]

theorem changes_of_ne {id : Nat} (h : phase.changes cell = true) (hid : id ≠ cell) :
    phase.changes id = false := by
  cases phase <;> simp_all [changes, Ne.symm]

attribute [simp] Phase.actsFor Phase.changes Phase.charge Phase.excess

namespace Sound

variable (s : w.Sound)

include s

/-- Calls on behalf of a cell and changes of its row stay apart when a call moves on. -/
theorem apart_update (hacts : ∀ cell, phase.actsFor cell = true →
      (w.calls c).actsFor cell = true ∨ w.steady cell = true)
    (hchanges : ∀ cell, phase.changes cell = true →
      (w.calls c).changes cell = true ∨ w.quiet cell = true) (a b : Fin m.callers) (cell : Nat)
    (h : (update w.calls c phase a).changes cell = true) :
    (update w.calls c phase b).actsFor cell = false := by
  rw [update_apply] at h ⊢
  split at h <;> split
  · exact actsFor_of_changes h cell
  · rcases hchanges cell h with hold | hquiet
    · exact s.apart c b cell hold
    · exact of_decide_eq_true hquiet b
  · by_contra hacting
    rw [Bool.not_eq_false] at hacting
    rcases hacts cell hacting with hold | hsteady
    · rw [s.apart a c cell h] at hold
      contradiction
    · rw [steady_iff.mp hsteady a] at h
      contradiction
  · exact s.apart a b cell h

section

variable (hcalls : w'.calls = update w.calls c phase) (hlimits : w'.limits = w.limits)
  (hera : w'.era = w.era) (hwords : ∀ cell, w'.inUse cell ≤ usizeMax) (henters : w.Enters c phase)
  (hpast : ∀ b ∈ w'.live, b.era ≤ w.era b.cell)
  (hcover : ∀ cell, (w.limits cell).isSome → w'.steady cell →
    w'.charged cell + phase.charge cell (w.era cell) + phase.excess cell + w.inUse cell ≤
      w.charged cell + (w.calls c).charge cell (w.era cell) + (w.calls c).excess cell +
        w'.inUse cell)

include hcalls hlimits hera hwords henters hpast hcover

theorem move (hbound : ∀ cell limit, w.limits cell = some limit → w'.held cell ≤ limit) :
    w'.Sound := by
  refine ⟨hwords, hlimits ▸ s.rows, ?_, fun d => ?_, hera ▸ hpast, fun cell hrow hsteady => ?_,
    hlimits ▸ hbound⟩
  · rw [hcalls]
    exact s.apart_update henters.acts henters.changes
  · rw [hcalls, update_apply]
    split
    · exact sensible_congr hlimits hera henters.sensible
    · exact sensible_congr hlimits hera (s.calls d)
  · rw [hlimits] at hrow
    have hold : w.steady cell = true := by
      rw [steady_iff] at hsteady ⊢
      intro d
      have hd := hsteady d
      rw [hcalls, update_apply] at hd
      split at hd
      · next heq =>
        by_contra hchanging
        rw [Bool.not_eq_false, heq] at hchanging
        rw [henters.keeps cell hchanging] at hd
        contradiction
      · exact hd
    have hcovered := s.covered cell hrow hold
    have hheld := held_update cell hcalls (congrFun hera cell)
    have hexcess := excess_update cell hcalls
    have hnew := hcover cell hrow hsteady
    omega

theorem shift (hcharge : ∀ cell, (w.limits cell).isSome →
      w'.charged cell + phase.charge cell (w.era cell) ≤
        w.charged cell + (w.calls c).charge cell (w.era cell)) : w'.Sound := by
  refine s.move hcalls hlimits hera hwords henters hpast hcover fun cell limit hrow => ?_
  have hheld := held_update cell hcalls (congrFun hera cell)
  have hbounded := s.bounded cell limit hrow
  have := hcharge cell (by rw [hrow]; rfl)
  omega

end

/-- A call moves on without touching a counter, a block or a charge. -/
theorem goto (henters : w.Enters c phase) (hcharge : ∀ cell, (w.limits cell).isSome →
      phase.charge cell (w.era cell) = (w.calls c).charge cell (w.era cell) ∧
        phase.excess cell = (w.calls c).excess cell) : (w.goto c phase).Sound := by
  refine s.shift rfl rfl rfl s.words henters s.past (fun cell hrow _ => ?_) fun cell hrow => ?_
  · obtain ⟨hcharge, hexcess⟩ := hcharge cell hrow
    show w.charged cell + _ + _ + _ ≤ _ + w.inUse cell
    rw [hcharge, hexcess]
  · show w.charged cell + _ ≤ _
    rw [(hcharge cell hrow).1]

theorem words_store (hvalue : value ≤ usizeMax) (id : Nat) :
    update w.inUse cell value id ≤ usizeMax := by
  rw [update_apply]
  split
  · exact hvalue
  · exact s.words id

/-- A call moves on and stores the counter of the cell it acts for. -/
theorem store (hvalue : value ≤ usizeMax) (hs : w.Sensible phase)
    (hacts : phase.actsFor cell = true ∨ phase = .idle) (hold : (w.calls c).actsFor cell = true)
    (hlimit : ∀ limit, w.limits cell = some limit → w.held cell + phase.charge cell (w.era cell) ≤
        limit + (w.calls c).charge cell (w.era cell))
    (hcover : (w.limits cell).isSome → phase.charge cell (w.era cell) + phase.excess cell +
      w.inUse cell ≤ (w.calls c).charge cell (w.era cell) + (w.calls c).excess cell + value) :
    ((w.setInUse cell value).goto c phase).Sound := by
  refine s.move rfl rfl rfl (s.words_store hvalue) ⟨hs, fun id hid => ?_, fun id hid => ?_,
    fun id hid => ?_⟩ s.past (fun id hrow _ => ?_) fun id limit hrow => ?_
  · by_cases heq : id = cell
    · exact .inl (heq ▸ hold)
    · rw [(elsewhere hacts heq 0).1] at hid
      contradiction
  · rw [not_changes hacts id] at hid
    contradiction
  · rw [not_changes (.inl hold) id] at hid
    contradiction
  · show w.charged id + _ + _ + _ ≤ w.charged id + _ + _ + update w.inUse cell value id
    by_cases heq : id = cell
    · subst heq
      rw [update_self]
      have := hcover hrow
      omega
    · obtain ⟨-, hc, he⟩ := elsewhere hacts heq (w.era id)
      rw [update_of_ne heq, hc, he]
      omega
  · have hheld : ((w.setInUse cell value).goto c phase).held id + w.charged id +
        (w.calls c).charge id (w.era id) =
          w.held id + w.charged id + phase.charge id (w.era id) := held_update id rfl rfl
    by_cases heq : id = cell
    · subst heq
      have := hlimit limit hrow
      omega
    · have hbounded := s.bounded id limit hrow
      obtain ⟨-⟩ := elsewhere hacts heq (w.era id)
      omega

/-- While a call runs on behalf of a cell, the row of the cell is not changed. -/
theorem steady (h : (w.calls c).actsFor cell = true) : w.steady cell = true := by
  rw [steady_iff]
  intro d
  by_contra hchanging
  rw [Bool.not_eq_false] at hchanging
  rw [s.apart d c cell hchanging] at h
  contradiction

variable {size : Nat} {limit : Nat}

/-- `charge` adds the size, and the call accounts for no more than that. -/
theorem add (hphase : w.calls c = .adding cell size limit)
    (hwrap : w.inUse cell + size ≤ usizeMax) (hs : w.Sensible phase)
    (hacts : phase.actsFor cell = true)
    (hlimit : ∀ l, w.limits cell = some l → w.held cell + phase.charge cell (w.era cell) ≤ l)
    (hcover : phase.charge cell (w.era cell) + phase.excess cell ≤ size) :
    ((w.setInUse cell ((w.inUse cell + size) % 2 ^ 64)).goto c phase).Sound := by
  have hmod : (w.inUse cell + size) % 2 ^ 64 = w.inUse cell + size :=
    Nat.mod_eq_of_lt (by simp only [usizeMax] at hwrap; omega)
  rw [hmod]
  refine s.store hwrap hs (.inl hacts) (by simp [hphase]) (fun l hl => ?_) fun _ => ?_
  · simpa [hphase] using hlimit l hl
  · rw [hphase]
    show _ ≤ 0 + 0 + _
    omega

/-- `charge` grants: the counter covered everything before, so everything is still within the
limit. -/
theorem grant (hphase : w.calls c = .adding cell size limit) (hlimit : limit = w.limit cell)
    (hwrap : w.inUse cell + size ≤ usizeMax) (h : w.inUse cell + size ≤ limit) :
    ((w.setInUse cell ((w.inUse cell + size) % 2 ^ 64)).goto c
      (.granted cell size (w.era cell))).Sound := by
  refine s.add hphase hwrap rfl (by simp) (fun l hl => ?_) (by simp)
  have hcovered := s.covered cell (by rw [hl]; rfl) (s.steady (c := c) (by simp [hphase]))
  have : limit = l := by rw [hlimit, World.limit, hl]; rfl
  simp only [Phase.charge, and_self, if_true]
  omega

theorem rollBack (hphase : w.calls c = .rolling cell size) :
    ((w.setInUse cell ((w.inUse cell + (2 ^ 64 - size)) % 2 ^ 64)).goto c .idle).Sound := by
  have hacts : (w.calls c).actsFor cell = true := by simp [hphase]
  have hvalue : (w.inUse cell + (2 ^ 64 - size)) % 2 ^ 64 ≤ usizeMax := by
    simp only [usizeMax]
    omega
  refine s.store hvalue trivial (.inr rfl) hacts (fun l hl => ?_) fun hrow => ?_
  · have := s.bounded cell l hl
    simp only [hphase, Phase.charge]
    omega
  have hcovered := s.covered cell hrow (s.steady hacts)
  have hexcess := weight_le_tally (Phase.excess cell) w.calls c
  have hword := s.words cell
  simp only [hphase, Phase.charge, Phase.excess, if_true, World.excess, usizeMax]
    at hcovered hexcess hword ⊢
  omega

theorem refund (hacts : (w.calls c).actsFor cell = true)
    (hcharge : (w.limits cell).isSome → (w.calls c).charge cell (w.era cell) = size) :
    ((w.refund cell size).goto c .idle).Sound := by
  unfold World.refund
  split
  · next hout =>
    -- a cell without a counter has no row
    refine s.shift rfl rfl rfl s.words ⟨trivial, by simp, by simp, fun id hid => ?_⟩ s.past
      (fun id _ _ => ?_) fun id _ => ?_
    · cases hp : w.calls c <;> simp_all
    · show w.charged id + 0 + 0 + _ ≤ _ + w.inUse id
      omega
    · show w.charged id + 0 ≤ _
      omega
  · refine s.store ((Nat.sub_le _ _).trans (s.words cell)) trivial (.inr rfl) hacts
      (fun l hl => ?_) fun hrow => ?_
    · have := s.bounded cell l hl
      simp only [charge]
      omega
    · have := hcharge hrow
      show 0 + 0 + w.inUse cell ≤ _
      omega

theorem allocate {era : Nat} (hphase : w.calls c = .granted cell size era) : ({ w.goto c .idle with
      live := ⟨w.nextBlock, cell, era, size⟩ :: w.live
      nextBlock := w.nextBlock + 1 } : World m).Sound := by
  have hera : era = w.era cell := by
    have := s.calls c
    rwa [hphase] at this
  have hcons (id : Nat) : ({ w.goto c .idle with
      live := ⟨w.nextBlock, cell, era, size⟩ :: w.live
      nextBlock := w.nextBlock + 1 } : World m).charged id =
        (if cell = id ∧ era = w.era id then size else 0) + w.charged id :=
    charged_cons (b := ⟨w.nextBlock, cell, era, size⟩) rfl rfl
  refine s.shift rfl rfl rfl s.words ⟨trivial, by simp, by simp, by simp [hphase]⟩
    (forall_mem_cons.mpr ⟨hera.le, s.past⟩) (fun id _ _ => ?_) fun id _ => ?_
  · rw [hcons]
    simp only [hphase, Phase.charge, Phase.excess]
    show _ + w.inUse id ≤ _ + w.inUse id
    omega
  · rw [hcons]
    simp only [hphase, Phase.charge]
    omega

theorem release (hphase : w.calls c = .idle) (hb : b ∈ w.live)
    (hsteady : w.steady cell = true) (howns : (w.limits cell).isSome → w.owns cell b) :
    ({ w.goto c (.releasing cell b) with live := w.live.erase b } : World m).Sound := by
  have herase (id : Nat) : (if b.cell = id ∧ b.era = w.era id then b.size else 0) +
      ({ w.goto c (.releasing cell b) with live := w.live.erase b } : World m).charged id =
        w.charged id := charged_erase hb rfl rfl
  have hcharge (id : Nat) : (releasing cell b).charge id (w.era id) ≤
      if b.cell = id ∧ b.era = w.era id then b.size else 0 := by
    simp only [charge]
    split <;> split <;> simp_all
  refine s.shift rfl rfl rfl s.words ⟨howns, fun id hid => ?_, by simp, by simp [hphase]⟩
    (fun d hd => s.past d (mem_of_mem_erase hd)) (fun id _ _ => ?_) fun id _ => ?_
  · obtain rfl : cell = id := by simpa using hid
    exact .inr hsteady
  · have := herase id
    have := hcharge id
    show _ + 0 + w.inUse id ≤ _ + w.inUse id
    omega
  · have := herase id
    have := hcharge id
    omega

/-- The row of a cell is stored or removed.  No call runs on behalf of the cell, and nothing
is charged to a new registration yet. -/
theorem setRow (hphase : (w.calls c).changes cell = true)
    (hrow : row.isSome → 0 < cell ∧ cell < m.maxCells) :
    ((w.setRow cell row).goto c .idle).Sound := by
  set w' := (w.setRow cell row).goto c .idle with hw'
  have hquiet (d : Fin m.callers) : (w'.calls d).actsFor cell = false := by
    show (update w.calls c .idle d).actsFor cell = false
    rw [update_apply]
    split
    · rfl
    · exact s.apart c d cell hphase
  have hlimits : w'.limits = update w.limits cell row := rfl
  have hera : w'.era = update w.era cell (w.era cell + if row.isSome then 1 else 0) := rfl
  have hself (hnew : row.isSome) : w'.held cell = 0 ∧ w'.excess cell = 0 := by
    have hblocks : (w.live.filter fun b => b.cell = cell ∧ b.era = w'.era cell) = [] := by
      rw [filter_eq_nil_iff]
      intro b hb hcharged
      have hpast := s.past b hb
      obtain ⟨rfl, heq⟩ := of_decide_eq_true hcharged
      simp only [hera, update_self, if_pos hnew] at heq
      omega
    constructor
    · show ((w.live.filter _).map _).sum + tally _ _ = 0
      rw [hblocks, tally_eq_zero fun d => (charge_of_actsFor (hquiet d) _).1]
      rfl
    · exact tally_eq_zero fun d => (charge_of_actsFor (hquiet d) 0).2
  have hothers (id : Nat) (hid : id ≠ cell) :
      w'.held id = w.held id ∧ w'.excess id = w.excess id := by
    have hsame : w'.era id = w.era id := update_of_ne hid _ _
    have hcharged : w'.charged id = w.charged id := by
      simp only [World.charged, hsame]
      rfl
    have hcalls : w'.calls = update w.calls c .idle := rfl
    have hheld := held_update id hcalls hsame
    have hupdate := excess_update id hcalls
    obtain ⟨hcharge, hexcess⟩ := charge_of_actsFor (actsFor_of_changes hphase id) (w.era id)
    rw [hcharge, hcharged, show Phase.charge id (w.era id) .idle = 0 from rfl] at hheld
    rw [hexcess, show Phase.excess id .idle = 0 from rfl] at hupdate
    omega
  have hsteady (id : Nat) (hid : id ≠ cell) (h : w'.steady id = true) : w.steady id = true := by
    rw [steady_iff] at h ⊢
    intro d
    by_cases hd : d = c
    · exact hd ▸ changes_of_ne hphase hid
    · have := h d
      rwa [show w'.calls d = w.calls d from update_of_ne hd _ _] at this
  refine ⟨s.words, fun id hsome => ?_, ?_, fun d => ?_, fun b hb => ?_, fun id hsome hst => ?_,
    fun id limit hid => ?_⟩
  · by_cases hid : id = cell
    · subst hid
      rw [hlimits, update_self] at hsome
      exact hrow hsome
    · rw [hlimits, update_of_ne hid] at hsome
      exact s.rows id hsome
  · exact s.apart_update (by simp) (by simp)
  · by_cases hd : d = c
    · rw [show w'.calls d = .idle from hd ▸ update_self _ _ _]
      trivial
    · have hsame : w'.calls d = w.calls d := update_of_ne hd _ _
      exact hsame ▸ sensible_of_ne (hsame ▸ hquiet d) hlimits hera (s.calls d)
  · have hpast := s.past b hb
    rw [hera, update_apply]
    split
    · next heq =>
      rw [heq] at hpast
      omega
    · exact hpast
  · by_cases hid : id = cell
    · subst hid
      rw [hlimits, update_self] at hsome
      obtain ⟨hheld, hexcess⟩ := hself hsome
      omega
    · rw [hlimits, update_of_ne hid] at hsome
      obtain ⟨hheld, hexcess⟩ := hothers id hid
      rw [hheld, hexcess]
      exact s.covered id hsome (hsteady id hid hst)
  · by_cases heq : id = cell
    · subst heq
      rw [hlimits, update_self] at hid
      have := (hself (by rw [hid]; rfl)).1
      omega
    · rw [hlimits, update_of_ne heq] at hid
      rw [(hothers id heq).1]
      exact s.bounded id limit hid

/-- A call that changes a row clears the counter; the row is not steady. -/
theorem clear (hold : (w.calls c).changes cell = true) (hs : w.Sensible phase)
    (hnew : phase.changes cell = true) : ((w.setInUse cell 0).goto c phase).Sound := by
  have hacts := actsFor_of_changes hnew
  refine s.shift rfl rfl rfl (s.words_store (Nat.zero_le _)) ⟨hs, fun id hid => ?_,
    fun id hid => ?_, fun id hid => ?_⟩ s.past (fun id _ hsteady => ?_) fun id _ => ?_
  · rw [hacts id] at hid
    contradiction
  · by_cases heq : id = cell
    · exact .inl (heq ▸ hold)
    · rw [changes_of_ne hnew heq] at hid
      contradiction
  · by_cases heq : id = cell
    · exact heq ▸ hnew
    · rw [changes_of_ne hold heq] at hid
      contradiction
  · by_cases heq : id = cell
    · have := steady_iff.mp hsteady c
      rw [heq, show ((w.setInUse cell 0).goto c phase).calls c = phase from
        update_self _ _ _, hnew] at this
      contradiction
    · obtain ⟨hcharge, hexcess⟩ := charge_of_actsFor (hacts id) (w.era id)
      rw [hcharge, hexcess, show ((w.setInUse cell 0).goto c phase).inUse id = w.inUse id from
        update_of_ne heq _ _]
      show w.charged id + 0 + 0 + _ ≤ _
      omega
  · rw [(charge_of_actsFor (hacts id) _).1]
    exact Nat.le_add_right _ _

/-- **One atomic operation** keeps the counters sound. -/
theorem turn (hdisciplined : disciplined w (.turn c found) = true)
    (h : w.turn c found = some (r, w')) : w'.Sound := by
  have hcall := s.calls c
  unfold World.turn at h
  generalize hphase : w.calls c = phase at hcall h
  cases phase with
  | idle => cases h
  | charging =>
    dsimp only at h
    split at h
    · next hout =>
      cases h
      -- without a counter there is no row, and nothing to charge
      refine s.goto ⟨rfl, fun cell h => .inl ?_, by simp, by simp [hphase]⟩ fun cell hrow => ?_
      · simpa [hphase] using h
      · have := (s.rows cell hrow).2
        simp only [hphase, Phase.charge, Phase.excess, and_true]
        rw [if_neg (by omega)]
    · next hin =>
      cases h
      refine s.goto ⟨⟨rfl, hcall, by omega⟩, fun cell h => .inl ?_, by simp, by simp [hphase]⟩
        (by simp [hphase])
      simpa [hphase] using h
  | adding id size =>
    have hwrap : w.inUse id + size ≤ usizeMax := by
      simpa [disciplined, hphase] using hdisciplined
    dsimp only at h
    split at h
    · cases h
      exact s.add hphase hwrap hcall.2.1 (by simp) (s.bounded id) (by simp)
    · next hfits =>
      cases h
      exact s.grant hphase hcall.1 hwrap (by omega)
  | rolling =>
    cases h
    exact s.rollBack hphase
  | granted =>
    dsimp only at h
    split at h
    · cases h
      exact s.allocate hphase
    · cases h
      refine s.goto ⟨hcall, fun cell h => .inl ?_, by simp, by simp [hphase]⟩ (by simp [hphase])
      simpa [hphase] using h
  | refunding id _ era =>
    cases h
    refine s.refund (by simp [hphase]) fun _ => ?_
    simp [hphase, show era = w.era id from hcall]
  | releasing =>
    cases h
    refine s.refund (by simp [hphase]) fun hrow => ?_
    obtain ⟨hcell, hera⟩ := of_decide_eq_true (hcall hrow)
    simp [hphase, hcell, hera]
  | checking id =>
    dsimp only at h
    split at h
    · cases h
      exact s.goto ⟨trivial, by simp, by simp, by simp [hphase]⟩ (by simp [hphase])
    next hfree =>
    cases h
    have hquiet : w.quiet id = true := by
      simpa [disciplined, hphase, hfree] using hdisciplined
    refine s.goto ⟨hcall, by simp, fun cell h => .inr ?_, by simp [hphase]⟩ (by simp [hphase])
    obtain rfl : id = cell := by simpa using h
    exact hquiet
  | zeroing =>
    cases h
    exact s.clear (by simp [hphase]) hcall (by simp)
  | inserting =>
    cases h
    exact s.setRow (by simp [hphase]) fun _ => hcall
  | clearing =>
    cases h
    split
    · exact s.clear (by simp [hphase]) trivial (by simp)
    · exact s.goto ⟨trivial, by simp, by simp [hphase], by simp [hphase]⟩ (by simp [hphase])
  | removing =>
    cases h
    exact s.setRow (by simp [hphase]) (by simp)

omit s

end Sound

end World

section

variable {m : Machine} {w : World m}

theorem sound_step (s : w.Sound) (hdisciplined : disciplined w op = true)
    (h : step m w op = some (r, w')) : w'.Sound := by
  cases op with
  | alloc c cell =>
    simp only [step] at h
    split at h
    · cases h
    next hidle =>
    obtain ⟨hidle, -⟩ : w.calls c = .idle ∧ _ := by simpa using hidle
    split at h
    · next hzero =>
      cases h
      refine s.goto ⟨rfl, fun id hid => .inr ?_, by simp, by simp [hidle]⟩ fun id hrow => ?_
      · obtain rfl : cell = id := by simpa using hid
        exact hdisciplined
      · have := (s.rows id hrow).1
        simp only [hidle, charge, excess, and_true]
        rw [if_neg (by omega)]
    · next hzero =>
      cases h
      refine s.goto ⟨Nat.pos_of_ne_zero hzero, fun id hid => .inr ?_, by simp, by simp [hidle]⟩
        (by simp [hidle])
      obtain rfl : cell = id := by simpa using hid
      exact hdisciplined
  | dealloc c =>
    simp only [step] at h
    split at h
    · cases h
    next hidle =>
    have hidle : w.calls c = .idle := by simpa using hidle
    split at h
    · cases h
    next hb =>
    cases h
    obtain ⟨hsteady, howns⟩ := of_decide_eq_true hdisciplined
    exact s.release hidle (mem_of_find?_eq_some hb) hsteady fun hrow => by
      simpa [hb] using howns hrow
  | reserve c cell =>
    simp only [step] at h
    split at h
    · cases h
    next hidle =>
    have hidle : w.calls c = .idle := by simpa using hidle
    split at h
    · cases h
      exact s
    next hin =>
    cases h
    exact s.goto ⟨show 0 < cell ∧ cell < m.maxCells by omega, by simp, by simp,
      by simp [hidle]⟩ (by simp [hidle])
  | deregister c cell =>
    simp only [step] at h
    split at h
    · cases h
    next hidle =>
    have hidle : w.calls c = .idle := by simpa using hidle
    cases h
    refine s.goto ⟨trivial, by simp, fun id hid => .inr ?_, by simp [hidle]⟩ (by simp [hidle])
    obtain rfl : cell = id := by simpa using hid
    exact hdisciplined
  | turn => exact s.turn hdisciplined h

theorem sound_boot : (boot m).Sound where
  words := fun _ => Nat.zero_le _
  rows := by simp [boot]
  apart := by simp [boot]
  calls := fun _ => trivial
  past := by simp [boot]
  covered := by simp [boot]
  bounded := by simp [boot]

/-- **Quotas hold under the discipline**: the live blocks charged to a registered cell stay within
its limit. -/
theorem charged_within_limit {ops : List (Op m)} {responses : List Response}
    (hrun : run (step m) (boot m) ops = some (responses, w))
    (hdisciplined : Guarded (step m) (fun w op => disciplined w op = true) (boot m) ops) :
    ∀ cell limit, w.limits cell = some limit → w.charged cell ≤ limit := by
  have s : w.Sound := run_invariant_of_guarded
    (fun _ _ _ _ hs hg hstep => sound_step hs hg hstep) hrun hdisciplined sound_boot
  intro cell limit hrow
  exact (Nat.le_add_right _ _).trans (s.bounded cell limit hrow)

end

/-- A build with 64 counters, one call at a time. -/
def uniprocessor : Machine := ⟨64, 1⟩

/-- A call that begins with `op` and performs `n` atomic operations. -/
def call (op : Op uniprocessor) (n : Nat) : List (Op uniprocessor) :=
  op :: List.replicate n (.turn ⟨0, by decide⟩ true)

/-- Two cells with a limit of 10 bytes each allocate 10; `freed` is freed by the first cell, which
allocates 10 again. -/
def reuse (freed : Nat) : List (Op uniprocessor) :=
  let hart : Fin uniprocessor.callers := ⟨0, by decide⟩
  call (.reserve hart 1 10) 3 ++ call (.reserve hart 2 10) 3 ++ call (.alloc hart 1 10) 3
    ++ call (.alloc hart 2 10) 3 ++ call (.dealloc hart 1 freed) 1 ++ call (.alloc hart 1 10) 3

/-- The first cell frees its own block: it stays within its limit. -/
theorem charged_within_limit_own : ∃ responses w,
    run (step uniprocessor) (boot uniprocessor) (reuse 0) = some (responses, w) ∧
      w.limits 1 = some 10 ∧ w.live.map (·.id) = [2, 1] ∧ w.charged 1 ≤ 10 := by
  have hdisciplined : Guarded (step uniprocessor) (fun w op => disciplined w op = true)
      (boot uniprocessor) (reuse 0) := by decide +kernel
  obtain ⟨responses, w, hrun, hlimit, hlive⟩ : ∃ responses w,
      run (step uniprocessor) (boot uniprocessor) (reuse 0) = some (responses, w) ∧
        w.limits 1 = some 10 ∧ w.live.map (·.id) = [2, 1] := by decide +kernel
  exact ⟨responses, w, hrun, hlimit, hlive, charged_within_limit hrun hdisciplined 1 10 hlimit⟩

/-- The first cell frees the block of the second one: it has 20 bytes of a limit of 10. -/
theorem foreign_free_exceeds_limit : ∃ responses w,
    run (step uniprocessor) (boot uniprocessor) (reuse 1) = some (responses, w) ∧
      w.limits 1 = some 10 ∧ w.charged 1 = 20 := by
  decide +kernel

end Cellos.Memory.Quota
