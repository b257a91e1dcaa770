import Cellos.CSpace.Table

/-!
# Cellos.CSpace.Reservations

Reservations of rows in the authority table.

A launch reserves its row before it publishes: `reserve` makes the vector room for
every reservation still outstanding, `commit` later inserts without allocating, and a
reservation that is not committed gives its promise back when it is dropped.  In
between, other launches and every call of the capability space take the table lock,
in any order.
-/

namespace Cellos.CSpace

open Lib AuthorityTable List

/-- `AuthorityTable` with the capacity of its vector and its count of reservations,
which the capacity keeps far below the end of `usize`. -/
structure ReservedTable extends AuthorityTable where
  (capacity reservations : Nat)

/-- `Vec::try_reserve`, as the capacity it leaves: a vector that is too small grows to
what the allocator `granted`, at least to what was asked for. -/
def tryReserve (len additional capacity : Nat) (granted : Option Nat) : Option Nat :=
  if len + additional ≤ capacity then some capacity else granted.map (max (len + additional))

/-- The detached authority of a reservation, until it is taken. -/
abbrev AuthorityReservation := Option CellAuthority

namespace AuthorityReservation

/-- `AuthorityReservation::reserve`; `none` is `OutOfMemory`, which is also the answer
when the authority itself is not `created`. -/
def reserve (t : ReservedTable) (key : Key) (created : Bool) (granted : Option Nat) :
    Option (AuthorityReservation × ReservedTable) :=
  if created then
    (tryReserve t.rows.length (t.reservations + 1) t.capacity granted).map fun capacity =>
      (some (.new key.1 key.2), { t with capacity, reservations := t.reservations + 1 })
  else none

/-- `Drop`: a reservation that still has its authority is counted; `none` is a counter
below zero. -/
def drop (self : AuthorityReservation) (t : ReservedTable) : Option ReservedTable :=
  if self.isSome then
    if t.reservations = 0 then none else some { t with reservations := t.reservations - 1 }
  else some t

/-- `AuthorityReservation::commit`; `none` is a failed `expect` or `assert!`.  What is
left of the reservation is dropped at the end. -/
def commit (self : AuthorityReservation) (t : ReservedTable) : Option ReservedTable :=
  match self with
  | none => none
  | some authority =>
    if t.reservations ≠ 0 ∧ t.rows.length < t.capacity then
      let key := (authority.cellId, authority.generation)
      let rows := match t.get key with
        | some _ => t.rows
        | none => insertRow key authority t.rows
      -- the authority was taken: this drop counts nothing
      drop none { t with rows, reservations := t.reservations - 1 }
    else none

end AuthorityReservation

/-! ## the machine -/

/-- The table, and every reservation made so far: `none` once it was moved into
`commit` or dropped. -/
structure Reserved where
  table : ReservedTable
  held : List AuthorityReservation

/-- One critical section.  `edit` is every other one: it works on the authority of a
key, if there is one.  `register_cell_authority` is such a lookup, a `reserve` and a
`commit`; `retire_cell_authority` is an edit. -/
inductive ReservedOp where
  | reserve (key : Key) (created : Bool) (granted : Option Nat)
  | commit (i : Nat)
  | drop (i : Nat)
  | edit (key : Key) (f : CellAuthority → CellAuthority)

/-- What a critical section answers; `released i n` says by how much the end of
reservation `i` lowered the counter. -/
inductive ReservedResponse where
  | outOfMemory
  | reserved (i : Nat)
  | released (i n : Nat)
  | notHeld
  | edited

namespace Reserved

/-- `CELL_AUTHORITIES` at boot. -/
def boot : Reserved := ⟨⟨.empty, 0, 0⟩, []⟩

/-- How many reservations are outstanding. -/
def outstanding (w : Reserved) : Nat := w.held.countP Option.isSome

/-- End reservation `i` by `commit` or `drop`; only its owner can. -/
def finish (w : Reserved) (i : Nat)
    (act : AuthorityReservation → ReservedTable → Option ReservedTable) :
    Option (ReservedResponse × Reserved) :=
  match w.held[i]? with
  | some (some authority) => (act authority w.table).map fun t =>
    (.released i (w.table.reservations - t.reservations), ⟨t, w.held.set i none⟩)
  | _ => some (.notHeld, w)

/-- One critical section; `none` when it does not return. -/
def step (w : Reserved) : ReservedOp → Option (ReservedResponse × Reserved)
  | .reserve key created granted =>
    match AuthorityReservation.reserve w.table key created granted with
    | none => some (.outOfMemory, w)
    | some (r, t) => some (.reserved w.held.length, ⟨t, w.held ++ [r]⟩)
  | .commit i => w.finish i AuthorityReservation.commit
  | .drop i => w.finish i AuthorityReservation.drop
  | .edit key f => some (.edited, { w with
      table.rows := updateFirst (fun row => row.1 = key) (Prod.map id f) w.table.rows })

end Reserved

/-! ## rows in key order -/

/-- The keys of the rows are strictly increasing, in the order of `(u64, u64)`. -/
def Sorted (t : AuthorityTable) : Prop :=
  (t.rows.map Prod.fst).Pairwise fun k l => toLex k < toLex l

theorem insertRow_perm (rows : List (Key × CellAuthority)) :
    (insertRow key a rows).Perm ((key, a) :: rows) := by
  induction rows with
  | nil => rfl
  | cons row rows ih =>
    unfold insertRow
    split_ifs with hlt
    · rfl
    · exact (ih.cons row).trans (.swap ..)

theorem Sorted.insert {rows : List (Key × CellAuthority)} (h : Sorted ⟨rows⟩)
    (hkey : ∀ row ∈ rows, row.1 ≠ key) : Sorted ⟨insertRow key a rows⟩ := by
  induction rows with
  | nil => simp [Sorted, insertRow]
  | cons row rows ih =>
    simp only [Sorted, map_cons, pairwise_cons, forall_mem_map] at h ih ⊢
    have hne := hkey row mem_cons_self
    have hrows := ih h.2 fun r hr => hkey r (mem_cons_of_mem _ hr)
    unfold insertRow
    split_ifs with hlt
    · simp only [map_cons, pairwise_cons, forall_mem_cons, forall_mem_map]
      rw [← Prod.Lex.toLex_lt_toLex] at hlt
      exact ⟨⟨hlt, fun r hr => hlt.trans (h.1 r hr)⟩, h⟩
    · simp only [map_cons, pairwise_cons, forall_mem_map]
      refine ⟨fun r hr => ?_, hrows⟩
      rcases mem_cons.mp ((insertRow_perm rows).mem_iff.mp hr) with rfl | hr
      · rw [Ne, Prod.ext_iff] at hne
        simp only [Prod.Lex.toLex_lt_toLex]
        omega
      · exact h.1 r hr

/-! ## the invariant -/

/-- By how much the end of reservation `i` lowered the counter. -/
def lowered (i : Nat) : ReservedResponse → Option Nat
  | .released j n => if j = i then some n else none
  | _ => none

/-- The vector has room for every outstanding reservation, and each one that ended lowered the
counter once, by one. -/
structure Kept (rs : List ReservedResponse) (w : Reserved) : Prop where
  sorted : Sorted w.table.toAuthorityTable
  counted : w.table.reservations = w.outstanding
  room : w.table.rows.length + w.table.reservations ≤ w.table.capacity
  once : ∀ i, rs.filterMap (lowered i) = if w.held[i]? = some none then [1] else []

theorem Kept.same (h : Kept rs w) (hr : ∀ i, lowered i r = none) : Kept (rs ++ [r]) w :=
  { h with once := by simp [hr, h.once] }

theorem le_of_tryReserve (h : tryReserve len additional capacity granted = some n) :
    len + additional ≤ n := by
  unfold tryReserve at h
  split_ifs at h with hroom
  · cases h
    exact hroom
  · obtain ⟨_, -, rfl⟩ := Option.map_eq_some_iff.mp h
    exact Nat.le_max_left ..

/-- Reserving adds an outstanding reservation together with its room. -/
theorem Kept.reserve (h : Kept rs w) (key : Key) (created : Bool) (granted : Option Nat) :
    ∃ r w', w.step (.reserve key created granted) = some (r, w') ∧ Kept (rs ++ [r]) w' := by
  simp only [Reserved.step]
  cases hres : AuthorityReservation.reserve w.table key created granted with
  | none => exact ⟨_, _, rfl, h.same fun _ => rfl⟩
  | some p =>
    unfold AuthorityReservation.reserve at hres
    split_ifs at hres
    obtain ⟨capacity, hroom, rfl⟩ := Option.map_eq_some_iff.mp hres
    refine ⟨_, _, rfl, h.sorted, ?_, le_of_tryReserve hroom, fun i => ?_⟩
    · simp [Reserved.outstanding, h.counted]
    · have hi (a : CellAuthority) :
          (w.held ++ [some a])[i]? = some none ↔ w.held[i]? = some none := by
        grind
      simp [lowered, h.once, hi]

/-- The end of a reservation, by `commit` or `drop`, of a table that stays sorted and
gains at most one row. -/
theorem Kept.finish {act : AuthorityReservation → ReservedTable → Option ReservedTable}
    (h : Kept rs w) (hact : ∀ a : CellAuthority, w.table.reservations ≠ 0 →
      ∃ t : AuthorityTable, Sorted t ∧ t.rows.length ≤ w.table.rows.length + 1 ∧
        act a w.table = some ⟨t, w.table.capacity, w.table.reservations - 1⟩) (i : Nat) :
    ∃ r w', w.finish i act = some (r, w') ∧ Kept (rs ++ [r]) w' := by
  unfold Reserved.finish
  split
  · next a hi =>
    obtain ⟨hlt, hget⟩ := List.getElem?_eq_some_iff.mp hi
    -- the reservation is counted, so the counter does not underflow
    have hpos : 0 < w.outstanding := countP_pos_iff.mpr ⟨_, mem_of_getElem? hi, rfl⟩
    have hcounted := h.counted
    have hroom := h.room
    obtain ⟨t, hsorted, hlength, ht⟩ := hact a (by omega)
    rw [ht]
    refine ⟨_, _, rfl, hsorted, ?_, ?_, fun j => ?_⟩
    · simp [Reserved.outstanding, countP_set hlt, hget] at hcounted ⊢
      omega
    · simp only
      omega
    · have hone : w.table.reservations - (w.table.reservations - 1) = 1 := by omega
      by_cases hj : i = j
      · subst hj
        simp [lowered, h.once, hget, hlt, hone]
      · simp [lowered, h.once, getElem?_set_ne hj, hj]
  · exact ⟨_, _, rfl, h.same fun _ => rfl⟩

/-- **Every critical section returns** and keeps the invariant. -/
theorem Kept.step (h : Kept rs w) (op : ReservedOp) :
    ∃ r w', w.step op = some (r, w') ∧ Kept (rs ++ [r]) w' := by
  cases op with
  | reserve key created granted => exact h.reserve key created granted
  | commit i =>
    refine h.finish (fun a hres => ?_) i
    have hroom := h.room
    have hassert : w.table.reservations ≠ 0 ∧ w.table.rows.length < w.table.capacity :=
      ⟨hres, by omega⟩
    simp only [AuthorityReservation.commit, if_pos hassert]
    cases hget : w.table.get (a.cellId, a.generation) with
    | some => exact ⟨_, h.sorted, Nat.le_succ _, rfl⟩
    | none =>
      simp only [AuthorityTable.get, Option.map_eq_none_iff, find?_eq_none, beq_iff_eq] at hget
      exact ⟨_, h.sorted.insert hget, (insertRow_perm _).length_eq.le, rfl⟩
  | drop i =>
    refine h.finish (fun a hres => ⟨_, h.sorted, Nat.le_succ _, ?_⟩) i
    simp [AuthorityReservation.drop, hres]
  | edit key f =>
    refine ⟨_, _, rfl, ?_, h.counted, ?_, (h.same fun _ => rfl).once⟩
    · simp only [Sorted, map_updateFirst Prod.fst (f := Prod.map id f) fun _ _ => rfl]
      exact h.sorted
    · rw [length_updateFirst]
      exact h.room

/-- **Reserved rows**: in whatever order the critical sections of any number of launches come,
each of them returns, so the assertion of `commit` holds; the rows stay in key order, each key
once; the vector has room for the outstanding reservations, which are the ones counted; and each
reservation that ended lowered the counter exactly once. -/
theorem reservations_kept (ops : List ReservedOp) :
    ∃ rs w, run Reserved.step .boot ops = some (rs, w) ∧
      Sorted w.table.toAuthorityTable ∧ (w.table.rows.map Prod.fst).Nodup ∧
      w.table.rows.length + w.outstanding ≤ w.table.capacity ∧
      w.table.reservations = w.outstanding ∧
      ∀ i, rs.filterMap (lowered i) = if w.held[i]? = some none then [1] else [] := by
  have hboot : Kept [] .boot := ⟨.nil, rfl, Nat.le_refl 0, by simp [Reserved.boot]⟩
  obtain ⟨rs, w, hrun, -⟩ := run_total (P := fun w => ∃ rs, Kept rs w) (fun op _ w h => by
    obtain ⟨rs, h⟩ := h
    obtain ⟨r, w', hstep, h'⟩ := h.step op
    exact ⟨r, w', hstep, _, h'⟩) ⟨[], hboot⟩
  have h : Kept rs w := run_history (fun rs w op r w' h hstep => by
    obtain ⟨_, _, hstep', h'⟩ := h.step op
    cases hstep.symm.trans hstep'
    exact h') hrun hboot
  have hnodup := h.sorted.imp fun hlt heq => hlt.ne (congrArg toLex heq)
  exact ⟨rs, w, hrun, h.sorted, hnodup, h.counted ▸ h.room, h.counted, h.once⟩

end Cellos.CSpace
