import Cellos.Lib

/-!
# Cellos.Task.CpuAccounting

The charged-occupancy integrator (`task/cpu_accounting.rs`).

The time of every admitted hart is charged to the group of the cell that is active on it, or
to control when there is none.  `advance` brings the books up to the time of a clock sample:
it charges the segment up to the next period boundary, settles the period of every group,
skips the periods that ended since in closed form, and charges the rest.  Every entry point
advances first, and an entry point that fails seals the books.

A clock sample, and what the source asks the harts, are inputs of the steps.
-/

namespace Cellos.CpuAccounting

open Lib Function

/-- `N`. -/
def maxCells : Nat := 64

/-- `M`. -/
def maxHarts : Nat := 2

/-- `EVENTS`. -/
def maxEvents : Nat := 256

/-- `CAPTURE_PERIODS`. -/
def capturePeriods : Nat := 18

/-- `CAPTURE_SWITCHES`. -/
def captureSwitches : Nat := 64

/-- `u64::MAX`, the hart of an event that has none. -/
def noHart : Nat := 2 ^ 64 - 1

inductive Error where
  | badConfig | clockUnavailable | clockRegression | arithmeticOverflow | serviceGapExceeded
  | switchDelayExceeded | overshootExceeded | unknownOwner | staleGeneration | policyConflict
  | counterExhausted | witnessFull | switchMismatch | busy | retirementPending | historyFull
  | experimentBoundExceeded
deriving DecidableEq

/-- The number of an error; the first one is 2. -/
def Error.code (e : Error) : Nat := e.ctorIdx + 2

/-- The sum, unless it overflows. -/
def add (a b : Nat) : Except Error Nat :=
  if a + b < 2 ^ 64 then .ok (a + b) else .error .arithmeticOverflow

/-- The product, unless it overflows. -/
def mul (a b : Nat) : Except Error Nat :=
  if a * b < 2 ^ 64 then .ok (a * b) else .error .arithmeticOverflow

def narrow (v : Nat) : Except Error Nat :=
  if v < 2 ^ 64 then .ok v else .error .arithmeticOverflow

/-- The time from `start` to `now`, unless the clock ran backwards. -/
def elapsed (start now : Nat) : Except Error Nat :=
  if start ≤ now then .ok (now - start) else .error .clockRegression

/-- `CellOwner`. -/
structure CellOwner where
  (cellId generation rootTid : Nat)
deriving DecidableEq

/-- The state of a group; an empty row has none. -/
inductive GroupState where
  | empty | live | throttled | retiring | sealed | retired
deriving DecidableEq

structure Group where
  cellId : Nat := 0
  generation : Nat := 0
  rootTid : Nat := 0
  state : GroupState := .empty
  error : Option Error := none
  policyRevision : Nat := 0
  entitlementNs : Nat := 0
  burstCapNs : Nat := 0
  burstBankNs : Nat := 0
  debtNs : Nat := 0
  periodChargeNs : Nat := 0
  lifetimeChargeNs : Nat := 0
  lastPeriodChargeNs : Nat := 0
  lastPeriodAllowanceNs : Nat := 0
  maxPeriodOvershootNs : Nat := 0
  pendingRevision : Nat := 0
  pendingEntitlementNs : Nat := 0
  pendingBurstCapNs : Nat := 0
  pendingApplyPeriod : Nat := 0
  /-- One more than the time the group was exhausted at, until its departure; in a retired
  row, the serial of its last switch. -/
  terminalSerial : Nat := 0
  chargedPeriodCount : Nat := 0
  throttleCount : Nat := 0
  birthNs : Nat := 0

structure Hart where
  activeCell : Nat := 0
  activeGeneration : Nat := 0
  activeRootTid : Nat := 0
  activeTid : Nat := 0
  pendingCell : Nat := 0
  pendingGeneration : Nat := 0
  pendingRootTid : Nat := 0
  pendingTid : Nat := 0
  pendingSerial : Nat := 0
  lastCompletedSerial : Nat := 0
  pendingSinceNs : Nat := 0
  lastServiceNs : Nat := 0

inductive BookState where
  | off | running | sealed | exported
deriving DecidableEq

structure Header where
  state : BookState := .off
  error : Option Error := none
  bootSession : Nat := 0
  tickPeriodFs : Nat := 0
  epochNs : Nat := 0
  lastNs : Nat := 0
  periodNs : Nat := 0
  periodIndex : Nat := 0
  nextBoundaryNs : Nat := 0
  controlChargeNs : Nat := 0
  nextSwitchSerial : Nat := 0
  admittedHartMask : Nat := 0
  serviceGapLimitNs : Nat := 0
  switchDelayLimitNs : Nat := 0
  exhaustionToDepartureLimitNs : Nat := 0
  lastRawCounter : Nat := 0
  timebaseKind : Nat := 0

structure Event where
  sequence : Nat := 0
  nowNs : Nat := 0
  kind : Nat := 0
  cellId : Nat := 0
  generation : Nat := 0
  hart : Nat := noHart
  value0 : Nat := 0
  value1 : Nat := 0

/-- `Accounting`; the numbers of events and of retired groups are the lengths of the lists. -/
structure Accounting where
  groups : Fin maxCells → Group
  harts : Fin maxHarts → Hart
  header : Header
  events : List Event
  retired : List Group

/-- The books at boot. -/
def boot : Accounting := ⟨fun _ => {}, fun _ => {}, {}, [], []⟩

/-- `hal::hpet::CheckedSample`. -/
structure CheckedSample where
  (base capabilities configuration rawCounter periodFs : Nat)

/-- The sample, unless there is none. -/
def sampled (sample : Option CheckedSample) : Except Error CheckedSample :=
  match sample with
  | some clock => .ok clock
  | none => .error .clockUnavailable

/-- What the accounting reads of a task. -/
structure Task where
  (cellId cellGeneration rootTid id : Nat)

/-- `count_ones`. -/
def countOnes (mask : Nat) : Nat := (List.range 64).countP mask.testBit

/-- A step of the integrator. -/
abbrev Act := EStateM Error Accounting

namespace Hart

/-- The hart runs a cell, or is about to. -/
def occupied (h : Hart) : Prop := h.activeCell ≠ 0 ∨ (h.pendingSerial ≠ 0 ∧ h.pendingCell ≠ 0)

instance (h : Hart) : Decidable h.occupied := inferInstanceAs (Decidable (_ ∨ _))

end Hart

namespace Accounting

/-! ## events -/

/-- `append_reserved`. -/
def appendReserved (a : Accounting) (event : Event) : Accounting :=
  { a with events := a.events ++ [{ event with sequence := a.events.length }] }

/-- `reserve_events`. -/
def reserveEvents (a : Accounting) (count : Nat) : Except Error Unit :=
  require (a.events.length ≤ maxEvents - min count maxEvents ∧ count ≤ maxEvents) .witnessFull

/-- `seal`. -/
def sealBooks (a : Accounting) (error : Error) : Accounting :=
  if a.header.error ≠ none then a
  else
    let a := { a with
      header := { a.header with error := some error, state := .sealed }
      groups := fun i =>
        if (a.groups i).state ≠ .empty then { a.groups i with state := .sealed, error := some error }
        else a.groups i }
    -- a full journal is no reason not to seal
    if a.events.length < maxEvents then
      a.appendReserved
        { nowNs := a.header.lastNs, kind := 11, value0 := error.code,
          value1 := a.header.lastRawCounter }
    else a

end Accounting

/-- `emit`. -/
def emit (event : Event) : Act Unit := do
  let a ← get
  attempt (require (a.events.length < maxEvents) .witnessFull)
  modify (·.appendReserved event)

namespace Accounting

/-! ## reading the books -/

variable (a : Accounting)

/-- `check_clock_identity`. -/
def checkClockIdentity (clock : CheckedSample) : Except Error Unit :=
  match a.events with
  | first :: second :: _ =>
    require (first.kind = 1 ∧ second.kind = 16 ∧ clock.periodFs = a.header.tickPeriodFs ∧
      clock.base = first.value0 ∧ clock.capabilities = first.value1 ∧
      clock.configuration = second.value0) .clockUnavailable
  | _ => .error .clockUnavailable

/-- `group_index`. -/
def groupIndex (cell generation root : Nat) : Except Error (Fin maxCells) :=
  if h : cell < maxCells then
    let g := a.groups ⟨cell, h⟩
    if cell = 0 ∨ g.state = .empty then .error .unknownOwner
    else if g.generation ≠ generation ∨ g.rootTid ≠ root then .error .staleGeneration
    else .ok ⟨cell, h⟩
  else .error .unknownOwner

/-- `entitlement`: a group born in the running period gets its share of it. -/
def entitlement (g : Group) : Except Error Nat :=
  let start := a.header.nextBoundaryNs - a.header.periodNs
  if start < g.birthNs then
    narrow (g.entitlementNs * (a.header.nextBoundaryNs - g.birthNs) / a.header.periodNs)
  else .ok g.entitlementNs

/-- `allowance`. -/
def allowance (g : Group) : Except Error Nat := do
  let entitlement ← a.entitlement g
  let credit ← add entitlement g.burstBankNs
  return credit - g.debtNs

/-- `occupied`. -/
def occupied (cell generation : Nat) : Bool :=
  ∃ hart, ((a.harts hart).activeCell = cell ∧ (a.harts hart).activeGeneration = generation) ∨
    ((a.harts hart).pendingSerial ≠ 0 ∧ (a.harts hart).pendingCell = cell ∧
      (a.harts hart).pendingGeneration = generation)

/-- One turn of the loop of `check_departure`. -/
def checkDepartureOf (now : Nat) (g : Group) : Except Error Unit :=
  if g.state ≠ .empty ∧ g.state ≠ .retired ∧ g.terminalSerial ≠ 0 ∧
      a.occupied g.cellId g.generation then do
    let late ← elapsed (g.terminalSerial - 1) now
    require (late ≤ a.header.exhaustionToDepartureLimitNs) .overshootExceeded
  else .ok ()

/-- `check_departure`. -/
def checkDeparture (now : Nat) : Except Error Unit :=
  (List.finRange maxCells).forM fun i => a.checkDepartureOf now (a.groups i)

/-- The hart is admitted. -/
def admitted (hart : Nat) : Bool := a.header.admittedHartMask.testBit hart

/-! ## segments -/

/-- One turn of the loop over the harts: the segment of a hart goes to control, or to the
group of its active cell. -/
def chargeHart (dt : Nat) (acc : Nat × (Fin maxCells → Nat))
    (hart : Fin maxHarts) : Except Error (Nat × (Fin maxCells → Nat)) :=
  let h := a.harts hart
  if a.admitted hart = false then .ok acc
  else if h.activeCell = 0 then do
    let control ← add acc.1 dt
    return (control, acc.2)
  else do
    let i ← a.groupIndex h.activeCell h.activeGeneration h.activeRootTid
    let charge ← add (acc.2 i) dt
    return (acc.1, update acc.2 i charge)

/-- The harts on which the group is active, and those on which it is active or pending. -/
def presence (g : Group) : Nat × Nat := (List.finRange maxHarts).foldl (fun acc hart =>
    let h := a.harts hart
    let active := h.activeCell = g.cellId ∧ h.activeGeneration = g.generation
    let pending := h.pendingSerial ≠ 0 ∧ h.pendingCell = g.cellId ∧
      h.pendingGeneration = g.generation
    (if active then acc.1 + 1 else acc.1,
      if active ∨ pending then acc.2 ||| 1 <<< hart.val else acc.2)) (0, 0)

/-- The part of a group's segment in which it is found to be exhausted. -/
def exhaust (allowance before finish : Nat) (g : Group) : Except Error (Group × Option Event) := do
  let (occupancy, mask) := a.presence g
  let exhausted ← (if before < allowance then
    add a.header.lastNs ((allowance - before + occupancy - 1) / occupancy)
    else .ok a.header.lastNs)
  let throttleCount ← add g.throttleCount 1
  let terminalSerial ← (if g.terminalSerial = 0 then add exhausted 1 else .ok g.terminalSerial)
  require (finish - (terminalSerial - 1) ≤ a.header.exhaustionToDepartureLimitNs) .overshootExceeded
  return ({ g with
    state := if g.state = .live then .throttled else g.state
    throttleCount
    terminalSerial },
    some
      { nowNs := exhausted, kind := 7, cellId := g.cellId, generation := g.generation,
        value0 := allowance, value1 := mask })

/-- The row of a group that is charged for a segment. -/
def segmentRow (finish charge : Nat) (g : Group) : Except Error (Group × Option Event) := do
  let allowance ← a.allowance g
  let before := g.periodChargeNs
  let periodChargeNs ← add before charge
  let tail ← mul (countOnes a.header.admittedHartMask) a.header.exhaustionToDepartureLimitNs
  let bound ← add allowance tail
  require (periodChargeNs ≤ bound) .overshootExceeded
  let lifetimeChargeNs ← add g.lifetimeChargeNs charge
  let g := { g with
    periodChargeNs
    lifetimeChargeNs
    maxPeriodOvershootNs := max g.maxPeriodOvershootNs (periodChargeNs - allowance) }
  if allowance ≤ periodChargeNs ∧ (g.state = .live ∨ (g.state = .retiring ∧ before < allowance) ∨
      (g.state = .throttled ∧ g.terminalSerial = 0)) then
    a.exhaust allowance before finish g
  else return (g, none)

/-- The rows that a segment changes. -/
def segmentRows (a : Accounting) (finish : Nat) (charge : Fin maxCells → Nat) :
    List (Fin maxCells) → Except Error (List (Fin maxCells × Group × Option Event))
  | [] => .ok []
  | i :: rest =>
    if i.val = 0 ∨ charge i = 0 then a.segmentRows finish charge rest
    else do
      let row ← a.segmentRow finish (charge i) (a.groups i)
      let rows ← a.segmentRows finish charge rest
      return (i, row) :: rows

/-- The events of a segment. -/
def segmentEvents (rows : List (Fin maxCells × Group × Option Event)) : List Event :=
  rows.filterMap fun row => row.2.2

/-- The groups with the given rows in place. -/
def putRows {β : Type} (groups : Fin maxCells → Group) (rows : List (Fin maxCells × Group × β)) :
    Fin maxCells → Group :=
  rows.foldl (fun groups row => update groups row.1 row.2.1) groups

/-- The books with the given events. -/
def appendAll (events : List Event) : Accounting := events.foldl appendReserved a

end Accounting

/-- `segment`. -/
def segment (finish : Nat) : Act Unit := do
  let a ← get
  let dt ← attempt (elapsed a.header.lastNs finish)
  let (control, charge) ← attempt ((List.finRange maxHarts).foldlM (a.chargeHart dt) (0, fun _ => 0))
  let controlTotal ← attempt (add a.header.controlChargeNs control)
  attempt (a.checkDeparture finish)
  let rows ← attempt (a.segmentRows finish charge (List.finRange maxCells))
  attempt (a.reserveEvents (Accounting.segmentEvents rows).length)
  set ({ a with
    groups := Accounting.putRows a.groups rows
    header := { a.header with controlChargeNs := controlTotal, lastNs := finish } }.appendAll
      (Accounting.segmentEvents rows))

namespace Accounting

/-! ## periods -/

/-- The row with the policy that was requested for the next period. -/
def applyPolicy (a : Accounting) (g : Group) : Except Error Group :=
  if g.pendingRevision = 0 then .ok g
  else do
    let next ← add a.header.periodIndex 1
    require (g.pendingApplyPeriod = next) .policyConflict
    return { g with
      policyRevision := g.pendingRevision
      entitlementNs := g.pendingEntitlementNs
      burstCapNs := g.pendingBurstCapNs
      pendingRevision := 0
      pendingEntitlementNs := 0
      pendingBurstCapNs := 0
      pendingApplyPeriod := 0 }

/-- The state of a group at the beginning of a period. -/
def replenished (g : Group) : Except Error GroupState :=
  if g.state = .throttled ∨ g.state = .live then do
    let credit ← add g.entitlementNs g.burstBankNs
    return if g.debtNs < credit then .live else .throttled
  else .ok g.state

/-- `settled_row`. -/
def settledRow (a : Accounting) (g : Group) : Except Error (Group × Event) := do
  let entitlement ← a.entitlement g
  let credit ← add entitlement g.burstBankNs
  let debit ← add g.debtNs g.periodChargeNs
  let allowance := credit - g.debtNs
  let event : Event :=
    { nowNs := a.header.nextBoundaryNs, kind := 6, cellId := g.cellId, generation := g.generation,
      value0 := g.periodChargeNs, value1 := allowance }
  let chargedPeriodCount ← (if g.periodChargeNs ≠ 0 then add g.chargedPeriodCount 1
    else .ok g.chargedPeriodCount)
  let g ← a.applyPolicy { g with
    lastPeriodChargeNs := g.periodChargeNs
    lastPeriodAllowanceNs := allowance
    chargedPeriodCount }
  let g := { g with
    burstBankNs := min (credit - debit) g.burstCapNs
    debtNs := debit - credit
    periodChargeNs := 0 }
  let state ← replenished g
  return ({ g with state }, event)

/-- `empty_period_row`: the row after `q` periods without a charge. -/
def emptyPeriodRow (q finish : Nat) (g : Group) : Except Error (Group × Event) := do
  let beforeLast := g.burstBankNs + (q - 1) * g.entitlementNs
  let lastBank ← narrow (min (beforeLast - g.debtNs) g.burstCapNs)
  let lastDebt ← narrow (g.debtNs - beforeLast)
  let lastCredit ← add g.entitlementNs lastBank
  let lastAllowance := lastCredit - lastDebt
  let credit := g.burstBankNs + q * g.entitlementNs
  let burstBankNs ← narrow (min (credit - g.debtNs) g.burstCapNs)
  let debtNs ← narrow (g.debtNs - credit)
  let g := { g with
    burstBankNs
    debtNs
    lastPeriodChargeNs := 0
    lastPeriodAllowanceNs := lastAllowance }
  let state ← replenished g
  return ({ g with state },
    { nowNs := finish, kind := 14, cellId := g.cellId, generation := g.generation,
      value0 := q, value1 := lastAllowance })

/-- The preflight of `settle` and of the empty periods: the new rows of all groups. -/
def rowsOf (a : Accounting) (f : Group → Except Error (Group × Event)) :
    List (Fin maxCells) → Except Error (List (Fin maxCells × Group × Event))
  | [] => .ok []
  | i :: rest =>
    if (a.groups i).state = .empty then a.rowsOf f rest
    else do
      let row ← f (a.groups i)
      let rows ← a.rowsOf f rest
      return (i, row) :: rows

/-- The books with the new rows of all groups and their events, which the source computes again
here (`commitRows`).  Row 0 is never in use. -/
def replaceRows (a : Accounting) (rows : List (Fin maxCells × Group × Event)) : Accounting :=
  let used := rows.filter fun row => row.1.val ≠ 0
  appendAll { a with groups := putRows a.groups used } (used.map fun row => row.2.2)

end Accounting

/-- `settle`. -/
def settle : Act Unit := do
  let a ← get
  let period ← attempt (add a.header.periodIndex 1)
  let boundary ← attempt (add a.header.nextBoundaryNs a.header.periodNs)
  let rows ← attempt (a.rowsOf a.settledRow (List.finRange maxCells))
  attempt (a.reserveEvents rows.length)
  set { a.replaceRows rows with
    header := { a.header with periodIndex := period, nextBoundaryNs := boundary } }

/-- The second pass of `settle`, which computes the rows again; `none` when its `expect` fails. -/
def Accounting.commitRows (a : Accounting) : List (Fin maxCells) → Option Accounting
  | [] => some a
  | i :: rest =>
    if (a.groups i).state = .empty ∨ i.val = 0 then a.commitRows rest
    else
      match a.settledRow (a.groups i) with
      | .error _ => none
      | .ok (row, event) =>
        ({ a with groups := update a.groups i row }.appendReserved event).commitRows rest

/-- `settle` with both of its passes. -/
def settlePasses (a : Accounting) : Option (EStateM.Result Error Accounting Unit) :=
  let preflight : Except Error (Nat × Nat) := do
    let period ← add a.header.periodIndex 1
    let boundary ← add a.header.nextBoundaryNs a.header.periodNs
    let rows ← a.rowsOf a.settledRow (List.finRange maxCells)
    a.reserveEvents rows.length
    return (period, boundary)
  match preflight with
  | .error e => some (.error e a)
  | .ok (period, boundary) =>
    (a.commitRows (List.finRange maxCells)).map fun a => .ok () { a with
      header := { a.header with periodIndex := period, nextBoundaryNs := boundary } }

/-- The part of `advance` that skips the periods that ended before `now`. -/
def skipEmptyPeriods (now : Nat) : Act Unit := do
  let a ← get
  let q ← attempt (add ((now - a.header.nextBoundaryNs) / a.header.periodNs) 1)
  let skip ← attempt (mul q a.header.periodNs)
  let finish ← attempt (add a.header.lastNs skip)
  let period ← attempt (add a.header.periodIndex q)
  let boundary ← attempt (add a.header.nextBoundaryNs skip)
  let share ← attempt (mul skip (countOnes a.header.admittedHartMask))
  let control ← attempt (add a.header.controlChargeNs share)
  let rows ← attempt (a.rowsOf (Accounting.emptyPeriodRow q finish) (List.finRange maxCells))
  attempt (a.reserveEvents rows.length)
  set { a.replaceRows rows with
    header := { a.header with
      controlChargeNs := control
      lastNs := finish
      periodIndex := period
      nextBoundaryNs := boundary } }

namespace Accounting

variable (a : Accounting)

/-- The check in `advance` that an occupied hart was served lately. -/
def checkService (now : Nat) (h : Hart) : Except Error Unit :=
  if h.occupied then do
    let gap ← elapsed h.lastServiceNs now
    require (gap ≤ a.header.serviceGapLimitNs) .serviceGapExceeded
  else .ok ()

/-- The check in `advance` that a switch does not take too long. -/
def checkSwitch (now : Nat) (h : Hart) : Except Error Unit :=
  if h.pendingSerial ≠ 0 then do
    let delay ← elapsed h.pendingSinceNs now
    require (delay ≤ a.header.switchDelayLimitNs) .switchDelayExceeded
  else .ok ()

/-- The checks of one hart in `advance`. -/
def checkHart (now : Nat) (hart : Fin maxHarts) : Except Error Unit :=
  if a.admitted hart = false then .ok ()
  else do
    a.checkService now (a.harts hart)
    a.checkSwitch now (a.harts hart)

/-- The checks of `advance`, which give the time of the sample. -/
def checkAdvance (clock : CheckedSample) : Except Error Nat := do
  a.checkClockIdentity clock
  require (a.header.lastRawCounter ≤ clock.rawCounter) .clockRegression
  let now ← narrow (clock.rawCounter * clock.periodFs / 1000000)
  let gap ← elapsed a.header.lastNs now
  let age ← elapsed a.header.epochNs now
  let bound ← mul a.header.periodNs capturePeriods
  require (age < bound) .experimentBoundExceeded
  require (¬ ((∃ hart, (a.harts hart).occupied) ∧ a.header.periodNs < gap)) .serviceGapExceeded
  (List.finRange maxHarts).forM (a.checkHart now)
  return now

end Accounting

/-- The part of `advance` that charges and settles up to the next boundary. -/
def closePeriod : Act Unit := do
  let a ← get
  segment a.header.nextBoundaryNs
  settle

/-- The part of `advance` that crosses the boundaries up to `now`. -/
def crossBoundaries (now : Nat) : Act Unit := do
  closePeriod
  let a ← get
  if a.header.nextBoundaryNs ≤ now then skipEmptyPeriods now else pure ()

/-- `advance`, from the time that the sample gives. -/
def advanceTo (now : Nat) : Act Unit := do
  let a ← get
  if a.header.nextBoundaryNs ≤ now then do
    crossBoundaries now
    segment now
  else segment now

/-- `advance`. -/
def advance (sample : Option CheckedSample) : Act Unit := do
  let a ← get
  if a.header.state = .off ∨ a.header.state = .exported then pure ()
  else if a.header.state ≠ .running then throw .busy
  else do
    let clock ← attempt (sampled sample)
    let now ← attempt (a.checkAdvance clock)
    set { a with header := { a.header with lastRawCounter := clock.rawCounter } }
    advanceTo now

/-! ## entry points -/

/-- What `enable` finds. -/
structure BootSetting where
  sample : Option CheckedSample
  onlineHarts : Nat
  /-- No hart has selected a task or is saving the context of one. -/
  quiet : Bool
  executing : Fin maxHarts → Nat

/-- The header that `enable` writes. -/
def openHeader (bootSession onlineHarts now boundary : Nat) (clock : CheckedSample) : Header where
  state := .running
  bootSession := bootSession
  tickPeriodFs := clock.periodFs
  epochNs := now
  lastNs := now
  periodNs := 100000000
  nextBoundaryNs := boundary
  admittedHartMask := 1 <<< onlineHarts - 1
  serviceGapLimitNs := 20000000
  switchDelayLimitNs := 20000000
  exhaustionToDepartureLimitNs := 20000000
  nextSwitchSerial := 1
  lastRawCounter := clock.rawCounter
  timebaseKind := 1

/-- `enable`. -/
def enable (bootSession : Nat) (setting : BootSetting) : Act Unit := do
  let a ← get
  attempt (require (a.header.state = .off) .busy)
  let clock ← attempt (sampled setting.sample)
  let now ← attempt (narrow (clock.rawCounter * clock.periodFs / 1000000))
  attempt (require (0 < setting.onlineHarts ∧ setting.onlineHarts ≤ maxHarts ∧ bootSession ≠ 0)
    .badConfig)
  attempt (require (setting.quiet = true) .busy)
  let boundary ← attempt (add now 100000000)
  set { a with
    header := openHeader bootSession setting.onlineHarts now boundary clock
    harts := fun hart =>
      if hart.val < setting.onlineHarts then
        { a.harts hart with activeTid := setting.executing hart, lastServiceNs := now }
      else a.harts hart }
  emit { nowNs := now, kind := 1, value0 := clock.base, value1 := clock.capabilities }
  emit { nowNs := now, kind := 16, value0 := clock.configuration, value1 := clock.rawCounter }

variable (owner : CellOwner)

/-- `owner_index`. -/
def ownerIndex : Except Error (Fin maxCells) :=
  if h : owner.cellId < maxCells then
    if owner.cellId = 0 ∨ owner.generation = 0 ∨ owner.rootTid = 0 then .error .unknownOwner
    else .ok ⟨owner.cellId, h⟩
  else .error .unknownOwner

/-- `enable`, when the books are still closed. -/
def enableIfOff (bootSession : Nat) (setting : BootSetting) : Act Unit := do
  let a ← get
  if a.header.state = .off then enable bootSession setting else pure ()

/-- The row of a group that is bound. -/
def boundRow (now : Nat) : Group :=
  { cellId := owner.cellId, generation := owner.generation, rootTid := owner.rootTid,
    state := .live, policyRevision := 1, entitlementNs := 20000000, burstCapNs := 40000000,
    birthNs := now }

/-- `bind`. -/
def bindGroup (setting : BootSetting) (sample : Option CheckedSample) : Act Unit := do
  let i ← attempt ((ownerIndex owner).mapError fun _ => .badConfig)
  enableIfOff owner.rootTid setting
  advance sample
  let a ← get
  attempt (require (owner.rootTid = a.header.bootSession) .experimentBoundExceeded)
  attempt (require ((a.groups i).state = .empty ∧ a.retired.length < maxCells) .historyFull)
  emit
    { nowNs := a.header.lastNs, kind := 2, cellId := owner.cellId, generation := owner.generation,
      value0 := owner.rootTid, value1 := 20000000 }
  modify fun a =>
    { a with groups := update a.groups i (boundRow owner a.header.lastNs) }

/-- `inherit`. -/
def inheritGroup (sample : Option CheckedSample) : Act Unit := do
  let slot ← attempt (ownerIndex owner)
  let a ← get
  if a.header.state = .off ∨ (a.groups slot).state = .empty then pure ()
  else do
    advance sample
    let a ← get
    let i ← attempt (a.groupIndex owner.cellId owner.generation owner.rootTid)
    attempt (require ((a.groups i).state = .live ∨ (a.groups i).state = .throttled)
      .retirementPending)

/-- The queries of the measurement (`period_wait_target`, `join_wait_target`,
`start_wait_targets`, `eligibility`): they advance, and then only read, and may fail. -/
def observe (sample : Option CheckedSample) (outcome : Except Error Unit) : Act Unit := do
  advance sample
  attempt outcome

/-- The hart's record. -/
def hartOf (hart : Nat) : Except Error (Fin maxHarts) :=
  if h : hart < maxHarts then .ok ⟨hart, h⟩ else .error .badConfig

namespace Accounting

variable (a : Accounting)

def setHart (hart : Fin maxHarts) (h : Hart) : Accounting :=
  { a with harts := update a.harts hart h }

/-- The event is the period's summary of the service of the hart. -/
def isSummary (hart : Nat) (e : Event) : Bool :=
  e.kind = 17 ∧ e.hart = hart ∧ e.generation = a.header.periodIndex

/-- The time since the last service, for a hart that is occupied. -/
def serviceGap (h : Hart) : Except Error Nat :=
  if h.occupied then elapsed h.lastServiceNs a.header.lastNs else .ok 0

/-- `tuple`: what a hart records of a task. -/
def tuple (task : Option Task) : Except Error (Nat × Nat × Nat × Nat) :=
  match task with
  | none => .ok (0, 0, 0, 0)
  | some task =>
    if h : task.cellId < maxCells then
      if (a.groups ⟨task.cellId, h⟩).state = .empty then .ok (0, 0, 0, task.id)
      else do
        let _ ← a.groupIndex task.cellId task.cellGeneration task.rootTid
        return (task.cellId, task.cellGeneration, task.rootTid, task.id)
    else .error .unknownOwner

end Accounting

/-- `service_summary`. -/
def serviceSummary (hart : Fin maxHarts) (continuation incomingWorkload : Bool) : Act Unit := do
  let a ← get
  let h := a.harts hart
  if ¬ h.occupied ∧ incomingWorkload = false then pure ()
  else do
    let gap ← attempt (a.serviceGap h)
    attempt (require (gap ≤ a.header.serviceGapLimitNs) .serviceGapExceeded)
    match a.events.findIdx? (a.isSummary hart) with
    | some index => do
      let old := a.events.getD index {}
      let count ← attempt (add old.value1 continuation.toNat)
      let summary :=
        { old with value0 := max old.value0 gap, value1 := count, nowNs := a.header.lastNs }
      set { a with events := a.events.set index summary }
    | none =>
      emit
        { nowNs := a.header.lastNs, kind := 17, generation := a.header.periodIndex, hart,
          value0 := gap, value1 := continuation.toNat }

/-- The hart is served now. -/
def served (hart : Fin maxHarts) : Act Unit :=
  modify fun a => a.setHart hart { a.harts hart with lastServiceNs := a.header.lastNs }

/-- `service`. -/
def service (hart : Nat) (sample : Option CheckedSample) : Act Unit := do
  advance sample
  let a ← get
  if a.header.state = .running then do
    let hart ← attempt (hartOf hart)
    attempt (require (a.admitted hart = true) .badConfig)
    serviceSummary hart false false
    served hart
  else pure ()

/-- `no_switch`. -/
def noSwitch (hart : Nat) (task : Option Task) (sample : Option CheckedSample) : Act Unit := do
  advance sample
  let a ← get
  if a.header.state ≠ .running then pure ()
  else do
    let expected ← attempt (a.tuple task)
    let hart ← attempt (hartOf hart)
    let h := a.harts hart
    attempt (require (h.pendingSerial = 0 ∧
      expected = (h.activeCell, h.activeGeneration, h.activeRootTid, h.activeTid)) .switchMismatch)
    serviceSummary hart (expected.1 ≠ 0) false
    served hart

namespace Accounting

/-- The group may not run now. -/
def ineligible (a : Accounting) (g : Group) : Except Error Bool :=
  if g.state ≠ .live ∨ g.terminalSerial ≠ 0 then .ok true
  else do
    let allowance ← a.allowance g
    return allowance ≤ g.periodChargeNs

/-- The check of `stage` that the incoming group may run. -/
def refuses (a : Accounting) (tuple : Nat × Nat × Nat × Nat) : Except Error Bool :=
  if tuple.1 = 0 then .ok false
  else do
    let i ← a.groupIndex tuple.1 tuple.2.1 tuple.2.2.1
    a.ineligible (a.groups i)

/-- Another hart runs the task, or is about to. -/
def elsewhere (a : Accounting) (hart : Fin maxHarts) (tid : Nat) : Bool :=
  ∃ other, other ≠ hart ∧ ((a.harts other).activeTid = tid ∨
    ((a.harts other).pendingSerial ≠ 0 ∧ (a.harts other).pendingTid = tid))

end Accounting

/-- The end of `stage`: the switch is pending. -/
def stageSwitch (hart : Fin maxHarts) (tuple : Nat × Nat × Nat × Nat) (workload : Bool) :
    Act Unit :=
  modify fun a =>
    let serial := a.header.nextSwitchSerial
    let a := if workload then
        a.appendReserved
          { nowNs := a.header.lastNs, kind := 3, cellId := tuple.1, generation := tuple.2.1, hart,
            value0 := tuple.2.2.2, value1 := serial }
      else a
    { a with header := { a.header with nextSwitchSerial := serial + 1 } }.setHart hart
      { a.harts hart with
        pendingCell := tuple.1
        pendingGeneration := tuple.2.1
        pendingRootTid := tuple.2.2.1
        pendingTid := tuple.2.2.2
        pendingSerial := serial
        pendingSinceNs := a.header.lastNs
        lastServiceNs := a.header.lastNs }

/-- `stage`: whether the switch to the incoming task is pending now. -/
def stage (hart : Nat) (incoming : Option Task) (executing : Nat) (sample : Option CheckedSample) :
    Act Bool := do
  advance sample
  let a ← get
  if a.header.state ≠ .running then pure true
  else do
    let tuple ← attempt (a.tuple incoming)
    let hart ← attempt (hartOf hart)
    let h := a.harts hart
    attempt (require (h.pendingSerial = 0 ∧ h.activeTid = executing) .switchMismatch)
    let refused ← attempt (a.refuses tuple)
    if refused then pure false
    else do
      attempt (require (¬ (tuple.2.2.2 ≠ 0 ∧ a.elsewhere hart tuple.2.2.2)) .switchMismatch)
      attempt (require (a.header.nextSwitchSerial + 1 < 2 ^ 64) .counterExhausted)
      let workload : Bool := h.activeCell ≠ 0 ∨ tuple.1 ≠ 0
      attempt (require (¬ (workload ∧ captureSwitches ≤ a.events.countP (·.kind = 3)))
        .experimentBoundExceeded)
      attempt (a.reserveEvents (if workload then 2 else 0))
      serviceSummary hart false (tuple.1 ≠ 0)
      stageSwitch hart tuple workload
      pure true

/-- The end of `complete`: a group that has left its last hart departed. -/
def depart (h : Hart) : Act Unit := do
  let a ← get
  if h.activeCell = 0 then pure ()
  else do
    let i ← attempt (a.groupIndex h.activeCell h.activeGeneration h.activeRootTid)
    if a.occupied h.activeCell h.activeGeneration then pure ()
    else set { a with
      groups := update a.groups i { a.groups i with terminalSerial := 0 } }

/-- An event that is recorded when a cell is involved. -/
def emitIf (workload : Bool) (event : Event) : Act Unit :=
  if workload then emit event else pure ()

namespace Accounting

/-- The check of `complete` that the pending group is known. -/
def checkPending (a : Accounting) (h : Hart) : Except Error Unit :=
  if h.pendingCell = 0 then .ok ()
  else do
    let _ ← a.groupIndex h.pendingCell h.pendingGeneration h.pendingRootTid
    return ()

end Accounting

/-- `complete`. -/
def complete (hart selected : Nat) (sample : Option CheckedSample) : Act Unit := do
  advance sample
  let a ← get
  if a.header.state ≠ .running then pure ()
  else do
    let hart ← attempt (hartOf hart)
    let h := a.harts hart
    attempt (require (h.pendingSerial ≠ 0 ∧ h.pendingTid = selected ∧
      h.lastCompletedSerial < h.pendingSerial) .switchMismatch)
    attempt (a.checkPending h)
    let workload : Bool := h.activeCell ≠ 0 ∨ h.pendingCell ≠ 0
    attempt (a.reserveEvents (if workload then 2 else 0))
    serviceSummary hart false (h.pendingCell ≠ 0)
    emitIf workload
      { nowNs := a.header.lastNs, kind := 4, cellId := h.activeCell,
        generation := h.activeGeneration, hart, value0 := h.activeTid, value1 := h.pendingSerial }
    modify fun a => a.setHart hart
      { activeCell := h.pendingCell, activeGeneration := h.pendingGeneration,
        activeRootTid := h.pendingRootTid, activeTid := h.pendingTid,
        lastCompletedSerial := h.pendingSerial, lastServiceNs := a.header.lastNs }
    depart h

/-- `abort_staged_switch`. -/
def abortStagedSwitch (hart serial executing : Nat) (sample : Option CheckedSample) : Act Unit := do
  advance sample
  let a ← get
  if a.header.state ≠ .running then pure ()
  else do
    let hart ← attempt (hartOf hart)
    let h := a.harts hart
    attempt (require (serial ≠ 0 ∧ h.pendingSerial = serial ∧ executing = h.activeTid)
      .switchMismatch)
    emitIf (h.activeCell ≠ 0 ∨ h.pendingCell ≠ 0)
      { nowNs := a.header.lastNs, kind := 15, cellId := h.pendingCell,
        generation := h.pendingGeneration, hart, value0 := h.pendingTid, value1 := serial }
    modify fun a => a.setHart hart { a.harts hart with
      pendingCell := 0
      pendingGeneration := 0
      pendingRootTid := 0
      pendingTid := 0
      pendingSerial := 0
      pendingSinceNs := 0 }

variable (owner : CellOwner) (sample : Option CheckedSample)

/-- The end of `begin_retirement`. -/
def retireGroup (i : Fin maxCells) : Act Unit := do
  let a ← get
  if (a.groups i).state = .retiring then pure ()
  else do
    emit
      { nowNs := a.header.lastNs, kind := 9, cellId := owner.cellId,
        generation := owner.generation, value0 := owner.rootTid }
    modify fun a =>
      { a with groups := update a.groups i { a.groups i with state := .retiring } }

/-- `begin_retirement`. -/
def beginRetirement : Act Unit := do
  let slot ← attempt (ownerIndex owner)
  let a ← get
  if a.header.state = .off ∨ (a.groups slot).state = .empty then pure ()
  else do
    advance sample
    let a ← get
    let i ← attempt (a.groupIndex owner.cellId owner.generation owner.rootTid)
    retireGroup owner i

/-- The row of a group that is retired, with the serial of its last completed switch. -/
def Accounting.retiredRow (a : Accounting) (owner : CellOwner) (g : Group) : Group :=
  { g with
    state := .retired
    terminalSerial := ((a.events.reverse.find? fun e =>
      e.kind = 4 ∧ e.cellId = owner.cellId ∧ e.generation = owner.generation).map
        (·.value1)).getD 0 }

/-- The end of `finish_retirement`. -/
def buryGroup (i : Fin maxCells) : Act Bool := do
  let a ← get
  if a.occupied owner.cellId owner.generation then pure false
  else do
    attempt (require ((a.groups i).state = .retiring) .retirementPending)
    attempt (require (a.retired.length < maxCells) .historyFull)
    attempt (a.reserveEvents 1)
    set { a.appendReserved
        { nowNs := a.header.lastNs, kind := 10, cellId := owner.cellId,
          generation := owner.generation, value0 := owner.rootTid, value1 := a.retired.length } with
      retired := a.retired ++ [a.retiredRow owner (a.groups i)]
      groups := update a.groups i {} }
    pure true

/-- `finish_retirement`. -/
def finishRetirement : Act Bool := do
  let slot ← attempt (ownerIndex owner)
  let a ← get
  if a.header.state = .off ∨ (a.groups slot).state = .empty then pure true
  else do
    advance sample
    let a ← get
    let i ← attempt (a.groupIndex owner.cellId owner.generation owner.rootTid)
    buryGroup owner i

/-- `request_policy`. -/
def requestPolicy (revision entitlement burst : Nat)
    (sample : Option CheckedSample) : Act Unit := do
  advance sample
  let a ← get
  let i ← attempt (a.groupIndex owner.cellId owner.generation owner.rootTid)
  let g := a.groups i
  attempt (require (g.policyRevision + 1 < 2 ^ 64) .counterExhausted)
  attempt (require (revision = g.policyRevision + 1 ∧ g.pendingRevision = 0 ∧
    (g.state = .live ∨ g.state = .throttled)) .policyConflict)
  attempt (require (entitlement ≠ 0) .badConfig)
  let bound ← attempt (mul a.header.periodNs (countOnes a.header.admittedHartMask))
  attempt (require (entitlement ≤ bound) .badConfig)
  let _ ← attempt (add entitlement burst)
  emit
    { nowNs := a.header.lastNs, kind := 8, cellId := owner.cellId, generation := owner.generation,
      value0 := entitlement, value1 := burst }
  modify fun a => { a with groups := update a.groups i { a.groups i with
    pendingRevision := revision
    pendingEntitlementNs := entitlement
    pendingBurstCapNs := burst } }
  let apply ← attempt (add a.header.periodIndex 1)
  modify fun a =>
    { a with groups := update a.groups i { a.groups i with pendingApplyPeriod := apply } }

/-- The part of `safe_point` that closes the books, when all groups are retired. -/
def safePoint : Act Unit := do
  let a ← get
  if a.header.state ≠ .running ∨ a.retired = [] ∨ (∃ i, (a.groups i).state ≠ .empty) ∨
      ∃ hart, (a.harts hart).pendingSerial ≠ 0 ∨ (a.harts hart).activeCell ≠ 0 then pure ()
  else do
    advance sample
    let a ← get
    emit { nowNs := a.header.lastNs, kind := 12, value0 := a.retired.length }
    modify fun a => { a with header := { a.header with state := .exported } }

/-- The last check of `safe_point`, after the export. -/
def confirmClock : Act Unit := do
  let a ← get
  let clock ← attempt (sampled sample)
  attempt (a.checkClockIdentity clock)
  attempt (require (a.header.lastRawCounter ≤ clock.rawCounter) .clockRegression)

/-! ## steps -/

inductive Op where
  | segment (finish : Nat)
  | settle
  | bindGroup (owner : CellOwner) (setting : BootSetting) (sample : Option CheckedSample)
  | inheritGroup (owner : CellOwner) (sample : Option CheckedSample)
  | observe (sample : Option CheckedSample) (outcome : Except Error Unit)
  | service (hart : Nat) (sample : Option CheckedSample)
  | noSwitch (hart : Nat) (task : Option Task) (sample : Option CheckedSample)
  | stage (hart : Nat) (incoming : Option Task) (executing : Nat) (sample : Option CheckedSample)
  | complete (hart selected : Nat) (sample : Option CheckedSample)
  | abortStagedSwitch (hart serial executing : Nat) (sample : Option CheckedSample)
  | beginRetirement (owner : CellOwner) (sample : Option CheckedSample)
  | finishRetirement (owner : CellOwner) (sample : Option CheckedSample)
  | requestPolicy (owner : CellOwner) (revision entitlement burst : Nat)
      (sample : Option CheckedSample)
  | safePoint (sample : Option CheckedSample)
  | confirmClock (sample : Option CheckedSample)

/-- What an operation does before its outcome is looked at. -/
def Op.perform : Op → Act Bool
  | .segment finish => do
    let a ← get
    attempt (require (a.header.state = .running) .busy)
    CpuAccounting.segment finish
    pure true
  | .settle => do
    let a ← get
    attempt (require (a.header.state = .running) .busy)
    CpuAccounting.settle
    pure true
  | .bindGroup owner setting sample => do
    CpuAccounting.bindGroup owner setting sample
    pure true
  | .inheritGroup owner sample => do
    CpuAccounting.inheritGroup owner sample
    pure true
  | .observe sample outcome => do
    CpuAccounting.observe sample outcome
    pure true
  | .service hart sample => do
    CpuAccounting.service hart sample
    pure true
  | .noSwitch hart task sample => do
    CpuAccounting.noSwitch hart task sample
    pure true
  | .stage hart incoming executing sample => CpuAccounting.stage hart incoming executing sample
  | .complete hart selected sample => do
    CpuAccounting.complete hart selected sample
    pure true
  | .abortStagedSwitch hart serial executing sample => do
    CpuAccounting.abortStagedSwitch hart serial executing sample
    pure true
  | .beginRetirement owner sample => do
    CpuAccounting.beginRetirement owner sample
    pure true
  | .finishRetirement owner sample => CpuAccounting.finishRetirement owner sample
  | .requestPolicy owner revision entitlement burst sample => do
    CpuAccounting.requestPolicy owner revision entitlement burst sample
    pure true
  | .safePoint sample => do
    CpuAccounting.safePoint sample
    pure true
  | .confirmClock sample => do
    CpuAccounting.confirmClock sample
    pure true

/-- The operation is one of the entry points; `segment` and `settle` are parts of them. -/
def Op.isEntry : Op → Bool
  | .segment _ | .settle => false
  | _ => true

/-- `mutate`: a failure seals the books. -/
def step (a : Accounting) (op : Op) : Option (Except Error Bool × Accounting) :=
  match op.perform a with
  | .ok answer a' => some (.ok answer, a')
  | .error e a' => some (.error e, a'.sealBooks e)

end Cellos.CpuAccounting
