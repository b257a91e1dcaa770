import Cellos.Lib

/-!
# Cellos.Charge.Gate

The authority gate of the durable-charge journal (`gates.rs`).

A gate holds the charges of one ledger in two dimensions.  An obligation enters by
`reserve`, which debits its whole vector, and leaves by `releaseOnce`, which credits what
is left of it.  In between it is resized: `resize` debits the growth ahead of time as a
*pending* amount, `resizeApply` folds it into the base, `shrinkCredit` gives back the surplus
in installments and `cancelResize` undoes a resize that was never applied.  A second group of
calls moves the gate from one writer to the next.

A call keeps what it wrote when it fails, as the Rust code does.  An addition the code checks
refuses with its error, and an operation the code does not check stops with `wraps` when its
result is not a `u64`.
-/

namespace Cellos.Charge

open Lib

/-- The errors of the journal crate. -/
inductive JournalError where
  | magic
  | version
  | checksum
  | corrupt
  | uninitialized
  | capacity
  | deviceIo
  | recordLength
  | overflow
  | underflow
  | notFound
  | duplicate
  | state
  | arithmetic
  | gateClosed
  | staleWriter
  | unresolvedObligation
  deriving DecidableEq

/-! ## the gate -/

def maxObligations : Nat := 16

/-- A `[u8; 16]`. -/
abbrev Id16 := BitVec 128

/-- A `[u8; 32]`. -/
abbrev Id32 := BitVec 256

/-- A `[u64; 2]`: one amount for each dimension. -/
abbrev Amounts := Fin 2 → Nat

inductive ObligationStatus where
  | unknown
  | applied
  | closing
  | released
  deriving DecidableEq

inductive GateStatus where
  | inactive
  | reconciling
  | open
  | fenced
  | redirect
  deriving DecidableEq

structure ResizeOp where
  key : Id16
  (beforeVector targetVector globalDebit localGrowth credited : Amounts)
  applied : Bool

structure Obligation where
  id : Id16
  (originLedger originGenesis : Id32)
  initiatingTx : Id16
  initiatingRev : Nat
  createKey : Id16
  (baseVector pendingPositive effectiveVector : Amounts)
  status : ObligationStatus
  resize : Option ResizeOp

structure AuthorityGate where
  (ledgerId genesisId : Id32)
  epoch : Nat
  writer : Id32
  gateStatus : GateStatus
  (charged limit : Amounts)
  obligations : Fin maxObligations → Option Obligation
  obligationCount : Nat

namespace AuthorityGate

def new (ledgerId genesisId : Id32) (epoch : Nat) (writer : Id32) (limit : Amounts) :
    AuthorityGate where
  ledgerId := ledgerId
  genesisId := genesisId
  epoch := epoch
  writer := writer
  gateStatus := .open
  charged := 0
  limit := limit
  obligations := fun _ => none
  obligationCount := 0

variable (gate : AuthorityGate)

def findObligationIndex (id : Id16) : Option (Fin maxObligations) :=
  (List.finRange maxObligations).find? fun i => (gate.obligations i).any fun ob => ob.id = id

def findObligation (id : Id16) : Option Obligation :=
  (gate.findObligationIndex id).bind gate.obligations

/-- The first slot without an obligation. -/
def freeSlot : Option (Fin maxObligations) :=
  (List.finRange maxObligations).find? fun i => (gate.obligations i).isNone

/-- Overwrite one slot. -/
def put (i : Fin maxObligations) (ob : Obligation) : AuthorityGate :=
  { gate with obligations := Function.update gate.obligations i (some ob) }

end AuthorityGate

/-! ## programs -/

/-- How a call stops: with an error of the crate, or at an unchecked operation whose result
does not fit in a `u64`. -/
inductive Stop where
  | refused (error : JournalError)
  | wraps
  deriving DecidableEq

abbrev Act := EStateM Stop AuthorityGate

/-- Go on when the condition holds; return the error otherwise. -/
def ensure (c : Prop) [Decidable c] (error : JournalError) : Act Unit :=
  attempt (require c (.refused error))

variable (id key : Id16) (writer : Id32) (epoch : Nat) (a b : Nat)

def checkedAdd : Act Nat :=
  attempt (if a + b < 2 ^ 64 then .ok (a + b) else .error (.refused .overflow))

def checkedSub : Act Nat := attempt (if b ≤ a then .ok (a - b) else .error (.refused .arithmetic))

/-- The unchecked `a + b`. -/
def plus : Act Nat := attempt (if a + b < 2 ^ 64 then .ok (a + b) else .error .wraps)

/-- The unchecked `a - b`. -/
def minus : Act Nat := attempt (if b ≤ a then .ok (a - b) else .error .wraps)

def setCharged (charged : Amounts) : Act Unit := modify fun gate => { gate with charged := charged }

def setObligation (i : Fin maxObligations) (ob : Obligation) : Act Unit :=
  modify fun gate => gate.put i ob

def checkGate : Act Unit := do
  let gate ← get
  ensure (gate.gateStatus = .open) .gateClosed
  ensure (gate.writer = writer ∧ gate.epoch = epoch) .staleWriter

/-- The slot of an obligation and what it holds. -/
def lookup (id : Id16) : Act (Fin maxObligations × Obligation) := do
  let gate ← get
  attempt (demand ((gate.findObligationIndex id).bind fun i =>
    (gate.obligations i).map fun ob => (i, ob)) (.refused .notFound))

/-- The resize in progress, or `State`. -/
def resizing (ob : Obligation) : Act ResizeOp := attempt (demand ob.resize (.refused .state))

/-- The charge that grows by `growth` and stays within the limit: the checks that `reserve` and
`resize` make before they write it. -/
def grownCharge (growth : Amounts) : Act Amounts := do
  let gate ← get
  let newCharged0 ← checkedAdd (gate.charged 0) (growth 0)
  let newCharged1 ← checkedAdd (gate.charged 1) (growth 1)
  ensure (newCharged0 ≤ gate.limit 0 ∧ newCharged1 ≤ gate.limit 1) .capacity
  pure ![newCharged0, newCharged1]

/-- `self.charged[0] -= …; self.charged[1] -= …`, one word after the other. -/
def uncharge (credit : Amounts) : Act Unit := do
  let gate ← get
  let charged0 ← minus (gate.charged 0) (credit 0)
  setCharged ![charged0, gate.charged 1]
  let charged1 ← minus (gate.charged 1) (credit 1)
  setCharged ![charged0, charged1]

/-! ## the calls -/

/-- What `reserve` is asked to record. -/
structure Reservation where
  id : Id16
  (originLedger originGenesis : Id32)
  initiatingTx : Id16
  initiatingRev : Nat
  createKey : Id16
  vector : Amounts

/-- The obligation a reservation starts as. -/
def Reservation.obligation (r : Reservation) : Obligation where
  id := r.id
  originLedger := r.originLedger
  originGenesis := r.originGenesis
  initiatingTx := r.initiatingTx
  initiatingRev := r.initiatingRev
  createKey := r.createKey
  baseVector := r.vector
  pendingPositive := 0
  effectiveVector := 0
  status := .unknown
  resize := none

def reserve (r : Reservation) (writer : Id32) (epoch : Nat) : Act Unit := do
  checkGate writer epoch
  let gate ← get
  ensure (gate.findObligation r.id = none) .duplicate
  ensure (gate.obligationCount < maxObligations) .capacity
  let newCharged ← grownCharge r.vector
  setCharged newCharged
  -- The charge is already written when the search for a slot fails.
  let slot ← attempt (demand gate.freeSlot (.refused .capacity))
  setObligation slot r.obligation
  let obligationCount ← plus gate.obligationCount 1
  modify fun gate => { gate with obligationCount := obligationCount }

def resolveCreation (id : Id16) (vector : Amounts) (writer : Id32) (epoch : Nat) : Act Unit := do
  checkGate writer epoch
  let (i, ob) ← lookup id
  ensure (ob.status = .unknown ∧ ob.baseVector = vector) .state
  setObligation i { ob with effectiveVector := vector, status := .applied }

def resize (target : Amounts) (writer : Id32) (epoch : Nat) : Act Unit := do
  checkGate writer epoch
  let (i, ob) ← lookup id
  ensure (ob.status = .applied ∧ ob.resize = none) .state
  -- Both planes saturate at zero, as natural numbers do.
  let g := target - ob.baseVector
  let l := target - ob.effectiveVector
  let newCharged ← grownCharge g
  setCharged newCharged
  setObligation i { ob with
    pendingPositive := g
    resize := some ⟨key, ob.effectiveVector, target, g, l, 0, false⟩ }

def resizeApply : Act Unit := do
  checkGate writer epoch
  let (i, ob) ← lookup id
  let op ← resizing ob
  ensure (op.key = key ∧ op.applied = false) .state
  let base0 ← checkedAdd (ob.baseVector 0) (ob.pendingPositive 0)
  -- The first word is written before the second is computed.
  setObligation i { ob with baseVector := ![base0, ob.baseVector 1] }
  let base1 ← checkedAdd (ob.baseVector 1) (ob.pendingPositive 1)
  setObligation i { ob with
    baseVector := ![base0, base1]
    pendingPositive := 0
    effectiveVector := op.targetVector
    resize := if ![base0, base1] = op.targetVector then none
      else some { op with applied := true } }

def shrinkCredit (installment : Amounts) (writer : Id32) (epoch : Nat) : Act Unit := do
  checkGate writer epoch
  let (i, ob) ← lookup id
  let op ← resizing ob
  ensure (op.key = key ∧ op.applied = true) .state
  ensure (installment 0 ≤ ob.baseVector 0 - op.targetVector 0 ∧
    installment 1 ≤ ob.baseVector 1 - op.targetVector 1 ∧ installment ≠ 0) .arithmetic
  uncharge installment
  let base0 ← minus (ob.baseVector 0) (installment 0)
  let base1 ← minus (ob.baseVector 1) (installment 1)
  let credited0 ← plus (op.credited 0) (installment 0)
  let credited1 ← plus (op.credited 1) (installment 1)
  setObligation i { ob with
    baseVector := ![base0, base1]
    resize := if ![base0, base1] = op.targetVector then none
      else some { op with credited := ![credited0, credited1] } }

def cancelResize : Act Unit := do
  checkGate writer epoch
  let (i, ob) ← lookup id
  let op ← resizing ob
  ensure (op.key = key ∧ op.applied = false) .state
  uncharge op.globalDebit
  setObligation i { ob with pendingPositive := 0, resize := none }

def closeIntent (id : Id16) (writer : Id32) (epoch : Nat) : Act Unit := do
  checkGate writer epoch
  let (i, ob) ← lookup id
  ensure (ob.status = .applied ∧ ob.resize = none) .state
  setObligation i { ob with status := .closing }

def releaseOnce (id : Id16) (writer : Id32) (epoch : Nat) : Act Unit := do
  checkGate writer epoch
  let (i, ob) ← lookup id
  ensure (ob.status = .closing ∧ ob.resize = none) .state
  let gate ← get
  let newCharged0 ← checkedSub (gate.charged 0) (ob.baseVector 0)
  let newCharged1 ← checkedSub (gate.charged 1) (ob.baseVector 1)
  setCharged ![newCharged0, newCharged1]
  setObligation i { ob with baseVector := 0, effectiveVector := 0, status := .released }

/-- The target authority is not looked at. -/
def prepareAdoption (_targetAuthority : Id32) (writer : Id32) (epoch : Nat) : Act Unit := do
  checkGate writer epoch
  modify fun gate => { gate with gateStatus := .fenced }

/-- Nothing is checked: neither the status nor the epoch the gate has. -/
def acceptAdoption (newWriter : Id32) (newEpoch : Nat) : Act Unit := modify fun gate =>
    { gate with writer := newWriter, epoch := newEpoch, gateStatus := .reconciling }

def activate : Act Unit := do
  let gate ← get
  ensure (gate.gateStatus = .reconciling) .gateClosed
  ensure (gate.writer = writer ∧ gate.epoch = epoch) .staleWriter
  ensure (∀ i, (gate.obligations i).all fun ob => ob.status ≠ .unknown) .unresolvedObligation
  modify fun gate => { gate with gateStatus := .open }

/-! ## runs -/

/-- A call with its arguments. -/
inductive Call where
  | reserve (r : Reservation) (writer : Id32) (epoch : Nat)
  | resolveCreation (id : Id16) (vector : Amounts) (writer : Id32) (epoch : Nat)
  | resize (id key : Id16) (target : Amounts) (writer : Id32) (epoch : Nat)
  | resizeApply (id key : Id16) (writer : Id32) (epoch : Nat)
  | shrinkCredit (id key : Id16) (installment : Amounts) (writer : Id32) (epoch : Nat)
  | cancelResize (id key : Id16) (writer : Id32) (epoch : Nat)
  | closeIntent (id : Id16) (writer : Id32) (epoch : Nat)
  | releaseOnce (id : Id16) (writer : Id32) (epoch : Nat)
  | prepareAdoption (targetAuthority writer : Id32) (epoch : Nat)
  | acceptAdoption (newWriter : Id32) (newEpoch : Nat)
  | activate (writer : Id32) (epoch : Nat)

def Call.act : Call → Act Unit
  | .reserve r writer epoch => Charge.reserve r writer epoch
  | .resolveCreation id vector writer epoch => Charge.resolveCreation id vector writer epoch
  | .resize id key target writer epoch => Charge.resize id key target writer epoch
  | .resizeApply id key writer epoch => Charge.resizeApply id key writer epoch
  | .shrinkCredit id key installment writer epoch =>
    Charge.shrinkCredit id key installment writer epoch
  | .cancelResize id key writer epoch => Charge.cancelResize id key writer epoch
  | .closeIntent id writer epoch => Charge.closeIntent id writer epoch
  | .releaseOnce id writer epoch => Charge.releaseOnce id writer epoch
  | .prepareAdoption targetAuthority writer epoch =>
    Charge.prepareAdoption targetAuthority writer epoch
  | .acceptAdoption newWriter newEpoch => Charge.acceptAdoption newWriter newEpoch
  | .activate writer epoch => Charge.activate writer epoch

/-- How a call ended. -/
inductive Outcome where
  | done
  | stopped (stop : Stop)
  deriving DecidableEq

/-- One line of the transcript of a run: the call, how it ended, and the charged totals before
and after it. -/
structure Line where
  call : Call
  outcome : Outcome
  (before after : Amounts)

/-- One call.  It always returns; `Stop.wraps` is among its outcomes. -/
def step (gate : AuthorityGate) (call : Call) : Option (Line × AuthorityGate) :=
  match call.act gate with
  | .ok () gate' => some (⟨call, .done, gate.charged, gate'.charged⟩, gate')
  | .error stop gate' => some (⟨call, .stopped stop, gate.charged, gate'.charged⟩, gate')

end Cellos.Charge
