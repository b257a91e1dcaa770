import Cellos.Pipes.Model
import Cellos.Session.Context

/-!
# Cellos.Session.State

The records of CellSessionV1 (`task/cell_session.rs`), the part of the scheduler and
of the pipe table they use, and the lookups every handler starts with.

Every transition runs under the one `SCHEDULER` lock, so the kernel is one `World`.
A reference is looked up by binary search on its id in the source and by `find?` here:
ids are minted in ascending order and records are only ever removed.

What the code asks of the machine comes with the step as an `Env`: the tick and the
nanosecond clock, whether an allocation or a quota charge succeeds, and whether the
launch policy still admits a publication.  A failed assertion of the source sets
`World.fault`; nothing clears it.
-/

namespace Cellos.Session

open Lib Function
open Pipes (Pipe PipeEnd PipeHandle PipeMap duplicateEnd)

/-! ## inputs of a step -/

/-- The places where an allocation or a quota charge can fail. -/
inductive Site where
  | ledger | outcome | operation | holder | ring | bootstrap | receipt | context | preparation
  | publication | deadRing
deriving DecidableEq

/-- What a step reads from the machine. -/
structure Env where
  /-- `system_ticks()`. -/
  now : Nat
  /-- `telemetry::monotonic_ns()`. -/
  clock : Option Nat
  /-- Whether the `n`th request at a site is granted. -/
  grants : Site → Nat → Bool
  /-- Whether the launch policy admits the caller. -/
  launch : Bool
  /-- Why an artifact does not load. -/
  load : Option Status
  /-- The cell id the quota table hands out next. -/
  cellId : Nat

/-! ## rights -/

/-- A set of endpoint rights. -/
abbrev Rights := BitVec 32

namespace Rights
def read : Rights := 1
def write : Rights := 2
def duplicate : Rights := 4
def delegate : Rights := 8
def close : Rights := 16
end Rights

/-! ## session records -/

inductive OperationState where
  | active | cancelled
deriving DecidableEq

def OperationState.code : OperationState → Nat
  | .active => 0 | .cancelled => 1

/-- A node of the operation tree. -/
structure Operation where
  reference : Ref
  owner : Principal
  parent : Ref
  state : OperationState
  depth : Nat
  /-- The cancellation pass that cancelled this operation. -/
  cancelledBy : Nat
  /-- The reason of a queued cancellation, or 0. -/
  pending : Nat

/-- States of a holder record.  `reserved` is an issuer peer that owns no ring count
until its child is committed. -/
inductive EndpointState where
  | opened | closed | revoked | cancelled | reserved
deriving DecidableEq

def EndpointState.code : EndpointState → Nat
  | .opened => 0 | .closed => 1 | .revoked => 2 | .cancelled => 3 | .reserved => 4

/-- A holder of one end of a ring; `prepared` names the child it is staged for. -/
structure Endpoint where
  reference : Ref
  holder : Principal
  (operation parent : Ref)
  handle : PipeHandle
  rights : Rights
  state : EndpointState
  prepared : Option Child
  (enabled issuerHeld : Bool)

/-- Opened or reserved: the record still counts against its operation. -/
def Endpoint.held (e : Endpoint) : Bool := e.state = .opened ∨ e.state = .reserved

/-- The record owns one count of its ring. -/
def Endpoint.counted (e : Endpoint) : Bool := e.state = .opened ∧ e.prepared = none

/-- The bind intent of a preparation. -/
structure Intent where
  reference : Ref
  issuer : Binding
  writers : Ref × Ref

/-- `CellOwner`. -/
structure CellOwner where
  (cellId generation rootTid : Nat)
deriving DecidableEq

def CellOwner.principal (o : CellOwner) : Principal := ⟨o.cellId, o.generation⟩

/-- What a publication reserves: the owner slot, and the task fields the context fills. -/
structure Publication where
  owner : CellOwner
  inheritedArgv : Option Bytes
  cwd : Bytes
  childStdio : List Ref

/-- States of a child record. -/
inductive PreparedState where
  | staged | live | retiring | terminal | aborted | expired
deriving DecidableEq

def PreparedState.code : PreparedState → Nat
  | .staged => 0 | .live => 1 | .retiring => 2 | .terminal => 3 | .aborted => 4 | .expired => 5

/-- The record of a child, from preparation to its terminal state.  `receipts` are the
bound owner receipts: input foreground, VFS working directory, input frontend. -/
structure Prepared where
  reference : Ref
  child : Child
  preparer : Principal
  operation : Ref
  (deadline written : Nat)
  context : Bytes
  parsed : Option Context
  publication : Option Publication
  state : PreparedState
  reason : Nat
  exitCode : Int
  terminalSequence : Nat
  kill : Bool
  intent : Option Intent
  receipts : List Ref

inductive ReceiptState where
  | prepared | committed | aborted | expired
deriving DecidableEq

def ReceiptState.code : ReceiptState → Nat
  | .prepared => 0 | .committed => 1 | .aborted => 2 | .expired => 3

/-- A resource owner's receipt for one grant of a child. -/
structure Receipt where
  (reference prepared : Ref)
  child : Child
  operation : Ref
  issuer : Binding
  (kind slot : Nat)
  object : Ref
  (expectedEpoch nextEpoch : Nat)
  (digest sealBytes : Bytes)
  state : ReceiptState
  bound : Bool
  producers : Ref × Ref
  (restored materialized : Bool)

inductive BootstrapState where
  | reserved | bound | active | aborted | expired | closed
deriving DecidableEq

def BootstrapState.code : BootstrapState → Nat
  | .reserved => 0 | .bound => 1 | .active => 2 | .aborted => 3 | .expired => 4 | .closed => 5

/-- A session bootstrap and its eight endpoints. -/
structure Bootstrap where
  reference : Ref
  controller : Principal
  operation : Ref
  issuer : Binding
  endpoints : List Ref
  session : Ref
  state : BootstrapState
  deadline : Nat

/-- A retained outcome of one request. -/
structure Outcome where
  requestId : Nat
  (request result : Bytes)
  (complete observed : Bool)

/-- The requests of one principal in one operation. -/
structure Ledger where
  actor : Principal
  operation : Ref
  (next acknowledged : Nat)
  outcomes : List Outcome

/-! ## the scheduler's part -/

/-- States of an owner slot; an empty slot has no `Cell`. -/
inductive Slot where
  | reserved | live | retiring
deriving DecidableEq

/-- A non-empty owner slot. -/
structure Cell where
  owner : CellOwner
  slot : Slot

/-- A task row. -/
structure Task where
  tid : Nat
  cell : Principal
  rootTid : Nat
  childContext : Option Bytes
  childStdio : List Ref

/-- Where a call that runs outside the lock stands. -/
inductive Phase where
  /-- `prepare_child` before its admission check. -/
  | admitting
  /-- `prepare_child` while the artifact loads. -/
  | loading (deadline : Nat)
  /-- In the loop of `stream_io`. -/
  | streaming
  /-- Back from its slow part, with the outcome. -/
  | done (outcome : Except Status Bytes)

/-- A call of selector 5, 6 or 10 on its way.  The calls of the legacy stdio path have no
request and no ledger. -/
structure Call where
  caller : Nat
  actor : Principal
  operation : Ref
  request : Option (RequestHeader × Bytes)
  selector : Nat
  body : Bytes
  phase : Phase

/-- The kernel, as far as sessions go. -/
structure World where
  (next terminalNext : Nat)
  operations : List Operation
  endpoints : List Endpoint
  prepared : List Prepared
  receipts : List Receipt
  bootstraps : List Bootstrap
  ledgers : List Ledger
  (pass pendingCancels : Nat)
  /-- Rings whose final reader closed since the last producer pass. -/
  deadRings : List Nat
  deadOverflow : Bool
  (drainOperationCursor drainPreparedCursor : Nat)
  /-- The rings of `pipe.rs`, by pipe id. -/
  rings : PipeMap
  nextRing : Nat
  cells : List Cell
  tasks : List Task
  /-- The active provider of each service. -/
  registry : Nat → Option Binding
  (nextTask nextGeneration : Nat)
  calls : List Call
  fault : Bool

namespace World

variable (w : World)

/-! ## lookups -/

/-- `resolve_live_cell_owner`. -/
def liveOwner (p : Principal) : Option CellOwner :=
  match w.cells.find? fun c => c.owner.principal = p ∧ c.slot = .live with
  | none => none
  | some c =>
    if w.tasks.any fun t =>
        t.tid = c.owner.rootTid ∧ t.rootTid = c.owner.rootTid ∧ t.cell = p then some c.owner
    else none

/-- `owner_live`. -/
def ownerLive (p : Principal) : Bool := (w.liveOwner p).isSome

/-- `resolve_actor`. -/
def resolveActor (tid : Nat) : Except Status Principal := do
  let task ← demand (w.tasks.find? fun t => t.tid = tid) .denied
  require (w.ownerLive task.cell) .stale
  return task.cell

/-- `binding`: the registered provider of a service, if it is live. -/
def binding (service : Nat) : Except Status Binding := do
  let b ← demand (w.registry service) .revoked
  require (b.cellId ≠ 0 ∧ b.generation ≠ 0) .revoked
  require (w.ownerLive b.principal) .revoked
  let task ← demand (w.tasks.find? fun t => t.tid = b.tid) .revoked
  require (task.cell = b.principal) .revoked
  return b

variable (actor : Principal) (r : Ref) (handle : PipeHandle) (capacity : Nat)

/-- `issuer`: the caller must be the registered provider. -/
def issuer (service : Nat) : Except Status Binding := do
  let current ← w.binding service
  require (current.principal = actor) .denied
  return current

/-- `op_index`. -/
def operation : Except Status Operation :=
  demand (w.operations.find? fun o => o.reference = r) .stale

/-- A published, open holder of `actor` in an operation. -/
def member (operation : Ref) (e : Endpoint) : Bool :=
  e.holder = actor ∧ e.operation = operation ∧ e.prepared = none ∧ e.state = .opened

/-- `op_member`: the owner, or the holder of an open endpoint. -/
def opMember : Except Status Operation := do
  let o ← w.operation r
  require (o.owner = actor ∨ w.endpoints.any (member actor r)) .wrongOwner
  return o

/-- `op_active`. -/
def opActive : Except Status Operation := do
  let o ← w.opMember actor r
  require (o.state = .active) .cancelled
  return o

/-- `endpoint_index`. -/
def endpointOf : Except Status Endpoint :=
  demand (w.endpoints.find? fun e => e.reference = r) .stale

/-- Why an endpoint that is not open cannot be used. -/
def closedStatus : EndpointState → Option Status
  | .opened => none
  | .closed => some .stale
  | .revoked => some .revoked
  | _ => some .cancelled

/-- `endpoint`: an open, enabled, published endpoint of `actor` that carries every right
in `rights`, within an active operation. -/
def endpoint (rights : Rights) : Except Status Endpoint := do
  let e ← w.endpointOf r
  require (e.holder = actor) .wrongOwner
  require (e.prepared = none ∧ e.enabled) .denied
  match closedStatus e.state with
  | some status => .error status
  | none =>
    let o ← w.operation e.operation
    require (o.state = .active) .cancelled
    if e.rights &&& rights ≠ rights then
      if rights &&& 3 ≠ 0 ∧ e.rights &&& 3 &&& rights = 0 then .error .wrongDirection
      else .error .denied
    else return e

/-- `preparation`. -/
def preparation : Except Status Prepared :=
  demand (w.prepared.find? fun p => p.reference = r) .stale

/-- `preparing`: a staged child of `actor`. -/
def preparing : Except Status Prepared := do
  let p ← w.preparation r
  require (p.preparer = actor) .wrongOwner
  require (p.state = .staged) .invalidChild
  return p

/-- `receipt_index`. -/
def receipt : Except Status Receipt := demand (w.receipts.find? fun rr => rr.reference = r) .stale

/-- `bootstrap_index`. -/
def bootstrap : Except Status Bootstrap :=
  demand (w.bootstraps.find? fun b => b.reference = r) .stale

/-- `is_subtree`: climb from `child` until the depth of `root`. -/
def climb (target : Nat) : Nat → Operation → Option Operation
  | 0, o => some o
  | fuel + 1, o =>
    if target < o.depth then
      match w.operations.find? (fun p => p.reference = o.parent) with
      | none => none
      | some parent => climb target fuel parent
    else some o

def isSubtree (child root : Ref) : Bool := child = root ||
    match w.operations.find? (fun o => o.reference = child),
        w.operations.find? (fun o => o.reference = root) with
    | some o, some top => ((w.climb top.depth o.depth o).map (·.reference)) = some top.reference
    | _, _ => false

/-- `receipt_service`. -/
def receiptService (kind : Nat) : Nat :=
  if kind = 1 ∨ kind = kindInputFrontend then serviceInput else serviceVfs

/-! ## updates of one row -/

/-- Rewrite the endpoint of a reference. -/
def setEndpoint (f : Endpoint → Endpoint) : World :=
  { w with endpoints := updateFirst (fun e => e.reference = r) f w.endpoints }

/-- Rewrite the child record of a reference. -/
def setPrepared (f : Prepared → Prepared) : World :=
  { w with prepared := updateFirst (fun p => p.reference = r) f w.prepared }

/-- Rewrite the receipt of a reference. -/
def setReceipt (f : Receipt → Receipt) : World :=
  { w with receipts := updateFirst (fun rr => rr.reference = r) f w.receipts }

/-- Rewrite the bootstrap of a reference. -/
def setBootstrap (f : Bootstrap → Bootstrap) : World :=
  { w with bootstraps := updateFirst (fun b => b.reference = r) f w.bootstraps }

/-- `mint`: the next reference. -/
def mint : Except Status (Ref × World) :=
  if w.next + 1 < 2 ^ 64 then .ok (⟨w.next, 1⟩, { w with next := w.next + 1 })
  else .error .quotaExceeded

/-- `terminal_sequence`: 0 once the counter has run out. -/
def terminalSequence : Nat × World :=
  if w.terminalNext = 0 then (0, w)
  else (w.terminalNext, { w with
    terminalNext := if w.terminalNext + 1 < 2 ^ 64 then w.terminalNext + 1 else 0 })

/-! ## rings -/

/-- The capacity `pipe::create` settles on. -/
def ringCapacity : Nat :=
  if capacity = 0 then 4096 else max 64 (min capacity 65536)

theorem ringCapacity_pos : 0 < ringCapacity capacity := by
  unfold ringCapacity
  split
  · decide
  · exact Nat.lt_of_lt_of_le (by decide) (Nat.le_max_left 64 _)

/-- `pipe::create`: an empty ring with one reader and one writer. -/
def freshRing : Pipe where
  buffer := List.replicate (ringCapacity capacity) 0
  head := 0
  len := 0
  readers := 1
  writers := 1
  readWaiters := []
  writeWaiters := []
  len_le := Nat.zero_le _
  capacity_pos := by
    rw [List.length_replicate]
    exact ringCapacity_pos capacity

def createRing : World :=
  { w with
    rings := update w.rings w.nextRing (some (freshRing capacity))
    nextRing := w.nextRing + 1 }

/-- `session_counts`. -/
def counts : Option (Nat × Nat) := (w.rings handle.pipe).map fun p => (p.readers, p.writers)

/-- `session_close`: one count less; the answer is whether no reader is left.  A count
that is already zero fails the assertion. -/
def sessionClose : Bool × World :=
  match w.rings handle.pipe with
  | none => (false, w)
  | some p =>
    let q := p.setEnds (p.ends handle.side - 1) handle.side
    (q.readers = 0, { w with
      rings := update w.rings handle.pipe (if q.dead then none else some q)
      fault := w.fault || p.ends handle.side = 0 })

/-- `session_read`. -/
inductive ReadOutcome where
  | read (bytes : Bytes) | eof | empty

def sessionRead (n : Nat) : Option (ReadOutcome × World) := (w.rings handle.pipe).map fun p =>
    if p.isEmpty = false then
      let (bytes, q) := p.read n
      (.read bytes, { w with rings := update w.rings handle.pipe (some q) })
    else if p.writers = 0 then (.eof, w)
    else (.empty, w)

/-- `session_write`. -/
inductive WriteOutcome where
  | wrote (count : Nat) | full | noReader

def sessionWrite (src : Bytes) : Option (WriteOutcome × World) := (w.rings handle.pipe).map fun p =>
    if p.readers = 0 then (.noReader, w)
    else if p.isFull then (.full, w)
    else
      let (count, q) := p.write src
      (.wrote count, { w with rings := update w.rings handle.pipe (some q) })

/-- `session_flush`: discard the buffered bytes. -/
def sessionFlush : World :=
  match w.rings handle.pipe with
  | none => w
  | some p =>
    let q : Pipe := { p with head := 0, len := 0, len_le := Nat.zero_le _ }
    { w with rings := update w.rings handle.pipe (some q) }

/-! ## owner slots -/

/-- `session_owner_reserved`. -/
def ownerReserved (owner : CellOwner) : Bool :=
  w.cells.any fun c => c.owner = owner ∧ c.slot = .reserved

/-- `abort_session_owner`: a reserved slot is emptied. -/
def abortOwner (owner : CellOwner) : World :=
  { w with cells := w.cells.filter fun c => ¬(c.owner = owner ∧ c.slot = .reserved) }

end World

end Cellos.Session
