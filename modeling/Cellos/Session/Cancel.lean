import Cellos.Session.State

/-!
# Cellos.Session.Cancel

Closing holders and cancelling operations (`close_one` to `close_bootstrap` and
`retiring`, `retired` in `task/cell_session.rs`).

Cancellation runs downstream through the operation tree: `cancelSubtree` marks every
active descendant with the number of its pass and closes what belongs to a marked
operation.  Consumer loss runs upstream through the rings: `closeOne` notes a ring whose
final reader closed, and `closeProducers` revokes the writers on such rings and queues
their operations.  `cascade` alternates the two until nothing is queued.

The source guards `cascade` with the flag `cascading`.  Here the functions the worklist
calls take the way to close a holder as an argument, `closeOne` inside the worklist and
`closeHolder` outside, so the flag is not needed.
-/

namespace Cellos.Session

open Lib

/-- The operation, cancelled by a pass. -/
def Operation.mark (pass : Nat) (o : Operation) : Operation :=
  { o with state := .cancelled, cancelledBy := pass }

namespace World

/-! ## one holder -/

variable (env : Env) (w : World) (principal : Principal) (r : Ref)

/-- A final reader closed: note the ring, or give up the list when it cannot grow. -/
def noteDeadRing (ring : Nat) : World :=
  if w.deadOverflow then w
  else if env.grants .deadRing ring then { w with deadRings := w.deadRings ++ [ring] }
  else { w with deadOverflow := true }

/-- `close_one`: a staged or reserved holder owns no count and only changes state. -/
def closeOne (state : EndpointState) : World :=
  match w.endpoints.find? fun e => e.reference = r with
  | none => w
  | some e =>
    let w' := w.setEndpoint r fun e => { e with state }
    if e.state = .reserved then w'
    else if e.state ≠ .opened then w
    else if e.prepared ≠ none then w'
    else
      let closed := w'.sessionClose e.handle
      if e.handle.side = .read ∧ closed.1 then closed.2.noteDeadRing env e.handle.pipe
      else closed.2

/-- `close_reservation_holder`: bootstrap teardown does not cascade. -/
def closeReservation : World :=
  match w.endpoints.find? fun e => e.reference = r with
  | none => w
  | some e =>
    let w' := w.setEndpoint r fun e => { e with state := .revoked }
    if e.state = .reserved then w'
    else if e.state ≠ .opened then w
    else if e.prepared ≠ none then w'
    else (w'.sessionClose e.handle).2

/-- `request_cancel`: queue the cancellation of an active operation, once. -/
def requestCancel (reason : Nat) : World :=
  match w.operations.find? fun o => o.reference = r with
  | none => w
  | some o =>
    if o.state = .active ∧ o.pending = 0 then
      { w with
        operations := updateFirst (fun o => o.reference = r)
          (fun o => { o with pending := max reason 1 }) w.operations
        pendingCancels := w.pendingCancels + 1 }
    else w

/-- `bootstrap_holder`: placed in its operation by a bootstrap of that operation. -/
def bootstrapHolder (e : Endpoint) : Bool :=
  w.bootstraps.any fun b => b.operation = e.operation ∧ e.reference ∈ b.endpoints

/-- The producer a holder is on a dead ring.  After an overflow every ring is checked
against its counts. -/
def deadProducer (overflow : Bool) (rings : List Nat) (e : Endpoint) : Bool :=
  e.state = .opened ∧ e.handle.side = .write ∧ e.issuerHeld = false ∧
    if overflow then (w.counts e.handle).all fun c => c.1 = 0
    else e.handle.pipe ∈ rings

/-- One holder of the pass of `close_producers`. -/
def closeProducer (overflow : Bool) (rings : List Nat) (w : World) (r : Ref) : World :=
  match w.endpoints.find? fun e => e.reference = r with
  | none => w
  | some e =>
    if w.deadProducer overflow rings e then
      let closed := w.closeOne env r .revoked
      if w.bootstrapHolder e then closed else closed.requestCancel e.operation 3
    else w

/-- `close_producers`: one pass over the holders for the rings that lost their readers. -/
def closeProducers : World :=
  if w.deadRings = [] ∧ w.deadOverflow = false then w
  else
    (w.endpoints.map (·.reference)).foldl (closeProducer env w.deadOverflow w.deadRings)
      { w with deadRings := [], deadOverflow := false }

/-! ## unpublished children -/

/-- The reservation of an unpublished child is given back. -/
def releasePublication (p : Prepared) : World :=
  match p.publication with
  | some publication => w.abortOwner publication.owner
  | none => w

/-- The record of an aborted or expired child. -/
def dropped (expired : Bool) (sequence : Nat) (p : Prepared) : Prepared :=
  { p with
    publication := none
    state := if expired then .expired else .aborted
    reason := if expired then 6 else 5
    terminalSequence := sequence
    context := []
    parsed := none }

/-- A pending receipt of an aborted or expired child. -/
def dropReceipt (expired : Bool) (prepared : Ref) (rr : Receipt) : Receipt :=
  if rr.prepared = prepared ∧ rr.state = .prepared then
    { rr with state := if expired then .expired else .aborted }
  else rr

/-- The part of `abort_prepared` that touches the record and its receipts. -/
def dropPreparation (p : Prepared) (expired : Bool) : World :=
  let w := w.releasePublication p
  let sequence := w.terminalSequence.1
  let w := w.terminalSequence.2.setPrepared p.reference (dropped expired sequence)
  { w with receipts := w.receipts.map (dropReceipt expired p.reference) }

/-- Close a holder that is staged for `child`. -/
def closeStaged (close : World → Ref → World) (child : Child) (w : World) (r : Ref) : World :=
  match w.endpoints.find? fun e => e.reference = r with
  | some e => if e.prepared = some child then close w r else w
  | none => w

/-- `abort_prepared`: abort or expire an unpublished child. -/
def abortPrepared (close : World → Ref → World) (w : World) (r : Ref) (expired : Bool) : World :=
  match w.prepared.find? fun p => p.reference = r with
  | none => w
  | some p =>
    if p.state ≠ .staged then w
    else
      let w := w.dropPreparation p expired
      -- reserved issuer peers hold no ring count; releasing them is a state change
      let w := (w.receipts.filter fun rr => rr.prepared = r).foldl
        (fun w rr => close (close w rr.producers.1) rr.producers.2) w
      (w.endpoints.map (·.reference)).foldl (closeStaged close p.child) w

/-! ## one subtree -/

/-- The forward pass of `cancel_subtree`: an operation is marked when its parent, which
comes before it, was marked in the same pass. -/
def markBelow (pass : Nat) : List Operation → List Operation → List Operation
  | _, [] => []
  | known, o :: rest =>
    let o' :=
      if o.state = .active ∧ o.parent ≠ Ref.zero
          ∧ known.any fun k => k.reference = o.parent ∧ k.cancelledBy = pass then
        Operation.mark pass o
      else o
    o' :: markBelow pass (known ++ [o']) rest

def markSubtree (pass : Nat) (root : Ref) : List Operation → List Operation
  | [] => []
  | o :: rest =>
    if o.reference = root then
      Operation.mark pass o :: markBelow pass [Operation.mark pass o] rest
    else o :: markSubtree pass root rest

/-- Whether an operation was cancelled by the current pass. -/
def marked : Bool :=
  (w.operations.find? fun o => o.reference = r).any fun o => o.cancelledBy = w.pass

/-- Close a holder of a marked operation. -/
def closeMarked : World :=
  match w.endpoints.find? fun e => e.reference = r with
  | none => w
  | some e => if e.held ∧ w.marked e.operation then w.closeOne env r .cancelled else w

/-- Abort a staged child of a marked operation; flag a live one for the kill funnel. -/
def cancelChild (reason : Nat) (w : World) (r : Ref) : World :=
  match w.prepared.find? fun p => p.reference = r with
  | none => w
  | some p =>
    if w.marked p.operation = false then w
    else if p.state = .staged then
      w.abortPrepared (fun w r => w.closeOne env r .revoked) r false
    else if p.state = .live then
      w.setPrepared r fun p =>
        { p with reason := if p.reason = 0 then reason else p.reason, kill := true }
    else w

/-- `cancel_subtree`. -/
def cancelSubtree (root : Ref) (reason : Nat) : World :=
  let w := { w with
    pass := w.pass + 1
    operations := markSubtree (w.pass + 1) root w.operations }
  let w := (w.endpoints.map (·.reference)).foldl (closeMarked env) w
  (w.prepared.map (·.reference)).foldl (cancelChild env reason) w

/-! ## the worklist -/

/-- Take one operation's queued cancellation. -/
def takePending : World :=
  match w.operations.find? fun o => o.reference = r with
  | none => w
  | some o =>
    if o.pending = 0 then w
    else
      let w := { w with
        operations := updateFirst (fun o => o.reference = r) (fun o => { o with pending := 0 })
          w.operations
        pendingCancels := w.pendingCancels - 1 }
      if o.state = .active then w.cancelSubtree env r o.pending else w

/-- Nothing is queued. -/
def idle : Bool := w.pendingCancels = 0 ∧ w.deadRings = [] ∧ w.deadOverflow = false

/-- One round of `cascade`: the queued cancellations, then the producers. -/
def cascadeRound : World :=
  ((w.operations.map (·.reference)).foldl (takePending env) w).closeProducers env

def cascadeLoop (env : Env) : Nat → World → World
  | 0, w => w
  | fuel + 1, w => if w.idle then w else cascadeLoop env fuel (w.cascadeRound env)

/-- `cascade`. -/
def cascade : World := cascadeLoop env (w.operations.length + 1) w

/-- `close_holder`. -/
def closeHolder (state : EndpointState) : World := (w.closeOne env r state).cascade env

/-- `cancel`. -/
def cancel (reason : Nat) : World := (w.requestCancel r reason).cascade env

/-- `abort_prepared` outside the worklist. -/
def abort (expired : Bool) : World :=
  w.abortPrepared (fun w r => w.closeHolder env r .revoked) r expired

/-! ## bootstraps and lifetimes -/

/-- The committed foreground receipt of a session. -/
def foreground (session : Ref) (rr : Receipt) : Bool :=
  rr.kind = 1 ∧ rr.state = .committed ∧ rr.restored = false ∧
    (readRef rr.sealBytes 0).toOption = some session

/-- Cancel the child a foreground receipt belongs to. -/
def cancelForeground (session : Ref) (w : World) (r : Ref) : World :=
  match w.receipts.find? fun rr => rr.reference = r with
  | some rr => if foreground session rr then w.cancel env rr.operation 2 else w
  | none => w

/-- `close_bootstrap`: cancel the session's foreground child, then revoke the eight
endpoints. -/
def closeBootstrap (state : BootstrapState) : World :=
  match w.bootstraps.find? fun b => b.reference = r with
  | none => w
  | some b =>
    let w := w.setBootstrap r fun b => { b with state }
    let w :=
      if b.session ≠ Ref.zero then
        (w.receipts.map (·.reference)).foldl (cancelForeground env b.session) w
      else w
    b.endpoints.foldl closeReservation w

/-- The exit code a waiter reads; `none` stands for `usize::MAX`, a fault or a kill. -/
def exitCode : Option Nat → Int
  | none => 0
  | some code => (BitVec.ofNat 32 code).toInt

/-- The record of the child itself, in `retiring`. -/
def retireRecord (reason : Option Nat) (w : World) (p : Prepared) : World :=
  if p.child.principal = principal ∧ p.state = .live then
    w.setPrepared p.reference fun p => { p with
      state := .retiring
      reason := if p.reason = 0 ∧ reason = none then 1 else p.reason
      exitCode := if p.reason = 0 then exitCode reason else p.exitCode }
  else w

/-- One child record in `retiring`: the retiring cell may be the child or the preparer. -/
def retirePrepared (reason : Option Nat) (w : World) (r : Ref) : World :=
  match w.prepared.find? fun p => p.reference = r with
  | none => w
  | some p =>
    if p.preparer = principal ∧ p.state = .staged then
      (w.retireRecord principal reason p).abort env r false
    else w.retireRecord principal reason p

/-- Cancel the operations of a retiring cell. -/
def retireOperations (w : World) : World := (w.operations.filter fun o => o.owner = principal).foldl
    (fun w o => w.cancel env o.reference 2) w

/-- Close the holders of a retiring cell. -/
def retireEndpoints (w : World) : World := (w.endpoints.filter fun e => e.holder = principal).foldl
    (fun w e => w.closeHolder env e.reference .closed) w

/-- `retiring`: the owner slot of `principal` left the live state. -/
def retiring (reason : Option Nat) : World :=
  (((w.prepared.map (·.reference)).foldl (retirePrepared env principal reason) w).retireOperations
    env principal).retireEndpoints env principal

/-- One child record in `retired`. -/
def terminatePrepared (w : World) (r : Ref) : World :=
  match w.prepared.find? fun p => p.reference = r with
  | none => w
  | some p =>
    if p.child.principal = principal ∧ p.state = .retiring then
      w.terminalSequence.2.setPrepared r fun p =>
        { p with state := .terminal, terminalSequence := w.terminalSequence.1 }
    else w

/-- `retired`: the owner slot is empty; the principal's ledgers go. -/
def retired : World :=
  let w := (w.prepared.map (·.reference)).foldl (terminatePrepared principal) w
  { w with ledgers := w.ledgers.filter fun l => l.actor ≠ principal }

end World

end Cellos.Session
