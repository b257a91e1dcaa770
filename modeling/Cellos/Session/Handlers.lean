import Cellos.Session.Launch

/-!
# Cellos.Session.Handlers

The remaining requests of CellSessionV1 (`execute`, `create_stream`, `bootstrap`,
`resolve_bootstrap`, `restore` in `task/cell_session.rs`): operations, streams,
endpoints, receipts, bootstraps and the read-only queries.
-/

namespace Cellos.Session

open Lib Reader
open Pipes (PipeEnd PipeHandle duplicateEnd)

/-- The payload of a result, or a retained result with its own header. -/
inductive Reply where
  | record (payload : Bytes)
  | raw (result : Bytes)

namespace World

/-! ## operations -/

variable (env : Env) (w : World) (actor : Principal) (body : Bytes)

open Rights

/-- The depth of a new operation below `parent`. -/
def childDepth (parent : Ref) : Except Status Nat :=
  if parent = Ref.zero then return 0
  else do
    let o ← w.opActive actor parent
    require (o.depth + 1 < 2 ^ 32) .quotaExceeded
    require (o.owner = actor ∨ w.endpoints.any fun e => e.holder = actor ∧ e.operation = parent
      ∧ e.state = .opened ∧ e.rights &&& delegate ≠ 0 ∧ e.prepared = none) .denied
    require ((w.operations.countP fun o => o.parent = parent) < 32) .quotaExceeded
    return o.depth + 1

/-- `CreateOperation` (selector 1). -/
def createOperation : Except Status (Bytes × World) := do
  let parent ← parse reference body
  let depth ← w.childDepth actor parent
  require (w.operations.length < 512 ∧ (w.operations.countP fun o => o.owner = actor) < 64
    ∧ env.grants .operation 0) .quotaExceeded
  let (reference, w) ← w.mint
  return (reference.toBytes, { w with operations := w.operations ++ [{
    reference, owner := actor, parent, state := .active, depth, cancelledBy := 0, pending := 0 }] })

/-- `CancelOperation` (selector 8): the owner, or the input issuer of the committed
foreground child. -/
def cancelOperation : Except Status World := do
  let (operation, reason) ← parse (do
    let operation ← reference
    let reason ← u32
    zero
    return (operation, reason)) body
  let o ← w.operation operation
  if o.owner ≠ actor then
    let input ← w.issuer actor serviceInput
    require (w.receipts.any fun rr => rr.kind = 1 ∧ rr.state = .committed ∧ rr.restored = false
      ∧ rr.operation = operation ∧ rr.issuer = input
      ∧ (w.prepared.find? fun p => p.reference = rr.prepared).any fun p => p.state = .live)
      .wrongOwner
  return w.cancel env operation (if reason = 3 then 3 else 2)

/-- `QueryOperation` (selector 9). -/
def queryOperation : Except Status Bytes := do
  let operation ← parse reference body
  let o ← match w.opMember actor operation with
    | .error .wrongOwner =>
      if (w.issuer actor serviceInput).isOk then w.operation operation else .error .wrongOwner
    | other => other
  return leBytes 4 o.state.code
    ++ leBytes 4 (w.endpoints.countP fun e => e.operation = operation ∧ e.state = .opened)
    ++ leBytes 4 (w.prepared.countP fun p => p.operation = operation ∧ p.state.finished = false)
    ++ leBytes 4 0

/-- `CloseOperation` (selector 20). -/
def closeOperation : Except Status World := do
  let operation ← parse reference body
  let o ← w.operation operation
  require (o.owner = actor) .wrongOwner
  require (w.drained operation) .wouldBlock
  return w.removeOperation operation

/-! ## streams and endpoints -/

/-- A new holder record of one end of a fresh ring. -/
def streamEnd (operation reference : Ref) (ring : Nat) (side : PipeEnd) : Endpoint where
  reference := reference
  holder := actor
  operation := operation
  parent := Ref.zero
  handle := ⟨ring, side⟩
  rights := (match side with | .read => read | .write => write)
    ||| duplicate ||| delegate ||| close
  state := .opened
  prepared := none
  enabled := true
  issuerHeld := false

/-- The checks of `create_stream`. -/
def checkStreamArgs (attempt : Nat) (w : World) (actor : Principal) (operation : Ref)
    (capacity : Nat) : Except Status Unit := do
  let _ ← w.opActive actor operation
  require (capacity = 0 ∨ (64 ≤ capacity ∧ capacity ≤ 65536)) .malformed
  w.holderCapacity env operation 2 attempt

/-- `create_stream`: a ring with a reader and a writer of `actor`. -/
def createStream (attempt : Nat) (w : World) (actor : Principal) (operation : Ref)
    (capacity : Nat) : Except Status (Ref × Ref) × World :=
  match w.checkStreamArgs env attempt actor operation capacity with
  | .error status => (.error status, w)
  | .ok () =>
    match w.mint with
    | .error status => (.error status, w)
    | .ok (reader, w) =>
      match w.mint with
      | .error status => (.error status, w)
      | .ok (writer, w) =>
        if env.grants .ring attempt = false then (.error .quotaExceeded, w)
        else
          let ring := w.nextRing
          let w := w.createRing capacity
          (.ok (reader, writer), { w with endpoints := w.endpoints ++
            [streamEnd actor operation reader ring .read,
             streamEnd actor operation writer ring .write] })

/-- `CreateStream` (selector 2). -/
def createStreamRequest : Answer :=
  match parse (do
      let operation ← reference
      let capacity ← u32
      zero
      return (operation, capacity)) body with
  | .error status => (.error status, w)
  | .ok (operation, capacity) =>
    match w.createStream env 0 actor operation capacity with
    | (.error status, w) => (.error status, w)
    | (.ok (reader, writer), w) => (.ok (reader.toBytes ++ writer.toBytes), w)

/-- The holder record a duplication or delegation adds. -/
def derivedEnd (source : Endpoint) (reference : Ref) (holder : Principal) (operation : Ref)
    (rights : Rights) (prepared : Option Child) : Endpoint where
  reference := reference
  holder := holder
  operation := operation
  parent := source.reference
  handle := source.handle
  rights := rights
  state := .opened
  prepared := prepared
  enabled := true
  issuerHeld := false

/-- The source and the rights of a duplication or delegation. -/
def checkDerive (source : Ref) (rights needed : Rights) : Except Status Endpoint := do
  require (rights ≠ 0 ∧ rights &&& ~~~31 = 0) .malformed
  let e ← w.endpoint actor source needed
  require (rights &&& ~~~e.rights = 0 ∧ rights &&& 3 = e.rights &&& 3) .denied
  return e

/-- The source of a duplication and the rights asked for. -/
def checkDuplicate : Except Status (Endpoint × Rights) := do
  let (source, rights) ← parse (do
    let source ← reference
    let rights ← u32
    zero
    return (source, BitVec.ofNat 32 rights)) body
  let e ← w.checkDerive actor source rights duplicate
  w.holderCapacity env e.operation 1 0
  return (e, rights)

/-- `DuplicateEndpoint` (selector 3): a second holder of the caller in the same operation. -/
def duplicateEndpoint : Answer :=
  match w.checkDuplicate env actor body with
  | .error status => (.error status, w)
  | .ok (e, rights) =>
    match w.mint with
    | .error status => (.error status, w)
    | .ok (reference, w) =>
      match duplicateEnd w.rings e.handle with
      | (false, _) => (.error .stale, w)
      | (true, rings) => (.ok reference.toBytes, { w with
          endpoints := w.endpoints ++ [derivedEnd e reference actor e.operation rights none]
          rings })

/-- `DelegateEndpoint` (selector 4): stage a holder for a child of the caller, which owns
no count until the commit. -/
def delegateEndpoint : Except Status (Bytes × World) := do
  let (source, child, rights) ← parse (do
    let source ← reference
    let child ← child
    let rights ← u32
    zero
    return (source, child, BitVec.ofNat 32 rights)) body
  let e ← w.checkDerive actor source rights delegate
  let p ← w.preparing actor child.preparedRef
  require (p.child = child ∧ w.isSubtree p.operation e.operation) .invalidChild
  w.holderCapacity env p.operation 1 0
  let (reference, w) ← w.mint
  return (reference.toBytes, { w with endpoints := w.endpoints ++
    [derivedEnd e reference child.principal p.operation rights (some child)] })

/-- `CloseEndpoint` (selector 7). -/
def closeEndpoint : Except Status World := do
  let reference ← parse reference body
  let e ← w.endpointOf reference
  require (e.holder = actor) .wrongOwner
  require (e.rights &&& close ≠ 0 ∧ e.prepared = none) .denied
  return w.closeHolder env reference .closed

/-- `InspectEndpoint` (selector 19); a reserved peer is not yet a revoked node. -/
def inspectEndpoint : Except Status Bytes := do
  let reference ← parse reference body
  let e ← w.endpointOf reference
  require (e.holder = actor ∨ (w.issuer actor serviceInput).isOk) .wrongOwner
  return e.holder.toBytes ++ e.operation.toBytes ++ leBytes 4 e.rights.toNat
    ++ leBytes 4 (if e.state = .reserved then 0 else e.state.code)
    ++ leBytes 4 (match e.handle.side with | .read => 0 | .write => 1) ++ leBytes 4 0

/-! ## children and receipts -/

/-- `AbortChild` (selector 14). -/
def abortChild : Except Status World := do
  let reference ← parse reference body
  let p ← w.preparation reference
  require (p.preparer = actor) .wrongOwner
  require (¬(p.state = .live ∨ p.state = .retiring ∨ p.state = .terminal)) .invalidChild
  return w.abort env reference false

/-- An issuer that aborts a pending receipt aborts its child. -/
def abortPending (rr : Receipt) (action : Nat) : Except Status World :=
  if action = 1 ∧ rr.state = .prepared then do
    let p ← w.preparation rr.prepared
    return w.abort env p.reference false
  else return w

/-- `ResolveBindReceipt` (selector 16): query, abort the pending child, or materialize. -/
def resolveReceipt : Except Status (Bytes × World) := do
  let (reference, action) ← parse (do
    let reference ← reference
    let action ← u32
    zero
    return (reference, action)) body
  let rr ← w.receipt reference
  let current ← w.issuer actor (receiptService rr.kind)
  require (current = rr.issuer) .wrongOwner
  require (action ≤ 2) .malformed
  let w ← w.abortPending env rr action
  let rr ← w.receipt reference
  let producers := if rr.state = .committed then rr.producers else (Ref.zero, Ref.zero)
  let w := if action = 2 then
      (w.setReceipt reference fun rr => { rr with materialized := true }).reclaim rr.operation
    else w
  return (leBytes 4 rr.state.code ++ leBytes 4 0 ++ rr.child.toBytes
    ++ producers.1.toBytes ++ producers.2.toBytes, w)

/-- `ReadOwnContext` (selector 17). -/
def readOwnContext : Except Status Bytes := do
  let (offset, limit) ← parse (do return (← u32, ← u32)) body
  require (1 ≤ limit ∧ limit ≤ 512) .malformed
  let owner ← demand (w.liveOwner actor) .stale
  let root ← demand (w.tasks.find? fun t => t.tid = owner.rootTid) .denied
  let bytes ← demand root.childContext .denied
  require (offset ≤ bytes.length) .malformed
  let count := min limit (bytes.length - offset)
  return leBytes 4 count ++ leBytes 4 bytes.length ++ slice bytes (offset, offset + count)

/-- `InspectPreparedIdentity` (selector 23). -/
def inspectPrepared : Except Status Bytes := do
  let reference ← parse reference body
  let _ ← w.issuer actor serviceVfs
  let p ← w.preparation reference
  require (p.state = .staged) .invalidChild
  return p.child.toBytes ++ p.operation.toBytes ++ p.preparer.toBytes

/-- The lifetime record of a child. -/
def childStatus (p : Prepared) : Bytes :=
  leBytes 4 p.state.code ++ leBytes 4 p.reason ++ i32Bytes p.exitCode ++ leBytes 4 0
    ++ leBytes 8 p.terminalSequence

/-- `QueryReceiptChild` (selector 24). -/
def queryReceiptChild : Except Status Bytes := do
  let reference ← parse reference body
  let rr ← w.receipt reference
  let current ← w.issuer actor (receiptService rr.kind)
  require (current = rr.issuer) .wrongOwner
  let p ← w.preparation rr.prepared
  return p.child.toBytes ++ childStatus p

/-- `QueryChild` (selector 30). -/
def queryChild : Except Status Bytes := do
  let child ← parse child body
  let p ← w.preparation child.preparedRef
  require (p.preparer = actor) .wrongOwner
  require (p.child = child) .stale
  require (p.state ≠ .staged) .invalidChild
  return childStatus p

/-- `ReadOwnSessionBinding` (selector 26). -/
def ownSessionBinding : Except Status Bytes := do
  parse (pure ()) body
  let rr ← demand (w.receipts.find? fun rr => rr.kind = 1 ∧ rr.state = .committed
    ∧ rr.restored = false ∧ rr.child.principal = actor) .denied
  let session ← readRef rr.sealBytes 0
  let lease ← readRef rr.sealBytes 16
  let control ← readRef rr.sealBytes 144
  return session.toBytes ++ lease.toBytes ++ leBytes 8 rr.nextEpoch ++ control.toBytes
    ++ rr.issuer.toBytes

/-! ## bootstraps -/

/-- Create the rings of a bootstrap; a failure closes those already made. -/
def createStreams (env : Env) (actor : Principal) (operation : Ref) (capacity : Nat) :
    List Nat → List (Ref × Ref) → World → Except Status (List (Ref × Ref)) × World
  | [], made, w => (.ok made, w)
  | attempt :: attempts, made, w =>
    match w.createStream env attempt actor operation capacity with
    | (.ok pair, w) => createStreams env actor operation capacity attempts (made ++ [pair]) w
    | (.error status, w) =>
      (.error status, (made.flatMap fun pair => [pair.1, pair.2]).foldl closeReservation w)

/-- The eight endpoints in the order of the record: stdin reader, stdout and stderr
writers, control reader, frontend output and diagnostic readers, issuer peers. -/
def bootstrapOrder (streams : List (Ref × Ref)) : List Ref :=
  let s := fun n => streams.getD n (Ref.zero, Ref.zero)
  [(s 0).1, (s 1).2, (s 2).2, (s 3).1, (s 1).1, (s 2).1, (s 0).2, (s 3).2]

/-- What each of the eight endpoints may do; the issuer holds the last two. -/
def bootstrapEnd (owner : Binding) (n : Nat) (e : Endpoint) : Endpoint :=
  let e := { e with
    enabled := false
    rights :=
      if n = 0 ∨ n = 3 then read ||| close
      else if n = 1 ∨ n = 2 then
        write ||| duplicate ||| delegate ||| close
      else if n = 4 ∨ n = 5 then read ||| duplicate ||| close
      else write ||| close }
  if 6 ≤ n then { e with holder := owner.principal, issuerHeld := true } else e

/-- `PREPARE_TICKS`. -/
def prepareTicks : Nat := 500

/-- `install_bootstrap`. -/
def installBootstrap (operation : Ref)
    (owner : Binding) (capacity : Nat) : Except Status (Ref × List Ref) × World :=
  match (do
      w.holderCapacity env operation 8 4
      require (env.grants .bootstrap 0) .quotaExceeded : Except Status Unit) with
  | .error status => (.error status, w)
  | .ok () =>
    match w.mint with
    | .error status => (.error status, w)
    | .ok (reference, w) =>
      if 2 ^ 64 ≤ env.now + prepareTicks then (.error .quotaExceeded, w)
      else
        match createStreams env actor operation capacity (List.range 4) [] w with
        | (.error status, w) => (.error status, w)
        | (.ok streams, w) =>
          let endpoints := bootstrapOrder streams
          let w := endpoints.zipIdx.foldl (fun w s => w.setEndpoint s.1 (bootstrapEnd owner s.2)) w
          (.ok (reference, endpoints), { w with bootstraps := w.bootstraps ++ [{
            reference, controller := actor, operation, issuer := owner, endpoints
            session := Ref.zero, state := .reserved, deadline := env.now + prepareTicks }] })

/-- The checks of `bootstrap`. -/
def checkBootstrap : Except Status (Ref × Binding × Nat) := do
  let (operation, owner, capacity) ← parse (do
    let operation ← reference
    let owner ← Reader.binding
    let capacity ← u32
    zero
    return (operation, owner, capacity)) body
  let o ← w.opActive actor operation
  require (o.owner = actor) .wrongOwner
  let current ← w.binding serviceInput
  require (current = owner) .wrongOwner
  require (w.bootstraps.length < 256 ∧ (w.bootstraps.countP fun b => b.state.standing) < 64
    ∧ (w.bootstraps.countP fun b => b.controller = actor ∧ b.state.standing) < 8) .quotaExceeded
  return (operation, owner, capacity)

/-- `BootstrapSession` (selector 21). -/
def bootstrapSession : Answer :=
  match w.checkBootstrap actor body with
  | .error status => (.error status, w)
  | .ok (operation, owner, capacity) =>
    match w.installBootstrap env actor operation owner capacity with
    | (.error status, w) => (.error status, w)
    | (.ok (reference, endpoints), w) =>
      (.ok (reference.toBytes ++ (endpoints.take 6).flatMap Ref.toBytes), w)

/-- The action of `ResolveBootstrap`: query, bind, abort or close, activate. -/
def bootstrapAction (b : Bootstrap) (isIssuer : Bool) (action : Nat)
    (session : Ref) : Except Status World :=
  match action with
  | 0 => return w
  | 1 => do
    require (isIssuer = true) .denied
    if b.state = .reserved then return w.setBootstrap b.reference fun b => { b with state := .bound }
    else do
      require (b.state = .bound) .stale
      return w
  | 2 =>
    if b.state.standing then
      return w.closeBootstrap env b.reference (if b.state = .active then .closed else .aborted)
    else return w
  | _ => do
    require (isIssuer = true ∧ session ≠ Ref.zero ∧ b.state = .bound) .denied
    require (¬w.bootstraps.any fun other => other.state = .active ∧ other.session = session
      ∧ other.issuer = b.issuer) .wrongSession
    b.endpoints.forM fun r => do let _ ← w.endpointOf r
    let w := w.setBootstrap b.reference fun b => { b with session, state := .active }
    return b.endpoints.foldl (fun w r => w.setEndpoint r fun e => { e with enabled := true }) w

/-- `resolve_bootstrap` (selector 22): the controller or the recorded issuer. -/
def resolveBootstrap : Except Status (Bytes × World) := do
  let (reference, action, session) ← parse (do
    let reference ← reference
    let action ← u32
    zero
    return (reference, action, ← Reader.reference)) body
  let b ← w.bootstrap reference
  let isIssuer : Bool := (w.issuer actor serviceInput).toOption = some b.issuer
  require (actor = b.controller ∨ isIssuer = true) .wrongOwner
  require (action ≤ 3 ∧ (action = 3 ∨ session = Ref.zero)) .malformed
  let w ← w.bootstrapAction env b isIssuer action session
  let b ← w.bootstrap reference
  return (leBytes 4 b.state.code ++ leBytes 4 0 ++ b.controller.toBytes ++ b.operation.toBytes
    ++ b.endpoints.zipIdx.flatMap fun s =>
      (if 6 ≤ s.2 ∧ isIssuer = false then Ref.zero else s.1).toBytes, w)

/-- The kernel part of a restore, once: close the producer peers and discard what the
baseline rings still hold. -/
def releaseProducers (rr : Receipt) (controller : Principal)
    (stdin control : Ref) : Except Status World :=
  if rr.restored then return w
  else do
    let e0 ← w.endpoint controller stdin read
    let e3 ← w.endpoint controller control read
    require (w.counts e0.handle ≠ none ∧ w.counts e3.handle ≠ none) .stale
    let w := (w.closeHolder env rr.producers.1 .closed).closeHolder env rr.producers.2 .closed
    let w := (w.sessionFlush e0.handle).sessionFlush e3.handle
    return w.setReceipt rr.reference fun rr => { rr with restored := true }

/-- `restore` (selector 29): after the foreground child ended, close its producer peers
and discard stale baseline bytes. -/
def restore : Except Status (Bytes × World) := do
  let (reference, terminal, epoch) ← parse (do
    return (← reference, ← u64, ← u64)) body
  let rr ← w.receipt reference
  require (rr.kind = 1 ∧ rr.state = .committed) .wrongOwner
  let current ← w.issuer actor serviceInput
  require (current = rr.issuer) .wrongOwner
  let session ← readRef rr.sealBytes 0
  let p ← w.preparation rr.prepared
  require (p.state = .terminal ∧ terminal ≠ 0 ∧ p.terminalSequence = terminal) .invalidChild
  require (rr.nextEpoch = epoch) .wrongEpoch
  let b ← demand (w.bootstraps.find? fun b => b.state = .active ∧ b.session = session
    ∧ b.issuer = rr.issuer ∧ b.controller = p.preparer) .wrongSession
  require (¬(w.sessionReceipts session).any fun other => other.state = .committed
    ∧ other.restored = false ∧ other.reference ≠ reference ∧ epoch < other.nextEpoch) .wrongEpoch
  let stdin := b.endpoints.getD 0 Ref.zero
  let control := b.endpoints.getD 3 Ref.zero
  let w ← w.releaseProducers env rr b.controller stdin control
  return (stdin.toBytes ++ control.toBytes, w)

end World

end Cellos.Session
