import Cellos.Session.Handlers

/-!
# Cellos.Session.Dispatch

Request ledgers and the dispatch of CellSessionV1 (`request_operation` to
`query_request`, `execute`, `dispatch`, `prepare_child`, `stream_io`, `delivered` in
`task/cell_session.rs`), and the system they are part of.

`dispatch` runs a sweep, the request and a sweep under the lock; selectors 5, 6 and 10
leave the lock for their slow part.  Here each maintenance pass, each kill, each request
and each section of a slow call is one step, so the runs of `step` contain every run of
the kernel.
-/

namespace Cellos.Session

open Lib Reader

/-! ## ledgers -/

/-- `mutating`: the requests that go through a ledger. -/
def mutating (selector : Nat) (body : Bytes) : Bool :=
  if selector ∈ [9, 17, 18, 19, 23, 24, 25, 26, 28, 30] then false
  else if selector = 16 ∨ selector = 22 then
    ((word 4).run' ((body.drop 16).take 4)).toOption ≠ some 0
  else true

/-- `RESULT_MAX`. -/
def resultMax : Nat := 768

/-- What `begin_request` decides. -/
inductive Begin where
  | new
  | replay (result : Bytes)
  | refused (status : Status)

namespace World

variable (w : World) (actor : Principal)

/-- `ledger_index`. -/
def ledgerOf (operation : Ref) : Option Ledger :=
  w.ledgers.find? fun l => l.actor = actor ∧ l.operation = operation

/-- The correlation scope of a request, and whether the actor is authorised in it. -/
def requestScope (selector : Nat) (body : Bytes) (ledgered : Bool) : Except Status (Ref × Bool) :=
  if selector = 17 ∨ selector = 26 then return (Ref.zero, true)
  else do
    let reference ← reference.run' body
    if selector ∈ [1, 2, 8, 9, 10, 20, 21, 25, 28] then
      if reference = Ref.zero ∧ selector ∉ [1, 25, 28] then .error .malformed
      -- zero is the scope of root operation creation only
      else if ledgered = false ∨ reference = Ref.zero then return (reference, true)
      else do
        let o ← w.operation reference
        return (reference,
          if selector = 8 then o.owner = actor ∨ w.receipts.any fun rr =>
            rr.operation = reference ∧ rr.issuer.principal = actor
          else (w.opMember actor reference).isOk)
    else if selector ∈ [3, 4, 5, 6, 7, 19] then do
      let e ← w.endpointOf reference
      return (e.operation, e.holder = actor)
    else if selector ∈ [11, 12, 13, 14, 15, 18, 23, 27] then do
      let p ← w.preparation reference
      return (p.operation,
        if selector = 15 then (w.issuer actor serviceInput).isOk || (w.issuer actor serviceVfs).isOk
        else p.preparer = actor)
    else if selector ∈ [16, 24, 29] then do
      let rr ← w.receipt reference
      return (rr.operation, rr.issuer.principal = actor)
    else if selector = 30 then do
      let child ← child.run' body
      let p ← w.preparation child.preparedRef
      return (p.operation, p.preparer = actor)
    else if selector = 22 then do
      let b ← w.bootstrap reference
      return (b.operation, b.controller = actor ∨ b.issuer.principal = actor)
    else .error .unknownOperation

/-- `request_operation`: an existing ledger proves that the actor was authorised. -/
def requestOperation (selector : Nat) (body : Bytes) (ledgered : Bool) : Except Status Ref := do
  let (operation, authorised) ← w.requestScope actor selector body ledgered
  require (ledgered = false ∨ authorised = true ∨ (w.ledgerOf actor operation).isSome) .wrongOwner
  return operation

/-- `ledger`: open the ledger of a scope on first use. -/
def openLedger (env : Env) (w : World) (actor : Principal) (operation : Ref) :
    Except Status (Ledger × World) :=
  match w.ledgerOf actor operation with
  | some l => return (l, w)
  | none => do
    require (w.ledgers.length < 1024 ∧ (w.ledgers.countP fun l => l.actor = actor) < 96
      ∧ env.grants .ledger 0) .quotaExceeded
    let l : Ledger := { actor, operation, next := 1, acknowledged := 0, outcomes := [] }
    return (l, { w with ledgers := w.ledgers ++ [l] })

/-- Rewrite the ledger of a scope. -/
def setLedger (operation : Ref) (f : Ledger → Ledger) : World :=
  { w with ledgers := updateFirst (fun l => l.actor = actor ∧ l.operation = operation) f w.ledgers }

/-- Rewrite the outcome of a request id. -/
def setOutcome (id : Nat) (f : Outcome → Outcome) (l : Ledger) : Ledger :=
  { l with outcomes := updateFirst (fun o => o.requestId = id) f l.outcomes }

/-- A new request takes the next id. -/
def enter (id : Nat) (request : Bytes) (l : Ledger) : Ledger :=
  { l with
    next := l.next + 1
    outcomes := l.outcomes ++
      [{ requestId := id, request, result := [], complete := false, observed := false }] }

/-- `begin_request`: a repeated id replays its retained outcome; only the next id is new. -/
def beginRequest (env : Env) (w : World) (actor : Principal) (operation : Ref) (id : Nat)
    (request : Bytes) : Begin × World :=
  match w.openLedger env actor operation with
  | .error status => (.refused status, w)
  | .ok (l, w) =>
    match l.outcomes.find? fun o => o.requestId = id with
    | some o =>
      if o.request ≠ request then (.refused .malformed, w)
      else if o.complete = false then (.refused .wouldBlock, w)
      else (.replay o.result,
        w.setLedger actor operation (setOutcome id fun o => { o with observed := true }))
    | none =>
      if id ≠ l.next then (.refused .unknownRequest, w)
      else if 2 ^ 64 ≤ l.next + 1 ∨ 64 ≤ l.outcomes.length ∨ env.grants .outcome 0 = false then
        (.refused .quotaExceeded, w)
      else (.new, w.setLedger actor operation (enter id request))

/-- `finish_request`: record the result. -/
def finishRequest (operation : Ref) (id : Nat) (result : Bytes) : World :=
  w.setLedger actor operation (setOutcome id fun o => { o with
    result := if result.length ≤ resultMax then o.result ++ result else o.result
    complete := true })

/-- `mark_observed`: the reply of exactly this request reached the caller. -/
def markObserved (request : Bytes) (id : Nat) : World :=
  { w with ledgers := w.ledgers.map fun l =>
      if l.actor = actor then { l with outcomes := l.outcomes.map fun o =>
        if o.requestId = id ∧ o.complete ∧ o.request = request then { o with observed := true }
        else o }
      else l }

/-- `QueryRequest` (selector 28): the original result, never a second execution. -/
def queryRequest (body : Bytes) : Except Status (Bytes × World) := do
  let (operation, id) ← parse (do return (← reference, ← u64)) body
  let l ← demand (w.ledgerOf actor operation) .unknownRequest
  let o ← demand (l.outcomes.find? fun o => o.requestId = id) .unknownRequest
  require (o.complete = true) .wouldBlock
  return (o.result, w.setLedger actor operation (setOutcome id fun o => { o with observed := true }))

/-- `AcknowledgeRequests` (selector 25): drop observed outcomes up to an id. -/
def acknowledge (body : Bytes) : Except Status World := do
  let (operation, through) ← parse (do return (← reference, ← u64)) body
  let l ← demand (w.ledgerOf actor operation) .unknownRequest
  if through ≤ l.acknowledged then return w
  else do
    require (through < l.next ∧ ¬l.outcomes.any fun o =>
      o.requestId ≤ through ∧ (o.complete = false ∨ o.observed = false)) .unknownRequest
    return (w.setLedger actor operation fun l => { l with
      outcomes := l.outcomes.filter fun o => through < o.requestId
      acknowledged := through }).reclaim operation

/-! ## execution -/

/-- A handler that only reads. -/
def reads (x : Except Status Bytes) : Except Status Reply × World := (x.map Reply.record, w)

/-- A handler that leaves the world alone when it fails. -/
def writes (x : Except Status (Bytes × World)) : Except Status Reply × World :=
  match x with
  | .error status => (.error status, w)
  | .ok (payload, w') => (.ok (.record payload), w')

/-- A handler without a payload. -/
def changes (x : Except Status World) : Except Status Reply × World :=
  match x with
  | .error status => (.error status, w)
  | .ok w' => (.ok (.record []), w')

/-- A handler that may fail part way. -/
def answers (x : Answer) : Except Status Reply × World := (x.1.map Reply.record, x.2)

/-- `execute`. -/
def execute (env : Env) (platform : Platform) (w : World) (actor : Principal) (selector : Nat)
    (body : Bytes) : Except Status Reply × World :=
  match selector with
  | 1 => writes w (w.createOperation env actor body)
  | 2 => answers (w.createStreamRequest env actor body)
  | 3 => answers (w.duplicateEndpoint env actor body)
  | 4 => writes w (w.delegateEndpoint env actor body)
  | 7 => changes w (w.closeEndpoint env actor body)
  | 8 => changes w (w.cancelOperation env actor body)
  | 9 => reads w (w.queryOperation actor body)
  | 11 => answers (w.writeContext env platform actor body)
  | 12 => changes w (w.bindReceipt actor body)
  | 13 => answers (w.commitChild env actor body)
  | 14 => changes w (w.abortChild env actor body)
  | 15 => answers (w.registerReceipt env platform actor body)
  | 16 => writes w (w.resolveReceipt env actor body)
  | 17 => reads w (w.readOwnContext actor body)
  | 18 => reads w (w.inspectGrant actor body)
  | 19 => reads w (w.inspectEndpoint actor body)
  | 20 => changes w (w.closeOperation actor body)
  | 21 => answers (w.bootstrapSession env actor body)
  | 22 => writes w (w.resolveBootstrap env actor body)
  | 23 => reads w (w.inspectPrepared actor body)
  | 24 => reads w (w.queryReceiptChild actor body)
  | 25 => changes w (w.acknowledge actor body)
  | 26 => reads w (w.ownSessionBinding actor body)
  | 27 => writes w (w.authorizeBind actor body)
  | 28 =>
    match w.queryRequest actor body with
    | .error status => (.error status, w)
    | .ok (result, w') => (.ok (.raw result), w')
  | 29 => writes w (w.restore env actor body)
  | 30 => reads w (w.queryChild actor body)
  | _ => (.error .unknownOperation, w)

end World

/-- `render`. -/
def render (header : RequestHeader) : Except Status Reply → Bytes
  | .ok (.raw result) => result
  | .ok (.record payload) => encodeResult header .ok payload
  | .error status => encodeResult header status []

/-! ## the slow calls -/

namespace World

variable (w : World) (env : Env) (platform : Platform)

/-- The body of `PrepareChild`: route, path and context length. -/
def readPrepare (operation : Ref) : Reader (Bytes × Nat) := do
  check ((← reference) = operation) .malformed
  let route ← u32
  let pathLen ← u32
  let contextLen ← u32
  zero
  let path ← take pathLen
  finish
  check (route = 1 ∧ path ≠ [] ∧ path.length ≤ 4096 ∧ 0 ∉ path ∧ 48 ≤ contextLen
    ∧ contextLen ≤ contextMax ∧ platform.utf8 path) .malformed
  return (path, contextLen)

/-- One staged child an operation, four a principal. -/
def stagingFree (actor : Principal) (operation : Ref) : Bool :=
  !(w.prepared.any fun p => p.operation = operation ∧ p.state = .staged)
    && decide ((w.prepared.countP fun p => p.preparer = actor ∧ p.state = .staged) < 4)

/-- The first section of `prepare_child`. -/
def admitChild (w : World) (call : Call) : Except Status Nat := do
  require (env.now + prepareTicks < 2 ^ 64) .quotaExceeded
  let _ ← parse (readPrepare platform call.operation) call.body
  let _ ← w.opActive call.actor call.operation
  require ((w.prepared.countP fun p => p.operation = call.operation ∧ p.state.finished = false) < 16
    ∧ w.stagingFree call.actor call.operation ∧ w.prepared.length < 512) .quotaExceeded
  return env.now + prepareTicks

/-- The reserved child of a publication. -/
def CellOwner.child (owner : CellOwner) : Child := ⟨owner.principal, owner.rootTid, owner.generation⟩

/-- The second section of `prepare_child`: reserve the publication and stage the child. -/
def stageChild (w : World) (call : Call) (deadline : Nat) : Except Status (Bytes × World) := do
  let (_, contextLen) ← parse (readPrepare platform call.operation) call.body
  require (env.grants .preparation 0) .quotaExceeded
  require (env.launch = true) .denied
  match env.load with
  | some status => .error status
  | none =>
    require (env.now < deadline) .timedOut
    let actor ← w.resolveActor call.caller
    require (actor = call.actor) .revoked
    let _ ← w.opActive call.actor call.operation
    require (w.stagingFree call.actor call.operation ∧ env.grants .preparation 1
      ∧ env.grants .publication 0) .quotaExceeded
    -- the slot the quota table hands out is empty
    require (env.cellId ≠ 0 ∧ ¬w.cells.any fun c => c.owner.cellId = env.cellId) .io
    let owner : CellOwner := ⟨env.cellId, w.nextGeneration, w.nextTask⟩
    let child := CellOwner.child owner
    return (child.preparedRef.toBytes ++ child.toBytes, { w with
      cells := w.cells ++ [{ owner, slot := .reserved }]
      nextTask := w.nextTask + 1
      nextGeneration := w.nextGeneration + 1
      prepared := w.prepared ++ [{
        reference := child.preparedRef, child, preparer := call.actor, operation := call.operation
        deadline, written := 0, context := List.replicate contextLen 0, parsed := none
        publication := some { owner, inheritedArgv := none, cwd := [], childStdio := [] }
        state := .staged, reason := 0, exitCode := 0, terminalSequence := 0, kill := false
        intent := none, receipts := [Ref.zero, Ref.zero, Ref.zero] }] })

/-- What one turn of the loop of `stream_io` ends with: an outcome, or another wait. -/
abbrev Turn := Option (Except Status Bytes) × World

/-- The body of `ReadStream` and `WriteStream`. -/
def readStream (selector : Nat) : Reader (Ref × Nat × Nat × Bytes) := do
  let reference ← reference
  let count ← u32
  zero
  let deadline ← u64
  check (1 ≤ count ∧ count ≤ 512) .malformed
  let bytes ← if selector = 6 then take count else pure []
  return (reference, count, deadline, bytes)

/-- Whether a call without progress waits, and what it ends with otherwise. -/
def waitOutcome (deadline : Nat) : Option Status :=
  if deadline = 0 then some .wouldBlock
  else if deadline = 2 ^ 64 - 1 then none
  else
    match env.clock with
    | none => some .unsupported
    | some now =>
      if deadline ≤ now then some .timedOut
      else if 2 ^ 64 ≤ env.now + (deadline - now + 9999999) / 10000000 + 1 then some .malformed
      else none

/-- The endpoint a stream call acts on. -/
def checkStreamCall (call : Call) : Except Status (Endpoint × Nat × Nat × Bytes) := do
  let (reference, count, deadline, bytes) ← parse (readStream call.selector) call.body
  let actor ← w.resolveActor call.caller
  require (actor = call.actor) .revoked
  let e ← w.endpoint call.actor reference (if call.selector = 5 then Rights.read else Rights.write)
  return (e, count, deadline, bytes)

/-- One turn of `stream_io`. -/
def streamTurn (w : World) (call : Call) : Turn :=
  match w.checkStreamCall call with
  | .error status => (some (.error status), w)
  | .ok (e, count, deadline, bytes) =>
    let waiting : Option (Except Status Bytes) := (waitOutcome env deadline).map Except.error
    if call.selector = 5 then
      match w.sessionRead e.handle count with
      | none => (some (.error .stale), w)
      | some (.read out, w) => (some (.ok (leBytes 4 out.length ++ leBytes 4 0 ++ out)), w)
      | some (.eof, w) => (some (.error .eof), w)
      | some (.empty, w) => (waiting, w)
    else
      match w.sessionWrite e.handle bytes with
      | none => (some (.error .stale), w)
      | some (.wrote count, w) => (some (.ok (leBytes 4 count ++ leBytes 4 0)), w)
      | some (.noReader, w) => (some (.error .brokenPipe), w)
      | some (.full, w) => (waiting, w)

/-- The call of a task that is outside the lock. -/
def callOf (caller : Nat) : Option Call := w.calls.find? fun c => c.caller = caller

def setCall (caller : Nat) (phase : Phase) : World :=
  { w with calls := updateFirst (fun c => c.caller = caller) (fun c => { c with phase }) w.calls }

/-- One section of a slow call. -/
def resume (w : World) (call : Call) : World :=
  match call.phase with
  | .admitting =>
    match w.admitChild env platform call with
    | .error status => w.setCall call.caller (.done (.error status))
    | .ok deadline => w.setCall call.caller (.loading deadline)
  | .loading deadline =>
    match w.stageChild env platform call deadline with
    | .error status => w.setCall call.caller (.done (.error status))
    | .ok (payload, w) => w.setCall call.caller (.done (.ok payload))
  | .streaming =>
    match w.streamTurn env call with
    | (none, w) => w
    | (some outcome, w) => w.setCall call.caller (.done outcome)
  | .done _ => w

/-! ## lifetimes -/

/-- `exit_task`: the exit of a live root retires its cell. -/
def exitTask (w : World) (tid : Nat) (reason : Option Nat) : World :=
  match w.tasks.find? fun t => t.tid = tid with
  | none => w
  | some t =>
    if t.rootTid = tid then
      match w.liveOwner t.cell with
      | some owner =>
        let cells := updateFirst (fun c => c.owner = owner) (fun c => { c with slot := .retiring })
          w.cells
        { w with cells }.retiring env t.cell reason
      -- a member of a retiring cell stays until the cell is gone
      | none => w
    else { w with tasks := w.tasks.filter fun t => t.tid ≠ tid }

/-- One pass of the kill loop of `sweep`: take flags up to the first live child. -/
def takeKill : List Prepared → Option Nat × List Prepared
  | [] => (none, [])
  | p :: rest =>
    if p.kill ∧ p.state = .live then (some p.child.rootTid, { p with kill := false } :: rest)
    else ((takeKill rest).1, { p with kill := false } :: (takeKill rest).2)

def deliverKill (w : World) : World :=
  let taken := { w with prepared := (takeKill w.prepared).2 }
  match (takeKill w.prepared).1 with
  | none => taken
  | some tid => taken.exitTask env tid none

/-- `finish_root_retirement`: the slot of a retiring cell becomes empty. -/
def finishRetirement (principal : Principal) : World :=
  if w.cells.any fun c => c.owner.principal = principal ∧ c.slot = .retiring then
    { w with
      cells := w.cells.filter fun c => c.owner.principal ≠ principal
      tasks := w.tasks.filter fun t => t.cell ≠ principal }.retired principal
  else w

/-- A new cell with its root task. -/
def spawn (cellId : Nat) : World :=
  if cellId = 0 ∨ w.cells.any fun c => c.owner.cellId = cellId then w
  else
    let owner : CellOwner := ⟨cellId, w.nextGeneration, w.nextTask⟩
    { w with
      cells := w.cells ++ [{ owner, slot := .live }]
      tasks := w.tasks ++ [{ tid := owner.rootTid, cell := owner.principal, rootTid := owner.rootTid
                             childContext := none, childStdio := [] }]
      nextTask := w.nextTask + 1
      nextGeneration := w.nextGeneration + 1 }

/-- A new task in the cell of `tid`. -/
def thread (tid : Nat) : World :=
  match w.tasks.find? fun t => t.tid = tid with
  | none => w
  | some t =>
    if w.ownerLive t.cell then
      { w with
        tasks := w.tasks ++ [{ tid := w.nextTask, cell := t.cell, rootTid := t.rootTid
                               childContext := none, childStdio := [] }]
        nextTask := w.nextTask + 1 }
    else w

/-- Register a task as the provider of a service, replacing any prior one. -/
def register (service tid : Nat) : World :=
  match w.tasks.find? fun t => t.tid = tid with
  | none => w
  | some t =>
    let provider : Binding := ⟨tid, t.cell.cellId, t.cell.generation⟩
    { w with registry := Function.update w.registry service (some provider) }

/-- `stdio_ref`: the endpoint of a legacy file descriptor of a session child. -/
def stdioRef (caller fd : Nat) : Option (Principal × Ref) := do
  let task ← w.tasks.find? fun t => t.tid = caller
  let root ← w.tasks.find? fun t => t.tid = task.rootTid
  if root.childContext ≠ none ∧ w.ownerLive task.cell then
    let reference := root.childStdio.getD fd Ref.zero
    if reference = Ref.zero then none else some (task.cell, reference)
  else none

end World

/-! ## the system -/

/-- A request in its scope. -/
structure RequestKey where
  actor : Principal
  operation : Ref
  id : Nat

/-- What a step reports. -/
inductive Response where
  /-- Refused before anything was executed. -/
  | refused (reply : Bytes)
  /-- Answered from the retained outcome. -/
  | replayed (key : RequestKey) (reply : Bytes)
  /-- A ledgered request was executed and its outcome recorded. -/
  | executed (key : RequestKey) (request : Bytes) (selector : Nat)
      (outcome : Except Status Reply) (reply : Bytes)
  /-- A ledgered request was accepted and runs on outside the lock. -/
  | begun (key : RequestKey) (request : Bytes)
  /-- The outcome of such a request was recorded. -/
  | finished (key : RequestKey) (request reply : Bytes)
  /-- A request without a ledger was answered. -/
  | answered (reply : Bytes)
  | done

/-- The steps of the system. -/
inductive Op where
  /-- One locked section of `dispatch`. -/
  | request (env : Env) (caller : Nat) (request : Bytes)
  /-- One section of a slow call. -/
  | resume (env : Env) (caller : Nat)
  /-- The last section of a slow call. -/
  | finish (caller : Nat)
  /-- The reply was copied out. -/
  | delivered (caller : Nat) (request : Bytes)
  | stdioRead (caller count : Nat)
  | stdioWrite (caller fd : Nat) (bytes : Bytes)
  | maintain (env : Env)
  /-- One turn of the kill loop of `sweep`. -/
  | kill (env : Env)
  | exitTask (env : Env) (tid : Nat) (reason : Option Nat)
  | retired (principal : Principal)
  | spawn (cellId : Nat)
  | thread (tid : Nat)
  | register (service tid : Nat)
  | unregister (service : Nat)

/-- The body of a legacy stdio call: it waits without a deadline. -/
def stdioBody (reference : Ref) (count : Nat) (bytes : Bytes) : Bytes :=
  reference.toBytes ++ leBytes 4 count ++ leBytes 4 0 ++ leBytes 8 (2 ^ 64 - 1) ++ bytes

/-- The selectors that leave the lock. -/
def slow (selector : Nat) : Bool := selector = 5 ∨ selector = 6 ∨ selector = 10

/-- A decoded request of a resolved actor, in its scope. -/
structure Incoming where
  header : RequestHeader
  actor : Principal
  operation : Ref

/-- What `dispatch` settles before it executes; an error is the reply. -/
def World.admitted (w : World) (caller : Nat) (request : Bytes) : Except Bytes Incoming :=
  match RequestHeader.decode request with
  | .error status => .error (rejectHeader request status)
  | .ok header =>
    let body := request.drop headerLen
    let resolved : Except Status (Principal × Ref) := do
      let actor ← w.resolveActor caller
      let operation ← w.requestOperation actor header.selector body (mutating header.selector body)
      return (actor, operation)
    match resolved with
    | .error status => .error (encodeResult header status [])
    | .ok (actor, operation) => .ok { header, actor, operation }

/-- The locked section of `dispatch`, between its sweeps. -/
def World.dispatch (env : Env) (platform : Platform) (w : World) (caller : Nat) (request : Bytes) :
    Response × World :=
  match w.admitted caller request with
  | .error reply => (.refused reply, w)
  | .ok i =>
    let selector := i.header.selector
    let id := i.header.requestId
    let body := request.drop headerLen
    if mutating selector body = false then
      let answer := w.execute env platform i.actor selector body
      (.answered (render i.header answer.1), answer.2)
    else
      let key : RequestKey := ⟨i.actor, i.operation, id⟩
      match w.beginRequest env i.actor i.operation id request with
      | (.refused status, w) => (.refused (encodeResult i.header status []), w)
      | (.replay result, w) => (.replayed key result, w)
      | (.new, w) =>
        if slow selector then
          (.begun key request, { w with calls := w.calls ++ [{
            caller, actor := i.actor, operation := i.operation, request := some (i.header, request)
            selector, body, phase := if selector = 10 then .admitting else .streaming }] })
        else
          let answer := w.execute env platform i.actor selector body
          let reply := render i.header answer.1
          (.executed key request selector answer.1 reply,
            answer.2.finishRequest i.actor i.operation id reply)

/-- `delivered`. -/
def World.deliver (w : World) (caller : Nat) (request : Bytes) : World :=
  match RequestHeader.decode request with
  | .error _ => w
  | .ok header =>
    if mutating header.selector (request.drop headerLen) then
      match w.resolveActor caller with
      | .error _ => w
      | .ok actor => w.markObserved actor request header.requestId
    else w

/-- The last section of a slow call records the outcome. -/
def World.finish (w : World) (caller : Nat) : Response × World :=
  match w.callOf caller with
  | none => (.done, w)
  | some call =>
    match call.phase with
    | .done outcome =>
      let w := { w with calls := w.calls.eraseP fun c => c.caller = caller }
      match call.request with
      | none => (.done, w)
      | some (header, request) =>
        let reply := render header (outcome.map Reply.record)
        (.finished ⟨call.actor, call.operation, header.requestId⟩ request reply,
          w.finishRequest call.actor call.operation header.requestId reply)
    | _ => (.done, w)

/-- A legacy stdio call enters the loop of `stream_io`. -/
def World.enterStdio (w : World) (caller selector fd : Nat) (count : Nat) (bytes : Bytes) : World :=
  match w.stdioRef caller fd with
  | none => w
  | some (actor, reference) => { w with calls := w.calls ++ [{
      caller, actor, operation := Ref.zero, request := none, selector
      body := stdioBody reference count bytes, phase := .streaming }] }

/-- One step.  A task that is inside a call enters no other. -/
def step (platform : Platform) (w : World) : Op → Option (Response × World)
  | .request env caller request =>
    if (w.callOf caller).isSome then some (.done, w)
    else some (w.dispatch env platform caller request)
  | .resume env caller =>
    match w.callOf caller with
    | none => some (.done, w)
    | some call => some (.done, w.resume env platform call)
  | .finish caller => some (w.finish caller)
  | .delivered caller request => some (.done, w.deliver caller request)
  | .stdioRead caller count =>
    if (w.callOf caller).isSome ∨ count = 0 then some (.done, w)
    else some (.done, w.enterStdio caller 5 0 (min count 512) [])
  | .stdioWrite caller fd bytes =>
    if (w.callOf caller).isSome ∨ bytes = [] then some (.done, w)
    else some (.done, w.enterStdio caller 6 fd (min bytes.length 512) (bytes.take 512))
  | .maintain env => some (.done, w.maintenance env)
  | .kill env => some (.done, w.deliverKill env)
  | .exitTask env tid reason => some (.done, w.exitTask env tid reason)
  | .retired principal => some (.done, w.finishRetirement principal)
  | .spawn cellId => some (.done, w.spawn cellId)
  | .thread tid => some (.done, w.thread tid)
  | .register service tid => some (.done, w.register service tid)
  | .unregister service =>
    some (.done, { w with registry := Function.update w.registry service none })

/-- One call of `dispatch`: a sweep, the request, a sweep. -/
def dispatched (env : Env) (caller : Nat) (request : Bytes) : List Op :=
  [.maintain env, .kill env, .request env caller request, .maintain env, .kill env]

/-- The kernel before its first cell. -/
def boot : World where
  next := 1
  terminalNext := 1
  operations := []
  endpoints := []
  prepared := []
  receipts := []
  bootstraps := []
  ledgers := []
  pass := 0
  pendingCancels := 0
  deadRings := []
  deadOverflow := false
  drainOperationCursor := 0
  drainPreparedCursor := 0
  rings := fun _ => none
  nextRing := 1
  cells := []
  tasks := []
  registry := fun _ => none
  nextTask := 1
  nextGeneration := 1
  calls := []
  fault := false

/-! ## concrete runs -/

/-- An undisturbed machine: every allocation succeeds, and the next cell id is `cellId`. -/
def calm (cellId : Nat) : Env where
  now := 0
  clock := none
  grants := fun _ _ => true
  launch := true
  load := none
  cellId := cellId

/-- A platform whose texts are all valid. -/
def plain : Platform where
  sha256 := fun _ => List.replicate 32 0
  utf8 := fun _ => true

end Cellos.Session
