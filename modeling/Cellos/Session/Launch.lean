import Cellos.Session.Maintain

/-!
# Cellos.Session.Launch

The launch of a session child (`write_context` to `commit_child` in
`task/cell_session.rs`): the preparer writes the context and stages holders for the
child, resource owners register receipts, and the commit publishes the child in one
transition.

The checks of a handler are an `Except` block that does not touch the world; what follows
them cannot fail unless it says so.
-/

namespace Cellos.Session

open Lib Reader
open Pipes (PipeHandle duplicateEnd)

/-- What a handler answers, and the world it leaves. -/
abbrev Answer := Except Status Bytes × World

namespace World

/-! ## staged grants -/

variable (w : World) (p : Prepared) (env : Env) (platform : Platform) (actor : Principal) (body : Bytes)

open Rights

/-- The staged holder a kind-1 grant names. -/
def stagedGrant (g : Grant) : Except Status Endpoint := do
  let e ← w.endpointOf g.object
  require (e.holder = p.child.principal ∧ e.prepared = some p.child ∧ e.state = .opened
    ∧ e.operation = p.operation ∧ e.rights = BitVec.ofNat 32 g.rights) .denied
  let source ← w.endpoint p.preparer e.parent delegate
  require (source.handle = e.handle ∧ e.rights &&& ~~~source.rights = 0) .denied
  return e

/-- The staged holders of the slots, in slot order. -/
def stagedFrom (w : World) (p : Prepared) (parsed : Context) :
    List Nat → Except Status (List (Nat × Endpoint))
  | [] => return []
  | slot :: slots =>
    match parsed.grant slot with
    | none => stagedFrom w p parsed slots
    | some g =>
      if g.kind ≠ 1 then stagedFrom w p parsed slots
      else do
        let e ← w.stagedGrant p g
        let rest ← stagedFrom w p parsed slots
        return (slot, e) :: rest

/-- `staged_grants`: every kernel grant names a holder staged for this child, and every
staged holder is named. -/
def stagedGrants (parsed : Context) : Except Status (List (Nat × Endpoint)) := do
  let staged ← w.stagedFrom p parsed (List.range contextMaxGrants)
  require (¬w.endpoints.any fun e => e.prepared = some p.child ∧ e.state = .opened
    ∧ (staged.any fun s => s.2.reference = e.reference) = false) .denied
  return staged

/-! ## the context -/

/-- `install_context`: the completed context fills the reserved task. -/
def installContext (w : World) (p : Prepared) : Except Status World := do
  let parsed ← validate platform p.context p.operation
  let argv := slice p.context parsed.argv
  require (argv = [] ∨ env.grants .context 1) .quotaExceeded
  let cwd := slice p.context parsed.cwd
  require (platform.utf8 cwd) .unsupportedInput
  require (env.grants .context 2) .quotaExceeded
  let _ ← w.stagedGrants p parsed
  let publication ← demand p.publication .invalidChild
  let stdio := (List.range 4).map fun slot => ((parsed.grant slot).map (·.object)).getD Ref.zero
  return w.setPrepared p.reference fun p => { p with
    parsed := some parsed
    publication := some { publication with
      inheritedArgv := if argv = [] then none else some argv
      cwd := cwd
      childStdio := stdio } }

/-- The body of `WriteChildContext`, and the child it writes for. -/
def checkWrite : Except Status (Prepared × Bytes) := do
  let (reference, offset, bytes) ← parse (do
    let reference ← reference
    let offset ← u32
    let count ← u32
    return (reference, offset, ← take count)) body
  require (1 ≤ bytes.length ∧ bytes.length ≤ 512) .malformed
  let p ← w.preparing actor reference
  require (offset = p.written ∧ offset + bytes.length ≤ p.context.length) .malformed
  return (p, bytes)

/-- The record after the next bytes of its context. -/
def written (bytes : Bytes) : Prepared :=
  { p with
    context := p.context.take p.written ++ bytes ++ p.context.drop (p.written + bytes.length)
    written := p.written + bytes.length }

/-- `write_context` (selector 11): strictly sequential.  An invalid final context aborts
the preparation. -/
def writeContext (w : World) (actor : Principal) (body : Bytes) : Answer :=
  match w.checkWrite actor body with
  | .error status => (.error status, w)
  | .ok (p, bytes) =>
    let p' := written p bytes
    let w := w.setPrepared p.reference fun _ => p'
    let payload := leBytes 4 p'.written ++ leBytes 4 0
    if p'.written = p'.context.length then
      match w.installContext env platform p' with
      | .error status => (.error status, w.abort env p.reference false)
      | .ok w => (.ok payload, w)
    else (.ok payload, w)

/-- `inspect_grant` (selector 18): what an issuer may see of a prepared grant. -/
def inspectGrant : Except Status Bytes := do
  let (reference, kind, slot, offset, limit) ← parse (do
    let reference ← reference
    let kind ← u16
    let slot ← u16
    let offset ← u32
    let limit ← u32
    zero
    return (reference, kind, slot, offset, limit)) body
  require (1 ≤ limit ∧ limit ≤ 512) .malformed
  let p ← w.preparation reference
  require (p.state = .staged) .invalidChild
  let parsed ← demand p.parsed .wouldBlock
  let (grant, projection) ←
    if kind = 1 ∧ slot = 0 then do
      let intent ← demand p.intent .denied
      let current ← w.issuer actor serviceInput
      require (current = intent.issuer) .denied
      let stdio ← parsed.stdioProjection
      let grant ← demand (parsed.grant 0) .denied
      pure (grant, stdio)
    else if kind = 2 ∧ slot = 4 then do
      let _ ← w.issuer actor serviceVfs
      let grant ← demand (parsed.grant 4) .denied
      pure (grant, slice p.context parsed.cwd)
    else if kind = kindInputFrontend ∧ slot = slotFrontend then do
      let _ ← w.issuer actor serviceInput
      let grant ← demand (parsed.grant slotFrontend) .denied
      let o ← w.operation p.operation
      pure (grant, p.preparer.toBytes ++ o.owner.toBytes)
    else .error .denied
  require (offset ≤ projection.length) .malformed
  let count := min limit (projection.length - offset)
  return p.child.toBytes ++ p.operation.toBytes ++ parsed.digest ++ grant.wire
    ++ leBytes 4 projection.length ++ leBytes 4 offset ++ leBytes 4 count ++ leBytes 4 0
    ++ slice projection (offset, offset + count)

/-! ## receipts -/

/-- `check_frontend_seal`. -/
def checkFrontendSeal (sealBytes : Bytes) (object : Ref) (grant : Option Ref) (child : Child) :
    Except Status Unit := do
  let (frontend, sealed) ← Reader.parse (do return (← Reader.reference, ← Reader.child)) sealBytes
  require (sealed = child) .invalidChild
  require (frontend ≠ Ref.zero ∧ frontend = object ∧ grant = some frontend) .denied

/-- The body of `RegisterBindReceipt`. -/
structure ReceiptRequest where
  reference : Ref
  (kind slot : Nat)
  object : Ref
  (expectedEpoch nextEpoch : Nat)
  (digest sealBytes : Bytes)

def readReceiptRequest : Reader ReceiptRequest := do
  let reference ← reference
  let kind ← u16
  let slot ← u16
  zero
  let object ← Reader.reference
  let expectedEpoch ← u64
  let nextEpoch ← u64
  let digest ← take 32
  let sealLen ← u32
  zero
  let sealBytes ← take sealLen
  return { reference, kind, slot, object, expectedEpoch, nextEpoch, digest, sealBytes }

/-- The service whose provider may register a receipt of this shape. -/
def receiptShape (kind slot sealLen : Nat) : Option Nat :=
  if kind = 1 ∧ slot = 0 ∧ sealLen = 192 then some serviceInput
  else if kind = 2 ∧ slot = 4 ∧ sealLen = 128 then some serviceVfs
  else if kind = kindInputFrontend ∧ slot = slotFrontend ∧ sealLen = frontendSealLen then
    some serviceInput
  else none

/-- The seal of an input foreground receipt. -/
structure ForegroundSeal where
  (session lease operation : Ref)
  child : Child
  (expected next : Nat)
  streams : List Ref
  writers : Ref × Ref

def readForegroundSeal : Reader ForegroundSeal := do
  let session ← reference
  let lease ← reference
  let operation ← reference
  let child ← child
  let expected ← u64
  let next ← u64
  let streams := [← reference, ← reference, ← reference, ← reference]
  let writers := (← reference, ← reference)
  return { session, lease, operation, child, expected, next, streams, writers }

/-- The ring an endpoint reference names. -/
def ringOf (r : Ref) : Except Status Nat := do
  let e ← w.endpointOf r
  return e.handle.pipe

/-- The receipts of a session's foreground children. -/
def sessionReceipts (session : Ref) : List Receipt :=
  w.receipts.filter fun rr => rr.kind = 1 ∧ (readRef rr.sealBytes 0).toOption = some session

/-- One stdio stream of a foreground seal is the staged holder of its slot. -/
def checkStream (parsed : Context) (slot : Nat) (stream : Ref) : Except Status Unit := do
  let grant ← demand (parsed.grant slot) .denied
  let e ← w.endpointOf stream
  require (grant.object = stream ∧ e.holder = p.child.principal ∧ e.prepared = some p.child
    ∧ e.operation = p.operation ∧ e.rights = BitVec.ofNat 32 grant.rights ∧ e.state = .opened)
    .denied

/-- The rings of an earlier receipt of the session are not reused. -/
def checkEarlier (stdin control : Nat) (rr : Receipt) : Except Status Unit :=
  require (¬[96, 144].any fun offset =>
    match readRef rr.sealBytes offset with
    | .error _ => false
    | .ok r =>
      match w.ringOf r with
      | .error _ => false
      | .ok old => old = stdin ∨ old = control) .wrongEpoch

/-- A writer the issuer takes over is the sole writer of the ring its stream reads. -/
def checkWriter (writer stream : Ref) : Except Status Unit := do
  let e ← w.endpoint p.preparer writer (write ||| delegate)
  let target ← w.endpointOf stream
  require (e.handle.pipe = target.handle.pipe ∧ e.operation = p.operation
    ∧ w.counts e.handle = some (1, 1)) .denied

variable (staged : List (Nat × Endpoint)) (q : ReceiptRequest)

/-- The checks of `register_receipt` for an input foreground receipt. -/
def checkForeground (p : Prepared) (parsed : Context) (issuer : Binding) : Except Status Unit := do
  let intent ← demand p.intent .denied
  require (intent.issuer = issuer) .denied
  let s ← parse readForegroundSeal q.sealBytes
  require (s.session ≠ Ref.zero ∧ s.lease = q.object ∧ s.child = p.child
    ∧ s.operation = p.operation ∧ s.expected = q.expectedEpoch ∧ s.next = q.nextEpoch) .denied
  require (s.expected + 1 < 2 ^ 64) .wrongEpoch
  require (s.next = s.expected + 1 ∧ s.writers = intent.writers) .denied
  let b ← demand (w.bootstraps.find? fun b => b.state = .active ∧ b.session = s.session
    ∧ b.issuer = issuer ∧ b.controller = p.preparer) .wrongSession
  require (w.isSubtree p.operation b.operation ∧ p.operation ≠ b.operation) .denied
  -- foreground exclusivity and monotonic epochs per session
  require (¬(w.sessionReceipts s.session).any fun rr =>
    ((rr.state = .prepared ∨ (rr.state = .committed ∧ rr.restored = false))
        ∧ rr.prepared ≠ q.reference)
      ∨ (rr.state = .committed ∧ s.expected < rr.nextEpoch)) .wrongEpoch
  let stream := fun n => s.streams.getD n Ref.zero
  let base := fun n => b.endpoints.getD n Ref.zero
  w.checkStream p parsed 0 (stream 0)
  w.checkStream p parsed 1 (stream 1)
  w.checkStream p parsed 2 (stream 2)
  w.checkStream p parsed 3 (stream 3)
  -- stdout and stderr go on in the session's rings; stdin and control are new ones
  let out ← w.ringOf (stream 1)
  let baseOut ← w.ringOf (base 1)
  require (out = baseOut) .wrongSession
  let diag ← w.ringOf (stream 2)
  let baseDiag ← w.ringOf (base 2)
  require (diag = baseDiag) .wrongSession
  let stdin ← w.ringOf (stream 0)
  let control ← w.ringOf (stream 3)
  require (stdin ≠ control ∧ ¬[base 0, base 3].any fun old =>
    (w.ringOf old).toOption = some stdin ∨ (w.ringOf old).toOption = some control) .wrongSession
  (w.sessionReceipts s.session).forM (w.checkEarlier stdin control)
  w.checkWriter p s.writers.1 (stream 0)
  w.checkWriter p s.writers.2 (stream 3)

/-- The seal of a working-directory receipt. -/
def checkCwdSeal (p : Prepared) (parsed : Context) : Except Status Unit := do
  let (source, sourceGrant, child, operation, cwdDigest, childGrant) ← parse (do
    let source ← principal
    let sourceGrant ← reference
    let child ← child
    let operation ← reference
    let cwdDigest ← take 32
    return (source, sourceGrant, child, operation, cwdDigest, ← reference)) q.sealBytes
  let grant ← demand (parsed.grant 4) .denied
  require (childGrant.generation = child.principal.generation) .invalidChild
  require (source = p.preparer ∧ sourceGrant ≠ Ref.zero ∧ child = p.child ∧ operation = p.operation
    ∧ childGrant = grant.object ∧ q.object = childGrant
    ∧ cwdDigest = platform.sha256 (slice p.context parsed.cwd)) .denied

/-- The seal of a receipt, by its kind. -/
def checkSeal (w : World) (q : ReceiptRequest) (p : Prepared)
    (parsed : Context) (issuer : Binding) : Except Status Unit :=
  if q.kind = 1 then w.checkForeground q p parsed issuer
  else if q.kind = kindInputFrontend then do
    require (q.expectedEpoch = 0 ∧ q.nextEpoch = 0) .wrongEpoch
    checkFrontendSeal q.sealBytes q.object ((parsed.grant slotFrontend).map (·.object)) p.child
    -- a frontend binds at most one child
    require (¬w.receipts.any fun rr => rr.kind = kindInputFrontend ∧ rr.object = q.object
      ∧ rr.issuer = issuer ∧ (rr.state = .prepared ∨ rr.state = .committed)) .denied
  else do
    require (q.expectedEpoch = 0 ∧ q.nextEpoch = 0) .wrongEpoch
    checkCwdSeal platform q p parsed

/-- Every check of `register_receipt` before it mints. -/
def checkReceipt (w : World) (actor : Principal)
    (q : ReceiptRequest) : Except Status (Prepared × Binding) := do
  let p ← w.preparation q.reference
  require (p.state = .staged) .invalidChild
  let parsed ← demand p.parsed .wouldBlock
  require (q.digest = parsed.digest) .denied
  require (¬w.receipts.any fun rr => rr.prepared = q.reference ∧ rr.kind = q.kind
    ∧ (rr.state = .prepared ∨ rr.state = .committed)) .denied
  let service ← demand (receiptShape q.kind q.slot q.sealBytes.length) .malformed
  let issuer ← w.issuer actor service
  checkSeal platform w q p parsed issuer
  require (w.receipts.length < 1024 ∧ env.grants .receipt 0) .quotaExceeded
  return (p, issuer)

/-- The number of live holder records of an operation. -/
def heldCount (operation : Ref) : Nat :=
  w.endpoints.countP fun e => e.operation = operation ∧ e.held

/-- `holder_capacity`, with the charge for the records. -/
def holderCapacity (w : World) (operation : Ref) (count attempt : Nat) : Except Status Unit :=
  require (w.heldCount operation + count ≤ 64 ∧ env.grants .holder attempt) .quotaExceeded

/-- A reserved peer of an input foreground receipt: it owns no count yet. -/
def peer (issuer : Binding) (reference : Ref) (source : Endpoint) : Endpoint where
  reference := reference
  holder := issuer.principal
  operation := p.operation
  parent := source.reference
  handle := source.handle
  rights := write ||| close
  state := .reserved
  prepared := none
  enabled := false
  issuerHeld := true

/-- The writers the peers of a receipt will take over. -/
def peerSources (w : World) (p : Prepared) : Except Status (Endpoint × Endpoint) := do
  w.holderCapacity env p.operation 2 0
  let intent ← demand p.intent .denied
  let first ← w.endpoint p.preparer intent.writers.1 (write ||| delegate)
  let second ← w.endpoint p.preparer intent.writers.2 (write ||| delegate)
  return (first, second)

/-- Reserve both peers. -/
def reservePeers (w : World) (p : Prepared) (issuer : Binding) :
    Except Status (Ref × Ref) × World :=
  match w.peerSources env p with
  | .error status => (.error status, w)
  | .ok (first, second) =>
    match w.mint with
    | .error status => (.error status, w)
    | .ok (a, w) =>
      match w.mint with
      | .error status => (.error status, w)
      | .ok (b, w) => (.ok (a, b), { w with endpoints := w.endpoints ++
          [peer p issuer a first, peer p issuer b second] })

/-- The record of a new receipt. -/
def newReceipt (p : Prepared) (issuer : Binding) (reference : Ref)
    (producers : Ref × Ref) : Receipt where
  reference := reference
  prepared := q.reference
  child := p.child
  operation := p.operation
  issuer := issuer
  kind := q.kind
  slot := q.slot
  object := q.object
  expectedEpoch := q.expectedEpoch
  nextEpoch := q.nextEpoch
  digest := q.digest
  sealBytes := q.sealBytes
  state := .prepared
  bound := false
  producers := producers
  restored := false
  materialized := false

/-- Reserve the peers an input foreground receipt needs; other receipts need none. -/
def receiptPeers (w : World) (q : ReceiptRequest) (p : Prepared) (issuer : Binding) :
    Except Status (Ref × Ref) × World :=
  if q.kind = 1 then w.reservePeers env p issuer else (.ok (Ref.zero, Ref.zero), w)

/-- `register_receipt` (selector 15). -/
def registerReceipt (w : World) (actor : Principal) (body : Bytes) : Answer :=
  match parse readReceiptRequest body with
  | .error status => (.error status, w)
  | .ok q =>
    match w.checkReceipt env platform actor q with
    | .error status => (.error status, w)
    | .ok (p, issuer) =>
      match w.mint with
      | .error status => (.error status, w)
      | .ok (receipt, w) =>
        match w.receiptPeers env q p issuer with
        | (.error status, w) => (.error status, w)
        | (.ok producers, w) => (.ok receipt.toBytes, { w with
            receipts := w.receipts ++ [newReceipt q p issuer receipt producers] })

/-- `BindOwnerReceipt` (selector 12): the preparer names a receipt of its child. -/
def bindReceipt : Except Status World := do
  let (reference, kind, slot, owner, receipt) ← parse (do
    let reference ← reference
    let kind ← u16
    let slot ← u16
    zero
    let owner ← Reader.binding
    return (reference, kind, slot, owner, ← Reader.reference)) body
  let p ← w.preparing actor reference
  let rr ← w.receipt receipt
  require (rr.prepared = reference ∧ rr.kind = kind ∧ rr.slot = slot ∧ rr.issuer = owner
    ∧ rr.state = .prepared) .denied
  let index ← demand (if kind = 1 then some 0 else if kind = 2 then some 1
    else if kind = kindInputFrontend then some 2 else none) .unsupported
  let current ← w.binding (receiptService kind)
  require (current = owner) .revoked
  require (p.receipts.getD index Ref.zero = Ref.zero ∨ p.receipts.getD index Ref.zero = receipt)
    .denied
  return (w.setPrepared reference fun p => { p with receipts := p.receipts.set index receipt
    }).setReceipt receipt fun rr => { rr with bound := true }

/-- `AuthorizeInputBind` (selector 27): name the two writers the issuer will take over. -/
def authorizeBind : Except Status (Bytes × World) := do
  let (reference, input, first, second) ← parse (do
    let reference ← reference
    let input ← Reader.binding
    return (reference, input, ← Reader.reference, ← Reader.reference)) body
  let p ← w.preparing actor reference
  let current ← w.binding serviceInput
  require (current = input) .revoked
  require (p.parsed ≠ none ∧ p.intent = none ∧ first ≠ second) .denied
  let a ← w.endpoint actor first (write ||| delegate)
  require (a.operation = p.operation ∧ (w.counts a.handle).map (·.2) = some 1) .denied
  let b ← w.endpoint actor second (write ||| delegate)
  require (b.operation = p.operation ∧ (w.counts b.handle).map (·.2) = some 1) .denied
  require (a.handle.pipe ≠ b.handle.pipe) .denied
  let (intent, w) ← w.mint
  return (intent.toBytes, w.setPrepared reference fun p =>
    { p with intent := some { reference := intent, issuer := input, writers := (first, second) } })

/-! ## commit -/

/-- What a commit will do, all of it checked. -/
structure CommitPlan where
  /-- Reserved peers and the writers whose counts they take. -/
  moves : List (Ref × Ref)
  staged : List (Nat × Endpoint)
  receipts : List Ref
  publication : Publication

/-- The slots whose grant is a reader: their holder takes the source's count. -/
def readerSlot (slot : Nat) : Bool := slot = 0 ∨ slot = 3

/-- The staged holder of a slot. -/
def slotOf (slot : Nat) : Option Endpoint := (staged.find? fun s => s.1 = slot).map (·.2)

/-- The bound receipt of each kind must still stand. -/
def checkBound (digest : Bytes) (n : Nat) : Except Status (Option Receipt) :=
  let named := p.receipts.getD n Ref.zero
  if named = Ref.zero then return none
  else do
    let rr ← w.receipt named
    let current ← w.binding (if n = 1 then serviceVfs else serviceInput)
    require (rr.prepared = p.reference ∧ rr.bound ∧ rr.state = .prepared ∧ rr.digest = digest
      ∧ current = rr.issuer) .revoked
    return some rr

/-- A frontend grant needs its own bound, unresolved receipt. -/
def frontendAdmitted (object : Ref) : Bool :=
  match w.receipt (p.receipts.getD 2 Ref.zero) with
  | .error _ => false
  | .ok rr => rr.kind = kindInputFrontend ∧ rr.prepared = p.reference ∧ rr.child = p.child
      ∧ rr.object = object ∧ rr.bound ∧ rr.state = .prepared

/-- A reader grant is a move: its ring has exactly one reader, the source. -/
def checkReader (e : Endpoint) : Except Status Unit := do
  require ((w.counts e.handle).map (·.1) = some 1) .denied
  let _ ← w.endpointOf e.parent

/-- The issuer takes over the sole writer of the ring a stream reads. -/
def checkSource (slot : Nat) (writer : Ref) : Except Status Unit := do
  let source ← w.endpoint p.preparer writer (write ||| delegate)
  let target ← demand (slotOf staged slot) .denied
  require (source.operation = p.operation ∧ source.handle.pipe = target.handle.pipe
    ∧ w.counts source.handle = some (1, 1)) .denied

/-- The peer is still reserved. -/
def checkPeer (producer : Ref) : Except Status Unit := do
  let e ← w.endpointOf producer
  require (e.state = .reserved) .revoked

/-- The writers the issuer of the bound input receipt takes over. -/
def checkMoves : Option Receipt → Except Status (List (Ref × Ref))
  | none => return []
  | some rr => do
    let intent ← demand p.intent .denied
    require (intent.issuer = rr.issuer) .revoked
    w.checkSource p staged 0 intent.writers.1
    w.checkSource p staged 3 intent.writers.2
    w.checkPeer rr.producers.1
    w.checkPeer rr.producers.2
    return [(rr.producers.1, intent.writers.1), (rr.producers.2, intent.writers.2)]

/-- Every check of `commit_child` after the deadline. -/
def checkCommit (w : World) (p : Prepared) : Except Status CommitPlan := do
  -- a receipt the preparer never bound would outlive the commit
  require (¬w.receipts.any fun rr => rr.prepared = p.reference ∧ rr.state = .prepared
    ∧ rr.bound = false) .denied
  let parsed ← demand p.parsed .wouldBlock
  require ((parsed.grant slotFrontend).all fun g => w.frontendAdmitted p g.object) .invalidChild
  let publication ← demand p.publication .revoked
  require (w.ownerReserved publication.owner ∧ env.launch) .revoked
  let input ← w.checkBound p parsed.digest 0
  let cwd ← w.checkBound p parsed.digest 1
  let frontend ← w.checkBound p parsed.digest 2
  require (parsed.grant 4 = none ∨ cwd ≠ none) .denied
  require (input = none ∨ (List.range 4).all fun slot => (parsed.grant slot).isSome) .denied
  let staged ← w.stagedGrants p parsed
  (staged.filter fun s => readerSlot s.1).forM fun s => w.checkReader s.2
  require (¬((slotOf staged 0).isSome ∧ (slotOf staged 3).isSome ∧
    (slotOf staged 0).map (·.handle.pipe) = (slotOf staged 3).map (·.handle.pipe))) .denied
  let moves ← w.checkMoves p staged input
  return { moves, staged, receipts := ([input, cwd, frontend].filterMap id).map (·.reference)
           publication }

/-- The sole writer count moves to the issuer's peer; it is not duplicated. -/
def moveWriter (move : Ref × Ref) : World :=
  (w.setEndpoint move.1 fun e => { e with state := .opened, enabled := true }).setEndpoint move.2
    fun e => { e with state := .closed }

/-- A staged holder becomes the child's: a reader takes the count of its source, a writer
gets one of its own. -/
def admitStaged (s : Nat × Endpoint) : World :=
  let w :=
    if readerSlot s.1 then w.setEndpoint s.2.parent fun e => { e with state := .closed }
    else
      { w with
        rings := (duplicateEnd w.rings s.2.handle).2
        fault := w.fault || !(duplicateEnd w.rings s.2.handle).1 }
  w.setEndpoint s.2.reference fun e => { e with prepared := none }

/-- `publish`: the reserved slot goes live with its root task. -/
def publish (publication : Publication) (context : Bytes) : World :=
  let owner := publication.owner
  { w with
    cells := updateFirst (fun c => c.owner = owner) (fun c => { c with slot := .live }) w.cells
    tasks := w.tasks ++ [{
      tid := owner.rootTid, cell := owner.principal, rootTid := owner.rootTid
      childContext := some context, childStdio := publication.childStdio }] }

/-- The part of `commit_child` that cannot fail. -/
def applyCommit (plan : CommitPlan) : World :=
  let w := plan.moves.foldl moveWriter w
  let w := plan.staged.foldl admitStaged w
  let w := plan.receipts.foldl
    (fun w r => w.setReceipt r fun rr => { rr with state := .committed }) w
  let w := w.setPrepared p.reference fun p =>
    { p with publication := none, context := [], state := .live }
  w.publish plan.publication p.context

/-- The child a commit names, in an active operation. -/
def commitTarget : Except Status Prepared := do
  let reference ← parse reference body
  let p ← w.preparing actor reference
  let _ ← w.opActive p.preparer p.operation
  return p

/-- `commit_child` (selector 13). -/
def commitChild (w : World) (actor : Principal) (body : Bytes) : Answer :=
  match w.commitTarget actor body with
  | .error status => (.error status, w)
  | .ok p =>
    if p.deadline ≤ env.now then (.error .timedOut, w.abort env p.reference true)
    else
      match w.checkCommit env p with
      | .error status => (.error status, w)
      | .ok plan => (.ok p.child.toBytes, w.applyCommit p plan)

end World

end Cellos.Session
