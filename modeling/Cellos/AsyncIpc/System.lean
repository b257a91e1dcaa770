import Cellos.AsyncIpc.Model

/-!
# Cellos.AsyncIpc.System

The parts of the kernel that asynchronous operations meet: the receive paths of
`task/syscall.rs` and `task.rs`, `exit_task` and the retirement of a cell in
`task/scheduler.rs`, the cutover of `cell/hotswap.rs`.  `step` puts them together
with `async_ipc.rs` into one transition system whose steps are critical sections.

What other code does to the same records is in the system as well, as freely as
it could happen.
-/

namespace Cellos.AsyncIpc

open Lib

/-! ## values the calls pass around -/

/-- Whether a receive looks at the message. -/
def accepts (form : ReceiveForm) (mask : Nat) (msg : PendingMsg) : Bool :=
  (msg.wire.isSome || !(form == .recv || form == .tryRecv)) && (mask == 0 || msg.senderTid == mask)

/-- How a receive ended its first critical section. -/
inductive Snapshot
  | gone
  | empty
  | outOfMemory
  | shown (msg : PendingMsg)

/-- Which message of the mailbox the receive takes for the one it has shown. -/
def Receipt.position (receipt : Receipt) (mailbox : List PendingMsg) : Option Nat :=
  let atPos :=
    if (mailbox[receipt.pos]?).any (·.senderTid == receipt.senderTid) then some receipt.pos
    else none
  let byDelivery (header : IpcWireHeader) (msg : PendingMsg) : Bool :=
    msg.wireHeader.any (·.deliveryId == header.deliveryId)
  match receipt.form, receipt.header with
  | .direct, _ | .scatter, _ | .polled, none => atPos
  | .resumed, some header | .polled, some header => mailbox.findIdx? (byDelivery header)
  | .resumed, none | .recv, none | .tryRecv, none =>
    mailbox.findIdx? (·.senderTid == receipt.senderTid)
  | .recv, some header | .tryRecv, some header =>
    mailbox.findIdx? fun msg => msg.senderTid == receipt.senderTid && byDelivery header msg

/-- The mailbox without the message of the receipt. -/
def Receipt.remove (receipt : Receipt) (mailbox : List PendingMsg) : List PendingMsg :=
  match receipt.position mailbox with
  | some index => mailbox.eraseIdx index
  | none => mailbox

/-- Remove the message of the receipt and commit the caller it came from.  A
scattered receive commits no caller for an inline message. -/
def Receipt.commit (receipt : Receipt) (vfsCell : Nat) (task : Task) : Task :=
  let task := { task with pendingMsgs := receipt.remove task.pendingMsgs }
  if receipt.form = .scatter ∧ receipt.header.isNone then task
  else task.setReceivedRequestContext vfsCell receipt.senderTid receipt.sender
    ((receipt.header.map IpcWireHeader.asyncOp).getD 0)

/-- What an exit meets outside of this model: whether the holder of a VFS lease of
the dying task keeps its request, and who watches the dying task. -/
structure ExitOracle where
  leased : Nat → Nat → Bool
  watchers : Nat → List Nat
  ownerWatchers : Nat → List Nat

/-- Refusals of the hot-swap barrier. -/
inductive ViError
  | notFound
  | permissionDenied
  | wouldBlock
deriving DecidableEq

/-- Which allocations the copy of one message meets. -/
structure CopyFunding where
  (wire data slot : Bool)

/-- The source of a swap is frozen and still takes messages. -/
def Task.swapSource (source : Task) : Bool :=
  match source.state with
  | .frozen _ => !source.hotswapIngressClosed
  | _ => false

/-- The target of a swap has reported ready as the replacement of the source. -/
def Task.replaces (target : Task) (sourceTid : Nat) : Bool :=
  match target.state with
  | .frozen _ | .terminated => false
  | _ => target.hotswapReady && target.hotswapSourceTid == some sourceTid

/-- The copy of one message that the cutover appends to the replacement's mailbox. -/
def copyMessage (targetCell : Nat) (funding : CopyFunding) (msg : PendingMsg) : Option PendingMsg :=
  (PendingMsgData.tryCopy msg.payload targetCell funding.data).map fun data =>
    ⟨msg.senderTid, data, msg.wire.bind (·.tryClone funding.wire), msg.enqueuedTick⟩

/-- The copy loop from the `index`-th message on: the mailbox so far, and whether every message
that is not async was appended. -/
def copyMailbox (targetCell : Nat) (funding : Nat → CopyFunding) :
    Nat → List PendingMsg → List PendingMsg → Bool × List PendingMsg
  | _, [], target => (true, target)
  | index, msg :: source, target =>
    if msg.isAsync then copyMailbox targetCell funding (index + 1) source target
    else
      match copyMessage targetCell (funding index) msg with
      | none => (false, target)
      | some copied =>
        if (funding index).slot then
          copyMailbox targetCell funding (index + 1) source (target ++ [copied])
        else (false, target)

namespace World

/-! ## receiving -/

variable (w : World) (oracle : ExitOracle) (tid : Nat)

/-- `resolve_live_cell_owner`. -/
def resolveLiveCellOwner (binding : Nat × Nat) : Option CellOwner :=
  match w.cellOwners[binding.1]? with
  | some (.live owner) =>
    if owner.cellId ≠ binding.1 ∨ owner.generation ≠ binding.2 ∨ owner.isLive = false then none
    else (w.get owner.rootTid).bind fun root => if root.memberOf owner then some owner else none
  | _ => none

/-- `sender_context`. -/
def senderContext (senderTid : Nat) : Nat × Nat :=
  match (w.get senderTid).bind fun task => w.resolveLiveCellOwner task.binding with
  | some owner => (owner.cellId, owner.generation)
  | none => (0, 0)

/-- A message is shown to a receiver: the dispatch boundary of a request. -/
def showTo (receiver : Nat) (msg : PendingMsg) : World :=
  match msg.wireHeader with
  | some header => w.dispatch receiver header
  | none => w

/-- The first section of a receive: copy the first message it accepts and pass the dispatch
boundary. -/
def recvSnapshot (form : ReceiveForm) (receiver mask : Nat) (funded : Bool) : Snapshot × World :=
  match w.get receiver with
  | none => (.gone, w)
  | some task =>
    match task.pendingMsgs.findIdx? (accepts form mask),
        task.pendingMsgs.find? (accepts form mask) with
    | some pos, some msg =>
      if !funded then (.outOfMemory, w)
      else
        let sender :=
          match msg.wireHeader with
          | some header => (header.senderCellId, header.senderGeneration)
          | none => if form = .resumed then (0, 0) else w.senderContext msg.senderTid
        let receipt := ⟨form, receiver, pos, msg.senderTid, sender, msg.wireHeader⟩
        (.shown msg, { w.showTo receiver msg with receipts := w.receipts ++ [receipt] })
    | _, _ =>
      if form = .recv then
        (.empty, w.modify receiver fun task => { task with state := .recv mask none })
      else (.empty, w)

/-- `wake_sender_token`: the sender blocked on exactly this message runs again. -/
def wakeSenderToken (senderTid target : Nat) (header : IpcWireHeader) : World :=
  w.modify senderTid fun task =>
    if task.binding = (header.senderCellId, header.senderGeneration) ∧
        task.state = .sending target header.deliveryId then
      { task with state := .ready }
    else task

/-- The second critical section of a receive. -/
def recvCommit (receipt : Receipt) : World :=
  let w := w.modify receipt.receiver (receipt.commit w.vfsCell)
  match receipt.header with
  | some header => w.wakeSenderToken receipt.senderTid receipt.receiver header
  | none => w

/-- `ipc_recv_kernel`: the kernel's own buffer, so one critical section. -/
def recvKernel (receiver mask outLen : Nat) : Snapshot × World :=
  match w.get receiver with
  | none => (.gone, w)
  | some task =>
    match task.pendingMsgs.findIdx? (accepts .recv mask),
        task.pendingMsgs.find? (accepts .recv mask) with
    | some index, some msg =>
      match msg.wireHeader with
      | none => (.gone, w)
      | some header =>
        if outLen < msg.payload.length then (.gone, w)
        else
          let w := w.modify receiver fun task =>
            { task with pendingMsgs := task.pendingMsgs.eraseIdx index }
          let w := w.modify receiver fun task => task.setReceivedRequestContext w.vfsCell
            msg.senderTid (header.senderCellId, header.senderGeneration) header.asyncOp
          let w := w.dispatch receiver header
          (.shown msg, w.wakeSenderToken msg.senderTid receiver header)
    | _, _ =>
      (.empty, w.modify receiver fun task => { task with state := .recv mask none })

/-! ## leaving -/

/-- `begin_root_retirement`. -/
def beginRootRetirement (owner : CellOwner) : World :=
  { w with cellOwners := w.cellOwners.set owner.cellId (.retiring owner) }

/-- Whether the task stays in the dispatch table until its cell is quiescent. -/
def isRetiringMember (task : Task) : Bool :=
  match w.cellOwners[task.cellId]? with
  | some (.retiring owner) => task.memberOf owner
  | _ => false

/-- A sender blocked on the dying task runs again. -/
def releaseSender (task : Task) : Task :=
  match task.state with
  | .sending target _ => if target = tid then { task with state := .ready } else task
  | _ => task

/-- A service forgets the dying task as its caller, unless it holds a lease for it or
keeps an async token as a tombstone. -/
def forgetCaller (dead : Nat × Nat) (task : Task) : Task :=
  if task.context.currentCaller = some tid ∧
      (task.context.currentCallerCellId, task.context.currentCallerCellGeneration) = dead ∧
      oracle.leased tid task.id = false ∧ task.context.currentAsyncOp = 0 then
    task.clearCurrentCallerContext
  else task

/-- Wake a task that receives, with the dead task as its caller. -/
def tellDeath (vfsCell tid : Nat) (dead : Nat × Nat) (task : Task) : Task :=
  { task.setReceivedCallerContext vfsCell tid dead with state := .ready }

/-- Death notifications for the subscribers of `NotifyOnExit`. -/
def notifyWatchers (dead : Nat × Nat) (watchers : List Nat) : World :=
  watchers.foldl (fun w watcher => w.modify watcher fun task =>
    match task.state with
    | .recv _ _ => tellDeath w.vfsCell tid dead task
    | _ => task) w

/-- Owner-death events, which only a wildcard receive is woken for. -/
def notifyOwnerWatchers (dead : Nat × Nat) (watchers : List Nat) : World :=
  watchers.foldl (fun w watcher => w.modify watcher fun task =>
    match task.state with
    | .recv mask _ => if mask = 0 then tellDeath w.vfsCell tid dead task else task
    | _ => task) w

/-- The task becomes a tombstone, or leaves the dispatch table at once. -/
def depart : World :=
  if (w.get tid).any w.isRetiringMember then
    w.modify tid fun task => { task with state := .retiring }
  else
    { w with
      tasks := w.tasks.eraseP (·.id == tid)
      zombies := w.zombies ++ (w.get tid).toList }

/-- `exit_task` after the task's operations are settled and its cell's other
members have left. -/
def leave (w : World) (tid : Nat) : World :=
  let dead := ((w.get tid).map Task.binding).getD (0, 0)
  let w := w.depart tid
  let w := { w with registry := w.registry.clearTid tid }
  let w := w.mapTasks fun task => forgetCaller oracle tid dead (releaseSender tid task)
  let w := w.ownerDied tid dead
  let w := w.peerDied tid dead
  let w := w.notifyWatchers tid dead (oracle.watchers tid)
  w.notifyOwnerWatchers tid dead (oracle.ownerWatchers tid)

/-- The incarnation whose root the task is. -/
def rootOwner : Option CellOwner := (w.get tid).bind fun task =>
    if task.rootTid = tid then w.resolveLiveCellOwner task.binding else none

/-- The body of `exit_task`, over what it does to the members of a cell whose root exits. -/
def exitTaskWith (retire : World → CellOwner → Nat → World) (oracle : ExitOracle) (w : World)
    (tid : Nat) : World :=
  if (w.get tid).any (·.state == .retiring) then w
  else
    let w := w.onOwnerExits tid
    match w.rootOwner tid with
    | some owner => (retire w owner tid).leave oracle tid
    | none => w.leave oracle tid

/-- `exit_task` of a member of a retiring cell.  Its owner slot is not live any
more, so it is the root of nothing. -/
def exitMember : World → Nat → World := exitTaskWith (fun w _ _ => w) oracle

/-- `retire_cell_incarnation_participants`. -/
def retireCellIncarnationParticipants (w : World) (owner : CellOwner) (trigger : Nat) : World :=
  let w := w.beginRootRetirement owner
  let members := w.tasks.filter fun task => task.id != trigger && task.memberOf owner
  let w := (members.map Task.id).foldl (exitMember oracle) w
  let memberTids := (w.tasks.filter fun task => task.memberOf owner).map Task.id
  { w with pendingRootRetirements := w.pendingRootRetirements ++ [⟨owner, memberTids⟩] }

/-- `exit_task`. -/
def exitTask : World → Nat → World := exitTaskWith (retireCellIncarnationParticipants oracle) oracle

/-- An unhandled fault retires the whole generation, then the faulting task. -/
def faultTask (w : World) (tid : Nat) : World :=
  match (w.get tid).bind fun task => w.resolveLiveCellOwner task.binding with
  | some owner => exitTask oracle (w.retireCellIncarnationParticipants oracle owner tid) tid
  | none => exitTask oracle w tid

/-- `take_quiescent_root_retirements`: the members of a retirement, tombstones and
zombies alike, are handed over for release. -/
def finishRetirement (index : Nat) : World :=
  match w.pendingRootRetirements[index]? with
  | none => w
  | some retirement =>
    { w with
      tasks := w.tasks.filter fun task => !retirement.memberTids.contains task.id
      zombies := w.zombies.filter fun task => !retirement.memberTids.contains task.id
      pendingRootRetirements := w.pendingRootRetirements.eraseIdx index }

/-! ## hot swap -/

/-- `freeze_task_with_ceiling`, without the ceiling record. -/
def freeze (tid swapId : Nat) : World := w.modify tid fun task =>
    match task.state with
    | .frozen _ => task
    | _ => { task with hotswapIngressClosed := false, state := .frozen swapId }

/-- `unfreeze_task`. -/
def unfreeze : World :=
  let w := w.mapTasks fun task =>
    if task.hotswapSourceTid = some tid then { task with hotswapSourceTid := none } else task
  w.modify tid fun task =>
    match task.state with
    | .frozen _ => { task with hotswapIngressClosed := false, state := .ready }
    | _ => task

/-- Wake the replacement if it waits for one of the messages it was handed. -/
def wakeReplacement (targetTid : Nat) (sender : Option Nat) : World :=
  match sender with
  | none => w
  | some senderTid =>
    match w.get senderTid with
    | some sender => w.modify targetTid fun task =>
      { task.setReceivedCallerContext w.vfsCell senderTid sender.binding with state := .ready }
    | none => w.modify targetTid fun task =>
      { task.clearCurrentCallerContext with state := .ready }

/-- The transfer from a frozen source to its replacement.  A failed copy or registry compare takes
every append back. -/
def cutover (source target : Task) (serviceId : Nat) (funding : Nat → CopyFunding) :
    Except ViError Unit × World :=
  let transferable := source.pendingMsgs.filter fun msg => !msg.isAsync
  if hotswapMsgQueueDepth < target.pendingMsgs.length + transferable.length then
    (.error .wouldBlock, w)
  else if !w.registry.pausedMatches serviceId source.id then (.error .wouldBlock, w)
  else
    let wakeSender :=
      match target.state with
      | .recv mask _ => (transferable.find? fun msg =>
          mask == 0 || mask == msg.senderTid).map PendingMsg.senderTid
      | _ => none
    let start := target.pendingMsgs.length
    let (complete, mailbox) :=
      copyMailbox target.cellId funding 0 source.pendingMsgs target.pendingMsgs
    let rollback (task : Task) : Task := { task with pendingMsgs := mailbox.take start }
    if !complete then (.error .wouldBlock, w.modify target.id rollback)
    else
      let (committed, registry) := w.registry.commitPaused serviceId source.id target.id
        target.cellId target.cellGeneration
      if !committed then (.error .wouldBlock, w.modify target.id rollback)
      else
        let w := { w with registry }
        let w := w.modify target.id fun task => { task with pendingMsgs := mailbox }
        let w := w.modify source.id fun task =>
          { task with pendingMsgs := [], hotswapIngressClosed := true }
        let w := w.cutoverPeer source.id source.binding
        let w := w.modify target.id fun task => { task with hotswapSourceTid := none }
        (.ok (), w.wakeReplacement target.id wakeSender)

/-- `commit_hotswap_barrier`. -/
def commitHotswapBarrier (sourceTid targetTid serviceId : Nat)
    (funding : Nat → CopyFunding) : Except ViError Unit × World :=
  match w.get sourceTid with
  | none => (.error .notFound, w)
  | some source =>
    if !source.swapSource then (.error .permissionDenied, w)
    else
      match w.get targetTid with
      | none => (.error .notFound, w)
      | some target =>
        if !target.replaces sourceTid then (.error .permissionDenied, w)
        else w.cutover source target serviceId funding

end World

/-! ## the transition system -/

/-- One critical section, with what it meets outside of the model. -/
inductive Op
  | submitBegin (owner peer len : Nat)
  | submitPrepare (index : Nat) (buffer : UserBuffer) (wireFunded replyFunded : Bool)
  | submitFinish (index ticks : Nat) (rowFunded slotFunded : Bool)
  | recvSnapshot (form : ReceiveForm) (receiver mask : Nat) (funded : Bool)
  | recvCommit (index : Nat)
  /-- The copy to the receiver failed: the message stays. -/
  | recvAbort (index : Nat)
  | recvKernel (receiver mask outLen : Nat)
  | beginReceive (receiver mask : Nat)
  | reply (peer token : Nat) (buffer : UserBuffer)
  | replyCurrent (peer destination : Nat) (buffer : UserBuffer)
  | cancel (owner token : Nat)
  | take (consumer token : Nat) (buffers : TakeBuffers)
  | transferConsumption (caller token target : Nat)
  | wait (owner : Nat) (deadline : Option Nat)
  | expire (now : Nat)
  | exit (tid : Nat) (oracle : ExitOracle)
  | fault (tid : Nat) (oracle : ExitOracle)
  | finishRetirement (index : Nat)
  /-- `take_reapable_zombies`, for one of them. -/
  | reap (index : Nat)
  | spawn (cellId generation : Nat) (rootTid : Option Nat) (supervisor : Bool) (source : Option Nat)
  | publishOwner (owner : CellOwner)
  | releaseOwner (owner : CellOwner)
  /-- Scheduling, and every other way to block and to wake. -/
  | setState (tid : Nat) (state : TaskState)
  | clearContext (tid : Nat)
  | clearContextIf (tid senderTid requestGeneration : Nat)
  | post (target senderTid : Nat) (data : List UInt8) (maxDepth tick : Nat)
      (dataFunded slotFunded : Bool)
  | postWire (target : Nat) (message : IpcWireMessage) (tick : Nat) (slotFunded : Bool)
  | register (serviceId tid cellId generation : Nat)
  | pause (serviceId expectedTid : Nat)
  | registerVfs (cellId : Nat)
  | freeze (tid swapId : Nat)
  | unfreeze (tid : Nat)
  | hotswapReady (tid : Nat)
  | cutover (source target serviceId : Nat) (funding : Nat → CopyFunding)

/-- What a critical section answers. -/
inductive Response
  | silent
  | accepted (result : Bool)
  | submitted (result : Except Failure Nat)
  | received (receiver : Nat) (outcome : Snapshot)
  | replied (token : Nat) (result : Except Failure Unit)
  | bridged (outcome : Bridge)
  | returned (result : Except Failure Unit)
  | taken (token : Nat) (result : Except Failure (Option Taken))
  | waited (result : Except Failure Bool)
  | swapped (result : Except ViError Unit)

namespace World

/-- A task as the launch code publishes it. -/
def freshTask (id cellId generation rootTid : Nat) (supervisor : Bool) (source : Option Nat) :
    Task where
  id := id
  cellId := cellId
  cellGeneration := generation
  rootTid := rootTid
  supervisor := supervisor
  state := .ready
  asyncOperations := Operations.new
  pendingMsgs := []
  context := ⟨none, 0, 0, 0, 1, 0⟩
  hotswapReady := false
  hotswapSourceTid := source
  hotswapIngressClosed := false

/-- Task ids are never reissued. -/
def spawn (w : World) (cellId generation : Nat) (rootTid : Option Nat) (supervisor : Bool)
    (source : Option Nat) : World :=
  { w with
    tasks := w.tasks ++ [freshTask w.nextTaskId cellId generation
      (rootTid.getD w.nextTaskId) supervisor source]
    nextTaskId := w.nextTaskId + 1 }

/-- `publish_live_cell_owner`. -/
def publishLiveCellOwner (w : World) (owner : CellOwner) : World :=
  if owner.isLive ∧ w.cellOwners[owner.cellId]? = some .empty then
    { w with cellOwners := w.cellOwners.set owner.cellId (.live owner) }
  else w

/-- `finish_root_retirement`. -/
def finishRootRetirement (w : World) (owner : CellOwner) : World :=
  if w.cellOwners[owner.cellId]? = some (.retiring owner) then
    { w with cellOwners := w.cellOwners.set owner.cellId .empty }
  else w

/-- Replace a task by what a fallible update makes of it. -/
def tryModify (w : World) (tid : Nat) (f : Task → Option Task) : Bool × World :=
  match (w.get tid).bind f with
  | none => (false, w)
  | some task => (true, w.modify tid fun _ => task)

end World

/-- The tables before the first task is launched. -/
def World.boot (maxCells : Nat) : World where
  tasks := []
  zombies := []
  nextTaskId := 1
  nextOperation := 1
  nextDeliveryId := 1
  registry := []
  cellOwners := List.replicate maxCells .empty
  pendingRootRetirements := []
  vfsCell := 0
  submissions := []
  receipts := []

/-- **The transition system.** `none` when the step does not apply. -/
def step (w : World) : Op → Option (Response × World)
  | .submitBegin owner peer len =>
    match w.submitBegin owner peer len with
    | .error failure => some (.submitted (.error failure), w)
    | .ok s => some (.silent, { w with submissions := w.submissions ++ [s] })
  | .submitPrepare index buffer wireFunded replyFunded =>
    match w.submissions[index]? with
    | none => none
    | some s =>
      if s.wire.isSome || buffer.bytes.length != s.len then none
      else
        match w.submitPrepare s buffer wireFunded replyFunded with
        | (.error failure, w) => some (.submitted (.error failure),
            { w with submissions := w.submissions.eraseIdx index })
        | (.ok message, w) => some (.silent,
            { w with submissions := w.submissions.set index { s with wire := some message } })
  | .submitFinish index ticks rowFunded slotFunded =>
    match w.submissions[index]? with
    | none => none
    | some s =>
      match s.wire with
      | none => none
      | some message =>
        let w := { w with submissions := w.submissions.eraseIdx index }
        let (result, w) := w.submitFinish s message ticks rowFunded slotFunded
        some (.submitted result, w)
  | .recvSnapshot form receiver mask funded =>
    let (outcome, w) := w.recvSnapshot form receiver mask funded
    some (.received receiver outcome, w)
  | .recvCommit index =>
    match w.receipts[index]? with
    | none => none
    | some receipt =>
      some (.silent, { w with receipts := w.receipts.eraseIdx index }.recvCommit receipt)
  | .recvAbort index => some (.silent, { w with receipts := w.receipts.eraseIdx index })
  | .recvKernel receiver mask outLen =>
    let (outcome, w) := w.recvKernel receiver mask outLen
    some (.received receiver outcome, w)
  | .beginReceive receiver mask =>
    some (.silent, w.modify receiver fun task => task.beginReceiveContext w.vfsCell mask)
  | .reply peer token buffer =>
    let (result, w) := w.replyInSched peer token buffer
    some (.replied token result, w)
  | .replyCurrent peer destination buffer =>
    let (outcome, w) := w.replyCurrentInSched peer destination buffer
    some (.bridged outcome, w)
  | .cancel owner token =>
    let (result, w) := w.cancelInSched owner token
    some (.returned result, w)
  | .take consumer token buffers =>
    let (result, w) := w.take consumer token buffers
    some (.taken token result, w)
  | .transferConsumption caller token target =>
    let (result, w) := w.transferConsumption caller token target
    some (.returned result, w)
  | .wait owner deadline =>
    let (result, w) := w.wait owner deadline
    some (.waited result, w)
  | .expire now => some (.silent, w.expire now)
  | .exit tid oracle => some (.silent, w.exitTask oracle tid)
  | .fault tid oracle => some (.silent, w.faultTask oracle tid)
  | .finishRetirement index => some (.silent, w.finishRetirement index)
  | .reap index => some (.silent, { w with zombies := w.zombies.eraseIdx index })
  | .spawn cellId generation rootTid supervisor source =>
    some (.silent, w.spawn cellId generation rootTid supervisor source)
  | .publishOwner owner => some (.silent, w.publishLiveCellOwner owner)
  | .releaseOwner owner => some (.silent, w.finishRootRetirement owner)
  | .setState tid state =>
    -- a task becomes a tombstone only in `exit_task`
    if state = .retiring ∨ state = .terminated then none
    else some (.silent, w.modify tid fun task => { task with state })
  | .clearContext tid => some (.silent, w.modify tid Task.clearCurrentCallerContext)
  | .clearContextIf tid senderTid requestGeneration =>
    some (.silent, w.modify tid fun task =>
      task.clearCurrentCallerContextIf senderTid requestGeneration)
  | .post target senderTid data maxDepth tick dataFunded slotFunded =>
    let (result, w) := w.tryModify target fun task =>
      task.queuePendingMsg senderTid data maxDepth tick dataFunded slotFunded
    some (.accepted result, w)
  | .postWire target message tick slotFunded =>
    -- every wire message but the request of `submit` has no token
    if message.header.asyncOp ≠ 0 then none
    else
      let (result, w) := w.tryModify target fun task =>
        task.queueWireMsg message hotswapMsgQueueDepth tick slotFunded
      some (.accepted result, w)
  | .register serviceId tid cellId generation =>
    let (result, registry) := w.registry.register serviceId tid cellId generation
    some (.accepted result, { w with registry })
  | .pause serviceId expectedTid =>
    let (result, registry) := w.registry.pause serviceId expectedTid
    some (.accepted result, { w with registry })
  | .registerVfs cellId => some (.silent, { w with vfsCell := cellId })
  | .freeze tid swapId => some (.silent, w.freeze tid swapId)
  | .unfreeze tid => some (.silent, w.unfreeze tid)
  | .hotswapReady tid =>
    some (.silent, w.modify tid fun task => { task with hotswapReady := true })
  | .cutover source target serviceId funding =>
    let (result, w) := w.commitHotswapBarrier source target serviceId funding
    some (.swapped result, w)

end Cellos.AsyncIpc
