import Cellos.AsyncIpc.Task

/-!
# Cellos.AsyncIpc.Model

Asynchronous request/reply operations (`task/async_ipc.rs`).

All of them run under `SCHEDULER`, so a step of the model is one critical section.
A submission takes two sections with the token drawn in between, and a receive
takes one to look at the message and one to remove it.  What a task carries from
one section to the next is in `World.submissions` and `World.receipts`.

A task that leaves the dispatch table is a zombie until it is reaped: its record stays
as it was, and no call reads its rows or its mailbox.
-/

namespace Cellos.AsyncIpc

open Lib

/-- A submission between its critical sections. -/
structure Submission where
  (owner peer : Nat)
  (binding peerBinding : Nat × Nat)
  len : Nat
  /-- The request, once its token is drawn and its payload copied. -/
  wire : Option IpcWireMessage

/-- The ways to receive: which messages they look at, and how they find the message again to
remove it. -/
inductive ReceiveForm
  /-- `Recv` and `RecvTimeout` before they block. -/
  | direct
  /-- `Recv` and `RecvTimeout` after they were woken. -/
  | resumed
  /-- `ipc_recv`. -/
  | recv
  /-- `ipc_try_recv`. -/
  | tryRecv
  /-- `RecvScatter`. -/
  | scatter
  /-- `TryRecv`. -/
  | polled
deriving DecidableEq

/-- What a receive remembers of the message it has shown to the receiver. -/
structure Receipt where
  form : ReceiveForm
  (receiver pos senderTid : Nat)
  sender : Nat × Nat
  header : Option IpcWireHeader

/-- A cell incarnation whose members wait to leave the dispatch table. -/
structure RootRetirement where
  owner : CellOwner
  memberTids : List Nat

/-- The scheduler's tables and the global counters. -/
structure World where
  /-- The dispatch table, in the order of the task ids. -/
  (tasks zombies : List Task)
  nextTaskId : Nat
  /-- `NEXT_OPERATION`. -/
  nextOperation : Nat
  /-- `NEXT_DELIVERY_ID`. -/
  nextDeliveryId : Nat
  registry : Registry
  cellOwners : List CellOwnerSlot
  pendingRootRetirements : List RootRetirement
  /-- `VFS_HANDLER_CELL`. -/
  vfsCell : Nat
  submissions : List Submission
  receipts : List Receipt

/-! ## values the calls pass around -/

/-- The row `submit` pushes. -/
def newOperation (s : Submission) (token ticks : Nat) : Operation where
  id := token
  ownerCell := s.binding.1
  ownerGeneration := s.binding.2
  ownerTid := s.owner
  consumerTid := s.owner
  peerTid := s.peer
  peerCell := s.peerBinding.1
  peerGeneration := s.peerBinding.2
  deadline := saturatingAdd ticks operationTimeoutTicks
  phase := .queued
  reply := IpcWireMessage.blank ⟨s.peer, s.peerBinding.1, s.peerBinding.2, 0, token⟩
  reserved := List.length_replicate
  fits := Nat.zero_le _

/-- How a plain `Send` fared as a reply to the caller that is being served. -/
inductive Bridge
  /-- Not a reply: the message goes to the raw mailbox. -/
  | notReply
  /-- The caller's task belongs to another incarnation by now. -/
  | stale
  | answered (token : Nat) (result : Except Failure Unit)

/-- Which of the writes of `take` into the caller's memory go through. -/
structure TakeBuffers where
  replyLen : Nat
  (statusWritable replyWritable replyWritten statusWritten : Bool)

/-- The little-endian bytes of a 32-bit word. -/
def le32 (n : Nat) : List UInt8 :=
  [n, n / 2 ^ 8, n / 2 ^ 16, n / 2 ^ 24].map fun byte => UInt8.ofNat byte

/-- The 16-byte status record: version, outcome, length, zeros. -/
def statusRecord (kind : IpcStatus) (len : Nat) : List UInt8 :=
  le32 1 ++ le32 kind.code ++ le32 len ++ List.replicate 4 0

/-- What a successful `take` hands out. -/
structure Taken where
  kind : IpcStatus
  (data status : List UInt8)

/-- An unfinished operation of a leaving task: its token, its peer, and whether
it was still queued. -/
structure ToCancel where
  (token peer : Nat)
  queued : Bool

/-- The unfinished operations `on_owner_exits` collects. -/
def toCancel (task : Task) (ownerTid : Nat) : List ToCancel :=
  task.asyncOperations.rows.filterMap fun op =>
    if op.ownerTid = ownerTid then
      match op.phase with
      | .queued => some ⟨op.id, op.peerTid, true⟩
      | .dispatched => some ⟨op.id, op.peerTid, false⟩
      | .terminal _ _ => none
    else none

/-- Settle the rows of the collected operations. -/
def cancelAll (ops : Operations) (entries : List ToCancel) : Operations :=
  entries.foldl (fun ops entry =>
    ops.modify entry.token (Operation.settle
      (if entry.queued then .cancelled else .indeterminate))) ops

/-- `if let TaskState::WaitIpc { .. } = task.state { task.state = Ready }`. -/
def Task.wakeIpc (task : Task) : Task :=
  match task.state with
  | .waitIpc _ => { task with state := .ready }
  | _ => task

namespace World

variable (w : World) (tid : Nat)

def get : Option Task := w.tasks.find? (·.id == tid)

/-- `sched.tasks.get(&tid).filter(|task| live(task))`. -/
def getLive : Option Task := (w.get tid).filter Task.live

/-- Write through `sched.tasks.get_mut(&tid)`. -/
def modify (f : Task → Task) : World :=
  { w with tasks := updateFirst (·.id == tid) f w.tasks }

/-- Write to every task. -/
def mapTasks (f : Task → Task) : World := { w with tasks := w.tasks.map f }

/-- Write to one operation of one task. -/
def modifyOp (tid token : Nat) (f : Operation → Operation) : World :=
  w.modify tid fun task => { task with asyncOperations := task.asyncOperations.modify token f }

def wake (owner : Nat) : World := w.modify owner Task.wakeIpc

/-! ## submit -/

/-- A fresh operation token. -/
def newToken : Option (Nat × World) :=
  if w.nextOperation ≤ isizeMax then
    some (w.nextOperation, { w with nextOperation := w.nextOperation + 1 })
  else none

/-- The first critical section of `submit`: both parties are live. -/
def submitBegin (owner peer len : Nat) : Except Failure Submission :=
  if maxIpcWirePayload < len then .error .invalid
  else
    match w.getLive owner with
    | none => .error .invalid
    | some task =>
      match w.getLive peer with
      | none => .error .peerGone
      | some target => .ok ⟨owner, peer, task.binding, target.binding, len, none⟩

/-- Between the sections: draw the token, copy the request, reserve the reply. -/
def submitPrepare (s : Submission) (buffer : UserBuffer)
    (wireFunded replyFunded : Bool) : Except Failure IpcWireMessage × World :=
  match w.newToken with
  | none => (.error .busy, w)
  | some (token, w) =>
    let header := ⟨s.owner, s.binding.1, s.binding.2, w.nextDeliveryId, token⟩
    let w := { w with nextDeliveryId := (w.nextDeliveryId + 1) % 2 ^ 64 }
    match IpcWireMessage.tryFromUser header buffer wireFunded with
    | none => (.error .invalid, w)
    | some message => if replyFunded then (.ok message, w) else (.error .busy, w)

/-- `paused_target_rejects`: the quiesce barrier of a service that is swapped. -/
def pausedTargetRejects (caller target : Nat) : Bool :=
  if (w.get caller).any Task.supervisor then false
  else
    match w.get target with
    | none => false
    | some task =>
      task.hotswapIngressClosed || (w.registry.isPausedTid target &&
        match task.state with
        | .frozen _ => false
        | _ => true)

/-- `tasks.get(&tid).filter(|task| live(task) && binding(task) == binding)`. -/
def getBound (binding : Nat × Nat) : Option Task :=
  (w.get tid).filter fun task => task.live && task.binding == binding

/-- The second critical section of `submit`: publish the row, then the message. -/
def submitFinish (s : Submission) (message : IpcWireMessage) (ticks : Nat)
    (rowFunded slotFunded : Bool) : Except Failure Nat × World :=
  let token := message.header.asyncOp
  match w.getBound s.owner s.binding with
  | none => (.error .invalid, w)
  | some caller =>
    if maxOperations ≤ caller.asyncOperations.len then (.error .busy, w)
    else
      match w.getBound s.peer s.peerBinding with
      | none => (.error .peerGone, w)
      | some receiver =>
        if w.pausedTargetRejects s.owner s.peer then (.error .busy, w)
        else if hotswapMsgQueueDepth ≤ receiver.pendingMsgs.length then (.error .busy, w)
        else
          match caller.asyncOperations.push (newOperation s token ticks) rowFunded with
          | .error failure => (.error failure, w)
          | .ok ops =>
            let accepted := w.modify s.owner fun task => { task with asyncOperations := ops }
            match accepted.get s.peer with
            | none => (.error .peerGone, accepted)
            | some target =>
              match target.queueWireMsg message hotswapMsgQueueDepth ticks slotFunded with
              | none =>
                (.error .busy, accepted.modify s.owner fun task =>
                  { task with asyncOperations := task.asyncOperations.remove token })
              | some queued =>
                (.ok token, accepted.modify s.peer fun _ =>
                  queued.wakeAfterIpcPublish (target.recvEligible s.owner))

/-! ## dispatch and reply -/

/-- `dispatch`: showing the request to its receiver is the dispatch boundary. -/
def dispatch (peer : Nat) (header : IpcWireHeader) : World :=
  if header.asyncOp = 0 then w
  else
    match w.getLive peer with
    | none => w
    | some provider =>
      match w.getLive header.senderTid with
      | none => w
      | some owner =>
        if owner.binding ≠ (header.senderCellId, header.senderGeneration) then w
        else
          match owner.asyncOperations.find header.asyncOp with
          | none => w
          | some op =>
            if op.ownerBinding = owner.binding ∧ op.peerTid = peer ∧
                op.peerBinding = provider.binding ∧ op.phase = .queued then
              w.modifyOp header.senderTid header.asyncOp Operation.markDispatched
            else w

/-- `terminal`: the one place where a reply reaches an operation. -/
def terminal (ownerTid token provider : Nat) (exactPeer : Bool)
    (buffer : UserBuffer) : Except Failure Unit × World :=
  match w.getLive ownerTid with
  | none => (.error .peerGone, w)
  | some owner =>
    match owner.asyncOperations.find token with
    | none => (.error .invalid, w)
    | some op =>
      match w.getLive provider with
      | none => (.error .peerGone, w)
      | some peer =>
        if !owner.owns op || (exactPeer && op.peerTid != provider) ||
            op.peerBinding != peer.binding || op.phase != .dispatched then
          (.error .invalid, w)
        else if h : buffer.bytes.length ≤ maxIpcWirePayload then
          match buffer.fault with
          | none =>
            (.ok (), (w.modifyOp ownerTid token fun op => op.answer buffer.bytes h).wake ownerTid)
          | some copied =>
            (.error .invalid, (w.modifyOp ownerTid token fun op =>
              (op.writeReply (buffer.bytes.take copied)
                (Nat.le_trans (List.length_take_le' _ _) h)).settle .indeterminate).wake ownerTid)
        else
          (.error .invalid, (w.modifyOp ownerTid token (Operation.settle .indeterminate)).wake
            ownerTid)

/-- `reply_current_in_sched`. -/
def replyCurrentInSched (peer destination : Nat) (buffer : UserBuffer) : Bridge × World :=
  match w.getLive peer with
  | none => (.notReply, w)
  | some provider =>
    let token := provider.context.currentAsyncOp
    if token = 0 ∨ provider.context.currentCaller ≠ some destination then (.notReply, w)
    else if (w.get destination).any fun task => task.binding ==
        (provider.context.currentCallerCellId, provider.context.currentCallerCellGeneration) then
      let (result, w) := w.terminal destination token peer true buffer
      (.answered token result, w)
    else (.stale, w)

/-- The first task, in the order of the ids, that has an operation with the token. -/
def holderOf (token : Nat) (eligible : Task → Bool) : Option Task :=
  w.tasks.find? fun task => eligible task && (task.asyncOperations.find token).isSome

/-- An explicit response ends the request in every worker of the provider's cell, even if the
operation was taken before. -/
def endRequest (peer token : Nat) : World :=
  match w.getLive peer with
  | none => w
  | some provider => w.mapTasks fun task =>
    if task.binding == provider.binding && task.context.currentAsyncOp == token &&
        !isRegisteredVfsCell w.vfsCell task.cellId then
      task.clearCurrentCallerContext
    else task

/-- `reply_in_sched`. -/
def replyInSched (peer token : Nat) (buffer : UserBuffer) : Except Failure Unit × World :=
  if token = 0 then (.error .invalid, w)
  else
    match w.holderOf token (fun _ => true) with
    | none => (.error .invalid, w.endRequest peer token)
    | some owner =>
      let (result, w) := w.terminal owner.id token peer false buffer
      (result, w.endRequest peer token)

/-! ## cancel, take, transfer, wait -/

/-- `cancel_in_sched`. -/
def cancelInSched (owner token : Nat) : Except Failure Unit × World :=
  match w.getLive owner with
  | none => (.error .invalid, w)
  | some task =>
    match task.asyncOperations.find token with
    | none => (.error .invalid, w)
    | some op =>
      if !task.owns op then (.error .invalid, w)
      else
        let queued := op.phase == .queued
        -- no receiver has been shown the request: take it back
        let w := if queued then w.modify op.peerTid (Task.withdraw token) else w
        if op.phase.isTerminal then (.ok (), w)
        else
          (.ok (), (w.modifyOp owner token (Operation.settle
            (if queued then .cancelled else .indeterminate))).wake owner)

/-- `take`; `.ok none` while the operation is not terminal. -/
def take (consumer token : Nat) (buffers : TakeBuffers) : Except Failure (Option Taken) × World :=
  match w.getLive consumer with
  | none => (.error .invalid, w)
  | some caller =>
    match w.holderOf token (fun task => task.binding == caller.binding) with
    | none => (.error .invalid, w)
    | some holder =>
      match holder.asyncOperations.find token with
      | none => (.error .invalid, w)
      | some op =>
        if !caller.canConsume op then (.error .invalid, w)
        else
          match op.phase with
          | .terminal kind _ =>
            if buffers.replyLen < op.data.length then (.error .tooSmall, w)
            else if !buffers.statusWritable then (.error .invalid, w)
            else if !op.data.isEmpty && !(buffers.replyWritable && buffers.replyWritten) then
              (.error .invalid, w)
            else if !buffers.statusWritten then (.error .invalid, w)
            else
              (.ok (some ⟨kind, op.data, statusRecord kind op.data.length⟩),
                w.modify holder.id fun task =>
                  { task with asyncOperations := task.asyncOperations.remove token })
          | _ => (.ok none, w)

/-- `transfer_consumption`. -/
def transferConsumption (callerTid token targetTid : Nat) : Except Failure Unit × World :=
  match w.getLive callerTid with
  | none => (.error .invalid, w)
  | some caller =>
    match w.getLive targetTid with
    | none => (.error .invalid, w)
    | some target =>
      if caller.binding ≠ target.binding then (.error .invalid, w)
      else
        match w.holderOf token (fun task => task.binding == caller.binding) with
        | none => (.error .invalid, w)
        | some holder =>
          match holder.asyncOperations.find token with
          | none => (.error .invalid, w)
          | some op =>
            if op.consumerTid ≠ callerTid ∧ op.ownerTid ≠ callerTid then (.error .invalid, w)
            else
              (.ok (), w.modifyOp holder.id token fun op => { op with consumerTid := targetTid })

/-- The first critical section of `wait`; the answer is whether it returns at once. -/
def wait (owner : Nat) (deadline : Option Nat) : Except Failure Bool × World :=
  match w.getLive owner with
  | none => (.error .invalid, w)
  | some task =>
    if task.asyncOperations.hasTerminal then (.ok true, w)
    else (.ok false, w.modify owner fun task => { task with state := .waitIpc deadline })

/-! ## deaths, cutover, expiry -/

/-- Take the queued requests back from their peers. -/
def withdrawAll (entries : List ToCancel) : World := entries.foldl (fun w entry =>
    if entry.queued then w.modify entry.peer (Task.withdraw entry.token) else w) w

/-- `on_owner_exits`. -/
def onOwnerExits (ownerTid : Nat) : World :=
  match w.get ownerTid with
  | none => w
  | some task =>
    let entries := toCancel task ownerTid
    (w.withdrawAll entries).modify ownerTid fun task =>
      { task with asyncOperations := cancelAll task.asyncOperations entries }

/-- Settle every operation that matches as `PEER_GONE` and wake its owner. -/
def peerGoneWhere (hit : Operation → Bool) : World := w.mapTasks fun task =>
    if task.asyncOperations.rows.any hit then
      Task.wakeIpc { task with asyncOperations :=
        task.asyncOperations.map fun op => if hit op then op.settle .peerGone else op }
    else task

/-- `peer_died`: every unfinished operation with that exact peer. -/
def peerDied (peer : Nat) (binding : Nat × Nat) : World := w.peerGoneWhere fun op =>
    op.peerTid == peer && op.peerBinding == binding && !op.phase.isTerminal

/-- `cutover_peer`: only the operations that peer was never shown. -/
def cutoverPeer (peer : Nat) (binding : Nat × Nat) : World := w.peerGoneWhere fun op =>
    op.peerTid == peer && op.peerBinding == binding && op.phase == .queued

/-- `owner_died`: requests of a dead sender leave every mailbox. -/
def ownerDied (owner : Nat) (binding : Nat × Nat) : World := w.mapTasks fun task =>
    { task with pendingMsgs := task.pendingMsgs.filter fun msg => !msg.requestOf owner binding }

/-- The turn of `expire` for one row of one task. -/
def expireAt (now : Nat) (owner : Nat) (w : World) (index : Nat) : World :=
  match w.get owner with
  | none => w
  | some task =>
    match task.asyncOperations.rows[index]? with
    | none => w
    | some op =>
      if now < op.deadline || op.phase.isTerminal then w
      else
        let queued := op.phase == .queued
        let kind := if queued then IpcStatus.preDispatchTimeout else .indeterminate
        let w := w.modify owner fun task =>
          { task with
            asyncOperations := task.asyncOperations.modifyAt index (Operation.settle kind) }
        let w := if queued then w.modify op.peerTid (Task.withdraw op.id) else w
        w.wake owner

/-- `expire`. -/
def expire (now : Nat) : World := (w.tasks.map Task.id).foldl (fun w owner =>
    (List.range maxOperations).foldl (expireAt now owner) w) w

end World

end Cellos.AsyncIpc
