import Cellos.Lib

/-!
# Cellos.AsyncIpc.Task

The data of asynchronous IPC: wire messages (`task/ipc_wire.rs`), mailbox records
(`task/pending_mailbox.rs`), operation rows (`task/async_ipc.rs`), the part of a
task record these use (`task/tcb.rs`), the service registry
(`cell/service_registry.rs`) and the cell owner slots of the scheduler.

Whatever can fail for want of memory takes a `Bool` that says whether the
allocation is funded.
-/

namespace Cellos.AsyncIpc

open Lib Option

/-! ## bounds -/

def maxOperations : Nat := 64
def operationTimeoutTicks : Nat := 3000
def hotswapMsgQueueDepth : Nat := 64
def maxIpcWirePayload : Nat := 4096
def inlineMessageBytes : Nat := 32
def maxServices : Nat := 32
def isizeMax : Nat := 2 ^ 63 - 1
def u64Max : Nat := 2 ^ 64 - 1

/-- `u64::saturating_add`. -/
def saturatingAdd (a b : Nat) : Nat := min (a + b) u64Max

/-! ## wire messages -/

/-- Scalar sender identity of a message, with its delivery token. -/
structure IpcWireHeader where
  (senderTid senderCellId senderGeneration deliveryId : Nat)
  /-- Exact async operation token, or zero for every legacy send. -/
  asyncOp : Nat
deriving DecidableEq

/-- A kernel-owned message, never longer than the wire bound. -/
structure IpcWireMessage where
  header : IpcWireHeader
  payload : List UInt8
  bounded : payload.length ≤ maxIpcWirePayload

/-- What a copy from a user pointer finds: the bytes of the buffer, and, when the
copy faults, how many of them were transferred before. -/
structure UserBuffer where
  bytes : List UInt8
  fault : Option Nat

namespace IpcWireMessage

/-- `IpcWireMessage::try_new`.  An empty payload needs no allocation. -/
def tryNew (header : IpcWireHeader) (payload : List UInt8) (funded : Bool) :
    Option IpcWireMessage :=
  if h : payload.length ≤ maxIpcWirePayload then
    if payload.isEmpty || funded then some ⟨header, payload, h⟩ else none
  else none

/-- `IpcWireMessage::try_from_user`: a message only when the whole buffer was read. -/
def tryFromUser (header : IpcWireHeader) (buffer : UserBuffer) (funded : Bool) :
    Option IpcWireMessage :=
  match buffer.fault with
  | some _ => none
  | none => tryNew header buffer.bytes funded

theorem header_of_tryFromUser {header : IpcWireHeader} {buffer : UserBuffer} {funded : Bool}
    {message : IpcWireMessage} (h : tryFromUser header buffer funded = some message) :
    message.header = header := by
  unfold tryFromUser tryNew at h
  split at h
  · contradiction
  split at h
  · split at h
    · cases h
      rfl
    · contradiction
  · contradiction

/-- `IpcWireMessage::try_clone`. -/
def tryClone (message : IpcWireMessage) (funded : Bool) : Option IpcWireMessage :=
  if message.payload.isEmpty || funded then some message else none

/-- Overwrite the front of the payload, `as_mut_slice()[..len]`. -/
def writeFront (message : IpcWireMessage) (bytes : List UInt8)
    (h : bytes.length ≤ maxIpcWirePayload) : IpcWireMessage where
  header := message.header
  payload := bytes ++ message.payload.drop bytes.length
  bounded := by
    have := message.bounded
    rw [List.length_append, List.length_drop]
    omega

/-- An empty payload buffer of full length, for a reply that has not arrived. -/
def blank (header : IpcWireHeader) : IpcWireMessage where
  header := header
  payload := List.replicate maxIpcWirePayload 0
  bounded := Nat.le_of_eq List.length_replicate

end IpcWireMessage

/-! ## mailbox records -/

/-- Owned message bytes: short ones inline, long ones charged to a cell. -/
inductive PendingMsgData
  | inline (bytes : List UInt8)
  | heap (bytes : List UInt8) (allocationCell : Nat)

namespace PendingMsgData

/-- `PendingMsgData::try_copy`: only a long payload needs an allocation. -/
def tryCopy (data : List UInt8) (allocationCell : Nat) (funded : Bool) : Option PendingMsgData :=
  if data.length ≤ inlineMessageBytes then some (.inline data)
  else if funded then some (.heap data allocationCell) else none

def empty : PendingMsgData := .inline []

def asSlice : PendingMsgData → List UInt8
  | .inline bytes => bytes
  | .heap bytes _ => bytes

end PendingMsgData

/-- A message buffered until the receiver takes it. -/
structure PendingMsg where
  senderTid : Nat
  data : PendingMsgData
  wire : Option IpcWireMessage
  enqueuedTick : Nat

namespace PendingMsg

variable (msg : PendingMsg)

/-- Payload bytes, preferring the kernel-owned wire buffer. -/
def payload : List UInt8 :=
  match msg.wire with
  | some message => message.payload
  | none => msg.data.asSlice

def wireHeader : Option IpcWireHeader := msg.wire.map IpcWireMessage.header

/-- `msg.wire_header().is_some_and(|header| header.async_op == token)`. -/
def carries (token : Nat) (msg : PendingMsg) : Bool :=
  msg.wireHeader.any fun header => header.asyncOp == token

/-- `msg.wire_header().is_some_and(|header| header.async_op != 0)`. -/
def isAsync : Bool := msg.wireHeader.any fun header => header.asyncOp != 0

/-- An async request of that exact sender. -/
def requestOf (owner : Nat) (binding : Nat × Nat) (msg : PendingMsg) : Bool :=
  msg.wireHeader.any fun header => header.asyncOp != 0 && header.senderTid == owner &&
    (header.senderCellId, header.senderGeneration) == binding

/-- The async operation the message is the request of. -/
def token : Option Nat :=
  msg.wireHeader.bind fun header => if header.asyncOp = 0 then none else some header.asyncOp

variable {msg : PendingMsg}

theorem carries_iff (hk : k ≠ 0) : msg.carries k = true ↔ msg.token = some k := by
  unfold carries token
  cases msg.wireHeader with
  | none => simp
  | some =>
    simp only [any_some, beq_iff_eq, bind_some]
    split
    · next h0 => simp only [h0, reduceCtorEq, iff_false]; exact fun h => hk h.symm
    · next h0 => simp

theorem token_eq_some_iff :
    msg.token = some k ↔ ∃ header, msg.wireHeader = some header ∧ header.asyncOp = k ∧ k ≠ 0 := by
  unfold token
  cases msg.wireHeader with
  | none => simp
  | some =>
    simp only [bind_some, some.injEq, exists_eq_left']
    split
    · next h0 => simp only [reduceCtorEq, false_iff, not_and, not_not]; intro h; omega
    · next h0 => simp only [some.injEq]; constructor <;> intro h <;> omega

theorem isAsync_eq_false_iff : msg.isAsync = false ↔ msg.token = none := by
  unfold isAsync token
  cases msg.wireHeader with
  | none | some => simp

end PendingMsg

/-! ## operations -/

/-- Terminal outcomes, `api::syscall::ipc_status`. -/
inductive IpcStatus
  | reply
  | peerGone
  | preDispatchTimeout
  | indeterminate
  | cancelled
deriving DecidableEq

/-- The outcome as the ABI encodes it. -/
def IpcStatus.code : IpcStatus → Nat
  | .reply => 0
  | .peerGone => 1
  | .preDispatchTimeout => 2
  | .indeterminate => 3
  | .cancelled => 4

inductive Phase
  | queued
  | dispatched
  | terminal (kind : IpcStatus) (len : Nat)
deriving DecidableEq

namespace Phase

def isTerminal : Phase → Bool
  | .terminal _ _ => true
  | _ => false

/-- Length of the result a phase exposes. -/
def len : Phase → Nat
  | .terminal _ len => len
  | _ => 0

end Phase

/-- One request with the room for its reply, reserved in full before the request is accepted. -/
structure Operation where
  (id ownerCell ownerGeneration ownerTid consumerTid peerTid peerCell peerGeneration : Nat)
  deadline : Nat
  phase : Phase
  reply : IpcWireMessage
  reserved : reply.payload.length = maxIpcWirePayload
  fits : phase.len ≤ maxIpcWirePayload

namespace Operation

variable (op : Operation)

def ownerBinding : Nat × Nat := (op.ownerCell, op.ownerGeneration)

def peerBinding : Nat × Nat := (op.peerCell, op.peerGeneration)

/-- `op.phase = Phase::Dispatched`. -/
def markDispatched : Operation :=
  { op with phase := .dispatched, fits := Nat.zero_le _ }

/-- `op.phase = Phase::Terminal { kind, len: 0 }`. -/
def settle (kind : IpcStatus) (op : Operation) : Operation :=
  { op with phase := .terminal kind 0, fits := Nat.zero_le _ }

/-- Bytes copied to the front of the reserved reply. -/
def writeReply (bytes : List UInt8) (h : bytes.length ≤ maxIpcWirePayload) : Operation :=
  { op with
    reply := op.reply.writeFront bytes h
    reserved := by
      have := op.reserved
      unfold IpcWireMessage.writeFront
      rw [List.length_append, List.length_drop]
      omega }

/-- A complete reply. -/
def answer (bytes : List UInt8) (h : bytes.length ≤ maxIpcWirePayload) : Operation :=
  { op.writeReply bytes h with phase := .terminal .reply bytes.length, fits := h }

/-- `&op.reply.as_slice()[..len]` of a terminal operation. -/
def data : List UInt8 := op.reply.payload.take op.phase.len

end Operation

/-- Why a call was refused. -/
inductive Failure
  | busy
  | peerGone
  | invalid
  | tooSmall
deriving DecidableEq

/-- The operations of one task, at most `maxOperations` of them. -/
structure Operations where
  rows : List Operation
  bounded : rows.length ≤ maxOperations

namespace Operations

def new : Operations := ⟨[], Nat.zero_le _⟩

variable (ops : Operations)

def len : Nat := ops.rows.length

def find (id : Nat) : Option Operation := ops.rows.find? (·.id == id)

/-- Write through `find_mut(id)`. -/
def modify (id : Nat) (f : Operation → Operation) : Operations :=
  ⟨updateFirst (·.id == id) f ops.rows, by rw [length_updateFirst]; exact ops.bounded⟩

/-- Write through `get_mut(index)`. -/
def modifyAt (index : Nat) (f : Operation → Operation) : Operations :=
  ⟨ops.rows.modify index f, by rw [List.length_modify]; exact ops.bounded⟩

/-- Write to every row. -/
def map (f : Operation → Operation) : Operations :=
  ⟨ops.rows.map f, by rw [List.length_map]; exact ops.bounded⟩

def remove (id : Nat) : Operations :=
  ⟨ops.rows.eraseP (·.id == id), Nat.le_trans List.length_eraseP_le ops.bounded⟩

/-- Refused when the table is full or cannot grow. -/
def push (op : Operation) (funded : Bool) : Except Failure Operations :=
  if h : ops.rows.length = maxOperations then .error .busy
  else if funded then
    .ok ⟨ops.rows ++ [op], by
      have := ops.bounded
      rw [List.length_append, List.length_singleton]
      omega⟩
  else .error .busy

theorem rows_of_push {ops : Operations} {op : Operation}
    (h : ops.push op funded = .ok ops') : ops'.rows = ops.rows ++ [op] := by
  unfold push at h
  split at h
  · contradiction
  split at h
  · cases h
    rfl
  · contradiction

def hasTerminal : Bool := ops.rows.any (·.phase.isTerminal)

end Operations

/-! ## tasks -/

/-- Scheduling states.  The ways to wait that asynchronous IPC does not look at are one state. -/
inductive TaskState
  | ready
  | running
  | sending (target deliveryId : Nat)
  | recv (mask : Nat) (deadline : Option Nat)
  | waitIpc (deadline : Option Nat)
  | waitNetRx
  | waiting
  | frozen (swapId : Nat)
  | retiring
  | terminated
deriving DecidableEq

/-- Whom a service is serving, and under which operation token. -/
structure CallerContext where
  currentCaller : Option Nat
  (currentCallerCellId currentCallerCellGeneration currentCallerRequestGeneration : Nat)
  (nextCallerRequestGeneration currentAsyncOp : Nat)

structure Task where
  (id cellId cellGeneration rootTid : Nat)
  /-- `supervisor_cap.is_some()`. -/
  supervisor : Bool
  state : TaskState
  asyncOperations : Operations
  pendingMsgs : List PendingMsg
  context : CallerContext
  hotswapReady : Bool
  hotswapSourceTid : Option Nat
  hotswapIngressClosed : Bool

/-- `fast_ipc::is_registered_vfs_cell`, with the registered handler cell. -/
def isRegisteredVfsCell (vfsCell cellId : Nat) : Bool := cellId != 0 && vfsCell == cellId

namespace Task

variable (task : Task)

/-- The cell incarnation the task belongs to. -/
def binding : Nat × Nat := (task.cellId, task.cellGeneration)

def live : Bool :=
  match task.state with
  | .retiring | .terminated => false
  | _ => true

/-- `Operation::owned_by`. -/
def owns (op : Operation) : Bool := op.ownerBinding == task.binding

/-- `Operation::can_consume`. -/
def canConsume (op : Operation) : Bool :=
  task.owns op && (op.consumerTid == task.id || op.ownerTid == task.id)

def setCurrentCallerContext (senderTid : Nat) (sender : Nat × Nat) : Task :=
  { task with context :=
    { currentCaller := some senderTid
      currentCallerCellId := sender.1
      currentCallerCellGeneration := sender.2
      currentCallerRequestGeneration := task.context.nextCallerRequestGeneration
      nextCallerRequestGeneration := saturatingAdd task.context.nextCallerRequestGeneration 1
      currentAsyncOp := 0 } }

/-- A VFS task keeps its outer caller through nested receives. -/
def setReceivedRequestContext (vfsCell senderTid : Nat) (sender : Nat × Nat) (token : Nat) : Task :=
  if isRegisteredVfsCell vfsCell task.cellId && task.context.currentCaller.isSome then task
  else
    let task := task.setCurrentCallerContext senderTid sender
    { task with context := { task.context with currentAsyncOp := token } }

def setReceivedCallerContext (vfsCell senderTid : Nat) (sender : Nat × Nat) : Task :=
  task.setReceivedRequestContext vfsCell senderTid sender 0

def clearCurrentCallerContext : Task :=
  { task with context :=
    { currentCaller := none
      currentCallerCellId := 0
      currentCallerCellGeneration := 0
      currentCallerRequestGeneration := 0
      nextCallerRequestGeneration := task.context.nextCallerRequestGeneration
      currentAsyncOp := 0 } }

def clearCurrentCallerContextIf (senderTid requestGeneration : Nat) : Task :=
  if task.context.currentCaller = some senderTid ∧
      task.context.currentCallerRequestGeneration = requestGeneration then
    task.clearCurrentCallerContext
  else task

/-- Drop a VFS task's public request context at a wildcard receive. -/
def beginReceiveContext (vfsCell mask : Nat) : Task :=
  if mask == 0 && isRegisteredVfsCell vfsCell task.cellId then task.clearCurrentCallerContext
  else task

/-- `queue_pending_msg`. -/
def queuePendingMsg (senderTid : Nat) (data : List UInt8) (maxDepth tick : Nat)
    (dataFunded slotFunded : Bool) : Option Task :=
  if maxDepth ≤ task.pendingMsgs.length then none
  else
    match PendingMsgData.tryCopy data task.cellId dataFunded with
    | none => none
    | some data =>
      if slotFunded then
        some { task with pendingMsgs := task.pendingMsgs ++ [⟨senderTid, data, none, tick⟩] }
      else none

/-- `queue_wire_msg`. -/
def queueWireMsg (message : IpcWireMessage) (maxDepth tick : Nat)
    (slotFunded : Bool) : Option Task :=
  if maxDepth ≤ task.pendingMsgs.length then none
  else if slotFunded then
    some { task with pendingMsgs := task.pendingMsgs ++
      [⟨message.header.senderTid, PendingMsgData.empty, some message, tick⟩] }
  else none

/-- Take the first message with the token out of the mailbox. -/
def withdraw (token : Nat) (task : Task) : Task :=
  { task with pendingMsgs := task.pendingMsgs.eraseP (PendingMsg.carries token) }

/-- Whether a task that receives with a mask takes messages of the sender. -/
def recvEligible (sender : Nat) : Bool :=
  match task.state with
  | .recv mask _ => mask == 0 || mask == sender
  | _ => false

/-- `wake_after_ipc_publish`. -/
def wakeAfterIpcPublish (eligible : Bool) : Task :=
  if eligible || task.state == .waitNetRx then { task with state := .ready } else task

end Task

/-! ## registry and owner slots -/

/-- A provider of a service, visible or paused for a swap. -/
inductive ServiceEntry
  | active (tid cellId generation : Nat)
  | paused (tid cellId generation : Nat)

def ServiceEntry.tid : ServiceEntry → Nat
  | .active tid _ _ => tid
  | .paused tid _ _ => tid

/-- `service_id → current provider`. -/
abbrev Registry := List (Nat × ServiceEntry)

namespace Registry

variable (registry : Registry)

def get (serviceId : Nat) : Option ServiceEntry := (registry.find? (·.1 == serviceId)).map Prod.snd

def insert (serviceId : Nat) (entry : ServiceEntry) : Registry :=
  (serviceId, entry) :: registry.filter (·.1 != serviceId)

def register (serviceId tid cellId generation : Nat) : Bool × Registry :=
  if tid = 0 then (false, registry)
  else if maxServices ≤ registry.length ∧ (registry.get serviceId).isNone then (false, registry)
  else (true, registry.insert serviceId (.active tid cellId generation))

def pause (serviceId expectedTid : Nat) : Bool × Registry :=
  match registry.get serviceId with
  | some (.active tid cellId generation) =>
    if tid = expectedTid then
      (true, registry.insert serviceId (.paused expectedTid cellId generation))
    else (false, registry)
  | some (.paused tid _ _) => (tid == expectedTid, registry)
  | none => (false, registry)

def commitPaused (serviceId oldTid newTid cellId generation : Nat) : Bool × Registry :=
  if newTid = 0 then (false, registry)
  else
    match registry.get serviceId with
    | some (.paused tid _ _) =>
      if tid = oldTid then (true, registry.insert serviceId (.active newTid cellId generation))
      else (false, registry)
    | _ => (false, registry)

def pausedMatches (serviceId expectedTid : Nat) : Bool :=
  match registry.get serviceId with
  | some (.paused tid _ _) => tid == expectedTid
  | _ => false

def isPausedTid (tid : Nat) : Bool := registry.any fun
    | (_, .paused provider _ _) => provider == tid
    | _ => false

def clearTid (tid : Nat) : Registry := registry.filter fun entry => entry.2.tid != tid

end Registry

/-- The lifetime record of a cell incarnation. -/
structure CellOwner where
  (cellId generation rootTid : Nat)
deriving DecidableEq

def CellOwner.isLive (owner : CellOwner) : Bool :=
  owner.cellId != 0 && owner.generation != 0 && owner.rootTid != 0

inductive CellOwnerSlot
  | empty
  | reserved (owner : CellOwner)
  | live (owner : CellOwner)
  | retiring (owner : CellOwner)
deriving DecidableEq

/-- Whether the task is a member of the incarnation. -/
def Task.memberOf (task : Task) (owner : CellOwner) : Bool :=
  task.cellId == owner.cellId && task.cellGeneration == owner.generation &&
    task.rootTid == owner.rootTid

end Cellos.AsyncIpc
