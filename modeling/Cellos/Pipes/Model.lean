import Cellos.Lib

/-!
# Cellos.Pipes.Model

Kernel pipes (`task/pipe.rs`) and the system calls that use them
(`Syscall::PipeRead`, `PipeWrite`, `PipeClose`, `PipeShare` in `task/syscall.rs`,
the pipe part of `exit_task` and of the deadline sweep in `task/scheduler.rs`).

A pipe call goes through several critical sections of the `SCHEDULER` and `PIPES`
locks, and other harts run between them.  One step is one critical section of one
task; `World.pcs` says where in a call each task is.

`exit_task` runs under `SCHEDULER`.  When the leaving task's endpoints have
waiters, `on_task_leaves` calls `wake_task`, which takes `SCHEDULER` again: the
hart waits for itself.  `World.stuck` records that; from then on no section that
needs `SCHEDULER` can be entered.
-/

namespace Cellos.Pipes

open Function

/-- Which end of a pipe a handle names. -/
inductive PipeEnd
  | read
  | write
deriving DecidableEq

/-- Pipe identity plus end kind. -/
structure PipeHandle where
  pipe : Nat
  side : PipeEnd
deriving DecidableEq

/-- Decode an ABI handle, `pipe << 1 | end`. -/
def PipeHandle.fromRaw (raw : Nat) : Option PipeHandle :=
  let pipe := raw >>> 1
  if pipe = 0 then none
  else some ⟨pipe, if raw &&& 1 = 1 then .write else .read⟩

/-! ## the ring -/

/-- A fixed-capacity ring with its endpoint counts and wait queues. -/
structure Pipe where
  buffer : List UInt8
  (head len readers writers : Nat)
  (readWaiters writeWaiters : List Nat)
  len_le : len ≤ buffer.length
  capacity_pos : 0 < buffer.length

/-- Store the bytes from ring position `i` on. -/
def storeAt (buffer : List UInt8) : Nat → List UInt8 → List UInt8
  | _, [] => buffer
  | i, byte :: bytes => storeAt (buffer.set (i % buffer.length) byte) (i + 1) bytes

@[simp] theorem length_storeAt (buffer : List UInt8) (i : Nat) (bytes : List UInt8) :
    (storeAt buffer i bytes).length = buffer.length := by
  induction bytes generalizing buffer i with
  | nil => rfl
  | cons _ _ ih => rw [storeAt, ih, List.length_set]

namespace Pipe

variable (p : Pipe)

def capacity : Nat := p.buffer.length

def isEmpty : Bool := p.len == 0

def isFull : Bool := p.len == p.capacity

/-- Copy `src` into the ring; the answer is how many bytes fit. -/
def write (src : List UInt8) : Nat × Pipe :=
  let count := min (p.capacity - p.len) src.length
  (count, { p with
    buffer := storeAt p.buffer (p.head + p.len) (src.take count)
    len := p.len + count
    len_le := by
      have := p.len_le
      rw [length_storeAt]
      unfold count capacity
      omega
    capacity_pos := by
      rw [length_storeAt]
      exact p.capacity_pos })

/-- Copy up to `n` bytes out of the ring. -/
def read (n : Nat) : List UInt8 × Pipe :=
  let count := min p.len n
  ((List.range count).map fun offset => p.buffer.getD ((p.head + offset) % p.capacity) 0, { p with
    head := (p.head + count) % p.capacity
    len := p.len - count
    len_le := by
      have := p.len_le
      omega })

/-- The queue of tasks that wait at an end. -/
def waiters : PipeEnd → List Nat
  | .read => p.readWaiters
  | .write => p.writeWaiters

def setWaiters (waiters : List Nat) : PipeEnd → Pipe
  | .read => { p with readWaiters := waiters }
  | .write => { p with writeWaiters := waiters }

/-- Endpoints of a kind that are open. -/
def ends : PipeEnd → Nat
  | .read => p.readers
  | .write => p.writers

def setEnds (n : Nat) : PipeEnd → Pipe
  | .read => { p with readers := n }
  | .write => { p with writers := n }

/-- Remove a task from the queue of an end. -/
def retain (side : PipeEnd) (tid : Nat) : Pipe :=
  p.setWaiters ((p.waiters side).filter fun queued => queued ≠ tid) side

/-- The part `close_end` and `on_task_leaves` share: one endpoint less, and the
caller leaves its queue. -/
def dropEnd (side : PipeEnd) (tid : Nat) : Pipe :=
  (p.setEnds (p.ends side - 1) side).retain side tid

end Pipe

/-- The other end. -/
def PipeEnd.other : PipeEnd → PipeEnd
  | .read => .write
  | .write => .read

/-! ## critical sections of `PIPES` -/

/-- The pipe table. -/
abbrev PipeMap := Nat → Option Pipe

/-- Both ends are gone. -/
def Pipe.dead (p : Pipe) : Bool := p.readers == 0 && p.writers == 0

variable (pipes : PipeMap) (handle : PipeHandle)

/-- Duplicate an existing end for another task. -/
def duplicateEnd : Bool × PipeMap :=
  match pipes handle.pipe with
  | none => (false, pipes)
  | some p =>
    (true, update pipes handle.pipe (some (p.setEnds (p.ends handle.side + 1) handle.side)))

/-- Close one end; the pipe goes with its last end. -/
def closeEnd (tid : Nat) : PipeMap :=
  match pipes handle.pipe with
  | none => pipes
  | some p =>
    let p := p.dropEnd handle.side tid
    update pipes handle.pipe (if p.dead then none else some p)

/-- Result of a write attempt; `wrote` carries the drained readers. -/
inductive WriteOutcome
  | wrote (count : Nat) (waiters : List Nat)
  | full
  | noReader

/-- Try to write into the pipe; `none` when it is gone. -/
def tryWrite (src : List UInt8) (tid : Nat) : Option (WriteOutcome × PipeMap) :=
  match pipes handle.pipe with
  | none => none
  | some p =>
    if p.readers = 0 then
      some (.noReader, update pipes handle.pipe (some (p.retain .write tid)))
    else if p.isFull then some (.full, pipes)
    else
      let (written, p') := p.write src
      some (.wrote written p.readWaiters,
        update pipes handle.pipe (some { p' with readWaiters := [] }))

/-- Result of a read attempt; `read` carries the drained writers. -/
inductive ReadOutcome
  | read (bytes : List UInt8) (waiters : List Nat)
  | eof
  | empty

/-- Try to read from the pipe; `none` when it is gone. -/
def tryRead (n tid : Nat) : Option (ReadOutcome × PipeMap) :=
  match pipes handle.pipe with
  | none => none
  | some p =>
    if !p.isEmpty then
      let (bytes, p') := p.read n
      some (.read bytes p.writeWaiters,
        update pipes handle.pipe (some { p' with writeWaiters := [] }))
    else if p.writers = 0 then
      some (.eof, update pipes handle.pipe (some (p.retain .read tid)))
    else some (.empty, pipes)

/-- Queue a task at an end, once. -/
def parkAt (side : PipeEnd) (pipes : PipeMap) (handle : PipeHandle) (tid : Nat) : PipeMap :=
  match pipes handle.pipe with
  | none => pipes
  | some p =>
    if (p.waiters side).contains tid then pipes
    else update pipes handle.pipe (some (p.setWaiters (p.waiters side ++ [tid]) side))

/-- Park `tid` as a reader. -/
def parkReader := parkAt .read

/-- Park `tid` as a writer. -/
def parkWriter := parkAt .write

/-- Close one endpoint of a leaving task: with the last one of its kind, the queue
of the other end is drained. -/
def leaveEnd (acc : List Nat × PipeMap) (tid : Nat) (handle : PipeHandle) : List Nat × PipeMap :=
  match acc.2 handle.pipe with
  | none => acc
  | some p =>
    let p := p.dropEnd handle.side tid
    if p.ends handle.side = 0 then
      (acc.1 ++ p.waiters handle.side.other,
        update acc.2 handle.pipe (some (p.setWaiters [] handle.side.other)))
    else (acc.1, update acc.2 handle.pipe (some p))

/-- Drop every endpoint a dying task owned, and every pipe without ends.  The
first part of the answer is the tasks to wake. -/
def onTaskLeaves (tid : Nat) (owned : List PipeHandle) : List Nat × PipeMap :=
  let (toWake, pipes) := owned.foldl (fun acc handle => leaveEnd acc tid handle) ([], pipes)
  (toWake, fun id => (pipes id).filter fun p => !p.dead)

/-- Take a task whose deadline elapsed out of its queue. -/
def onDeadline (tid : Nat) (side : PipeEnd) : PipeMap :=
  match pipes handle.pipe with
  | none => pipes
  | some p => update pipes handle.pipe (some (p.retain side tid))

/-! ## tasks and contexts -/

/-- The scheduling state of a task, as far as pipes go: `ready` stands for every
state in which it is not blocked in a pipe call. -/
inductive TaskState
  | ready
  | retiring
  | pipeRead (handle : PipeHandle) (deadline : Option Nat)
  | pipeWrite (handle : PipeHandle) (deadline : Option Nat)
deriving DecidableEq

/-- Blocked in a pipe call. -/
def TaskState.parked : TaskState → Bool
  | .pipeRead _ _ => true
  | .pipeWrite _ _ => true
  | _ => false

structure Task where
  state : TaskState
  /-- Latest first; the `BTreeSet` of the source is sorted, so an exit releases ends in another
  order there. -/
  pipeHandles : List PipeHandle

inductive SyscallError
  | invalidInput
  | permissionDenied
  | brokenPipe
deriving DecidableEq

abbrev SyscallResult := Except SyscallError Nat

/-- Where a task is in a pipe call, between two critical sections. -/
inductive Pc
  | user
  /-- About to try a read, also after a park. -/
  | reading (handle : PipeHandle) (count : Nat) (deadline : Option Nat)
  /-- Saw the ring empty and is about to park. -/
  | readEmpty (handle : PipeHandle) (count : Nat) (deadline : Option Nat)
  /-- About to try a write, also after a park. -/
  | writing (handle : PipeHandle) (src : List UInt8) (deadline : Option Nat)
  /-- Saw the ring full and is about to park. -/
  | writeFull (handle : PipeHandle) (src : List UInt8) (deadline : Option Nat)
  /-- Drained a queue and has yet to wake these tasks. -/
  | waking (waiters : List Nat) (result : SyscallResult)
  /-- A zero-length write that passed the ownership check. -/
  | zeroWrite (handle : PipeHandle)
  /-- Took the handle out of its table and has yet to close the end. -/
  | closing (handle : PipeHandle)

structure World where
  pipes : PipeMap
  tasks : Nat → Option Task
  pcs : Nat → Pc
  /-- A hart holds `SCHEDULER` and waits for it. -/
  stuck : Bool

namespace World

variable (w : World) (tid : Nat)

def setTask (task : Task) : World :=
  { w with tasks := update w.tasks tid (some task) }

def setPc (pc : Pc) : World :=
  { w with pcs := update w.pcs tid pc }

/-- A context executes unless its task is blocked.  A task that was killed may
still be executing on its hart. -/
def canRun : Bool :=
  match w.tasks tid with
  | none => true
  | some task => !task.state.parked

def ownsPipe (handle : PipeHandle) : Bool :=
  match w.tasks tid with
  | none => false
  | some task => task.pipeHandles.contains handle

/-- Take a handle out of a task's table; the flag says whether it was there. -/
def removeHandle (handle : PipeHandle) : Bool × World :=
  match w.tasks tid with
  | none => (false, w)
  | some task =>
    (task.pipeHandles.contains handle,
      w.setTask tid { task with pipeHandles := task.pipeHandles.filter fun h => h ≠ handle })

/-- Wake a task, if it is still there. -/
def wakeTask : World :=
  match w.tasks tid with
  | none => w
  | some task => w.setTask tid { task with state := .ready }

end World

/-- What a section answers: the result of the call when it ends with it. -/
abbrev Response := Option SyscallResult

def chunk : Nat := 512

def deadlineOf (timeoutTicks now : Nat) : Option Nat :=
  if timeoutTicks = 0 then none else some (now + timeoutTicks)

/-- The deadline has passed. -/
def elapsed (deadline : Option Nat) (now : Nat) : Bool := deadline.any fun d => d ≤ now

/-! ## the sections of the calls -/

namespace World

variable (w : World) (tid : Nat)

/-- The call of `tid` ends. -/
def finish (result : SyscallResult) : Response × World := (some result, w.setPc tid .user)

/-- The call of `tid` ends, once the drained tasks are woken. -/
def finishWaking (waiters : List Nat) (result : SyscallResult) : Response × World :=
  match waiters with
  | [] => w.finish tid result
  | _ :: _ => (none, w.setPc tid (.waking waiters result))

/-- `PipeRead` up to its first read attempt: the ownership check. -/
def pipeRead (raw len timeoutTicks now : Nat) : Response × World :=
  match PipeHandle.fromRaw raw with
  | none => w.finish tid (.error .invalidInput)
  | some handle =>
    if handle.side ≠ .read ∨ !w.ownsPipe tid handle then w.finish tid (.error .permissionDenied)
    else if len = 0 then w.finish tid (.ok 0)
    else (none, w.setPc tid (.reading handle (min len chunk) (deadlineOf timeoutTicks now)))

variable (handle : PipeHandle)

/-- One read attempt.  `copyOut` is the error of the copy to the caller, if it fails. -/
def readAttempt (count : Nat) (deadline : Option Nat)
    (copyOut : Option SyscallError) : Response × World :=
  match tryRead w.pipes handle count tid with
  | none => w.finish tid (.error .invalidInput)
  | some (.read bytes waiters, pipes) =>
    { w with pipes }.finishWaking tid waiters (match copyOut with
        | none => .ok bytes.length
        | some error => .error error)
  | some (.eof, pipes) => { w with pipes }.finish tid (.ok 0)
  | some (.empty, pipes) => (none, { w with pipes }.setPc tid (.readEmpty handle count deadline))

/-- Park after an empty ring, unless the deadline has passed. -/
def parkRead (count : Nat) (deadline : Option Nat) (now : Nat) : Response × World :=
  if elapsed deadline now then w.finish tid (.ok 0)
  else
    match w.tasks tid with
    | none => w.finish tid (.error .permissionDenied)
    | some task =>
      (none, ({ w with pipes := parkReader w.pipes handle tid }.setTask tid
        { task with state := .pipeRead handle deadline }).setPc tid (.reading handle count deadline))

/-- `PipeWrite` up to its first write attempt.  `copyIn` says whether the caller's
bytes could be read. -/
def pipeWrite (raw : Nat) (src : List UInt8) (copyIn : Bool) (timeoutTicks now : Nat) :
    Response × World :=
  match PipeHandle.fromRaw raw with
  | none => w.finish tid (.error .invalidInput)
  | some handle =>
    if handle.side ≠ .write ∨ !w.ownsPipe tid handle then w.finish tid (.error .permissionDenied)
    else if src = [] then (none, w.setPc tid (.zeroWrite handle))
    else if !copyIn then w.finish tid (.error .invalidInput)
    else (none, w.setPc tid (.writing handle (src.take chunk) (deadlineOf timeoutTicks now)))

/-- One write attempt. -/
def writeAttempt (src : List UInt8) (deadline : Option Nat) : Response × World :=
  match tryWrite w.pipes handle src tid with
  | none => w.finish tid (.error .invalidInput)
  | some (.wrote count waiters, pipes) => { w with pipes }.finishWaking tid waiters (.ok count)
  | some (.noReader, pipes) => { w with pipes }.finish tid (.error .brokenPipe)
  | some (.full, pipes) => (none, { w with pipes }.setPc tid (.writeFull handle src deadline))

/-- Park after a full ring, unless the deadline has passed. -/
def parkWrite (src : List UInt8) (deadline : Option Nat) (now : Nat) : Response × World :=
  if elapsed deadline now then w.finish tid (.ok 0)
  else
    match w.tasks tid with
    | none => w.finish tid (.error .permissionDenied)
    | some task =>
      (none, ({ w with pipes := parkWriter w.pipes handle tid }.setTask tid
        { task with state := .pipeWrite handle deadline }).setPc tid (.writing handle src deadline))

/-- A zero-length write takes the handle out of the table, whether it is still
there or not. -/
def zeroWriteRemove : Response × World :=
  (none, (w.removeHandle tid handle).2.setPc tid (.closing handle))

/-- `PipeClose` up to the close of the end. -/
def pipeClose (raw : Nat) : Response × World :=
  match PipeHandle.fromRaw raw with
  | none => w.finish tid (.error .invalidInput)
  | some handle =>
    match w.removeHandle tid handle with
    | (false, w) => w.finish tid (.error .permissionDenied)
    | (true, w) => (none, w.setPc tid (.closing handle))

/-- Close the end of a handle that left its table. -/
def closeStep : Response × World :=
  { w with pipes := closeEnd w.pipes handle tid }.finish tid (.ok 0)

/-- `PipeShare`: duplicate an end into another task's table. -/
def pipeShare (raw targetTid : Nat) : Response × World :=
  match PipeHandle.fromRaw raw with
  | none => w.finish tid (.error .invalidInput)
  | some handle =>
    if !w.ownsPipe tid handle then w.finish tid (.error .permissionDenied)
    else
      match w.tasks targetTid with
      | none => w.finish tid (.error .invalidInput)
      | some target =>
        if target.pipeHandles.contains handle then w.finish tid (.ok 0)
        else
          match duplicateEnd w.pipes handle with
          | (false, _) => w.finish tid (.error .invalidInput)
          | (true, pipes) =>
            ({ w with pipes }.setTask targetTid
              { target with pipeHandles := handle :: target.pipeHandles }).finish tid (.ok 0)

/-- The pipe part of `exit_task`.  A member of a root that retires stays in the
table as `retiring`; any other task is removed. -/
def exitTask (member : Bool) : Response × World :=
  match w.tasks tid with
  | none => (none, w)
  | some task =>
    if task.state = .retiring then (none, w)
    else
      match onTaskLeaves w.pipes tid task.pipeHandles with
      | ([], pipes) =>
        (none, { w with
          pipes := if task.pipeHandles = [] then w.pipes else pipes
          tasks := update w.tasks tid
            (if member then some { state := .retiring, pipeHandles := [] } else none) })
      | (_ :: _, pipes) => (none, { w with pipes, stuck := true })

/-- The pipe part of the deadline sweep, for one task. -/
def expire (now : Nat) : Option (Response × World) :=
  match w.tasks tid with
  | some ⟨.pipeRead handle deadline, handles⟩ =>
    if elapsed deadline now then
      some (none, { w with pipes := onDeadline w.pipes handle tid .read }.setTask tid ⟨.ready, handles⟩)
    else none
  | some ⟨.pipeWrite handle deadline, handles⟩ =>
    if elapsed deadline now then
      some (none, { w with pipes := onDeadline w.pipes handle tid .write }.setTask tid ⟨.ready, handles⟩)
    else none
  | _ => none

end World

/-! ## steps -/

/-- One critical section of one task. -/
inductive Op
  | pipeRead (tid raw len timeoutTicks now : Nat)
  | tryRead (tid : Nat) (copyOut : Option SyscallError)
  | parkRead (tid now : Nat)
  | pipeWrite (tid raw : Nat) (src : List UInt8) (copyIn : Bool) (timeoutTicks now : Nat)
  | tryWrite (tid : Nat)
  | parkWrite (tid now : Nat)
  | zeroWrite (tid : Nat)
  | pipeClose (tid raw : Nat)
  | closeEnd (tid : Nat)
  | pipeShare (tid raw targetTid : Nat)
  /-- Wake the next task of a drained queue. -/
  | wake (tid : Nat)
  | exit (tid : Nat) (member : Bool)
  | expire (tid now : Nat)
  /-- A task that left is switched away from where it blocked, and never resumed. -/
  | switchAway (tid : Nat)

/-- The section takes `SCHEDULER`. -/
def Op.takesScheduler : Op → Bool
  | .tryRead .. | .tryWrite .. | .closeEnd .. | .switchAway .. => false
  | _ => true

/-- The task has left the scheduler. -/
def World.left (w : World) (tid : Nat) : Bool :=
  match w.tasks tid with
  | none => true
  | some task => task.state == .retiring

/-- The section, for a context that executes. -/
def World.act (w : World) : Op → Option (Response × World)
  | .pipeRead tid raw len timeoutTicks now =>
    match w.pcs tid with
    | .user => some (w.pipeRead tid raw len timeoutTicks now)
    | _ => none
  | .tryRead tid copyOut =>
    match w.pcs tid with
    | .reading handle count deadline => some (w.readAttempt tid handle count deadline copyOut)
    | _ => none
  | .parkRead tid now =>
    match w.pcs tid with
    | .readEmpty handle count deadline => some (w.parkRead tid handle count deadline now)
    | _ => none
  | .pipeWrite tid raw src copyIn timeoutTicks now =>
    match w.pcs tid with
    | .user => some (w.pipeWrite tid raw src copyIn timeoutTicks now)
    | _ => none
  | .tryWrite tid =>
    match w.pcs tid with
    | .writing handle src deadline => some (w.writeAttempt tid handle src deadline)
    | _ => none
  | .parkWrite tid now =>
    match w.pcs tid with
    | .writeFull handle src deadline => some (w.parkWrite tid handle src deadline now)
    | _ => none
  | .zeroWrite tid =>
    match w.pcs tid with
    | .zeroWrite handle => some (w.zeroWriteRemove tid handle)
    | _ => none
  | .pipeClose tid raw =>
    match w.pcs tid with
    | .user => some (w.pipeClose tid raw)
    | _ => none
  | .closeEnd tid =>
    match w.pcs tid with
    | .closing handle => some (w.closeStep tid handle)
    | _ => none
  | .pipeShare tid raw targetTid =>
    match w.pcs tid with
    | .user => some (w.pipeShare tid raw targetTid)
    | _ => none
  | .wake tid =>
    match w.pcs tid with
    | .waking (waiter :: waiters) result => some ((w.wakeTask waiter).finishWaking tid waiters result)
    | _ => none
  | .switchAway tid =>
    match w.pcs tid with
    | .reading .. | .writing .. => if w.left tid then some (none, w.setPc tid .user) else none
    | _ => none
  -- these two are done to a task, not by it
  | .exit tid member => some (w.exitTask tid member)
  | .expire tid now => w.expire tid now

/-- The task whose context executes the section, if it is the task's own. -/
def Op.actor : Op → Option Nat
  | .exit .. | .expire .. => none
  | .pipeRead tid .. | .tryRead tid _ | .parkRead tid _ | .pipeWrite tid .. | .tryWrite tid
  | .parkWrite tid _ | .zeroWrite tid | .pipeClose tid _ | .closeEnd tid | .pipeShare tid ..
  | .wake tid | .switchAway tid => some tid

/-- One critical section; `none` when it cannot be entered. -/
def step (w : World) (op : Op) : Option (Response × World) :=
  if w.stuck && op.takesScheduler then none
  else if op.actor.any fun tid => !w.canRun tid then none
  else w.act op

/-- Where a parked context will resume. -/
def Pc.atRetry : Pc → Bool
  | .reading .. => true
  | .writing .. => true
  | _ => false

/-- No step is in progress: every context is out of its pipe call, or blocked in it. -/
def World.Quiescent (w : World) : Prop := w.stuck = false ∧ ∀ tid, w.pcs tid = .user ∨
    ((w.pcs tid).atRetry = true ∧ ∃ task, w.tasks tid = some task ∧ task.state.parked = true)

/-- Nothing has happened yet: no queue has a waiter, no task is parked, and no
call is in progress. -/
structure World.Idle (w : World) : Prop where
  queues : ∀ id p, w.pipes id = some p → p.readWaiters = [] ∧ p.writeWaiters = []
  tasks : ∀ tid task, w.tasks tid = some task → task.state.parked = false
  pcs : ∀ tid, w.pcs tid = .user
  free : w.stuck = false

end Cellos.Pipes
