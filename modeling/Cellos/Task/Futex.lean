import Cellos.Lib

/-!
# Cellos.Task.Futex

Futex waits (`task/futex.rs`), with steps of other modules that take a task out of one: the
deadline sweep and `exit_task` of `task/scheduler.rs`, and freezing and unfreezing of
`cell/hotswap.rs`.  `wake_task` and `ipc_reply`, which may wake a parked task and leave its
queue entry behind, are not among the steps.

A parked task is recorded in its own state and in the queue of the key it waits on.  `wake`
takes its candidates off the queue and skips those that are no longer parked, but a skipped
one has used up a part of the count.

One step is one critical section of the scheduler lock.  A call of `wait` has three: it
parks, after it was resumed it reads its outcome, and it drops its queue entry.  `ticket`
numbers the parks.
-/

namespace Cellos.Futex

open Lib Function

/-- `FutexKey`. -/
structure FutexKey where
  (space generation addr : Nat)
deriving DecidableEq

/-- `CellOwner`. -/
structure CellOwner where
  (cellId generation rootTid : Nat)
deriving DecidableEq

inductive CellOwnerSlot where
  | empty
  | live (owner : CellOwner)
  | retiring (owner : CellOwner)
deriving DecidableEq

/-- What `wait` returns. -/
inductive Outcome where
  | woken | valueMismatch | timedOut
deriving DecidableEq

/-- `TaskState`; `blocked` stands for the other states in which a task waits. -/
inductive TaskState where
  | ready
  | running
  | blocked
  | futexWait (key : FutexKey) (deadline : Option Nat)
  | frozen (swapId : Nat)
  | retiring
deriving DecidableEq

def TaskState.isFrozen : TaskState → Bool
  | .frozen _ => true
  | _ => false

structure Task where
  owner : CellOwner
  isCritical : Bool
  state : TaskState
  /-- Register 10 of the trap frame, in which a waker leaves the outcome. -/
  outcome : Outcome
  /-- The number of the task's last park. -/
  ticket : Nat

/-- Where a task is in a call of `wait`. -/
inductive Call where
  | none
  | parked (key : FutexKey)
  | leaving (key : FutexKey) (outcome : Outcome)
deriving DecidableEq

structure World where
  tasks : Nat → Option Task
  waiters : FutexKey → List Nat
  slots : Nat → CellOwnerSlot
  /-- `SWAP_CEILINGS` has a record of the task. -/
  ceilings : Nat → Bool
  calls : Nat → Call
  parks : Nat

def boot : World where
  tasks := fun _ => none
  waiters := fun _ => []
  slots := fun _ => .empty
  ceilings := fun _ => false
  calls := fun _ => .none
  parks := 0

namespace World

variable (w : World) (key : FutexKey) (tid : Nat)

def setTask (task : Option Task) : World :=
  { w with tasks := update w.tasks tid task }

def setCall (call : Call) : World :=
  { w with calls := update w.calls tid call }

/-! ## the waiter queues -/

/-- `enqueue`. -/
def enqueue : World :=
  if tid ∈ w.waiters key then w
  else { w with waiters := update w.waiters key (w.waiters key ++ [tid]) }

/-- `remove_waiter`. -/
def removeWaiter : World :=
  { w with waiters := update w.waiters key ((w.waiters key).filter (· ≠ tid)) }

/-- `on_task_leaves_wait`. -/
def onTaskLeavesWait : World :=
  { w with waiters := fun key => (w.waiters key).filter (· ≠ tid) }

/-- `take_waiters`: up to `count` of them, and all of them when `count` is zero. -/
def takeWaiters (count : Nat) : List Nat × World :=
  let n := if count = 0 then (w.waiters key).length else count
  ((w.waiters key).take n,
    { w with waiters := update w.waiters key ((w.waiters key).drop n) })

/-! ## waiting and waking -/

/-- The critical section of `wait` that parks the caller, when the word still has the
expected value. -/
def park (caller : Nat) (task : Task) (key : FutexKey) (deadline : Option Nat) : World :=
  let w := (w.enqueue key caller).setCall caller (.parked key)
  { w.setTask caller (some { task with
      state := .futexWait key deadline
      outcome := .woken
      ticket := w.parks }) with
    parks := w.parks + 1 }

/-- The task is parked on the key. -/
def parkedOn : Bool := (w.tasks tid).any fun task =>
    match task.state with
    | .futexWait k _ => k = key
    | _ => false

/-- A task as a waker leaves it. -/
def readied (outcome : Outcome) (task : Task) : Task := { task with state := .ready, outcome }

/-- One turn of the loop of `wake`. -/
def wakeOne (acc : Nat × World) (tid : Nat) : Nat × World :=
  if acc.2.parkedOn key tid then
    (acc.1 + 1, acc.2.setTask tid ((acc.2.tasks tid).map (readied .woken)))
  else acc

/-- `wake`, for a caller that has a task record. -/
def wake (count : Nat) : Nat × World :=
  let (candidates, w) := w.takeWaiters key count
  candidates.foldl (wakeOne key) (0, w)

/-! ## other ways out of a wait -/

/-- The task is parked on the key and its deadline has passed. -/
def expired (now : Nat) (key : FutexKey) (tid : Nat) : Bool := (w.tasks tid).any fun task =>
    match task.state with
    | .futexWait k (some deadline) => k = key ∧ deadline ≤ now
    | _ => false

/-- The futex arm of the global sweep: `on_deadline` for every task whose deadline passed. -/
def sweep (now : Nat) : World where
  tasks := fun tid => (w.tasks tid).map fun task =>
    match task.state with
    | .futexWait _ (some deadline) => if deadline ≤ now then readied .timedOut task else task
    | _ => task
  waiters := fun key => (w.waiters key).filter fun tid => w.expired now key tid = false
  slots := w.slots
  ceilings := w.ceilings
  calls := w.calls
  parks := w.parks

/-- `resolve_live_cell_owner`. -/
def resolveLiveCellOwner (cellId generation : Nat) : Option CellOwner :=
  match w.slots cellId with
  | .live owner =>
    if owner.cellId = cellId ∧ owner.generation = generation ∧
        (w.tasks owner.rootTid).any (fun root => root.owner = owner) then some owner
    else none
  | _ => none

/-- The task is a participant that `retire_cell_incarnation_participants` retires. -/
def retires (owner : CellOwner) (trigger tid : Nat) : Bool :=
  tid ≠ trigger ∧ (w.tasks tid).any fun task => task.owner = owner ∧ task.state ≠ .retiring

/-- `retire_cell_incarnation_participants`: the owner's slot is retiring, and every other
task of the owner goes through `exit_task`, which leaves it as a tombstone. -/
def retireParticipants (owner : CellOwner) (trigger : Nat) : World where
  tasks := fun tid => (w.tasks tid).map fun task =>
    if w.retires owner trigger tid then { task with state := .retiring } else task
  waiters := fun key => (w.waiters key).filter fun tid => w.retires owner trigger tid = false
  slots := update w.slots owner.cellId (.retiring owner)
  ceilings := fun tid => if w.retires owner trigger tid then false else w.ceilings tid
  calls := w.calls
  parks := w.parks

/-- The end of `exit_task`: the record of a retiring owner's task stays until the reaper
comes, any other goes. -/
def dropTask (task : Task) : World :=
  let record := if w.slots task.owner.cellId = .retiring task.owner then
    some { task with state := .retiring } else none
  { w.setTask tid record with ceilings := update w.ceilings tid false }

/-- `exit_task`. -/
def exitTask : World :=
  match w.tasks tid with
  | none => { w.onTaskLeavesWait tid with ceilings := update w.ceilings tid false }
  | some task =>
    if task.state = .retiring then w
    else
      let w := w.onTaskLeavesWait tid
      let rootOwner := if task.owner.rootTid = tid then
        w.resolveLiveCellOwner task.owner.cellId task.owner.generation else none
      match rootOwner with
      | some owner => (w.retireParticipants owner tid).dropTask tid task
      | none => w.dropTask tid task

/-- `retire_deferred_fault`: a fault of any task retires its cell. -/
def retireDeferredFault : World :=
  match w.tasks tid with
  | none => w
  | some task =>
    match w.resolveLiveCellOwner task.owner.cellId task.owner.generation with
    | some owner => (w.retireParticipants owner tid).exitTask tid
    | none => w.exitTask tid

/-- The reaper: every task of a retiring owner has left the harts. -/
def reap (owner : CellOwner) : World :=
  if w.slots owner.cellId = .retiring owner then
    { w with
      tasks := fun tid => (w.tasks tid).filter fun task => task.owner ≠ owner
      slots := update w.slots owner.cellId .empty }
  else w

/-- `freeze_task_with_ceiling`. -/
def freezeTaskWithCeiling (tid swapId : Nat) : Bool × World :=
  if w.ceilings tid then (false, w)
  else
    match w.tasks tid with
    | none => (false, w)
    | some task =>
      if task.isCritical ∨ task.state.isFrozen then (false, w)
      else (true, { w.setTask tid (some { task with state := .frozen swapId }) with
        ceilings := update w.ceilings tid true })

/-- `unfreeze_task`. -/
def unfreezeTask : World :=
  let w := { w with ceilings := update w.ceilings tid false }
  match w.tasks tid with
  | some task =>
    if task.state.isFrozen then w.setTask tid (some { task with state := .ready }) else w
  | none => w

end World

/-! ## steps -/

inductive Op where
  /-- A cell is published with its root task. -/
  | publish (tid cellId generation : Nat) (isCritical : Bool)
  /-- A live cell starts a thread. -/
  | thread (tid : Nat) (owner : CellOwner)
  /-- A move between states that have nothing to do with a futex. -/
  | schedule (tid : Nat) (state : TaskState)
  /-- The critical section of `wait`; `holds` says whether the word has the expected value. -/
  | wait (caller : Nat) (key : FutexKey) (holds : Bool) (deadline : Option Nat)
  /-- `wait` goes on after its caller was resumed, and reads the outcome. -/
  | resume (caller : Nat)
  /-- `wait` drops its queue entry and returns. -/
  | leave (caller : Nat)
  | wake (caller : Nat) (key : FutexKey) (count : Nat)
  | sweep (now : Nat)
  | exit (tid : Nat)
  | fault (tid : Nat)
  | reap (owner : CellOwner)
  | freeze (tid swapId : Nat)
  | unfreeze (tid : Nat)

inductive Response where
  | done
  | refused
  | parked
  | waited (outcome : Outcome)
  | woken (count : Nat)
deriving DecidableEq

/-- The states a task moves between without a futex. -/
def TaskState.ordinary : TaskState → Bool
  | .ready | .running | .blocked => true
  | _ => false

def step (w : World) : Op → Option (Response × World)
  | .publish tid cellId generation isCritical =>
    if w.tasks tid = none ∧ w.slots cellId = .empty then
      let owner : CellOwner := ⟨cellId, generation, tid⟩
      some (.done, { (w.setTask tid (some ⟨owner, isCritical, .ready, .woken, 0⟩)).setCall tid .none
        with slots := update w.slots cellId (.live owner) })
    else none
  | .thread tid owner =>
    if w.tasks tid = none ∧ w.slots owner.cellId = .live owner then
      some (.done, (w.setTask tid (some ⟨owner, false, .ready, .woken, 0⟩)).setCall tid .none)
    else none
  | .schedule tid state =>
    match w.tasks tid with
    | some task =>
      if task.state.ordinary ∧ state.ordinary then
        some (.done, w.setTask tid (some { task with state }))
      else none
    | none => none
  | .wait caller key holds deadline =>
    if w.calls caller ≠ .none then none
    else if holds = false then some (.waited .valueMismatch, w)
    else
      match w.tasks caller with
      | none => some (.refused, w)
      | some task => some (.parked, w.park caller task key deadline)
  | .resume caller =>
    match w.calls caller with
    | .parked key =>
      if w.parkedOn key caller then none
      else
        let outcome := ((w.tasks caller).map (·.outcome)).getD .woken
        some (.done, w.setCall caller (.leaving key outcome))
    | _ => none
  | .leave caller =>
    match w.calls caller with
    | .leaving key outcome =>
      some (.waited outcome, (w.removeWaiter key caller).setCall caller .none)
    | _ => none
  | .wake caller key count =>
    match w.tasks caller with
    | none => some (.refused, w)
    | some _ => some (.woken (w.wake key count).1, (w.wake key count).2)
  | .sweep now => some (.done, w.sweep now)
  | .exit tid => some (.done, w.exitTask tid)
  | .fault tid => some (.done, w.retireDeferredFault tid)
  | .reap owner => some (.done, w.reap owner)
  | .freeze tid swapId =>
    some (if (w.freezeTaskWithCeiling tid swapId).1 then .done else .refused,
      (w.freezeTaskWithCeiling tid swapId).2)
  | .unfreeze tid => some (.done, w.unfreezeTask tid)

/-- The condition under which a wake finds the parked tasks: no task is frozen in a futex
wait, and a task begins one only while its cell is live. -/
def tidy (w : World) : Op → Bool
  | .freeze tid _ => (w.tasks tid).all fun task =>
      match task.state with
      | .futexWait _ _ => false
      | _ => true
  | .wait caller _ _ _ =>
    (w.tasks caller).all fun task => w.slots task.owner.cellId = .live task.owner
  | _ => true

end Cellos.Futex
