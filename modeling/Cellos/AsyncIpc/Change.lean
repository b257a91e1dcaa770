import Cellos.AsyncIpc.System

/-!
# Cellos.AsyncIpc.Change

What a critical section can do to operations and to request messages, said once.

An operation moves along one line: it is queued, it may be dispatched, it settles.
`Operation.Becomes` is that line as a relation between a row and the same row some
steps later.  `Task.Becomes` and `World.Becomes` carry it to the tables: every row
comes from a row that was there, every request message was in the same mailbox
before, and a row that newly says its request was never dispatched says so when
that request is in no mailbox.

`answered` is the set of tokens a reply is given to meanwhile, and `dying` the set of
tasks that leave.
-/

namespace Cellos.AsyncIpc

open Lib List

/-! ## the line an operation moves along -/

/-- A settled phase that says the request was never dispatched. -/
def Phase.withdrawn : Phase → Bool
  | .terminal .cancelled _ | .terminal .preDispatchTimeout _ => true
  | _ => false

/-- A phase in which no receiver has been shown the request. -/
def Phase.early (phase : Phase) : Bool := phase == .queued || phase.withdrawn

theorem Phase.early_iff {phase : Phase} :
    phase.early = true ↔ phase = .queued ∨ phase.withdrawn = true := by
  simp [Phase.early]

/-- Token, owner and peer of an operation, fixed at submission. -/
def Operation.identity (op : Operation) : Nat × (Nat × Nat × Nat) × Nat × Nat × Nat :=
  (op.id, (op.ownerTid, op.ownerBinding), op.peerTid, op.peerBinding)

open Operation

/-- The row `op` may be the row `op'` some steps later. -/
structure Operation.Becomes (answered : Nat → Prop) (op op' : Operation) : Prop where
  identity : op'.identity = op.identity
  /-- A result is written once. -/
  settled : op.phase.isTerminal = true → op'.phase = op.phase ∧ op'.reply = op.reply
  /-- What has been dispatched never looks undispatched again. -/
  early : op'.phase.early = true → op.phase.early = true
  queued : op'.phase = .queued → op.phase = .queued
  answer : ∀ len, op'.phase = .terminal .reply len →
    op.phase = .terminal .reply len ∨ answered op.id

namespace Operation

variable {answered : Nat → Prop} {op op' op'' : Operation}

theorem Becomes.refl (answered : Nat → Prop) (op : Operation) : op.Becomes answered op where
  identity := rfl
  settled := fun _ => ⟨rfl, rfl⟩
  early := fun h => h
  queued := fun h => h
  answer := fun _ h => .inl h

variable (h : op.Becomes answered op') {kind : IpcStatus} {bytes : List UInt8}

include h

theorem Becomes.id : op'.id = op.id := congrArg (fun i => i.1) h.identity

theorem Becomes.owner : op'.ownerTid = op.ownerTid ∧ op'.ownerBinding = op.ownerBinding :=
  Prod.mk.inj (congrArg (fun i => i.2.1) h.identity)

theorem Becomes.peer : op'.peerTid = op.peerTid ∧ op'.peerBinding = op.peerBinding :=
  Prod.mk.inj (congrArg (fun i => i.2.2) h.identity)

theorem Becomes.trans (h' : op'.Becomes answered op'') : op.Becomes answered op'' where
  identity := h'.identity.trans h.identity
  settled := by
    intro ht
    obtain ⟨hp, hr⟩ := h.settled ht
    obtain ⟨hp', hr'⟩ := h'.settled (by rw [hp, ht])
    exact ⟨hp'.trans hp, hr'.trans hr⟩
  early := fun he => h.early (h'.early he)
  queued := fun hq => h.queued (h'.queued hq)
  answer := by
    intro len hl
    rcases h'.answer len hl with hl' | ha
    · exact h.answer len hl'
    · rw [h.id] at ha
      exact .inr ha

/-- Settling without a reply.  Only a queued operation may end as undispatched. -/
theorem Becomes.settle (hkind : kind ≠ .reply) (hopen : op.phase.isTerminal = false)
    (hearly : (Phase.terminal kind 0).withdrawn = true → op.phase = .queued) :
    op.Becomes answered (op'.settle kind) where
  identity := h.identity
  settled := by simp [hopen]
  early := by
    intro he
    rcases Phase.early_iff.mp he with hq | hw
    · contradiction
    · exact Phase.early_iff.mpr (.inl (hearly hw))
  queued := fun hq => by contradiction
  answer := by
    intro len hl
    obtain ⟨hk, -⟩ : kind = .reply ∧ 0 = len := by simpa [Operation.settle] using hl
    exact absurd hk hkind

omit h

theorem becomes_settle (hkind : kind ≠ .reply) (hopen : op.phase.isTerminal = false)
    (hearly : (Phase.terminal kind 0).withdrawn = true → op.phase = .queued) :
    op.Becomes answered (op.settle kind) :=
  (Becomes.refl answered op).settle hkind hopen hearly

theorem becomes_markDispatched (h : op.phase = .queued) :
    op.Becomes answered op.markDispatched where
  identity := rfl
  settled := by simp [h, Phase.isTerminal]
  early := fun he => by contradiction
  queued := fun hq => by contradiction
  answer := fun len hl => by contradiction

theorem becomes_answer (hb : bytes.length ≤ maxIpcWirePayload)
    (h : op.phase = .dispatched) (ha : answered op.id) :
    op.Becomes answered (op.answer bytes hb) where
  identity := rfl
  settled := by simp [h, Phase.isTerminal]
  early := fun he => by contradiction
  queued := fun hq => by contradiction
  answer := fun _ _ => .inr ha

/-- Bytes written to a reply that is still awaited. -/
theorem becomes_writeReply (hb : bytes.length ≤ maxIpcWirePayload)
    (hopen : op.phase.isTerminal = false) : op.Becomes answered (op.writeReply bytes hb) where
  __ := Becomes.refl answered op
  settled := by simp [hopen]

end Operation

/-! ## tasks -/

/-- The operation rows of a task. -/
abbrev Task.rows (task : Task) : List Operation := task.asyncOperations.rows

open AsyncIpc.Task

/-- The tokens of the requests in a mailbox. -/
def Task.tokens (task : Task) : List Nat := task.pendingMsgs.filterMap PendingMsg.token

/-- The task record `task` may be `task'` some steps later. -/
structure Task.Becomes (answered : Nat → Prop) (task task' : Task) : Prop where
  id : task'.id = task.id
  binding : task'.binding = task.binding
  rows : ∀ op' ∈ task'.rows, ∃ op ∈ task.rows, op.Becomes answered op'
  ids : task'.rows.map Operation.id = task.rows.map Operation.id
  mail : ∀ msg ∈ task'.pendingMsgs, msg.token ≠ none → msg ∈ task.pendingMsgs
  tokens : task'.tokens.Sublist task.tokens

namespace Task

variable {task task' : Task}

theorem Becomes.trans (h : task.Becomes answered task')
    (h' : task'.Becomes answered task'') : task.Becomes answered task'' where
  id := h'.id.trans h.id
  binding := h'.binding.trans h.binding
  rows := by
    intro op'' hop''
    obtain ⟨op', hop', hs'⟩ := h'.rows op'' hop''
    obtain ⟨op, hop, hs⟩ := h.rows op' hop'
    exact ⟨op, hop, hs.trans hs'⟩
  ids := h'.ids.trans h.ids
  mail := fun msg hm ht => h.mail msg (h'.mail msg hm ht) ht
  tokens := h'.tokens.trans h.tokens

/-- The part of a task record the relation looks at. -/
def tables (task : Task) : Nat × (Nat × Nat) × Operations × List PendingMsg :=
  (task.id, task.binding, task.asyncOperations, task.pendingMsgs)

theorem tables_eq_iff : task'.tables = task.tables ↔ task'.id = task.id ∧
    task'.binding = task.binding ∧ task'.asyncOperations = task.asyncOperations ∧
    task'.pendingMsgs = task.pendingMsgs := by
  simp [tables]

/-- A change of scheduling state, caller context or swap flags only. -/
theorem becomes_of_tables (h : task'.tables = task.tables) : task.Becomes answered task' := by
  obtain ⟨hid, hbinding, hops, hmail⟩ := tables_eq_iff.mp h
  exact
    { id := hid
      binding := hbinding
      rows := by
        intro op hop
        rw [rows, hops] at hop
        exact ⟨op, hop, .refl answered op⟩
      ids := by rw [rows, hops]
      mail := by
        intro msg hm _
        rwa [hmail] at hm
      tokens := by
        unfold tokens
        rw [hmail] }

theorem Becomes.refl (answered : Nat → Prop) (task : Task) : task.Becomes answered task :=
  becomes_of_tables rfl

/-- Only scheduling state, caller context or swap flags change, and a live task
stays live. -/
def Keeps (task task' : Task) : Prop :=
  task'.tables = task.tables ∧ (task.live = true → task'.live = true)

theorem Keeps.refl (task : Task) : task.Keeps task := ⟨rfl, fun h => h⟩

theorem Keeps.trans (h : task.Keeps task') (h' : task'.Keeps task'') : task.Keeps task'' :=
  ⟨h'.1.trans h.1, fun hl => h'.2 (h.2 hl)⟩

theorem Keeps.when [Decidable c] (h : task.Keeps task') :
    task.Keeps (if c then task' else task) := by
  split
  · exact h
  · exact .refl task

theorem Keeps.becomes (h : task.Keeps task') : task.Becomes answered task' :=
  becomes_of_tables h.1

theorem Keeps.rows_eq (h : task.Keeps task') : task'.rows = task.rows := by
  rw [rows, (tables_eq_iff.mp h.1).2.2.1]

theorem keeps_ready (task : Task) : task.Keeps { task with state := .ready } :=
  ⟨rfl, fun _ => rfl⟩

theorem keeps_context (task : Task) (context : CallerContext) :
    task.Keeps { task with context } := ⟨rfl, fun h => h⟩

theorem keeps_wakeIpc (task : Task) : task.Keeps task.wakeIpc := by
  unfold wakeIpc
  split
  · exact task.keeps_ready
  · exact .refl task

theorem keeps_setReceivedRequestContext (task : Task) (vfsCell senderTid : Nat)
    (sender : Nat × Nat) (token : Nat) :
    task.Keeps (task.setReceivedRequestContext vfsCell senderTid sender token) := by
  unfold setReceivedRequestContext
  split
  · exact .refl task
  · exact task.keeps_context _

/-- One row is rewritten. -/
theorem becomes_modifyOp
    (hf : ∀ op, task.asyncOperations.find token = some op → op.Becomes answered (f op)) :
    task.Becomes answered { task with asyncOperations := task.asyncOperations.modify token f } where
  __ := Becomes.refl answered task
  rows := by
    intro op' hop'
    rcases mem_updateFirst hop' with hop | ⟨op, hfind, rfl⟩
    · exact ⟨op', hop, .refl answered op'⟩
    · exact ⟨op, mem_of_find?_eq_some hfind, hf op hfind⟩
  ids := map_updateFirst Operation.id fun op hop => (hf op hop).id

theorem becomes_mapOps (hf : ∀ op ∈ task.rows, op.Becomes answered (f op)) :
    task.Becomes answered { task with asyncOperations := task.asyncOperations.map f } where
  __ := Becomes.refl answered task
  rows := by
    intro op' hop'
    obtain ⟨op, hop, rfl⟩ := mem_map.mp hop'
    exact ⟨op, hop, hf op hop⟩
  ids := by
    show (task.rows.map f).map Operation.id = task.rows.map Operation.id
    rw [map_map]
    exact map_congr_left fun op hop => (hf op hop).id

theorem becomes_of_sublist (h : mailbox.Sublist task.pendingMsgs) :
    task.Becomes answered { task with pendingMsgs := mailbox } where
  __ := Becomes.refl answered task
  mail := fun _ hm _ => h.subset hm
  tokens := h.filterMap PendingMsg.token

theorem becomes_append (h : ∀ msg ∈ msgs, msg.token = none) :
    task.Becomes answered { task with pendingMsgs := task.pendingMsgs ++ msgs } where
  __ := Becomes.refl answered task
  mail := by
    intro msg hm ht
    rcases mem_append.mp hm with hm | hm
    · exact hm
    · exact absurd (h msg hm) ht
  tokens := by
    have hnone : msgs.filterMap PendingMsg.token = [] := filterMap_eq_nil_iff.mpr h
    unfold tokens
    rw [filterMap_append, hnone, append_nil]

end Task

/-! ## the dispatch table -/

/-- The world `w` may be `w'` some steps later, with no submission taken up or
accepted in between. -/
structure World.Becomes (answered dying : Nat → Prop) (w w' : World) : Prop where
  tasks : ∀ task' ∈ w'.tasks, ∃ task ∈ w.tasks, task.Becomes answered task' ∧
    (¬ dying task.id → task.live = true → task'.live = true)
  ids : (w'.tasks.map Task.id).Sublist (w.tasks.map Task.id)
  /-- A row newly says that its request was never dispatched only when no mailbox
  holds the request any more. -/
  withdrawn : ∀ task' ∈ w'.tasks, ∀ op' ∈ task'.rows, op'.phase.withdrawn = true →
    (∃ task ∈ w.tasks, ∃ op ∈ task.rows, op.id = op'.id ∧ op.phase = op'.phase) ∨
    ∀ other ∈ w'.tasks, op'.id ∉ other.tokens
  /-- A task that left was in the table, and so were its rows. -/
  zombies : ∀ zombie' ∈ w'.zombies, zombie' ∈ w.zombies ∨
    (∃ task ∈ w.tasks, dying task.id ∧ task.Becomes answered zombie') ∧
    ∀ op' ∈ zombie'.rows, op'.phase.withdrawn = true →
      (∃ task ∈ w.tasks, ∃ op ∈ task.rows, op.id = op'.id ∧ op.phase = op'.phase) ∨
      ∀ other ∈ w'.tasks, op'.id ∉ other.tokens
  nextTaskId : w'.nextTaskId = w.nextTaskId
  nextOperation : w'.nextOperation = w.nextOperation
  submissions : w'.submissions = w.submissions

namespace World

section

variable {answered dying : Nat → Prop} {w : World} {tid token : Nat}
  {task : Task} {op : Operation}

/-- The rows, mailboxes and counters decide. -/
theorem becomes_of_tasks_eq (htasks : w'.tasks = w.tasks)
    (hzombies : w'.zombies.Sublist w.zombies) (hnext : w'.nextTaskId = w.nextTaskId)
    (hop : w'.nextOperation = w.nextOperation) (hsub : w'.submissions = w.submissions) :
    w.Becomes answered dying w' where
  tasks := by
    intro task htask
    rw [htasks] at htask
    exact ⟨task, htask, becomes_of_tables rfl, fun _ hlive => hlive⟩
  ids := by rw [htasks]
  withdrawn := by
    intro task htask op hop _
    rw [htasks] at htask
    exact .inl ⟨task, htask, op, hop, rfl, rfl⟩
  zombies := fun zombie hzombie => .inl (hzombies.subset hzombie)
  nextTaskId := hnext
  nextOperation := hop
  submissions := hsub

theorem Becomes.refl (answered dying : Nat → Prop) (w : World) : w.Becomes answered dying w :=
  becomes_of_tasks_eq rfl (.refl _) rfl rfl rfl

open Becomes

variable (h : w.Becomes answered dying w') {exactPeer : Bool}

include h

theorem Becomes.row (htask' : task' ∈ w'.tasks)
    (hop' : op' ∈ task'.rows) : ∃ task ∈ w.tasks, task.Becomes answered task' ∧
      ∃ op ∈ task.rows, op.Becomes answered op' := by
  obtain ⟨task, htask, hb, -⟩ := h.tasks task' htask'
  exact ⟨task, htask, hb, hb.rows op' hop'⟩

/-- Requests only leave mailboxes. -/
theorem Becomes.not_mem_tokens
    (hnone : ∀ task ∈ w.tasks, token ∉ task.tokens) : ∀ task' ∈ w'.tasks, token ∉ task'.tokens := by
  intro task' htask' hmem
  obtain ⟨task, htask, hb, -⟩ := h.tasks task' htask'
  exact hnone task htask (hb.tokens.subset hmem)

/-- A row that is as it was in between was withdrawn before, or when its request had
left every mailbox. -/
theorem Becomes.withdrawn_trans (h' : w'.Becomes answered dying w'') {op'' : Operation}
    (htask' : task' ∈ w'.tasks) (hop' : op' ∈ task'.rows) (hid : op'.id = op''.id)
    (hphase : op'.phase = op''.phase) (hw : op''.phase.withdrawn = true) :
    (∃ task ∈ w.tasks, ∃ op ∈ task.rows, op.id = op''.id ∧ op.phase = op''.phase) ∨
      ∀ other ∈ w''.tasks, op''.id ∉ other.tokens := by
  rcases h.withdrawn task' htask' op' hop' (hphase ▸ hw) with
    ⟨task, htask, op, hop, hid', hphase'⟩ | hno
  · exact .inl ⟨task, htask, op, hop, hid'.trans hid, hphase'.trans hphase⟩
  · rw [hid] at hno
    exact .inr (h'.not_mem_tokens hno)

theorem Becomes.trans (h' : w'.Becomes answered dying w'') : w.Becomes answered dying w'' where
  tasks := by
    intro task'' htask''
    obtain ⟨task', htask', hb', hlive'⟩ := h'.tasks task'' htask''
    obtain ⟨task, htask, hb, hlive⟩ := h.tasks task' htask'
    refine ⟨task, htask, hb.trans hb', fun hd hl => hlive' ?_ (hlive hd hl)⟩
    rwa [hb.id]
  ids := h'.ids.trans h.ids
  withdrawn := by
    intro task'' htask'' op'' hop'' hw
    rcases h'.withdrawn task'' htask'' op'' hop'' hw with
      ⟨task', htask', op', hop', hid, hphase⟩ | hno
    · exact h.withdrawn_trans h' htask' hop' hid hphase hw
    · exact .inr hno
  zombies := by
    intro zombie hzombie
    rcases h'.zombies zombie hzombie with hold | ⟨⟨task', htask', hd, hb'⟩, hrows⟩
    · rcases h.zombies zombie hold with hold | ⟨hfrom, hrows⟩
      · exact .inl hold
      · exact .inr ⟨hfrom, fun op hop hw => (hrows op hop hw).imp_right h'.not_mem_tokens⟩
    obtain ⟨task, htask, hb, -⟩ := h.tasks task' htask'
    refine .inr ⟨⟨task, htask, hb.id ▸ hd, hb.trans hb'⟩, fun op hop hw => ?_⟩
    rcases hrows op hop hw with ⟨_, htask', _, hop', hid, hphase⟩ | hno
    · exact h.withdrawn_trans h' htask' hop' hid hphase hw
    · exact .inr hno
  nextTaskId := h'.nextTaskId.trans h.nextTaskId
  nextOperation := h'.nextOperation.trans h.nextOperation
  submissions := h'.submissions.trans h.submissions

theorem Becomes.mono (hdying : ∀ tid, dying tid → dying' tid) : w.Becomes answered dying' w' where
  __ := h
  tasks := by
    intro task' htask'
    obtain ⟨task, htask, hb, hlive⟩ := h.tasks task' htask'
    exact ⟨task, htask, hb, fun hd => hlive fun hd' => hd (hdying task.id hd')⟩
  zombies := by
    intro zombie hzombie
    rcases h.zombies zombie hzombie with hold | ⟨⟨task, htask, hd, hb⟩, hrows⟩
    · exact .inl hold
    · exact .inr ⟨⟨task, htask, hdying task.id hd, hb⟩, hrows⟩

omit h

theorem mem_of_get (h : w.get tid = some task) : task ∈ w.tasks := mem_of_find?_eq_some h

theorem id_of_get (h : w.get tid = some task) : task.id = tid := by
  simpa using List.find?_some h

theorem mem_modify (h : task' ∈ (w.modify tid f).tasks) :
    task' ∈ w.tasks ∨ ∃ task, w.get tid = some task ∧ task' = f task :=
  mem_updateFirst h

theorem becomes_modify (hf : ∀ task, w.get tid = some task → task.Becomes answered (f task))
    (hlive : ∀ task, w.get tid = some task → ¬ dying tid → task.live = true → (f task).live = true)
    (hw : ∀ task, w.get tid = some task → ∀ op' ∈ (f task).rows, op'.phase.withdrawn = true →
      (∃ op ∈ task.rows, op.id = op'.id ∧ op.phase = op'.phase) ∨
      ∀ other ∈ w.tasks, op'.id ∉ other.tokens) :
    w.Becomes answered dying (w.modify tid f) where
  __ := Becomes.refl answered dying w
  tasks := by
    intro task' htask'
    rcases mem_modify htask' with htask | ⟨task, hget, rfl⟩
    · exact ⟨task', htask, Task.becomes_of_tables rfl, fun _ hl => hl⟩
    · refine ⟨task, mem_of_get hget, hf task hget, fun hd => hlive task hget ?_⟩
      rwa [← id_of_get hget]
  ids := by
    rw [show (w.modify tid f).tasks.map Task.id = w.tasks.map Task.id from
      map_updateFirst Task.id fun task hget => (hf task hget).id]
  withdrawn := by
    intro task' htask' op' hop' hwd
    rcases mem_modify htask' with htask | ⟨task, hget, rfl⟩
    · exact .inl ⟨task', htask, op', hop', rfl, rfl⟩
    rcases hw task hget op' hop' hwd with ⟨op, hop, hid, hphase⟩ | hno
    · exact .inl ⟨task, mem_of_get hget, op, hop, hid, hphase⟩
    refine .inr fun other' hother' hmem => ?_
    rcases mem_modify hother' with hother | ⟨other, hget', rfl⟩
    · exact hno other' hother hmem
    · exact hno other (mem_of_get hget') ((hf other hget').tokens.subset hmem)
  zombies := fun _ hzombie => .inl hzombie

theorem becomes_modify_get (hget : w.get tid = some task)
    (hf : task.Becomes answered (f task)) (hlive : task.live = true → (f task).live = true)
    (hw : ∀ op' ∈ (f task).rows, op'.phase.withdrawn = true →
      (∃ op ∈ task.rows, op.id = op'.id ∧ op.phase = op'.phase) ∨
      ∀ other ∈ w.tasks, op'.id ∉ other.tokens) :
    w.Becomes answered dying (w.modify tid f) := by
  have hsame : ∀ other, w.get tid = some other → task = other :=
    fun other hother => Option.some.inj (hget.symm.trans hother)
  refine becomes_modify ?_ ?_ ?_
  all_goals
    intro other hother
    obtain rfl := hsame other hother
  · exact hf
  · exact fun _ => hlive
  · exact hw

theorem becomes_modify_of_rows (hf : ∀ task : Task, task.Becomes answered (f task))
    (hrows : ∀ task : Task, (f task).rows = task.rows)
    (hlive : ∀ task : Task, task.live = true → (f task).live = true) :
    w.Becomes answered dying (w.modify tid f) := by
  refine becomes_modify (fun task _ => hf task) (fun task _ _ => hlive task) ?_
  intro task _ op hop _
  rw [hrows] at hop
  exact .inl ⟨op, hop, rfl, rfl⟩

theorem becomes_modify_keeps (h : ∀ task : Task, task.Keeps (f task)) :
    w.Becomes answered dying (w.modify tid f) :=
  becomes_modify_of_rows (fun task => (h task).becomes) (fun task => (h task).rows_eq)
    fun task => (h task).2

theorem becomes_mapTasks (hf : ∀ task ∈ w.tasks, task.Becomes answered (f task))
    (hlive : ∀ task ∈ w.tasks, task.live = true → (f task).live = true)
    (hw : ∀ task ∈ w.tasks, ∀ op' ∈ (f task).rows, op'.phase.withdrawn = true → op' ∈ task.rows) :
    w.Becomes answered dying (w.mapTasks f) where
  __ := Becomes.refl answered dying w
  tasks := by
    intro task' htask'
    obtain ⟨task, htask, rfl⟩ := mem_map.mp htask'
    exact ⟨task, htask, hf task htask, fun _ => hlive task htask⟩
  ids := by
    rw [show (w.mapTasks f).tasks.map Task.id = w.tasks.map Task.id by
      unfold mapTasks
      rw [map_map]
      exact map_congr_left fun task htask => (hf task htask).id]
  withdrawn := by
    intro task' htask' op' hop' hwd
    obtain ⟨task, htask, rfl⟩ := mem_map.mp htask'
    exact .inl ⟨task, htask, op', hw task htask op' hop' hwd, rfl, rfl⟩
  zombies := fun _ hzombie => .inl hzombie

theorem becomes_mapTasks_keeps (h : ∀ task : Task, task.Keeps (f task)) :
    w.Becomes answered dying (w.mapTasks f) := by
  refine becomes_mapTasks (fun task _ => (h task).becomes) (fun task _ => (h task).2) ?_
  intro task _ op hop _
  rwa [(h task).rows_eq] at hop

/-- One operation of one task changes. -/
theorem becomes_modifyOp
    (hget : w.get tid = some task) (hfind : task.asyncOperations.find token = some op)
    (hg : op.Becomes answered (g op))
    (hw : (g op).phase.withdrawn = true → ∀ other ∈ w.tasks, op.id ∉ other.tokens) :
    w.Becomes answered dying (w.modifyOp tid token g) := by
  have hsame : ∀ op', task.asyncOperations.find token = some op' → op = op' :=
    fun op' hfind' => Option.some.inj (hfind.symm.trans hfind')
  refine becomes_modify_get hget (Task.becomes_modifyOp fun op' hfind' => hsame op' hfind' ▸ hg)
    id ?_
  intro op' hop' hwd
  rcases mem_updateFirst hop' with hop | ⟨found, hfind', rfl⟩
  · exact .inl ⟨op', hop, rfl, rfl⟩
  · obtain rfl := hsame found hfind'
    rw [hg.id]
    exact .inr (hw hwd)

/-- Task records leave the table, to become zombies or for good. -/
theorem becomes_of_tasks_sublist {tasks zombies : List Task} (h : tasks.Sublist w.tasks)
    (hz : ∀ zombie ∈ zombies, zombie ∈ w.zombies ∨ zombie ∈ w.tasks ∧ dying zombie.id) :
    w.Becomes answered dying { w with tasks, zombies } where
  __ := Becomes.refl answered dying w
  tasks := fun task htask => ⟨task, h.subset htask, .refl answered task, fun _ hl => hl⟩
  ids := h.map Task.id
  withdrawn := fun task htask op hop _ => .inl ⟨task, h.subset htask, op, hop, rfl, rfl⟩
  zombies := fun zombie hzombie => (hz zombie hzombie).imp_right fun hleft =>
    ⟨⟨zombie, hleft.1, hleft.2, .refl answered zombie⟩,
      fun op hop _ => .inl ⟨zombie, hleft.1, op, hop, rfl, rfl⟩⟩

theorem becomes_modify_mail {keep : List PendingMsg → List PendingMsg}
    (hkeep : ∀ mailbox, (keep mailbox).Sublist mailbox) : w.Becomes answered dying
      (w.modify tid fun task => { task with pendingMsgs := keep task.pendingMsgs }) :=
  becomes_modify_of_rows (fun task => becomes_of_sublist (hkeep task.pendingMsgs))
    (fun _ => rfl) fun _ hl => hl

/-! ## critical sections that need no invariant -/

theorem becomes_wake (w : World) (owner : Nat) : w.Becomes answered dying (w.wake owner) :=
  becomes_modify_keeps keeps_wakeIpc

theorem becomes_dispatch (w : World) (peer : Nat) (header : IpcWireHeader) :
    w.Becomes answered dying (w.dispatch peer header) := by
  unfold dispatch
  split
  · exact .refl ..
  split
  · exact .refl ..
  split
  · exact .refl ..
  next owner howner =>
  split
  · exact .refl ..
  split
  · exact .refl ..
  next hop =>
  split
  · next hcond =>
    have hget : w.get header.senderTid = some owner := (Option.filter_eq_some_iff.mp howner).1
    exact becomes_modifyOp hget hop (becomes_markDispatched hcond.2.2.2) fun hw => by contradiction
  · exact .refl ..

/-- The checks a reply passes before it reaches an operation. -/
structure ReplyTarget (w : World) (ownerTid token provider : Nat) (exactPeer : Bool)
    (owner : Task) (op : Operation) (peer : Task) : Prop where
  ownerLive : w.getLive ownerTid = some owner
  row : owner.asyncOperations.find token = some op
  peerLive : w.getLive provider = some peer
  owned : owner.owns op = true
  exact : exactPeer = true → op.peerTid = provider
  bound : op.peerBinding = peer.binding
  phase : op.phase = .dispatched

/-- **What a reply does**: nothing, or it settles the dispatched operation it names,
as answered exactly when it reports success. -/
theorem terminal_cases (w : World) (ownerTid token provider : Nat) (exactPeer : Bool)
    (buffer : UserBuffer) : ((w.terminal ownerTid token provider exactPeer buffer).2 = w ∧
      (w.terminal ownerTid token provider exactPeer buffer).1 ≠ .ok ()) ∨
    ∃ owner op peer settle, ReplyTarget w ownerTid token provider exactPeer owner op peer ∧
      (w.terminal ownerTid token provider exactPeer buffer).2 =
        (w.modifyOp ownerTid token settle).wake ownerTid ∧
      (settle op).phase.withdrawn = false ∧
      ∀ answered : Nat → Prop,
        ((w.terminal ownerTid token provider exactPeer buffer).1 = .ok () → answered op.id) →
        op.Becomes answered (settle op) := by
  unfold terminal
  split
  · exact .inl ⟨rfl, by simp⟩
  next owner howner =>
  split
  · exact .inl ⟨rfl, by simp⟩
  next op hop =>
  split
  · exact .inl ⟨rfl, by simp⟩
  next peer hpeer =>
  split
  · exact .inl ⟨rfl, by simp⟩
  next hcond =>
  simp only [Bool.or_eq_true, Bool.not_eq_true', Bool.and_eq_true, bne_iff_ne, ne_eq, not_or,
    not_and, not_not, Bool.not_eq_false] at hcond
  obtain ⟨⟨⟨howned, hexact⟩, hbound⟩, hphase⟩ := hcond
  have htarget : ReplyTarget w ownerTid token provider exactPeer owner op peer :=
    ⟨howner, hop, hpeer, howned, hexact, hbound, hphase⟩
  have hopen : op.phase.isTerminal = false := by rw [hphase]; rfl
  right
  split
  · next hlen =>
    split
    · exact ⟨owner, op, peer, _, htarget, rfl, rfl,
        fun answered ha => becomes_answer hlen hphase (ha rfl)⟩
    · refine ⟨owner, op, peer, _, htarget, rfl, rfl, fun answered _ => ?_⟩
      exact (becomes_writeReply _ hopen).trans
        (becomes_settle (by simp) hopen (by simp [Phase.withdrawn]))
  · exact ⟨owner, op, peer, _, htarget, rfl, rfl,
      fun answered _ => becomes_settle (by simp) hopen (by simp [Phase.withdrawn])⟩

theorem ReplyTarget.get {ownerTid provider : Nat} {owner peer : Task}
    (h : ReplyTarget w ownerTid token provider exactPeer owner op peer) :
    w.get ownerTid = some owner := (Option.filter_eq_some_iff.mp h.ownerLive).1

theorem ReplyTarget.id {ownerTid provider : Nat} {owner peer : Task}
    (h : ReplyTarget w ownerTid token provider exactPeer owner op peer) : op.id = token := by
  simpa using List.find?_some h.row

variable (w)

theorem becomes_terminal (ownerTid token provider : Nat) (exactPeer : Bool)
    (buffer : UserBuffer) (ha : (w.terminal ownerTid token provider exactPeer buffer).1 = .ok () →
      answered token) :
    w.Becomes answered dying (w.terminal ownerTid token provider exactPeer buffer).2 := by
  rcases terminal_cases w ownerTid token provider exactPeer buffer with
    ⟨hw, -⟩ | ⟨owner, op, peer, settle, htarget, hw, hwithdrawn, hbecomes⟩
  · rw [hw]
    exact .refl ..
  rw [hw]
  have hsettled := hbecomes answered fun hok => htarget.id ▸ ha hok
  exact (becomes_modifyOp htarget.get htarget.row hsettled (by simp [hwithdrawn])).trans
    (becomes_wake _ ownerTid)

theorem becomes_endRequest (peer token : Nat) :
    w.Becomes answered dying (w.endRequest peer token) := by
  unfold endRequest
  split
  · exact .refl ..
  exact becomes_mapTasks_keeps fun task => .when (task.keeps_context _)

theorem becomes_replyInSched (peer token : Nat) (buffer : UserBuffer)
    (ha : (w.replyInSched peer token buffer).1 = .ok () → answered token) :
    w.Becomes answered dying (w.replyInSched peer token buffer).2 := by
  unfold replyInSched at ha ⊢
  split
  · exact .refl ..
  next htoken =>
  rw [if_neg htoken] at ha
  split
  · exact becomes_endRequest w peer token
  next owner howner =>
  simp only [howner] at ha
  exact (becomes_terminal w owner.id token peer false buffer ha).trans
    (becomes_endRequest _ peer token)

theorem becomes_replyCurrentInSched (peer destination : Nat) (buffer : UserBuffer)
    (ha : ∀ token, (w.replyCurrentInSched peer destination buffer).1 = .answered token (.ok ()) →
      answered token) :
    w.Becomes answered dying (w.replyCurrentInSched peer destination buffer).2 := by
  unfold replyCurrentInSched at ha ⊢
  split
  · exact .refl ..
  next provider hprovider =>
  simp only [hprovider] at ha
  by_cases hcond : provider.context.currentAsyncOp = 0 ∨
      provider.context.currentCaller ≠ some destination
  · rw [if_pos hcond]
    exact .refl ..
  rw [if_neg hcond] at ha ⊢
  split
  · next hmatch =>
    rw [if_pos hmatch] at ha
    refine becomes_terminal w destination _ peer true buffer fun hok => ha _ ?_
    rw [hok]
  · exact .refl ..

theorem becomes_transferConsumption (caller token target : Nat) :
    w.Becomes answered dying (w.transferConsumption caller token target).2 := by
  have hmove : ∀ tid, w.Becomes answered dying
      (w.modifyOp tid token fun op => { op with consumerTid := target }) := by
    intro tid
    refine becomes_modify (fun task _ => Task.becomes_modifyOp fun op _ =>
      { Operation.Becomes.refl answered op with }) (fun _ _ _ hl => hl) ?_
    intro task _ op' hop' _
    rcases mem_updateFirst hop' with hop | ⟨op, hfind, rfl⟩
    · exact .inl ⟨op', hop, rfl, rfl⟩
    · exact .inl ⟨op, mem_of_find?_eq_some hfind, rfl, rfl⟩
  unfold transferConsumption
  repeat' split
  all_goals first
    | exact .refl ..
    | exact hmove _

theorem becomes_wait (owner : Nat) (deadline : Option Nat) :
    w.Becomes answered dying (w.wait owner deadline).2 := by
  unfold wait
  split
  · exact .refl ..
  split
  · exact .refl ..
  · exact becomes_modify_keeps fun task => ⟨rfl, fun _ => rfl⟩

/-- Operations that are not finished may be given up for a dead peer. -/
theorem becomes_peerGoneWhere (hhit : ∀ op, hit op = true → op.phase.isTerminal = false) :
    w.Becomes answered dying (w.peerGoneWhere hit) := by
  have hrow : ∀ op : Operation,
      op.Becomes answered (if hit op then op.settle .peerGone else op) := by
    intro op
    split
    · next h => exact becomes_settle (by simp) (hhit op h) (by simp [Phase.withdrawn])
    · exact .refl answered op
  refine becomes_mapTasks ?_ ?_ ?_
  · intro task _
    split
    · exact (becomes_mapOps fun op _ => hrow op).trans (keeps_wakeIpc _).becomes
    · exact becomes_of_tables rfl
  · intro task _ hlive
    split
    · exact (keeps_wakeIpc _).2 hlive
    · exact hlive
  · intro task _ op' hop' hw
    split at hop'
    · rw [(keeps_wakeIpc _).rows_eq] at hop'
      obtain ⟨op, hop, rfl⟩ := mem_map.mp hop'
      split at hw
      · contradiction
      · next hmiss => rwa [if_neg hmiss]
    · exact hop'

theorem becomes_peerDied (peer : Nat) (binding : Nat × Nat) :
    w.Becomes answered dying (w.peerDied peer binding) :=
  becomes_peerGoneWhere w (by simp)

theorem becomes_cutoverPeer (peer : Nat) (binding : Nat × Nat) :
    w.Becomes answered dying (w.cutoverPeer peer binding) := by
  refine becomes_peerGoneWhere w ?_
  intro op hop
  have hphase : op.phase = .queued := by
    simp only [Bool.and_eq_true, beq_iff_eq] at hop
    exact hop.2
  rw [hphase]
  rfl

theorem becomes_ownerDied (owner : Nat) (binding : Nat × Nat) :
    w.Becomes answered dying (w.ownerDied owner binding) :=
  becomes_mapTasks (fun _ _ => becomes_of_sublist filter_sublist) (fun _ _ hl => hl)
    fun _ _ _ hop _ => hop

theorem becomes_withdraw (tid token : Nat) :
    w.Becomes answered dying (w.modify tid (withdraw token)) :=
  becomes_modify_mail fun _ => eraseP_sublist

/-! ### receiving -/

theorem becomes_showTo (receiver : Nat) (msg : PendingMsg) :
    w.Becomes answered dying (w.showTo receiver msg) := by
  unfold showTo
  split
  · exact becomes_dispatch w receiver _
  · exact .refl ..

theorem becomes_recvSnapshot (form : ReceiveForm) (receiver mask : Nat)
    (funded : Bool) : w.Becomes answered dying (w.recvSnapshot form receiver mask funded).2 := by
  unfold recvSnapshot
  split
  · exact .refl ..
  split
  · split
    · exact .refl ..
    · exact (becomes_showTo w receiver _).trans (becomes_of_tasks_eq rfl (.refl _) rfl rfl rfl)
  · split
    · exact becomes_modify_keeps fun task => ⟨rfl, fun _ => rfl⟩
    · exact .refl ..

theorem becomes_wakeSenderToken (senderTid target : Nat) (header : IpcWireHeader) :
    w.Becomes answered dying (w.wakeSenderToken senderTid target header) :=
  becomes_modify_keeps fun task => .when task.keeps_ready

theorem remove_sublist (receipt : Receipt) (mailbox : List PendingMsg) :
    (receipt.remove mailbox).Sublist mailbox := by
  unfold Receipt.remove
  split
  · exact eraseIdx_sublist _ _
  · exact .refl mailbox

/-- A committed message leaves the mailbox, and the rest of the change is context. -/
theorem commit_keeps (receipt : Receipt) (vfsCell : Nat) (task : Task) :
    Task.Keeps { task with pendingMsgs := receipt.remove task.pendingMsgs }
      (receipt.commit vfsCell task) := by
  unfold Receipt.commit
  split
  · exact .refl _
  · exact keeps_setReceivedRequestContext _ _ _ _ _

theorem becomes_recvCommit (receipt : Receipt) :
    w.Becomes answered dying (w.recvCommit receipt) := by
  have hcommit : w.Becomes answered dying
      (w.modify receipt.receiver (receipt.commit w.vfsCell)) := by
    refine becomes_modify_of_rows (fun task => ?_) (fun task => ?_) fun task hl => ?_
    · exact (becomes_of_sublist (remove_sublist receipt task.pendingMsgs)).trans
        (commit_keeps receipt w.vfsCell task).becomes
    · exact (commit_keeps receipt w.vfsCell task).rows_eq
    · exact (commit_keeps receipt w.vfsCell task).2 hl
  unfold recvCommit
  split
  · exact hcommit.trans (becomes_wakeSenderToken _ _ _ _)
  · exact hcommit

theorem becomes_recvKernel (receiver mask outLen : Nat) :
    w.Becomes answered dying (w.recvKernel receiver mask outLen).2 := by
  unfold recvKernel
  split
  · exact .refl ..
  split
  · split
    · exact .refl ..
    split
    · exact .refl ..
    refine trans ?_ (becomes_wakeSenderToken _ _ _ _)
    refine trans ?_ (becomes_dispatch _ _ _)
    refine trans ?_ (becomes_modify_keeps fun task =>
      task.keeps_setReceivedRequestContext _ _ _ _)
    exact becomes_modify_mail fun mailbox => eraseIdx_sublist mailbox _
  · exact becomes_modify_keeps fun task => ⟨rfl, fun _ => rfl⟩

/-! ### leaving and swapping -/

theorem keeps_releaseSender (tid : Nat) (task : Task) : task.Keeps (releaseSender tid task) := by
  unfold releaseSender
  split
  · exact .when task.keeps_ready
  · exact .refl task

theorem keeps_tellDeath (vfsCell tid : Nat) (dead : Nat × Nat) (task : Task) :
    task.Keeps (tellDeath vfsCell tid dead task) :=
  (task.keeps_setReceivedRequestContext vfsCell tid dead 0).trans (keeps_ready _)

theorem becomes_notifyWatchers (tid : Nat) (dead : Nat × Nat) (watchers : List Nat) :
    w.Becomes answered dying (w.notifyWatchers tid dead watchers) := by
  refine watchers.foldlRecOn _ (motive := fun v => w.Becomes answered dying v)
    (.refl answered dying w) fun v hv watcher _ => hv.trans ?_
  refine becomes_modify_keeps fun task => ?_
  split
  · exact keeps_tellDeath _ _ _ task
  · exact .refl task

theorem becomes_notifyOwnerWatchers (tid : Nat) (dead : Nat × Nat)
    (watchers : List Nat) : w.Becomes answered dying (w.notifyOwnerWatchers tid dead watchers) := by
  refine watchers.foldlRecOn _ (motive := fun v => w.Becomes answered dying v)
    (.refl answered dying w) fun v hv watcher _ => hv.trans ?_
  refine becomes_modify_keeps fun task => ?_
  split
  · exact .when (keeps_tellDeath _ _ _ task)
  · exact .refl task

/-- A leaving task is the only one that stops being live. -/
theorem becomes_depart (tid : Nat) : w.Becomes answered (· = tid) (w.depart tid) := by
  unfold depart
  split
  · refine becomes_modify (fun task _ => becomes_of_tables rfl) (fun task _ hd => absurd rfl hd) ?_
    intro task _ op hop _
    exact .inl ⟨op, hop, rfl, rfl⟩
  refine becomes_of_tasks_sublist eraseP_sublist fun zombie hzombie => ?_
  rcases mem_append.mp hzombie with hold | hnew
  · exact .inl hold
  · have hget := Option.mem_toList.mp hnew
    exact .inr ⟨mem_of_get hget, id_of_get hget⟩

theorem becomes_leave (oracle : ExitOracle) (w : World) (tid : Nat) :
    w.Becomes answered (· = tid) (w.leave oracle tid) := by
  refine trans ?_ (becomes_notifyOwnerWatchers _ _ _ _)
  refine trans ?_ (becomes_notifyWatchers _ _ _ _)
  refine trans ?_ (becomes_peerDied _ _ _)
  refine trans ?_ (becomes_ownerDied _ _ _)
  refine trans ?_ (becomes_mapTasks_keeps fun task =>
    (keeps_releaseSender tid task).trans (.when (keeps_context _ _)))
  exact (becomes_depart w tid).trans (becomes_of_tasks_eq rfl (.refl _) rfl rfl rfl)

theorem becomes_finishRetirement (index : Nat) :
    w.Becomes answered dying (w.finishRetirement index) := by
  unfold finishRetirement
  split
  · exact .refl ..
  · exact (becomes_of_tasks_sublist filter_sublist fun zombie hzombie =>
      Or.inl (mem_of_mem_filter hzombie)).trans (becomes_of_tasks_eq rfl (.refl _) rfl rfl rfl)

theorem becomes_freeze (tid swapId : Nat) : w.Becomes answered dying (w.freeze tid swapId) := by
  refine becomes_modify_keeps fun task => ?_
  split
  · exact .refl task
  · exact ⟨rfl, fun _ => rfl⟩

theorem becomes_unfreeze (tid : Nat) : w.Becomes answered dying (w.unfreeze tid) := by
  refine trans ?_ (becomes_modify_keeps fun task => ?_)
  · exact becomes_mapTasks_keeps fun task => .when ⟨rfl, fun hl => hl⟩
  split
  · exact ⟨rfl, fun _ => rfl⟩
  · exact .refl task

theorem token_copyMessage
    (hmsg : msg.token = none) (h : copyMessage targetCell funding msg = some copied) :
    copied.token = none := by
  obtain ⟨_, -, rfl⟩ := Option.map_eq_some_iff.mp h
  unfold PendingMsg.token PendingMsg.wireHeader at hmsg ⊢
  cases hwire : msg.wire with
  | none => rfl
  | some =>
    rw [hwire] at hmsg
    rw [Option.bind_some, IpcWireMessage.tryClone]
    split
    · exact hmsg
    · rfl

/-- The copy loop only appends, and no requests. -/
theorem copyMailbox_append (targetCell : Nat) (funding : Nat → CopyFunding) (index : Nat)
    (source target : List PendingMsg) :
    ∃ copied, (copyMailbox targetCell funding index source target).2 = target ++ copied ∧
      ∀ msg ∈ copied, msg.token = none := by
  induction source generalizing index target with
  | nil => exact ⟨[], (append_nil target).symm, by simp⟩
  | cons msg _ ih =>
    rw [copyMailbox]
    split
    · exact ih (index + 1) target
    next hasync =>
    split
    · exact ⟨[], (append_nil target).symm, by simp⟩
    next copy hcopy =>
    split
    · obtain ⟨copied, heq, hnone⟩ := ih (index + 1) (target ++ [copy])
      have hmsg : msg.token = none := PendingMsg.isAsync_eq_false_iff.mp (by simpa using hasync)
      refine ⟨copy :: copied, by rw [heq, append_assoc]; rfl, ?_⟩
      intro m hm
      rcases mem_cons.mp hm with rfl | hm
      · exact token_copyMessage hmsg hcopy
      · exact hnone m hm
    · exact ⟨[], (append_nil target).symm, by simp⟩

theorem becomes_wakeReplacement (targetTid : Nat) (sender : Option Nat) :
    w.Becomes answered dying (w.wakeReplacement targetTid sender) := by
  unfold wakeReplacement
  split
  · exact .refl ..
  split
  · exact becomes_modify_keeps fun task =>
      (task.keeps_setReceivedRequestContext _ _ _ _).trans (keeps_ready _)
  · exact becomes_modify_keeps fun task => (task.keeps_context _).trans (keeps_ready _)

/-- **Cutover**: legacy messages are appended to the replacement's mailbox, requests
are dropped with the source's. -/
theorem becomes_cutover (serviceId : Nat)
    (funding : Nat → CopyFunding) (htarget : w.get target.id = some target) :
    w.Becomes answered dying (w.cutover source target serviceId funding).2 := by
  obtain ⟨copied, hcopied, hnone⟩ :=
    copyMailbox_append target.cellId funding 0 source.pendingMsgs target.pendingMsgs
  have hwrite (mailbox : List PendingMsg)
      (h : target.Becomes answered { target with pendingMsgs := mailbox }) :
      w.Becomes answered dying (w.modify target.id fun task => { task with pendingMsgs := mailbox }) :=
    becomes_modify_get htarget h id fun op hop _ => .inl ⟨op, hop, rfl, rfl⟩
  have hrollback := hwrite ((target.pendingMsgs ++ copied).take target.pendingMsgs.length)
    (by rw [take_left]; exact becomes_of_tables rfl)
  unfold cutover
  dsimp only
  rw [hcopied]
  split
  · exact .refl ..
  split
  · exact .refl ..
  split
  · exact hrollback
  split
  · exact hrollback
  refine trans ?_ (becomes_wakeReplacement _ _ _)
  refine trans ?_ (becomes_modify_keeps fun task => ⟨rfl, fun hl => hl⟩)
  refine trans ?_ (becomes_cutoverPeer _ _ _)
  refine trans ?_ (becomes_modify_of_rows (fun task => ?_) (fun _ => rfl) fun _ hl => hl)
  · exact (hwrite _ (becomes_append hnone)).trans (becomes_of_tasks_eq rfl (.refl _) rfl rfl rfl)
  · exact (becomes_of_sublist (nil_sublist _)).trans (becomes_of_tables rfl)

theorem becomes_commitHotswapBarrier (source target serviceId : Nat) (funding : Nat → CopyFunding) :
    w.Becomes answered dying (w.commitHotswapBarrier source target serviceId funding).2 := by
  unfold commitHotswapBarrier
  split
  · exact .refl ..
  split
  · exact .refl ..
  split
  · exact .refl ..
  next htask =>
  split
  · exact .refl ..
  · exact becomes_cutover w serviceId funding (by rw [id_of_get htask, htask])

variable {w}

/-- A legacy message arrives, or is refused. -/
theorem becomes_tryModify
    (hg : ∀ task task', g task = some task' → ∃ msg : PendingMsg, msg.token = none ∧
      task' = { task with pendingMsgs := task.pendingMsgs ++ [msg] }) :
    w.Becomes answered dying (w.tryModify tid g).2 := by
  unfold tryModify
  split
  · exact .refl ..
  next task' htask' =>
  obtain ⟨task, hget, hg'⟩ := Option.bind_eq_some_iff.mp htask'
  obtain ⟨_, hnone, rfl⟩ := hg task task' hg'
  exact becomes_modify_get hget (becomes_append (by simpa using hnone)) id
    fun op hop _ => .inl ⟨op, hop, rfl, rfl⟩

end

end World

end Cellos.AsyncIpc
