import Cellos.AsyncIpc.Invariant

/-!
# Cellos.AsyncIpc.Steps

Every step of the system keeps the invariant, and what a step can do to the rows
and the requests is one relation: `Change`.

A row after the step was there before, further back on its line, or it is the
queued row of a submission that was in flight.  A row before the step is still
there, or a `take` has just handed out its result, or its task has left.
-/

namespace Cellos.AsyncIpc

open Lib List Option

/-! ## what a response tells -/

namespace Response

/-- The operation a reply was accepted for. -/
def answered : Response → Option Nat
  | .replied token (.ok ()) => some token
  | .bridged (.answered token (.ok ())) => some token
  | _ => none

/-- The operation a `take` has removed, and what it handed out. -/
def takes : Response → Option (Nat × Taken)
  | .taken token (.ok (some result)) => some (token, result)
  | _ => none

/-- The token of an accepted submission. -/
def accepts : Response → Option Nat
  | .submitted (.ok token) => some token
  | _ => none

/-- The request a receiver was shown. -/
def shows : Response → Option Nat
  | .received _ (.shown msg) => msg.token
  | _ => none

end Response

/-- What `take` hands out for a finished operation. -/
def Operation.result (op : Operation) : Option Taken :=
  match op.phase with
  | .terminal kind _ => some ⟨kind, op.data, statusRecord kind op.data.length⟩
  | _ => none

/-- The row of a submission that the step accepts: its owner and its peer are live tasks of the
incarnations the row records. -/
structure Admitted (r : Response) (w : World) (op : Operation) : Prop where
  flight : ∃ s ∈ w.submissions, s.token = some op.id
  phase : op.phase = .queued
  accepted : r.accepts = some op.id
  owner : ∃ owner, w.getLive op.ownerTid = some owner ∧ owner.binding = op.ownerBinding
  peer : ∃ peer, w.getLive op.peerTid = some peer ∧ peer.binding = op.peerBinding

/-- **What a step can do** to operations and requests. -/
structure Change (r : Response) (w w' : World) : Prop where
  rows : ∀ task' ∈ w'.tasks, ∀ op' ∈ task'.rows,
    (∃ task ∈ w.tasks, task.id = task'.id ∧
      ∃ op ∈ task.rows, op.Becomes (fun token => r.answered = some token) op') ∨
    Admitted r w op'
  kept : ∀ task ∈ w.tasks, ∀ op ∈ task.rows,
    (∃ task' ∈ w'.tasks, task'.id = task.id ∧
      ∃ op' ∈ task'.rows, op.Becomes (fun token => r.answered = some token) op') ∨
    (∃ result, op.result = some result ∧ r.takes = some (op.id, result)) ∨
    ∀ task' ∈ w'.tasks, task'.id ≠ task.id
  /-- A task that left was in the table when the step began. -/
  buried : ∀ zombie' ∈ w'.zombies, ∀ op' ∈ zombie'.rows, ∃ task ∈ w.tasks ++ w.zombies,
    ∃ op ∈ task.rows, op.Becomes (fun token => r.answered = some token) op'
  mail : ∀ task' ∈ w'.tasks, ∀ token ∈ task'.tokens,
    (∃ task ∈ w.tasks, token ∈ task.tokens) ∨ ∃ s ∈ w.submissions, s.token = some token
  flights : ∀ s' ∈ w'.submissions, ∀ token, s'.token = some token →
    (∃ s ∈ w.submissions, s.token = some token) ∨ w.nextOperation ≤ token
  counter : w.nextOperation ≤ w'.nextOperation
  /-- The id of a task that left is not given out again. -/
  ids : ∀ task' ∈ w'.tasks, (∃ task ∈ w.tasks, task.id = task'.id) ∨ w.nextTaskId ≤ task'.id
  nextTaskId : w.nextTaskId ≤ w'.nextTaskId

namespace World

section

variable {w w' : World} {tid : Nat} {task' : Task} {op : Operation} {s : Submission}

/-- A change that takes up no submission. -/
theorem Valid.change_of_becomes (hw : w.Valid)
    (h : w.Becomes (fun token => r.answered = some token) dying w') : Change r w w' where
  rows := by
    intro task' htask' op' hop'
    obtain ⟨task, htask, hb, -⟩ := h.tasks task' htask'
    obtain ⟨op, hop, hbo⟩ := hb.rows op' hop'
    exact .inl ⟨task, htask, hb.id.symm, op, hop, hbo⟩
  kept := by
    intro task htask op hop
    by_cases hleft : ∀ task' ∈ w'.tasks, task'.id ≠ task.id
    · exact .inr (.inr hleft)
    simp only [not_forall, not_not] at hleft
    obtain ⟨task', htask', hid⟩ := hleft
    obtain ⟨task₂, htask₂, hb, -⟩ := h.tasks task' htask'
    obtain rfl : task₂ = task := hw.task_eq htask₂ htask (hb.id ▸ hid)
    have hmem : op.id ∈ task'.rows.map Operation.id := hb.ids ▸ mem_map_of_mem hop
    obtain ⟨op', hop', hopid⟩ := mem_map.mp hmem
    obtain ⟨op₂, hop₂, hbo⟩ := hb.rows op' hop'
    obtain rfl : op₂ = op := (hw.row_eq htask htask hop₂ hop (hbo.id ▸ hopid)).2
    exact .inl ⟨task', htask', hid, op', hop', hbo⟩
  buried := by
    intro zombie hzombie op' hop'
    rcases h.zombies zombie hzombie with hold | ⟨⟨task, htask, -, hb⟩, -⟩
    · exact ⟨zombie, mem_append_right _ hold, op', hop', .refl _ op'⟩
    · obtain ⟨op, hop, hbo⟩ := hb.rows op' hop'
      exact ⟨task, mem_append_left _ htask, op, hop, hbo⟩
  mail := by
    intro task' htask' token htoken
    obtain ⟨task, htask, hb, -⟩ := h.tasks task' htask'
    exact .inl ⟨task, htask, hb.tokens.subset htoken⟩
  flights := by
    intro s' hs' token htoken
    rw [h.submissions] at hs'
    exact .inl ⟨s', hs', htoken⟩
  counter := h.nextOperation.ge
  ids := by
    intro task' htask'
    obtain ⟨task, htask, hb, -⟩ := h.tasks task' htask'
    exact .inl ⟨task, htask, hb.id.symm⟩
  nextTaskId := h.nextTaskId.ge

/-- What a step gives: a valid world, changed as `Change` says. -/
def Steps (r : Response) (w w' : World) : Prop := w'.Valid ∧ Change r w w'

theorem Valid.steps_of_becomes (hw : w.Valid)
    (h : w.Becomes (fun token => r.answered = some token) (fun _ => False) w') : Steps r w w' :=
  ⟨hw.of_becomes_live h, hw.change_of_becomes h⟩

theorem Valid.steps_of_reaches (hw : w.Valid)
    (h : Reaches (fun token => r.answered = some token) w w') : Steps r w w' :=
  ⟨h.1, hw.change_of_becomes h.2⟩

/-! ## steps that add no row and no mail -/

/-- A record that lost rows and nothing else. -/
structure Dropped (task task' : Task) : Prop where
  id : task'.id = task.id
  binding : task'.binding = task.binding
  live : task'.live = task.live
  mail : task'.pendingMsgs = task.pendingMsgs
  rows : task'.rows.Sublist task.rows

theorem Dropped.refl (task : Task) : Dropped task task := ⟨rfl, rfl, rfl, rfl, .refl _⟩

open Submission

/-- A record lost rows at most, or is new and empty; a token in flight was in flight before
or has just been drawn. -/
structure Thins (w w' : World) : Prop where
  ids : (w'.tasks.map Task.id).Nodup
  idsLt : ∀ task' ∈ w'.tasks, task'.id < w'.nextTaskId
  tasks : ∀ task' ∈ w'.tasks, (∃ task ∈ w.tasks, Dropped task task') ∨
    w.nextTaskId ≤ task'.id ∧ task'.rows = [] ∧ task'.pendingMsgs = []
  zombies : w'.zombies = w.zombies
  nextTaskId : w.nextTaskId ≤ w'.nextTaskId
  counter : w.nextOperation ≤ w'.nextOperation
  flights : ∀ s ∈ w'.submissions, ∀ message, s.wire = some message → s ∈ w.submissions ∨
    message.header.asyncOp = w.nextOperation ∧ w.nextOperation < w'.nextOperation ∧
    message.header.senderTid = s.owner ∧
    (message.header.senderCellId, message.header.senderGeneration) = s.binding
  flightsNodup : (w'.submissions.filterMap token).Nodup

namespace Thins

variable {task' : Task}

variable (h : Thins w w')

include h

variable (htask' : task' ∈ w'.tasks)

include htask'

theorem row (hop : op ∈ task'.rows) : ∃ task ∈ w.tasks, Dropped task task' ∧ op ∈ task.rows := by
  rcases h.tasks task' htask' with ⟨task, htask, hd⟩ | ⟨-, hrows, -⟩
  · exact ⟨task, htask, hd, hd.rows.subset hop⟩
  · simp [hrows] at hop

theorem msg {msg : PendingMsg} (hmsg : msg ∈ task'.pendingMsgs) :
    ∃ task ∈ w.tasks, Dropped task task' ∧ msg ∈ task.pendingMsgs := by
  rcases h.tasks task' htask' with ⟨task, htask, hd⟩ | ⟨-, -, hmail⟩
  · exact ⟨task, htask, hd, hd.mail ▸ hmsg⟩
  · simp [hmail] at hmsg

theorem token {token : Nat}
    (htoken : token ∈ task'.tokens) : ∃ task ∈ w.tasks, token ∈ task.tokens := by
  obtain ⟨msg, hmsg, hof⟩ := mem_filterMap.mp htoken
  obtain ⟨task, htask, -, hold⟩ := h.msg htask' hmsg
  exact ⟨task, htask, mem_filterMap.mpr ⟨msg, hold, hof⟩⟩

omit htask' in
theorem unsent {token : Nat} (hnone : ∀ task ∈ w.tasks, token ∉ task.tokens) :
    ∀ task' ∈ w'.tasks, token ∉ task'.tokens := by
  intro task' htask' htoken
  obtain ⟨task, htask, hmem⟩ := h.token htask' htoken
  exact hnone task htask hmem

theorem peer (hlt : task'.id < w.nextTaskId) : ∃ task ∈ w.tasks, Dropped task task' := by
  rcases h.tasks task' htask' with hold | ⟨hle, -, -⟩
  · exact hold
  · omega

omit htask'

theorem flight (hs : s ∈ w'.submissions) {token : Nat} (htoken : s.token = some token) :
    (∃ s ∈ w.submissions, s.token = some token) ∨ token = w.nextOperation := by
  obtain ⟨message, hmessage, rfl⟩ := map_eq_some_iff.mp htoken
  exact (h.flights s hs message hmessage).imp (fun hold => ⟨s, hold, htoken⟩) fun hnew => hnew.1

omit h

end Thins

open AsyncIpc.Task

variable (hw : w.Valid)

include hw

/-- **Invariant rule**: nothing asks for a row or a message to be there. -/
theorem Valid.of_thins (h : Thins w w') : w'.Valid where
  ids := h.ids
  idsLt := h.idsLt
  owned := by grind [Thins.row, Dropped, hw.owned]
  issued := by grind [Thins.row, hw.issued, h.counter, h.nextTaskId]
  rowsNodup := by
    intro task' htask'
    rcases h.tasks task' htask' with ⟨task, htask, hd⟩ | ⟨-, hrows, -⟩
    · exact (hw.rowsNodup task htask).sublist (hd.rows.map Operation.id)
    · simp [hrows]
  rowsUnique := by grind [Thins.row, Dropped, hw.rowsUnique]
  bound := by
    intro task' htask' op hop peer' hpeer' hid
    obtain ⟨task, htask, -, hop⟩ := h.row htask' hop
    obtain ⟨peer, hpeer, hd⟩ := h.peer hpeer' (hid ▸ (hw.issued task htask op hop).2.2)
    rw [hd.binding]
    exact hw.bound task htask op hop peer hpeer (hd.id ▸ hid)
  mailNodup := by
    intro task' htask'
    unfold tokens
    rcases h.tasks task' htask' with ⟨task, htask, hd⟩ | ⟨-, -, hmail⟩
    · rw [hd.mail]
      exact hw.mailNodup task htask
    · simp [hmail]
  mailIssued := by
    intro task' htask' token htoken
    obtain ⟨task, htask, hmem⟩ := h.token htask' htoken
    exact (hw.mailIssued task htask token hmem).trans_le h.counter
  addressed := by grind [Thins.row, Thins.msg, Dropped, hw.addressed]
  queuedLive := by
    intro task' htask' op hop hqueued
    obtain ⟨task, htask, hd, hop⟩ := h.row htask' hop
    obtain ⟨hlive, hpeers⟩ := hw.queuedLive task htask op hop hqueued
    refine ⟨hd.live.trans hlive, fun peer' hpeer' hid => ?_⟩
    obtain ⟨peer, hpeer, hdp⟩ := h.peer hpeer' (hid ▸ (hw.issued task htask op hop).2.2)
    exact hdp.live.trans (hpeers peer hpeer (hdp.id ▸ hid))
  withdrawn := by grind [Thins.row, Thins.unsent, hw.withdrawn]
  buried := by grind [Thins.unsent, Thins.flight, h.zombies, h.counter, hw.buried]
  flights := by
    -- a token that has just been drawn is larger than every token issued before
    grind [Thins.unsent, Thins.row, Thins.token, h.flights, h.counter, hw.flights, hw.issued,
      hw.mailIssued, hw.started]
  flightsNodup := h.flightsNodup
  started := hw.started.trans_le h.counter

/-- A row that is gone was handed out. -/
theorem Valid.steps_of_thins (h : Thins w w') (hkept : ∀ task ∈ w.tasks, ∀ op ∈ task.rows,
      (∃ task' ∈ w'.tasks, task'.id = task.id ∧ op ∈ task'.rows) ∨
      ∃ result, op.result = some result ∧ r.takes = some (op.id, result)) : Steps r w w' := by
  refine ⟨hw.of_thins h, ?_⟩
  exact
    { rows := by
        intro task' htask' op hop
        obtain ⟨task, htask, hd, hop⟩ := h.row htask' hop
        exact .inl ⟨task, htask, hd.id.symm, op, hop, .refl _ op⟩
      kept := by
        intro task htask op hop
        rcases hkept task htask op hop with ⟨task', htask', hid, hop'⟩ | htaken
        · exact .inl ⟨task', htask', hid, op, hop', .refl _ op⟩
        · exact .inr (.inl htaken)
      buried := by
        rw [h.zombies]
        exact fun zombie hzombie op hop =>
          ⟨zombie, mem_append_right _ hzombie, op, hop, .refl _ op⟩
      mail := fun task' htask' token htoken => .inl (h.token htask' htoken)
      flights := fun s hs token htoken =>
        (h.flight hs htoken).imp_right fun hnew => hnew.ge
      counter := h.counter
      ids := by
        intro task' htask'
        rcases h.tasks task' htask' with ⟨task, htask, hd⟩ | ⟨hnew, -⟩
        · exact .inl ⟨task, htask, hd.id.symm⟩
        · exact .inr hnew
      nextTaskId := h.nextTaskId }

/-! ## spawn -/

theorem Valid.steps_spawn (cellId generation : Nat) (rootTid : Option Nat)
    (supervisor : Bool) (source : Option Nat) :
    Steps .silent w (w.spawn cellId generation rootTid supervisor source) := by
  refine hw.steps_of_thins
    { ids := ?_, idsLt := ?_, tasks := ?_, zombies := rfl, nextTaskId := Nat.le_succ _,
      counter := le_rfl, flights := fun s hs _ _ => .inl hs,
      flightsNodup := hw.flightsNodup } fun task htask op hop =>
        Or.inl ⟨task, mem_append_left _ htask, rfl, hop⟩
  · exact nodup_map_concat hw.ids fun task htask => (hw.idsLt task htask).ne
  · exact forall_mem_concat (fun task htask => Nat.lt_succ_of_lt (hw.idsLt task htask))
      (Nat.lt_succ_self _)
  · exact forall_mem_concat (fun task htask => .inl ⟨task, htask, .refl task⟩)
      (.inr ⟨le_rfl, rfl, rfl⟩)

/-! ## submit -/

/-- The tables stay as they are; a token in flight was in flight before or has just
been drawn. -/
theorem Valid.steps_of_submissions (htasks : w'.tasks = w.tasks)
    (hzombies : w'.zombies = w.zombies) (hnext : w'.nextTaskId = w.nextTaskId)
    (hcounter : w.nextOperation ≤ w'.nextOperation)
    (hsub : ∀ s ∈ w'.submissions, ∀ message, s.wire = some message → s ∈ w.submissions ∨
      message.header.asyncOp = w.nextOperation ∧ w.nextOperation < w'.nextOperation ∧
      message.header.senderTid = s.owner ∧
      (message.header.senderCellId, message.header.senderGeneration) = s.binding)
    (hnodup : (w'.submissions.filterMap token).Nodup) : Steps r w w' := by
  refine hw.steps_of_thins ⟨htasks ▸ hw.ids, ?_, ?_, hzombies, hnext.ge, hcounter, hsub, hnodup⟩
    fun task htask op hop => .inl ⟨task, htasks ▸ htask, rfl, hop⟩
  · rw [htasks, hnext]
    exact hw.idsLt
  · rw [htasks]
    exact fun task htask => .inl ⟨task, htask, .refl task⟩

theorem Valid.steps_eraseSubmission (index : Nat) :
    Steps r w { w with submissions := w.submissions.eraseIdx index } := by
  have hsub := eraseIdx_sublist w.submissions index
  refine hw.steps_of_submissions rfl rfl rfl le_rfl ?_ ?_
  · exact fun s hs message _ => .inl (hsub.subset hs)
  · exact hw.flightsNodup.sublist (hsub.filterMap token)

omit hw

/-- Between the sections a token is drawn, and a request that comes of it carries the token and
the owner's identity. -/
theorem submitPrepare_spec (w : World) (s : Submission) (buffer : UserBuffer)
    (wireFunded replyFunded : Bool) : ∃ deliveries counter, w.nextOperation ≤ counter ∧
      (w.submitPrepare s buffer wireFunded replyFunded).2 =
        { w with nextOperation := counter, nextDeliveryId := deliveries } ∧
      ∀ message, (w.submitPrepare s buffer wireFunded replyFunded).1 = .ok message →
        message.header.asyncOp = w.nextOperation ∧ w.nextOperation < counter ∧
        message.header.senderTid = s.owner ∧
        (message.header.senderCellId, message.header.senderGeneration) = s.binding := by
  unfold submitPrepare newToken
  split
  · exact ⟨_, _, le_rfl, rfl, by simp⟩
  next htoken =>
  split at htoken
  · cases htoken
    dsimp only
    split
    · exact ⟨_, _, Nat.le_succ _, rfl, by simp⟩
    next hmessage =>
    split
    · refine ⟨_, _, Nat.le_succ _, rfl, fun message' hok => ?_⟩
      cases hok
      rw [IpcWireMessage.header_of_tryFromUser hmessage]
      exact ⟨rfl, Nat.lt_succ_self _, rfl, rfl⟩
    · exact ⟨_, _, Nat.le_succ _, rfl, by simp⟩
  · contradiction

theorem get_modify (hf : ∀ task, w.get tid = some task → (f task).id = tid) :
    (w.modify tid f).get k = (w.get k).map fun task => if task.id = tid then f task else task :=
  find?_updateFirst hf k

/-- Where the record of a task comes from, after a write that keeps task ids. -/
theorem exists_of_get_modify (h : (w.modify tid f).get k = some task')
    (hf : ∀ task, w.get tid = some task → (f task).id = tid) :
    ∃ task, w.get k = some task ∧ task' = if task.id = tid then f task else task := by
  obtain ⟨task, htask, heq⟩ := map_eq_some_iff.mp ((get_modify hf).symm.trans h)
  exact ⟨task, htask, heq.symm⟩

/-- What an accepted submission does to a task: the owner gets the row, the peer the
message. -/
@[grind cases]
structure Published (s : Submission) (op : Operation) (msg : PendingMsg) (task task' : Task) :
    Prop where
  id : task'.id = task.id
  binding : task'.binding = task.binding
  live : task.live = true → task'.live = true
  rows : task'.rows = if task.id = s.owner then task.rows ++ [op] else task.rows
  mail : task'.pendingMsgs =
    if task.id = s.peer then task.pendingMsgs ++ [msg] else task.pendingMsgs

/-- What an accepted submission does to the world. -/
structure Accepted (s : Submission) (op : Operation) (msg : PendingMsg) (w w' : World) : Prop where
  owner : ∃ caller ∈ w.tasks, caller.id = s.owner ∧ caller.binding = s.binding ∧ caller.live = true
  peer : ∃ receiver ∈ w.tasks, receiver.id = s.peer ∧ receiver.binding = s.peerBinding ∧
    receiver.live = true
  ids : w'.tasks.map Task.id = w.tasks.map Task.id
  tasks : ∀ task' ∈ w'.tasks, ∃ task ∈ w.tasks, Published s op msg task task'
  zombies : w'.zombies = w.zombies
  nextTaskId : w'.nextTaskId = w.nextTaskId
  nextOperation : w'.nextOperation = w.nextOperation
  submissions : w'.submissions = w.submissions

theorem mem_of_getBound {binding : Nat × Nat} {task : Task}
    (h : w.getBound tid binding = some task) :
    w.get tid = some task ∧ task.binding = binding ∧ task.live = true := by
  obtain ⟨hget, hcond⟩ := filter_eq_some_iff.mp h
  simp only [Bool.and_eq_true, beq_iff_eq] at hcond
  exact ⟨hget, hcond.2, hcond.1⟩

/-- Two writes, first to the owner and then to the peer, are a publication. -/
theorem Valid.accepted (hw : w.Valid) (hcaller : w.getBound s.owner s.binding = some caller)
    (hreceiver : w.getBound s.peer s.peerBinding = some receiver)
    (hops : ops.rows = caller.rows ++ [op])
    (htarget : (w.modify s.owner fun task => { task with asyncOperations := ops }).get s.peer =
      some target)
    (hqueued : Keeps { target with pendingMsgs := target.pendingMsgs ++ [msg] } queued) :
    Accepted s op msg w
      ((w.modify s.owner fun task => { task with asyncOperations := ops }).modify s.peer
        fun _ => queued) := by
  obtain ⟨hgetc, hbindc, hlivec⟩ := mem_of_getBound hcaller
  obtain ⟨hgetr, hbindr, hliver⟩ := mem_of_getBound hreceiver
  obtain ⟨hqid, hqbind, hqops, hqmail⟩ := tables_eq_iff.mp hqueued.1
  have htid : target.id = s.peer := id_of_get htarget
  have hid₂ : queued.id = s.peer := hqid.trans htid
  have hids : ((w.modify s.owner fun task => { task with asyncOperations := ops }).modify s.peer
      fun _ => queued).tasks.map Task.id = w.tasks.map Task.id := by
    refine (map_updateFirst Task.id fun task h => ?_).trans (map_updateFirst Task.id fun _ _ => rfl)
    rw [hid₂]
    exact (id_of_get (w := w.modify s.owner fun task => { task with asyncOperations := ops }) h).symm
  refine ⟨⟨caller, mem_of_get hgetc, id_of_get hgetc, hbindc, hlivec⟩,
    ⟨receiver, mem_of_get hgetr, id_of_get hgetr, hbindr, hliver⟩, hids, ?_,
    rfl, rfl, rfl, rfl⟩
  intro task' htask'
  -- follow the record through the two writes
  have hget' := find?_key_of_nodup (hids ▸ hw.ids) htask'
  obtain ⟨task₁, hget₁, hwrite₂⟩ := exists_of_get_modify hget' fun _ _ => hid₂
  obtain ⟨task, hget, hwrite₁⟩ := exists_of_get_modify hget₁ fun task h => by
    have hid : task.id = s.owner := id_of_get h
    exact hid
  have hrows₁ : task₁.rows = if task.id = s.owner then task.rows ++ [op] else task.rows := by
    rw [hwrite₁]
    split
    · next howner =>
      obtain rfl : caller = task := by
        rw [← id_of_get hget, howner, hgetc] at hget
        exact some.inj hget
      exact hops
    · rfl
  have hsame : task₁.id = task.id ∧ task₁.binding = task.binding ∧ task₁.state = task.state ∧
      task₁.pendingMsgs = task.pendingMsgs := by
    rw [hwrite₁]
    split <;> exact ⟨rfl, rfl, rfl, rfl⟩
  obtain ⟨hid, hbinding, hstate, hmail⟩ := hsame
  have hlive : task.live = true → task₁.live = true := by
    unfold live
    rw [hstate]
    exact fun h => h
  refine ⟨task, mem_of_get hget, ?_⟩
  split at hwrite₂
  · next hpeer =>
    obtain rfl : target = task₁ := by
      rw [← id_of_get hget₁, hpeer, htarget] at hget₁
      exact some.inj hget₁
    subst hwrite₂
    exact
      { id := hqid.trans hid
        binding := hqbind.trans hbinding
        live := fun h => hqueued.2 (hlive h)
        rows := by rw [rows, hqops]; exact hrows₁
        mail := by rw [hqmail, hmail, if_pos (hid ▸ hpeer)] }
  · next hpeer =>
    subst hwrite₂
    exact ⟨hid, hbinding, hlive, hrows₁, by rw [hmail, if_neg (hid ▸ hpeer)]⟩

/-- The request message of an accepted submission. -/
def requestMsg (message : IpcWireMessage) (ticks : Nat) : PendingMsg :=
  ⟨message.header.senderTid, PendingMsgData.empty, some message, ticks⟩

theorem remove_of_push {ops' : Operations}
    (h : ops.push op funded = .ok ops') (hnew : ∀ row ∈ ops.rows, row.id ≠ op.id) :
    ops'.remove op.id = ops := by
  have hrows : ops'.rows.eraseP (·.id == op.id) = ops.rows := by
    rw [Operations.rows_of_push h, eraseP_append_right _ (by simpa using hnew),
      eraseP_cons_of_pos (by simp), append_nil]
  cases ops
  rw [Operations.mk.injEq]
  exact hrows

/-- **The second section of `submit`** publishes both the row and the message, or
leaves everything as it was. -/
theorem Valid.submitFinish_spec (hw : w.Valid) (s : Submission) (message : IpcWireMessage)
    (ticks : Nat) (rowFunded slotFunded : Bool)
    (hfree : ∀ task ∈ w.tasks, ∀ op ∈ task.rows, op.id ≠ message.header.asyncOp) :
    (∃ failure, w.submitFinish s message ticks rowFunded slotFunded = (.error failure, w)) ∨
    (w.submitFinish s message ticks rowFunded slotFunded).1 = .ok message.header.asyncOp ∧
      Accepted s (newOperation s message.header.asyncOp ticks) (requestMsg message ticks) w
        (w.submitFinish s message ticks rowFunded slotFunded).2 := by
  unfold submitFinish
  dsimp only
  split
  · exact .inl ⟨_, rfl⟩
  next caller hcaller =>
  split
  · exact .inl ⟨_, rfl⟩
  split
  · exact .inl ⟨_, rfl⟩
  next hreceiver =>
  split
  · exact .inl ⟨_, rfl⟩
  split
  · exact .inl ⟨_, rfl⟩
  split
  · exact .inl ⟨_, rfl⟩
  next ops hops =>
  have hget : w.get s.owner = some caller := (mem_of_getBound hcaller).1
  have hid : ∀ task : Task, w.get s.owner = some task → task.id = s.owner := fun task => id_of_get
  split
  · next hnone =>
    -- the peer was found before the row was written
    rw [get_modify (f := fun task => { task with asyncOperations := ops }) hid,
      (mem_of_getBound hreceiver).1] at hnone
    contradiction
  next htarget =>
  split
  · left
    refine ⟨_, Prod.ext rfl ?_⟩
    have hundo : updateFirst (fun task : Task => task.id == s.owner) (fun task => { task with
          asyncOperations := task.asyncOperations.remove message.header.asyncOp })
        (updateFirst (fun task => task.id == s.owner)
          (fun task => { task with asyncOperations := ops }) w.tasks) = w.tasks := by
      refine updateFirst_undo fun task htask => ?_
      obtain rfl : caller = task := some.inj (hget.symm.trans htask)
      have hrows : ops.remove message.header.asyncOp = caller.asyncOperations :=
        remove_of_push hops (hfree caller (mem_of_get hget))
      refine ⟨by simpa using hid caller hget, ?_⟩
      rw [hrows]
    exact congrArg (fun tasks => ({ w with tasks } : World)) hundo
  · next hqueued =>
    right
    refine ⟨rfl, hw.accepted hcaller hreceiver (Operations.rows_of_push hops) htarget ?_⟩
    unfold queueWireMsg at hqueued
    split at hqueued
    · contradiction
    split at hqueued
    · cases hqueued
      exact .when (keeps_ready _)
    · contradiction

section

variable {s : Submission} {op : Operation}

theorem Accepted.get_new (h : Accepted s op msg w w')
    (htask' : task' ∈ w'.tasks) (hop' : op' ∈ task'.rows) :
    (∃ task ∈ w.tasks, Published s op msg task task' ∧ op' ∈ task.rows) ∨
      op' = op ∧ task'.id = s.owner := by
  obtain ⟨task, htask, hp⟩ := h.tasks task' htask'
  rw [hp.rows] at hop'
  split at hop'
  · next howner =>
    rcases mem_append.mp hop' with hold | hnew
    · exact .inl ⟨task, htask, hp, hold⟩
    · exact .inr ⟨mem_singleton.mp hnew, hp.id.trans howner⟩
  · exact .inl ⟨task, htask, hp, hop'⟩

theorem Accepted.mail_new (h : Accepted s op msg w w')
    (htask' : task' ∈ w'.tasks) (hmsg' : msg' ∈ task'.pendingMsgs) :
    (∃ task ∈ w.tasks, Published s op msg task task' ∧ msg' ∈ task.pendingMsgs) ∨
      msg' = msg ∧ task'.id = s.peer := by
  obtain ⟨task, htask, hp⟩ := h.tasks task' htask'
  rw [hp.mail] at hmsg'
  split at hmsg'
  · next hpeer =>
    rcases mem_append.mp hmsg' with hold | hnew
    · exact .inl ⟨task, htask, hp, hold⟩
    · exact .inr ⟨mem_singleton.mp hnew, hp.id.trans hpeer⟩
  · exact .inl ⟨task, htask, hp, hmsg'⟩

/-- A token that was drawn and is nowhere yet. -/
@[grind cases]
structure Fresh (w : World) (token : Nat) : Prop where
  positive : token ≠ 0
  issued : token < w.nextOperation
  rows : ∀ task ∈ w.tasks, ∀ op ∈ task.rows, op.id ≠ token
  mail : ∀ task ∈ w.tasks, token ∉ task.tokens
  flights : ∀ s ∈ w.submissions, s.token ≠ some token
  buried : ∀ zombie ∈ w.zombies, ∀ op ∈ zombie.rows, op.id ≠ token

variable {message : IpcWireMessage} {ticks : Nat}

theorem token_requestMsg (h0 : message.header.asyncOp ≠ 0) :
    (requestMsg message ticks).token = some message.header.asyncOp := by
  simp [requestMsg, PendingMsg.token, PendingMsg.wireHeader, h0]

theorem Accepted.tokens_new (h : Accepted s op (requestMsg message ticks) w w')
    (h0 : message.header.asyncOp ≠ 0) {token : Nat} (htask' : task' ∈ w'.tasks)
    (htoken : token ∈ task'.tokens) :
    (∃ task ∈ w.tasks, token ∈ task.tokens) ∨ token = message.header.asyncOp := by
  obtain ⟨msg, hmsg, hof⟩ := mem_filterMap.mp htoken
  rcases h.mail_new htask' hmsg with ⟨task, htask, -, hold⟩ | ⟨rfl, -⟩
  · exact .inl ⟨task, htask, mem_filterMap.mpr ⟨msg, hold, hof⟩⟩
  · rw [token_requestMsg h0] at hof
    exact .inr (some.inj hof).symm

theorem Accepted.not_mem_tokens (h : Accepted s op (requestMsg message ticks) w w')
    (h0 : message.header.asyncOp ≠ 0) {token : Nat} (hne : token ≠ message.header.asyncOp)
    (hnone : ∀ task ∈ w.tasks, token ∉ task.tokens) : ∀ task' ∈ w'.tasks, token ∉ task'.tokens := by
  intro task' htask' htoken
  rcases h.tokens_new h0 htask' htoken with ⟨task, htask, hmem⟩ | heq
  · exact hnone task htask hmem
  · exact hne heq

/-- **Acceptance** keeps the invariant: the row says where the message is. -/
theorem Valid.of_accepted (hw : w.Valid) (hf : Fresh w message.header.asyncOp)
    (hsender : message.header.senderTid = s.owner)
    (hbinding : (message.header.senderCellId, message.header.senderGeneration) = s.binding)
    (h : Accepted s (newOperation s message.header.asyncOp ticks) (requestMsg message ticks) w w') :
    w'.Valid := by
  obtain ⟨caller, hcaller, hcid, hcbind, hclive⟩ := h.owner
  obtain ⟨receiver, hreceiver, hrid, hrbind, hrlive⟩ := h.peer
  have hnextTask := h.nextTaskId
  have hnext := h.nextOperation
  exact
    { ids := by rw [h.ids]; exact hw.ids
      idsLt := by
        have hlt := hw.idsLt
        grind [Accepted.tasks]
      owned := by
        intro task' htask' op' hop'
        rcases h.get_new htask' hop' with ⟨task, htask, hp, hop⟩ | ⟨rfl, hid⟩
        · rw [hp.id, hp.binding]
          exact hw.owned task htask op' hop
        · obtain ⟨task, htask, hp⟩ := h.tasks task' htask'
          obtain rfl : task = caller := hw.task_eq htask hcaller (by rw [← hp.id, hid, hcid])
          exact ⟨hid.symm, by rw [hp.binding, hcbind]; rfl⟩
      issued := by
        have hlt := hw.idsLt
        grind [Accepted.get_new, hw.issued, newOperation]
      rowsNodup := by
        intro task' htask'
        obtain ⟨task, htask, hp⟩ := h.tasks task' htask'
        rw [hp.rows]
        split
        · exact nodup_map_concat (hw.rowsNodup task htask) (hf.rows task htask)
        · exact hw.rowsNodup task htask
      rowsUnique := by grind [Accepted.get_new, hw.rowsUnique, newOperation]
      bound := by
        intro task' htask' op' hop' peer' hpeer' hid
        obtain ⟨peer, hpeer, hpp⟩ := h.tasks peer' hpeer'
        rw [hpp.binding]
        rw [hpp.id] at hid
        rcases h.get_new htask' hop' with ⟨task, htask, -, hop⟩ | ⟨rfl, -⟩
        · exact hw.bound task htask op' hop peer hpeer hid
        · obtain rfl : peer = receiver := hw.task_eq hpeer hreceiver (hid.trans hrid.symm)
          exact hrbind
      mailNodup := by
        intro task' htask'
        obtain ⟨task, htask, hp⟩ := h.tasks task' htask'
        unfold tokens
        rw [hp.mail]
        split
        · rw [filterMap_append, filterMap_cons_some (token_requestMsg hf.positive), nodup_append]
          refine ⟨hw.mailNodup task htask, nodup_singleton _, fun token hold token' hnew heq => ?_⟩
          obtain rfl : token' = message.header.asyncOp := mem_singleton.mp hnew
          exact hf.mail task htask (heq ▸ hold)
        · exact hw.mailNodup task htask
      mailIssued := by
        have hissued := hw.mailIssued
        grind [Accepted.tokens_new]
      addressed := by
        intro task' htask' op' hop' peer' hpeer' msg hmsg htoken
        rcases h.get_new htask' hop' with ⟨task, htask, -, hop⟩ | ⟨rfl, -⟩ <;>
          rcases h.mail_new hpeer' hmsg with ⟨peer, hpeer, hpp, hold⟩ | ⟨rfl, hpid⟩
        · rw [hpp.id]
          exact hw.addressed task htask op' hop peer hpeer msg hold htoken
        · rw [token_requestMsg hf.positive] at htoken
          exact absurd (some.inj htoken).symm (hf.rows task htask op' hop)
        · exact absurd (mem_filterMap.mpr ⟨msg, hold, htoken⟩) (hf.mail peer hpeer)
        · refine ⟨hpid, fun header hheader => ?_⟩
          cases hheader
          exact ⟨hsender, hbinding⟩
      queuedLive := by
        have hlive := hw.queuedLive
        grind [Accepted.tasks, Accepted.get_new, Valid.task_eq, newOperation]
      withdrawn := by
        intro task' htask' op' hop' hwd
        rcases h.get_new htask' hop' with ⟨task, htask, -, hop⟩ | ⟨rfl, -⟩
        · exact h.not_mem_tokens hf.positive (hf.rows task htask op' hop)
            (hw.withdrawn task htask op' hop hwd)
        · contradiction
      buried := by
        rw [h.zombies, h.nextOperation, h.submissions]
        grind [Accepted.not_mem_tokens, hw.buried]
      flights := by
        rw [h.submissions, h.nextOperation]
        intro s' hs' message' hmessage'
        obtain ⟨h0, hlt, hs, hb, hrows, hmails⟩ := hw.flights s' hs' message' hmessage'
        have hne : message'.header.asyncOp ≠ message.header.asyncOp := fun heq =>
          hf.flights s' hs' (by rw [token, hmessage', map_some, heq])
        refine ⟨h0, hlt, hs, hb, fun task' htask' op' hop' => ?_,
          h.not_mem_tokens hf.positive hne hmails⟩
        rcases h.get_new htask' hop' with ⟨task, htask, -, hop⟩ | ⟨rfl, -⟩
        · exact hrows task htask op' hop
        · exact hne.symm
      flightsNodup := by rw [h.submissions]; exact hw.flightsNodup
      started := by rw [h.nextOperation]; exact hw.started }

/-- A submission that is taken up leaves its token to the row and the message. -/
theorem Valid.fresh_of_flight (hw : w.Valid) (hs : w.submissions[index]? = some s)
    (hmessage : s.wire = some message) :
    Fresh { w with submissions := w.submissions.eraseIdx index } message.header.asyncOp := by
  obtain ⟨h0, hlt, -, -, hrows, hmails⟩ := hw.flights s (mem_of_getElem? hs) message hmessage
  have htoken : s.token = some message.header.asyncOp := by
    rw [token, hmessage, map_some]
  refine ⟨h0, hlt, hrows, hmails, fun s' hs' htoken' => ?_, fun zombie hzombie op hop heq => ?_⟩
  · exact not_mem_filterMap_eraseIdx hw.flightsNodup hs htoken
      (mem_filterMap.mpr ⟨s', hs', htoken'⟩)
  · exact (hw.buried zombie hzombie op hop).2.2.1 s (mem_of_getElem? hs) (heq ▸ htoken)

theorem Valid.steps_submitFinish (hw : w.Valid)
    (hs : w.submissions[index]? = some s) (hmessage : s.wire = some message) (ticks : Nat)
    (rowFunded slotFunded : Bool)
    (hout : ({ w with submissions := w.submissions.eraseIdx index } : World).submitFinish s
      message ticks rowFunded slotFunded = out) : Steps (.submitted out.1) w out.2 := by
  have hdrop : Steps (.submitted out.1) w { w with
      submissions := w.submissions.eraseIdx index } := hw.steps_eraseSubmission index
  have hfresh := hw.fresh_of_flight hs hmessage
  have hmem : s ∈ w.submissions := mem_of_getElem? hs
  have htoken : s.token = some message.header.asyncOp := by
    rw [token, hmessage, map_some]
  obtain ⟨-, -, hsender, hbinding, -⟩ := hw.flights s hmem message hmessage
  rcases hdrop.1.submitFinish_spec s message ticks rowFunded slotFunded hfresh.rows with
    ⟨failure, hsame⟩ | ⟨hdone, h⟩
  · rw [← hout, hsame] at hdrop ⊢
    exact hdrop
  rw [hout] at hdone h
  refine ⟨hdrop.1.of_accepted hfresh hsender hbinding h, ?_⟩
  exact
    { rows := by
        intro task' htask' op' hop'
        rcases h.get_new htask' hop' with ⟨task, htask, hp, hop⟩ | ⟨rfl, -⟩
        · exact .inl ⟨task, htask, hp.id.symm, op', hop, .refl _ op'⟩
        obtain ⟨caller, hcaller, hcid, hcbind, hclive⟩ := h.owner
        obtain ⟨receiver, hreceiver, hrid, hrbind, hrlive⟩ := h.peer
        exact .inr
          { flight := ⟨s, hmem, htoken⟩
            phase := rfl
            accepted := by rw [hdone]; rfl
            owner := ⟨caller, hw.getLive_of_mem hcaller hcid hclive, hcbind⟩
            peer := ⟨receiver, hw.getLive_of_mem hreceiver hrid hrlive, hrbind⟩ }
      kept := by
        intro task htask op hop
        have hid : task.id ∈ _ := h.ids ▸ mem_map_of_mem htask
        obtain ⟨task', htask', hid'⟩ := mem_map.mp hid
        obtain ⟨task₂, htask₂, hp⟩ := h.tasks task' htask'
        obtain rfl : task₂ = task := hw.task_eq htask₂ htask (hp.id ▸ hid')
        refine .inl ⟨task', htask', hid', op, ?_, .refl _ op⟩
        rw [hp.rows]
        split
        · exact mem_append_left _ hop
        · exact hop
      buried := by
        rw [h.zombies]
        exact fun zombie hzombie op hop =>
          ⟨zombie, mem_append_right _ hzombie, op, hop, .refl _ op⟩
      mail := by
        intro task' htask' token hmail
        rcases h.tokens_new hfresh.positive htask' hmail with hold | rfl
        · exact .inl hold
        · exact .inr ⟨s, hmem, htoken⟩
      flights := by
        rw [h.submissions]
        exact fun s' hs' token htoken' =>
          Or.inl ⟨s', (eraseIdx_sublist _ _).subset hs', htoken'⟩
      counter := h.nextOperation.ge
      ids := by
        intro task' htask'
        obtain ⟨task, htask, hp⟩ := h.tasks task' htask'
        exact .inl ⟨task, htask, hp.id.symm⟩
      nextTaskId := h.nextTaskId.ge }

end

/-! ## take -/

theorem dropped_of_mem {token : Nat} (h : task' ∈ (w.modify tid fun task =>
      { task with asyncOperations := task.asyncOperations.remove token }).tasks) :
    ∃ task ∈ w.tasks, Dropped task task' := by
  rcases mem_modify h with hold | ⟨task, hget, rfl⟩
  · exact ⟨task', hold, .refl task'⟩
  · exact ⟨task, mem_of_get hget, rfl, rfl, rfl, rfl, eraseP_sublist⟩

/-- **`take`** hands out the result of a finished row and removes the row, or it
changes nothing. -/
theorem take_spec (w : World) (consumer token : Nat) (buffers : TakeBuffers) :
    ((w.take consumer token buffers).2 = w ∧
      ∀ result, (w.take consumer token buffers).1 ≠ .ok (some result)) ∨
    ∃ holder ∈ w.tasks, ∃ op ∈ holder.rows, op.id = token ∧ ∃ result, op.result = some result ∧
      w.take consumer token buffers = (.ok (some result), w.modify holder.id fun task =>
        { task with asyncOperations := task.asyncOperations.remove token }) := by
  unfold take
  split
  · exact .inl ⟨rfl, by simp⟩
  split
  · exact .inl ⟨rfl, by simp⟩
  next holder hholder =>
  split
  · exact .inl ⟨rfl, by simp⟩
  next op hop =>
  split
  · exact .inl ⟨rfl, by simp⟩
  split
  · next hphase =>
    split
    · exact .inl ⟨rfl, by simp⟩
    split
    · exact .inl ⟨rfl, by simp⟩
    split
    · exact .inl ⟨rfl, by simp⟩
    split
    · exact .inl ⟨rfl, by simp⟩
    · refine .inr ⟨holder, mem_of_find?_eq_some hholder, op, mem_of_find?_eq_some hop,
        by simpa using List.find?_some hop, _, ?_, rfl⟩
      rw [Operation.result, hphase]
  · exact .inl ⟨rfl, by simp⟩

theorem Valid.steps_take (hw : w.Valid) (consumer token : Nat) (buffers : TakeBuffers) :
    Steps (.taken token (w.take consumer token buffers).1) w (w.take consumer token buffers).2 := by
  rcases w.take_spec consumer token buffers with ⟨hsame, -⟩ | ⟨holder, hholder, op, hop, rfl,
    result, hresult, htake⟩
  · rw [hsame]
    exact hw.steps_of_becomes (.refl _ _ w)
  rw [htake]
  have hids : (w.modify holder.id fun task => { task with
      asyncOperations := task.asyncOperations.remove op.id }).tasks.map Task.id =
      w.tasks.map Task.id := map_updateFirst Task.id fun _ _ => rfl
  refine hw.steps_of_thins
    { ids := hids ▸ hw.ids, idsLt := ?_, tasks := fun _ htask' => .inl (dropped_of_mem htask'),
      zombies := rfl, nextTaskId := le_rfl, counter := le_rfl,
      flights := fun s hs _ _ => .inl hs, flightsNodup := hw.flightsNodup }
    fun task htask row hrow => ?_
  · intro task' htask'
    obtain ⟨task, htask, hd⟩ := dropped_of_mem htask'
    rw [hd.id]
    exact hw.idsLt task htask
  by_cases hid : row.id = op.id
  · obtain ⟨rfl, rfl⟩ := hw.row_eq htask hholder hrow hop hid
    exact .inr ⟨result, hresult, rfl⟩
  obtain ⟨task', htask', hsame⟩ := exists_mem_modify holder.id (fun task =>
    { task with asyncOperations := task.asyncOperations.remove op.id }) htask
  refine .inl ⟨task', htask', ?_⟩
  rcases hsame with rfl | rfl
  · exact ⟨rfl, hrow⟩
  · exact ⟨rfl, (mem_eraseP_of_neg (by simpa using hid)).mpr hrow⟩

/-! ## every step -/

theorem Valid.steps_submitPrepare (hw : w.Valid) (index : Nat) (buffer : UserBuffer)
    (wireFunded replyFunded : Bool)
    (h : step w (.submitPrepare index buffer wireFunded replyFunded) = some (r, w')) :
    Steps r w w' := by
  simp only [step] at h
  split at h
  · contradiction
  next s hs =>
  split at h
  · contradiction
  obtain ⟨_, _, hle, hworld, hdrawn⟩ := w.submitPrepare_spec s buffer wireFunded replyFunded
  have hsub := eraseIdx_sublist w.submissions index
  split at h
  · next hprep =>
    rw [hprep] at hworld
    subst hworld
    cases h
    refine hw.steps_of_submissions rfl rfl rfl hle ?_ ?_
    · exact fun s' hs' message _ => .inl (hsub.subset hs')
    · exact hw.flightsNodup.sublist (hsub.filterMap token)
  · next message v hprep =>
    have hnew := hdrawn message (by rw [hprep])
    rw [hprep] at hworld
    subst hworld
    cases h
    refine hw.steps_of_submissions rfl rfl rfl hle ?_ ?_
    · intro s' hs' message' hmessage'
      rcases mem_or_eq_of_mem_set hs' with hold | rfl
      · exact .inl hold
      · obtain rfl : message = message' := some.inj hmessage'
        exact .inr hnew
    · refine nodup_filterMap_set hw.flightsNodup (List.getElem?_eq_some_iff.mp hs).1 rfl ?_
      intro s' hs' htoken
      obtain ⟨message', hmessage', hid⟩ := map_eq_some_iff.mp htoken
      have hdraw : message'.header.asyncOp = w.nextOperation := hid.trans hnew.1
      exact absurd hdraw (hw.flights s' hs' message' hmessage').2.1.ne

/-- **Every step** keeps the invariant and is a change. -/
theorem Valid.steps (hw : w.Valid) (h : step w i = some (r, w')) : Steps r w w' := by
  have hsame : ∀ r, Steps r w w := fun _ => hw.steps_of_becomes (.refl _ _ w)
  have hkeeps : ∀ (r : Response) (tid : Nat) (f : Task → Task), (∀ task : Task, task.Keeps (f task)) →
      Steps r w (w.modify tid f) := fun _ _ _ hf => hw.steps_of_becomes (becomes_modify_keeps hf)
  have hother : ∀ (r : Response) (v : World), v.tasks = w.tasks → v.zombies.Sublist w.zombies →
      v.nextTaskId = w.nextTaskId → v.nextOperation = w.nextOperation →
      v.submissions = w.submissions → Steps r w v := fun _ _ ht hz hn ho hs =>
    hw.steps_of_becomes (becomes_of_tasks_eq ht hz hn ho hs)
  cases i with
  | submitBegin owner peer len =>
    simp only [step] at h
    split at h
    · cases h
      exact hw.steps_of_becomes (.refl _ _ w)
    next s hs =>
    cases h
    have hwire : s.wire = none := by
      unfold submitBegin at hs
      split at hs
      · contradiction
      split at hs
      · contradiction
      split at hs
      · contradiction
      · cases hs
        rfl
    refine hw.steps_of_submissions rfl rfl rfl le_rfl ?_ ?_
    · exact forall_mem_concat (fun s' hs' _ _ => .inl hs') (by simp [hwire])
    · rw [filterMap_append, filterMap_cons_none (by rw [token, hwire]; rfl),
        filterMap_nil, append_nil]
      exact hw.flightsNodup
  | submitPrepare index buffer wireFunded replyFunded =>
    exact hw.steps_submitPrepare index buffer wireFunded replyFunded h
  | submitFinish _ ticks rowFunded slotFunded =>
    simp only [step] at h
    split at h
    · contradiction
    next hs =>
    split at h
    · contradiction
    next hmessage =>
    cases h
    exact hw.steps_submitFinish hs hmessage ticks rowFunded slotFunded rfl
  | recvSnapshot form receiver mask funded =>
    cases h
    exact hw.steps_of_becomes (becomes_recvSnapshot w form receiver mask funded)
  | recvCommit =>
    simp only [step] at h
    split at h
    · contradiction
    next receipt _ =>
    cases h
    refine hw.steps_of_becomes (Becomes.trans ?_ (becomes_recvCommit _ receipt))
    exact becomes_of_tasks_eq rfl (.refl _) rfl rfl rfl
  | recvAbort | register | pause | registerVfs =>
    cases h
    exact hother _ _ rfl (.refl _) rfl rfl rfl
  | recvKernel receiver mask outLen =>
    cases h
    exact hw.steps_of_becomes (becomes_recvKernel w receiver mask outLen)
  | beginReceive =>
    cases h
    exact hkeeps _ _ _ fun task => .when (task.keeps_context _)
  | reply peer token buffer =>
    obtain ⟨rfl, rfl⟩ := by simpa [step] using h
    refine hw.steps_of_becomes (becomes_replyInSched w peer token buffer fun hok => ?_)
    rw [hok, Response.answered]
  | replyCurrent peer destination buffer =>
    obtain ⟨rfl, rfl⟩ := by simpa [step] using h
    refine hw.steps_of_becomes
      (becomes_replyCurrentInSched w peer destination buffer fun token hok => ?_)
    rw [hok, Response.answered]
  | cancel owner token =>
    cases h
    exact hw.steps_of_becomes (hw.becomes_cancelInSched owner token)
  | take consumer token buffers =>
    cases h
    exact hw.steps_take consumer token buffers
  | transferConsumption caller token target =>
    cases h
    exact hw.steps_of_becomes (becomes_transferConsumption w caller token target)
  | wait owner deadline =>
    cases h
    exact hw.steps_of_becomes (becomes_wait w owner deadline)
  | expire now =>
    cases h
    exact hw.steps_of_becomes (hw.becomes_expire now)
  | exit tid oracle =>
    cases h
    exact hw.steps_of_reaches (hw.exitTask oracle tid)
  | fault tid oracle =>
    cases h
    exact hw.steps_of_reaches (hw.faultTask oracle tid)
  | finishRetirement index =>
    cases h
    exact hw.steps_of_becomes (becomes_finishRetirement w index)
  | reap =>
    cases h
    exact hother _ _ rfl (eraseIdx_sublist _ _) rfl rfl rfl
  | spawn cellId generation rootTid supervisor source =>
    cases h
    exact hw.steps_spawn cellId generation rootTid supervisor source
  | publishOwner =>
    cases h
    unfold publishLiveCellOwner
    split
    · exact hother _ _ rfl (.refl _) rfl rfl rfl
    · exact hsame _
  | releaseOwner =>
    cases h
    unfold finishRootRetirement
    split
    · exact hother _ _ rfl (.refl _) rfl rfl rfl
    · exact hsame _
  | setState _ state =>
    simp only [step] at h
    split at h
    · contradiction
    next hstate =>
    cases h
    refine hkeeps _ _ _ fun task => ⟨rfl, fun _ => ?_⟩
    unfold live
    cases state <;> simp_all
  | clearContext =>
    cases h
    exact hkeeps _ _ _ fun task => task.keeps_context _
  | clearContextIf =>
    cases h
    exact hkeeps _ _ _ fun task => .when (task.keeps_context _)
  | post =>
    cases h
    refine hw.steps_of_becomes (becomes_tryModify fun task task' htask' => ?_)
    unfold queuePendingMsg at htask'
    split at htask'
    · contradiction
    split at htask'
    · contradiction
    split at htask'
    · exact ⟨_, rfl, (some.inj htask').symm⟩
    · contradiction
  | postWire =>
    simp only [step] at h
    split at h
    · contradiction
    next hplain =>
    cases h
    refine hw.steps_of_becomes (becomes_tryModify fun task task' htask' => ?_)
    unfold queueWireMsg at htask'
    split at htask'
    · contradiction
    split at htask'
    · refine ⟨_, ?_, (some.inj htask').symm⟩
      simpa [PendingMsg.token, PendingMsg.wireHeader] using hplain
    · contradiction
  | freeze tid swapId =>
    cases h
    exact hw.steps_of_becomes (becomes_freeze w tid swapId)
  | unfreeze tid =>
    cases h
    exact hw.steps_of_becomes (becomes_unfreeze w tid)
  | hotswapReady =>
    cases h
    exact hkeeps _ _ _ fun task => ⟨rfl, fun hl => hl⟩
  | cutover source target serviceId funding =>
    cases h
    exact hw.steps_of_becomes (becomes_commitHotswapBarrier w source target serviceId funding)

end

end World

end Cellos.AsyncIpc
