import Cellos.AsyncIpc.Change

/-!
# Cellos.AsyncIpc.Invariant

What holds in every reachable state: `World.Valid`.

Tokens name operations: a token in flight, in a mailbox or in a row was drawn
from `NEXT_OPERATION`, and no two rows share one.  A request whose operation
exists lies in the mailbox of the peer it was accepted for, at most once, under
the owner's identity.  While an operation is queued, its owner and its peer are
live, so a receiver that is shown the request passes the dispatch boundary.  And
an operation that ended undispatched has no request anywhere: `cancel`, `expire` and
`on_owner_exits` take it out of the one mailbox it can be in.
-/

namespace Cellos.AsyncIpc

open Lib List

/-- The token of a submission in flight. -/
def Submission.token (s : Submission) : Option Nat :=
  s.wire.map fun message => message.header.asyncOp

namespace World

/-- The reachable-state invariant. -/
structure Valid (w : World) : Prop where
  ids : (w.tasks.map Task.id).Nodup
  idsLt : ∀ task ∈ w.tasks, task.id < w.nextTaskId
  owned : ∀ task ∈ w.tasks, ∀ op ∈ task.rows,
    op.ownerTid = task.id ∧ op.ownerBinding = task.binding
  issued : ∀ task ∈ w.tasks, ∀ op ∈ task.rows,
    op.id ≠ 0 ∧ op.id < w.nextOperation ∧ op.peerTid < w.nextTaskId
  rowsNodup : ∀ task ∈ w.tasks, (task.rows.map Operation.id).Nodup
  rowsUnique : ∀ task ∈ w.tasks, ∀ other ∈ w.tasks, ∀ op ∈ task.rows, ∀ op' ∈ other.rows,
    op.id = op'.id → task.id = other.id
  /-- The peer is the incarnation the request was accepted for. -/
  bound : ∀ task ∈ w.tasks, ∀ op ∈ task.rows, ∀ peer ∈ w.tasks, peer.id = op.peerTid →
    peer.binding = op.peerBinding
  mailNodup : ∀ task ∈ w.tasks, task.tokens.Nodup
  mailIssued : ∀ task ∈ w.tasks, ∀ token ∈ task.tokens, token < w.nextOperation
  /-- A request lies where its operation sent it, under the owner's identity. -/
  addressed : ∀ task ∈ w.tasks, ∀ op ∈ task.rows, ∀ peer ∈ w.tasks, ∀ msg ∈ peer.pendingMsgs,
    msg.token = some op.id → peer.id = op.peerTid ∧ ∀ header, msg.wireHeader = some header →
      header.senderTid = op.ownerTid ∧
        (header.senderCellId, header.senderGeneration) = op.ownerBinding
  queuedLive : ∀ task ∈ w.tasks, ∀ op ∈ task.rows, op.phase = .queued →
    task.live = true ∧ ∀ peer ∈ w.tasks, peer.id = op.peerTid → peer.live = true
  withdrawn : ∀ task ∈ w.tasks, ∀ op ∈ task.rows, op.phase.withdrawn = true →
    ∀ other ∈ w.tasks, op.id ∉ other.tokens
  buried : ∀ zombie ∈ w.zombies, ∀ op ∈ zombie.rows, op.phase ≠ .queued ∧
    op.id < w.nextOperation ∧ (∀ s ∈ w.submissions, s.token ≠ some op.id) ∧
    (op.phase.withdrawn = true → ∀ other ∈ w.tasks, op.id ∉ other.tokens)
  /-- A request in flight is nowhere else yet. -/
  flights : ∀ s ∈ w.submissions, ∀ message, s.wire = some message →
    message.header.asyncOp ≠ 0 ∧ message.header.asyncOp < w.nextOperation ∧
    message.header.senderTid = s.owner ∧
    (message.header.senderCellId, message.header.senderGeneration) = s.binding ∧
    (∀ task ∈ w.tasks, ∀ op ∈ task.rows, op.id ≠ message.header.asyncOp) ∧
    ∀ task ∈ w.tasks, message.header.asyncOp ∉ task.tokens
  flightsNodup : (w.submissions.filterMap Submission.token).Nodup
  /-- The token 0 means no operation. -/
  started : 0 < w.nextOperation

section

variable {answered : Nat → Prop} {w w' : World} {tid : Nat}
variable {task : Task} {op op' : Operation}

variable (hw : w.Valid)

include hw

variable (htask : task ∈ w.tasks)

include htask

theorem Valid.task_eq (hother : other ∈ w.tasks) (h : task.id = other.id) : task = other :=
  inj_on_of_nodup_map hw.ids htask hother h

theorem Valid.get_of_mem : w.get task.id = some task := find?_key_of_nodup hw.ids htask

theorem Valid.getLive_of_mem (hid : task.id = tid)
    (hlive : task.live = true) : w.getLive tid = some task := by
  rw [getLive, ← hid, hw.get_of_mem htask]
  exact Option.filter_eq_some_iff.mpr ⟨rfl, hlive⟩

theorem Valid.row_eq (hother : other ∈ w.tasks)
    (hop : op ∈ task.rows) (hop' : op' ∈ other.rows) (h : op.id = op'.id) : task = other ∧ op = op' := by
  obtain rfl := hw.task_eq htask hother (hw.rowsUnique task htask other hother op hop op' hop' h)
  exact ⟨rfl, inj_on_of_nodup_map (hw.rowsNodup task htask) hop hop' h⟩

theorem Valid.find_of_mem (hop : op ∈ task.rows) : task.asyncOperations.find op.id = some op :=
  find?_key_of_nodup (hw.rowsNodup task htask) hop

theorem Valid.not_in_flight (hop : op ∈ task.rows) : ∀ s ∈ w.submissions, s.token ≠ some op.id := by
  intro s hs htoken
  obtain ⟨message, hmessage, hid⟩ := Option.map_eq_some_iff.mp htoken
  exact (hw.flights s hs message hmessage).2.2.2.2.1 task htask op hop hid.symm

omit htask

/-- **Invariant rule**: a change keeps the invariant if no operation stays queued at,
or for, a task that stopped being live. -/
theorem Valid.of_becomes (h : w.Becomes answered dying w')
    (hleft : ∀ task ∈ w.tasks, dying task.id → ∀ op ∈ task.rows, op.phase ≠ .queued)
    (hdead : ∀ task' ∈ w'.tasks, ∀ op' ∈ task'.rows, op'.phase = .queued →
      ¬ dying task'.id ∧ ∀ peer' ∈ w'.tasks, peer'.id = op'.peerTid → ¬ dying peer'.id) :
    w'.Valid where
  ids := hw.ids.sublist h.ids
  idsLt := by
    intro task' htask'
    obtain ⟨task, htask, hb, -⟩ := h.tasks task' htask'
    rw [hb.id, h.nextTaskId]
    exact hw.idsLt task htask
  owned := by
    intro task' htask' op' hop'
    obtain ⟨task, htask, hb, op, hop, hop''⟩ := h.row htask' hop'
    rw [hop''.owner.1, hop''.owner.2, hb.id, hb.binding]
    exact hw.owned task htask op hop
  issued := by
    intro task' htask' op' hop'
    obtain ⟨task, htask, -, op, hop, hop''⟩ := h.row htask' hop'
    rw [hop''.id, hop''.peer.1, h.nextOperation, h.nextTaskId]
    exact hw.issued task htask op hop
  rowsNodup := by
    intro task' htask'
    obtain ⟨task, htask, hb, -⟩ := h.tasks task' htask'
    rw [hb.ids]
    exact hw.rowsNodup task htask
  rowsUnique := by
    intro task' htask' other' hother' op' hop' op₂' hop₂' hid
    obtain ⟨task, htask, hb, op, hop, hbo⟩ := h.row htask' hop'
    obtain ⟨other, hother, hb₂, op₂, hop₂, hbo₂⟩ := h.row hother' hop₂'
    rw [hb.id, hb₂.id]
    refine hw.rowsUnique task htask other hother op hop op₂ hop₂ ?_
    rw [← hbo.id, ← hbo₂.id, hid]
  bound := by
    intro task' htask' op' hop' peer' hpeer' hid
    obtain ⟨task, htask, -, op, hop, hbo⟩ := h.row htask' hop'
    obtain ⟨peer, hpeer, hbp, -⟩ := h.tasks peer' hpeer'
    rw [hbp.binding, hbo.peer.2]
    refine hw.bound task htask op hop peer hpeer ?_
    rw [← hbp.id, hid, hbo.peer.1]
  mailNodup := by
    intro task' htask'
    obtain ⟨task, htask, hb, -⟩ := h.tasks task' htask'
    exact (hw.mailNodup task htask).sublist hb.tokens
  mailIssued := by
    intro task' htask' token htoken
    obtain ⟨task, htask, hb, -⟩ := h.tasks task' htask'
    rw [h.nextOperation]
    exact hw.mailIssued task htask token (hb.tokens.subset htoken)
  addressed := by
    intro task' htask' op' hop' peer' hpeer' msg hmsg htoken
    obtain ⟨task, htask, -, op, hop, hbo⟩ := h.row htask' hop'
    obtain ⟨peer, hpeer, hbp, -⟩ := h.tasks peer' hpeer'
    have hmsg' : msg ∈ peer.pendingMsgs := hbp.mail msg hmsg (by rw [htoken]; simp)
    rw [hbp.id, hbo.peer.1, hbo.owner.1, hbo.owner.2]
    exact hw.addressed task htask op hop peer hpeer msg hmsg' (by rw [htoken, hbo.id])
  queuedLive := by
    intro task' htask' op' hop' hqueued
    obtain ⟨task, htask, hb, hlive⟩ := h.tasks task' htask'
    obtain ⟨op, hop, hbo⟩ := hb.rows op' hop'
    obtain ⟨hlt, hlp⟩ := hw.queuedLive task htask op hop (hbo.queued hqueued)
    obtain ⟨hdt, hdp⟩ := hdead task' htask' op' hop' hqueued
    refine ⟨hlive (hb.id ▸ hdt) hlt, fun peer' hpeer' hid => ?_⟩
    obtain ⟨peer, hpeer, hbp, hlive'⟩ := h.tasks peer' hpeer'
    refine hlive' (hbp.id ▸ hdp peer' hpeer' hid) (hlp peer hpeer ?_)
    rw [← hbp.id, hid, hbo.peer.1]
  withdrawn := by
    intro task' htask' op' hop' hwd
    rcases h.withdrawn task' htask' op' hop' hwd with ⟨task, htask, op, hop, hid, hphase⟩ | hno
    · have hno := hw.withdrawn task htask op hop (by rw [hphase, hwd])
      rw [hid] at hno
      exact h.not_mem_tokens hno
    · exact hno
  buried := by
    intro zombie hzombie op' hop'
    rw [h.nextOperation, h.submissions]
    rcases h.zombies zombie hzombie with hold | ⟨⟨task, htask, hd, hb⟩, hrows⟩
    · obtain ⟨hq, hlt, hflight, hwd⟩ := hw.buried zombie hold op' hop'
      exact ⟨hq, hlt, hflight, fun hw' => h.not_mem_tokens (hwd hw')⟩
    obtain ⟨op, hop, hbo⟩ := hb.rows op' hop'
    have hq : op'.phase ≠ .queued := fun hqueued =>
      hleft task htask hd op hop (hbo.queued hqueued)
    have hlt := (hw.issued task htask op hop).2.1
    have hflight := hw.not_in_flight htask hop
    rw [← hbo.id] at hlt hflight
    refine ⟨hq, hlt, hflight, fun hwd => ?_⟩
    rcases hrows op' hop' hwd with ⟨task, htask, op, hop, hid, hphase⟩ | hno
    · have hno := hw.withdrawn task htask op hop (by rw [hphase, hwd])
      rw [hid] at hno
      exact h.not_mem_tokens hno
    · exact hno
  flights := by
    intro s hs message hmessage
    rw [h.submissions] at hs
    obtain ⟨h0, hlt, hsender, hbinding, hrow, hmail⟩ := hw.flights s hs message hmessage
    refine ⟨h0, by rw [h.nextOperation]; exact hlt, hsender, hbinding, ?_, h.not_mem_tokens hmail⟩
    intro task' htask' op' hop'
    obtain ⟨task, htask, -, op, hop, hbo⟩ := h.row htask' hop'
    rw [hbo.id]
    exact hrow task htask op hop
  flightsNodup := by
    rw [h.submissions]
    exact hw.flightsNodup
  started := by
    rw [h.nextOperation]
    exact hw.started

/-- A change in which every live task stays live keeps the invariant. -/
theorem Valid.of_becomes_live (h : w.Becomes answered (fun _ => False) w') : w'.Valid :=
  hw.of_becomes h (fun _ _ => False.elim) fun _ _ _ _ _ => ⟨id, fun _ _ _ => id⟩

/-! ## taking a request back -/

theorem Valid.eq_of_mem_modify (f : Task → Task)
    (hid : ∀ task, (f task).id = task.id) (hget : w.get tid = some task)
    (hother : other ∈ (w.modify tid f).tasks) (h : other.id = tid) : other = f task := by
  have hids : (w.modify tid f).tasks.map Task.id = w.tasks.map Task.id :=
    map_updateFirst Task.id fun task _ => hid task
  have hnodup : ((w.modify tid f).tasks.map Task.id).Nodup := hids ▸ hw.ids
  refine inj_on_of_nodup_map hnodup hother (apply_mem_updateFirst f hget) ?_
  rw [hid, id_of_get hget, h]

open AsyncIpc.Task

/-- A token is in no mailbox but the one its operation names, and there once: after
`withdraw` it is nowhere. -/
theorem Valid.withdraw_unsent (htask : task ∈ w.tasks) (hop : op ∈ task.rows) :
    ∀ other ∈ (w.modify op.peerTid (withdraw op.id)).tasks, op.id ∉ other.tokens := by
  have h0 : op.id ≠ 0 := (hw.issued task htask op hop).1
  intro other hother hmem
  by_cases hid : other.id = op.peerTid
  · rcases mem_modify hother with hold | ⟨peer, hget, rfl⟩
    · have hget : w.get op.peerTid = some other := hid ▸ hw.get_of_mem hold
      rw [hw.eq_of_mem_modify (withdraw op.id) (fun _ => rfl) hget hother hid] at hmem
      exact not_mem_filterMap_eraseP (hw.mailNodup other hold)
        (fun msg => PendingMsg.carries_iff h0) hmem
    · exact not_mem_filterMap_eraseP (hw.mailNodup peer (mem_of_get hget))
        (fun msg => PendingMsg.carries_iff h0) hmem
  · rcases mem_modify hother with hold | ⟨peer, hget, rfl⟩
    · obtain ⟨msg, hmsg, htoken⟩ := mem_filterMap.mp hmem
      exact hid (hw.addressed task htask op hop other hold msg hmsg htoken).1
    · have hpeer : peer.id = op.peerTid := id_of_get hget
      exact hid hpeer

open Operation

/-- A row that is not finished is settled without a reply, and as undispatched only
if its request is in no mailbox. -/
theorem Valid.becomes_settleRow (htask : task ∈ w.tasks)
    (hop : op ∈ task.rows) (hopen : op.phase.isTerminal = false) (hkind : kind ≠ .reply)
    (hearly : (Phase.terminal kind 0).withdrawn = true →
      op.phase = .queued ∧ ∀ other ∈ w.tasks, op.id ∉ other.tokens)
    : w.Becomes answered dying (w.modifyOp task.id op.id (settle kind)) := by
  have hget := hw.get_of_mem htask
  have hfind := hw.find_of_mem htask hop
  exact becomes_modifyOp hget hfind
    (becomes_settle hkind hopen fun hw => (hearly hw).1) fun hwd => (hearly hwd).2

omit hw in
theorem exists_mem_modify (tid : Nat) (f : Task → Task) (htask : task ∈ w.tasks) :
    ∃ task' ∈ (w.modify tid f).tasks, task' = task ∨ task' = f task := by
  rcases mem_updateFirst_of_mem f htask with hmem | hfind
  · exact ⟨task, hmem, .inl rfl⟩
  · exact ⟨f task, apply_mem_updateFirst f hfind, .inr rfl⟩

/-- **Taking back**: the request of a queued operation leaves its mailbox and the
operation ends as undispatched. -/
theorem Valid.becomes_takeBack (htask : task ∈ w.tasks)
    (hop : op ∈ task.rows) (hqueued : op.phase = .queued) (hkind : kind ≠ .reply) :
    w.Becomes answered dying ((w.modify op.peerTid (withdraw op.id)).modifyOp task.id op.id
      (settle kind)) := by
  have hback : ∀ dying, w.Becomes answered dying (w.modify op.peerTid (withdraw op.id)) :=
    fun dying => becomes_withdraw w op.peerTid op.id
  have hvalid := hw.of_becomes_live (hback _)
  obtain ⟨task', htask', hsame⟩ := exists_mem_modify op.peerTid (withdraw op.id) htask
  have hid : task'.id = task.id := by rcases hsame with rfl | rfl <;> rfl
  have hrows : task'.rows = task.rows := by rcases hsame with rfl | rfl <;> rfl
  rw [← hid]
  refine (hback dying).trans (hvalid.becomes_settleRow htask' (hrows ▸ hop) ?_ hkind fun _ => ?_)
  · rw [hqueued]
    rfl
  · exact ⟨hqueued, hw.withdraw_unsent htask hop⟩

theorem Valid.becomes_cancelInSched (owner token : Nat) :
    w.Becomes answered dying (w.cancelInSched owner token).2 := by
  unfold cancelInSched
  split
  · exact .refl ..
  next task htask =>
  split
  · exact .refl ..
  next op hop =>
  split
  · exact .refl ..
  have hget : w.get owner = some task := (Option.filter_eq_some_iff.mp htask).1
  have hmem : task ∈ w.tasks := mem_of_get hget
  have hrow : op ∈ task.rows := mem_of_find?_eq_some hop
  obtain rfl : op.id = token := by simpa using find?_some hop
  obtain rfl : task.id = owner := id_of_get hget
  split
  · next hterminal =>
    have hnot : (op.phase == .queued) = false := by
      cases hphase : op.phase <;> simp_all [Phase.isTerminal]
    rw [hnot]
    exact .refl ..
  next hopen =>
  have hopen : op.phase.isTerminal = false := by simpa using hopen
  refine Becomes.trans ?_ (becomes_wake _ task.id)
  by_cases hqueued : op.phase = .queued
  · rw [if_pos (by simpa using hqueued), if_pos (by simpa using hqueued)]
    exact hw.becomes_takeBack hmem hrow hqueued (by simp)
  · rw [if_neg (by simpa using hqueued), if_neg (by simpa using hqueued)]
    exact hw.becomes_settleRow hmem hrow hopen (by simp) (by simp [Phase.withdrawn])

/-! ## expiry -/

/-- With distinct tokens, the row at an index is the row with its token. -/
theorem Valid.modifyAt_eq (f : Operation → Operation)
    (htask : task ∈ w.tasks) (hop : task.rows[index]? = some op) : (w.modify task.id fun task =>
      { task with asyncOperations := task.asyncOperations.modifyAt index f }) =
      w.modifyOp task.id op.id f := by
  have hrows : task.asyncOperations.modifyAt index f = task.asyncOperations.modify op.id f := by
    rw [Operations.mk.injEq]
    exact modify_eq_updateFirst f (hw.rowsNodup task htask) hop
  unfold modifyOp modify
  rw [updateFirst_congr (g := fun task =>
    { task with asyncOperations := task.asyncOperations.modify op.id f })]
  intro task' htask'
  obtain rfl : task = task' := Option.some.inj ((hw.get_of_mem htask).symm.trans htask')
  rw [hrows]

omit hw in
theorem modifyOp_withdraw_comm (w : World) (owner token peer : Nat) (f : Operation → Operation) :
    (w.modifyOp owner token f).modify peer (withdraw token) =
      (w.modify peer (withdraw token)).modifyOp owner token f := by
  have hcomm := updateFirst_comm (p := fun task : Task => task.id == peer)
    (q := fun task : Task => task.id == owner) (f := withdraw token)
    (g := fun task => { task with asyncOperations := task.asyncOperations.modify token f })
    (fun _ => rfl) (fun _ => rfl) (fun _ => rfl) w.tasks
  exact congrArg (fun tasks => ({ w with tasks } : World)) hcomm

theorem Valid.becomes_expireAt (now owner index : Nat) :
    w.Becomes answered dying (expireAt now owner w index) := by
  unfold expireAt
  split
  · exact .refl ..
  next task htask =>
  split
  · exact .refl ..
  next op hop =>
  split
  · exact .refl ..
  next hcond =>
  have hmem : task ∈ w.tasks := mem_of_get htask
  have hrow : op ∈ task.rows := mem_of_getElem? hop
  have hopen : op.phase.isTerminal = false := by
    simp only [Bool.or_eq_true, not_or, Bool.not_eq_true] at hcond
    exact hcond.2
  obtain rfl : task.id = owner := id_of_get htask
  dsimp only
  rw [hw.modifyAt_eq _ hmem hop]
  refine Becomes.trans ?_ (becomes_wake _ task.id)
  by_cases hqueued : op.phase = .queued
  · rw [if_pos (by simpa using hqueued), if_pos (by simpa using hqueued), modifyOp_withdraw_comm]
    exact hw.becomes_takeBack hmem hrow hqueued (by simp)
  · rw [if_neg (by simpa using hqueued), if_neg (by simpa using hqueued)]
    exact hw.becomes_settleRow hmem hrow hopen (by simp) (by simp [Phase.withdrawn])

/-- **Expiry** keeps the invariant turn by turn, so all of it is one change. -/
theorem Valid.becomes_expire (now : Nat) : w.Becomes answered (fun _ => False) (w.expire now) := by
  have hturn : ∀ (owner index : Nat) (v : World), v.Valid ∧ w.Becomes answered (fun _ => False) v →
      (expireAt now owner v index).Valid ∧
        w.Becomes answered (fun _ => False) (expireAt now owner v index) := by
    intro owner index v hv
    have hb : v.Becomes answered (fun _ => False) (expireAt now owner v index) :=
      hv.1.becomes_expireAt now owner index
    exact ⟨hv.1.of_becomes_live hb, hv.2.trans hb⟩
  have hall : (w.expire now).Valid ∧ w.Becomes answered (fun _ => False) (w.expire now) := by
    refine foldlRecOn _ _ (motive := fun v : World =>
      v.Valid ∧ w.Becomes answered (fun _ => False) v) ⟨hw, .refl _ _ w⟩ ?_
    intro v hv owner _
    refine foldlRecOn _ _ (motive := fun v : World =>
      v.Valid ∧ w.Becomes answered (fun _ => False) v) hv ?_
    intro v hv index _
    exact hturn owner index v hv
  exact hall.2

omit hw

/-! ## an owner exits -/

/-- What `on_owner_exits` collects are open rows of the task, with their peers. -/
theorem mem_toCancel (h : entry ∈ toCancel task tid) :
    ∃ op ∈ task.rows, op.id = entry.token ∧ op.peerTid = entry.peer ∧
      op.phase = if entry.queued then .queued else .dispatched := by
  obtain ⟨op, hop, hentry⟩ := mem_filterMap.mp h
  split at hentry
  · split at hentry
    · next hphase =>
      cases hentry
      exact ⟨op, hop, rfl, rfl, by simpa using hphase⟩
    · next hphase =>
      cases hentry
      exact ⟨op, hop, rfl, rfl, by simpa using hphase⟩
    · contradiction
  · contradiction

/-- The rows after some of the collected operations were settled. -/
structure Cancelled (answered : Nat → Prop) (entries : List ToCancel) (ops ops' : Operations) :
    Prop where
  ids : ops'.rows.map Operation.id = ops.rows.map Operation.id
  rows : ∀ op' ∈ ops'.rows, ∃ op ∈ ops.rows, op.Becomes answered op' ∧
    (op'.phase.withdrawn = true → op'.phase = op.phase ∨
      ∃ entry ∈ entries, entry.token = op.id ∧ entry.queued = true)

section

variable {ops : Operations}

/-- One turn of the loop. -/
theorem Cancelled.turn (h : Cancelled answered entries ops ops')
    (hnodup : (ops.rows.map Operation.id).Nodup)
    (hentries : ∀ entry ∈ entries, ∃ op ∈ ops.rows, op.id = entry.token ∧
      op.phase = if entry.queued then .queued else .dispatched) (hentry : entry ∈ entries) :
    Cancelled answered entries ops (ops'.modify entry.token (settle
      (if entry.queued then .cancelled else .indeterminate))) where
  ids := by
    rw [← h.ids]
    exact map_updateFirst Operation.id fun _ _ => rfl
  rows := by
    intro op' hop'
    rcases mem_updateFirst hop' with hold | ⟨found, hfind, rfl⟩
    · exact h.rows op' hold
    obtain ⟨op, hop, hb, -⟩ := h.rows found (mem_of_find?_eq_some hfind)
    have htoken : op.id = entry.token := by
      rw [← hb.id]
      simpa using find?_some hfind
    -- the row the entry was collected from is this one
    obtain ⟨op₀, hop₀, hid₀, hphase⟩ := hentries entry hentry
    obtain rfl : op₀ = op := inj_on_of_nodup_map hnodup hop₀ hop (hid₀.trans htoken.symm)
    refine ⟨op₀, hop, hb.settle ?_ ?_ ?_, fun hw => .inr ⟨entry, hentry, htoken.symm, ?_⟩⟩
    · split <;> simp
    · rw [hphase]
      split <;> rfl
    · rw [hphase]
      cases hq : entry.queued with
      | false => simp [Phase.withdrawn]
      | true => simp
    · cases hq : entry.queued with
      | false => simp [settle, Phase.withdrawn, hq] at hw
      | true => rfl

theorem terminal_of_turn (hnodup : (ops.rows.map Operation.id).Nodup) (kind : IpcStatus)
    (hop' : op' ∈ (ops.modify token (settle kind)).rows)
    (hid : op'.id = token) : op'.phase.isTerminal = true := by
  rcases mem_updateFirst hop' with hold | ⟨_, -, rfl⟩
  · have hfind := find?_key_of_nodup hnodup hold
    rw [hid] at hfind
    have hids : (ops.modify token (Operation.settle kind)).rows.map Operation.id =
        ops.rows.map Operation.id := map_updateFirst Operation.id fun _ _ => rfl
    have heq : op' = op'.settle kind := inj_on_of_nodup_map (hids ▸ hnodup) hop'
        (apply_mem_updateFirst (settle kind) hfind) rfl
    rw [heq]
    rfl
  · rfl

/-- **Cancelling**: with distinct tokens, the loop settles the rows it has collected
and no others. -/
theorem cancelAll_spec (answered : Nat → Prop) (hnodup : (ops.rows.map Operation.id).Nodup)
    (hentries : ∀ entry ∈ entries, ∃ op ∈ ops.rows, op.id = entry.token ∧
      op.phase = if entry.queued then .queued else .dispatched) :
    Cancelled answered entries ops (cancelAll ops entries) ∧
    ∀ entry ∈ entries, ∀ op' ∈ (cancelAll ops entries).rows, op'.id = entry.token →
      op'.phase.isTerminal = true := by
  refine foldl_established (P := Cancelled answered entries ops)
    (Q := fun (entry : ToCancel) ops => ∀ op' ∈ ops.rows, op'.id = entry.token → op'.phase.isTerminal = true)
    ?_ ?_ ?_ ?_
  · exact ⟨rfl, fun op hop => ⟨op, hop, .refl answered op, fun _ => .inl rfl⟩⟩
  · intro ops' entry hentry h
    exact h.turn hnodup hentries hentry
  · intro ops' entry _ h op' hop' hid
    exact terminal_of_turn (h.ids ▸ hnodup) _ hop' hid
  · intro ops' entry other _ _ _ hother op' hop' hid
    rcases mem_updateFirst hop' with hold | ⟨_, -, rfl⟩
    · exact hother op' hold hid
    · rfl

end

/-- The requests of the collected operations are in no mailbox after the first loop,
and the rows are as they were. -/
theorem Valid.withdrawAll_spec (answered : Nat → Prop) (hw : w.Valid) (htask : task ∈ w.tasks)
    (hentries : ∀ entry ∈ entries, ∃ op ∈ task.rows, op.id = entry.token ∧ op.peerTid = entry.peer)
    : (w.Becomes answered (fun _ => False) (w.withdrawAll entries) ∧
      ∃ task' ∈ (w.withdrawAll entries).tasks, task'.id = task.id ∧
        task'.asyncOperations = task.asyncOperations) ∧
    ∀ entry ∈ entries, entry.queued = true →
      ∀ other ∈ (w.withdrawAll entries).tasks, entry.token ∉ other.tokens := by
  refine foldl_established (P := fun v : World => w.Becomes answered (fun _ => False) v ∧
    ∃ task' ∈ v.tasks, task'.id = task.id ∧ task'.asyncOperations = task.asyncOperations)
    (Q := fun (entry : ToCancel) v => entry.queued = true →
      ∀ other ∈ v.tasks, entry.token ∉ other.tokens)
    ⟨.refl _ _ w, task, htask, rfl, rfl⟩ ?_ ?_ ?_
  · rintro v entry - ⟨hb, task', htask', hid, hops⟩
    split
    · obtain ⟨task'', htask'', hsame⟩ := exists_mem_modify entry.peer (withdraw entry.token) htask'
      refine ⟨hb.trans (becomes_withdraw v entry.peer entry.token), task'', htask'', ?_⟩
      rcases hsame with rfl | rfl <;> exact ⟨hid, hops⟩
    · exact ⟨hb, task', htask', hid, hops⟩
  · rintro v entry hentry ⟨hb, task', htask', hid, hops⟩ hqueued
    rw [if_pos hqueued]
    obtain ⟨op, hop, htoken, hpeer⟩ := hentries entry hentry
    rw [← htoken, ← hpeer]
    refine (hw.of_becomes_live hb).withdraw_unsent htask' ?_
    rwa [rows, hops]
  · intro v entry other _ _ _ hother hqueued
    have hno := hother hqueued
    split
    · have hb : v.Becomes answered (fun _ => False)
          (v.modify entry.peer (withdraw entry.token)) := becomes_withdraw v _ _
      exact hb.not_mem_tokens hno
    · exact hno

/-- **An owner exits**: its open operations are settled, and none of them is queued
any more. -/
theorem Valid.becomes_onOwnerExits (answered : Nat → Prop) (hw : w.Valid) (tid : Nat) :
    w.Becomes answered (fun _ => False) (w.onOwnerExits tid) ∧
      ∀ task' ∈ (w.onOwnerExits tid).tasks, task'.id = tid → ∀ op' ∈ task'.rows,
        op'.phase ≠ .queued := by
  unfold onOwnerExits
  split
  · next hnone =>
    refine ⟨.refl _ _ w, fun task htask hid => ?_⟩
    rw [← hid, hw.get_of_mem htask] at hnone
    contradiction
  next task hget =>
  have htask : task ∈ w.tasks := mem_of_get hget
  have hid : task.id = tid := id_of_get hget
  have hentries : ∀ entry ∈ toCancel task tid, ∃ op ∈ task.rows, op.id = entry.token ∧
      op.peerTid = entry.peer :=
    fun entry he => (mem_toCancel he).imp fun op hop => ⟨hop.1, hop.2.1, hop.2.2.1⟩
  have hphases : ∀ entry ∈ toCancel task tid, ∃ op ∈ task.rows, op.id = entry.token ∧
      op.phase = if entry.queued then .queued else .dispatched :=
    fun entry he => (mem_toCancel he).imp fun op hop => ⟨hop.1, hop.2.1, hop.2.2.2⟩
  obtain ⟨⟨hback, task₁, htask₁, hid₁, hops₁⟩, hunsent⟩ :=
    hw.withdrawAll_spec answered htask hentries
  obtain ⟨hcancelled, hdone⟩ := cancelAll_spec answered (hw.rowsNodup task htask) hphases
  have hvalid := hw.of_becomes_live hback
  have hget₁ : (w.withdrawAll (toCancel task tid)).get tid = some task₁ := by
    have := hvalid.get_of_mem htask₁
    rwa [hid₁, hid] at this
  have hall : ∀ op ∈ task.rows, op.phase = .queued →
      ∃ entry ∈ toCancel task tid, entry.token = op.id := by
    intro op hop hqueued
    have howner : op.ownerTid = tid := (hw.owned task htask op hop).1.trans hid
    exact ⟨_, mem_filterMap.mpr ⟨op, hop, by rw [if_pos howner, hqueued]⟩, rfl⟩
  generalize toCancel task tid = entries at *
  constructor
  · refine hback.trans (becomes_modify_get hget₁ ⟨rfl, rfl, ?_, ?_, fun _ hm _ => hm, .refl _⟩
      id ?_)
    · rw [hops₁]
      intro op' hop'
      obtain ⟨op, hop, hb, -⟩ := hcancelled.rows op' hop'
      exact ⟨op, by rw [rows, hops₁]; exact hop, hb⟩
    · rw [hops₁, rows, rows, hops₁]
      exact hcancelled.ids
    · intro op' hop' hwd
      rw [hops₁] at hop'
      obtain ⟨op, hop, hb, hnew⟩ := hcancelled.rows op' hop'
      rcases hnew hwd with hphase | ⟨entry, hentry, htoken, hqueued⟩
      · exact .inl ⟨op, by rw [rows, hops₁]; exact hop, hb.id.symm, hphase.symm⟩
      · rw [hb.id, ← htoken]
        exact .inr (hunsent entry hentry hqueued)
  · intro task' htask' hid' op' hop' hqueued
    rw [hvalid.eq_of_mem_modify _ (fun _ => by rfl) hget₁ htask' hid', rows, hops₁] at hop'
    obtain ⟨op, hop, hb, -⟩ := hcancelled.rows op' hop'
    obtain ⟨entry, hentry, htoken⟩ := hall op hop (hb.queued hqueued)
    have := hdone entry hentry op' hop' (by rw [hb.id, htoken])
    rw [hqueued] at this
    contradiction

/-! ## leaving -/

/-- The task has no queued operation. -/
def NoQueued (tid : Nat) (w : World) : Prop :=
  ∀ task ∈ w.tasks, task.id = tid → ∀ op ∈ task.rows, op.phase ≠ .queued

theorem NoQueued.becomes (h : NoQueued tid w) (hb : w.Becomes answered dying w') :
    NoQueued tid w' := by
  intro task' htask' hid op' hop' hqueued
  obtain ⟨task, htask, hbt, op, hop, hbo⟩ := hb.row htask' hop'
  exact h task htask (hbt.id ▸ hid) op hop (hbo.queued hqueued)

theorem not_hit_of_peerGoneWhere (hhit : ∀ op : Operation, hit (op.settle .peerGone) = false)
    (htask' : task' ∈ (w.peerGoneWhere hit).tasks) (hop' : op' ∈ task'.rows) : hit op' = false := by
  obtain ⟨_, -, rfl⟩ := mem_map.mp htask'
  split at hop'
  · rw [(keeps_wakeIpc _).rows_eq] at hop'
    obtain ⟨op, -, rfl⟩ := mem_map.mp hop'
    split
    · exact hhit op
    · next hmiss => simpa using hmiss
  · next hnone =>
    simp only [any_eq_true, not_exists, not_and, Bool.not_eq_true] at hnone
    exact hnone op' hop'

/-- No operation stays queued for a tombstone. -/
theorem Valid.not_queued_for_leaving (hw : w.Valid) (oracle : ExitOracle)
    (htask' : task' ∈ (w.leave oracle tid).tasks) (hop' : op' ∈ task'.rows)
    (hpeer' : peer' ∈ (w.leave oracle tid).tasks) (hid : peer'.id = tid) (hto : op'.peerTid = tid) :
    op'.phase ≠ .queued := by
  intro hqueued
  have hleave : w.Becomes (fun _ => False) (· = tid) (w.leave oracle tid) :=
    becomes_leave oracle w tid
  -- the peer was in the table, so its own identity is what the sweep looks for
  obtain ⟨peer, hpeer, hbp, -⟩ := hleave.tasks peer' hpeer'
  obtain ⟨task, htask, -, op, hop, hbo⟩ := hleave.row htask' hop'
  have hpid : peer.id = tid := hbp.id ▸ hid
  have hbinding : op'.peerBinding = peer.binding := by
    rw [hbo.peer.2, hw.bound task htask op hop peer hpeer (by rw [hpid, ← hto, hbo.peer.1])]
  have hdead : ((w.get tid).map binding).getD (0, 0) = peer.binding := by
    rw [← hpid, hw.get_of_mem hpeer]
    rfl
  unfold leave at htask'
  dsimp only at htask'
  rw [hdead] at htask'
  generalize (mapTasks _ _).ownerDied tid peer.binding = v at htask'
  have htell : (v.peerDied tid peer.binding).Becomes (fun _ => False) (fun _ => False)
      (((v.peerDied tid peer.binding).notifyWatchers tid peer.binding
        (oracle.watchers tid)).notifyOwnerWatchers tid peer.binding (oracle.ownerWatchers tid)) :=
    (becomes_notifyWatchers _ _ _ _).trans (becomes_notifyOwnerWatchers _ _ _ _)
  obtain ⟨_, htask₂, -, _, hop₂, hbo₂⟩ := htell.row htask' hop'
  have hmiss := not_hit_of_peerGoneWhere (by simp [settle, Phase.isTerminal]) htask₂ hop₂
  rw [hbo₂.queued hqueued, ← hbo₂.peer.1, ← hbo₂.peer.2, hto, hbinding] at hmiss
  simp [Phase.isTerminal] at hmiss

/-- **Leaving** keeps the invariant, once the task's own operations are settled. -/
theorem Valid.leave (hw : w.Valid) (oracle : ExitOracle) (hown : NoQueued tid w) :
    (w.leave oracle tid).Valid := by
  have hleave : w.Becomes (fun _ => False) (· = tid) (w.leave oracle tid) :=
    becomes_leave oracle w tid
  refine hw.of_becomes hleave hown fun task' htask' op' hop' hqueued => ⟨fun hid => ?_, ?_⟩
  · exact hown.becomes hleave task' htask' hid op' hop' hqueued
  · intro peer' hpeer' hto hid
    exact hw.not_queued_for_leaving oracle htask' hop' hpeer' hid (hto ▸ hid) hqueued

/-- A valid world that `w` may become, with tasks leaving on the way. -/
def Reaches (answered : Nat → Prop) (w w' : World) : Prop :=
  w'.Valid ∧ w.Becomes answered (fun _ => True) w'

theorem Reaches.of_becomes (hw : w.Valid) (h : w.Becomes answered (fun _ => False) w') :
    Reaches answered w w' :=
  ⟨hw.of_becomes_live h, h.mono fun _ => False.elim⟩

theorem Reaches.trans (h : Reaches answered w w') (h' : Reaches answered w' w'') :
    Reaches answered w w'' := ⟨h'.1, h.2.trans h'.2⟩

/-- The body of `exit_task`, for any treatment of the cell's members that keeps the
invariant. -/
theorem Valid.exitTaskWith
    (hretire : ∀ v owner trigger, v.Valid → Reaches answered v (retire v owner trigger))
    (hw : w.Valid) (oracle : ExitOracle) (tid : Nat) :
    Reaches answered w (exitTaskWith retire oracle w tid) := by
  have hleave : ∀ v : World, v.Valid → NoQueued tid v → Reaches answered v (v.leave oracle tid) :=
    fun v hv hq => ⟨hv.leave oracle hq, (becomes_leave oracle v tid).mono fun _ _ => trivial⟩
  unfold World.exitTaskWith
  split
  · exact Reaches.of_becomes hw (.refl _ _ w)
  obtain ⟨hown, hnone⟩ := hw.becomes_onOwnerExits answered tid
  have hsettled : Reaches answered w (w.onOwnerExits tid) := Reaches.of_becomes hw hown
  dsimp only
  split
  · next owner _ =>
    have hmembers := hretire (w.onOwnerExits tid) owner tid hsettled.1
    exact (hsettled.trans hmembers).trans (hleave _ hmembers.1 (NoQueued.becomes hnone hmembers.2))
  · exact hsettled.trans (hleave _ hsettled.1 hnone)

theorem Valid.retireCellIncarnationParticipants (hw : w.Valid) (oracle : ExitOracle)
    (owner : CellOwner) (trigger : Nat) :
    Reaches answered w (w.retireCellIncarnationParticipants oracle owner trigger) := by
  have hbegin : Reaches answered w (w.beginRootRetirement owner) :=
    Reaches.of_becomes hw (becomes_of_tasks_eq rfl (.refl _) rfl rfl rfl)
  have hmember : ∀ (v : World) (tid : Nat), v.Valid → Reaches answered v (exitMember oracle v tid) :=
    fun v tid hv => hv.exitTaskWith (fun u _ _ hu => Reaches.of_becomes hu (.refl _ _ u)) oracle tid
  have hall : ∀ tids : List Nat,
      Reaches answered w (tids.foldl (exitMember oracle) (w.beginRootRetirement owner)) :=
    fun tids => tids.foldlRecOn _ (motive := fun v => Reaches answered w v) hbegin
      fun v hv tid _ => hv.trans (hmember v tid hv.1)
  unfold World.retireCellIncarnationParticipants
  dsimp only
  generalize map Task.id ((w.beginRootRetirement owner).tasks.filter _) = tids
  exact (hall tids).trans (Reaches.of_becomes (hall tids).1 (becomes_of_tasks_eq rfl (.refl _) rfl rfl rfl))

theorem Valid.exitTask (hw : w.Valid) (oracle : ExitOracle) (tid : Nat) :
    Reaches answered w (w.exitTask oracle tid) :=
  hw.exitTaskWith (fun _ owner trigger hv =>
    hv.retireCellIncarnationParticipants oracle owner trigger) oracle tid

theorem Valid.faultTask (hw : w.Valid) (oracle : ExitOracle) (tid : Nat) :
    Reaches answered w (w.faultTask oracle tid) := by
  unfold World.faultTask
  split
  · next owner _ =>
    have hretired : Reaches answered w (w.retireCellIncarnationParticipants oracle owner tid) :=
      hw.retireCellIncarnationParticipants oracle owner tid
    exact hretired.trans (hretired.1.exitTask oracle tid)
  · exact hw.exitTask oracle tid

end

end World

end Cellos.AsyncIpc
