import Cellos.AsyncIpc.Delivery

/-!
# Cellos.AsyncIpc.Outcomes

A result is written once and handed out once.

A finished row keeps its outcome and its reply bytes through every step, until a
`take` hands them out and removes the row, or the owner's record leaves the table.
Tokens are spent when they are accepted, so neither a second row nor a second
`take` can come of one.  A reply that is late, repeated or forged finds no row it may
write.
-/

namespace Cellos.AsyncIpc

open Lib List Option World

/-- What a step's `take` of this operation handed out. -/
def Response.takesOf (token : Nat) (r : Response) : Option Taken :=
  match r.takes with
  | some (operation, result) => if operation = token then some result else none
  | none => none

open Response

theorem Response.takesOf_eq_some_iff {r : Response} :
    r.takesOf token = some result ↔ r.takes = some (token, result) := by
  unfold takesOf
  split
  · next operation _ htakes =>
    rw [htakes]
    by_cases htoken : operation = token
    · simp [htoken]
    · simp [htoken]
  · next hnone =>
    rw [hnone]
    simp

variable {op : Operation}

namespace World

/-- The token has no row in the table and cannot get one. -/
def Absent (token : Nat) (w : World) : Prop :=
  Spent token w ∧ ∀ task ∈ w.tasks, ∀ op ∈ task.rows, op.id ≠ token

/-- The task has left the table for good. -/
def Left (tid : Nat) (w : World) : Prop := tid < w.nextTaskId ∧ ∀ task ∈ w.tasks, task.id ≠ tid

/-- The task still has the operation, with the outcome and the bytes of `op`. -/
def Holds (tid : Nat) (op : Operation) (w : World) : Prop := ∃ task ∈ w.tasks, task.id = tid ∧
    ∃ row ∈ task.rows, row.id = op.id ∧ row.phase = op.phase ∧ row.reply = op.reply

/-- After a run with the responses `rs`, a finished operation is as it was and was not taken; or
it was taken once, with its result, and is gone; or it was not taken and its owner has left. -/
def Settled (tid : Nat) (op : Operation) (rs : List Response) (w : World) : Prop :=
  (Holds tid op w ∧ rs.filterMap (Response.takesOf op.id) = []) ∨
  (Absent op.id w ∧ ∃ result, op.result = some result ∧
    rs.filterMap (Response.takesOf op.id) = [result]) ∨
  (Left tid w ∧ Absent op.id w ∧ rs.filterMap (Response.takesOf op.id) = [])

section

/-! ## tokens and takes -/

theorem Absent.change (ha : Absent token w) (h : Change r w w') : Absent token w' := by
  refine ⟨ha.1.change h, fun task' htask' op' hop' hid => ?_⟩
  rcases h.rows task' htask' op' hop' with ⟨task, htask, -, op, hop, hb⟩ | hnew
  · exact ha.2 task htask op hop (hb.id ▸ hid)
  · obtain ⟨s, hs, hflight⟩ := hnew.flight
    rw [hid] at hflight
    exact ha.1.2 s hs hflight

theorem Left.change (hl : Left tid w) (h : Change r w w') : Left tid w' := by
  refine ⟨hl.1.trans_le h.nextTaskId, fun task' htask' hid => ?_⟩
  rcases h.ids task' htask' with ⟨task, htask, heq⟩ | hnew
  · exact hl.2 task htask (heq.trans hid)
  · rw [hid] at hnew
    exact Nat.not_lt_of_le hnew hl.1

/-- **Acceptance spends the token**: it was in flight, and is so no more. -/
theorem Valid.step_accepts (hw : w.Valid) (h : step w i = some (r, w'))
    (hr : r.accepts = some token) : (∃ s ∈ w.submissions, s.token = some token) ∧
      Spent token w' := by
  obtain rfl : r = .submitted (.ok token) := by
    unfold Response.accepts at hr
    split at hr
    · rw [some.inj hr]
    · contradiction
  cases i with
  | submitFinish index ticks rowFunded slotFunded =>
    simp only [step] at h
    split at h
    · contradiction
    next s hs =>
    split at h
    · contradiction
    next message hmessage =>
    obtain ⟨hok, rfl⟩ := by simpa using h
    have hfresh := hw.fresh_of_flight hs hmessage
    have hdrop : ({ w with submissions := w.submissions.eraseIdx index } : World).Valid :=
      (hw.steps_eraseSubmission (r := .silent) index).1
    rcases hdrop.submitFinish_spec s message ticks rowFunded slotFunded hfresh.rows with
      ⟨failure, hsame⟩ | ⟨hdone, hacc⟩
    · rw [hsame] at hok
      contradiction
    obtain rfl : message.header.asyncOp = token := by
      rw [hdone] at hok
      exact Except.ok.inj hok
    refine ⟨⟨s, mem_of_getElem? hs, by rw [Submission.token, hmessage, map_some]⟩, ?_⟩
    unfold Spent
    rw [hacc.nextOperation, hacc.submissions]
    exact ⟨hfresh.issued, hfresh.flights⟩
  | _ =>
    simp only [step] at h
    repeat' split at h
    all_goals simp at h

/-- **A take** hands out the result of a row and leaves the token without one. -/
theorem Valid.step_takes (hw : w.Valid) (h : step w i = some (r, w'))
    (hr : r.takes = some (token, result)) :
    (∃ task ∈ w.tasks, ∃ op ∈ task.rows, op.id = token ∧ op.result = some result) ∧
      Absent token w' := by
  obtain rfl : r = .taken token (.ok (some result)) := by
    unfold takes at hr
    split at hr
    · cases hr
      rfl
    · contradiction
  have hchange := (hw.steps h).2
  cases i with
  | take consumer k buffers =>
    obtain ⟨⟨rfl, hok⟩, rfl⟩ := by simpa [step] using h
    rcases w.take_spec consumer k buffers with ⟨-, hno⟩ |
      ⟨holder, hholder, op, hop, rfl, result', hresult, htake⟩
    · exact absurd hok (hno result)
    obtain rfl : result' = result := by
      rw [htake] at hok
      simpa using hok
    have hspent := (hw.spent_of_row (mem_append_left _ hholder) hop).change hchange
    refine ⟨⟨holder, hholder, op, hop, rfl, hresult⟩, hspent, ?_⟩
    rw [htake]
    intro task' htask' row hrow hid
    -- the record that had the row is the one that was written
    obtain ⟨task, htask, hd⟩ := dropped_of_mem htask'
    obtain ⟨rfl, -⟩ := hw.row_eq htask hholder (hd.rows.subset hrow) hop hid
    have hwritten := hw.eq_of_mem_modify (fun task => { task with
      asyncOperations := task.asyncOperations.remove op.id }) (fun _ => rfl)
      (hw.get_of_mem htask) htask' hd.id
    rw [hwritten] at hrow
    have hgone : op.id ∉ (task.rows.eraseP (·.id == op.id)).filterMap fun op => some op.id := by
      refine not_mem_filterMap_eraseP ?_ (by simp)
      rw [filterMap_eq_map']
      exact hw.rowsNodup task htask
    exact hgone (mem_filterMap.mpr ⟨row, hrow, by rw [hid]⟩)
  | _ =>
    simp only [step] at h
    repeat' split at h
    all_goals simp at h

theorem Absent.takesOf_eq_none (ha : Absent token w) (hw : w.Valid) (h : step w i = some (r, w')) :
    r.takesOf token = none := by
  cases htakes : r.takesOf token with
  | none => rfl
  | some =>
    obtain ⟨⟨task, htask, op, hop, hid, -⟩, -⟩ := hw.step_takes h (takesOf_eq_some_iff.mp htakes)
    exact absurd hid (ha.2 task htask op hop)

/-! ## finished operations -/

/-- **One step of a finished operation.** -/
theorem Valid.settled_of_step (hw : w.Valid) (hend : op.phase.isTerminal = true)
    (hh : Holds tid op w) (h : step w i = some (r, w')) : Settled tid op [r] w' := by
  obtain ⟨task, htask, rfl, row, hrow, hid, hphase, hreply⟩ := hh
  have hchange := (hw.steps h).2
  have hspent := (hw.spent_of_row (mem_append_left _ htask) hrow).change hchange
  cases htakes : r.takesOf op.id with
  | some result =>
    -- the row that was taken is this one
    obtain ⟨⟨_, htask₂, row₂, hrow₂, hid₂, hresult⟩, habsent⟩ :=
      hw.step_takes h (takesOf_eq_some_iff.mp htakes)
    obtain ⟨-, rfl⟩ := hw.row_eq htask₂ htask hrow₂ hrow (hid₂.trans hid.symm)
    have hsame : row₂.result = op.result := by
      unfold Operation.result Operation.data
      rw [hphase, hreply]
    exact .inr (.inl ⟨habsent, result, hsame ▸ hresult, by simp [htakes]⟩)
  | none =>
    rcases hchange.kept task htask row hrow with
      ⟨task', htask', hsame, row', hrow', hb⟩ | ⟨result, -, htaken⟩ | hleft
    · obtain ⟨hphase', hreply'⟩ := hb.settled (hphase ▸ hend)
      exact .inl ⟨⟨task', htask', hsame, row', hrow', hb.id.trans hid, hphase'.trans hphase,
        hreply'.trans hreply⟩, by simp [htakes]⟩
    · rw [hid] at htaken
      rw [takesOf_eq_some_iff.mpr htaken] at htakes
      contradiction
    · have hgone : Left task.id w' := ⟨(hw.idsLt task htask).trans_le hchange.nextTaskId, hleft⟩
      refine .inr (.inr ⟨hgone, ⟨hid ▸ hspent, fun task' htask' op' hop' hid' => ?_⟩,
        by simp [htakes]⟩)
      -- a row of this token would be in the record that left
      rcases hchange.rows task' htask' op' hop' with
        ⟨task₂, htask₂, hsame, op₂, hop₂, hb⟩ | hnew
      · obtain ⟨rfl, -⟩ := hw.row_eq htask₂ htask hop₂ hrow (by rw [← hb.id, hid', hid])
        exact hleft task' htask' hsame.symm
      · obtain ⟨s, hs, hflight⟩ := hnew.flight
        rw [hid', ← hid] at hflight
        exact hw.not_in_flight htask hrow s hs hflight

/-- **A finished operation in a run**: its outcome stays as it is until it is taken once. -/
theorem Valid.settled_of_run (hw : w.Valid)
    (hend : op.phase.isTerminal = true) (hh : Holds tid op w)
    (h : Lib.run step w is = some (rs, w')) : Settled tid op rs w' := by
  refine (run_history (H := fun rs v => v.Valid ∧ Settled tid op rs v) ?_ h ⟨hw, .inl ⟨hh, rfl⟩⟩).2
  intro rs v i r v' ⟨hv, hs⟩ hstep
  obtain ⟨hv', hchange⟩ := hv.steps hstep
  refine ⟨hv', ?_⟩
  unfold Settled
  rw [filterMap_append]
  rcases hs with ⟨hholds, hnone⟩ | ⟨habsent, result, hresult, hone⟩ | ⟨hleft, habsent, hnone⟩
  · rw [hnone, nil_append]
    exact hv.settled_of_step hend hholds hstep
  -- a token without a row is never taken again
  · have hno := habsent.takesOf_eq_none hv hstep
    exact .inr (.inl ⟨habsent.change hchange, result, hresult, by simp [hone, hno]⟩)
  · have hno := habsent.takesOf_eq_none hv hstep
    exact .inr (.inr ⟨hleft.change hchange, habsent.change hchange, by simp [hnone, hno]⟩)

/-! ## replies -/

/-- Every row is as it was, but for the dispatched operation the reply names, which waited for the
incarnation of the task that replies. -/
def OnlyTarget (provider token : Nat) (exactPeer : Bool) (w w' : World) : Prop :=
  ∀ task' ∈ w'.tasks, ∀ op' ∈ task'.rows, ∃ task ∈ w.tasks, task.id = task'.id ∧
    (op' ∈ task.rows ∨ ∃ op ∈ task.rows, op.id = op'.id ∧ op.id = token ∧
      op.phase = .dispatched ∧ (exactPeer = true → op.peerTid = provider) ∧
      ∃ peer, w.getLive provider = some peer ∧ peer.binding = op.peerBinding)

theorem onlyTarget_refl (provider token : Nat) (exactPeer : Bool) (w : World) :
    OnlyTarget provider token exactPeer w w :=
  fun task htask _ hop => ⟨task, htask, rfl, .inl hop⟩

theorem onlyTarget_terminal (w : World) (ownerTid token provider : Nat) (exactPeer : Bool)
    (buffer : UserBuffer) : OnlyTarget provider token exactPeer w
      (w.terminal ownerTid token provider exactPeer buffer).2 := by
  rcases terminal_cases w ownerTid token provider exactPeer buffer with
    ⟨hsame, -⟩ | ⟨owner, op, peer, settle, htarget, hwrite, -, hbecomes⟩
  · rw [hsame]
    exact onlyTarget_refl provider token exactPeer w
  rw [hwrite]
  have hb := hbecomes (fun _ => True) fun _ => trivial
  intro task' htask' op' hop'
  -- waking the owner leaves its rows alone
  obtain ⟨task₁, htask₁, hid₁, hrows₁⟩ : ∃ task₁ ∈ (w.modifyOp ownerTid token settle).tasks,
      task₁.id = task'.id ∧ op' ∈ task₁.rows := by
    rcases mem_modify htask' with hold | ⟨task₁, hget, rfl⟩
    · exact ⟨task', hold, rfl, hop'⟩
    · have hkeeps := task₁.keeps_wakeIpc
      exact ⟨task₁, mem_of_get hget, (Task.tables_eq_iff.mp hkeeps.1).1.symm, hkeeps.rows_eq ▸ hop'⟩
  rcases mem_modify htask₁ with hold | ⟨task, hget, rfl⟩
  · exact ⟨task₁, hold, hid₁, .inl hrows₁⟩
  refine ⟨task, mem_of_get hget, hid₁, ?_⟩
  obtain rfl : owner = task := some.inj (htarget.get.symm.trans hget)
  rcases mem_updateFirst hrows₁ with hold | ⟨row, hfind, rfl⟩
  · exact .inl hold
  · obtain rfl : op = row := some.inj (htarget.row.symm.trans hfind)
    exact .inr ⟨op, mem_of_find?_eq_some hfind, hb.id.symm, htarget.id, htarget.phase,
      htarget.exact, peer, htarget.peerLive, htarget.bound.symm⟩

theorem onlyTarget_replyInSched (w : World) (peer token : Nat) (buffer : UserBuffer) :
    OnlyTarget peer token false w (w.replyInSched peer token buffer).2 := by
  have hend : ∀ v : World, OnlyTarget peer token false w v →
      OnlyTarget peer token false w (v.endRequest peer token) := by
    intro v hv
    unfold endRequest
    split
    · exact hv
    intro task' htask' op' hop'
    obtain ⟨task, htask, rfl⟩ := mem_map.mp htask'
    split at hop'
    · next hcond =>
      rw [if_pos hcond]
      exact hv task htask op' hop'
    · next hcond =>
      rw [if_neg hcond]
      exact hv task htask op' hop'
  unfold replyInSched
  split
  · exact onlyTarget_refl peer token false w
  split
  · exact hend w (onlyTarget_refl peer token false w)
  · exact hend _ (onlyTarget_terminal w _ token peer false buffer)

theorem onlyTarget_replyCurrentInSched (w : World) (peer destination : Nat) (buffer : UserBuffer)
    (hprovider : w.getLive peer = some provider) :
    OnlyTarget peer provider.context.currentAsyncOp true w
      (w.replyCurrentInSched peer destination buffer).2 := by
  unfold replyCurrentInSched
  rw [hprovider]
  dsimp only
  split
  · exact onlyTarget_refl peer _ true w
  split
  · exact onlyTarget_terminal w destination _ peer true buffer
  · exact onlyTarget_refl peer _ true w

/-! ## runs -/

/-- No two submissions of a run are accepted with one token. -/
theorem Valid.accepts_nodup (hw : w.Valid)
    (h : Lib.run step w is = some (rs, w')) : (rs.filterMap Response.accepts).Nodup :=
  run_nodup (P := Valid) (fun _ _ _ _ hv hstep => (hv.steps hstep).1)
    (fun _ _ _ _ _ hv hs hstep => hs.change (hv.steps hstep).2)
    (fun _ _ _ _ _ hv hstep hr => (hv.step_accepts hstep hr).2)
    (fun _ _ _ _ _ hv hs hstep hr => by
      obtain ⟨⟨s, hmem, hflight⟩, -⟩ := hv.step_accepts hstep hr
      exact hs.2 s hmem hflight) h hw

/-- No operation is taken twice in a run. -/
theorem Valid.takes_nodup (hw : w.Valid) (h : Lib.run step w is = some (rs, w')) :
    (rs.filterMap fun r => r.takes.map Prod.fst).Nodup :=
  run_nodup (P := Valid) (Q := Absent) (fun _ _ _ _ hv hstep => (hv.steps hstep).1)
    (fun _ _ _ _ _ hv ha hstep => ha.change (hv.steps hstep).2)
    (fun _ _ _ _ _ hv hstep hr => by
      obtain ⟨⟨_, _⟩, htakes, rfl⟩ := map_eq_some_iff.mp hr
      exact (hv.step_takes hstep htakes).2)
    (fun _ _ _ _ _ hv ha hstep hr => by
      obtain ⟨⟨_, _⟩, htakes, rfl⟩ := map_eq_some_iff.mp hr
      have hnone := ha.takesOf_eq_none hv hstep
      rw [takesOf_eq_some_iff.mpr htakes] at hnone
      contradiction) h hw

end

end World

/-- **Single assignment**: in every run from boot no token is accepted twice and no operation is
taken twice; a finished operation keeps its outcome and its reply bytes until one `take` hands
exactly them out and removes it, or its owner leaves; and a reply leaves every row alone but the
dispatched one it names, whose provider it comes from. -/
theorem results_single_assignment {maxCells : Nat} {is : List Op} {rs : List Response} {w : World}
    (h : run step (boot maxCells) is = some (rs, w)) : (rs.filterMap Response.accepts).Nodup ∧
    (rs.filterMap fun r => r.takes.map Prod.fst).Nodup ∧
    (∀ task ∈ w.tasks, ∀ op ∈ task.rows, op.phase.isTerminal = true →
      ∀ js rs' w', run step w js = some (rs', w') → Settled task.id op rs' w') ∧
    (∀ peer token buffer r w', step w (.reply peer token buffer) = some (r, w') →
      OnlyTarget peer token false w w') ∧
    ∀ peer destination buffer r w', step w (.replyCurrent peer destination buffer) = some (r, w') →
      ∀ provider, w.getLive peer = some provider →
        OnlyTarget peer provider.context.currentAsyncOp true w w' := by
  have hboot := valid_boot maxCells
  have hw : w.Valid := hboot.run h
  refine ⟨hboot.accepts_nodup h, hboot.takes_nodup h, ?_, ?_, ?_⟩
  · intro task htask op hop hend js rs' w' hrun
    exact hw.settled_of_run hend ⟨task, htask, rfl, op, hop, rfl, rfl, rfl⟩ hrun
  · intro peer token buffer r w' hstep
    cases hstep
    exact onlyTarget_replyInSched w peer token buffer
  · intro peer destination buffer r w' hstep provider hprovider
    cases hstep
    exact onlyTarget_replyCurrentInSched w peer destination buffer hprovider

/-- Task 1 asks task 2, which receives the request and answers it. -/
def repliedRun : List Op := [.spawn 1 1 none false none, .spawn 2 1 none false none,
    .submitBegin 1 2 2, .submitPrepare 0 ⟨[7, 8], none⟩ true true, .submitFinish 0 10 true true,
    .recvSnapshot .direct 2 0 true, .recvCommit 0, .reply 2 1 ⟨[5], none⟩]

theorem repliedRun_replied : ∃ rs w, run step (boot 4) repliedRun = some (rs, w) ∧
    ∃ task ∈ w.tasks, ∃ op ∈ task.rows, op.phase = .terminal .reply 1 := by
  decide +kernel

theorem results_single_assignment_repliedRun : ∃ rs w, run step (boot 4) repliedRun = some (rs, w) ∧
      (rs.filterMap Response.accepts).Nodup ∧ ∃ task ∈ w.tasks, ∃ op ∈ task.rows,
        op.phase = .terminal .reply 1 ∧ ∀ js rs' w', run step w js = some (rs', w') →
          Settled task.id op rs' w' := by
  obtain ⟨rs, w, hrun, task, htask, op, hop, hphase⟩ := repliedRun_replied
  obtain ⟨haccepts, -, hsettled, -⟩ := results_single_assignment hrun
  exact ⟨rs, w, hrun, haccepts, task, htask, op, hop, hphase,
    hsettled task htask op hop (by rw [hphase]; rfl)⟩

/-- **Requests are addressed**: no two rows share a token and a mailbox has each token once; a
request lies in the mailbox of the incarnation it was accepted for, under the identity of its
owner; and as long as it is queued, owner and peer are live. -/
theorem requests_addressed {maxCells : Nat} {is : List Op} {rs : List Response} {w : World}
    (h : run step (boot maxCells) is = some (rs, w)) : (∀ task ∈ w.tasks, task.tokens.Nodup) ∧
    ∀ task ∈ w.tasks, ∀ op ∈ task.rows,
      (∀ other ∈ w.tasks, ∀ op' ∈ other.rows, op.id = op'.id → op = op') ∧
      (∀ peer ∈ w.tasks, ∀ msg ∈ peer.pendingMsgs, msg.token = some op.id →
        peer.id = op.peerTid ∧ peer.binding = op.peerBinding ∧
          ∀ header, msg.wireHeader = some header → header.senderTid = task.id) ∧
      (op.phase = .queued →
        task.live = true ∧ ∀ peer ∈ w.tasks, peer.id = op.peerTid → peer.live = true) := by
  have hw : w.Valid := (valid_boot maxCells).run h
  refine ⟨hw.mailNodup, fun task htask op hop => ⟨?_, ?_, hw.queuedLive task htask op hop⟩⟩
  · intro other hother op' hop' hid
    exact (hw.row_eq htask hother hop hop' hid).2
  · intro peer hpeer msg hmsg htoken
    obtain ⟨hid, hsender⟩ := hw.addressed task htask op hop peer hpeer msg hmsg htoken
    have howner := (hw.owned task htask op hop).1
    refine ⟨hid, hw.bound task htask op hop peer hpeer hid, fun header hheader => ?_⟩
    rw [(hsender header hheader).1, howner]

/-- Before task 2 receives it, the request of task 1 is queued in its mailbox. -/
theorem requests_addressed_queued :
    ∃ rs w, run step (boot 4) (repliedRun.take 5) = some (rs, w) ∧
      ∃ task ∈ w.tasks, ∃ op ∈ task.rows, ∃ peer ∈ w.tasks, ∃ msg ∈ peer.pendingMsgs,
        op.phase = .queued ∧ msg.token = some op.id ∧ peer.binding = op.peerBinding ∧
          (∃ header, msg.wireHeader = some header ∧ header.senderTid = task.id) ∧
          task.live = true ∧ peer.live = true := by
  obtain ⟨rs, w, hrun, task, htask, op, hop, hphase, peer, hpeer, msg, hmsg, htoken⟩ :
      ∃ rs w, run step (boot 4) (repliedRun.take 5) = some (rs, w) ∧
        ∃ task ∈ w.tasks, ∃ op ∈ task.rows, op.phase = .queued ∧
          ∃ peer ∈ w.tasks, ∃ msg ∈ peer.pendingMsgs, msg.token = some op.id := by
    decide +kernel
  obtain ⟨-, haddressed, hlive⟩ := (requests_addressed hrun).2 task htask op hop
  obtain ⟨hid, hbinding, hsender⟩ := haddressed peer hpeer msg hmsg htoken
  obtain ⟨header, hheader, -⟩ := PendingMsg.token_eq_some_iff.mp htoken
  obtain ⟨howner, hpeers⟩ := hlive hphase
  exact ⟨rs, w, hrun, task, htask, op, hop, peer, hpeer, msg, hmsg, hphase, htoken, hbinding,
    ⟨header, hheader, hsender header hheader⟩, howner, hpeers peer hpeer hid⟩

end Cellos.AsyncIpc
