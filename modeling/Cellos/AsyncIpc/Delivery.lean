import Cellos.AsyncIpc.Steps

/-!
# Cellos.AsyncIpc.Delivery

When a requester may trust what it is told about delivery.

A receiver that is shown a request has passed the dispatch boundary in the same
critical section: from then on no row says that the request was not dispatched
(`Shown`).  A row that says so has no request in any mailbox, and no request comes
back, because its token is spent (`Unsent`).
-/

namespace Cellos.AsyncIpc

open Lib List World

namespace World

/-- The records of the dispatch table and of the tasks that left it. -/
def records (w : World) : List Task := w.tasks ++ w.zombies

/-- The token was drawn and is not in flight: no submission can bring it back. -/
def Spent (token : Nat) (w : World) : Prop :=
  token < w.nextOperation ∧ ∀ s ∈ w.submissions, s.token ≠ some token

/-- The request is in no mailbox. -/
def Unsent (token : Nat) (w : World) : Prop := Spent token w ∧ ∀ task ∈ w.tasks, token ∉ task.tokens

/-- No row says that the request was not dispatched. -/
def Shown (token : Nat) (w : World) : Prop :=
  Spent token w ∧ ∀ task ∈ w.records, ∀ op ∈ task.rows, op.id = token → op.phase.early = false

/-- No row holds a reply to the request. -/
def Unanswered (token : Nat) (w : World) : Prop :=
  ∀ task ∈ w.records, ∀ op ∈ task.rows, op.id = token → ∀ len, op.phase ≠ .terminal .reply len

section

variable {w : World}
variable {task : Task}

/-! ## what every step keeps -/

theorem record_origin (h : Change r w w')
    (htask' : task' ∈ w'.records) (hop' : op' ∈ task'.rows) : (∃ task ∈ w.records, ∃ op ∈ task.rows,
      op.Becomes (fun token => r.answered = some token) op') ∨
    Admitted r w op' := by
  rcases mem_append.mp htask' with hlive | hzombie
  · rcases h.rows task' hlive op' hop' with ⟨task, htask, -, op, hop, hb⟩ | hnew
    · exact .inl ⟨task, mem_append_left _ htask, op, hop, hb⟩
    · exact .inr hnew
  · exact .inl (h.buried task' hzombie op' hop')

theorem Spent.change (hs : Spent token w) (h : Change r w w') : Spent token w' := by
  refine ⟨hs.1.trans_le h.counter, fun s' hs' htoken => ?_⟩
  rcases h.flights s' hs' token htoken with ⟨s, hmem, hold⟩ | hnew
  · exact hs.2 s hmem hold
  · exact Nat.not_lt_of_le hnew hs.1

theorem Unsent.change (hu : Unsent token w) (h : Change r w w') : Unsent token w' := by
  refine ⟨hu.1.change h, fun task' htask' htoken => ?_⟩
  rcases h.mail task' htask' token htoken with ⟨task, htask, hold⟩ | ⟨s, hs, hflight⟩
  · exact hu.2 task htask hold
  · exact hu.1.2 s hs hflight

theorem Shown.change (hs : Shown token w) (h : Change r w w') : Shown token w' := by
  refine ⟨hs.1.change h, fun task' htask' op' hop' hid => ?_⟩
  rcases record_origin h htask' hop' with ⟨task, htask, op, hop, hb⟩ | hnew
  · have hlate := hs.2 task htask op hop (hb.id ▸ hid)
    rw [← Bool.not_eq_true] at hlate ⊢
    exact fun hearly => hlate (hb.early hearly)
  · obtain ⟨s, hmem, hflight⟩ := hnew.flight
    rw [hid] at hflight
    exact absurd hflight (hs.1.2 s hmem)

theorem Unanswered.change (hu : Unanswered token w) (h : Change r w w')
    (hr : r.answered ≠ some token) : Unanswered token w' := by
  intro task' htask' op' hop' hid len hphase
  rcases record_origin h htask' hop' with ⟨task, htask, op, hop, hb⟩ | hnew
  · have hop_id : op.id = token := hb.id ▸ hid
    rcases hb.answer len hphase with hold | hnow
    · exact hu task htask op hop hop_id len hold
    · exact hr (hop_id ▸ hnow)
  · rw [hnew.phase] at hphase
    contradiction

variable (hw : w.Valid) {op : Operation}

include hw

theorem Valid.spent_of_row (htask : task ∈ w.records) (hop : op ∈ task.rows) : Spent op.id w := by
  rcases mem_append.mp htask with hlive | hzombie
  · exact ⟨(hw.issued task hlive op hop).2.1, hw.not_in_flight hlive hop⟩
  · obtain ⟨-, hlt, hflight, -⟩ := hw.buried task hzombie op hop
    exact ⟨hlt, hflight⟩

theorem Valid.spent_of_mail (htask : task ∈ w.tasks) (htoken : token ∈ task.tokens) :
    Spent token w := by
  refine ⟨hw.mailIssued task htask token htoken, fun s hs hflight => ?_⟩
  obtain ⟨message, hmessage, rfl⟩ := Option.map_eq_some_iff.mp hflight
  exact (hw.flights s hs message hmessage).2.2.2.2.2 task htask htoken

/-- A row that says its request was not dispatched is right about the mailboxes. -/
theorem Valid.unsent_of_withdrawn (htask : task ∈ w.records)
    (hop : op ∈ task.rows) (hwd : op.phase.withdrawn = true) : Unsent op.id w := by
  refine ⟨hw.spent_of_row htask hop, ?_⟩
  rcases mem_append.mp htask with hlive | hzombie
  · exact hw.withdrawn task hlive op hop hwd
  · exact (hw.buried task hzombie op hop).2.2.2 hwd

/-! ## the dispatch boundary -/

/-- The operation of a request, while it is undispatched, is queued for the receiver
by the sender the header names. -/
structure Destined (w : World) (receiver : Nat) (header : IpcWireHeader) : Prop where
  present : ∃ task ∈ w.tasks, task.id = receiver
  row : ∀ task ∈ w.tasks, ∀ op ∈ task.rows, op.id = header.asyncOp → op.phase.early = true →
    op.phase = .queued ∧ op.peerTid = receiver ∧ op.ownerTid = header.senderTid ∧
      op.ownerBinding = (header.senderCellId, header.senderGeneration)

theorem Valid.destined (hget : w.get receiver = some task)
    (hmsg : msg ∈ task.pendingMsgs) (hheader : msg.wireHeader = some header)
    (htoken : msg.token = some header.asyncOp) : Destined w receiver header where
  present := ⟨task, mem_of_get hget, id_of_get hget⟩
  row := by
    intro owner howner op hop hid hearly
    rw [← hid] at htoken
    obtain ⟨hpeer, hfrom⟩ := hw.addressed owner howner op hop task (mem_of_get hget) msg hmsg htoken
    obtain ⟨htid, hbinding⟩ := hfrom header hheader
    refine ⟨?_, hpeer.symm.trans (id_of_get hget), htid.symm, hbinding.symm⟩
    rcases Phase.early_iff.mp hearly with hqueued | hwd
    · exact hqueued
    · have hmem : op.id ∈ task.tokens := mem_filterMap.mpr ⟨msg, hmsg, htoken⟩
      exact absurd hmem (hw.withdrawn owner howner op hop hwd task (mem_of_get hget))

omit hw in
theorem Destined.modify (h : Destined w receiver header) (tid : Nat)
    (hid : ∀ task, (f task).id = task.id) (hrows : ∀ task, (f task).rows = task.rows) :
    Destined (w.modify tid f) receiver header where
  present := by
    obtain ⟨_, htask, heq⟩ := h.present
    obtain ⟨task', htask', hsame⟩ := exists_mem_modify tid f htask
    refine ⟨task', htask', ?_⟩
    rcases hsame with rfl | rfl
    · exact heq
    · rw [hid, heq]
  row := by
    intro task' htask' op hop
    rcases mem_modify htask' with hold | ⟨task, hget, rfl⟩
    · exact h.row task' hold op hop
    · rw [hrows] at hop
      exact h.row task (mem_of_get hget) op hop

/-- **The dispatch boundary**: after `dispatch` no row of the request is undispatched. -/
theorem Valid.late_of_dispatch (hd : Destined w receiver header) (h0 : header.asyncOp ≠ 0)
    (htask' : task' ∈ (w.dispatch receiver header).tasks) (hop' : op' ∈ task'.rows)
    (hid : op'.id = header.asyncOp) : op'.phase.early = false := by
  rw [← Bool.not_eq_true]
  intro hearly
  have hb : w.Becomes (fun _ => False) (fun _ => False) (w.dispatch receiver header) :=
    becomes_dispatch w receiver header
  obtain ⟨task, htask, hbt, -⟩ := hb.tasks task' htask'
  obtain ⟨op, hop, hbo⟩ := hbt.rows op' hop'
  have hopid : op.id = header.asyncOp := hbo.id ▸ hid
  -- the row is queued, so every check of `dispatch` passes
  obtain ⟨hqueued, hpeer, howner, hbinding⟩ := hd.row task htask op hop hopid (hbo.early hearly)
  obtain ⟨provider, hprovider, hpid⟩ := hd.present
  obtain ⟨hlive, hpeers⟩ := hw.queuedLive task htask op hop hqueued
  obtain ⟨htid, htbind⟩ := hw.owned task htask op hop
  have hplive : w.getLive receiver = some provider :=
    hw.getLive_of_mem hprovider hpid (hpeers provider hprovider (hpid.trans hpeer.symm))
  have htlive : w.getLive header.senderTid = some task :=
    hw.getLive_of_mem htask (htid.symm.trans howner) hlive
  have hfind : task.asyncOperations.find header.asyncOp = some op :=
    hopid ▸ hw.find_of_mem htask hop
  have hpbind : op.peerBinding = provider.binding :=
    (hw.bound task htask op hop provider hprovider (hpid.trans hpeer.symm)).symm
  have hdispatch : w.dispatch receiver header =
      w.modifyOp task.id op.id Operation.markDispatched := by
    unfold dispatch
    rw [if_neg h0]
    simp only [hplive, htlive, hfind]
    rw [if_neg (not_not.mpr (htbind ▸ hbinding)), if_pos ⟨htbind, hpeer, hpbind, hqueued⟩,
      ← howner, htid, hopid]
  -- so it is the row that was marked
  have hvalid : (w.dispatch receiver header).Valid := hw.of_becomes_live hb
  rw [hdispatch] at hvalid htask'
  have hmark : op.markDispatched ∈ (task.asyncOperations.modify op.id
      Operation.markDispatched).rows :=
    apply_mem_updateFirst Operation.markDispatched (hw.find_of_mem htask hop)
  have hrec := apply_mem_updateFirst (fun task : Task => { task with
    asyncOperations := task.asyncOperations.modify op.id Operation.markDispatched })
    (hw.get_of_mem htask)
  obtain ⟨-, rfl⟩ := hvalid.row_eq htask' hrec hop' hmark (hid.trans hopid.symm)
  contradiction

theorem Valid.modify_keeps (h : ∀ task : Task, task.Keeps (f task)) : (w.modify tid f).Valid := by
  have hb : w.Becomes (fun _ => False) (fun _ => False) (w.modify tid f) := becomes_modify_keeps h
  exact hw.of_becomes_live hb

/-- A receive that shows a request in `w`, and passes the boundary in `v`. -/
theorem Valid.shown_of_dispatch (hv : v.Valid)
    (hget : w.get receiver = some task) (hmsg : msg ∈ task.pendingMsgs)
    (htoken : msg.token = some header.asyncOp) (h0 : header.asyncOp ≠ 0)
    (hd : Destined v receiver header)
    (hafter : (v.dispatch receiver header).Becomes (fun _ => False) (fun _ => False) w')
    (hall : w.Becomes (fun _ => False) (fun _ => False) w') : Shown header.asyncOp w' := by
  have hmem : header.asyncOp ∈ task.tokens := mem_filterMap.mpr ⟨msg, hmsg, htoken⟩
  have hspent := hw.spent_of_mail (mem_of_get hget) hmem
  refine ⟨?_, fun task' htask' op' hop' hid => ?_⟩
  · unfold Spent
    rw [hall.nextOperation, hall.submissions]
    exact hspent
  rcases mem_append.mp htask' with hlive | hzombie
  · obtain ⟨task₁, htask₁, hb, -⟩ := hafter.tasks task' hlive
    obtain ⟨op, hop, hbo⟩ := hb.rows op' hop'
    have hlate := hv.late_of_dispatch hd h0 htask₁ hop (hbo.id ▸ hid)
    rw [← Bool.not_eq_true] at hlate ⊢
    exact fun hearly => hlate (hbo.early hearly)
  · -- the row of a task that left is not queued, nor was its request taken back
    rcases hall.zombies task' hzombie with hold | ⟨⟨_, _, hno, _⟩, -⟩
    · obtain ⟨hq, -, -, hwd⟩ := hw.buried task' hold op' hop'
      rw [← Bool.not_eq_true]
      intro hearly
      rcases Phase.early_iff.mp hearly with hqueued | hwithdrawn
      · exact hq hqueued
      · rw [hid] at hwd
        exact hwd hwithdrawn task (mem_of_get hget) hmem
    · contradiction

theorem Valid.shown_of_recvSnapshot (h : (w.recvSnapshot form receiver mask funded).1 = .shown msg)
    (htoken : msg.token = some token) :
    Shown token (w.recvSnapshot form receiver mask funded).2 := by
  have hall : w.Becomes (fun _ => False) (fun _ => False)
      (w.recvSnapshot form receiver mask funded).2 :=
    becomes_recvSnapshot w form receiver mask funded
  obtain ⟨header, hheader, rfl, h0⟩ := PendingMsg.token_eq_some_iff.mp htoken
  unfold recvSnapshot at h hall ⊢
  split at h
  · contradiction
  next task hget =>
  split at h
  · next msg' hpos hmsg' =>
    split at h
    · contradiction
    next hfunded =>
    obtain rfl : msg' = msg := by simpa using h
    have hmem : msg' ∈ task.pendingMsgs := mem_of_find?_eq_some hmsg'
    simp only [hget, hpos, hmsg', if_neg hfunded] at hall ⊢
    refine hw.shown_of_dispatch hw hget hmem htoken h0
      (hw.destined hget hmem hheader htoken) ?_ hall
    unfold showTo
    rw [hheader]
    exact becomes_of_tasks_eq rfl (.refl _) rfl rfl rfl
  · split at h <;> contradiction

theorem Valid.shown_of_recvKernel
    (h : (w.recvKernel receiver mask outLen).1 = .shown msg) (htoken : msg.token = some token) :
    Shown token (w.recvKernel receiver mask outLen).2 := by
  have hall : w.Becomes (fun _ => False) (fun _ => False) (w.recvKernel receiver mask outLen).2 :=
    becomes_recvKernel w receiver mask outLen
  obtain ⟨header, hheader, rfl, h0⟩ := PendingMsg.token_eq_some_iff.mp htoken
  unfold recvKernel at h hall ⊢
  split at h
  · contradiction
  next task hget =>
  split at h
  · next index msg' hindex hmsg' =>
    split at h
    · contradiction
    next header' hheader' =>
    split at h
    · contradiction
    next hlen =>
    obtain rfl : msg' = msg := by simpa using h
    obtain rfl : header' = header := Option.some.inj (hheader'.symm.trans hheader)
    have hmem : msg' ∈ task.pendingMsgs := mem_of_find?_eq_some hmsg'
    simp only [hget, hindex, hmsg', hheader, if_neg hlen] at hall ⊢
    -- the message leaves the mailbox and the context is set before the boundary
    have herase : w.Becomes (fun _ => False) (fun _ => False) (w.modify receiver fun task =>
        { task with pendingMsgs := task.pendingMsgs.eraseIdx index }) :=
      becomes_modify_mail fun mailbox => eraseIdx_sublist mailbox index
    have hkeeps : ∀ task : Task, task.Keeps (task.setReceivedRequestContext w.vfsCell
        msg'.senderTid (header'.senderCellId, header'.senderGeneration) header'.asyncOp) :=
      fun task => task.keeps_setReceivedRequestContext _ _ _ _
    have hd := (hw.destined hget hmem hheader htoken).modify receiver (f := fun task =>
      { task with pendingMsgs := task.pendingMsgs.eraseIdx index }) (fun _ => rfl) fun _ => rfl
    exact hw.shown_of_dispatch ((hw.of_becomes_live herase).modify_keeps hkeeps) hget hmem htoken h0
      (hd.modify receiver (fun task => (Task.tables_eq_iff.mp (hkeeps task).1).1)
        fun task => (hkeeps task).rows_eq) (becomes_wakeSenderToken _ _ _ _) hall
  · contradiction

omit hw in
theorem mem_of_recvSnapshot (h : (w.recvSnapshot form receiver mask funded).1 = .shown msg) :
    ∃ task ∈ w.tasks, msg ∈ task.pendingMsgs := by
  unfold recvSnapshot at h
  split at h
  · contradiction
  next task hget =>
  split at h
  · next hmsg' =>
    split at h
    · contradiction
    · cases h
      exact ⟨task, mem_of_get hget, mem_of_find?_eq_some hmsg'⟩
  · split at h <;> contradiction

omit hw in
theorem mem_of_recvKernel (h : (w.recvKernel receiver mask outLen).1 = .shown msg) :
    ∃ task ∈ w.tasks, msg ∈ task.pendingMsgs := by
  unfold recvKernel at h
  split at h
  · contradiction
  next task hget =>
  split at h
  · next hmsg' =>
    split at h
    · contradiction
    split at h
    · contradiction
    · cases h
      exact ⟨task, mem_of_get hget, mem_of_find?_eq_some hmsg'⟩
  · contradiction

omit hw in
theorem step_shows (h : step w i = some (r, w')) (hr : r.shows = some token) :
    ∃ receiver msg, msg.token = some token ∧
      ((∃ form mask funded, w.recvSnapshot form receiver mask funded = (.shown msg, w')) ∨
        ∃ mask outLen, w.recvKernel receiver mask outLen = (.shown msg, w')) := by
  obtain ⟨receiver, msg, rfl, htoken⟩ : ∃ receiver msg, r = .received receiver (.shown msg) ∧
      msg.token = some token := by
    unfold Response.shows at hr
    split at hr
    · exact ⟨_, _, rfl, hr⟩
    · contradiction
  refine ⟨receiver, msg, htoken, ?_⟩
  cases i with
  | recvSnapshot form _ mask funded =>
    obtain ⟨⟨rfl, hshown⟩, hworld⟩ := by simpa [step] using h
    exact .inl ⟨form, mask, funded, Prod.ext hshown hworld⟩
  | recvKernel _ mask outLen =>
    obtain ⟨⟨rfl, hshown⟩, hworld⟩ := by simpa [step] using h
    exact .inr ⟨mask, outLen, Prod.ext hshown hworld⟩
  | _ =>
    simp only [step] at h
    repeat' split at h
    all_goals simp at h

/-- **Delivery is dispatch**: after a receiver was shown a request, no row denies it. -/
theorem Valid.shown_of_step (h : step w i = some (r, w'))
    (hr : r.shows = some token) : Shown token w' := by
  obtain ⟨_, _, htoken, ⟨_, _, _, hrecv⟩ | ⟨_, _, hrecv⟩⟩ := step_shows h hr
  · have hshown := hw.shown_of_recvSnapshot (congrArg Prod.fst hrecv) htoken
    rwa [hrecv] at hshown
  · have hshown := hw.shown_of_recvKernel (congrArg Prod.fst hrecv) htoken
    rwa [hrecv] at hshown

omit hw in
theorem Unsent.not_shows (hu : Unsent token w) (h : step w i = some (r, w')) :
    r.shows ≠ some token := by
  intro hr
  obtain ⟨_, msg, htoken, hrecv⟩ := step_shows h hr
  have hmsg : ∃ task ∈ w.tasks, msg ∈ task.pendingMsgs := by
    rcases hrecv with ⟨_, _, _, hrecv⟩ | ⟨_, _, hrecv⟩
    · exact mem_of_recvSnapshot (congrArg Prod.fst hrecv)
    · exact mem_of_recvKernel (congrArg Prod.fst hrecv)
  obtain ⟨task, htask, hmem⟩ := hmsg
  exact hu.2 task htask (mem_filterMap.mpr ⟨msg, hmem, htoken⟩)

/-! ## runs -/

omit hw in
theorem valid_boot (maxCells : Nat) : (boot maxCells).Valid := by
  constructor <;> simp [boot]

theorem Valid.run (h : Lib.run step w is = some (rs, w')) : w'.Valid :=
  run_invariant (fun _ _ _ _ hv hstep => (hv.steps hstep).1) h hw

/-- What a delivery establishes lasts. -/
theorem Valid.shown_of_run (h : Lib.run step w is = some (rs, w'))
    (hr : r ∈ rs) (hshows : r.shows = some token) : Shown token w' :=
  run_established (P := Valid) (fun _ _ _ _ hv hstep => (hv.steps hstep).1)
    (fun _ _ _ _ hv hs hstep => hs.change (hv.steps hstep).2)
    (fun _ _ _ _ hv => hv.shown_of_step) h hw hr hshows

theorem Valid.unsent_of_run (hu : Unsent token w) (h : Lib.run step w is = some (rs, w')) :
    Unsent token w' ∧ ∀ r ∈ rs, r.shows ≠ some token := by
  have hkeep : ∀ v i r v', v.Valid ∧ Unsent token v → step v i = some (r, v') →
      v'.Valid ∧ Unsent token v' := fun v i r v' hv hstep =>
    ⟨(hv.1.steps hstep).1, hv.2.change (hv.1.steps hstep).2⟩
  exact ⟨(run_invariant hkeep h ⟨hw, hu⟩).2,
    run_excludes hkeep (fun v i r v' hv hstep => hv.2.not_shows hstep) h ⟨hw, hu⟩⟩

/-- Without an accepted reply no row holds one. -/
theorem Valid.unanswered_of_run (hu : Unanswered token w)
    (h : Lib.run step w is = some (rs, w')) (hr : ∀ r ∈ rs, r.answered ≠ some token) :
    Unanswered token w' := by
  have hkeep : ∀ v i r v', v.Valid ∧ Unanswered token v → ¬ r.answered = some token →
      step v i = some (r, v') → v'.Valid ∧ Unanswered token v' := fun v i r v' hv hno hstep =>
    ⟨(hv.1.steps hstep).1, hv.2.change (hv.1.steps hstep).2 hno⟩
  exact (run_invariant_unless hkeep h hr ⟨hw, hu⟩).2

omit hw

end

end World

/-- **Truthful outcomes**: in every run from boot, if an operation ended as cancelled or timed
out before dispatch, no receiver was shown its request, and from here on the request is in no
mailbox and is shown to nobody; and if it was shown to a receiver and no reply was accepted, it
ended as indeterminate or with its peer gone. -/
theorem outcome_truthful {maxCells : Nat} {is : List Op} {rs : List Response} {w : World}
    (h : run step (boot maxCells) is = some (rs, w)) {task : Task} {op : Operation}
    {kind : IpcStatus} {len : Nat} (htask : task ∈ w.records) (hop : op ∈ task.rows)
    (hphase : op.phase = .terminal kind len) : (kind = .cancelled ∨ kind = .preDispatchTimeout →
      (∀ r ∈ rs, r.shows ≠ some op.id) ∧
      ∀ js rs' w', run step w js = some (rs', w') →
        (∀ peer ∈ w'.tasks, ∀ msg ∈ peer.pendingMsgs, msg.token ≠ some op.id) ∧
        ∀ r ∈ rs', r.shows ≠ some op.id) ∧
    ((∃ r ∈ rs, r.shows = some op.id) → (∀ r ∈ rs, r.answered ≠ some op.id) →
      kind = .indeterminate ∨ kind = .peerGone) := by
  have hboot := valid_boot maxCells
  have hw : w.Valid := hboot.run h
  constructor
  · intro hkind
    have hwd : op.phase.withdrawn = true := by
      rw [hphase]
      rcases hkind with rfl | rfl <;> rfl
    refine ⟨fun r hr hshows => ?_, fun js rs' w' hrun => ?_⟩
    · have hlate := (hboot.shown_of_run h hr hshows).2 task htask op hop rfl
      have hearly : op.phase.early = true := Phase.early_iff.mpr (.inr hwd)
      rw [hlate] at hearly
      contradiction
    · obtain ⟨hunsent, hnever⟩ := hw.unsent_of_run (hw.unsent_of_withdrawn htask hop hwd) hrun
      refine ⟨fun peer hpeer msg hmsg htoken => ?_, hnever⟩
      exact hunsent.2 peer hpeer (mem_filterMap.mpr ⟨msg, hmsg, htoken⟩)
  · rintro ⟨r, hr, hshows⟩ hanswers
    have hlate := (hboot.shown_of_run h hr hshows).2 task htask op hop rfl
    have hnone : Unanswered op.id (boot maxCells) := by
      intro task htask
      simp [records, boot] at htask
    have hreply := hboot.unanswered_of_run hnone h hanswers task htask op hop rfl
    rw [hphase] at hlate hreply
    cases kind with
    | reply => exact absurd rfl (hreply len)
    | peerGone => exact .inr rfl
    | preDispatchTimeout | cancelled => simp [Phase.early, Phase.withdrawn] at hlate
    | indeterminate => exact .inl rfl

/-- Task 1 asks task 2 twice; only the first request is received before both expire. -/
def expiredRun : List Op := [.spawn 1 1 none false none, .spawn 2 1 none false none,
    .submitBegin 1 2 2, .submitPrepare 0 ⟨[7, 8], none⟩ true true, .submitFinish 0 10 true true,
    .recvSnapshot .direct 2 0 true, .recvCommit 0,
    .submitBegin 1 2 1, .submitPrepare 0 ⟨[9], none⟩ true true, .submitFinish 0 20 true true,
    .expire 3020]

theorem outcome_truthful_expiredRun : ∃ rs w, run step (boot 4) expiredRun = some (rs, w) ∧
      (∀ r ∈ rs, r.shows ≠ some 2) ∧ (∃ r ∈ rs, r.shows = some 1) ∧
      ∃ task ∈ w.records, ∃ op ∈ task.rows, op.id = 1 ∧ ∃ kind len,
        op.phase = .terminal kind len ∧ (kind = .indeterminate ∨ kind = .peerGone) := by
  obtain ⟨rs, w, hrun, hshown, hanswers, ⟨_, htask₂, _, hop₂, hid₂, hphase₂⟩, task₁, htask₁, op₁,
      hop₁, hid₁, hphase₁⟩ : ∃ rs w, run step (boot 4) expiredRun = some (rs, w) ∧
      (∃ r ∈ rs, r.shows = some 1) ∧ (∀ r ∈ rs, r.answered ≠ some 1) ∧
      (∃ task ∈ w.records, ∃ op ∈ task.rows, op.id = 2 ∧
        op.phase = .terminal .preDispatchTimeout 0) ∧
      ∃ task ∈ w.records, ∃ op ∈ task.rows, op.id = 1 ∧ op.phase = .terminal .indeterminate 0 := by
    decide +kernel
  refine ⟨rs, w, hrun, ?_, hshown, ?_⟩
  · rw [← hid₂]
    exact ((outcome_truthful hrun htask₂ hop₂ hphase₂).1 (.inr rfl)).1
  · exact ⟨task₁, htask₁, op₁, hop₁, hid₁, _, _, hphase₁,
      (outcome_truthful hrun htask₁ hop₁ hphase₁).2 (hid₁ ▸ hshown) (hid₁ ▸ hanswers)⟩

end Cellos.AsyncIpc
