import Cellos.AsyncIpc.Outcomes

/-!
# Cellos.AsyncIpc.Authenticity

Who can have answered a request.

A row records the incarnations of its owner and of its peer when the submission is
accepted, and never changes them.  So both ends of its history can be read off the
row: the step that accepted it found these two incarnations live (`Admitted`), and a
step that wrote a reply into it found them live again, with the request dispatched and
nothing else written (`Answered`).
-/

namespace Cellos.AsyncIpc

open Lib World

/-- The step answers the operation: a live task of the peer's incarnation replies, while
the owner's incarnation is live and has the operation dispatched.  An implicit reply is
made by the very task the request was sent to. -/
structure Answered (op : Operation) (w : World) (i : Op) (r : Response) : Prop where
  response : r.answered = some op.id
  reply : ∃ provider peer, w.getLive provider = some peer ∧ peer.binding = op.peerBinding ∧
    ((∃ buffer, i = .reply provider op.id buffer) ∨
      (∃ buffer, i = .replyCurrent provider op.ownerTid buffer) ∧ provider = op.peerTid)
  row : ∃ owner, w.getLive op.ownerTid = some owner ∧ owner.binding = op.ownerBinding ∧
    ∃ row ∈ owner.rows, row.identity = op.identity ∧ row.phase = .dispatched

/-- What is said of an operation that was answered is said of its identity. -/
theorem Answered.congr {op row : Operation}
    (h : Answered row w i r) (hsame : op.identity = row.identity) : Answered op w i r := by
  have hid : op.id = row.id := congrArg Prod.fst hsame
  have howner : op.ownerTid = row.ownerTid := congrArg (fun x => x.2.1.1) hsame
  have hobind : op.ownerBinding = row.ownerBinding := congrArg (fun x => x.2.1.2) hsame
  have hpeer : op.peerTid = row.peerTid := congrArg (fun x => x.2.2.1) hsame
  have hpbind : op.peerBinding = row.peerBinding := congrArg (fun x => x.2.2.2) hsame
  obtain ⟨hresponse, hreply, hrow⟩ := h
  refine ⟨by rw [hid]; exact hresponse, ?_, ?_⟩
  · rw [hid, howner, hpeer, hpbind]
    exact hreply
  · rw [howner, hobind, hsame]
    exact hrow

namespace World

section

variable {w w' : World} {i : Op} {r : Response}

/-- A reply that reports success has found its target. -/
theorem target_of_terminal (h : (w.terminal ownerTid token provider exactPeer buffer).1 = .ok ()) :
    ∃ owner row peer, ReplyTarget w ownerTid token provider exactPeer owner row peer := by
  rcases terminal_cases w ownerTid token provider exactPeer buffer with
    ⟨-, hno⟩ | ⟨owner, row, peer, -, htarget, -⟩
  · exact absurd h hno
  · exact ⟨owner, row, peer, htarget⟩

theorem target_of_replyInSched (h : (w.replyInSched peer token buffer).1 = .ok ()) :
    ∃ ownerTid owner row provider, ReplyTarget w ownerTid token peer false owner row provider := by
  unfold replyInSched at h
  split at h
  · contradiction
  split at h
  · contradiction
  · next owner _ =>
    obtain ⟨task, row, provider, htarget⟩ := target_of_terminal h
    exact ⟨owner.id, task, row, provider, htarget⟩

theorem target_of_replyCurrentInSched
    (h : (w.replyCurrentInSched peer destination buffer).1 = .answered token (.ok ())) :
    ∃ owner row provider, ReplyTarget w destination token peer true owner row provider := by
  unfold replyCurrentInSched at h
  split at h
  · contradiction
  dsimp only at h
  split at h
  · contradiction
  split at h
  · obtain ⟨rfl, hok⟩ := Bridge.answered.inj h
    exact target_of_terminal hok
  · contradiction

/-- The two steps that answer, and what they have found. -/
theorem step_answered (h : step w i = some (r, w')) (hr : r.answered = some token) :
    ∃ provider ownerTid exactPeer owner row peer,
      ReplyTarget w ownerTid token provider exactPeer owner row peer ∧
      ((∃ buffer, i = .reply provider token buffer) ∨
        (∃ buffer, i = .replyCurrent provider ownerTid buffer) ∧ exactPeer = true) := by
  cases i with
  | reply peer k buffer =>
    cases h
    unfold Response.answered at hr
    split at hr
    · next hreplied =>
      obtain ⟨rfl, hok⟩ := Response.replied.inj hreplied
      cases hr
      obtain ⟨ownerTid, owner, row, provider, htarget⟩ := target_of_replyInSched hok
      exact ⟨peer, ownerTid, false, owner, row, provider, htarget, .inl ⟨buffer, rfl⟩⟩
    · contradiction
    · contradiction
  | replyCurrent peer destination buffer =>
    cases h
    unfold Response.answered at hr
    split at hr
    · contradiction
    · next hbridged =>
      cases hr
      obtain ⟨owner, row, provider, htarget⟩ :=
        target_of_replyCurrentInSched (Response.bridged.inj hbridged)
      exact ⟨peer, destination, true, owner, row, provider, htarget, Or.inr ⟨⟨buffer, rfl⟩, rfl⟩⟩
    · contradiction
  | _ =>
    exfalso
    simp only [step] at h
    repeat' split at h
    all_goals simp only [Option.some.injEq, Prod.mk.injEq, reduceCtorEq] at h
    all_goals
      obtain ⟨rfl, -⟩ := h
      simp [Response.answered] at hr

/-- **A reply is written by an answer**: a row that holds a reply held it before the
step, or the step answers it. -/
theorem Valid.answered_of_step (hw : w.Valid) (h : step w i = some (r, w'))
    (htask' : task' ∈ w'.tasks) (hop' : op' ∈ task'.rows)
    (hphase : op'.phase = .terminal .reply len) :
    (∃ task ∈ w.tasks, ∃ op ∈ task.rows, op.phase = .terminal .reply len ∧
      op'.identity = op.identity) ∨ Answered op' w i r := by
  rcases (hw.steps h).2.rows task' htask' op' hop' with ⟨task, htask, -, op, hop, hb⟩ | hnew
  · rcases hb.answer len hphase with hold | hnow
    · exact .inl ⟨task, htask, op, hop, hold, hb.identity⟩
    right
    obtain ⟨provider, ownerTid, _, owner, row, peer, htarget, hkind⟩ := step_answered h hnow
    have howner : owner ∈ w.tasks := mem_of_get htarget.get
    have hrow : row ∈ owner.rows := List.mem_of_find?_eq_some htarget.row
    -- the row the reply found is the row that now holds it
    obtain ⟨rfl, rfl⟩ := hw.row_eq howner htask hrow hop htarget.id
    obtain ⟨htid, hbinding⟩ := hw.owned owner howner row hrow
    have hdest : ownerTid = op'.ownerTid := by
      rw [hb.owner.1, htid]
      exact (id_of_get htarget.get).symm
    refine ⟨by rw [hb.id]; exact hnow, ⟨provider, peer, htarget.peerLive, ?_, ?_⟩,
      ⟨owner, hdest ▸ htarget.ownerLive, ?_, row, hrow, hb.identity.symm, htarget.phase⟩⟩
    · rw [hb.peer.2, htarget.bound]
    · rw [hb.id, hb.peer.1, ← hdest]
      exact hkind.imp_right fun hcurrent => ⟨hcurrent.1, (htarget.exact hcurrent.2).symm⟩
    · rw [hb.owner.2, hbinding]
  · rw [hnew.phase] at hphase
    contradiction

/-- The step that made a row what it is, when every step finds such a row or makes it. -/
theorem Valid.origin_of_run {is : List Op} {rs : List Response} (hw : w.Valid)
    (hempty : w.tasks = []) (h : Lib.run step w is = some (rs, w')) {Q : Operation → Prop}
    {C : Operation → World → Op → Response → Prop}
    (hback : ∀ v i r v', v.Valid → step v i = some (r, v') → ∀ task ∈ v'.tasks, ∀ b ∈ task.rows,
      Q b → (∃ task ∈ v.tasks, ∃ a ∈ task.rows, Q a ∧ b.identity = a.identity) ∨ C b v i r)
    {task : Task} {op : Operation} (htask : task ∈ w'.tasks) (hop : op ∈ task.rows) (hQ : Q op) :
    ∃ is₁ i is₂ rs₁ r w₁ w₂ a, is = is₁ ++ i :: is₂ ∧
      Lib.run step w is₁ = some (rs₁, w₁) ∧ step w₁ i = some (r, w₂) ∧
      C a w₁ i r ∧ op.identity = a.identity := by
  refine run_origin (P := Valid) (R := fun a b : Operation => b.identity = a.identity)
    (B := fun a v => ∃ task ∈ v.tasks, a ∈ task.rows ∧ Q a)
    (fun _ _ _ _ hv hstep => (hv.steps hstep).1)
    (fun _ => rfl) (fun _ _ _ hab hbc => hbc.trans hab)
    (fun v i r v' b hv hstep ⟨task, htask, hb, hQ⟩ => ?_) h hw ?_ ⟨task, htask, hop, hQ⟩
  · refine (hback v i r v' hv hstep task htask b hb hQ).imp_left ?_
    rintro ⟨task₀, htask₀, a, ha, hold, hsame⟩
    exact ⟨a, ⟨task₀, htask₀, ha, hold⟩, hsame⟩
  · rintro a ⟨_, htask, -⟩
    rw [hempty] at htask
    contradiction

end

end World

/-- **Reply authenticity**: in every run from boot, an operation that holds a reply was accepted
by an earlier step, which found the owner and the peer live, in the incarnations the row
keeps, and answered by a later one.  That was made by a live task of the peer incarnation, while
the owner incarnation was live and the operation was dispatched and not finished; if the reply
was implicit, by the very task the request was sent to. -/
theorem reply_authentic {maxCells : Nat} {is : List Op} {rs : List Response} {w : World}
    (h : run step (boot maxCells) is = some (rs, w)) {task : Task} {op : Operation}
    {len : Nat} (htask : task ∈ w.tasks) (hop : op ∈ task.rows)
    (hphase : op.phase = .terminal .reply len) : ∃ is₀ i₀ is₁ i is₂ rs₀ r₀ rs₁ r w₀ w₀' w₁ w₁' row,
      is = (is₀ ++ i₀ :: is₁) ++ i :: is₂ ∧
      run step (boot maxCells) is₀ = some (rs₀, w₀) ∧ step w₀ i₀ = some (r₀, w₀') ∧
      Admitted r₀ w₀ row ∧ op.identity = row.identity ∧
      run step (boot maxCells) (is₀ ++ i₀ :: is₁) = some (rs₁, w₁) ∧
      step w₁ i = some (r, w₁') ∧ Answered op w₁ i r := by
  have hboot := valid_boot maxCells
  obtain ⟨_, i, is₂, rs₁, r, w₁, w₁', _, rfl, hrun, hstep, hans, hsame⟩ :=
    hboot.origin_of_run rfl h (fun _ _ _ _ hv hstep _ ht _ hb hphase =>
      hv.answered_of_step hstep ht hb hphase) htask hop hphase
  replace hans := hans.congr hsame
  -- the row the reply found was admitted on the way there
  obtain ⟨owner, howner, -, _, hrow₁, hsame₁, -⟩ := hans.row
  have hmem : owner ∈ w₁.tasks := mem_of_get (Option.filter_eq_some_iff.mp howner).1
  obtain ⟨is₀, i₀, is₁, rs₀, r₀, w₀, w₀', row, rfl, hrun₀, hstep₀, hadm, hsame⟩ :=
    hboot.origin_of_run rfl hrun
      (fun _ _ _ _ hv hstep task ht b hb _ => ((hv.steps hstep).2.rows task ht b hb).imp_left
        fun ⟨task₀, ht₀, _, a, ha, hkept⟩ => ⟨task₀, ht₀, a, ha, trivial, hkept.identity⟩)
      hmem hrow₁ trivial
  exact ⟨is₀, i₀, is₁, i, is₂, rs₀, r₀, rs₁, r, w₀, w₀', w₁, w₁', row, rfl, hrun₀, hstep₀, hadm,
    hsame₁.symm.trans hsame, hrun, hstep, hans⟩

theorem reply_authentic_repliedRun : ∃ rs w, run step (boot 4) repliedRun = some (rs, w) ∧
      ∃ task ∈ w.tasks, ∃ op ∈ task.rows, ∃ is₁ i is₂ rs₁ r w₁ w₁',
        repliedRun = is₁ ++ i :: is₂ ∧ run step (boot 4) is₁ = some (rs₁, w₁) ∧
        step w₁ i = some (r, w₁') ∧ Answered op w₁ i r := by
  obtain ⟨rs, w, hrun, task, htask, op, hop, hphase⟩ := repliedRun_replied
  obtain ⟨_, _, _, i, is₂, -, -, rs₁, r, -, -, w₁, w₁', -, his, -, -, -, -, hrun₁, hstep,
    hans⟩ := reply_authentic hrun htask hop hphase
  exact ⟨rs, w, hrun, task, htask, op, hop, _, i, is₂, rs₁, r, w₁, w₁', his, hrun₁, hstep, hans⟩

end Cellos.AsyncIpc
