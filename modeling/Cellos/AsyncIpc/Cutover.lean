import Cellos.AsyncIpc.Steps

/-!
# Cellos.AsyncIpc.Cutover

The hot-swap barrier moves a mailbox, whole or not at all.

`commit_hotswap_barrier` appends a copy of every message that is not an async request to
the replacement's mailbox and takes all appends back when a copy fails.  A refused
barrier leaves the tables as they were.  A barrier that succeeds has appended one
message for each message it had to move, with the same sender, payload and tick.

The copy of the wire record is the exception: when its allocation fails, the message
is appended without it, and the sender identity of the header is lost.
-/

namespace Cellos.AsyncIpc

open Lib List Option World

/-- What a transfer has to keep of a message. -/
def PendingMsg.content (msg : PendingMsg) : Nat × List UInt8 × Option IpcWireHeader × Nat :=
  (msg.senderTid, msg.payload, msg.wireHeader, msg.enqueuedTick)

open PendingMsg

/-- The messages the barrier has to move. -/
def transferable (mailbox : List PendingMsg) : List PendingMsg :=
  mailbox.filter fun msg => !msg.isAsync

/-- The payload copy and the mailbox slot of a message are allocated. -/
def CopyFunding.appends (funding : CopyFunding) (targetCell : Nat) (msg : PendingMsg) : Bool :=
  (PendingMsgData.tryCopy msg.payload targetCell funding.data).isSome && funding.slot

/-- The wire record of a message, if it has one, is cloned. -/
def CopyFunding.clones (funding : CopyFunding) (msg : PendingMsg) : Bool :=
  msg.wire.all fun message => (message.tryClone funding.wire).isSome

/-! ## copying -/

theorem asSlice_of_tryCopy {data : List UInt8} {cell : Nat} {funded : Bool} {copy : PendingMsgData}
    (h : PendingMsgData.tryCopy data cell funded = some copy) : copy.asSlice = data := by
  unfold PendingMsgData.tryCopy at h
  split at h
  · cases h
    rfl
  split at h
  · cases h
    rfl
  · contradiction

/-- A copy keeps everything exactly when the wire record is cloned. -/
theorem content_copyMessage (h : copyMessage targetCell funding msg = some copied) :
    copied.content = msg.content ↔ funding.clones msg = true := by
  obtain ⟨_, hdata, rfl⟩ := map_eq_some_iff.mp h
  have hslice := asSlice_of_tryCopy hdata
  unfold CopyFunding.clones
  cases hwire : msg.wire with
  | none =>
    simp only [content, payload, wireHeader, hwire, bind_none, all_none] at hslice ⊢
    rw [hslice]
    simp
  | some message =>
    cases hclone : message.tryClone funding.wire with
    | none =>
      simp [content, wireHeader, hwire, hclone]
    | some clone =>
      obtain rfl : message = clone := by
        unfold IpcWireMessage.tryClone at hclone
        split at hclone
        · exact some.inj hclone
        · contradiction
      simp [content, payload, wireHeader, hwire, hclone]

/-- **The copy loop** from the `index`-th message on completes exactly when every message can be
appended, and then it has appended one for each, with the same content exactly when every wire
record was cloned. -/
theorem copyMailbox_spec (targetCell : Nat) (funding : Nat → CopyFunding) (index : Nat)
    (source target : List PendingMsg) :
    ((copyMailbox targetCell funding index source target).1 = true ↔
      ∀ k msg, source[k]? = some msg → msg.isAsync = false →
        (funding (index + k)).appends targetCell msg = true) ∧
    ((copyMailbox targetCell funding index source target).1 = true →
      ∃ copies, (copyMailbox targetCell funding index source target).2 = target ++ copies ∧
        (copies.map content = (transferable source).map content ↔
          ∀ k msg, source[k]? = some msg → msg.isAsync = false →
            (funding (index + k)).clones msg = true)) := by
  induction source generalizing index target with
  | nil => simp [copyMailbox, transferable]
  | cons msg source ih =>
    -- what is asked of every later message is asked of the message after this one on
    have hshift : ∀ p : CopyFunding → PendingMsg → Bool,
        (∀ k m, (msg :: source)[k]? = some m → m.isAsync = false →
          p (funding (index + k)) m = true) ↔
        (msg.isAsync = false → p (funding index) msg = true) ∧
          ∀ k m, source[k]? = some m → m.isAsync = false →
            p (funding (index + 1 + k)) m = true := by
      intro p
      constructor
      · intro hall
        refine ⟨fun hasync => hall 0 msg rfl hasync, fun k m hm => ?_⟩
        have hnext := hall (k + 1) m (by simpa using hm)
        rwa [show index + 1 + k = index + (k + 1) by omega]
      · rintro ⟨hfirst, hrest⟩ k m hm hasync
        cases k with
        | zero =>
          cases hm
          exact hfirst hasync
        | succ k =>
          have := hrest k m (by simpa using hm) hasync
          rwa [show index + 1 + k = index + (k + 1) by omega] at this
    rw [hshift fun f => f.appends targetCell, hshift CopyFunding.clones]
    rw [copyMailbox]
    cases hasync : msg.isAsync with
    | true =>
      have hskip : transferable (msg :: source) = transferable source := by
        simp [transferable, hasync]
      simpa [hskip] using ih (index + 1) target
    | false =>
      have hmove : transferable (msg :: source) = msg :: transferable source := by
        simp [transferable, hasync]
      rw [hmove, if_neg (by simp)]
      cases hcopy : copyMessage targetCell (funding index) msg with
      | none =>
        have hdata : PendingMsgData.tryCopy msg.payload targetCell (funding index).data = none :=
          map_eq_none_iff.mp hcopy
        simp [CopyFunding.appends, hdata]
      | some copied =>
        obtain ⟨_, hdata, -⟩ := map_eq_some_iff.mp hcopy
        cases hslot : (funding index).slot with
        | false => simp [CopyFunding.appends, hslot]
        | true =>
          obtain ⟨hcomplete, hcopies⟩ := ih (index + 1) (target ++ [copied])
          have hfirst : (funding index).appends targetCell msg = true := by
            simp [CopyFunding.appends, hdata, hslot]
          constructor
          · simpa [hfirst] using hcomplete
          · intro hdone
            obtain ⟨copies, heq, hcontent⟩ := hcopies hdone
            refine ⟨copied :: copies, by simpa using heq, ?_⟩
            rw [map_cons, map_cons, List.cons.injEq, content_copyMessage hcopy, hcontent]
            simp

namespace World

/-! ## mailboxes through the writes of the barrier -/

/-- The mailbox of a task in the table. -/
def mailOf (w : World) (tid : Nat) : Option (List PendingMsg) := (w.get tid).map Task.pendingMsgs

section

variable {w : World} {tid : Nat} {f : Task → Task}

theorem mailOf_modify (k : Nat) (hid : ∀ task, (f task).id = task.id)
    (hmail : ∀ task, k = tid → (f task).pendingMsgs = task.pendingMsgs) :
    (w.modify tid f).mailOf k = w.mailOf k := by
  unfold mailOf
  rw [get_modify fun task hget => (hid task).trans (id_of_get hget), Option.map_map]
  cases hget : w.get k with
  | none => rfl
  | some task =>
    have hk : task.id = k := id_of_get hget
    simp only [map_some, Function.comp_apply, some.injEq]
    split
    · next htid => exact hmail task (hk.symm.trans htid)
    · rfl

theorem mailOf_modify_set (hget : w.get tid = some task) (mailbox : List PendingMsg) :
    (w.modify tid fun task => { task with pendingMsgs := mailbox }).mailOf tid = some mailbox := by
  have hid : ∀ task : Task, w.get tid = some task → task.id = tid := fun _ => id_of_get
  unfold mailOf
  rw [get_modify (f := fun task => { task with pendingMsgs := mailbox }) hid, hget]
  simp [hid task hget]

theorem mailOf_mapTasks (k : Nat) (hid : ∀ task, (f task).id = task.id)
    (hmail : ∀ task, (f task).pendingMsgs = task.pendingMsgs) :
    (w.mapTasks f).mailOf k = w.mailOf k := by
  have hsearch : ((fun task : Task => task.id == k) ∘ f) = fun task => task.id == k := by
    funext task
    simp [hid]
  have hget : (w.mapTasks f).get k = (w.get k).map f := by
    unfold get mapTasks
    rw [List.find?_map, hsearch]
  unfold mailOf
  rw [hget, Option.map_map]
  congr 1
  funext task
  exact hmail task

theorem mailOf_wakeReplacement (w : World) (targetTid : Nat) (sender : Option Nat) (k : Nat) :
    (w.wakeReplacement targetTid sender).mailOf k = w.mailOf k := by
  have hkeeps : ∀ g : Task → Task, (∀ task : Task, task.Keeps (g task)) →
      (w.modify targetTid g).mailOf k = w.mailOf k := fun g hg =>
    mailOf_modify k (fun task => (Task.tables_eq_iff.mp (hg task).1).1)
      fun task _ => (Task.tables_eq_iff.mp (hg task).1).2.2.2
  unfold wakeReplacement
  split
  · rfl
  split
  · exact hkeeps _ fun task =>
      (task.keeps_setReceivedRequestContext _ _ _ _).trans (Task.keeps_ready _)
  · exact hkeeps _ fun task => (task.keeps_context _).trans (Task.keeps_ready _)

theorem mailOf_cutoverPeer (w : World) (peer : Nat) (binding : Nat × Nat) (k : Nat) :
    (w.cutoverPeer peer binding).mailOf k = w.mailOf k := by
  have hwake : ∀ task : Task, task.wakeIpc.id = task.id ∧
      task.wakeIpc.pendingMsgs = task.pendingMsgs := fun task =>
    have h := Task.tables_eq_iff.mp task.keeps_wakeIpc.1
    ⟨h.1, h.2.2.2⟩
  refine mailOf_mapTasks k (fun task => ?_) fun task => ?_
  · split
    · exact (hwake _).1
    · rfl
  · split
    · exact (hwake _).2
    · rfl

end

/-! ## the barrier -/

/-- The source is frozen, the target has reported ready as its replacement and has room, the
service is paused at the source, and every message to move can be appended. -/
structure Commits (w : World) (sourceTid targetTid serviceId : Nat) (funding : Nat → CopyFunding)
    (source target : Task) : Prop where
  found : w.get sourceTid = some source
  replacement : w.get targetTid = some target
  frozen : source.swapSource = true
  ready : target.replaces sourceTid = true
  room : target.pendingMsgs.length + (transferable source.pendingMsgs).length ≤ hotswapMsgQueueDepth
  paused : w.registry.pausedMatches serviceId sourceTid = true
  named : targetTid ≠ 0
  funded : ∀ k msg, source.pendingMsgs[k]? = some msg → msg.isAsync = false →
    (funding k).appends target.cellId msg = true

section

variable {w : World}

theorem commitPaused_fst {registry : Registry}
    (h : registry.pausedMatches serviceId oldTid = true) :
    (registry.commitPaused serviceId oldTid newTid cellId generation).1 = true ↔ newTid ≠ 0 := by
  unfold Registry.pausedMatches at h
  unfold Registry.commitPaused
  split
  · next h0 => simp [h0]
  next h0 =>
  split at h
  · next tid _ _ _ =>
    have htid : tid = oldTid := by simpa using h
    simp [htid, h0]
  · contradiction

theorem source_ne_target (hsource : w.get sourceTid = some source)
    (htarget : w.get targetTid = some target) (hfrozen : source.swapSource = true)
    (hready : target.replaces sourceTid = true) : sourceTid ≠ targetTid := by
  intro heq
  rw [heq, htarget] at hsource
  cases hsource
  unfold Task.swapSource at hfrozen
  unfold Task.replaces at hready
  split at hfrozen
  · next hstate =>
    rw [hstate] at hready
    contradiction
  · contradiction

/-- **What the barrier does**: it refuses and changes nothing, or it has appended one message for
each it had to move. -/
theorem commitHotswapBarrier_cases (w : World) (sourceTid targetTid serviceId : Nat)
    (funding : Nat → CopyFunding) :
    ((∃ failure, w.commitHotswapBarrier sourceTid targetTid serviceId funding =
        (.error failure, w)) ∧
      ∀ source target, ¬ Commits w sourceTid targetTid serviceId funding source target) ∨
    ∃ source target copies, Commits w sourceTid targetTid serviceId funding source target ∧
      (w.commitHotswapBarrier sourceTid targetTid serviceId funding).1 = .ok () ∧
      (w.commitHotswapBarrier sourceTid targetTid serviceId funding).2.mailOf targetTid =
        some (target.pendingMsgs ++ copies) ∧
      (copies.map content = (transferable source.pendingMsgs).map content ↔
        ∀ k msg, source.pendingMsgs[k]? = some msg → msg.isAsync = false →
          (funding k).clones msg = true) := by
  unfold commitHotswapBarrier
  split
  · next hnone =>
    refine .inl ⟨⟨_, rfl⟩, fun source target h => ?_⟩
    rw [h.found] at hnone
    contradiction
  next source hsource =>
  split
  · next hfrozen =>
    refine .inl ⟨⟨_, rfl⟩, fun source' target h => ?_⟩
    obtain rfl : source = source' := some.inj (hsource.symm.trans h.found)
    rw [h.frozen] at hfrozen
    contradiction
  next hfrozen =>
  split
  · next hnone =>
    refine .inl ⟨⟨_, rfl⟩, fun source target h => ?_⟩
    rw [h.replacement] at hnone
    contradiction
  next target htarget =>
  -- from here on, the records are the ones `Commits` speaks of
  have hsame : ∀ {source' target'},
      Commits w sourceTid targetTid serviceId funding source' target' →
      source = source' ∧ target = target' := fun h =>
    ⟨some.inj (hsource.symm.trans h.found), some.inj (htarget.symm.trans h.replacement)⟩
  split
  · next hready =>
    refine .inl ⟨⟨_, rfl⟩, fun source' target' h => ?_⟩
    obtain ⟨rfl, rfl⟩ := hsame h
    rw [h.ready] at hready
    contradiction
  next hready =>
  have hsid : source.id = sourceTid := id_of_get hsource
  have htid : target.id = targetTid := id_of_get htarget
  obtain ⟨hcomplete, hcopies⟩ :=
    copyMailbox_spec target.cellId funding 0 source.pendingMsgs target.pendingMsgs
  simp only [Nat.zero_add] at hcomplete hcopies
  obtain ⟨_, happended, -⟩ :=
    copyMailbox_append target.cellId funding 0 source.pendingMsgs target.pendingMsgs
  have hkept : (copyMailbox target.cellId funding 0 source.pendingMsgs target.pendingMsgs).2.take
      target.pendingMsgs.length = target.pendingMsgs := by
    rw [happended, take_left]
  have hrollback : w.modify target.id (fun task =>
      { task with pendingMsgs := target.pendingMsgs }) = w := by
    unfold modify
    rw [updateFirst_eq_self]
    intro task hget
    obtain rfl : target = task := by
      rw [htid] at hget
      exact some.inj (htarget.symm.trans hget)
    rfl
  unfold cutover
  dsimp only
  split
  · next hroom =>
    refine .inl ⟨⟨_, rfl⟩, fun source' target' h => ?_⟩
    obtain ⟨rfl, rfl⟩ := hsame h
    exact Nat.not_le_of_lt hroom h.room
  next hroom =>
  split
  · next hpaused =>
    refine .inl ⟨⟨_, rfl⟩, fun source' target' h => ?_⟩
    rw [hsid, h.paused] at hpaused
    contradiction
  next hpaused =>
  have hpaused : w.registry.pausedMatches serviceId source.id = true := by simpa using hpaused
  split
  · next hfailed =>
    refine .inl ⟨⟨_, by rw [hkept, hrollback]⟩, fun source' target' h => ?_⟩
    obtain ⟨rfl, rfl⟩ := hsame h
    rw [hcomplete.mpr h.funded] at hfailed
    contradiction
  next hdone =>
  have hdone : (copyMailbox target.cellId funding 0 source.pendingMsgs target.pendingMsgs).1 =
      true := by simpa using hdone
  split
  · next hrefused =>
    refine .inl ⟨⟨_, by rw [hkept, hrollback]⟩, fun source' target' h => ?_⟩
    rw [(commitPaused_fst hpaused).mpr (htid ▸ h.named)] at hrefused
    contradiction
  · next hcommitted =>
    obtain ⟨copies, hmailbox, hcontent⟩ := hcopies hdone
    have hnamed : target.id ≠ 0 := (commitPaused_fst hpaused).mp (by simpa using hcommitted)
    have hne : targetTid ≠ source.id := by
      rw [hsid]
      exact (source_ne_target hsource htarget (by simpa using hfrozen) (by simpa using hready)).symm
    refine .inr ⟨source, target, copies, ?_, rfl, ?_, hcontent⟩
    · exact
        { found := hsource
          replacement := htarget
          frozen := by simpa using hfrozen
          ready := by simpa using hready
          room := Nat.le_of_not_lt hroom
          paused := hsid ▸ hpaused
          named := htid ▸ hnamed
          funded := hcomplete.mp hdone }
    · rw [mailOf_wakeReplacement]
      refine (mailOf_modify targetTid (fun _ => by rfl) fun _ _ => by rfl).trans ?_
      rw [mailOf_cutoverPeer]
      refine (mailOf_modify targetTid (fun _ => by rfl) fun _ h => absurd h hne).trans ?_
      rw [htid, hmailbox]
      exact mailOf_modify_set htarget _

/-- After success the target's mailbox is its old content and then the messages to move, in order,
each with its content; after a refusal both mailboxes, the ingress flag of the source and the
registry entry are as they were. -/
def Lossless (w : World) (sourceTid targetTid serviceId : Nat)
    (out : Except ViError Unit × World) : Prop :=
  match out.1 with
  | .ok () => ∃ source target copies, w.get sourceTid = some source ∧
      w.get targetTid = some target ∧
      out.2.mailOf targetTid = some (target.pendingMsgs ++ copies) ∧
      copies.map PendingMsg.content = (transferable source.pendingMsgs).map PendingMsg.content
  | .error _ => out.2.mailOf sourceTid = w.mailOf sourceTid ∧
      out.2.mailOf targetTid = w.mailOf targetTid ∧
      (out.2.get sourceTid).map Task.hotswapIngressClosed =
        (w.get sourceTid).map Task.hotswapIngressClosed ∧
      out.2.registry.get serviceId = w.registry.get serviceId

/-- The barrier goes through although the wire record of a message is not cloned. -/
def LosesHeader (w : World) (sourceTid targetTid serviceId : Nat)
    (funding : Nat → CopyFunding) : Prop :=
  ∃ source target, Commits w sourceTid targetTid serviceId funding source target ∧
    ∃ k msg, source.pendingMsgs[k]? = some msg ∧ msg.isAsync = false ∧
      (funding k).clones msg = false

end

end World

/-- **The cutover is lossless exactly when** it does not go through with a wire record
that could not be cloned. -/
theorem cutover_lossless_iff (w : World) (sourceTid targetTid serviceId : Nat)
    (funding : Nat → CopyFunding) : Lossless w sourceTid targetTid serviceId
        (w.commitHotswapBarrier sourceTid targetTid serviceId funding) ↔
      ¬ LosesHeader w sourceTid targetTid serviceId funding := by
  rcases w.commitHotswapBarrier_cases sourceTid targetTid serviceId funding with
    ⟨⟨failure, hsame⟩, hno⟩ | ⟨source, target, copies, hcommits, hok, hmail, hcontent⟩
  · rw [hsame]
    refine ⟨fun _ => ?_, fun _ => ⟨rfl, rfl, rfl, rfl⟩⟩
    rintro ⟨source, target, hcommits, -⟩
    exact hno source target hcommits
  have hlost : LosesHeader w sourceTid targetTid serviceId funding ↔
      ¬ ∀ k msg, source.pendingMsgs[k]? = some msg → msg.isAsync = false →
        (funding k).clones msg = true := by
    constructor
    · rintro ⟨source', _, h, k, msg, hmsg, hasync, hclone⟩ hall
      obtain rfl : source = source' := some.inj (hcommits.found.symm.trans h.found)
      rw [hall k msg hmsg hasync] at hclone
      contradiction
    · intro hnot
      simp only [not_forall, Bool.not_eq_true] at hnot
      obtain ⟨k, msg, hmsg, hasync, hclone⟩ := hnot
      exact ⟨source, target, hcommits, k, msg, hmsg, hasync, hclone⟩
  rw [hlost, not_not, ← hcontent]
  unfold Lossless
  rw [hok]
  constructor
  · rintro ⟨source', target', copies', hs, ht, hmail', hcontent'⟩
    obtain rfl : source = source' := some.inj (hcommits.found.symm.trans hs)
    obtain rfl : target = target' := some.inj (hcommits.replacement.symm.trans ht)
    obtain rfl : copies = copies' := by
      rw [hmail] at hmail'
      exact append_cancel_left (some.inj hmail')
    exact hcontent'
  · intro hkept
    exact ⟨source, target, copies, hcommits.found, hcommits.replacement, hmail, hkept⟩

/-- Task 1 is swapped for task 2 with a message of task 3 in its mailbox. -/
def swapRun : List Op :=
  [.spawn 1 1 none false none, .spawn 2 1 none false (some 1), .spawn 3 1 none false none,
    .register 5 1 1 1, .pause 5 1, .freeze 1 9,
    .postWire 1 ⟨⟨3, 3, 1, 7, 0⟩, [1], by decide⟩ 4 true, .hotswapReady 2]

theorem cutover_loses_header : ∃ rs w, run step (boot 4) swapRun = some (rs, w) ∧
      ¬ Lossless w 1 2 5 (w.commitHotswapBarrier 1 2 5 fun _ => ⟨false, true, true⟩) := by
  have hcheck : ((run step (boot 4) swapRun).any fun out =>
      let swapped := out.2.commitHotswapBarrier 1 2 5 fun _ => ⟨false, true, true⟩
      swapped.1.isOk && decide ((swapped.2.mailOf 2).map (·.map content) ≠
        (out.2.get 1).bind fun source => (out.2.get 2).map fun target =>
          (target.pendingMsgs ++ transferable source.pendingMsgs).map content)) =
        true := by
    decide +kernel
  obtain ⟨⟨rs, w⟩, hrun, hcheck⟩ := (any_eq_true _ _).mp hcheck
  simp only [Bool.and_eq_true, decide_eq_true_eq] at hcheck
  obtain ⟨hok, hdiffers⟩ := hcheck
  refine ⟨rs, w, hrun, fun hlossless => ?_⟩
  unfold Lossless at hlossless
  split at hlossless
  · obtain ⟨_, _, _, hsource, htarget, hmail, hcontent⟩ := hlossless
    refine hdiffers ?_
    rw [hmail, hsource, htarget, map_some, bind_some, map_some, map_append, map_append, hcontent]
  · next hfailed =>
    rw [hfailed] at hok
    contradiction

end Cellos.AsyncIpc
