import Cellos.Lib

/-!
# Cellos.Memory.Deferred

Deferred release of page-table frames (`memory/deferred_release.rs`) and the flush
mailboxes its confirmations come from (`task/smp.rs`).

A release path that cannot confirm that every hart dropped a tag's translations
leaves the frames in the `DEFERRED` queue with the flush epochs it asked for.  The
reaper hands them back once all of these epochs are published, or gives up after a
bounded number of attempts: then the frames are quarantined and the tag is written
to `ABANDONED_TAGS`.

None of the calls is atomic.  One step is one critical section, or one atomic access
outside a lock: `World.calls` holds the calls in flight, each as what it does next.
Requests and completions of the mailboxes are lock-free, so they are steps of their
own; the epoch counters do not wrap during a boot.  A caller can only retain frames
it owns (`World.held`).
-/

namespace Cellos.Memory.Deferred

open Lib Function

/-- Harts this kernel tracks. -/
def maxHarts : Nat := 2

/-- Deferred releases the queue can hold at once. -/
def maxDeferredEntries : Nat := 32

/-- Tags that can be recorded as given up on. -/
def maxAbandonedTags : Nat := 256

/-- Entries one reaper call touches. -/
def reaperEntriesPerCall : Nat := 2

/-- Every how many attempts the harts are asked again. -/
def reaperReissueEvery : Nat := 32

/-- Attempts one entry gets before it is quarantined. -/
def reaperMaxAttempts : Nat := 512

/-! ## flush mailboxes -/

/-- `HART_ONLINE`, `TLB_FLUSH_REQUEST` and `TLB_FLUSH_COMPLETE`. -/
structure Mailboxes where
  online : Nat → Bool
  request : Nat → Nat
  complete : Nat → Nat

namespace Mailboxes

variable (m : Mailboxes)

/-- Ask a hart to invalidate and return the epoch it must publish. -/
def requestTlbFlush (hartId : Nat) : Nat × Mailboxes :=
  if maxHarts ≤ hartId then (0, m)
  else
    let epoch := m.request hartId + 1
    (epoch, { m with request := update m.request hartId epoch })

/-- Is `epoch` known complete on the hart?  Epoch 0 means "nothing requested". -/
def tlbFlushCompleted (hartId epoch : Nat) : Bool :=
  epoch == 0 || (decide (hartId < maxHarts) && decide (epoch ≤ m.complete hartId))

/-- The harts that completed bring-up. -/
def onlineHarts : List Nat := (List.range maxHarts).filter m.online

/-- Ask every online hart but the caller's; 0 stands for a hart that was not asked. -/
def issueTagEpochs (me : Nat) : (Nat → Nat) × Mailboxes := (m.onlineHarts.filter (· != me)).foldl
    (fun (requested, m) hart =>
      let (epoch, m) := m.requestTlbFlush hart
      (update requested hart epoch, m))
    (fun _ => 0, m)

/-- The epochs asked for on the way to `m'`; 0 stands for a hart that was not asked. -/
def requested (m' : Mailboxes) (hart : Nat) : Nat :=
  if m'.request hart = m.request hart then 0 else m'.request hart

end Mailboxes

/-! ## the queue -/

/-- One retained release: frames whose invalidation is unconfirmed, and the epochs
that confirm it. -/
structure DeferredRelease where
  (asid domain : Nat)
  epochs : Nat → Nat
  reason : String
  frames : List Nat
  attempts : Nat
  releaseTagSlot : Bool

/-- What a release path hands to `defer`. -/
structure Retention where
  (asid domain : Nat)
  frames : List Nat
  reason : String
  releaseTagSlot : Bool

namespace DeferredRelease

variable (entry : DeferredRelease)

/-- The entry waits for these epochs as well. -/
def ask (epochs : Nat → Nat) : DeferredRelease :=
  { entry with epochs := fun hart => max (entry.epochs hart) (epochs hart) }

/-- The entry takes another retention under its tag. -/
def merge (r : Retention) (epochs : Nat → Nat) : DeferredRelease :=
  { entry.ask epochs with
    frames := entry.frames ++ r.frames
    releaseTagSlot := entry.releaseTagSlot || r.releaseTagSlot }

/-- One attempt more. -/
def tried : DeferredRelease :=
  { entry with attempts := entry.attempts + 1 }

end DeferredRelease

/-- Has every hart this tag was requested from published that epoch? -/
def tagEpochsConfirmed (m : Mailboxes) (entry : DeferredRelease) : Bool :=
  (List.range maxHarts).all fun hart => m.tlbFlushCompleted hart (entry.epochs hart)

/-- Where a retention landed. -/
inductive Placement
  | merged (total : Nat)
  | queued
  | full (frames : List Nat)

/-! ## calls in flight -/

/-- What a call in flight does next.  `left` is the number of turns the reaper's loop
has after this one. -/
inductive Call
  /-- `defer`: read the saturation flag. -/
  | defer (r : Retention)
  /-- `defer`: look the tag up in `ABANDONED_TAGS`. -/
  | deferTags (r : Retention)
  /-- `defer`: `place` the retention. -/
  | place (r : Retention)
  /-- `defer`, no room: `mark_abandoned`. -/
  | deferFull (asid : Nat) (frames : List Nat) (reason : String)
  /-- `defer`: `quarantine_frames`. -/
  | deferQuarantine (frames : List Nat) (reason : String)
  /-- `reap_deferred_releases`: the next turn of the loop. -/
  | reap (turns : Nat) (stepped : Option Nat)
  | reissue (asid left : Nat)
  /-- The reaper looks whether the tag is confirmed. -/
  | check (asid left : Nat)
  /-- `complete`: take the entry out if it is confirmed. -/
  | complete (asid left : Nat)
  /-- `complete`: return the tag's lease slot. -/
  | finish (entry : DeferredRelease) (left : Nat)
  /-- `complete`: drop the frames, one after the other. -/
  | drop (asid : Nat) (frames : List Nat) (left : Nat)
  /-- `note_attempt`: count, and take the entry out at the budget. -/
  | note (asid left : Nat)
  /-- `note_attempt`, budget spent: `mark_abandoned`. -/
  | giveUp (entry : DeferredRelease) (left : Nat)
  /-- `note_attempt`, budget spent: `quarantine_frames`. -/
  | reapQuarantine (entry : DeferredRelease) (left : Nat)
  /-- `tag_invalidation_unconfirmed`: read the saturation flag. -/
  | query (asid : Nat)
  /-- `tag_invalidation_unconfirmed`: look the tag up in `ABANDONED_TAGS`. -/
  | queryTags (asid : Nat)
  /-- `tag_invalidation_unconfirmed`: look for an unconfirmed entry in `DEFERRED`. -/
  | queryDeferred (asid : Nat)
  /-- `service_tlb_flush`: load the request. -/
  | service (hart : Nat)
  /-- `service_tlb_flush`: compare with the last completion. -/
  | serviceLoaded (hart epoch : Nat)
  /-- `service_tlb_flush`: the local flush is done, publish the epoch. -/
  | serviceFlushed (hart epoch : Nat)

/-- The frames a call owns. -/
def Call.frames : Call → List Nat
  | .defer r | .deferTags r | .place r => r.frames
  | .deferFull _ frames _ | .deferQuarantine frames _ | .drop _ frames _ => frames
  | .finish entry _ | .giveUp entry _ | .reapQuarantine entry _ => entry.frames
  | _ => []

/-- What a step did, as far as frames, tags and epochs go. -/
inductive Response
  | none
  /-- A retention was queued or merged, and the harts were asked for these epochs. -/
  | placed (asid : Nat) (frames : List Nat) (epochs : Nat → Nat)
  | reasked (asid : Nat) (epochs : Nat → Nat)
  | published (hart epoch : Nat)
  /-- A confirmed entry left the queue. -/
  | taken (asid : Nat) (frames : List Nat)
  /-- A confirmed entry's tag slot was returned. -/
  | slotReleased (asid domain : Nat)
  /-- A frame of a confirmed entry went back to the allocator. -/
  | released (asid frame : Nat)
  /-- A frame was dropped by an owner outside the queue. -/
  | dropped (frame : Nat)
  /-- An entry left the queue unconfirmed. -/
  | gaveUp (asid : Nat) (frames : List Nat)
  | quarantined (frames : List Nat) (reason : String)
  | answered (asid : Nat) (unconfirmed : Bool)

/-! ## the component -/

structure World where
  mail : Mailboxes
  deferred : List DeferredRelease
  abandonedTags : List Nat
  abandonedSaturated : Bool
  (attemptsTotal abandonedEntries abandonedFrames : Nat)
  (quarantined free held : List Nat)
  calls : List Call

namespace World

variable (w : World)

/-- Queue a retention, or merge it into the entry its tag has.  The epochs are asked
for in the same critical section. -/
def place (me : Nat) (r : Retention) : Placement × World :=
  let (epochs, mail) := w.mail.issueTagEpochs me
  match w.deferred.find? (·.asid == r.asid) with
  | some entry =>
    (.merged (entry.merge r epochs).frames.length,
      { w with
        mail
        deferred := updateFirst (·.asid == r.asid) (·.merge r epochs) w.deferred })
  | none =>
    if maxDeferredEntries ≤ w.deferred.length then (.full r.frames, w)
    else
      (.queued,
        { w with
          mail
          deferred := w.deferred ++
            [⟨r.asid, r.domain, epochs, r.reason, r.frames, 0, r.releaseTagSlot⟩] })

/-- Ask the harts again for the entry of a tag, if it is still there. -/
def requestTagEpochs (me asid : Nat) : World :=
  if w.deferred.any (·.asid == asid) then
    let (epochs, mail) := w.mail.issueTagEpochs me
    { w with mail, deferred := updateFirst (·.asid == asid) (·.ask epochs) w.deferred }
  else w

/-- The next entry to step, and whether its harts are to be asked again. -/
def nextStep : Option (Nat × Bool) :=
  w.deferred.head?.map fun entry => (entry.asid, entry.attempts % reaperReissueEvery == 0)

/-- Count one attempt; at the budget the entry leaves the queue. -/
def noteAttempt (asid : Nat) : Option DeferredRelease × World :=
  match w.deferred.find? (·.asid == asid) with
  | none => (none, { w with attemptsTotal := w.attemptsTotal + 1 })
  | some entry =>
    if reaperMaxAttempts ≤ entry.attempts + 1 then
      (some entry.tried,
        { w with
          attemptsTotal := w.attemptsTotal + 1
          deferred := w.deferred.eraseP (·.asid == asid) })
    else
      (none,
        { w with
          attemptsTotal := w.attemptsTotal + 1
          deferred := updateFirst (·.asid == asid) (·.tried) w.deferred })

/-- Record a tag as unconfirmed for the rest of the boot. -/
def markAbandoned (asid : Nat) : World :=
  if w.abandonedTags.contains asid then w
  else if maxAbandonedTags ≤ w.abandonedTags.length then { w with abandonedSaturated := true }
  else
    { w with
      abandonedTags := w.abandonedTags ++ [asid]
      abandonedEntries := w.abandonedEntries + 1 }

def quarantineFrames (frames : List Nat) : World :=
  { w with quarantined := w.quarantined ++ frames }

/-- One section of a call on hart `me`: what happened, what the call does next
(`none`: it returns) and the world it leaves. -/
def advance (me : Nat) : Call → Response × Option Call × World
  | .defer r =>
    if w.abandonedSaturated then (.none, some (.deferQuarantine r.frames r.reason), w)
    else (.none, some (.deferTags r), w)
  | .deferTags r =>
    if w.abandonedTags.contains r.asid then
      (.none, some (.deferQuarantine r.frames r.reason), w)
    else (.none, some (.place r), w)
  | .place r =>
    match w.place me r with
    | (.full frames, w) => (.none, some (.deferFull r.asid frames r.reason), w)
    | (_, w') => (.placed r.asid r.frames (w.mail.requested w'.mail), none, w')
  | .deferFull asid frames reason =>
    (.none, some (.deferQuarantine frames reason), w.markAbandoned asid)
  | .deferQuarantine frames reason =>
    (.quarantined frames reason, none, w.quarantineFrames frames)
  | .reap 0 _ => (.none, none, w)
  | .reap (left + 1) stepped =>
    match w.nextStep with
    | none => (.none, none, w)
    | some (asid, reissue) =>
      if stepped = some asid then (.none, none, w)
      else if reissue then (.none, some (.reissue asid left), w)
      else (.none, some (.check asid left), w)
  | .reissue asid left =>
    let w' := w.requestTagEpochs me asid
    (.reasked asid (w.mail.requested w'.mail), some (.note asid left), w')
  | .check asid left =>
    if (w.deferred.find? (·.asid == asid)).any (tagEpochsConfirmed w.mail) then
      (.none, some (.complete asid left), w)
    else (.none, some (.note asid left), w)
  | .complete asid left =>
    match w.deferred.find? fun entry => entry.asid == asid && tagEpochsConfirmed w.mail entry with
    | none => (.none, some (.reap left (some asid)), w)
    | some entry =>
      (.taken asid entry.frames, some (.finish entry left),
        { w with
          deferred := w.deferred.eraseP fun entry =>
            entry.asid == asid && tagEpochsConfirmed w.mail entry })
  | .finish entry left =>
    (if entry.releaseTagSlot then .slotReleased entry.asid entry.domain else .none,
      some (.drop entry.asid entry.frames left), w)
  | .drop asid [] left => (.none, some (.reap left (some asid)), w)
  | .drop asid (frame :: frames) left =>
    (.released asid frame, some (.drop asid frames left), { w with free := frame :: w.free })
  | .note asid left =>
    match w.noteAttempt asid with
    | (none, w) => (.none, some (.reap left (some asid)), w)
    | (some entry, w) => (.gaveUp asid entry.frames, some (.giveUp entry left), w)
  | .giveUp entry left =>
    let w := w.markAbandoned entry.asid
    (.none, some (.reapQuarantine entry left),
      { w with abandonedFrames := w.abandonedFrames + entry.frames.length })
  | .reapQuarantine entry left =>
    (.quarantined entry.frames entry.reason, some (.reap left (some entry.asid)),
      w.quarantineFrames entry.frames)
  | .query asid =>
    if w.abandonedSaturated then (.answered asid true, none, w)
    else (.none, some (.queryTags asid), w)
  | .queryTags asid =>
    if w.abandonedTags.contains asid then (.answered asid true, none, w)
    else (.none, some (.queryDeferred asid), w)
  | .queryDeferred asid =>
    (.answered asid
      (w.deferred.any fun entry => entry.asid == asid && !tagEpochsConfirmed w.mail entry), none, w)
  | .service hart =>
    if maxHarts ≤ hart then (.none, none, w)
    else (.none, some (.serviceLoaded hart (w.mail.request hart)), w)
  | .serviceLoaded hart epoch =>
    if w.mail.complete hart < epoch then (.none, some (.serviceFlushed hart epoch), w)
    else (.none, none, w)
  | .serviceFlushed hart epoch =>
    (.published hart epoch, none,
      { w with
        mail := { w.mail with complete := update w.mail.complete hart epoch } })

/-- A call enters. -/
def enter (call : Call) : World :=
  { w with calls := w.calls ++ [call] }

/-- The call at an index goes on, or returns. -/
def resume (i : Nat) : Option Call → World
  | some call => { w with calls := w.calls.set i call }
  | none => { w with calls := w.calls.eraseIdx i }

/-- The component at boot, over a memory of `n` frames. -/
def boot (n : Nat) : World where
  mail := { online := fun _ => false, request := fun _ => 0, complete := fun _ => 0 }
  deferred := []
  abandonedTags := []
  abandonedSaturated := false
  attemptsTotal := 0
  abandonedEntries := 0
  abandonedFrames := 0
  quarantined := []
  free := List.range n
  held := []
  calls := []

end World

/-- What the rest of the kernel does with the component. -/
inductive Op
  /-- `defer_frames` or `defer_frames_and_tag`, with frames the caller owns. -/
  | defer (r : Retention)
  | reap
  | query (asid : Nat)
  /-- `service_tlb_flush` on a hart. -/
  | service (hart : Nat)
  /-- The next section of a call in flight, on hart `me`. -/
  | advance (i me : Nat)
  /-- `request_tlb_flush` by a path outside the queue. -/
  | request (hart : Nat)
  | bringUp (hart : Nat)
  /-- `OwnedFrame::allocate` hands out a frame. -/
  | allocate (frame : Nat)
  /-- An owner outside the queue drops its `OwnedFrame`. -/
  | dropFrame (frame : Nat)

/-- One step; `none` where no such step exists. -/
def step (w : World) : Op → Option (Response × World)
  | .defer r =>
    if r.frames.Subperm w.held then
      some (.none, { w with held := w.held.diff r.frames }.enter (.defer r))
    else none
  | .reap => some (.none, w.enter (.reap reaperEntriesPerCall none))
  | .query asid => some (.none, w.enter (.query asid))
  | .service hart => some (.none, w.enter (.service hart))
  | .advance i me =>
    match w.calls[i]? with
    | none => none
    | some call =>
      let (r, next, w) := w.advance me call
      some (r, w.resume i next)
  | .request hart => some (.none, { w with mail := (w.mail.requestTlbFlush hart).2 })
  | .bringUp hart =>
    some (.none, { w with mail := { w.mail with online := update w.mail.online hart true } })
  | .allocate frame =>
    if frame ∈ w.free then
      some (.none, { w with free := w.free.erase frame, held := frame :: w.held })
    else none
  | .dropFrame frame =>
    if frame ∈ w.held then
      some (.dropped frame, { w with held := w.held.erase frame, free := frame :: w.free })
    else none

end Cellos.Memory.Deferred
