import Cellos.Memory.DeferredSafety

/-!
# Cellos.Memory.DeferredRuns

A frame from its deferral to its release, over every run.

`Sound` is what every run keeps: one entry per tag, one owner per frame, and a
completion counter never shows an epoch that was not published.  `Custody` follows
one deferred frame: it waits in an entry that waits for everything asked on behalf of
the tag since, or was taken out of the queue with all of that published (`Waited`), or
is kept for good.
-/

namespace Cellos.Memory.Deferred

open Lib List World

variable {rs : List Response}

/-! ## what every run keeps -/

/-- One entry per tag, one owner per frame, and every completion was published. -/
structure Sound (rs : List Response) (w : World) : Prop where
  nodup : (w.deferred.map (·.asid)).Nodup
  owned : ∀ frame, w.owned frame ≤ 1
  completed : ∀ hart, w.mail.complete hart ≠ 0 →
    Response.published hart (w.mail.complete hart) ∈ rs

namespace Sound

variable (h : Sound rs w)

include h

theorem change (hc : Change r w w') : Sound (rs ++ [r]) w' where
  nodup := hc.queue.nodup h.nodup
  owned frame := by
    rw [hc.owned frame]
    exact h.owned frame
  completed hart hne := by
    rcases hc.complete hart with hsame | rfl
    · rw [hsame] at hne ⊢
      exact mem_append_left _ (h.completed hart hne)
    · simp

theorem eq_of_asid (hmem : entry ∈ w.deferred) (hmem' : entry' ∈ w.deferred)
    (hasid : entry.asid = entry'.asid) : entry = entry' :=
  inj_on_of_nodup_map h.nodup hmem hmem' hasid

theorem not_mem_queue (hfree : frame ∈ w.free) (hmem : entry ∈ w.deferred) :
    frame ∉ entry.frames := by
  intro hframe
  have hone := h.owned frame
  have hpos := count_pos_iff.mpr hfree
  have hpos' : 0 < (w.deferred.flatMap (·.frames)).count frame :=
    count_pos_iff.mpr (mem_flatMap.mpr ⟨entry, hmem, hframe⟩)
  simp only [World.owned, World.settled] at hone
  omega

omit h in
theorem frames_of_kept {call : Call} (h : frame ∈ call.kept) : frame ∈ call.frames := by
  cases call <;> first | exact h | contradiction

theorem not_keeps (hfree : frame ∈ w.free) : ¬ w.Keeps frame := by
  have hone := h.owned frame
  have hpos := count_pos_iff.mpr hfree
  simp only [World.owned, World.settled] at hone
  rintro (hq | ⟨call, hmem, hkept⟩)
  · have hpos' := count_pos_iff.mpr hq
    omega
  · have hpos' : 0 < (w.calls.flatMap Call.frames).count frame :=
      count_pos_iff.mpr (mem_flatMap.mpr ⟨call, hmem, frames_of_kept hkept⟩)
    omega

/-- The epochs of a confirmed entry have been published. -/
theorem published_of_confirmed (hconf : tagEpochsConfirmed w.mail entry = true)
    (hhart : hart < maxHarts) (hne : epoch ≠ 0) (hle : epoch ≤ entry.epochs hart) :
    ∃ e, epoch ≤ e ∧ .published hart e ∈ rs := by
  have hdone := all_eq_true.mp hconf hart (mem_range.mpr hhart)
  simp only [Mailboxes.tlbFlushCompleted, Bool.or_eq_true, beq_iff_eq, Bool.and_eq_true,
    decide_eq_true_eq] at hdone
  have hcomplete : epoch ≤ w.mail.complete hart := by omega
  exact ⟨w.mail.complete hart, hcomplete, h.completed hart (by omega)⟩

end Sound

theorem sound_boot (n : Nat) : Sound [] (boot n) where
  nodup := nodup_nil
  owned frame := by
    have := nodup_iff_count_le_one.mp (nodup_range (n := n)) frame
    simpa [boot, owned, settled] using this
  completed hart hne := absurd rfl hne

/-! ## a frame from its deferral on -/

/-- Since its deferral the frame waited in the queue until the reaper took the entry out,
and by then every hart asked for the tag in the meantime had published what it was asked for. -/
def Waited (past since : List Response) (asid frame : Nat) : Prop :=
  ∃ waiting frames leaving, since = waiting ++ .taken asid frames :: leaving ∧ frame ∈ frames ∧
    (∀ r ∈ waiting, ¬ r.Removes asid) ∧
    ∀ r ∈ waiting, ∀ hart epoch, r.Asks asid hart epoch →
      ∃ e, epoch ≤ e ∧ Response.published hart e ∈ past ++ waiting

/-- Where a frame that was deferred under a tag is: still in the queue, waiting for all that
was asked since; taken out after a confirmed wait; or kept for good. -/
inductive Custody (past since : List Response) (asid frame : Nat) (w : World) : Prop
  | queued (entry : DeferredRelease) (hmem : entry ∈ w.deferred) (hasid : entry.asid = asid)
      (hframe : frame ∈ entry.frames) (hstays : ∀ r ∈ since, ¬ r.Removes asid)
      (hasks : ∀ r ∈ since, ∀ hart epoch, r.Asks asid hart epoch → epoch ≤ entry.epochs hart)
  | waited (h : Waited past since asid frame)
  | kept (h : w.Keeps frame)

namespace Custody

variable {r : Response}

theorem asks_hart (h : r.Asks asid hart epoch) : hart < maxHarts ∧ epoch ≠ 0 := by
  cases r <;> first | exact ⟨h.2.1, h.2.2.2⟩ | contradiction

/-- A deferral puts the frame into the queue. -/
theorem start (hw : Sound (past ++ [r]) w') (hc : Change r w w') (hr : r.Defers asid frame) :
    Custody past [r] asid frame w' := by
  obtain ⟨entry, hmem, hasid, hframe⟩ := hc.queue.defers asid frame hr
  refine .queued entry hmem hasid hframe ?_ ?_
  · intro q hq hremoves
    obtain rfl := mem_singleton.mp hq
    cases q <;> contradiction
  intro q hq hart epoch hasks
  obtain rfl := mem_singleton.mp hq
  obtain ⟨_, hmem', hasid', hle⟩ := hc.queue.asks asid hart epoch hasks
  obtain rfl := hw.eq_of_asid hmem hmem' (hasid.trans hasid'.symm)
  exact hle

/-- A step keeps custody: the entry waits for what is asked in the step, or leaves the queue
confirmed, or is given up on. -/
theorem change (hs : Sound (past ++ since) w) (hw : Sound (past ++ (since ++ [r])) w')
    (hc : Change r w w') (h : Custody past since asid frame w) :
    Custody past (since ++ [r]) asid frame w' := by
  cases h with
  | waited h =>
    obtain ⟨waiting, frames, leaving, rfl, hframe, hstays, hasks⟩ := h
    exact .waited ⟨waiting, frames, leaving ++ [r], by simp, hframe, hstays, hasks⟩
  | kept h => exact .kept (hc.keeps frame h)
  | queued entry hmem hasid hframe hstays hasks =>
    rcases hc.queue.entries entry hmem with ⟨entry', hmem', hext⟩ | ⟨rfl, hconf⟩ | rfl
    · have hasid' : entry'.asid = asid := hext.asid.trans hasid
      refine .queued entry' hmem' hasid' (hext.frames frame hframe) ?_ ?_
      · exact forall_mem_concat hstays fun hremoves =>
          hc.queue.removes asid hs.nodup hremoves entry' hmem' hasid'
      refine forall_mem_concat (fun q hq hart epoch hask => ?_) fun hart epoch hask => ?_
      · exact (hasks q hq hart epoch hask).trans (hext.epochs hart)
      · obtain ⟨_, hmem'', hasid'', hle⟩ := hc.queue.asks asid hart epoch hask
        obtain rfl := hw.eq_of_asid hmem' hmem'' (hasid'.trans hasid''.symm)
        exact hle
    · rw [hasid]
      refine .waited ⟨since, entry.frames, [], rfl, hframe, hstays, fun q hq hart epoch hask => ?_⟩
      obtain ⟨hhart, hne⟩ := asks_hart hask
      exact hs.published_of_confirmed hconf hhart hne (hasks q hq hart epoch hask)
    · exact .kept ((hc.gaveUp entry.asid entry.frames rfl).2 frame hframe)

end Custody

/-- What the responses so far say about every frame that was deferred or quarantined. -/
structure History (rs : List Response) (w : World) : Prop where
  sound : Sound rs w
  custody : ∀ past d since asid frame, rs = past ++ d :: since → d.Defers asid frame →
    Custody past (d :: since) asid frame w
  kept : ∀ r ∈ rs, ∀ frame, r.Quarantines frame → w.Keeps frame

theorem History.change (h : History rs w) (hc : Change r w w') : History (rs ++ [r]) w' := by
  have hsound := h.sound.change hc
  refine ⟨hsound, ?_, ?_⟩
  · intro past d since asid frame heq hd
    rcases eq_nil_or_concat' since with rfl | ⟨since, q, rfl⟩
    · obtain ⟨rfl, hlast⟩ := append_inj' heq rfl
      cases hlast
      exact .start hsound hc hd
    · rw [← cons_append, ← append_assoc] at heq
      obtain ⟨rfl, hlast⟩ := append_inj' heq rfl
      cases hlast
      exact .change h.sound (by simpa using hsound) hc (h.custody past d since asid frame rfl hd)
  · exact forall_mem_concat (fun q hq frame hquar => hc.keeps frame (h.kept q hq frame hquar))
      hc.quarantines

theorem history_of_run (h : run step (boot n) ops = some (rs, w)) : History rs w := by
  refine run_history (fun rs w op r w' hH hstep => hH.change (change_of_step hstep)) h ?_
  exact ⟨sound_boot n, by simp, by simp⟩

/-- **Deferred frames wait for the invalidation**: in every run there is at most one entry per
tag; a quarantined frame is never handed back; and a frame that was deferred under a tag is
handed back only after it was taken out of the queue with every hart that was asked for the tag
since its deferral having published at least the epoch it was asked for. -/
theorem released_after_invalidation (n : Nat) {ops : List Op} {rs : List Response} {w : World}
    (h : run step (boot n) ops = some (rs, w)) : (w.deferred.map (·.asid)).Nodup ∧
    (∀ frame ∈ w.free, frame ∉ w.quarantined) ∧
    (∀ past d since r rest frame, rs = past ++ d :: since ++ r :: rest →
      d.Quarantines frame → ¬ r.HandsBack frame) ∧
    (∀ past d since r rest asid frame, rs = past ++ d :: since ++ r :: rest →
      d.Defers asid frame → r.HandsBack frame → Waited past (d :: since) asid frame) := by
  have hend := (history_of_run h).sound
  -- the state right after a hand-back, with all that was said until then
  have hback : ∀ past d since r rest frame, rs = past ++ d :: since ++ r :: rest →
      r.HandsBack frame → ∃ w₁, History (past ++ d :: since ++ [r]) w₁ ∧ frame ∈ w₁.free := by
    intro past d since r rest frame heq hr
    have hmem : rs[(past ++ d :: since).length]? = some r := by simp [heq]
    obtain ⟨_, _, w₁, -, hbefore, hstep, -⟩ := run_get h hmem
    rw [heq, take_left] at hbefore
    have hc := change_of_step hstep
    exact ⟨w₁, (history_of_run hbefore).change hc, hc.handsBack frame hr⟩
  refine ⟨hend.nodup, fun frame hfree hq => hend.not_keeps hfree (.inl hq), ?_, ?_⟩
  · intro past d since r rest frame heq hd hr
    obtain ⟨_, hH, hfree⟩ := hback past d since r rest frame heq hr
    exact hH.sound.not_keeps hfree (hH.kept d (by simp) frame hd)
  intro past d since r rest asid frame heq hd hr
  obtain ⟨_, hH, hfree⟩ := hback past d since r rest frame heq hr
  cases hH.custody past d (since ++ [r]) asid frame (by simp) hd with
  | queued _ hmem _ hframe => exact absurd hframe (hH.sound.not_mem_queue hfree hmem)
  | kept hkept => exact absurd hkept (hH.sound.not_keeps hfree)
  | waited hwaited =>
    obtain ⟨waiting, frames, leaving, hsplit, hframe, hstays, hasks⟩ := hwaited
    -- the last response is the hand-back, so the entry was taken out before it
    rcases eq_nil_or_concat' leaving with rfl | ⟨leaving, q, rfl⟩
    · rw [← cons_append] at hsplit
      obtain ⟨-, hlast⟩ := append_inj' hsplit rfl
      cases hlast
      contradiction
    · refine ⟨waiting, frames, leaving, ?_, hframe, hstays, hasks⟩
      rw [← cons_append, ← cons_append, ← append_assoc] at hsplit
      exact (append_inj' hsplit rfl).1

/-- Hart 1 answers after the reaper asked again, and the frame goes back. -/
def confirmedRun : List Op :=
  [.bringUp 1, .allocate 0, .defer ⟨7, 3, [0], "unmap unacknowledged", false⟩,
    .advance 0 0, .advance 0 0, .advance 0 0,
    .reap, .advance 0 0, .advance 0 0, .advance 0 0, .advance 0 0,
    .service 1, .advance 0 1, .advance 0 1, .advance 0 1,
    .reap, .advance 0 0, .advance 0 0, .advance 0 0, .advance 0 0, .advance 0 0]

/-- The sixth answer places frame 0 and the last one hands it back. -/
def handsBackLast : List Response → Bool
  | _ :: _ :: _ :: _ :: _ :: .placed 7 [0] _ :: rest =>
    match rest.reverse with
    | .released 7 0 :: _ => true
    | _ => false
  | _ => false

theorem released_after_invalidation_confirmedRun :
    ∃ rs w past d since r rest, run step (boot 1) confirmedRun = some (rs, w) ∧
      rs = past ++ d :: since ++ r :: rest ∧ d.Defers 7 0 ∧ r.HandsBack 0 ∧
      Waited past (d :: since) 7 0 := by
  have hcheck : ((run step (boot 1) confirmedRun).any fun out => handsBackLast out.1) = true := by
    decide +kernel
  obtain ⟨⟨rs, w⟩, hrun, hcheck⟩ := (Option.any_eq_true _ _).mp hcheck
  unfold handsBackLast at hcheck
  split at hcheck
  · next a b c d e epochs rest hrs =>
    split at hcheck
    · next since hrest =>
      obtain rfl : rs = [a, b, c, d, e] ++ .placed 7 [0] epochs :: since.reverse ++
          [.released 7 0] := by
        have hlist : rest = since.reverse ++ [.released 7 0] := by
          rw [← reverse_reverse rest, hrest, reverse_cons]
        rw [hlist] at hrs
        simpa using hrs
      exact ⟨_, w, _, _, _, _, [], hrun, rfl, ⟨rfl, by simp⟩, rfl,
        (released_after_invalidation 1 hrun).2.2.2 _ _ _ _ [] 7 0 rfl ⟨rfl, by simp⟩ rfl⟩
    · cases hcheck
  · cases hcheck

/-- **No frame is lost**: in every run each frame is in exactly one place and there once: the
allocator, a cell, the queue, the quarantine or a call in flight. -/
theorem frames_conserved (h : run step (boot n) ops = some (rs, w)) (frame : Nat) :
    w.owned frame = (range n).count frame := by
  have hboot : (boot n).owned frame = (range n).count frame := by simp [boot, owned, settled]
  refine run_invariant (P := fun w => w.owned frame = (range n).count frame) ?_ h hboot
  intro w op r w' hw hstep
  rw [(change_of_step hstep).owned frame, hw]

theorem frames_conserved_confirmedRun :
    ∃ rs w, run step (boot 1) confirmedRun = some (rs, w) ∧ w.owned 0 = 1 := by
  have hsome : (run step (boot 1) confirmedRun).isSome := by decide +kernel
  obtain ⟨⟨rs, w⟩, hrun⟩ := Option.isSome_iff_exists.mp hsome
  exact ⟨rs, w, hrun, frames_conserved hrun 0⟩

end Cellos.Memory.Deferred
