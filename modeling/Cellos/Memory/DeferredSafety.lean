import Cellos.Memory.Deferred

/-!
# Cellos.Memory.DeferredSafety

What one step of the deferred-release component can do.

`Response.Asks`, `Defers`, `HandsBack`, `Quarantines` and `Removes` name the events a
step may report.  `Requeue` says what happens to the queue under such a response,
`Section` what one section of a call does, and `Change` what a step does; every
result about runs is derived from `change_of_step`.
-/

namespace Cellos.Memory.Deferred

open Lib List Option World

variable {call : Call}
  {next : Option Call}

/-! ## events -/

namespace Response

/-- A request to a hart was made on behalf of a tag, for this epoch. -/
def Asks (asid hart epoch : Nat) : Response → Prop
  | .placed tag _ epochs | .reasked tag epochs =>
    tag = asid ∧ hart < maxHarts ∧ epochs hart = epoch ∧ epoch ≠ 0
  | _ => False

/-- A frame is queued under a tag. -/
def Defers (asid frame : Nat) : Response → Prop
  | .placed tag frames _ => tag = asid ∧ frame ∈ frames
  | _ => False

/-- A frame goes back to the allocator. -/
def HandsBack (frame : Nat) : Response → Prop
  | .released _ f | .dropped f => f = frame
  | _ => False

/-- A frame goes into the quarantine. -/
def Quarantines (frame : Nat) : Response → Prop
  | .quarantined frames _ => frame ∈ frames
  | _ => False

/-- The entry of a tag leaves the queue. -/
def Removes (asid : Nat) : Response → Prop
  | .taken tag _ | .gaveUp tag _ => tag = asid
  | _ => False

end Response

/-! ## what a step does to the queue -/

/-- An entry that stays may take more frames and wait for more epochs. -/
structure DeferredRelease.Extends (entry entry' : DeferredRelease) : Prop where
  asid : entry'.asid = entry.asid
  frames : ∀ frame ∈ entry.frames, frame ∈ entry'.frames
  epochs : ∀ hart, entry.epochs hart ≤ entry'.epochs hart

namespace DeferredRelease

theorem Extends.refl (entry : DeferredRelease) : entry.Extends entry :=
  ⟨rfl, fun _ h => h, fun _ => le_rfl⟩

end DeferredRelease

/-- What a step with response `r` may do to the queue. -/
structure Requeue (r : Response) (m : Mailboxes) (q q' : List DeferredRelease) : Prop where
  nodup : (q.map (·.asid)).Nodup → (q'.map (·.asid)).Nodup
  entries : ∀ entry ∈ q, (∃ entry' ∈ q', entry.Extends entry') ∨
    (r = .taken entry.asid entry.frames ∧ tagEpochsConfirmed m entry = true) ∨
    r = .gaveUp entry.asid entry.frames
  asks : ∀ asid hart epoch, r.Asks asid hart epoch →
    ∃ entry' ∈ q', entry'.asid = asid ∧ epoch ≤ entry'.epochs hart
  defers : ∀ asid frame, r.Defers asid frame →
    ∃ entry' ∈ q', entry'.asid = asid ∧ frame ∈ entry'.frames
  removes : ∀ asid, (q.map (·.asid)).Nodup → r.Removes asid → ∀ entry' ∈ q', entry'.asid ≠ asid

attribute [simp] Response.Asks Response.Defers Response.Removes Response.Quarantines
  Response.HandsBack

namespace Requeue

theorem refl (hr : (∀ asid hart epoch, ¬ r.Asks asid hart epoch) ∧
    (∀ asid frame, ¬ r.Defers asid frame) ∧ ∀ asid, ¬ r.Removes asid) : Requeue r m q q where
  nodup h := h
  entries entry h := .inl ⟨entry, h, .refl entry⟩
  asks asid hart epoch h := absurd h (hr.1 asid hart epoch)
  defers asid frame h := absurd h (hr.2.1 asid frame)
  removes asid _ h := absurd h (hr.2.2 asid)

/-- The entry of a tag is rewritten into one that extends it and serves the request. -/
theorem updateFirst (hf : ∀ e : DeferredRelease, e.Extends (f e))
    (hfind : q.find? (·.asid == asid) = some entry)
    (hasks : ∀ tag hart epoch, r.Asks tag hart epoch → tag = asid ∧ epoch ≤ (f entry).epochs hart)
    (hdefers : ∀ tag frame, r.Defers tag frame → tag = asid ∧ frame ∈ (f entry).frames)
    (hremoves : ∀ tag, ¬ r.Removes tag) :
    Requeue r m q (Lib.updateFirst (·.asid == asid) f q) := by
  have hasid : entry.asid = asid := by simpa using find?_some hfind
  have hmem : f entry ∈ Lib.updateFirst (·.asid == asid) f q := apply_mem_updateFirst f hfind
  have hname : (f entry).asid = asid := (hf entry).asid.trans hasid
  refine ⟨fun hnd => ?_, fun other hother => ?_, fun tag hart epoch h => ?_,
    fun tag frame h => ?_, fun tag _ h => absurd h (hremoves tag)⟩
  · rwa [map_updateFirst (·.asid) fun other _ => (hf other).asid]
  · rcases mem_updateFirst_of_mem f hother with hkept | hfound
    · exact .inl ⟨other, hkept, .refl other⟩
    · exact .inl ⟨f other, apply_mem_updateFirst f hfound, hf other⟩
  · obtain ⟨rfl, hle⟩ := hasks tag hart epoch h
    exact ⟨f entry, hmem, hname, hle⟩
  · obtain ⟨rfl, hframe⟩ := hdefers tag frame h
    exact ⟨f entry, hmem, hname, hframe⟩

theorem push (hfind : q.find? (·.asid == asid) = none) (hname : entry.asid = asid)
    (hasks : ∀ tag hart epoch, r.Asks tag hart epoch → tag = asid ∧ epoch ≤ entry.epochs hart)
    (hdefers : ∀ tag frame, r.Defers tag frame → tag = asid ∧ frame ∈ entry.frames)
    (hremoves : ∀ tag, ¬ r.Removes tag) : Requeue r m q (q ++ [entry]) := by
  have hmem : entry ∈ q ++ [entry] := by simp
  refine ⟨fun hnd => ?_, fun other hother => ?_, fun tag hart epoch h => ?_,
    fun tag frame h => ?_, fun tag _ h => absurd h (hremoves tag)⟩
  · refine nodup_map_concat hnd fun other hother => ?_
    have := find?_eq_none.mp hfind other hother
    rw [hname]
    simpa using this
  · exact .inl ⟨other, mem_append_left _ hother, .refl other⟩
  · obtain ⟨rfl, hle⟩ := hasks tag hart epoch h
    exact ⟨entry, hmem, hname, hle⟩
  · obtain ⟨rfl, hframe⟩ := hdefers tag frame h
    exact ⟨entry, hmem, hname, hframe⟩

theorem erase (hfind : q.find? p = some entry) (hname : entry.asid = asid)
    (hr : (r = .taken asid entry.frames ∧ tagEpochsConfirmed m entry = true) ∨
      r = .gaveUp asid entry.frames) :
    Requeue r m q (q.eraseP p) := by
  subst hname
  have hperm := perm_cons_eraseP hfind
  have hremoves : ∀ tag, r.Removes tag → tag = entry.asid := by
    rcases hr with ⟨rfl, -⟩ | rfl <;> exact fun tag => Eq.symm
  refine ⟨fun hnd => ?_, fun other hother => ?_, fun tag hart epoch h => ?_,
    fun tag frame h => ?_, fun tag hnd h => ?_⟩
  · exact hnd.sublist (eraseP_sublist.map _)
  · rcases mem_cons.mp (hperm.mem_iff.mp hother) with rfl | hkept
    · exact .inr hr
    · exact .inl ⟨other, hkept, .refl other⟩
  · rcases hr with ⟨rfl, -⟩ | rfl <;> exact h.elim
  · rcases hr with ⟨rfl, -⟩ | rfl <;> exact h.elim
  · obtain rfl := hremoves tag h
    have hnd' := (hperm.map (·.asid)).nodup_iff.mp hnd
    rw [map_cons, nodup_cons] at hnd'
    intro other hother heq
    exact hnd'.1 (heq ▸ mem_map_of_mem hother)

end Requeue

/-! ## where the frames are -/

/-- The frames a call is going to quarantine. -/
def Call.kept : Call → List Nat
  | .deferFull _ frames _ | .deferQuarantine frames _ => frames
  | .giveUp entry _ | .reapQuarantine entry _ => entry.frames
  | _ => []

open Call

namespace World

variable (w : World)

/-- How often a frame is owned outside the calls in flight. -/
def settled (frame : Nat) : Nat :=
  w.free.count frame + w.held.count frame + (w.deferred.flatMap (·.frames)).count frame +
    w.quarantined.count frame

/-- How often a frame is owned. -/
def owned (frame : Nat) : Nat := w.settled frame + (w.calls.flatMap Call.frames).count frame

/-- A frame that is quarantined or about to be. -/
def Keeps (frame : Nat) : Prop := frame ∈ w.quarantined ∨ ∃ call ∈ w.calls, frame ∈ call.kept

/-- The reaper took the entry of a tag out and has not marked the tag yet. -/
def GivingUp (asid : Nat) : Prop :=
  ∃ entry left, Call.giveUp entry left ∈ w.calls ∧ entry.asid = asid

/-- A tag is known to be given up on. -/
def Abandoned (asid : Nat) : Prop := w.abandonedSaturated = true ∨ asid ∈ w.abandonedTags

end World

open Call

/-- What one section of a call does: to the mailboxes, the queue, the marks and the frames. -/
structure Section (w : World) (call : Call) (r : Response) (next : Option Call) (w' : World) :
    Prop where
  calls : w'.calls = w.calls
  complete : ∀ hart, w'.mail.complete hart = w.mail.complete hart ∨
    r = .published hart (w'.mail.complete hart)
  queue : Requeue r w.mail w.deferred w'.deferred
  tags : ∀ asid ∈ w.abandonedTags, asid ∈ w'.abandonedTags
  saturated : w.abandonedSaturated = true → w'.abandonedSaturated = true
  marks : ∀ entry left, call = .giveUp entry left → w'.Abandoned entry.asid
  gaveUp : ∀ asid frames, r = .gaveUp asid frames →
    ∃ entry left, next = some (.giveUp entry left) ∧ entry.asid = asid ∧ entry.frames = frames
  frames : ∀ frame, w'.settled frame + (next.elim [] frames).count frame =
    w.settled frame + call.frames.count frame
  quarantined : ∀ frame ∈ w.quarantined, frame ∈ w'.quarantined
  kept : ∀ frame ∈ call.kept, frame ∈ w'.quarantined ∨ frame ∈ next.elim [] kept
  quarantines : ∀ frame, r.Quarantines frame → frame ∈ w'.quarantined
  handsBack : ∀ frame, r.HandsBack frame → frame ∈ w'.free

/-- A response that reports nothing about frames, tags and epochs. -/
def Response.Silent : Response → Prop
  | .none | .slotReleased _ _ | .answered _ _ => True
  | _ => False

namespace Section

variable {w : World}

theorem requeue_of_silent (hr : r.Silent) (m : Mailboxes) (q : List DeferredRelease) :
    Requeue r m q q := by
  refine .refl ⟨fun asid hart epoch h => ?_, fun asid frame h => ?_, fun asid h => ?_⟩
  all_goals cases r <;> contradiction

theorem look (hr : r.Silent) (hframes : next.elim [] Call.frames = call.frames)
    (hcall : (∀ entry left, call ≠ .giveUp entry left) ∧
      ∀ frame ∈ call.kept, frame ∈ next.elim [] Call.kept) : Section w call r next w where
  calls := rfl
  complete _ := .inl rfl
  queue := requeue_of_silent hr _ _
  tags _ h := h
  saturated h := h
  marks entry left h := absurd h (hcall.1 entry left)
  gaveUp asid frames h := by
    subst h
    contradiction
  frames frame := by rw [hframes]
  quarantined _ h := h
  kept frame h := .inr (hcall.2 frame h)
  quarantines frame h := by cases r <;> contradiction
  handsBack frame h := by cases r <;> contradiction

theorem requeue (hqueue : Requeue r w.mail w.deferred w'.deferred)
    (hframes : ∀ frame, (w'.deferred.flatMap (·.frames)).count frame +
        (next.elim [] Call.frames).count frame =
      (w.deferred.flatMap (·.frames)).count frame + call.frames.count frame)
    (hcomplete : w'.mail.complete = w.mail.complete)
    (hgaveUp : ∀ asid frames, r = .gaveUp asid frames → ∃ entry left,
      next = some (.giveUp entry left) ∧ entry.asid = asid ∧ entry.frames = frames)
    (hrest : w' = { w with
      mail := w'.mail, deferred := w'.deferred, attemptsTotal := w'.attemptsTotal })
    (hcall : call.kept = [] ∧ (∀ entry left, call ≠ .giveUp entry left) ∧
      (∀ frame, ¬ r.Quarantines frame) ∧ ∀ frame, ¬ r.HandsBack frame) : Section w call r next w' := by
  obtain ⟨hkept, hcall, hquarantines, hhandsBack⟩ := hcall
  rw [hrest] at hqueue ⊢
  refine ⟨rfl, fun hart => .inl (congrFun hcomplete hart), hqueue, fun _ h => h, fun h => h,
    fun entry left h => absurd h (hcall entry left), hgaveUp, fun frame => ?_, fun _ h => h,
    fun frame h => ?_, fun frame h => absurd h (hquarantines frame),
    fun frame h => absurd h (hhandsBack frame)⟩
  · have := hframes frame
    simp only [settled]
    omega
  · rw [hkept] at h
    contradiction

end Section

/-! ## every section -/

namespace Mailboxes

theorem requestTlbFlush_complete (m : Mailboxes) (hart : Nat) :
    (m.requestTlbFlush hart).2.complete = m.complete := by
  unfold requestTlbFlush
  split <;> rfl

theorem issueTagEpochs_complete (m : Mailboxes) (me : Nat) :
    (m.issueTagEpochs me).2.complete = m.complete := by
  refine foldlRecOn _ _ (motive := fun out : (Nat → Nat) × Mailboxes => out.2.complete = m.complete) rfl ?_
  intro out hout hart _
  exact (requestTlbFlush_complete out.2 hart).trans hout

/-- The harts of a list are asked once each, and nothing else happens to the requests. -/
theorem request_foldl (harts : List Nat) (hnodup : harts.Nodup) (hlt : ∀ h ∈ harts, h < maxHarts)
    (m : Mailboxes) (epochs : Nat → Nat) (hart : Nat) :
    let out := harts.foldl (fun (epochs, m) hart =>
      (Function.update epochs hart (m.requestTlbFlush hart).1, (m.requestTlbFlush hart).2)) (epochs, m)
    (out.1 hart, out.2.request hart) = if hart ∈ harts then
      ((m.requestTlbFlush hart).1, (m.requestTlbFlush hart).1) else (epochs hart, m.request hart) := by
  induction harts generalizing m epochs with
  | nil => rfl
  | cons h harts ih =>
    obtain ⟨hfresh, hnodup⟩ := nodup_cons.mp hnodup
    have hvalid : ¬ maxHarts ≤ h := Nat.not_le.mpr (hlt h mem_cons_self)
    refine (ih hnodup (fun h' hh => hlt h' (mem_cons_of_mem _ hh)) _ _).trans ?_
    by_cases heq : hart = h
    · subst heq
      simp [hfresh, requestTlbFlush, hvalid]
    · by_cases hmem : hart ∈ harts
      · have hvalid' : ¬ maxHarts ≤ hart := Nat.not_le.mpr (hlt hart (mem_cons_of_mem _ hmem))
        simp [heq, hmem, requestTlbFlush, hvalid, hvalid']
      · simp [heq, hmem, requestTlbFlush, hvalid]

/-- Every other online hart is asked, and reported with the epoch its request returned. -/
theorem issueTagEpochs_spec (m : Mailboxes) (me hart : Nat) :
    ((m.issueTagEpochs me).1 hart, (m.issueTagEpochs me).2.request hart) =
      if hart ∈ m.onlineHarts ∧ hart ≠ me then
        ((m.requestTlbFlush hart).1, (m.requestTlbFlush hart).1) else (0, m.request hart) := by
  have hlt : ∀ h ∈ m.onlineHarts.filter (· != me), h < maxHarts := by
    intro h hh
    exact mem_range.mp (mem_filter.mp (mem_filter.mp hh).1).1
  have hfold := request_foldl _ ((nodup_range.filter _).filter _) hlt m (fun _ => 0) hart
  simpa only [issueTagEpochs, onlineHarts, mem_filter, bne_iff_ne] using hfold

/-- The requests made are the epochs reported. -/
theorem requested_issueTagEpochs (m : Mailboxes) (me : Nat) :
    m.requested (m.issueTagEpochs me).2 = (m.issueTagEpochs me).1 := by
  funext hart
  have hspec := m.issueTagEpochs_spec me hart
  by_cases hasked : hart ∈ m.onlineHarts ∧ hart ≠ me
  · have hvalid : ¬ maxHarts ≤ hart := by
      simpa using (mem_filter.mp hasked.1).1
    simp_all [requested, requestTlbFlush]
  · simp_all [requested]

end Mailboxes

namespace World

variable {w : World} {entry : DeferredRelease}

theorem count_deferred_updateFirst (hfind : w.deferred.find? (·.asid == asid) = some entry)
    (frame : Nat) : ((updateFirst (·.asid == asid) f w.deferred).flatMap (·.frames)).count frame +
        entry.frames.count frame =
      (w.deferred.flatMap (·.frames)).count frame + (f entry).frames.count frame := by
  have hold := ((perm_cons_eraseP hfind).flatMap_right (·.frames)).count_eq frame
  have hnew := ((updateFirst_perm f hfind).flatMap_right (·.frames)).count_eq frame
  simp only [flatMap_cons, count_append] at hold hnew
  omega

theorem count_deferred_eraseP (hfind : w.deferred.find? p = some entry) (frame : Nat) :
    ((w.deferred.eraseP p).flatMap (·.frames)).count frame + entry.frames.count frame =
      (w.deferred.flatMap (·.frames)).count frame := by
  have hold := ((perm_cons_eraseP hfind).flatMap_right (·.frames)).count_eq frame
  simp only [flatMap_cons, count_append] at hold
  omega

/-- `place` queues, merges, or changes nothing and hands the frames on. -/
theorem section_place (w : World) (me : Nat) (r : Retention) :
    Section w (.place r) (w.advance me (.place r)).1 (w.advance me (.place r)).2.1
      (w.advance me (.place r)).2.2 := by
  have hcomplete := w.mail.issueTagEpochs_complete me
  have hreported := fun hart => (congrFun (w.mail.requested_issueTagEpochs me) hart).le
  simp only [advance, place]
  cases hfind : w.deferred.find? (·.asid == r.asid) with
  | some entry =>
    refine .requeue (.updateFirst (fun e => ⟨rfl, fun _ => mem_append_left _,
      fun _ => Nat.le_max_left _ _⟩) hfind ?_ ?_ (by simp)) ?_ hcomplete (by simp) rfl (by simp [kept])
    · rintro tag hart epoch ⟨rfl, -, rfl, -⟩
      exact ⟨rfl, (hreported hart).trans (Nat.le_max_right _ _)⟩
    · rintro tag frame ⟨rfl, hframe⟩
      exact ⟨rfl, mem_append_right _ hframe⟩
    · intro frame
      have := count_deferred_updateFirst (f := (·.merge r (w.mail.issueTagEpochs me).1)) hfind frame
      rw [show (entry.merge r _).frames = entry.frames ++ r.frames from rfl, count_append] at this
      simp only [elim_none, count_nil, frames]
      omega
  | none =>
    by_cases hfull : maxDeferredEntries ≤ w.deferred.length
    · simp only [hfull, if_true]
      exact .look trivial rfl (by simp [kept])
    simp only [hfull, if_false]
    refine .requeue (.push hfind rfl ?_ ?_ (by simp)) ?_ hcomplete (by simp) rfl (by simp [kept])
    · rintro tag hart epoch ⟨rfl, -, rfl, -⟩
      exact ⟨rfl, hreported hart⟩
    · rintro tag frame ⟨rfl, hframe⟩
      exact ⟨rfl, hframe⟩
    · simp [frames]

theorem section_reissue (w : World) (me asid left : Nat) :
    Section w (.reissue asid left) (w.advance me (.reissue asid left)).1
      (w.advance me (.reissue asid left)).2.1 (w.advance me (.reissue asid left)).2.2 := by
  have hreported := fun hart => (congrFun (w.mail.requested_issueTagEpochs me) hart).le
  simp only [advance, requestTagEpochs]
  by_cases hany : w.deferred.any (·.asid == asid) = true
  · simp only [hany, if_true]
    obtain ⟨entry, hfind⟩ : ∃ entry, w.deferred.find? (·.asid == asid) = some entry := by
      rw [← isSome_iff_exists, find?_isSome]
      simpa using hany
    refine .requeue (.updateFirst (fun e => ⟨rfl, fun _ h => h, fun _ => Nat.le_max_left _ _⟩)
      hfind ?_ (by simp) (by simp)) ?_ (w.mail.issueTagEpochs_complete me) (by simp) rfl
      (by simp [kept])
    · rintro tag hart epoch ⟨rfl, -, rfl, -⟩
      exact ⟨rfl, (hreported hart).trans (Nat.le_max_right _ _)⟩
    · intro frame
      have := count_deferred_updateFirst (f := (·.ask (w.mail.issueTagEpochs me).1)) hfind frame
      exact Nat.add_right_cancel this
  · simp only [hany, if_false, Bool.false_eq_true]
    refine .requeue (.refl ⟨?_, by simp, by simp⟩) (by simp [Call.frames]) rfl (by simp) rfl
      (by simp [kept])
    rintro tag hart epoch ⟨-, -, h, hne⟩
    exact hne (by simpa [Mailboxes.requested] using h.symm)

theorem section_note (w : World) (me asid left : Nat) :
    Section w (.note asid left) (w.advance me (.note asid left)).1
      (w.advance me (.note asid left)).2.1 (w.advance me (.note asid left)).2.2 := by
  simp only [advance, noteAttempt]
  cases hfind : w.deferred.find? (·.asid == asid) with
  | none =>
    exact .requeue (Section.requeue_of_silent (r := .none) trivial _ _) (fun _ => rfl) rfl (by simp) rfl
      (by simp [kept])
  | some entry =>
    have hasid : entry.asid = asid := by simpa using find?_some hfind
    by_cases hspent : reaperMaxAttempts ≤ entry.attempts + 1
    · simp only [hspent, if_true]
      refine .requeue (.erase hfind hasid (.inr rfl)) (fun frame => (count_deferred_eraseP hfind frame :))
        rfl ?_ rfl (by simp [kept])
      rintro tag frames ⟨⟩
      exact ⟨entry.tried, left, rfl, hasid, rfl⟩
    · simp only [hspent, if_false]
      refine .requeue (.updateFirst (fun e => ⟨rfl, fun _ h => h, fun _ => le_rfl⟩) hfind
        (by simp) (by simp) (by simp)) ?_ rfl (by simp) rfl (by simp [kept])
      intro frame
      exact Nat.add_right_cancel (count_deferred_updateFirst hfind frame)

/-- A call quarantines the frames it owns. -/
theorem section_quarantine (w : World) {frames : List Nat} (reason : String)
    (hframes : call.frames = frames) (hkept : call.kept = frames)
    (hnext : next.elim [] Call.frames = []) (hcall : ∀ entry left, call ≠ .giveUp entry left) :
    Section w call (.quarantined frames reason) next (w.quarantineFrames frames) := by
  refine ⟨rfl, fun _ => .inl rfl, .refl (by simp), fun _ h => h, fun h => h,
    fun entry left h => absurd h (hcall entry left), by simp, fun frame => ?_,
    fun frame => mem_append_left _, fun frame h => .inl ?_,
    fun frame => mem_append_right _, by simp⟩
  · rw [hnext, hframes]
    simp only [settled, quarantineFrames, count_append, count_nil]
    omega
  · rw [hkept] at h
    exact mem_append_right _ h

/-- Marking a tag changes the marks only, and they never go away. -/
theorem markAbandoned_spec (w : World) (asid : Nat) : w.markAbandoned asid = { w with
      abandonedTags := (w.markAbandoned asid).abandonedTags
      abandonedSaturated := (w.markAbandoned asid).abandonedSaturated
      abandonedEntries := (w.markAbandoned asid).abandonedEntries } ∧
    (∀ tag ∈ w.abandonedTags, tag ∈ (w.markAbandoned asid).abandonedTags) ∧
    (w.abandonedSaturated = true → (w.markAbandoned asid).abandonedSaturated = true) ∧
    (w.markAbandoned asid).Abandoned asid := by
  unfold markAbandoned
  split
  · next hmem => exact ⟨rfl, fun _ h => h, fun h => h, .inr (by simpa using hmem)⟩
  · split
    · exact ⟨rfl, fun _ h => h, fun _ => rfl, .inl rfl⟩
    · exact ⟨rfl, fun _ => mem_append_left _, fun h => h, .inr (by simp)⟩

/-- A call marks a tag and passes its frames on to be quarantined. -/
theorem section_mark (w : World) (asid count : Nat) {next : Call}
    (hframes : next.frames = call.frames) (hkept : ∀ frame ∈ call.kept, frame ∈ next.kept)
    (hcall : ∀ entry left, call = .giveUp entry left → entry.asid = asid) :
    Section w call .none (some next) { w.markAbandoned asid with abandonedFrames := count } := by
  obtain ⟨hrest, htags, hsaturated, hmarked⟩ := w.markAbandoned_spec asid
  refine ⟨by rw [hrest], fun hart => .inl (by rw [hrest]), ?_, htags, hsaturated,
    fun entry left h => ?_, by simp, fun frame => ?_, fun frame h => by rw [hrest]; exact h,
    fun frame h => .inr (hkept frame h), by simp,
    by simp⟩
  · rw [hrest]
    exact Section.requeue_of_silent (r := .none) trivial _ _
  · rw [hcall entry left h]
    exact hmarked
  · rw [hrest, elim_some, hframes]
    rfl

/-- **Every section** of every call does what `Section` says. -/
theorem section_advance (w : World) (me : Nat) (call : Call) :
    Section w call (w.advance me call).1 (w.advance me call).2.1 (w.advance me call).2.2 := by
  cases call with
  | defer | deferTags | check | finish | query | queryTags | service | serviceLoaded =>
    simp only [advance]
    split <;> exact .look trivial rfl (by simp [kept])
  | place r => exact section_place w me r
  | deferFull asid =>
    exact section_mark w asid (w.markAbandoned asid).abandonedFrames rfl (fun _ h => h) (by simp)
  | deferQuarantine _ reason => exact section_quarantine w reason rfl rfl rfl (by simp)
  | reap turns =>
    cases turns with
    | zero => exact .look trivial rfl (by simp [kept])
    | succ =>
      simp only [advance]
      split
      · exact .look trivial rfl (by simp [kept])
      · split
        · exact .look trivial rfl (by simp [kept])
        · split <;> exact .look trivial rfl (by simp [kept])
  | reissue asid left => exact section_reissue w me asid left
  | complete asid left =>
    simp only [advance]
    split
    · exact .look trivial rfl (by simp [kept])
    next entry hfind =>
    obtain ⟨hasid, hconfirmed⟩ : entry.asid = asid ∧ tagEpochsConfirmed w.mail entry = true := by
      simpa using find?_some hfind
    exact .requeue (.erase hfind hasid (.inl ⟨rfl, hconfirmed⟩)) (count_deferred_eraseP hfind) rfl
      (by simp) rfl (by simp [kept])
  | drop _ frames =>
    cases frames with
    | nil => exact .look trivial rfl (by simp [kept])
    | cons frame frames =>
      simp only [advance]
      refine ⟨rfl, fun _ => .inl rfl, .refl (by simp), fun _ h => h, fun h => h, by simp, by simp,
        fun other => ?_, fun _ h => h, by simp [kept], by simp, fun other h => ?_⟩
      · simp only [settled, elim_some, Call.frames, count_cons]
        omega
      · obtain rfl : frame = other := h
        exact mem_cons_self
  | note asid left => exact section_note w me asid left
  | giveUp entry =>
    refine section_mark w entry.asid _ rfl (fun _ h => h) ?_
    rintro other turns ⟨⟩
    rfl
  | reapQuarantine entry => exact section_quarantine w entry.reason rfl rfl rfl (by simp)
  | queryDeferred => exact .look trivial rfl (by simp [kept])
  | serviceFlushed hart =>
    simp only [advance]
    refine ⟨rfl, fun other => ?_, .refl (by simp), fun _ h => h, fun h => h, by simp, by simp, fun _ => rfl,
      fun _ h => h, by simp [kept], by simp, by simp⟩
    by_cases h : other = hart
    · subst h
      simp
    · simp [h]

variable {i : Nat} {call : Call}

theorem mem_resume (h : call' ∈ (w.resume i next).calls) : call' ∈ w.calls ∨ next = some call' := by
  cases next with
  | none => exact .inl (mem_of_mem_eraseIdx h)
  | some =>
    rcases mem_or_eq_of_mem_set h with hmem | rfl
    · exact .inl hmem
    · exact .inr rfl

variable (hcall : w.calls[i]? = some call)

include hcall

theorem resume_perm (next : Option Call) :
    ∃ rest, w.calls.Perm (call :: rest) ∧ (w.resume i next).calls.Perm (next.toList ++ rest) := by
  obtain ⟨hi, rfl⟩ := List.getElem?_eq_some_iff.mp hcall
  refine ⟨w.calls.eraseIdx i, (getElem_cons_eraseIdx_perm hi).symm, ?_⟩
  cases next with
  | none => exact .refl _
  | some call =>
    have hset := getElem_cons_eraseIdx_perm (l := w.calls.set i call) (by simpa using hi)
    rw [getElem_set_self, eraseIdx_set_eq] at hset
    exact hset.symm

theorem mem_resume_of_mem (next : Option Call)
    (h : call' ∈ w.calls) : call' ∈ (w.resume i next).calls ∨ call' = call := by
  obtain ⟨_, hold, hnew⟩ := resume_perm hcall next
  rcases mem_cons.mp (hold.mem_iff.mp h) with rfl | hrest
  · exact .inr rfl
  · exact .inl (hnew.mem_iff.mpr (mem_append_right _ hrest))

theorem next_mem_resume : call' ∈ (w.resume i (some call')).calls := by
  obtain ⟨_, -, hnew⟩ := resume_perm hcall (some call')
  exact hnew.mem_iff.mpr mem_cons_self

theorem count_resume (next : Option Call) (frame : Nat) :
    ((w.resume i next).calls.flatMap frames).count frame + call.frames.count frame =
      (w.calls.flatMap frames).count frame + (next.elim [] frames).count frame := by
  obtain ⟨_, hold, hnew⟩ := resume_perm hcall next
  have hold' := (hold.flatMap_right frames).count_eq frame
  have hnew' := (hnew.flatMap_right frames).count_eq frame
  cases next with
  | none =>
    simp only [toList_none, nil_append, flatMap_cons, count_append,
      elim_none, count_nil] at hold' hnew' ⊢
    omega
  | some =>
    simp only [toList_some, singleton_append, flatMap_cons, count_append,
      elim_some] at hold' hnew' ⊢
    omega

omit hcall

end World

/-! ## every step -/

/-- What a step of the component may do. -/
structure Change (r : Response) (w w' : World) : Prop where
  complete : ∀ hart, w'.mail.complete hart = w.mail.complete hart ∨
    r = .published hart (w'.mail.complete hart)
  queue : Requeue r w.mail w.deferred w'.deferred
  tags : ∀ asid ∈ w.abandonedTags, asid ∈ w'.abandonedTags
  saturated : w.abandonedSaturated = true → w'.abandonedSaturated = true
  givingUp : ∀ asid, w.GivingUp asid → w'.GivingUp asid ∨ w'.Abandoned asid
  gaveUp : ∀ asid frames, r = .gaveUp asid frames →
    w'.GivingUp asid ∧ ∀ frame ∈ frames, w'.Keeps frame
  owned : ∀ frame, w'.owned frame = w.owned frame
  keeps : ∀ frame, w.Keeps frame → w'.Keeps frame
  quarantines : ∀ frame, r.Quarantines frame → w'.Keeps frame
  handsBack : ∀ frame, r.HandsBack frame → frame ∈ w'.free

namespace Change

variable {w w' : World} {r : Response}

theorem of_section (hcall : w.calls[i]? = some call)
    (h : Section w call r next w') : Change r w (w'.resume i next) := by
  have hcall' : w'.calls[i]? = some call := by rw [h.calls, hcall]
  refine ⟨?_, ?_, ?_, ?_, fun asid => ?_, fun asid frames hr => ?_, fun frame => ?_,
    fun frame => ?_, fun frame hr => ?_, ?_⟩
  · cases next <;> exact h.complete
  · cases next <;> exact h.queue
  · cases next <;> exact h.tags
  · cases next <;> exact h.saturated
  · rintro ⟨entry, left, hmem, rfl⟩
    rw [← h.calls] at hmem
    rcases mem_resume_of_mem hcall' next hmem with hstays | rfl
    · exact .inl ⟨entry, left, hstays, rfl⟩
    · have hmarked := h.marks entry left rfl
      cases next <;> exact .inr hmarked
  · obtain ⟨entry, left, rfl, rfl, rfl⟩ := h.gaveUp asid frames hr
    have hmem : giveUp entry left ∈ (w'.resume i (some (.giveUp entry left))).calls :=
      next_mem_resume hcall'
    exact ⟨⟨entry, left, hmem, rfl⟩, fun frame hframe => .inr ⟨_, hmem, hframe⟩⟩
  · have hsettled := h.frames frame
    have hcount := count_resume hcall' next frame
    have hsame : (w'.resume i next).settled frame = w'.settled frame := by cases next <;> rfl
    rw [h.calls] at hcount
    unfold World.owned
    omega
  · rintro (hq | ⟨other, hmem, hframe⟩)
    · have hq' := h.quarantined frame hq
      cases next <;> exact .inl hq'
    · rw [← h.calls] at hmem
      rcases mem_resume_of_mem hcall' next hmem with hstays | rfl
      · exact .inr ⟨other, hstays, hframe⟩
      rcases h.kept frame hframe with hq | hnext
      · cases next <;> exact .inl hq
      · cases next with
        | none => contradiction
        | some call => exact .inr ⟨call, next_mem_resume hcall', hnext⟩
  · have hq := h.quarantines frame hr
    cases next <;> exact .inl hq
  · cases next <;> exact h.handsBack

/-- A step that enters a call, or changes only what the outside owns. -/
theorem of_outside {held free : List Nat} {mail : Mailboxes} {calls entered : List Call}
    (hw : w' = { w with mail, held, free, calls }) (hcalls : calls = w.calls ++ entered)
    (hcomplete : mail.complete = w.mail.complete)
    (howned : ∀ frame, free.count frame + held.count frame +
      (entered.flatMap frames).count frame = w.free.count frame + w.held.count frame)
    (hr : r = .none ∨ ∃ frame, r = .dropped frame ∧ frame ∈ free) : Change r w w' := by
  subst hw hcalls
  have hkeep : ∀ call ∈ w.calls, call ∈ w.calls ++ entered := fun _ => mem_append_left _
  refine ⟨fun hart => .inl (congrFun hcomplete hart), ?_, fun _ h => h, fun h => h, ?_, ?_,
    fun frame => ?_, ?_, ?_, ?_⟩
  · rcases hr with rfl | ⟨frame, rfl, -⟩ <;> exact .refl (by simp)
  · rintro asid ⟨entry, left, hmem, hasid⟩
    exact .inl ⟨entry, left, hkeep _ hmem, hasid⟩
  · rintro asid frames rfl
    rcases hr with hr | ⟨frame, hr, -⟩ <;> contradiction
  · have := howned frame
    simp only [World.owned, World.settled, flatMap_append, count_append]
    omega
  · rintro frame (hq | ⟨call, hmem, hframe⟩)
    · exact .inl hq
    · exact .inr ⟨call, hkeep _ hmem, hframe⟩
  · rintro frame h
    rcases hr with rfl | ⟨frame', rfl, -⟩ <;> contradiction
  · rintro frame h
    rcases hr with rfl | ⟨frame', rfl, hfree⟩
    · contradiction
    · obtain rfl : frame' = frame := h
      exact hfree

end Change

/-- **Every step** is a change. -/
theorem change_of_step {w : World} (h : step w op = some (r, w')) : Change r w w' := by
  cases op with
  | defer =>
    simp only [step] at h
    split at h
    · next hheld =>
      cases h
      refine .of_outside rfl rfl rfl (fun frame => ?_) (.inl rfl)
      have := (subperm_append_diff_self_of_count_le
        fun a _ => Subperm.count_le hheld a).count_eq frame
      simp only [count_append] at this
      simp only [flatMap_cons, flatMap_nil, append_nil, frames]
      omega
    · contradiction
  | reap | query | service =>
    cases h
    exact .of_outside rfl rfl rfl (fun _ => rfl) (.inl rfl)
  | advance i me =>
    simp only [step] at h
    split at h
    · contradiction
    · next call hcall =>
      cases h
      exact .of_section hcall (w.section_advance me call)
  | request hart =>
    cases h
    exact .of_outside rfl (append_nil _).symm (w.mail.requestTlbFlush_complete hart) (fun _ => rfl)
      (.inl rfl)
  | bringUp =>
    cases h
    exact .of_outside rfl (append_nil _).symm rfl (fun _ => rfl) (.inl rfl)
  | allocate =>
    simp only [step] at h
    split at h
    · next hfree =>
      cases h
      refine .of_outside rfl (append_nil _).symm rfl (fun other => ?_) (.inl rfl)
      have := (perm_cons_erase hfree).count_eq other
      simp only [count_cons, flatMap_nil, count_nil] at this ⊢
      omega
    · contradiction
  | dropFrame frame =>
    simp only [step] at h
    split at h
    · next hheld =>
      cases h
      refine .of_outside rfl (append_nil _).symm rfl (fun other => ?_)
        (.inr ⟨frame, rfl, mem_cons_self⟩)
      have := (perm_cons_erase hheld).count_eq other
      simp only [count_cons, flatMap_nil, count_nil] at this ⊢
      omega
    · contradiction

end Cellos.Memory.Deferred
