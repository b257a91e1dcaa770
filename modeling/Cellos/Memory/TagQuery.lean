import Cellos.Memory.DeferredRuns

/-!
# Cellos.Memory.TagQuery

The query `tag_invalidation_unconfirmed` against the reaper.

The query reads the saturation flag, then `ABANDONED_TAGS`, then `DEFERRED`, each under
its own lock.  When the reaper gives up on a tag, `note_attempt` takes the entry out of
`DEFERRED` in one section and marks the tag in a later one.  Between the two the tag is in
neither table, and a query that overlaps the move answers `false` for a tag that no hart
confirmed.  A query that does not overlap a give-up of its tag is right.
-/

namespace Cellos.Memory.Deferred

open Lib List

/-! ## what a section of a call leads to -/

namespace World

variable {w : World} {asid : Nat}

theorem call_of_next_queryTags (h : (w.advance me call).2.1 = some (.queryTags asid)) :
    call = .query asid ∧ w.abandonedSaturated = false := by
  cases call <;> simp only [advance] at h <;> (repeat' split at h) <;> simp_all

theorem call_of_next_queryDeferred (h : (w.advance me call).2.1 = some (.queryDeferred asid)) :
    call = .queryTags asid ∧ asid ∉ w.abandonedTags := by
  cases call <;> simp only [advance] at h <;> (repeat' split at h) <;> simp_all

/-- Only `note_attempt` gives up, on an entry whose budget is spent. -/
theorem call_of_next_giveUp (h : (w.advance me call).2.1 = some (.giveUp entry left)) :
    call = .note entry.asid left ∧
      ∃ old ∈ w.deferred, old.asid = entry.asid ∧ reaperMaxAttempts ≤ old.attempts + 1 := by
  cases call with
  | note asid turns =>
    simp only [advance, noteAttempt] at h
    cases hfind : w.deferred.find? (·.asid == asid) with
    | none => simp [hfind] at h
    | some old =>
      have hasid : old.asid = asid := by simpa using List.find?_some hfind
      by_cases hspent : reaperMaxAttempts ≤ old.attempts + 1
      · obtain ⟨rfl, rfl⟩ := by simpa [hfind, hspent] using h
        exact ⟨by rw [← hasid]; rfl, old, mem_of_find?_eq_some hfind, rfl, hspent⟩
      · simp [hfind, hspent] at h
  | _ =>
    simp only [advance] at h
    (repeat' split at h) <;> simp_all

/-- What a query answers at each of its reads. -/
theorem call_of_answered (h : (w.advance me call).1 = .answered asid b) :
    (b = true ∧ (call = .query asid ∨ call = .queryTags asid)) ∨ (call = .queryDeferred asid ∧
        b = w.deferred.any fun entry => entry.asid == asid && !tagEpochsConfirmed w.mail entry) := by
  cases call with
  | queryDeferred tag =>
    obtain ⟨rfl, hb⟩ : tag = asid ∧ _ = b := by simpa [advance] using h
    exact .inr ⟨rfl, hb.symm⟩
  | _ =>
    simp only [advance] at h
    (repeat' split at h) <;> simp_all

/-- A query of the tag is past its first read. -/
def Querying (w : World) (asid : Nat) : Prop :=
  Call.queryTags asid ∈ w.calls ∨ Call.queryDeferred asid ∈ w.calls

end World

open World

/-- The first section of a call. -/
def Call.Starts : Call → Prop
  | .defer _ | .reap _ _ | .query _ | .service _ => True
  | _ => False

variable {w : World}

/-- A call in flight after a step was in flight before, has just been entered, or is the next
section of the call that took the step. -/
theorem call_of_step (h : step w op = some (r, w')) (hmem : call' ∈ w'.calls) :
    call' ∈ w.calls ∨ call'.Starts ∨ ∃ i me call, op = .advance i me ∧ w.calls[i]? = some call ∧
      (w.advance me call).2.1 = some call' := by
  cases op with
  | advance i me =>
    simp only [step] at h
    split at h
    · contradiction
    next call hcall =>
    cases h
    rcases mem_resume hmem with hold | hnext
    · rw [(w.section_advance me call).calls] at hold
      exact .inl hold
    · exact .inr (.inr ⟨i, me, call, rfl, hcall, hnext⟩)
  | _ =>
    simp only [step] at h
    (try split at h) <;> simp only [Option.some.injEq, Prod.mk.injEq, reduceCtorEq] at h
    all_goals
      obtain ⟨-, rfl⟩ := h
      simp only [enter, mem_append, mem_singleton] at hmem
      grind [Call.Starts]

variable {asid : Nat}

/-- An answer is given by a section of a query in flight. -/
theorem answered_of_step
    (h : step w op = some (.answered asid b, w')) : b = true ∨ (.queryDeferred asid ∈ w.calls ∧
      b = w.deferred.any fun entry => entry.asid == asid && !tagEpochsConfirmed w.mail entry) := by
  cases op with
  | advance i me =>
    simp only [step] at h
    split at h
    · contradiction
    next call hcall =>
    obtain ⟨hr, -⟩ : (w.advance me call).1 = .answered asid b ∧ _ = w' := by simpa using h
    rcases call_of_answered hr with ⟨hb, -⟩ | ⟨rfl, hb⟩
    · exact .inl hb
    · exact .inr ⟨mem_of_getElem? hcall, hb⟩
  | _ =>
    simp only [step] at h
    (try split at h) <;> simp at h

/-! ## queries apart from give-ups -/

/-- A query of a tag does not start while the reaper has the tag's entry in its hands, and the
reaper does not take out an entry whose budget is spent while its tag is being queried. -/
def Apart (w : World) : Op → Prop
  | .advance i _ =>
    match w.calls[i]? with
    | some (.query asid) => ¬ w.GivingUp asid
    | some (.note asid _) => ∀ entry ∈ w.deferred, entry.asid = asid →
        reaperMaxAttempts ≤ entry.attempts + 1 → ¬ w.Querying asid
    | _ => True
  | _ => True

/-- An epoch asked for on behalf of a tag was published, or an entry of the tag waits for it. -/
def Covered (rs : List Response) (w : World) (asid hart epoch : Nat) : Prop :=
  (∃ e, epoch ≤ e ∧ Response.published hart e ∈ rs) ∨
    ∃ entry ∈ w.deferred, entry.asid = asid ∧ epoch ≤ entry.epochs hart

/-- A tag's invalidation is unconfirmed: some hart was asked on its behalf and has not
published the epoch. -/
def Unconfirmed (rs : List Response) (asid : Nat) : Prop :=
  ∃ r ∈ rs, ∃ hart epoch, r.Asks asid hart epoch ∧ ∀ e, Response.published hart e ∈ rs → e < epoch

/-- What a query of a tag relies on, at each of its reads. -/
structure Answerable (rs : List Response) (w : World) : Prop where
  sound : Sound rs w
  asked : ∀ r ∈ rs, ∀ asid hart epoch, r.Asks asid hart epoch →
    Covered rs w asid hart epoch ∨ w.Abandoned asid ∨ w.GivingUp asid
  apart : ∀ asid, w.Querying asid → ¬ w.GivingUp asid
  tags : ∀ asid, Call.queryTags asid ∈ w.calls → ∀ r ∈ rs, ∀ hart epoch,
    r.Asks asid hart epoch → Covered rs w asid hart epoch ∨ asid ∈ w.abandonedTags
  deferred : ∀ asid, Call.queryDeferred asid ∈ w.calls → ∀ r ∈ rs, ∀ hart epoch,
    r.Asks asid hart epoch → Covered rs w asid hart epoch

section

variable
  {q : Response}

/-- An epoch stays covered until the reaper gives up on its tag. -/
theorem Covered.change (hs : Sound rs w) (hc : Change r w w') (hhart : hart < maxHarts)
    (hne : epoch ≠ 0) (h : Covered rs w asid hart epoch) :
    Covered (rs ++ [r]) w' asid hart epoch ∨ ∃ frames, r = .gaveUp asid frames := by
  rcases h with ⟨e, hle, hmem⟩ | ⟨entry, hmem, rfl, hle⟩
  · exact .inl (.inl ⟨e, hle, mem_append_left _ hmem⟩)
  rcases hc.queue.entries entry hmem with ⟨entry', hmem', hext⟩ | ⟨-, hconf⟩ | hr
  · exact .inl (.inr ⟨entry', hmem', hext.asid, hle.trans (hext.epochs hart)⟩)
  · obtain ⟨e, hle', hpub⟩ := hs.published_of_confirmed hconf hhart hne hle
    exact .inl (.inl ⟨e, hle', mem_append_left _ hpub⟩)
  · exact .inr ⟨entry.frames, hr⟩

theorem asks_append (hc : Change r w w') (hq : q ∈ rs ++ [r])
    (hask : q.Asks asid hart epoch) : Covered (rs ++ [r]) w' asid hart epoch ∨ q ∈ rs := by
  rcases mem_append.mp hq with hold | hnew
  · exact .inr hold
  · obtain rfl := mem_singleton.mp hnew
    exact .inl (.inr (hc.queue.asks asid hart epoch hask))

/-- A step that meets the condition does not give up on a tag that is being queried. -/
theorem not_givingUp_of_apart (hstep : step w op = some (r, w')) (hapart : Apart w op)
    (hquery : w.Querying asid) (h : ¬ w.GivingUp asid) : ¬ w'.GivingUp asid := by
  rintro ⟨entry, left, hmem, rfl⟩
  rcases call_of_step hstep hmem with hold | hstarts | ⟨_, _, _, rfl, hcall, hnext⟩
  · exact h ⟨entry, left, hold, rfl⟩
  · contradiction
  · obtain ⟨rfl, old, hold, hasid, hspent⟩ := call_of_next_giveUp hnext
    simp only [Apart, hcall] at hapart
    exact hapart old hold hasid hspent hquery

/-- Only a section of `note_attempt` takes an entry out to give it up. -/
theorem givingUp_of_advance
    (hstep : step w (.advance i me) = some (r, w')) (hcall : w.calls[i]? = some call)
    (hnote : ∀ tag left, call ≠ .note tag left) (h : w'.GivingUp asid) : w.GivingUp asid := by
  obtain ⟨entry, left, hmem, rfl⟩ := h
  rcases call_of_step hstep hmem with hold | hstarts | ⟨_, _, other, heq, hother, hnext⟩
  · exact ⟨entry, left, hold, rfl⟩
  · contradiction
  · cases heq
    obtain rfl : call = other := Option.some.inj (hcall.symm.trans hother)
    exact absurd (call_of_next_giveUp hnext).1 (hnote entry.asid left)

namespace Answerable

/-- No query overlaps a give-up after the step. -/
theorem apart_step (h : Answerable rs w) (hapart : Apart w op)
    (hstep : step w op = some (r, w')) (hquery : w'.Querying asid) : ¬ w'.GivingUp asid := by
  rcases hquery with hmem | hmem
  · rcases call_of_step hstep hmem with hold | hstarts | ⟨_, _, _, rfl, hcall, hnext⟩
    · exact not_givingUp_of_apart hstep hapart (.inl hold) (h.apart asid (.inl hold))
    · contradiction
    · obtain ⟨rfl, -⟩ := call_of_next_queryTags hnext
      simp only [Apart, hcall] at hapart
      exact fun hgiving => hapart (givingUp_of_advance hstep hcall (by simp) hgiving)
  · rcases call_of_step hstep hmem with hold | hstarts | ⟨_, _, _, rfl, hcall, hnext⟩
    · exact not_givingUp_of_apart hstep hapart (.inr hold) (h.apart asid (.inr hold))
    · contradiction
    · obtain ⟨rfl, -⟩ := call_of_next_queryDeferred hnext
      have hquery : w.Querying asid := .inl (mem_of_getElem? hcall)
      exact not_givingUp_of_apart hstep hapart hquery (h.apart asid hquery)

/-- While a tag is queried, what is covered stays covered. -/
theorem covered_step (h : Answerable rs w) (hapart : Apart w op)
    (hstep : step w op = some (r, w')) (hquery : w'.Querying asid)
    (hask : q.Asks asid hart epoch) (hcov : Covered rs w asid hart epoch) :
    Covered (rs ++ [r]) w' asid hart epoch := by
  have hc := change_of_step hstep
  obtain ⟨hhart, hne⟩ := Custody.asks_hart hask
  rcases hcov.change h.sound hc hhart hne with hcov' | ⟨frames, hr⟩
  · exact hcov'
  · exact absurd (hc.gaveUp asid frames hr).1 (h.apart_step hapart hstep hquery)

theorem step (h : Answerable rs w) (hapart : Apart w op)
    (hstep : Deferred.step w op = some (r, w')) : Answerable (rs ++ [r]) w' := by
  have hc := change_of_step hstep
  refine ⟨h.sound.change hc, ?_, fun asid => h.apart_step hapart hstep, ?_, ?_⟩
  · intro q hq asid hart epoch hask
    rcases asks_append hc hq hask with hcov | hold
    · exact .inl hcov
    obtain ⟨hhart, hne⟩ := Custody.asks_hart hask
    rcases h.asked q hold asid hart epoch hask with hcov | hmarked | hgiving
    · rcases hcov.change h.sound hc hhart hne with hcov' | ⟨frames, hr⟩
      · exact .inl hcov'
      · exact .inr (.inr (hc.gaveUp asid frames hr).1)
    · exact .inr (.inl (hmarked.imp hc.saturated (hc.tags asid)))
    · exact .inr ((hc.givingUp asid hgiving).symm)
  · intro asid hmem q hq hart epoch hask
    rcases asks_append hc hq hask with hcov | hold
    · exact .inl hcov
    have hkeep := fun hcov => h.covered_step hapart hstep (.inl hmem) hask hcov
    rcases call_of_step hstep hmem with hmem₀ | hstarts | ⟨_, _, _, rfl, hcall, hnext⟩
    · exact (h.tags asid hmem₀ q hold hart epoch hask).imp hkeep (hc.tags asid)
    · contradiction
    -- the flag was read as false and nobody is giving the tag up
    obtain ⟨rfl, hflag⟩ := call_of_next_queryTags hnext
    simp only [Apart, hcall] at hapart
    rcases h.asked q hold asid hart epoch hask with hcov | (hsat | htag) | hgiving
    · exact .inl (hkeep hcov)
    · rw [hflag] at hsat
      contradiction
    · exact .inr (hc.tags asid htag)
    · exact absurd hgiving hapart
  · intro asid hmem q hq hart epoch hask
    rcases asks_append hc hq hask with hcov | hold
    · exact hcov
    refine h.covered_step hapart hstep (.inr hmem) hask ?_
    rcases call_of_step hstep hmem with hmem₀ | hstarts | ⟨_, _, _, rfl, hcall, hnext⟩
    · exact h.deferred asid hmem₀ q hold hart epoch hask
    · contradiction
    obtain ⟨rfl, htag⟩ := call_of_next_queryDeferred hnext
    rcases h.tags asid (mem_of_getElem? hcall) q hold hart epoch hask with hcov | hmarked
    · exact hcov
    · exact absurd hmarked htag

end Answerable

end

theorem answerable_of_run (h : run step (boot n) ops = some (rs, w))
    (hg : Guarded step Apart (boot n) ops) : Answerable rs w := by
  refine run_history_of_guarded (fun rs w op r w' hA => hA.step) h hg ?_
  refine ⟨sound_boot n, by simp, ?_, by simp [boot], by simp [boot]⟩
  simp [World.Querying, boot]

/-- **The query is right where it does not overlap a give-up**: then it answers `true` for a tag
whose invalidation is unconfirmed. -/
theorem query_true_of_apart (n : Nat) {ops : List Op} {rs : List Response} {w : World}
    (h : run step (boot n) ops = some (rs, w)) (hg : Guarded step Apart (boot n) ops) :
    ∀ past asid b rest, rs = past ++ .answered asid b :: rest → Unconfirmed past asid →
      b = true := by
  rintro past asid b rest rfl ⟨q, hq, hart, epoch, hask, hnot⟩
  have hat : (past ++ .answered asid b :: rest)[past.length]? = some (.answered asid b) := by simp
  obtain ⟨_, w₀, _, -, hbefore, hstep, -⟩ := run_get h hat
  rw [← take_append_drop past.length ops] at hg
  rw [take_left] at hbefore
  have hA := answerable_of_run hbefore (hg.append hbefore).1
  rcases answered_of_step hstep with hb | ⟨hmem, rfl⟩
  · exact hb
  obtain ⟨hhart, hne⟩ := Custody.asks_hart hask
  rcases hA.deferred asid hmem q hq hart epoch hask with
    ⟨e, hle, hpub⟩ | ⟨entry, hentry, hasid, hle⟩
  · have := hnot e hpub
    omega
  rw [any_eq_true]
  refine ⟨entry, hentry, ?_⟩
  cases hconf : tagEpochsConfirmed w₀.mail entry with
  | false => simp [hasid]
  | true =>
    obtain ⟨e, hle', hpub⟩ := hA.sound.published_of_confirmed hconf hhart hne hle
    have := hnot e hpub
    omega

/-! ## checking the condition on a run -/

instance (w : World) (asid : Nat) : Decidable (w.GivingUp asid) :=
  decidable_of_iff (∃ call ∈ w.calls, (match call with
      | .giveUp entry _ => entry.asid == asid
      | _ => false) = true) <| by
    constructor
    · rintro ⟨call, hmem, h⟩
      split at h
      · exact ⟨_, _, hmem, by simpa using h⟩
      · contradiction
    · rintro ⟨entry, left, hmem, rfl⟩
      exact ⟨_, hmem, by simp⟩

instance (w : World) (asid : Nat) : Decidable (w.Querying asid) :=
  decidable_of_iff (∃ call ∈ w.calls, (match call with
      | .queryTags tag | .queryDeferred tag => tag == asid
      | _ => false) = true) <| by
    constructor
    · rintro ⟨call, hmem, h⟩
      split at h
      · exact .inl (by simpa [← (beq_iff_eq.mp h : _ = asid)] using hmem)
      · exact .inr (by simpa [← (beq_iff_eq.mp h : _ = asid)] using hmem)
      · contradiction
    · rintro (hmem | hmem) <;> exact ⟨_, hmem, by simp⟩

instance (w : World) (op : Op) : Decidable (Apart w op) := by
  unfold Apart
  split
  · split <;> infer_instance
  · infer_instance

/-- A query while the tag's entry waits in the queue. -/
def queriedRun : List Op :=
  [.bringUp 1, .defer ⟨7, 3, [], "unmap unacknowledged", false⟩, .advance 0 0, .advance 0 0,
    .advance 0 0, .query 7, .advance 0 1, .advance 0 1, .advance 0 1]

/-- The tag was placed, hart 1 was asked its first epoch, and the last answer is the query's. -/
def asksBeforeQuery : List Response → Bool
  | [.none, .none, .none, .none, .placed 7 [] epochs, .none, .none, .none, .answered 7 _] =>
    epochs 1 == 1
  | _ => false

theorem query_true_of_apart_queriedRun :
    ∃ rs w past b, run step (boot 0) queriedRun = some (rs, w) ∧
      Guarded step Apart (boot 0) queriedRun ∧ rs = past ++ [.answered 7 b] ∧
      Unconfirmed past 7 ∧ b = true := by
  have hguard : Guarded step Apart (boot 0) queriedRun := by decide +kernel
  have hcheck : ((run step (boot 0) queriedRun).any fun out => asksBeforeQuery out.1) = true := by
    decide +kernel
  obtain ⟨⟨rs, w⟩, hrun, hcheck⟩ := (Option.any_eq_true _ _).mp hcheck
  unfold asksBeforeQuery at hcheck
  split at hcheck
  · next epochs b hrs =>
    have hepoch : epochs 1 = 1 := by simpa using hcheck
    have hsplit : rs = [.none, .none, .none, .none, .placed 7 [] epochs, .none, .none, .none] ++
        [.answered 7 b] := hrs
    have hunconfirmed : Unconfirmed
        [.none, .none, .none, .none, .placed 7 [] epochs, .none, .none, .none] 7 := by
      refine ⟨.placed 7 [] epochs, by simp, 1, 1, ⟨rfl, by decide, hepoch, by decide⟩, ?_⟩
      simp
    exact ⟨rs, w, _, b, hrun, hguard, hsplit, hunconfirmed,
      query_true_of_apart 0 hrun hguard _ 7 b [] hsplit hunconfirmed⟩
  · contradiction

/-! ## the window -/

/-- A tag whose hart is silent, after some attempts of the reaper. -/
structure Stalled (asid attempts : Nat) (w : World) : Prop where
  calls : w.calls = []
  marks : w.abandonedTags = [] ∧ w.abandonedSaturated = false
  silent : w.mail.complete 1 = 0
  waits : ∃ entry, w.deferred = [entry] ∧ entry.asid = asid ∧ entry.attempts = attempts ∧
    entry.epochs 1 ≠ 0

/-- A call of the reaper from the timer. -/
def reapRound : List Op := [.reap, .advance 0 0, .advance 0 0, .advance 0 0, .advance 0 0]

theorem not_confirmed_of_silent (hsilent : m.complete 1 = 0) (hasked : entry.epochs 1 ≠ 0) :
    tagEpochsConfirmed m entry = false := by
  simp [tagEpochsConfirmed, maxHarts, range_succ, Mailboxes.tlbFlushCompleted, hsilent, hasked]

/-- A round of the reaper counts one attempt and nothing is published. -/
theorem Stalled.round (h : Stalled asid k w) (hk : k + 1 < reaperMaxAttempts) :
    ∃ rs w', run step w reapRound = some (rs, w') ∧ Stalled asid (k + 1) w' ∧
      ∀ hart e, .published hart e ∉ rs := by
  obtain ⟨hcalls, ⟨htags, hsat⟩, hsilent, entry, hdeferred, rfl, rfl, hasked⟩ := h
  have hnot := not_confirmed_of_silent hsilent hasked
  have hbudget : ¬ reaperMaxAttempts ≤ entry.attempts + 1 := by omega
  have hcomplete := w.mail.issueTagEpochs_complete 0
  by_cases hreissue : entry.attempts % reaperReissueEvery = 0
  · simp [reapRound, run, step, enter, resume, advance, nextStep,
      requestTagEpochs, noteAttempt, updateFirst, DeferredRelease.ask,
      DeferredRelease.tried, reaperEntriesPerCall, hcalls, hdeferred, hreissue, hbudget]
    refine ⟨rfl, ⟨htags, hsat⟩, by rw [hcomplete, hsilent], _, rfl, rfl, rfl, ?_⟩
    simp only
    omega
  · simp [reapRound, run, step, enter, resume, advance, nextStep,
      noteAttempt, updateFirst, DeferredRelease.tried, reaperEntriesPerCall, hcalls,
      hdeferred, hreissue, hbudget, hnot]
    exact ⟨rfl, ⟨htags, hsat⟩, hsilent, _, rfl, rfl, rfl, hasked⟩

theorem Stalled.rounds (n : Nat) (h : Stalled asid k w) (hk : k + n < reaperMaxAttempts) :
    ∃ rs w', run step w (List.replicate n reapRound).flatten = some (rs, w') ∧
      Stalled asid (k + n) w' ∧ ∀ hart e, .published hart e ∉ rs := by
  induction n generalizing k w with
  | zero => exact ⟨[], w, rfl, h, by simp⟩
  | succ n ih =>
    obtain ⟨rs₁, w₁, h₁, hs₁, hp₁⟩ := h.round (by omega)
    obtain ⟨rs₂, w₂, h₂, hs₂, hp₂⟩ := ih hs₁ (by omega)
    refine ⟨rs₁ ++ rs₂, w₂, ?_, ?_, ?_⟩
    · exact run_append.mpr ⟨rs₁, w₁, rs₂, h₁, h₂, rfl⟩
    · rwa [show k + (n + 1) = k + 1 + n by omega]
    · intro hart e hmem
      rcases mem_append.mp hmem with hmem | hmem
      · exact hp₁ hart e hmem
      · exact hp₂ hart e hmem

/-- At the end of the budget a query runs between the two sections of the give-up. -/
theorem Stalled.missed (h : Stalled asid (reaperMaxAttempts - 1) w) :
    ∃ rs w', run step w [.reap, .advance 0 0, .advance 0 0, .advance 0 0,
        .query asid, .advance 1 1, .advance 1 1, .advance 1 1] =
      some (rs ++ [.answered asid false], w') ∧ ∀ hart e, .published hart e ∉ rs := by
  obtain ⟨hcalls, ⟨htags, hsat⟩, hsilent, entry, hdeferred, rfl, hattempts, hasked⟩ := h
  have hnot := not_confirmed_of_silent hsilent hasked
  have hreissue : ¬ entry.attempts % reaperReissueEvery = 0 := by
    rw [hattempts]
    decide
  have hbudget : reaperMaxAttempts ≤ entry.attempts + 1 := by
    rw [hattempts]
    decide
  refine ⟨[.none, .none, .none, .gaveUp entry.asid entry.frames, .none, .none, .none], ?_, ?_, ?_⟩
  rotate_left
  · simp [run, step, enter, resume, advance, nextStep, noteAttempt,
      DeferredRelease.tried, reaperEntriesPerCall, hcalls, hdeferred, hreissue, hbudget, hnot,
      htags, hsat]
    rfl
  · simp

/-- Tag 7 waits for hart 1, which stays silent; the reaper gives up on it, and between its two
sections the tag is queried. -/
def abandonedRun : List Op :=
  [.bringUp 1, .defer ⟨7, 3, [], "unmap unacknowledged", false⟩, .advance 0 0, .advance 0 0,
    .advance 0 0] ++ (List.replicate (reaperMaxAttempts - 1) reapRound).flatten ++
  [.reap, .advance 0 0, .advance 0 0, .advance 0 0,
    .query 7, .advance 1 1, .advance 1 1, .advance 1 1]

theorem query_misses_abandoned_tag : ∃ rs w past, run step (boot 0) abandonedRun = some (rs, w) ∧
      rs = past ++ [.answered 7 false] ∧ Unconfirmed past 7 := by
  obtain ⟨epochs, w₀, h₀, hepoch, hstalled⟩ : ∃ epochs w₀, run step (boot 0)
      [.bringUp 1, .defer ⟨7, 3, [], "unmap unacknowledged", false⟩, .advance 0 0, .advance 0 0,
        .advance 0 0] = some ([.none, .none, .none, .none, .placed 7 [] epochs], w₀) ∧
      epochs 1 = 1 ∧ Stalled 7 0 w₀ :=
    ⟨_, _, rfl, rfl, rfl, ⟨rfl, rfl⟩, rfl, _, rfl, rfl, rfl, by decide⟩
  obtain ⟨rs₁, w₁, h₁, hs₁, hp₁⟩ := hstalled.rounds (reaperMaxAttempts - 1) (by decide)
  obtain ⟨rs₂, w₂, h₂, hp₂⟩ := hs₁.missed
  have hrun : run step (boot 0) abandonedRun = some
      ([.none, .none, .none, .none, .placed 7 [] epochs] ++ rs₁ ++ (rs₂ ++ [.answered 7 false]),
        w₂) :=
    run_append.mpr ⟨_, w₁, _, run_append.mpr ⟨_, w₀, _, h₀, h₁, rfl⟩, h₂, rfl⟩
  refine ⟨_, w₂, [.none, .none, .none, .none, .placed 7 [] epochs] ++ rs₁ ++ rs₂, hrun,
    by simp, .placed 7 [] epochs, by simp, 1, 1, ⟨rfl, by decide, hepoch, by decide⟩, ?_⟩
  intro e hpub
  simp only [mem_append, mem_cons, reduceCtorEq, not_mem_nil, or_false, false_or] at hpub
  rcases hpub with hpub | hpub
  · exact absurd hpub (hp₁ 1 e)
  · exact absurd hpub (hp₂ 1 e)

end Cellos.Memory.Deferred
