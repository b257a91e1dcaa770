import Cellos.Authority.State

/-!
# Cellos.Authority.Writes

What the operations of the authority have in common: they change the state, hand it to the
store, and end.  So after an operation the store holds the state (`Saved`), or its counter
domain is sealed, or nothing has changed.
-/

namespace Cellos.Authority

open Lib

/-! ## the store -/

open ProtectedStore

variable {store : ProtectedStore}

theorem ProtectedStore.takes_eq_true (h : store.takes expected next = true) :
    store.sealed = false ∧ store.revision = expected := by
  unfold takes at h
  simp only [Bool.and_eq_true, Bool.not_eq_true', beq_iff_eq] at h
  exact ⟨h.1.1.1.2, h.1.1.2⟩

theorem ProtectedStore.sealOnConflict_of_cut (h : store.cut = false) :
    store.sealOnConflict = { store with sealed := true } := by
  unfold sealOnConflict dead
  rw [h]
  rfl

@[simp] theorem ProtectedStore.sealOnConflict_record (store : ProtectedStore) :
    store.sealOnConflict.record = store.record := by
  unfold sealOnConflict
  split <;> rfl

@[simp] theorem ProtectedStore.sealOnConflict_offers (store : ProtectedStore) :
    store.sealOnConflict.offers = store.offers := by
  unfold sealOnConflict
  split <;> rfl

theorem ProtectedStore.sealOnConflict_sealed
    (h : store.sealed = true) : store.sealOnConflict.sealed = true := by
  unfold sealOnConflict
  split
  · exact h
  · rfl

/-! ## persisting -/

/-- The store after the state has been handed to it. -/
def AuthorityState.offered (s : AuthorityState) (revision : UInt64) (stored : Bool) :
    ProtectedStore :=
  { s.store with
    record := if stored then some (s.snapshot revision) else s.store.record
    answers := s.store.answers.tail
    offers := ⟨s.store.record, s.store.sealed, s.snapshot revision, stored⟩ :: s.store.offers }

theorem get_run (rest : AuthorityState → Act α) (s : AuthorityState) :
    (get >>= rest) s = rest s s :=
  rfl

theorem modify_run (f : AuthorityState → AuthorityState) (rest : Unit → Act α)
    (s : AuthorityState) : (modify f >>= rest) s = rest () (f s) :=
  rfl

/-- **Persisting**: the state is stored under the next revision, or it is refused, or there is
no next revision. -/
theorem persist_run (s : AuthorityState) :
    (∃ revision, checkedSucc s.protectedRevision = some revision ∧ s.store.sealed = false ∧
      s.store.revision = s.protectedRevision ∧
      persist s = .ok () (s.persisted revision (s.offered revision true))) ∨
    (∃ revision, checkedSucc s.protectedRevision = some revision ∧
      persist s = .error .persistenceFailure (s.conflicted (s.offered revision false))) ∨
    persist s = .error .persistenceFailure (s.conflicted s.store) := by
  cases hnext : checkedSucc s.protectedRevision with
  | none =>
    right; right
    rw [persist, get_run, hnext]
    rfl
  | some revision =>
    have hrun := congrFun persist.eq_1 s
    rw [get_run, hnext] at hrun
    dsimp only [compareAndSwap] at hrun
    cases htake : s.store.takes s.protectedRevision (s.snapshot revision) with
    | true =>
      left
      obtain ⟨hopen, hrev⟩ := takes_eq_true htake
      rw [htake] at hrun
      exact ⟨revision, rfl, hopen, hrev, hrun⟩
    | false =>
      right; left
      rw [htake] at hrun
      exact ⟨revision, rfl, hrun⟩

variable {α : Type}

/-- Sealing stores the sealed state, and fails either way. -/
theorem sealWith_run (fault : AuthorityFault) (s : AuthorityState) : (sealWith fault : Act α) s =
      match persist s.asSealed with
      | .ok _ s' => .error fault s'
      | .error _ s' => .error .persistenceFailure s' := by
  show EStateM.bind (EStateM.tryCatch persist _) _ s.asSealed = _
  unfold EStateM.bind EStateM.tryCatch
  cases persist s.asSealed <;> rfl

theorem sealWith_bind {β : Type} (fault : AuthorityFault) (rest : β → Act α) (s : AuthorityState) :
    ((sealWith fault : Act β) >>= rest) s = (sealWith fault : Act α) s := by
  show EStateM.bind (sealWith fault) rest s = _
  unfold EStateM.bind
  rw [sealWith_run, sealWith_run]
  cases persist s.asSealed <;> rfl

theorem ending_sealWith (fault : AuthorityFault) (s : AuthorityState) :
    ending ((sealWith fault : Act α) s) = ending (persist s.asSealed) := by
  rw [sealWith_run]
  cases persist s.asSealed <;> rfl

theorem ending_persistValue (value : α) (s : AuthorityState) :
    ending (persistValue value s) = ending (persist s) := by
  show ending (EStateM.bind persist _ s) = _
  unfold EStateM.bind
  cases persist s <;> rfl

/-- The store holds the state, or its counter domain is sealed. -/
def Saved (s : AuthorityState) : Prop :=
  s.store.sealed = true ∨ s.store.record = some (s.snapshot s.protectedRevision)

theorem persist_saved (hlive : s.store.cut = false) : Saved (ending (persist s)) := by
  obtain ⟨revision, -, -, -, hrun⟩ | ⟨revision, -, hrun⟩ | hrun := persist_run s
  · rw [hrun]
    exact .inr rfl
  · rw [hrun]
    have hcut : (s.offered revision false).cut = false := hlive
    simp [Saved, ending, AuthorityState.conflicted, sealOnConflict_of_cut hcut]
  · rw [hrun]
    simp [Saved, ending, AuthorityState.conflicted, sealOnConflict_of_cut hlive]

theorem persist_ok_cut (h : persist s = .ok () s') : s'.store.cut = s.store.cut := by
  obtain ⟨_, -, -, -, hrun⟩ | ⟨_, -, hrun⟩ | hrun := persist_run s
  · rw [hrun] at h
    cases h
    rfl
  · rw [hrun] at h
    contradiction
  · rw [hrun] at h
    contradiction

/-! ## starting up -/

/-- **A device comes up** over an unsealed store: new, or from a record that verifies. -/
theorem startUp_cases (h : startUp store config verified = some s) : store.sealed = false ∧
      ((store.record = none ∧ s = .new store config) ∨
        ∃ record, store.record = some record ∧ s = .restore store record config.bootChallenge) := by
  unfold startUp at h
  split at h
  · contradiction
  next hsealed =>
  refine ⟨by simpa using hsealed, ?_⟩
  split at h
  · next hrecord =>
    rw [Option.some.injEq] at h
    exact .inl ⟨hrecord, h.symm⟩
  · next record hrecord =>
    unfold verifyProtectedRecord at h
    split at h
    · contradiction
    next heq =>
    split at heq
    · contradiction
    rw [Except.ok.injEq] at heq
    rw [Option.some.injEq] at h
    subst heq
    exact .inr ⟨record, hrecord, h.symm⟩

/-! ## the checks at the head of a request -/

/-- The state that remembers a request's sequence number. -/
def AuthorityState.sequenced (s : AuthorityState) (sequence : UInt64) : AuthorityState :=
  { s with lastRequestSequence := sequence }

variable (context : RequestContext) (rest : Unit → Act α)

/-- **Identity and sequence**: a sealed authority refuses, a foreign or replayed request seals,
any other one is remembered. -/
theorem identityAndSequence_cases (s : AuthorityState) :
    (s.mode = .sealed ∧ (identityAndSequence context >>= rest) s = .error .sealed s) ∨
    (s.mode ≠ .sealed ∧ ∃ fault,
      (identityAndSequence context >>= rest) s = (sealWith fault : Act α) s) ∨
    (s.mode ≠ .sealed ∧ s.lastRequestSequence < context.sequence ∧
      (identityAndSequence context >>= rest) s = rest () (s.sequenced context.sequence)) := by
  by_cases hmode : s.mode = .sealed
  · left
    refine ⟨hmode, ?_⟩
    have hrun : identityAndSequence context s = .error .sealed s := by
      show (if s.mode = .sealed then _ else _ : Act Unit) s = _
      rw [if_pos hmode]
      rfl
    show EStateM.bind (identityAndSequence context) rest s = _
    unfold EStateM.bind
    rw [hrun]
  · right
    by_cases hid : (!constantTimeEq s.deviceId context.deviceId
        || !constantTimeEq s.authorityId context.authorityId) = true
    · left
      refine ⟨hmode, .identityMismatch, ?_⟩
      rw [← sealWith_bind .identityMismatch rest]
      apply run_bind_congr
      show (if s.mode = .sealed then _ else if _ then _ else _ : Act Unit) s = _
      rw [if_neg hmode, if_pos hid]
    · by_cases hseq : context.sequence ≤ s.lastRequestSequence
      · left
        refine ⟨hmode, .replay, ?_⟩
        rw [← sealWith_bind .replay rest]
        apply run_bind_congr
        show (if s.mode = .sealed then _ else if _ then _ else if _ then _ else _ : Act Unit) s = _
        rw [if_neg hmode, if_neg hid, if_pos hseq]
      · right
        refine ⟨hmode, by rwa [UInt64.not_le] at hseq, ?_⟩
        apply run_bind_ok
        show (if s.mode = .sealed then _ else if _ then _ else if _ then _ else _ : Act Unit) s = _
        rw [if_neg hmode, if_neg hid, if_neg hseq]
        rfl

/-- A request that does not belong to the open boot seals. -/
theorem checkBoot_cases (s : AuthorityState) :
    (checkBoot context >>= rest) s = (sealWith .challengeMismatch : Act α) s ∨
    (s.boot = .opened context.bootEpoch ∧ (checkBoot context >>= rest) s = rest () s) := by
  cases hboot : s.boot with
  | closed =>
    left
    rw [← sealWith_bind .challengeMismatch rest]
    apply run_bind_congr
    rw [checkBoot, get_run, hboot]
  | opened epoch =>
    have hrun : checkBoot context s =
        (if epoch = context.bootEpoch ∧ constantTimeEq s.bootChallenge context.challenge then
          pure () else sealWith .challengeMismatch : Act Unit) s := by
      rw [checkBoot, get_run, hboot]
    by_cases hok : epoch = context.bootEpoch ∧ constantTimeEq s.bootChallenge context.challenge
    · right
      rw [if_pos hok] at hrun
      exact ⟨by rw [hok.1], run_bind_ok hrun⟩
    · left
      rw [if_neg hok] at hrun
      rw [← sealWith_bind .challengeMismatch rest]
      exact run_bind_congr hrun

/-- **Context**: an authorised request belongs to the open boot; one that fails a check is refused
by a sealed authority and seals any other. -/
theorem authorizeContext_cases (s : AuthorityState) :
    (s.mode = .sealed ∧ (authorizeContext context >>= rest) s = .error .sealed s) ∨
    (s.mode ≠ .sealed ∧ ∃ fault sequence, s.lastRequestSequence ≤ sequence ∧
      (authorizeContext context >>= rest) s = (sealWith fault : Act α) (s.sequenced sequence)) ∨
    (s.mode ≠ .sealed ∧ s.boot = .opened context.bootEpoch ∧
      s.lastRequestSequence ≤ context.sequence ∧
      (authorizeContext context >>= rest) s = rest () (s.sequenced context.sequence)) := by
  have hassoc : authorizeContext context >>= rest =
      identityAndSequence context >>= fun _ => checkBoot context >>= rest := by
    unfold authorizeContext
    rw [bind_assoc]
  rw [hassoc]
  obtain ⟨hmode, hrun⟩ | ⟨hmode, fault, hrun⟩ | ⟨hmode, hseq, hrun⟩ :=
    identityAndSequence_cases context (fun _ => checkBoot context >>= rest) s
  · exact .inl ⟨hmode, hrun⟩
  · exact .inr (.inl ⟨hmode, fault, s.lastRequestSequence, UInt64.le_refl _, hrun⟩)
  have hle : s.lastRequestSequence ≤ context.sequence := UInt64.le_of_lt hseq
  rw [hrun]
  obtain hseal | ⟨hboot, hpass⟩ := checkBoot_cases context rest (s.sequenced context.sequence)
  · exact .inr (.inl ⟨hmode, .challengeMismatch, context.sequence, hle, hseal⟩)
  · exact .inr (.inr ⟨hmode, hboot, hle, hpass⟩)

/-- **Time**: a lease for the purpose is used up and stored as such; anything else seals. -/
theorem consumeLiveTime_cases (purpose : TimePurpose) (now : UInt64)
    (rest : Unit → Act α) (s : AuthorityState) :
    (∃ fault, (consumeLiveTime purpose now >>= rest) s = (sealWith fault : Act α) s) ∨
    ((∃ epoch sequence expiresAt id, s.time = .valid epoch sequence expiresAt id purpose ∧
      now < expiresAt) ∧ (consumeLiveTime purpose now >>= rest) s =
      (persist >>= rest) { s with time := .unavailable }) := by
  cases htime : s.time with
  | unavailable =>
    refine .inl ⟨.timeUnavailable, ?_⟩
    rw [← sealWith_bind .timeUnavailable rest]
    apply run_bind_congr
    rw [consumeLiveTime, get_run, htime]
  | valid _ _ expiresAt _ actual =>
    have hrun : consumeLiveTime purpose now s = (if now < expiresAt ∧ actual = purpose then (do
          set { s with time := .unavailable }
          persist) else sealWith .timeInvalid : Act Unit) s := by
      rw [consumeLiveTime, get_run, htime]
    by_cases hlive : now < expiresAt ∧ actual = purpose
    · rw [if_pos hlive] at hrun
      exact .inr ⟨⟨_, _, _, _, by rw [hlive.2], hlive.1⟩, run_bind_congr hrun⟩
    rw [if_neg hlive] at hrun
    refine .inl ⟨.timeInvalid, ?_⟩
    rw [← sealWith_bind .timeInvalid rest]
    exact run_bind_congr hrun

end Cellos.Authority
