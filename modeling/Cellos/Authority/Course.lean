import Cellos.Authority.Writes

/-!
# Cellos.Authority.Course

What an operation of the authority can do, said once.

An operation is refused, or answered from the state as it is, or it edits the state and hands
it to the store once.  Operations that use up a time lease hand over the used lease first and
then do the same again.  `perform_course` proves that this describes all operations; every
invariant of the machine is proved over its few cases.
-/

namespace Cellos.Authority

open Lib EStateM

variable {op : Op} {α : Type} {f : α → Value} {rest : Unit → Act α}
  {t e : AuthorityState}

/-! ## which operations ask for what -/

/-- The operation presents a request, so that its context is checked first, and not an intent or a
receipt that was handed out earlier. -/
def Op.asksContext : Op → Bool
  | .recordProviderPromotion .. | .finalizeCommit | .stageProfile _
  | .acknowledgeProfileUpload _ | .acknowledgeProfileChunk _
  | .rejectProfileUpload _ | .rejectProfileChunk _ => false
  | _ => true

/-- The operation is answered from the relay state as it is. -/
def answersAsIs (s : AuthorityState) : Op → Bool
  | .stageProfile verified =>
    match s.relay with
    | .staged intent => intent.matchesProfileRequest verified.request
    | _ => false
  | .acknowledgeProfileUpload intent => s.relay == .uploading intent
  | .acknowledgeProfileChunk intent =>
    s.relay == .uploading intent.upload && intent.mode == .verifyExisting
  | _ => false

/-- The operation presents what moves the relay state on. -/
def movesRelay (s : AuthorityState) : Op → Bool
  | .recordProviderPromotion intent receipt =>
    s.relay == .prepared intent && intent.matchesReceipt receipt
  | .finalizeCommit =>
    match s.relay with
    | .promoted _ _ => true
    | _ => false
  | .stageProfile verified =>
    match s.relay with
    | .uploading upload => upload.matchesProfileRequest verified.request
    | _ => false
  | .acknowledgeProfileUpload intent => s.startsUpload intent
  | .acknowledgeProfileChunk intent =>
    s.relay == .uploading intent.upload && intent.mode != .verifyExisting
      && intent.chunkIndex == intent.upload.nextIndex && intent.upload.advanced.isSome
  | _ => false

/-- The purpose and the clock of an operation that uses up a time lease. -/
def Op.lease : Op → Option (TimePurpose × UInt64)
  | .beginEnrollment _ now => some (.enrollment, now)
  | .authorizeTlsSignature _ now => some (.tlsCertificateVerify, now)
  | .authorizeActivePublicKey _ now => some (.relayHandshake, now)
  | _ => none

/-- The operation is about the time to be leased. -/
def Op.timely : Op → Bool
  | .requestSignedTime .. | .acceptTime .. => true
  | _ => false

/-! ## edits -/

/-- A request has been authorised: the boot is open, the authority not sealed, and the sequence
number is remembered. -/
structure InSession (s t : AuthorityState) : Prop where
  unsealed : s.mode ≠ .sealed
  opened : ∃ epoch, s.boot = .opened epoch
  sequenced : ∃ sequence, s.lastRequestSequence ≤ sequence ∧ t = s.sequenced sequence

/-- The edits that an authorised request can ask for. -/
inductive RequestEdit (op : Op) (t : AuthorityState) : AuthorityState → Prop
  | same (hop : op.timely = false) : RequestEdit op t t
  | challenged (challenge : PendingTimeChallenge) (hpending : t.pendingTime = none)
      (htime : t.time = .unavailable) (request : RequestSignedTimeRequest)
      (generated : Except AuthorityFault (Bytes 16 × Bytes 32))
      (hop : op = .requestSignedTime request generated)
      (hpurpose : TimePurpose.tryFrom request.purpose = .ok challenge.purpose)
      (hgenerated : generated = .ok (challenge.timeRequestId, challenge.nonce)) :
      RequestEdit op t { t with pendingTime := some challenge }
  | timed (challenge : PendingTimeChallenge) (floors : ProtectedTimeFloors) (expiresAt : UInt64)
      (hpending : t.pendingTime = some challenge) (hexpires : floors.unixSeconds < expiresAt)
      (hfloors : timeFloorsStrictlyAdvance t.timeFloors floors = true)
      (request : AcceptSignedTimeRequest) (now : UInt64) (hop : op = .acceptTime request now)
      (hpurpose : TimePurpose.tryFrom request.purpose = .ok challenge.purpose)
      (hchallenge : challenge.timeRequestId = request.timeRequestId ∧
        challenge.nonce = request.nonce)
      (htime : floors = ⟨request.sourceEpoch, request.sourceSequence,
        request.unixSeconds.toUInt64⟩ ∧ expiresAt = request.expiresAt) :
      RequestEdit op t { t with
        timeFloors := floors
        pendingTime := none
        time := .valid floors.sourceEpoch floors.sourceSequence expiresAt challenge.timeRequestId
          challenge.purpose }
  | enrolled (active : Option RelayIntent) (generation : UInt64)
      (hrelay : t.relay = active.elim .empty .active)
      (hnext : checkedSucc t.generationFloor = some generation)
      (request : BeginRelayEnrollmentRequest) (now : UInt64)
      (hop : op = .beginEnrollment request now) :
      RequestEdit op t { t with
        previousActive := active
        generationFloor := generation
        relay := .pending generation generation (freeSlot active) }
  | consumed (intent : RelayIntent) (hrelay : t.relay = .staged intent)
      (request : ConsumeStagedRelayProfileRequest) (hop : op = .consumeReceipt request) :
      RequestEdit op t { t with relay := .receiptConsumed intent }
  | prepared (intent : RelayIntent) (hrelay : t.relay.preparable = some intent)
      (request : CommitRelayGenerationRequest) (hop : op = .prepareCommit request) :
      RequestEdit op t { t with relay := .prepared intent }
  | abandoned (generation : UInt64) (hrelay : t.relay.abortable = some generation)
      (request : AbortRelayEnrollmentRequest) (hop : op = .abort request)
      (hgeneration : request.generation = generation) :
      RequestEdit op t { t with
        relay := t.previousActive.elim .empty .active
        previousActive := none }

/-- The edits that an intent or a receipt can ask for. -/
inductive HeldEdit (op : Op) (s : AuthorityState) : AuthorityState → Prop
  | promoted (intent : RelayIntent) (signature : Bytes signatureLen)
      (hrelay : s.relay = .prepared intent) (receipt : ProviderCasReceipt)
      (hop : op = .recordProviderPromotion intent receipt)
      (hreceipt : intent.matchesReceipt receipt = true) :
      HeldEdit op s { s with relay := .promoted intent signature }
  | finalized (intent : RelayIntent) (signature : Bytes signatureLen)
      (hrelay : s.relay = .promoted intent signature) (hop : op = .finalizeCommit) :
      HeldEdit op s { s with relay := .active intent, previousActive := none }
  | staged (upload : ProfileUploadIntent) (requestId : UInt64)
      (hrelay : s.relay = .uploading upload) (hcomplete : upload.complete = true)
      (verified : AdmittedProfileValidation) (hop : op = .stageProfile verified)
      (hmatches : upload.matchesProfileRequest verified.request = true) :
      HeldEdit op s { s with relay := .staged (s.stagedIntent upload requestId) }
  | started (intent : ProfileUploadIntent) (hstart : s.startsUpload intent = true)
      (hop : op = .acknowledgeProfileUpload intent) :
      HeldEdit op s { s with relay := .uploading intent }
  | advanced (upload next : ProfileUploadIntent) (hrelay : s.relay = .uploading upload)
      (hnext : upload.advanced = some next) (intent : ProfileChunkIntent)
      (hop : op = .acknowledgeProfileChunk intent) (hindex : intent.chunkIndex = upload.nextIndex) :
      HeldEdit op s { s with relay := .uploading next }

/-- A boot is opened. -/
inductive BootEdit (s : AuthorityState) (loaderDigest : Bytes 32) : AuthorityState → Prop
  | opened (sequence bootFloor stateEpoch : UInt64) (hmode : s.mode = .ready)
      (hsequence : s.lastRequestSequence ≤ sequence)
      (hfloor : checkedSucc s.bootFloor = some bootFloor) :
      BootEdit s loaderDigest { s.sequenced sequence with
        bootFloor := bootFloor
        stateEpoch := stateEpoch
        approvedLoaderDigest := loaderDigest
        boot := .opened bootFloor
        mode := .serving }

theorem BootEdit.unsealed (h : BootEdit s loaderDigest e) : s.mode ≠ .sealed := by
  cases h with
  | opened _ _ _ hmode => simp [hmode]

/-- The states that operations seal. -/
inductive SealEdit (s : AuthorityState) : AuthorityState → Prop
  | direct (sequence : UInt64) (hsequence : s.lastRequestSequence ≤ sequence) :
      SealEdit s (s.sequenced sequence)
  | booting (sequence bootFloor : UInt64) (hmode : s.mode = .ready)
      (hsequence : s.lastRequestSequence ≤ sequence)
      (hfloor : checkedSucc s.bootFloor = some bootFloor) :
      SealEdit s { s.sequenced sequence with bootFloor := bootFloor }

/-- The lease that the operation asks for is there and has not expired. -/
def Leased (op : Op) (t : AuthorityState) : Prop :=
  ∃ purpose now epoch sequence expiresAt id, op.lease = some (purpose, now) ∧
    t.time = .valid epoch sequence expiresAt id purpose ∧ now < expiresAt

/-! ## the course of an operation -/

/-- The end of an operation: it seals the state, or stores an edit of it. -/
inductive Finish (op : Op) (t : AuthorityState) : Result AuthorityFault AuthorityState Value → Prop
  | sealed (fault : AuthorityFault) : Finish op t ((sealWith fault : Act Value) t)
  | stored (value : Value) (e : AuthorityState) (hedit : RequestEdit op t e) :
      Finish op t (persistValue value e)

/-- What an operation does from the state `s`. -/
inductive Course (s : AuthorityState) (op : Op) : Result AuthorityFault AuthorityState Value → Prop
  | refused (hmode : s.mode = .sealed) (hop : op.asksContext = true) :
      Course s op (.error .sealed s)
  | answered (value : Value) (has : answersAsIs s op = true) : Course s op (.ok value s)
  | sealed (fault : AuthorityFault) (e : AuthorityState) (hedit : SealEdit s e)
      (has : answersAsIs s op = false) (hmoves : movesRelay s op = false)
      (hmode : op.asksContext = true → s.mode ≠ .sealed) :
      Course s op ((sealWith fault : Act Value) e)
  | session (t : AuthorityState) {r : Result AuthorityFault AuthorityState Value}
      (hsession : InSession s t) (hfinish : Finish op t r) (hlease : op.lease = none) :
      Course s op r
  | booted (value : Value) (request : OpenBootRequest) (measurement : Bytes 32)
      (e : AuthorityState) (hop : op = .openBoot request measurement)
      (hedit : BootEdit s request.loaderDigest e) : Course s op (persistValue value e)
  | held (value : Value) (e : AuthorityState) (hmoves : movesRelay s op = true)
      (hedit : HeldEdit op s e) : Course s op (persistValue value e)
  | unleased (t s' : AuthorityState) (fault : AuthorityFault) (hsession : InSession s t)
      (htime : t.time ≠ .unavailable)
      (hpersist : persist { t with time := .unavailable } = .error fault s') :
      Course s op (.error fault s')
  | leased (t t' : AuthorityState) {r : Result AuthorityFault AuthorityState Value}
      (hsession : InSession s t) (htime : t.time ≠ .unavailable)
      (hpersist : persist { t with time := .unavailable } = .ok () t') (hfinish : Finish op t' r)
      (hlease : Leased op t) : Course s op r
  | exhausted (t t' : AuthorityState) (active : Option RelayIntent) (fault : AuthorityFault)
      (request : BeginRelayEnrollmentRequest) (now : UInt64)
      (hop : op = .beginEnrollment request now) (hsession : InSession s t)
      (htime : t.time ≠ .unavailable)
      (hpersist : persist { t with time := .unavailable } = .ok () t')
      (hrelay : t'.relay = active.elim .empty .active)
      (hnext : checkedSucc t'.generationFloor = none) :
      Course s op ((sealWith fault : Act Value) { t' with previousActive := active })

/-! ## what is made of the value -/

section

variable {α : Type} (f : α → Value)

theorem map_sealWith (fault : AuthorityFault) (s : AuthorityState) :
    (f <$> (sealWith fault : Act α)) s = (sealWith fault : Act Value) s := by
  show EStateM.map f (sealWith fault) s = _
  unfold EStateM.map
  rw [sealWith_run, sealWith_run]
  cases persist s.asSealed <;> rfl

theorem map_persistValue (a : α) (s : AuthorityState) :
    (f <$> (persistValue a : Act α)) s = (persistValue (f a) : Act Value) s := by
  show EStateM.map f (EStateM.bind persist _) s = EStateM.bind persist _ s
  unfold EStateM.map EStateM.bind
  cases persist s <;> rfl

end

/-! ## the next chunk -/

/-- The upload after the next chunk differs in the index alone. -/
theorem ProfileUploadIntent.advanced_eq_some {upload : ProfileUploadIntent}
    (h : upload.advanced = some next) :
    ∃ index, checkedSuccU8 upload.nextIndex = some index ∧ index ≤ upload.chunkCount ∧
      next = { upload with nextIndex := index } := by
  unfold ProfileUploadIntent.advanced at h
  split at h
  · next index hindex =>
    split at h
    · next hle =>
      rw [Option.some.injEq] at h
      exact ⟨index, hindex, hle, h.symm⟩
    · contradiction
  · contradiction

/-! ## requests -/

/-- A request is never one of the operations that present an intent. -/
theorem Op.of_asksContext (h : op.asksContext = true) (s : AuthorityState) :
    answersAsIs s op = false ∧ movesRelay s op = false := by
  cases op <;> first | exact ⟨rfl, rfl⟩ | contradiction

variable (hop : op.asksContext = true)

include hop

/-- A request is checked first; what it does then is done in a session. -/
theorem course_of_context (hrest : ∀ t, InSession s t → Course s op ((f <$> rest ()) t)) :
    Course s op ((f <$> (authorizeContext context >>= rest)) s) := by
  obtain ⟨has, hmoves⟩ := Op.of_asksContext hop s
  rw [map_bind]
  obtain ⟨hmode, hrun⟩ | ⟨hmode, fault, sequence, hle, hrun⟩ | ⟨hmode, hboot, hle, hrun⟩ :=
    authorizeContext_cases context (fun a => f <$> rest a) s
  · rw [hrun]
    exact .refused hmode hop
  · rw [hrun]
    exact .sealed fault _ (.direct sequence hle) has hmoves fun _ => hmode
  · rw [hrun]
    exact hrest _ ⟨hmode, ⟨_, hboot⟩, context.sequence, hle, rfl⟩

/-- A request that finishes at once. -/
theorem course_of_request (hlease : op.lease = none)
    (hrest : ∀ t, Finish op t ((f <$> rest ()) t)) :
    Course s op ((f <$> (authorizeContext context >>= rest)) s) :=
  course_of_context hop fun t ht => .session t ht (hrest t) hlease

/-- A request that uses up a time lease before it finishes. -/
theorem course_of_lease (hlease : op.lease = some (purpose, now))
    (hrest : ∀ t t', InSession s t → t.time ≠ .unavailable → Leased op t →
      persist { t with time := .unavailable } = .ok () t' → Course s op ((f <$> rest ()) t')) :
    Course s op
      ((f <$> (authorizeContext context >>= fun _ => consumeLiveTime purpose now >>= rest)) s) := by
  apply course_of_context hop
  intro t ht
  rw [map_bind]
  obtain ⟨fault, hrun⟩ | ⟨⟨_, sequence, _, _, hvalid, hlive⟩, hrun⟩ :=
    consumeLiveTime_cases purpose now (fun a => f <$> rest a) t
  · rw [hrun]
    obtain ⟨has, hmoves⟩ := Op.of_asksContext hop s
    obtain ⟨sequence, hle, rfl⟩ := ht.sequenced
    exact .sealed fault _ (.direct sequence hle) has hmoves fun _ => ht.unsealed
  rw [hrun]
  have htime : t.time ≠ .unavailable := by simp [hvalid]
  cases hpersist : persist { t with time := .unavailable } with
  | ok u t' =>
    rw [run_bind_ok hpersist]
    exact hrest t t' ht htime ⟨purpose, now, _, _, _, _, hlease, hvalid, hlive⟩ hpersist
  | error fault s' =>
    have hfail : (persist >>= fun a => f <$> rest a) { t with time := .unavailable } =
        .error fault s' := by
      show EStateM.bind persist _ _ = _
      unfold EStateM.bind
      rw [hpersist]
    rw [hfail]
    exact .unleased t s' fault ht htime hpersist

omit hop

namespace Finish

variable {α : Type} {f : α → Value} {t : AuthorityState}

theorem of_sealWith (fault : AuthorityFault) : Finish op t ((f <$> (sealWith fault : Act α)) t) := by
  rw [map_sealWith]
  exact .sealed fault

theorem of_persistValue (a : α) (hedit : RequestEdit op t e) :
    Finish op t ((f <$> (persistValue a : Act α)) e) := by
  rw [map_persistValue]
  exact .stored _ e hedit

theorem of_persist (hedit : RequestEdit op t e) :
    Finish op t (((fun _ => .done) <$> persist) e) := by
  exact .stored _ e hedit

/-- An answer that changes nothing but the revision. -/
theorem same (hop : op.timely = false) : Finish op t ((f <$> (persistValue a : Act α)) t) :=
  of_persistValue a (.same hop)

theorem get_bind {rest : AuthorityState → Act α} (h : Finish op t ((f <$> rest t) t)) :
    Finish op t ((f <$> (get >>= rest)) t) := h

/-- A check that seals when it fails. -/
theorem require [Decidable c] (h : c → Finish op t ((f <$> a) t)) :
    Finish op t ((f <$> if c then a else sealWith fault) t) := by
  split
  · next hc => exact h hc
  · exact of_sealWith fault

/-- A check that seals when it holds. -/
theorem forbid [Decidable c] (h : ¬ c → Finish op t ((f <$> a) t)) :
    Finish op t ((f <$> if c then sealWith fault else a) t) := by
  split
  · exact of_sealWith fault
  · next hc => exact h hc

end Finish

/-! ## every operation -/

open Finish

theorem requestSignedTime_course (request : RequestSignedTimeRequest)
    (generated : Except AuthorityFault (Bytes 16 × Bytes 32)) (s : AuthorityState) :
    Course s (.requestSignedTime request generated)
      (perform (.requestSignedTime request generated) s) := by
  apply course_of_request rfl rfl
  intro t
  apply forbid
  intro hfree
  rw [not_or, not_not] at hfree
  split
  · exact .of_sealWith _
  next hpurpose =>
  split
  · exact .of_sealWith _
  apply Finish.require
  intro _
  exact .of_persistValue _ (.challenged _ (by simpa using hfree.1) hfree.2 request _ rfl
    hpurpose rfl)

theorem acceptTime_course (request : AcceptSignedTimeRequest) (now : UInt64) (s : AuthorityState) :
    Course s (.acceptTime request now) (perform (.acceptTime request now) s) := by
  apply course_of_request rfl rfl
  intro t
  split
  · exact .of_sealWith _
  next purpose hpurpose =>
  apply forbid
  intro _
  apply forbid
  intro hpending
  rw [not_or, not_or, not_not, UInt64.not_le, UInt64.not_le] at hpending
  apply forbid
  intro hfloors
  -- a time that does not regress advances the floors
  exact .of_persist (.timed { request with purpose := purpose }
    { request with unixSeconds := request.unixSeconds.toUInt64 }
    request.expiresAt hpending.1 hpending.2.2 (by grind [timeFloorsStrictlyAdvance]) request now rfl
    hpurpose ⟨rfl, rfl⟩ ⟨rfl, rfl⟩)

/-- An enrollment starts beside the active profile, unless the generations are used up. -/
theorem enrollBeside_course
    (active : Option RelayIntent) (hrelay : t'.relay = active.elim .empty .active)
    (hsession : InSession s t) (htime : t.time ≠ .unavailable)
    (hlease : Leased (.beginEnrollment request now) t)
    (hpersist : persist { t with time := .unavailable } = .ok () t') :
    Course s (.beginEnrollment request now)
      ((.enrollment <$> enrollBeside active request.hostname) t') := by
  rw [enrollBeside, map_bind, modify_run, map_bind, get_run]
  cases hnext : checkedSucc t'.generationFloor with
  | some generation =>
    exact .leased t t' hsession htime hpersist
      (.of_persistValue _ (.enrolled active generation hrelay hnext request now rfl)) hlease
  | none =>
    rw [map_sealWith]
    exact .exhausted t t' active _ request now rfl hsession htime hpersist hrelay hnext

theorem openBoot_course (request : OpenBootRequest) (measurement : Bytes 32) (s : AuthorityState) :
    Course s (.openBoot request measurement) (perform (.openBoot request measurement) s) := by
  show Course s _ ((.epoch <$> openBoot request measurement) s)
  unfold openBoot
  rw [map_bind]
  obtain ⟨hmode, hrun⟩ | ⟨hmode, fault, hrun⟩ | ⟨hmode, hseq, hrun⟩ :=
    identityAndSequence_cases request.context (fun _ => Value.epoch <$> _) s
  · rw [hrun]
    exact .refused hmode rfl
  · rw [hrun]
    exact .sealed fault _ (.direct s.lastRequestSequence (UInt64.le_refl _)) rfl rfl fun _ => hmode
  rw [hrun]
  have hle : s.lastRequestSequence ≤ request.context.sequence := UInt64.le_of_lt hseq
  have hseal : ∀ (fault : AuthorityFault) (e : AuthorityState), SealEdit s e →
      Course s (.openBoot request measurement) ((.epoch <$> (sealWith fault : Act UInt64)) e) := by
    intro fault e he
    rw [map_sealWith]
    exact .sealed fault e he rfl rfl fun _ => hmode
  show Course s _ ((.epoch <$> (if _ then _ else _ : Act UInt64))
    (s.sequenced request.context.sequence))
  split
  · exact hseal _ _ (.direct _ hle)
  split
  · exact hseal _ _ (.direct _ hle)
  split
  · exact hseal _ _ (.direct _ hle)
  next hready =>
  rw [not_or, not_not, not_not] at hready
  split
  · exact hseal _ _ (.direct _ hle)
  next bootFloor hfloor =>
  split
  · exact hseal _ _ (.booting _ bootFloor hready.1 hle hfloor)
  next stateEpoch _ =>
  show Course s _ ((.epoch <$> persistValue bootFloor) _)
  rw [map_persistValue]
  exact .booted _ request measurement _ rfl (.opened _ bootFloor stateEpoch hready.1 hle hfloor)

/-! ### intents and receipts -/

/-- An intent that does not fit the relay state seals. -/
theorem course_of_mismatch (fault : AuthorityFault) (hop : op.asksContext = false)
    (has : answersAsIs s op = false) (hmoves : movesRelay s op = false) :
    Course s op ((f <$> (sealWith fault : Act α)) s) := by
  rw [map_sealWith]
  exact .sealed fault s (.direct s.lastRequestSequence (UInt64.le_refl _)) has hmoves (by simp [hop])

theorem stageProfile_course (verified : AdmittedProfileValidation) (s : AuthorityState) :
    Course s (.stageProfile verified) (perform (.stageProfile verified) s) := by
  show Course s _ ((.relay <$> stageProfile verified) s)
  rw [stageProfile, map_bind, get_run]
  split
  · next upload hrelay =>
    split
    · next hfit =>
      show Course s _ ((.relay <$> persistValue _) _)
      rw [map_persistValue]
      have hcomplete : upload.complete = true := by
        unfold ProfileUploadIntent.matchesProfileRequest at hfit
        simp only [Bool.and_eq_true] at hfit
        exact hfit.1.1.1.1.1.1.1.1.1
      exact .held _ _ (by simpa [movesRelay, hrelay] using hfit)
        (.staged upload _ hrelay hcomplete verified rfl hfit)
    · next hfail =>
      exact course_of_mismatch _ rfl (by simp [answersAsIs, hrelay])
        (by simpa [movesRelay, hrelay] using hfail)
  · next intent hrelay =>
    split
    · next hfit => exact .answered _ (by simpa [answersAsIs, hrelay] using hfit)
    · next hfail =>
      exact course_of_mismatch _ rfl (by simpa [answersAsIs, hrelay] using hfail)
        (by simp [movesRelay, hrelay])
  · exact course_of_mismatch _ rfl (by simp [answersAsIs]) (by simp [movesRelay])

theorem acknowledgeProfileUpload_course (intent : ProfileUploadIntent) (s : AuthorityState) :
    Course s (.acknowledgeProfileUpload intent) (perform (.acknowledgeProfileUpload intent) s) := by
  show Course s _ ((.upload <$> (if _ then _ else _ : Act ProfileUploadIntent)) s)
  split
  · next hstart =>
    show Course s _ ((.upload <$> persistValue _) _)
    rw [map_persistValue]
    exact .held _ _ hstart (.started intent hstart rfl)
  · next hstart =>
    split
    · next hsame => exact .answered _ (by simpa [answersAsIs] using hsame)
    · next hother =>
      exact course_of_mismatch _ rfl (by simpa [answersAsIs] using hother)
        (by simpa [movesRelay] using hstart)

theorem acknowledgeProfileChunk_course (intent : ProfileChunkIntent) (s : AuthorityState) :
    Course s (.acknowledgeProfileChunk intent) (perform (.acknowledgeProfileChunk intent) s) := by
  show Course s _ ((.upload <$> (if _ then _ else _ : Act ProfileUploadIntent)) s)
  split
  · next hrelay =>
    exact course_of_mismatch _ rfl (by simp [answersAsIs, hrelay]) (by simp [movesRelay, hrelay])
  next hrelay =>
  rw [not_not] at hrelay
  split
  · next hmode => exact .answered _ (by simp [answersAsIs, hrelay, hmode])
  next hmode =>
  split
  · next hindex =>
    exact course_of_mismatch _ rfl (by simp [answersAsIs, hmode]) (by simp [movesRelay, hindex])
  · next hindex =>
    rw [not_not] at hindex
    split
    · next next hnext =>
      show Course s _ ((.upload <$> persistValue _) _)
      rw [map_persistValue]
      exact .held _ _ (by simp [movesRelay, hrelay, hmode, hindex, hnext])
        (.advanced intent.upload next hrelay hnext intent rfl hindex)
    · next hnone =>
      exact course_of_mismatch _ rfl (by simp [answersAsIs, hmode]) (by simp [movesRelay, hnone])

/-- **Every operation takes one of the courses.** -/
theorem perform_course (op : Op) (s : AuthorityState) : Course s op (perform op s) := by
  cases op with
  | openBoot request measurement => exact openBoot_course request measurement s
  | requestSignedTime request generated => exact requestSignedTime_course request generated s
  | acceptTime request now => exact acceptTime_course request now s
  | beginEnrollment =>
    apply course_of_lease rfl rfl
    intro t t' hsession htime hlease hpersist
    rw [map_bind, get_run]
    split
    · next intent hrelay =>
      exact enrollBeside_course (some intent) hrelay hsession htime hlease hpersist
    · next hrelay => exact enrollBeside_course none hrelay hsession htime hlease hpersist
    · exact .leased t t' hsession htime hpersist (.of_sealWith _) hlease
  | consumeReceipt request =>
    apply course_of_request rfl rfl
    intro t
    apply get_bind
    split
    · next intent hrelay =>
      apply Finish.require
      intro _
      exact .of_persist (.consumed intent hrelay request rfl)
    · exact .of_sealWith _
    · exact .of_sealWith _
  | prepareCommit request =>
    apply course_of_request rfl rfl
    intro t
    apply get_bind
    split
    · exact .of_sealWith _
    next intent hrelay =>
    apply forbid
    intro _
    exact .of_persistValue _ (.prepared intent hrelay request rfl)
  | recordProviderPromotion intent receipt =>
    show Course s _ (((fun _ => .done) <$> (if _ then _ else _ : Act Unit)) s)
    split
    · next hfail => exact course_of_mismatch _ rfl rfl (by simp [movesRelay]; grind)
    next hfit =>
    rw [not_or, not_not] at hfit
    exact .held _ _ (by simpa [movesRelay] using hfit) (.promoted intent _ hfit.1 receipt rfl
      (by simpa using hfit.2))
  | finalizeCommit =>
    show Course s _ (((fun _ => .done) <$> (match s.relay with
      | .promoted intent _ => _ | _ => _ : Act Unit)) s)
    split
    · next intent signature hrelay =>
      exact .held _ _ (by simp [movesRelay, hrelay]) (.finalized intent signature hrelay rfl)
    · exact course_of_mismatch _ rfl rfl (by simp [movesRelay])
  | abort request =>
    apply course_of_request rfl rfl
    intro t
    apply forbid
    intro hrelay
    rw [not_not] at hrelay
    exact .of_persistValue _ (.abandoned _ hrelay request rfl rfl)
  | authorizeTlsSignature | authorizeActivePublicKey =>
    apply course_of_lease rfl rfl
    intro t t' hsession htime hlease hpersist
    apply Course.leased t t' hsession htime hpersist ?_ hlease
    apply get_bind
    split <;> first | exact .of_sealWith _ | exact same rfl | exact .require fun _ => same rfl
  | authorizeCommittedState | authorizeCsrChunk | admitProfileValidation =>
    apply course_of_request rfl rfl
    intro t
    apply get_bind
    split <;> first | exact .of_sealWith _ | exact same rfl | exact .require fun _ => same rfl
  | stageProfile verified => exact stageProfile_course verified s
  | authorizeProfileUpload =>
    apply course_of_request rfl rfl
    intro t
    apply forbid
    intro _
    split <;> first | exact .of_sealWith _ | exact .require fun _ => same rfl
  | acknowledgeProfileUpload intent => exact acknowledgeProfileUpload_course intent s
  | authorizeProfileChunk =>
    apply course_of_request rfl rfl
    intro t
    apply get_bind
    split
    · apply Finish.require
      intro _
      split
      · exact .of_sealWith _
      · exact .forbid fun _ => same rfl
    · exact .of_sealWith _
  | acknowledgeProfileChunk intent => exact acknowledgeProfileChunk_course intent s
  | rejectProfileUpload | rejectProfileChunk =>
    show Course s _ (((fun _ => .done) <$> (if _ then _ else _ : Act Unit)) s)
    split <;> exact course_of_mismatch _ rfl rfl rfl

/-! ## what is saved at the end -/

theorem InSession.store_eq (h : InSession s t) : t.store = s.store := by
  obtain ⟨_, -, rfl⟩ := h.sequenced
  rfl

theorem RequestEdit.store_eq (h : RequestEdit op t e) : e.store = t.store := by
  cases h <;> rfl

theorem HeldEdit.store_eq (h : HeldEdit op s e) : e.store = s.store := by
  cases h <;> rfl

theorem SealEdit.store_eq (h : SealEdit s e) : e.store = s.store := by
  cases h <;> rfl

theorem sealWith_saved (fault : AuthorityFault) (hlive : s.store.cut = false) :
    Saved (ending ((sealWith fault : Act Value) s)) := by
  rw [ending_sealWith]
  exact persist_saved hlive

theorem persistValue_saved (value : Value) (hlive : s.store.cut = false) :
    Saved (ending (persistValue value s)) := by
  rw [ending_persistValue]
  exact persist_saved hlive

theorem Finish.saved (h : Finish op t r) (hlive : t.store.cut = false) : Saved (ending r) := by
  cases h with
  | sealed => exact sealWith_saved _ hlive
  | stored _ _ hedit =>
    apply persistValue_saved
    rw [hedit.store_eq]
    exact hlive

/-- **Without a power cut, an operation changes nothing or saves what it did.** -/
theorem Course.saved (h : Course s op r)
    (hlive : s.store.cut = false) : ending r = s ∨ Saved (ending r) := by
  have hleased : ∀ t, InSession s t → ({ t with time := .unavailable } : AuthorityState).store.cut
      = false := by
    intro t hsession
    rw [hsession.store_eq]
    exact hlive
  cases h with
  | refused | answered => exact .inl rfl
  | sealed _ e hedit =>
    refine .inr (sealWith_saved _ ?_)
    rw [hedit.store_eq]
    exact hlive
  | session t hsession hfinish =>
    exact .inr (hfinish.saved (by rw [hsession.store_eq]; exact hlive))
  | booted _ _ _ _ _ hedit =>
    refine .inr (persistValue_saved _ ?_)
    cases hedit
    exact hlive
  | held _ _ _ hedit =>
    refine .inr (persistValue_saved _ ?_)
    rw [hedit.store_eq]
    exact hlive
  | unleased t _ _ hsession _ hpersist =>
    right
    have hsaved := persist_saved (hleased t hsession)
    rw [hpersist] at hsaved
    exact hsaved
  | leased t _ hsession _ hpersist hfinish =>
    exact .inr (hfinish.saved ((persist_ok_cut hpersist).trans (hleased t hsession)))
  | exhausted t _ _ _ _ _ _ hsession _ hpersist =>
    exact .inr (sealWith_saved _ ((persist_ok_cut hpersist).trans (hleased t hsession)))

end Cellos.Authority
