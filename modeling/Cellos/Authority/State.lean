import Cellos.Authority.Record
import Cellos.Lib

/-!
# Cellos.Authority.State

The authority state machine: what every request, acknowledgement and receipt does to the
authority and to its protected store.

The operations end with a value or a fault, and keep what they did before a fault.  The store
is the environment: it may refuse any write, and the power may fail at any write.  Its own
promise is the one its interface states: once the external counter domain is sealed it stores
nothing and yields nothing any more.
-/

namespace Cellos.Authority

/-! ## the protected store -/

/-- One call of `compare_and_swap`: what the store held, whether its counter domain was sealed,
the record handed to it and whether it stored it. -/
structure Offer where
  previous : Option ProtectedAuthorityRecord
  sealed : Bool
  next : ProtectedAuthorityRecord
  stored : Bool

/-- The store with its environment: `answers` says which of the next writes it will take, and
`cut` that the power fails when they are used up.  Without a cut it takes every further write. -/
structure ProtectedStore where
  record : Option ProtectedAuthorityRecord
  sealed : Bool
  answers : List Bool
  cut : Bool
  offers : List Offer

namespace ProtectedStore

/-- A store that was never written. -/
def blank : ProtectedStore := ⟨none, false, [], false, []⟩

variable (store : ProtectedStore)

def revision : UInt64 := store.record.elim 0 ProtectedAuthorityRecord.revision

/-- The power has failed: nothing done from here on reaches the store. -/
def dead : Bool := store.cut && store.answers.isEmpty

/-- The store takes the write. -/
def takes (expected : UInt64) (next : ProtectedAuthorityRecord) : Bool :=
  !store.dead && !store.sealed && store.revision == expected
    && checkedSucc expected == some next.revision && store.answers.headD true

/-- `compare_and_swap`. -/
def compareAndSwap (expected : UInt64) (next : ProtectedAuthorityRecord) : Bool × ProtectedStore :=
  let stored := store.takes expected next
  (stored,
    { store with
      record := if stored then some next else store.record
      answers := store.answers.tail
      offers := ⟨store.record, store.sealed, next, stored⟩ :: store.offers })

/-- `seal_on_conflict`. -/
def sealOnConflict : ProtectedStore :=
  if store.dead then store else { store with sealed := true }

end ProtectedStore

/-! ## the authority -/

/-- `AuthorityStateConfig`. -/
structure AuthorityStateConfig where
  (deviceId authorityId : Bytes 32)
  (authorityEpoch bootFloor generationFloor stateEpoch : UInt64)
  bootChallenge : Bytes 32
  timeFloors : ProtectedTimeFloors

/-- `AuthorityState`. -/
structure AuthorityState where
  mode : AuthorityMode
  boot : BootState
  time : TimeState
  relay : RelayProfileState
  (deviceId authorityId : Bytes 32)
  authorityEpoch : UInt64
  bootChallenge : Bytes 32
  (bootFloor generationFloor stateEpoch : UInt64)
  approvedLoaderDigest : Bytes 32
  lastRequestSequence : UInt64
  previousActive : Option RelayIntent
  pendingTime : Option PendingTimeChallenge
  timeFloors : ProtectedTimeFloors
  protectedRevision : UInt64
  store : ProtectedStore

namespace AuthorityState

/-- `AuthorityState::new`. -/
def new (store : ProtectedStore) (config : AuthorityStateConfig) : AuthorityState where
  mode := .ready
  boot := .closed
  time := .unavailable
  relay := .empty
  deviceId := config.deviceId
  authorityId := config.authorityId
  authorityEpoch := config.authorityEpoch
  bootChallenge := config.bootChallenge
  bootFloor := config.bootFloor
  generationFloor := config.generationFloor
  stateEpoch := config.stateEpoch
  approvedLoaderDigest := Bytes.fill 32 0
  lastRequestSequence := 0
  previousActive := none
  pendingTime := none
  timeFloors := config.timeFloors
  protectedRevision := 0
  store := store

/-- `AuthorityState::restore`. -/
def restore (store : ProtectedStore) (record : ProtectedAuthorityRecord)
    (bootChallenge : Bytes 32) : AuthorityState where
  mode := if record.mode = .sealed then .sealed else .ready
  boot := .closed
  time := .unavailable
  relay := record.relay
  deviceId := record.deviceId
  authorityId := record.authorityId
  authorityEpoch := record.authorityEpoch
  bootChallenge := bootChallenge
  bootFloor := record.bootFloor
  generationFloor := record.generationFloor
  stateEpoch := record.stateEpoch
  approvedLoaderDigest := record.approvedLoaderDigest
  lastRequestSequence := record.lastRequestSequence
  previousActive := record.previousActive
  pendingTime := none
  timeFloors := record.timeFloors
  protectedRevision := record.revision
  store := store

variable (s : AuthorityState)

/-- `snapshot`. -/
def snapshot (revision : UInt64) : ProtectedAuthorityRecord where
  revision := revision
  mode := s.mode
  boot := s.boot
  time := s.time
  relay := s.relay
  deviceId := s.deviceId
  authorityId := s.authorityId
  authorityEpoch := s.authorityEpoch
  bootFloor := s.bootFloor
  generationFloor := s.generationFloor
  stateEpoch := s.stateEpoch
  approvedLoaderDigest := s.approvedLoaderDigest
  lastRequestSequence := s.lastRequestSequence
  previousActive := s.previousActive
  pendingTime := s.pendingTime
  timeFloors := s.timeFloors

/-- What is left of the authority when its record could not be stored. -/
def conflicted (store : ProtectedStore) : AuthorityState :=
  { s with mode := .sealed, store := store.sealOnConflict }

/-- The authority once its record is stored. -/
def persisted (revision : UInt64) (store : ProtectedStore) : AuthorityState :=
  { s with protectedRevision := revision, store := store }

/-- The fields that `seal` overwrites. -/
def asSealed : AuthorityState :=
  { s with mode := .sealed, time := .unavailable, pendingTime := none }

end AuthorityState

/-- A program of the authority. -/
abbrev Act := EStateM AuthorityFault AuthorityState

/-- `persist`. -/
def persist : Act Unit := do
  let s ← get
  match checkedSucc s.protectedRevision with
  | none => do
    set (s.conflicted s.store)
    throw .persistenceFailure
  | some revision =>
    match s.store.compareAndSwap s.protectedRevision (s.snapshot revision) with
    | (true, store) => set (s.persisted revision store)
    | (false, store) => do
      set (s.conflicted store)
      throw .persistenceFailure

/-- `persist_value`. -/
def persistValue {α : Type} (value : α) : Act α := do
  persist
  pure value

/-- `seal`. -/
def sealWith {α : Type} (fault : AuthorityFault) : Act α := do
  modify AuthorityState.asSealed
  tryCatch persist fun _ => throw .persistenceFailure
  throw fault

variable (context : RequestContext) (intent : RelayIntent)

/-- `identity_and_sequence`. -/
def identityAndSequence : Act Unit := do
  let s ← get
  if s.mode = .sealed then throw .sealed
  else if !constantTimeEq s.deviceId context.deviceId
      || !constantTimeEq s.authorityId context.authorityId then
    sealWith .identityMismatch
  else if context.sequence ≤ s.lastRequestSequence then sealWith .replay
  else set { s with lastRequestSequence := context.sequence }

/-- The second half of `authorize_context`: the request belongs to the open boot. -/
def checkBoot : Act Unit := do
  let s ← get
  match s.boot with
  | .opened epoch =>
    if epoch = context.bootEpoch ∧ constantTimeEq s.bootChallenge context.challenge then pure ()
    else sealWith .challengeMismatch
  | .closed => sealWith .challengeMismatch

/-- `authorize_context`. -/
def authorizeContext : Act Unit := do
  identityAndSequence context
  checkBoot context

/-! ## boot -/

/-- `open_boot`. -/
def openBoot (request : OpenBootRequest) (measurement : Bytes 32) : Act UInt64 := do
  identityAndSequence request.context
  let s ← get
  if !constantTimeEq s.bootChallenge request.context.challenge then
    sealWith .challengeMismatch
  else if !constantTimeEq measurement request.loaderDigest then sealWith .identityMismatch
  else if s.mode ≠ .ready ∨ s.boot ≠ .closed then sealWith .invalidState
  else
    match checkedSucc s.bootFloor with
    | none => sealWith .persistenceFailure
    | some bootFloor =>
      match checkedSucc s.stateEpoch with
      | none => do
        set { s with bootFloor := bootFloor }
        sealWith .persistenceFailure
      | some stateEpoch => do
        set { s with
          bootFloor := bootFloor
          stateEpoch := stateEpoch
          approvedLoaderDigest := request.loaderDigest
          boot := .opened bootFloor
          mode := .serving }
        persistValue bootFloor

/-! ## time -/

/-- `request_signed_time`; `generated` is what the challenge source answers. -/
def requestSignedTime (request : RequestSignedTimeRequest)
    (generated : Except AuthorityFault (Bytes 16 × Bytes 32)) : Act PendingTimeChallenge := do
  authorizeContext request.context
  let s ← get
  if s.pendingTime.isSome ∨ s.time ≠ .unavailable then sealWith .invalidState
  else
    match TimePurpose.tryFrom request.purpose with
    | .error fault => sealWith fault
    | .ok purpose =>
      match generated with
      | .error fault => sealWith fault
      | .ok (id, nonce) =>
        if id ≠ Bytes.fill 16 0 ∧ nonce ≠ Bytes.fill 32 0 then do
          set { s with pendingTime := some ⟨id, purpose, nonce⟩ }
          persistValue ⟨id, purpose, nonce⟩
        else sealWith .timeInvalid

/-- `accept_time`. -/
def acceptTime (request : AcceptSignedTimeRequest) (now : UInt64) : Act Unit := do
  authorizeContext request.context
  let s ← get
  match TimePurpose.tryFrom request.purpose with
  | .error fault => sealWith fault
  | .ok purpose =>
    if request.unixSeconds < 0 then sealWith .timeInvalid
    else
      let unixSeconds := request.unixSeconds.toUInt64
      if s.pendingTime ≠ some ⟨request.timeRequestId, purpose, request.nonce⟩
          ∨ request.expiresAt ≤ now ∨ request.expiresAt ≤ unixSeconds then
        sealWith .timeInvalid
      else if request.sourceEpoch < s.timeFloors.sourceEpoch
          ∨ (request.sourceEpoch = s.timeFloors.sourceEpoch
            ∧ request.sourceSequence ≤ s.timeFloors.sourceSequence)
          ∨ unixSeconds ≤ s.timeFloors.unixSeconds then
        sealWith .regression
      else do
        set { s with
          timeFloors := ⟨request.sourceEpoch, request.sourceSequence, unixSeconds⟩
          pendingTime := none
          time := .valid request.sourceEpoch request.sourceSequence request.expiresAt
            request.timeRequestId purpose }
        persist

/-- `consume_live_time`. -/
def consumeLiveTime (purpose : TimePurpose) (now : UInt64) : Act Unit := do
  let s ← get
  match s.time with
  | .valid _ _ expiresAt _ actual =>
    if now < expiresAt ∧ actual = purpose then do
      set { s with time := .unavailable }
      persist
    else sealWith .timeInvalid
  | .unavailable => sealWith .timeUnavailable

/-! ## enrollment -/

structure EnrollmentIntent where
  generation : UInt64
  pendingSlot : UInt8
  hostname : Bounded hostnameMax
  deriving DecidableEq

structure CsrChunkIntent where
  (generation csrHandle : UInt64)
  chunkIndex : UInt32
  deriving DecidableEq

structure TlsSignatureIntent where
  relayGeneration : UInt64
  (transcriptHash activeProfileDigest : Bytes 32)
  publicRequestId : UInt64
  deriving DecidableEq

/-- The second half of `begin_enrollment`, with the active profile set aside. -/
def enrollBeside (active : Option RelayIntent) (hostname : Bounded hostnameMax) :
    Act EnrollmentIntent := do
  modify fun s => { s with previousActive := active }
  let s ← get
  match checkedSucc s.generationFloor with
  | none => sealWith .persistenceFailure
  | some generation => do
    let pendingSlot := freeSlot s.previousActive
    set { s with
      generationFloor := generation
      relay := .pending generation generation pendingSlot }
    persistValue ⟨generation, pendingSlot, hostname⟩

/-- `begin_enrollment`. -/
def beginEnrollment (request : BeginRelayEnrollmentRequest) (now : UInt64) :
    Act EnrollmentIntent := do
  authorizeContext request.context
  consumeLiveTime .enrollment now
  let s ← get
  match s.relay with
  | .active intent => enrollBeside (some intent) request.hostname
  | .empty => enrollBeside none request.hostname
  | _ => sealWith .providerSplitBrain

/-- `consume_receipt`. -/
def consumeReceipt (request : ConsumeStagedRelayProfileRequest) : Act Unit := do
  authorizeContext request.context
  let s ← get
  match s.relay with
  | .staged intent =>
    if intent.generation = request.generation ∧ intent.policyEpoch = request.policyEpoch
        ∧ constantTimeEq intent.profileDigest request.profileDigest then do
      set { s with relay := .receiptConsumed intent }
      persist
    else sealWith .receiptAbsent
  | .receiptConsumed _ => sealWith .receiptConsumed
  | _ => sealWith .receiptAbsent

/-- The intent that `prepare_commit` may prepare. -/
def RelayProfileState.preparable : RelayProfileState → Option RelayIntent
  | .receiptConsumed intent | .prepared intent => some intent
  | _ => none

/-- `prepare_commit`. -/
def prepareCommit (request : CommitRelayGenerationRequest) : Act RelayIntent := do
  authorizeContext request.context
  let s ← get
  match s.relay.preparable with
  | none => sealWith .providerSplitBrain
  | some intent =>
    if intent.generation ≠ request.generation ∨ intent.policyEpoch ≠ request.policyEpoch
        ∨ !constantTimeEq intent.profileDigest request.profileDigest then
      sealWith .providerSplitBrain
    else do
      set { s with relay := .prepared intent }
      persistValue intent

/-- `matches_receipt`. -/
def RelayIntent.matchesReceipt (receipt : ProviderCasReceipt) : Bool :=
  constantTimeEq intent.deviceId receipt.deviceId
    && constantTimeEq intent.authorityId receipt.authorityId
    && intent.authorityEpoch == receipt.authorityEpoch
    && intent.generation == receipt.generation
    && intent.policyEpoch == receipt.policyEpoch
    && intent.pendingSlot == receipt.pendingSlot
    && constantTimeEq intent.pendingSpkiDigest receipt.pendingSpkiDigest
    && constantTimeEq intent.profileDigest receipt.profileDigest
    && intent.bootEpoch == receipt.bootEpoch
    && intent.validationRequestId == receipt.validationRequestId
    && intent.uploadHandle == receipt.uploadHandle
    && intent.profileLen == receipt.profileLen

/-- `record_provider_promotion`: nothing here asks for the mode. -/
def recordProviderPromotion (receipt : ProviderCasReceipt) : Act Unit := do
  let s ← get
  if s.relay ≠ .prepared intent ∨ !intent.matchesReceipt receipt then
    sealWith .providerSplitBrain
  else do
    set { s with relay := .promoted intent receipt.providerSignature }
    persist

/-- `finalize_commit`: nothing here asks for the mode. -/
def finalizeCommit : Act Unit := do
  let s ← get
  match s.relay with
  | .promoted intent _ => do
    set { s with relay := .active intent, previousActive := none }
    persist
  | _ => sealWith .providerSplitBrain

/-- The generation that `abort` may abandon. -/
def RelayProfileState.abortable : RelayProfileState → Option UInt64
  | .pending generation _ _ => some generation
  | .uploading upload => some upload.generation
  | .staged intent | .receiptConsumed intent => some intent.generation
  | _ => none

/-- `abort`. -/
def abortEnrollment (request : AbortRelayEnrollmentRequest) : Act UInt64 := do
  authorizeContext request.context
  let s ← get
  if s.relay.abortable ≠ some request.generation then sealWith .invalidState
  else do
    set { s with
      relay := s.previousActive.elim .empty .active
      previousActive := none }
    persistValue request.generation

/-- `authorize_tls_signature`. -/
def authorizeTlsSignature (request : SignTls13ClientCertificateVerifyRequest) (now : UInt64) :
    Act TlsSignatureIntent := do
  authorizeContext request.context
  consumeLiveTime .tlsCertificateVerify now
  let s ← get
  match s.relay with
  | .active intent =>
    if intent.generation = request.relayGeneration
        ∧ constantTimeEq intent.profileDigest request.activeProfileDigest then
      persistValue ⟨intent.generation, request.transcriptHash, request.activeProfileDigest,
        request.publicRequestId⟩
    else sealWith .invalidState
  | _ => sealWith .invalidState

/-! ## reads -/

/-- `authorize_committed_state`. -/
def authorizeCommittedState (request : ReadCommittedRelayStateRequest) : Act RelayIntent := do
  authorizeContext request.context
  let s ← get
  match s.relay with
  | .active intent => persistValue intent
  | _ => sealWith .invalidState

/-- `authorize_csr_chunk`. -/
def authorizeCsrChunk (request : ReadRelayCsrChunkRequest) : Act CsrChunkIntent := do
  authorizeContext request.context
  let s ← get
  match s.relay with
  | .pending generation csrHandle _ =>
    if request.csrHandle = csrHandle then persistValue ⟨generation, csrHandle, request.chunkIndex⟩
    else sealWith .invalidState
  | _ => sealWith .invalidState

/-- `authorize_active_public_key`. -/
def authorizeActivePublicKey (request : GetRelayActivePublicKeyRequest) (now : UInt64) :
    Act RelayIntent := do
  authorizeContext request.context
  consumeLiveTime .relayHandshake now
  let s ← get
  match s.relay with
  | .active intent => persistValue intent
  | _ => sealWith .invalidState

/-! ## profile -/

/-- `matches_profile_request` of a relay intent. -/
def RelayIntent.matchesProfileRequest (request : ValidateAndStageRelayProfileRequest) : Bool :=
  intent.bootEpoch == request.context.bootEpoch && intent.generation == request.generation
    && intent.policyEpoch == request.policyEpoch
    && intent.pendingSlot == request.pendingSlot
    && constantTimeEq intent.pendingSpkiDigest request.pendingSpkiDigest
    && constantTimeEq intent.profileDigest request.profileDigest
    && constantTimeEq intent.tpmPublicDigest request.tpmPublicDigest
    && intent.uploadHandle == request.uploadHandle
    && intent.profileLen == request.profileLen

/-- `matches_profile_request` of an upload: all its chunks must have arrived. -/
def ProfileUploadIntent.matchesProfileRequest (upload : ProfileUploadIntent)
    (request : ValidateAndStageRelayProfileRequest) : Bool :=
  upload.complete && upload.bootEpoch == request.context.bootEpoch
    && upload.generation == request.generation
    && upload.policyEpoch == request.policyEpoch
    && upload.pendingSlot == request.pendingSlot
    && constantTimeEq upload.pendingSpkiDigest request.pendingSpkiDigest
    && constantTimeEq upload.profileDigest request.profileDigest
    && constantTimeEq upload.tpmPublicDigest request.tpmPublicDigest
    && upload.uploadHandle == request.uploadHandle
    && upload.profileLen == request.profileLen

/-- `admit_profile_validation`. -/
def admitProfileValidation (request : ValidateAndStageRelayProfileRequest) :
    Act AdmittedProfileValidation := do
  authorizeContext request.context
  let s ← get
  match s.relay with
  | .uploading upload =>
    if upload.matchesProfileRequest request then
      persistValue ⟨request, s.authorityEpoch, upload.csrHandle⟩
    else sealWith .profileRejected
  | .staged intent =>
    if intent.matchesProfileRequest request then
      persistValue ⟨request, s.authorityEpoch, intent.csrHandle⟩
    else sealWith .profileRejected
  | _ => sealWith .invalidState

variable (s : AuthorityState) (intent : ProfileUploadIntent)

/-- The relay intent that a complete upload becomes. -/
def AuthorityState.stagedIntent (upload : ProfileUploadIntent)
    (validationRequestId : UInt64) : RelayIntent where
  deviceId := s.deviceId
  authorityId := s.authorityId
  authorityEpoch := s.authorityEpoch
  generation := upload.generation
  csrHandle := upload.csrHandle
  policyEpoch := upload.policyEpoch
  pendingSlot := upload.pendingSlot
  pendingSpkiDigest := upload.pendingSpkiDigest
  profileDigest := upload.profileDigest
  bootEpoch := upload.bootEpoch
  validationRequestId := validationRequestId
  tpmPublicDigest := upload.tpmPublicDigest
  uploadHandle := upload.uploadHandle
  profileLen := upload.profileLen

/-- `stage_profile`: nothing here asks for the mode. -/
def stageProfile (verified : AdmittedProfileValidation) : Act RelayIntent := do
  let s ← get
  match s.relay with
  | .uploading upload =>
    if upload.matchesProfileRequest verified.request then do
      let intent := s.stagedIntent upload verified.request.context.requestId
      set { s with relay := .staged intent }
      persistValue intent
    else sealWith .profileRejected
  | .staged intent =>
    if intent.matchesProfileRequest verified.request then pure intent
    else sealWith .profileRejected
  | _ => sealWith .invalidState

/-! ## upload -/

inductive ProfileChunkMode
  | write
  | verifyExisting
  deriving DecidableEq

structure ProfileChunkIntent where
  upload : ProfileUploadIntent
  chunkIndex : UInt8
  chunk : Bounded profileChunkMax
  mode : ProfileChunkMode
  deriving DecidableEq

variable (request : BeginRelayProfileUploadRequest)

/-- `upload_matches`. -/
def uploadMatches (intent : ProfileUploadIntent) : Bool :=
  intent.bootEpoch == request.context.bootEpoch && intent.generation == request.generation
    && intent.policyEpoch == request.policyEpoch
    && intent.pendingSlot == request.pendingSlot
    && intent.pendingSpkiDigest == request.pendingSpkiDigest
    && intent.profileDigest == request.profileDigest
    && intent.tpmPublicDigest == request.tpmPublicDigest
    && intent.uploadHandle == request.uploadHandle
    && intent.profileLen == request.profileLen

/-- `expected_chunk_len`. -/
def expectedChunkLen (index : UInt8) : Option Nat :=
  let offset := index.toNat * profileChunkMax
  if intent.profileLen.toNat < offset then none
  else
    let remaining := intent.profileLen.toNat - offset
    if remaining ≠ 0 then some (min remaining profileChunkMax) else none

/-- `upload_intent`. -/
def AuthorityState.uploadIntent (csrHandle : UInt64) : ProfileUploadIntent where
  deviceId := s.deviceId
  authorityId := s.authorityId
  authorityEpoch := s.authorityEpoch
  bootEpoch := request.context.bootEpoch
  generation := request.generation
  csrHandle := csrHandle
  policyEpoch := request.policyEpoch
  pendingSlot := request.pendingSlot
  pendingSpkiDigest := request.pendingSpkiDigest
  profileDigest := request.profileDigest
  tpmPublicDigest := request.tpmPublicDigest
  uploadHandle := request.uploadHandle
  profileLen := request.profileLen
  nextIndex := 0

/-- `upload_intent_valid`. -/
def AuthorityState.uploadIntentValid : Bool := s.deviceId == intent.deviceId
    && s.authorityId == intent.authorityId
    && s.authorityEpoch == intent.authorityEpoch
    && s.boot == .opened intent.bootEpoch
    && decide (intent.pendingSlot ≤ 1)
    && intent.csrHandle != 0
    && intent.uploadHandle != 0
    && intent.profileLen != 0
    && decide (intent.profileLen.toNat ≤ profileMaxLen)
    && intent.nextIndex == 0

/-- `authorize_profile_upload`. -/
def authorizeProfileUpload : Act ProfileUploadIntent := do
  authorizeContext request.context
  let s ← get
  if request.pendingSlot > 1 ∨ request.uploadHandle = 0 ∨ request.profileLen = 0
      ∨ request.profileLen.toNat > profileMaxLen then
    sealWith .profileRejected
  else
    match s.relay with
    | .pending generation csrHandle pendingSlot =>
      if generation = request.generation ∧ pendingSlot = request.pendingSlot then
        persistValue (s.uploadIntent request csrHandle)
      else sealWith .profileRejected
    | .uploading intent =>
      if uploadMatches request intent then persistValue intent else sealWith .profileRejected
    | _ => sealWith .invalidState

/-- The pending enrollment that an upload intent starts from. -/
def AuthorityState.startsUpload : Bool :=
  s.relay == .pending intent.generation intent.csrHandle intent.pendingSlot
    && s.uploadIntentValid intent

/-- `acknowledge_profile_upload`: nothing here asks for the mode. -/
def acknowledgeProfileUpload : Act ProfileUploadIntent := do
  let s ← get
  if s.startsUpload intent then do
    set { s with relay := .uploading intent }
    persistValue intent
  else if s.relay = .uploading intent then pure intent
  else sealWith .profileRejected

/-- `authorize_profile_chunk`. -/
def authorizeProfileChunk (request : WriteRelayProfileChunkRequest) : Act ProfileChunkIntent := do
  authorizeContext request.context
  let s ← get
  match s.relay with
  | .uploading upload =>
    if upload.uploadHandle = request.uploadHandle then
      match expectedChunkLen upload request.chunkIndex with
      | none => sealWith .profileRejected
      | some expected =>
        if request.chunk.len ≠ expected ∨ request.chunkIndex > upload.nextIndex then
          sealWith .profileRejected
        else
          persistValue ⟨upload, request.chunkIndex, request.chunk,
            if request.chunkIndex < upload.nextIndex then .verifyExisting else .write⟩
    else sealWith .profileRejected
  | _ => sealWith .invalidState

/-- The upload after the next chunk, when there is one. -/
def ProfileUploadIntent.advanced (upload : ProfileUploadIntent) : Option ProfileUploadIntent :=
  match checkedSuccU8 upload.nextIndex with
  | some value =>
    if value ≤ upload.chunkCount then some { upload with nextIndex := value } else none
  | none => none

/-- `acknowledge_profile_chunk`: nothing here asks for the mode. -/
def acknowledgeProfileChunk (intent : ProfileChunkIntent) : Act ProfileUploadIntent := do
  let s ← get
  if s.relay ≠ .uploading intent.upload then sealWith .profileRejected
  else if intent.mode = .verifyExisting then pure intent.upload
  else if intent.chunkIndex ≠ intent.upload.nextIndex then sealWith .profileRejected
  else
    match intent.upload.advanced with
    | some next => do
      set { s with relay := .uploading next }
      persistValue next
    | none => sealWith .profileRejected

/-- The relay state that an upload may be rejected in. -/
def RelayProfileState.rejectable (relay : RelayProfileState) (intent : ProfileUploadIntent) :
    Bool :=
  match relay with
  | .pending generation _ _ => generation == intent.generation
  | .uploading current => current == intent
  | _ => false

/-- `reject_profile_upload`. -/
def rejectProfileUpload : Act Unit := do
  let s ← get
  if s.relay.rejectable intent then sealWith .profileRejected else sealWith .invalidState

/-- `reject_profile_chunk`. -/
def rejectProfileChunk (intent : ProfileChunkIntent) : Act Unit := do
  let s ← get
  if s.relay ≠ .uploading intent.upload then sealWith .invalidState
  else sealWith .profileRejected

/-! ## runs -/

/-- The operations of the authority, with what they are given: the verified request, intent or
receipt, and the answer of the clock or of the challenge source. -/
inductive Op
  | openBoot (request : OpenBootRequest) (measurement : Bytes 32)
  | requestSignedTime (request : RequestSignedTimeRequest)
      (generated : Except AuthorityFault (Bytes 16 × Bytes 32))
  | acceptTime (request : AcceptSignedTimeRequest) (now : UInt64)
  | beginEnrollment (request : BeginRelayEnrollmentRequest) (now : UInt64)
  | consumeReceipt (request : ConsumeStagedRelayProfileRequest)
  | prepareCommit (request : CommitRelayGenerationRequest)
  | recordProviderPromotion (intent : RelayIntent) (receipt : ProviderCasReceipt)
  | finalizeCommit
  | abort (request : AbortRelayEnrollmentRequest)
  | authorizeTlsSignature (request : SignTls13ClientCertificateVerifyRequest) (now : UInt64)
  | authorizeCommittedState (request : ReadCommittedRelayStateRequest)
  | authorizeCsrChunk (request : ReadRelayCsrChunkRequest)
  | authorizeActivePublicKey (request : GetRelayActivePublicKeyRequest) (now : UInt64)
  | admitProfileValidation (request : ValidateAndStageRelayProfileRequest)
  | stageProfile (verified : AdmittedProfileValidation)
  | authorizeProfileUpload (request : BeginRelayProfileUploadRequest)
  | acknowledgeProfileUpload (intent : ProfileUploadIntent)
  | authorizeProfileChunk (request : WriteRelayProfileChunkRequest)
  | acknowledgeProfileChunk (intent : ProfileChunkIntent)
  | rejectProfileUpload (intent : ProfileUploadIntent)
  | rejectProfileChunk (intent : ProfileChunkIntent)

/-- What an operation that succeeds returns. -/
inductive Value
  | epoch (bootEpoch : UInt64)
  | challenge (challenge : PendingTimeChallenge)
  | enrollment (intent : EnrollmentIntent)
  | relay (intent : RelayIntent)
  | generation (generation : UInt64)
  | tls (intent : TlsSignatureIntent)
  | csrChunk (intent : CsrChunkIntent)
  | admitted (validation : AdmittedProfileValidation)
  | upload (intent : ProfileUploadIntent)
  | chunk (intent : ProfileChunkIntent)
  | done
  deriving DecidableEq

open Value

/-- One operation. -/
def perform : Op → Act Value
  | .openBoot request measurement => epoch <$> openBoot request measurement
  | .requestSignedTime request generated => challenge <$> requestSignedTime request generated
  | .acceptTime request now => (fun _ => done) <$> acceptTime request now
  | .beginEnrollment request now => enrollment <$> beginEnrollment request now
  | .consumeReceipt request => (fun _ => done) <$> consumeReceipt request
  | .prepareCommit request => relay <$> prepareCommit request
  | .recordProviderPromotion intent receipt =>
    (fun _ => done) <$> recordProviderPromotion intent receipt
  | .finalizeCommit => (fun _ => done) <$> finalizeCommit
  | .abort request => generation <$> abortEnrollment request
  | .authorizeTlsSignature request now => tls <$> authorizeTlsSignature request now
  | .authorizeCommittedState request => relay <$> authorizeCommittedState request
  | .authorizeCsrChunk request => csrChunk <$> authorizeCsrChunk request
  | .authorizeActivePublicKey request now => relay <$> authorizeActivePublicKey request now
  | .admitProfileValidation request => admitted <$> admitProfileValidation request
  | .stageProfile verified => relay <$> stageProfile verified
  | .authorizeProfileUpload request => upload <$> authorizeProfileUpload request
  | .acknowledgeProfileUpload intent => upload <$> acknowledgeProfileUpload intent
  | .authorizeProfileChunk request => chunk <$> authorizeProfileChunk request
  | .acknowledgeProfileChunk intent => upload <$> acknowledgeProfileChunk intent
  | .rejectProfileUpload intent => (fun _ => done) <$> rejectProfileUpload intent
  | .rejectProfileChunk intent => (fun _ => done) <$> rejectProfileChunk intent

/-- An operation is served, the device restarts, or the power fails while an operation is being
served and the device restarts. -/
inductive Event
  | serve (answers : List Bool) (op : Op)
  | restart (config : AuthorityStateConfig) (verified : Bool)
  | powerCut (answers : List Bool) (op : Op) (config : AuthorityStateConfig) (verified : Bool)

inductive Reply
  | value (value : Value)
  | fault (fault : AuthorityFault)
  | started
  deriving DecidableEq

/-- The authority with a store that takes writes as `answers` says. -/
def AuthorityState.facing (answers : List Bool) (cut : Bool) : AuthorityState :=
  { s with store := { s.store with answers := answers, cut := cut } }

/-- The device comes up from the record it stored last, or new when it stored none.  A sealed
counter domain yields no record, and a record that does not verify starts no authority. -/
def startUp (store : ProtectedStore) (config : AuthorityStateConfig) (verified : Bool) :
    Option AuthorityState :=
  if store.sealed then none
  else
    match store.record with
    | none => some (.new store config)
    | some record =>
      match verifyProtectedRecord record verified with
      | .error _ => none
      | .ok record => some (.restore store record config.bootChallenge)

/-- The state in which a program ends, whether it succeeds or not. -/
def ending {α : Type} : EStateM.Result AuthorityFault AuthorityState α → AuthorityState
  | .ok _ s => s
  | .error _ s => s

/-- One event. -/
def step : Event → Option (Reply × AuthorityState)
  | .serve answers op =>
    match perform op (s.facing answers false) with
    | .ok value s' => some (.value value, s')
    | .error fault s' => some (.fault fault, s')
  | .restart config verified =>
    (startUp s.store config verified).map fun s' => (.started, s')
  | .powerCut answers op config verified =>
    (startUp (ending (perform op (s.facing answers true))).store config verified).map fun s' =>
      (.started, s')

end Cellos.Authority
