import Cellos.Authority.Message

/-!
# Cellos.Authority.Record

The record the authority keeps in protected storage, and the two checks on it: that one record
makes sense on its own (`invariantsHold`), and that one record may follow another
(`verifyProtectedSuccessor`).
-/

namespace Cellos.Authority

/-! ## the parts of a record -/

inductive AuthorityMode
  | ready
  | serving
  | sealed
  deriving DecidableEq

inductive BootState
  | closed
  | opened (epoch : UInt64)
  deriving DecidableEq

inductive TimePurpose
  | enrollment
  | relayHandshake
  | tlsCertificateVerify
  deriving DecidableEq

/-- `TimePurpose::try_from`. -/
def TimePurpose.tryFrom (value : UInt8) : Except AuthorityFault TimePurpose :=
  if value = 1 then .ok .enrollment
  else if value = 2 then .ok .relayHandshake
  else if value = 3 then .ok .tlsCertificateVerify
  else .error .timeInvalid

structure PendingTimeChallenge where
  timeRequestId : Bytes 16
  purpose : TimePurpose
  nonce : Bytes 32
  deriving DecidableEq

structure ProtectedTimeFloors where
  (sourceEpoch sourceSequence unixSeconds : UInt64)
  deriving DecidableEq

inductive TimeState
  | unavailable
  | valid (sourceEpoch sequence expiresAt : UInt64) (timeRequestId : Bytes 16)
      (purpose : TimePurpose)
  deriving DecidableEq

/-- `RelayIntent`: one exact profile on its way to become the active one. -/
structure RelayIntent where
  (deviceId authorityId : Bytes 32)
  (authorityEpoch generation csrHandle policyEpoch : UInt64)
  pendingSlot : UInt8
  (pendingSpkiDigest profileDigest : Bytes 32)
  (bootEpoch validationRequestId : UInt64)
  tpmPublicDigest : Bytes 32
  uploadHandle : UInt64
  profileLen : UInt32
  deriving DecidableEq

/-- `ProfileUploadIntent`: a profile being uploaded, chunk by chunk. -/
structure ProfileUploadIntent where
  (deviceId authorityId : Bytes 32)
  (authorityEpoch bootEpoch generation csrHandle policyEpoch : UInt64)
  pendingSlot : UInt8
  (pendingSpkiDigest profileDigest tpmPublicDigest : Bytes 32)
  uploadHandle : UInt64
  profileLen : UInt32
  nextIndex : UInt8
  deriving DecidableEq

namespace ProfileUploadIntent

variable (upload : ProfileUploadIntent)

/-- `chunk_count`: the quotient is cut to a byte, as in the source. -/
def chunkCount : UInt8 :=
  UInt8.ofNat ((upload.profileLen.toNat + (profileChunkMax - 1)) / profileChunkMax)

def complete : Bool := upload.nextIndex == upload.chunkCount

/-- `matches_relay_intent`. -/
def matchesRelayIntent (intent : RelayIntent) : Bool := upload.deviceId == intent.deviceId
    && upload.authorityId == intent.authorityId
    && upload.authorityEpoch == intent.authorityEpoch
    && upload.bootEpoch == intent.bootEpoch
    && upload.generation == intent.generation
    && upload.csrHandle == intent.csrHandle
    && upload.policyEpoch == intent.policyEpoch
    && upload.pendingSlot == intent.pendingSlot
    && constantTimeEq upload.pendingSpkiDigest intent.pendingSpkiDigest
    && constantTimeEq upload.profileDigest intent.profileDigest
    && constantTimeEq upload.tpmPublicDigest intent.tpmPublicDigest
    && upload.uploadHandle == intent.uploadHandle
    && upload.profileLen == intent.profileLen

end ProfileUploadIntent

inductive RelayProfileState
  | empty
  | pending (generation csrHandle : UInt64) (pendingSlot : UInt8)
  | uploading (upload : ProfileUploadIntent)
  | staged (intent : RelayIntent)
  | receiptConsumed (intent : RelayIntent)
  | prepared (intent : RelayIntent)
  | promoted (intent : RelayIntent) (providerSignature : Bytes signatureLen)
  | active (intent : RelayIntent)
  deriving DecidableEq

/-- `ProtectedAuthorityRecord`. -/
structure ProtectedAuthorityRecord where
  revision : UInt64
  mode : AuthorityMode
  boot : BootState
  time : TimeState
  relay : RelayProfileState
  (deviceId authorityId : Bytes 32)
  (authorityEpoch bootFloor generationFloor stateEpoch : UInt64)
  approvedLoaderDigest : Bytes 32
  lastRequestSequence : UInt64
  previousActive : Option RelayIntent
  pendingTime : Option PendingTimeChallenge
  timeFloors : ProtectedTimeFloors

/-! ## one record on its own -/

/-- The slot that an enrollment fills: the one the active profile does not occupy. -/
def freeSlot (active : Option RelayIntent) : UInt8 :=
  active.elim 0 fun intent => intent.pendingSlot ^^^ 1

def modeBootValid (mode : AuthorityMode) (boot : BootState) : Bool :=
  match mode with
  | .ready => boot == .closed
  | .serving =>
    match boot with
    | .opened _ => true
    | .closed => false
  | .sealed => true

/-- The relay states in which an enrollment is under way. -/
def RelayProfileState.inFlight : RelayProfileState → Bool
  | .pending .. | .uploading _ | .staged _ | .receiptConsumed _ | .prepared _ | .promoted .. => true
  | .empty | .active _ => false

namespace ProtectedAuthorityRecord

variable (record : ProtectedAuthorityRecord)

/-- `intent_valid`. -/
def intentValid (intent : RelayIntent) : Bool := intent.deviceId == record.deviceId
    && intent.authorityId == record.authorityId
    && intent.authorityEpoch == record.authorityEpoch
    && intent.generation != 0
    && decide (intent.generation ≤ record.generationFloor)
    && intent.csrHandle != 0
    && decide (intent.pendingSlot ≤ 1)
    && decide (intent.bootEpoch ≤ record.bootFloor)
    && intent.uploadHandle != 0
    && intent.profileLen != 0
    && decide (intent.profileLen.toNat ≤ profileMaxLen)

/-- `current_intent_valid`. -/
def currentIntentValid (intent : RelayIntent) : Bool :=
  record.intentValid intent && intent.generation == record.generationFloor

/-- `expected_pending_slot`. -/
def expectedPendingSlot : UInt8 := freeSlot record.previousActive

/-- `upload_valid`. -/
def uploadValid (intent : ProfileUploadIntent) : Bool := intent.deviceId == record.deviceId
    && intent.authorityId == record.authorityId
    && intent.authorityEpoch == record.authorityEpoch
    && decide (intent.bootEpoch ≤ record.bootFloor)
    && intent.generation == record.generationFloor
    && intent.generation != 0
    && intent.csrHandle != 0
    && intent.pendingSlot == record.expectedPendingSlot
    && decide (intent.pendingSlot ≤ 1)
    && intent.uploadHandle != 0
    && intent.profileLen != 0
    && decide (intent.profileLen.toNat ≤ profileMaxLen)
    && decide (intent.nextIndex ≤ intent.chunkCount)

/-- The first check of `invariants_hold`: mode, boot and an outstanding time challenge. -/
def bootInvariant : Bool := modeBootValid record.mode record.boot && (match record.boot with
      | .opened epoch => epoch == record.bootFloor && record.approvedLoaderDigest != Bytes.fill 32 0
      | .closed => true)
    && (record.pendingTime.isNone || record.time == .unavailable)

/-- The second check of `invariants_hold`: a time lease is the newest one, and is used while
serving only. -/
def timeInvariant : Bool :=
  match record.time with
  | .valid sourceEpoch sequence expiresAt _ _ =>
    record.mode == .serving && sourceEpoch == record.timeFloors.sourceEpoch
      && sequence == record.timeFloors.sourceSequence
      && decide (record.timeFloors.unixSeconds < expiresAt)
  | .unavailable => true

/-- The third check of `invariants_hold`: a set-aside active profile belongs to a running
enrollment of a later generation. -/
def previousActiveInvariant : Bool :=
  match record.previousActive with
  | some intent =>
    record.relay.inFlight && record.intentValid intent
      && decide (intent.generation < record.generationFloor)
  | none => true

/-- The last check of `invariants_hold`: the relay state carries what its stage needs. -/
def relayInvariant : Bool :=
  match record.relay with
  | .empty => record.previousActive.isNone
  | .pending generation csrHandle pendingSlot =>
    generation != 0 && generation == csrHandle && generation == record.generationFloor
      && pendingSlot == record.expectedPendingSlot
  | .uploading intent => record.uploadValid intent
  | .staged intent | .receiptConsumed intent | .prepared intent =>
    record.currentIntentValid intent
  | .promoted intent _ => record.currentIntentValid intent
  | .active intent => record.previousActive.isNone && record.intentValid intent

/-- `invariants_hold`. -/
def invariantsHold : Bool :=
  record.bootInvariant && record.timeInvariant && record.previousActiveInvariant
    && record.relayInvariant

end ProtectedAuthorityRecord

/-! ## one record after another -/

variable (previous next : ProtectedAuthorityRecord)

/-- `enrolled`. -/
def enrolled (active : Option RelayIntent) (generation : UInt64) (pendingSlot : UInt8) : Bool :=
  checkedSucc previous.generationFloor == some generation && next.generationFloor == generation
    && pendingSlot == freeSlot active
    && next.previousActive == active

/-- `stable`. -/
def stable : Bool := previous.generationFloor == next.generationFloor

/-- `time_floors_strictly_advance`. -/
def timeFloorsStrictlyAdvance (old new : ProtectedTimeFloors) : Bool :=
  decide (old.unixSeconds < new.unixSeconds) && (decide (old.sourceEpoch < new.sourceEpoch)
      || (new.sourceEpoch == old.sourceEpoch && decide (old.sourceSequence < new.sourceSequence)))

/-- `time_advances`. -/
def timeAdvances : Bool :=
  if previous.time = next.time ∧ previous.pendingTime = next.pendingTime then
    previous.timeFloors == next.timeFloors
  else
    match previous.time, previous.pendingTime, next.time, next.pendingTime with
    | .unavailable, none, .unavailable, some _ => previous.timeFloors == next.timeFloors
    | .unavailable, some challenge, .valid sourceEpoch sequence _ timeRequestId purpose, none =>
      timeRequestId == challenge.timeRequestId && purpose == challenge.purpose
        && sourceEpoch == next.timeFloors.sourceEpoch
        && sequence == next.timeFloors.sourceSequence
        && timeFloorsStrictlyAdvance previous.timeFloors next.timeFloors
    | .valid .., none, .unavailable, none => previous.timeFloors == next.timeFloors
    | _, _, _, _ => false

/-- The next record opens the boot after the previous one's. -/
def bootAdvanced : Bool :=
  match next.boot with
  | .opened epoch =>
    epoch == next.bootFloor && checkedSucc previous.bootFloor == some epoch && next.mode == .serving
      && previous.boot != next.boot
  | .closed => false

/-- `state_advances`. -/
def stateAdvances : Bool :=
  if previous.mode = .sealed then
    next.mode == .sealed && previous.boot == next.boot && previous.time == next.time
      && previous.pendingTime == next.pendingTime
      && previous.timeFloors == next.timeFloors
  else if next.mode = .sealed then
    previous.boot == next.boot && next.time == .unavailable && next.pendingTime.isNone
      && previous.timeFloors == next.timeFloors
  else if bootAdvanced previous next = false
      ∧ (previous.mode ≠ next.mode ∨ previous.boot ≠ next.boot) then
    false
  else if bootAdvanced previous next = true then
    next.time == .unavailable && next.pendingTime.isNone && previous.timeFloors == next.timeFloors
  else
    timeAdvances previous next

/-- An abandoned enrollment returns to the profile that was active before it. -/
def abandoned : Bool :=
  match next.relay with
  | .empty => stable previous next && previous.previousActive.isNone && next.previousActive.isNone
  | .active new =>
    stable previous next && previous.previousActive == some new && next.previousActive.isNone
  | _ => false

/-- `relay_advances`. -/
def relayAdvances : Bool :=
  if previous.relay = next.relay ∧ previous.previousActive = next.previousActive then
    previous.generationFloor == next.generationFloor
  else
    match previous.relay, next.relay with
    | .empty, .pending generation _ pendingSlot =>
      enrolled previous next none generation pendingSlot
    | .active active, .pending generation _ pendingSlot =>
      enrolled previous next (some active) generation pendingSlot
    | .pending generation csrHandle pendingSlot, .uploading upload =>
      stable previous next && generation == upload.generation && csrHandle == upload.csrHandle
        && pendingSlot == upload.pendingSlot
        && upload.nextIndex == 0
        && previous.previousActive == next.previousActive
    | .uploading old, .uploading new =>
      stable previous next && checkedSuccU8 old.nextIndex == some new.nextIndex
        && { old with nextIndex := new.nextIndex } == new
        && previous.previousActive == next.previousActive
    | .uploading upload, .staged intent =>
      stable previous next && upload.complete && upload.matchesRelayIntent intent
        && previous.previousActive == next.previousActive
    | .staged old, .receiptConsumed new | .receiptConsumed old, .prepared new =>
      stable previous next && old == new && previous.previousActive == next.previousActive
    | .prepared old, .promoted new _ =>
      stable previous next && old == new && previous.previousActive == next.previousActive
    | .promoted old _, .active new =>
      stable previous next && old == new && next.previousActive.isNone
    | .pending .., _ | .uploading _, _ | .staged _, _ | .receiptConsumed _, _ =>
      abandoned previous next
    | _, _ => false

/-- `verify_protected_successor`. -/
def verifyProtectedSuccessor : Except AuthorityFault Unit :=
  if previous.invariantsHold && next.invariantsHold
      && checkedSucc previous.revision == some next.revision
      && previous.deviceId == next.deviceId
      && previous.authorityId == next.authorityId
      && previous.authorityEpoch == next.authorityEpoch
      && previous.stateEpoch == next.stateEpoch
      && previous.approvedLoaderDigest == next.approvedLoaderDigest
      && decide (previous.bootFloor ≤ next.bootFloor)
      && decide (previous.generationFloor ≤ next.generationFloor)
      && decide (previous.lastRequestSequence ≤ next.lastRequestSequence)
      && stateAdvances previous next
      && relayAdvances previous next then
    .ok ()
  else .error .persistenceFailure

/-- `verify_protected_record`; `verified` is the verdict of the record verifier. -/
def verifyProtectedRecord (record : ProtectedAuthorityRecord) (verified : Bool) :
    Except AuthorityFault ProtectedAuthorityRecord :=
  if !record.invariantsHold || !verified then .error .persistenceFailure else .ok record

end Cellos.Authority
