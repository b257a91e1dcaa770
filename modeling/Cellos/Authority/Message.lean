import Mathlib

/-!
# Cellos.Authority.Message

The typed requests of the private protocol between the application processor and the
protected authority, with the values they carry.

A request reaches the state machine as a verified token (`ValidatedRequest`,
`VerifiedBootMeasurement`, …).  Who may mint such a token is decided by verifiers outside the
state machine, so here a token is the request it carries, and every request may be presented.
-/

namespace Cellos.Authority

/-! ## bytes and words -/

/-- `[u8; n]`. -/
@[ext]
structure Bytes (n : Nat) where
  bytes : List UInt8
  length_bytes : bytes.length = n
  deriving DecidableEq

/-- `[byte; n]`. -/
def Bytes.fill (n : Nat) (byte : UInt8) : Bytes n := ⟨List.replicate n byte, List.length_replicate⟩

/-- `Bounded<n>`: the occupied bytes only. -/
@[ext]
structure Bounded (n : Nat) where
  bytes : List UInt8
  length_le : bytes.length ≤ n
  deriving DecidableEq

def Bounded.len {n : Nat} (b : Bounded n) : Nat := b.bytes.length

/-- The loop of `constant_time_eq`: the differences of all byte pairs, or-ed together. -/
def differences : UInt8 → List UInt8 → List UInt8 → UInt8
  | diff, a :: as, b :: bs => differences (diff ||| (a ^^^ b)) as bs
  | diff, _, _ => diff

def constantTimeEq {n : Nat} (a b : Bytes n) : Bool := differences 0 a.bytes b.bytes == 0

/-- A difference once seen is never lost. -/
theorem differences_eq_zero (as bs : List UInt8) (h : as.length = bs.length) (diff : UInt8) :
    differences diff as bs = 0 ↔ diff = 0 ∧ as = bs := by
  induction as generalizing bs diff with
  | nil =>
    cases bs with
    | nil => simp [differences]
    | cons => simp at h
  | cons _ _ ih =>
    cases bs with
    | nil => simp at h
    | cons b bs =>
      simp only [List.length_cons, Nat.add_right_cancel_iff] at h
      rw [differences, ih bs h, UInt8.or_eq_zero_iff, UInt8.xor_eq_zero_iff, List.cons.injEq]
      tauto

/-- Comparing in constant time is comparing. -/
@[simp] theorem constantTimeEq_iff : constantTimeEq a b = true ↔ a = b := by
  have hlen : a.bytes.length = b.bytes.length := a.length_bytes.trans b.length_bytes.symm
  unfold constantTimeEq
  rw [beq_iff_eq, differences_eq_zero _ _ hlen, Bytes.ext_iff]
  simp

/-- `value.checked_add(1)` of a `u64`. -/
def checkedSucc (value : UInt64) : Option UInt64 :=
  if value.toNat + 1 < 2 ^ 64 then some (value + 1) else none

/-- `value.checked_add(1)` of a `u8`. -/
def checkedSuccU8 (value : UInt8) : Option UInt8 :=
  if value.toNat + 1 < 2 ^ 8 then some (value + 1) else none

theorem checkedSucc_eq_some (h : checkedSucc value = some next) :
    next.toNat = value.toNat + 1 := by
  unfold checkedSucc at h
  split at h
  · rename_i hlt
    cases h
    simp
    omega
  · contradiction

theorem checkedSuccU8_eq_some (h : checkedSuccU8 value = some next) :
    next.toNat = value.toNat + 1 := by
  unfold checkedSuccU8 at h
  split at h
  · rename_i hlt
    cases h
    simp
    omega
  · contradiction

/-! ## faults -/

/-- `AuthorityFault`. -/
inductive AuthorityFault
  | malformed
  | unsupportedVersion
  | invalidLength
  | invalidState
  | identityMismatch
  | challengeMismatch
  | staleRequest
  | replay
  | regression
  | timeInvalid
  | timeUnavailable
  | profileRejected
  | receiptAbsent
  | receiptConsumed
  | providerSplitBrain
  | persistenceFailure
  | sealed
  deriving DecidableEq

/-! ## sizes -/

/-- `PROFILE_CHUNK_MAX`. -/
def profileChunkMax : Nat := 768

/-- `PROFILE_MAX_LEN`. -/
def profileMaxLen : Nat := 12288

/-- `HOSTNAME_MAX`. -/
def hostnameMax : Nat := 64

/-- `SIGNATURE_LEN`. -/
def signatureLen : Nat := 64

/-! ## requests -/

/-- `RequestContext`, as far as the state machine reads it. -/
structure RequestContext where
  (deviceId authorityId : Bytes 32)
  (bootEpoch sequence : UInt64)
  challenge : Bytes 32
  requestId : UInt64
  deriving DecidableEq

structure OpenBootRequest where
  context : RequestContext
  loaderDigest : Bytes 32

structure ReadCommittedRelayStateRequest where
  context : RequestContext

structure RequestSignedTimeRequest where
  context : RequestContext
  purpose : UInt8

structure AcceptSignedTimeRequest where
  context : RequestContext
  timeRequestId : Bytes 16
  purpose : UInt8
  (sourceEpoch sourceSequence : UInt64)
  unixSeconds : Int64
  expiresAt : UInt64
  nonce : Bytes 32

structure BeginRelayEnrollmentRequest where
  context : RequestContext
  hostname : Bounded hostnameMax

structure ReadRelayCsrChunkRequest where
  context : RequestContext
  csrHandle : UInt64
  chunkIndex : UInt32

structure ValidateAndStageRelayProfileRequest where
  context : RequestContext
  (generation policyEpoch : UInt64)
  pendingSlot : UInt8
  (pendingSpkiDigest profileDigest tpmPublicDigest : Bytes 32)
  uploadHandle : UInt64
  profileLen : UInt32
  deriving DecidableEq

structure ConsumeStagedRelayProfileRequest where
  context : RequestContext
  (generation policyEpoch : UInt64)
  profileDigest : Bytes 32

structure CommitRelayGenerationRequest where
  context : RequestContext
  (generation policyEpoch : UInt64)
  profileDigest : Bytes 32

structure AbortRelayEnrollmentRequest where
  context : RequestContext
  generation : UInt64

structure GetRelayActivePublicKeyRequest where
  context : RequestContext

structure SignTls13ClientCertificateVerifyRequest where
  context : RequestContext
  transcriptHash : Bytes 32
  relayGeneration : UInt64
  activeProfileDigest : Bytes 32
  publicRequestId : UInt64

structure BeginRelayProfileUploadRequest where
  context : RequestContext
  (uploadHandle generation policyEpoch : UInt64)
  pendingSlot : UInt8
  (pendingSpkiDigest profileDigest tpmPublicDigest : Bytes 32)
  profileLen : UInt32

structure WriteRelayProfileChunkRequest where
  context : RequestContext
  uploadHandle : UInt64
  chunkIndex : UInt8
  chunk : Bounded profileChunkMax

/-- `ProviderCasReceipt`: the provider's proof that it promoted one exact intent. -/
structure ProviderCasReceipt where
  (deviceId authorityId : Bytes 32)
  (authorityEpoch generation policyEpoch : UInt64)
  pendingSlot : UInt8
  (pendingSpkiDigest profileDigest : Bytes 32)
  (bootEpoch validationRequestId uploadHandle : UInt64)
  profileLen : UInt32
  providerSignature : Bytes signatureLen

/-- `AdmittedProfileValidation`: a profile request bound to the enrollment that may stage it. -/
structure AdmittedProfileValidation where
  request : ValidateAndStageRelayProfileRequest
  (authorityEpoch csrHandle : UInt64)
  deriving DecidableEq

end Cellos.Authority
