import Cellos.Authority.Course

/-!
# Cellos.Authority.Checker

Which edits of the authority the checker accepts.

The checker compares two records, here two states of one authority: the one that was stored
last and the one about to be stored.  A state splits into two parts that the checker judges
apart: mode, boot and time, and the relay profile with its generations.
-/

namespace Cellos.Authority

open ProtectedAuthorityRecord AuthorityState

/-! ## well-formed states -/

/-- The state would be stored as a record that makes sense on its own. -/
structure WellFormed (s : AuthorityState) : Prop where
  boot : (s.snapshot 0).bootInvariant = true
  time : (s.snapshot 0).timeInvariant = true
  previousActive : (s.snapshot 0).previousActiveInvariant = true
  relay : (s.snapshot 0).relayInvariant = true

open Bool

theorem wellFormed_iff (revision : UInt64) :
    (s.snapshot revision).invariantsHold = true ↔ WellFormed s := by
  unfold invariantsHold
  simp only [and_eq_true]
  constructor
  · rintro ⟨⟨⟨hboot, htime⟩, hprevious⟩, hrelay⟩
    exact ⟨hboot, htime, hprevious, hrelay⟩
  · rintro ⟨hboot, htime, hprevious, hrelay⟩
    exact ⟨⟨⟨hboot, htime⟩, hprevious⟩, hrelay⟩

section

variable (h : WellFormed s)

include h

theorem WellFormed.closed_of_ready (hmode : s.mode = .ready) : s.boot = .closed := by
  have hboot := h.boot
  simp only [bootInvariant, snapshot, hmode, modeBootValid, and_eq_true, beq_iff_eq] at hboot
  exact hboot.1.1

/-- A time lease is used while serving only. -/
theorem WellFormed.time_of_not_serving (hmode : s.mode ≠ .serving) : s.time = .unavailable := by
  have htime := h.time
  simp only [timeInvariant, snapshot] at htime
  split at htime
  · simp only [and_eq_true, beq_iff_eq] at htime
    exact absurd htime.1.1.1 hmode
  · assumption

theorem WellFormed.serving_of_opened (hmode : s.mode ≠ .sealed)
    (hboot : s.boot = .opened epoch) : s.mode = .serving := by
  cases hm : s.mode with
  | ready =>
    rw [h.closed_of_ready hm] at hboot
    contradiction
  | serving => rfl
  | sealed => contradiction

/-- No profile is set aside while no enrollment is under way. -/
theorem WellFormed.previousActive_of_not_inFlight
    (hrelay : s.relay.inFlight = false) : s.previousActive = none := by
  have hprevious := h.previousActive
  simp only [previousActiveInvariant, snapshot, hrelay, Bool.false_and] at hprevious
  split at hprevious
  · contradiction
  · assumption

end

/-! ## steps that the checker accepts -/

/-- The checker accepts `e` after `s`. -/
structure Steps (s e : AuthorityState) : Prop where
  wellFormed : WellFormed e
  deviceId : s.deviceId = e.deviceId
  authorityId : s.authorityId = e.authorityId
  authorityEpoch : s.authorityEpoch = e.authorityEpoch
  stateEpoch : s.stateEpoch = e.stateEpoch
  approvedLoaderDigest : s.approvedLoaderDigest = e.approvedLoaderDigest
  bootFloor : s.bootFloor ≤ e.bootFloor
  generationFloor : s.generationFloor ≤ e.generationFloor
  sequence : s.lastRequestSequence ≤ e.lastRequestSequence
  state : stateAdvances (s.snapshot 0) (e.snapshot 0) = true
  relay : relayAdvances (s.snapshot 0) (e.snapshot 0) = true

/-- The record is the one the state was last stored as: only the sequence number of the last
request may have moved since. -/
structure Follows (record : ProtectedAuthorityRecord) (s : AuthorityState) : Prop where
  record_eq : record =
    { s.snapshot s.protectedRevision with lastRequestSequence := record.lastRequestSequence }
  sequence_le : record.lastRequestSequence ≤ s.lastRequestSequence

variable {record : ProtectedAuthorityRecord}

/-- **Acceptance**: what `Steps` says is what the checker asks for. -/
theorem Steps.accepted {s e : AuthorityState}
    {revision : UInt64} (h : Steps s e) (hs : WellFormed s) (hfollows : Follows record s)
    (hnext : checkedSucc s.protectedRevision = some revision) :
    verifyProtectedSuccessor record (e.snapshot revision) = .ok () := by
  obtain ⟨hrecord, hle⟩ := hfollows
  have hprevious : record.invariantsHold = true := by
    rw [hrecord]
    exact (wellFormed_iff s.protectedRevision).mpr hs
  have hvalid : (e.snapshot revision).invariantsHold = true :=
    (wellFormed_iff revision).mpr h.wellFormed
  have hstate : stateAdvances record (e.snapshot revision) = true := by
    rw [hrecord]
    exact h.state
  have hrelay : relayAdvances record (e.snapshot revision) = true := by
    rw [hrecord]
    exact h.relay
  have hsequence : record.lastRequestSequence ≤ e.lastRequestSequence :=
    UInt64.le_trans hle h.sequence
  unfold verifyProtectedSuccessor
  rw [if_pos]
  simp only [and_eq_true, beq_iff_eq, decide_eq_true_eq]
  refine ⟨⟨⟨⟨⟨⟨⟨⟨⟨⟨⟨⟨hprevious, hvalid⟩, ?_⟩, ?_⟩, ?_⟩, ?_⟩, ?_⟩, ?_⟩, ?_⟩, ?_⟩, hsequence⟩,
    hstate⟩, hrelay⟩
  all_goals rw [hrecord]
  exacts [hnext, h.deviceId, h.authorityId, h.authorityEpoch, h.stateEpoch, h.approvedLoaderDigest,
    h.bootFloor, h.generationFloor]

attribute [simp] AuthorityState.snapshot stable

/-! ## one part at a time -/

theorem stateAdvances_same (hmode : previous.mode = next.mode) (hboot : previous.boot = next.boot)
    (htime : previous.time = next.time) (hpending : previous.pendingTime = next.pendingTime)
    (hfloors : previous.timeFloors = next.timeFloors) : stateAdvances previous next = true := by
  have hstays : bootAdvanced previous next = false := by
    unfold bootAdvanced
    split <;> simp [hboot]
  have htimes : timeAdvances previous next = true := by
    unfold timeAdvances
    rw [if_pos ⟨htime, hpending⟩, hfloors]
    exact beq_self_eq_true _
  unfold stateAdvances
  split
  · next hsealed => simp [← hmode, hsealed, hboot, htime, hpending, hfloors]
  · next hopen =>
    rw [if_neg (by rw [← hmode]; exact hopen), if_neg (by simp [hmode, hboot]), hstays]
    exact htimes

theorem relayAdvances_same (hrelay : previous.relay = next.relay)
    (hprevious : previous.previousActive = next.previousActive)
    (hgeneration : previous.generationFloor = next.generationFloor) :
    relayAdvances previous next = true := by
  unfold relayAdvances
  rw [if_pos ⟨hrelay, hprevious⟩, hgeneration]
  exact beq_self_eq_true _

section

variable {s : AuthorityState}
variable {e : AuthorityState} {relay : RelayProfileState} {intent : RelayIntent}

variable (h : WellFormed s)

include h

/-- **An edit of mode and time** is accepted when that part may follow. -/
theorem Steps.control {mode : AuthorityMode} {time : TimeState}
    {pendingTime : Option PendingTimeChallenge} {timeFloors : ProtectedTimeFloors}
    (he : e = { s with
      mode := mode
      time := time
      pendingTime := pendingTime
      timeFloors := timeFloors })
    (hboot : (e.snapshot 0).bootInvariant = true) (htime : (e.snapshot 0).timeInvariant = true)
    (hstate : stateAdvances (s.snapshot 0) (e.snapshot 0) = true) : Steps s e := by
  subst he
  exact {
    wellFormed := { h with boot := hboot, time := htime }
    deviceId := rfl
    authorityId := rfl
    authorityEpoch := rfl
    stateEpoch := rfl
    approvedLoaderDigest := rfl
    bootFloor := UInt64.le_refl _
    generationFloor := UInt64.le_refl _
    sequence := UInt64.le_refl _
    state := hstate
    relay := relayAdvances_same rfl rfl rfl }

/-- **An edit of the relay profile** is accepted when that part may follow. -/
theorem Steps.relayed {previousActive : Option RelayIntent}
    {generationFloor : UInt64} (he : e = { s with
      relay := relay
      previousActive := previousActive
      generationFloor := generationFloor })
    (hprevious : (e.snapshot 0).previousActiveInvariant = true)
    (hrelay : (e.snapshot 0).relayInvariant = true)
    (hgeneration : s.generationFloor ≤ generationFloor)
    (hadvance : relayAdvances (s.snapshot 0) (e.snapshot 0) = true) : Steps s e := by
  subst he
  exact {
    wellFormed := ⟨h.boot, h.time, hprevious, hrelay⟩
    deviceId := rfl
    authorityId := rfl
    authorityEpoch := rfl
    stateEpoch := rfl
    approvedLoaderDigest := rfl
    bootFloor := UInt64.le_refl _
    generationFloor := hgeneration
    sequence := UInt64.le_refl _
    state := stateAdvances_same rfl rfl rfl rfl rfl
    relay := hadvance }

theorem Steps.same : Steps s s :=
  .control h rfl h.boot h.time (stateAdvances_same rfl rfl rfl rfl rfl)

/-! ## mode and time -/

omit h in
theorem WellFormed.asSealed (h : WellFormed { s with time := .unavailable }) :
    WellFormed s.asSealed := by
  refine { h with boot := ?_, time := rfl }
  have hboot := h.boot
  simp only [bootInvariant, AuthorityState.snapshot, and_eq_true] at hboot
  simp only [bootInvariant, AuthorityState.snapshot,
    AuthorityState.asSealed, modeBootValid, Bool.true_and, Option.isNone_none, Bool.true_or,
    Bool.and_true]
  exact hboot.1.2

theorem WellFormed.unleased : WellFormed { s with time := .unavailable } := by
  refine { h with boot := ?_, time := rfl }
  have hboot := h.boot
  simp only [bootInvariant, snapshot, and_eq_true] at hboot ⊢
  exact ⟨hboot.1, by simp⟩

/-- **Sealing** is accepted from every mode. -/
theorem Steps.asSealed
    (hpending : s.mode = .sealed → s.pendingTime = none) : Steps s s.asSealed := by
  have hsealed : WellFormed s.asSealed := h.unleased.asSealed
  refine .control h rfl hsealed.boot hsealed.time ?_
  unfold stateAdvances
  split
  · next hmode =>
    change s.mode = .sealed at hmode
    have htime := h.time_of_not_serving (by simp [hmode])
    simp [AuthorityState.asSealed, htime, hpending hmode]
  · simp [AuthorityState.asSealed]

omit h in
/-- While serving, in the same boot, it is up to the time alone. -/
theorem stateAdvances_serving (hprevious : previous.mode = .serving) (hnext : next.mode = .serving)
    (hboot : previous.boot = next.boot) (htime : timeAdvances previous next = true) :
    stateAdvances previous next = true := by
  have hstays : bootAdvanced previous next = false := by
    unfold bootAdvanced
    split <;> simp [hboot]
  unfold stateAdvances
  simp [hprevious, hnext, hboot, hstays, htime]

theorem WellFormed.no_challenge (htime : s.time ≠ .unavailable) : s.pendingTime = none := by
  have hboot := h.boot
  simp only [bootInvariant, snapshot, and_eq_true,
    or_eq_true, beq_iff_eq, Option.isNone_iff_eq_none] at hboot
  obtain hnone | hun := hboot.2
  · exact hnone
  · contradiction

theorem Steps.unleased (hmode : s.mode = .serving)
    (htime : s.time ≠ .unavailable) : Steps s { s with time := .unavailable } := by
  have hnone := h.no_challenge htime
  refine .control h rfl h.unleased.boot h.unleased.time ?_
  refine stateAdvances_serving hmode hmode rfl ?_
  cases hlease : s.time with
  | unavailable => contradiction
  | valid => simp [timeAdvances, hlease, hnone]

theorem Steps.challenged (hmode : s.mode = .serving)
    (challenge : PendingTimeChallenge) (hpending : s.pendingTime = none)
    (htime : s.time = .unavailable) : Steps s { s with pendingTime := some challenge } := by
  refine .control h rfl ?_ h.time ?_
  · have hboot := h.boot
    simp only [bootInvariant, snapshot, and_eq_true] at hboot ⊢
    exact ⟨hboot.1, by simp [htime]⟩
  · refine stateAdvances_serving hmode hmode rfl ?_
    simp [timeAdvances, hpending, htime]

/-- **The answer to the challenge** is accepted as a lease when it advances the floors. -/
theorem Steps.timed (hmode : s.mode = .serving)
    (challenge : PendingTimeChallenge) (floors : ProtectedTimeFloors) (expiresAt : UInt64)
    (hpending : s.pendingTime = some challenge) (hexpires : floors.unixSeconds < expiresAt)
    (hfloors : timeFloorsStrictlyAdvance s.timeFloors floors = true) : Steps s { s with
      timeFloors := floors
      pendingTime := none
      time := .valid floors.sourceEpoch floors.sourceSequence expiresAt challenge.timeRequestId
        challenge.purpose } := by
  have htime : s.time = .unavailable := by
    by_contra hlease
    rw [h.no_challenge hlease] at hpending
    contradiction
  refine .control h rfl ?_ ?_ ?_
  · have hboot := h.boot
    simp only [bootInvariant, snapshot, and_eq_true] at hboot ⊢
    exact ⟨hboot.1, by simp⟩
  · simp [timeInvariant, hmode, hexpires]
  · refine stateAdvances_serving hmode hmode rfl ?_
    simp [timeAdvances, hpending, htime, hfloors]

/-! ## the relay profile -/

omit h in
theorem intentValid_iff : record.intentValid intent = true ↔
      intent.deviceId = record.deviceId ∧ intent.authorityId = record.authorityId ∧
      intent.authorityEpoch = record.authorityEpoch ∧ intent.generation ≠ 0 ∧
      intent.generation ≤ record.generationFloor ∧ intent.csrHandle ≠ 0 ∧
      intent.pendingSlot ≤ 1 ∧ intent.bootEpoch ≤ record.bootFloor ∧ intent.uploadHandle ≠ 0 ∧
      intent.profileLen ≠ 0 ∧ intent.profileLen.toNat ≤ profileMaxLen := by
  unfold intentValid
  simp only [and_eq_true, beq_iff_eq, bne_iff_ne, decide_eq_true_eq]
  tauto

omit h in
theorem uploadValid_iff {intent : ProfileUploadIntent} : record.uploadValid intent = true ↔
      intent.deviceId = record.deviceId ∧ intent.authorityId = record.authorityId ∧
      intent.authorityEpoch = record.authorityEpoch ∧ intent.bootEpoch ≤ record.bootFloor ∧
      intent.generation = record.generationFloor ∧ intent.generation ≠ 0 ∧
      intent.csrHandle ≠ 0 ∧ intent.pendingSlot = record.expectedPendingSlot ∧
      intent.pendingSlot ≤ 1 ∧ intent.uploadHandle ≠ 0 ∧ intent.profileLen ≠ 0 ∧
      intent.profileLen.toNat ≤ profileMaxLen ∧ intent.nextIndex ≤ intent.chunkCount := by
  unfold uploadValid
  simp only [and_eq_true, beq_iff_eq, bne_iff_ne, decide_eq_true_eq]
  tauto

/-- A profile that is set aside stays so while the enrollment goes on. -/
theorem WellFormed.previousActive_inFlight (hrelay : relay.inFlight = true) :
    (({ s with relay := relay } : AuthorityState).snapshot 0).previousActiveInvariant = true := by
  have hprevious := h.previousActive
  simp only [previousActiveInvariant, snapshot] at hprevious ⊢
  split at hprevious
  · simp only [and_eq_true] at hprevious
    simp only [hrelay, Bool.true_and, Bool.and_eq_true]
    exact ⟨hprevious.1.2, hprevious.2⟩
  · trivial

/-- The active profile is a valid one, and nothing is set aside beside it. -/
theorem WellFormed.active (hrelay : s.relay = .active intent) :
    s.previousActive = none ∧ (s.snapshot 0).intentValid intent = true := by
  have hvalid := h.relay
  simp only [relayInvariant, snapshot, hrelay, and_eq_true, Option.isNone_iff_eq_none] at hvalid
  exact ⟨hvalid.1, by rw [← hrelay] at hvalid; exact hvalid.2⟩

theorem WellFormed.setAside (hprevious : s.previousActive = some intent) :
    (s.snapshot 0).intentValid intent = true := by
  have hvalid := h.previousActive
  simp only [previousActiveInvariant, snapshot, hprevious, and_eq_true] at hvalid
  exact hvalid.1.2

/-- **A new enrollment** beside the active profile is accepted. -/
theorem Steps.enrolled (active : Option RelayIntent) (generation : UInt64)
    (hrelay : s.relay = active.elim .empty .active)
    (hnext : checkedSucc s.generationFloor = some generation) : Steps s { s with
      previousActive := active
      generationFloor := generation
      relay := .pending generation generation (freeSlot active) } := by
  have hlt : s.generationFloor < generation := by
    rw [UInt64.lt_iff_toNat_lt, checkedSucc_eq_some hnext]
    omega
  have hne : generation ≠ 0 := by
    intro hzero
    subst hzero
    exact absurd hlt (by simp)
  refine .relayed h rfl ?_ ?_ (UInt64.le_of_lt hlt) ?_
  · cases active with
    | none => rfl
    | some intent =>
      have hvalid := intentValid_iff.mp (h.active hrelay).2
      have hearlier : intent.generation < generation := UInt64.lt_of_le_of_lt hvalid.2.2.2.2.1 hlt
      have hstill : ({ s with generationFloor := generation } : AuthorityState).snapshot 0
          |>.intentValid intent := by
        rw [intentValid_iff]
        exact ⟨hvalid.1, hvalid.2.1, hvalid.2.2.1, hvalid.2.2.2.1, UInt64.le_of_lt hearlier,
          hvalid.2.2.2.2.2⟩
      simp only [previousActiveInvariant, snapshot,
        RelayProfileState.inFlight, Bool.true_and, Bool.and_eq_true]
      exact ⟨hstill, decide_eq_true hearlier⟩
  · simp [relayInvariant, snapshot, hne, expectedPendingSlot]
  · cases active with
    | none | some => simp [relayAdvances, hrelay, Authority.enrolled, hnext]

/-- The intent that the current generation is made of, once it is staged. -/
def RelayProfileState.current : RelayProfileState → Option RelayIntent
  | .staged intent | .receiptConsumed intent | .prepared intent | .promoted intent _ => some intent
  | _ => none

theorem WellFormed.current (hrelay : s.relay.current = some intent) :
    (s.snapshot 0).currentIntentValid intent = true := by
  have hvalid := h.relay
  unfold relayInvariant at hvalid
  change (s.snapshot 0).relay.current = some intent at hrelay
  cases hr : (s.snapshot 0).relay with
  | empty | pending | uploading | active =>
    rw [hr] at hrelay
    contradiction
  | staged current | receiptConsumed current | prepared current | promoted current signature =>
    rw [hr] at hrelay hvalid
    cases hrelay
    exact hvalid

/-- **The same intent, one stage further**, is accepted when the stage may follow. -/
theorem Steps.stage (hold : s.relay.current = some intent)
    (hnew : relay.current = some intent) (hadvance : relayAdvances (s.snapshot 0)
      (({ s with relay := relay } : AuthorityState).snapshot 0) = true)
    :
    Steps s { s with relay := relay } := by
  have hvalid := h.current hold
  have hflight : relay.inFlight = true := by
    cases relay <;> first | rfl | contradiction
  refine .relayed h rfl (h.previousActive_inFlight hflight) ?_ (UInt64.le_refl _) hadvance
  cases relay with
  | empty | pending | uploading | active => contradiction
  | staged current | receiptConsumed current | prepared current | promoted current signature =>
    cases hnew
    exact hvalid

theorem Steps.consumed (hrelay : s.relay = .staged intent) :
    Steps s { s with relay := .receiptConsumed intent } := by
  refine .stage h (by rw [hrelay]; rfl) rfl ?_
  simp [relayAdvances, hrelay]

theorem Steps.prepared (hrelay : s.relay.preparable = some intent) :
    Steps s { s with relay := .prepared intent } := by
  cases hr : s.relay with
  | empty | pending | uploading | staged | promoted | active =>
    rw [hr] at hrelay
    contradiction
  | receiptConsumed =>
    rw [hr] at hrelay
    cases hrelay
    refine .stage h (by rw [hr]; rfl) rfl ?_
    simp [relayAdvances, hr]
  | prepared =>
    rw [hr] at hrelay
    cases hrelay
    refine .stage h (by rw [hr]; rfl) rfl ?_
    exact relayAdvances_same hr rfl rfl

theorem Steps.promoted (signature : Bytes signatureLen) (hrelay : s.relay = .prepared intent) :
    Steps s { s with relay := .promoted intent signature } := by
  refine .stage h (by rw [hrelay]; rfl) rfl ?_
  simp [relayAdvances, hrelay]

theorem Steps.finalized (hrelay : s.relay = .promoted intent signature) :
    Steps s { s with relay := .active intent, previousActive := none } := by
  have hvalid : (s.snapshot 0).currentIntentValid intent = true := h.current (by rw [hrelay]; rfl)
  unfold currentIntentValid at hvalid
  rw [and_eq_true] at hvalid
  refine .relayed h rfl rfl ?_ (UInt64.le_refl _) ?_
  · exact hvalid.1
  · simp [relayAdvances, hrelay]

/-- **An aborted enrollment** returns to the profile that was active. -/
theorem Steps.aborted (hrelay : s.relay.abortable = some generation) :
    Steps s { s with relay := s.previousActive.elim .empty .active, previousActive := none } := by
  refine .relayed h rfl rfl ?_ (UInt64.le_refl _) ?_
  · cases hprevious : s.previousActive with
    | none => rfl
    | some => exact h.setAside hprevious
  cases hr : s.relay with
  | empty | prepared | promoted | active =>
    rw [hr] at hrelay
    contradiction
  | pending | uploading | staged | receiptConsumed =>
    cases hprevious : s.previousActive <;>
      simp [relayAdvances, abandoned, hr, hprevious]

theorem WellFormed.uploading (hrelay : s.relay = .uploading upload) :
    (s.snapshot 0).uploadValid upload = true := by
  have hvalid := h.relay
  unfold relayInvariant at hvalid
  have hr : (s.snapshot 0).relay = .uploading upload := hrelay
  rw [hr] at hvalid
  exact hvalid

/-- **A complete upload** is staged as what was uploaded. -/
theorem Steps.staged (requestId : UInt64) (hrelay : s.relay = .uploading upload)
    (hcomplete : upload.complete = true) :
    Steps s { s with relay := .staged (s.stagedIntent upload requestId) } := by
  obtain ⟨hdevice, hauthority, hepoch, hboot, hgeneration, hnonzero, hcsr, -, hslot, hhandle, hlen,
    hmax, -⟩ := uploadValid_iff.mp (h.uploading hrelay)
  refine .relayed h rfl (h.previousActive_inFlight rfl) ?_ (UInt64.le_refl _) ?_
  · show (s.snapshot 0).currentIntentValid (s.stagedIntent upload requestId) = true
    unfold currentIntentValid
    rw [and_eq_true, intentValid_iff, beq_iff_eq]
    exact ⟨⟨rfl, rfl, rfl, hnonzero, UInt64.le_of_eq hgeneration, hcsr, hslot, hboot, hhandle, hlen,
      hmax⟩, hgeneration⟩
  · have hsame : upload.matchesRelayIntent (s.stagedIntent upload requestId) = true := by
      simp [ProfileUploadIntent.matchesRelayIntent, stagedIntent, hdevice, hauthority,
        hepoch, snapshot]
    simp [relayAdvances, hrelay, hcomplete, hsame]

/-- **An upload that starts** from the pending enrollment is accepted. -/
theorem Steps.started {intent : ProfileUploadIntent}
    (hstart : s.startsUpload intent = true) : Steps s { s with relay := .uploading intent } := by
  unfold startsUpload uploadIntentValid at hstart
  simp only [and_eq_true, beq_iff_eq, bne_iff_ne, decide_eq_true_eq] at hstart
  obtain ⟨hrelay, ⟨⟨⟨⟨⟨⟨⟨⟨⟨hdevice, hauthority⟩, hepoch⟩, hboot⟩, hslot⟩, hcsr⟩, hhandle⟩, hlen⟩,
    hmax⟩, hindex⟩⟩ := hstart
  have hpending := h.relay
  have hopened := h.boot
  simp only [relayInvariant, snapshot, hrelay, and_eq_true, beq_iff_eq, bne_iff_ne] at hpending
  simp only [bootInvariant, snapshot, hboot, and_eq_true, beq_iff_eq] at hopened
  refine .relayed h rfl (h.previousActive_inFlight rfl) ?_ (UInt64.le_refl _) ?_
  · show uploadValid _ intent = true
    rw [uploadValid_iff]
    refine ⟨hdevice.symm, hauthority.symm, hepoch.symm, UInt64.le_of_eq hopened.1.2.1,
      hpending.1.2, hpending.1.1.1, hcsr, hpending.2, hslot, hhandle, hlen, hmax, ?_⟩
    rw [hindex]
    exact UInt8.zero_le
  · simp [relayAdvances, hrelay, hindex]

/-- **The next chunk** of the upload is accepted. -/
theorem Steps.advanced
    (hrelay : s.relay = .uploading upload) (hnext : upload.advanced = some next) :
    Steps s { s with relay := .uploading next } := by
  obtain ⟨_, hindex, hle, rfl⟩ := ProfileUploadIntent.advanced_eq_some hnext
  obtain ⟨hdevice, hauthority, hepoch, hboot, hgeneration, hnonzero, hcsr, hfree, hslot, hhandle,
    hlen, hmax, -⟩ := uploadValid_iff.mp (h.uploading hrelay)
  refine .relayed h rfl (h.previousActive_inFlight rfl) ?_ (UInt64.le_refl _) ?_
  · show uploadValid _ _ = true
    rw [uploadValid_iff]
    exact ⟨hdevice, hauthority, hepoch, hboot, hgeneration, hnonzero, hcsr, hfree, hslot, hhandle,
      hlen, hmax, hle⟩
  · unfold relayAdvances
    split
    · exact beq_self_eq_true _
    · simp [hrelay, hindex]

omit h

/-! ## every edit -/

/-- **Every edit that a request asks for while serving is accepted.** -/
theorem RequestEdit.steps (hedit : RequestEdit op s e) (h : WellFormed s) (hmode : s.mode = .serving) :
    Steps s e := by
  cases hedit with
  | same => exact .same h
  | challenged challenge hpending htime => exact .challenged h hmode challenge hpending htime
  | timed challenge floors expiresAt hpending hexpires hfloors =>
    exact .timed h hmode challenge floors expiresAt hpending hexpires hfloors
  | enrolled active generation hrelay hnext => exact .enrolled h active generation hrelay hnext
  | consumed _ hrelay => exact .consumed h hrelay
  | prepared _ hrelay => exact .prepared h hrelay
  | abandoned _ hrelay => exact .aborted h hrelay

/-- **Every edit that an intent or a receipt asks for is accepted.** -/
theorem HeldEdit.steps (hedit : HeldEdit op s e) (h : WellFormed s) : Steps s e := by
  cases hedit with
  | promoted _ signature hrelay => exact .promoted h signature hrelay
  | finalized _ _ hrelay => exact .finalized h hrelay
  | staged _ requestId hrelay hcomplete => exact .staged h requestId hrelay hcomplete
  | started _ hstart => exact .started h hstart
  | advanced _ _ hrelay hnext => exact .advanced h hrelay hnext

end

end Cellos.Authority
