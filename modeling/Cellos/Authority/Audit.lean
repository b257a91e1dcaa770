import Cellos.Authority.Checker
import Cellos.Authority.Sealed

/-!
# Cellos.Authority.Audit

The records that the authority hands to its store, over whole runs.

Within one boot every record is accepted after the one stored before it.  A restart closes the
boot in memory but not in the store, and from there on the checker accepts nothing: opening the
next boot moves the state epoch and the loader digest, which the checker wants unchanged, and
anything else leaves the boot closed that the stored record has open.  `orderly` says which
operations avoid this and three smaller disagreements.
-/

namespace Cellos.Authority

open Lib ProtectedAuthorityRecord

variable {e s : AuthorityState} {record : ProtectedAuthorityRecord}
  {store : ProtectedStore}

/-! ## what is asked of the records -/

/-- The record makes sense on its own, and an open store finds it acceptable. -/
def Fine (o : Offer) : Prop := o.next.invariantsHold = true ∧
    (o.sealed = false → ∀ previous, o.previous = some previous →
      verifyProtectedSuccessor previous o.next = .ok ())

/-- What holds of every stored record: the first one already has a boot open, or is sealed. -/
structure Kept (record : ProtectedAuthorityRecord) : Prop where
  valid : record.invariantsHold = true
  mode : record.mode ≠ .ready
  pendingTime : record.mode = .sealed → record.pendingTime = none

structure StoreFine (store : ProtectedStore) : Prop where
  offers : ∀ o ∈ store.offers, Fine o
  record : store.sealed = false → ∀ record, store.record = some record → Kept record

/-! ## where the authority stands -/

/-- The store holds the state, up to the request being served. -/
structure Synced (s : AuthorityState) (record : ProtectedAuthorityRecord) : Prop where
  unsealed : s.store.sealed = false
  stored : s.store.record = some record
  follows : Follows record s
  wellFormed : WellFormed s
  mode : s.mode ≠ .ready
  pendingTime : s.mode = .sealed → s.pendingTime = none

/-- How the authority stands to its store: they have fallen out, nothing is stored yet, the
state is stored, or the device has restarted with the stored boot still open. -/
inductive Standing (s : AuthorityState) : Prop
  | conflicted (hsealed : s.store.sealed = true) (hmode : s.mode = .sealed)
      (hwell : WellFormed { s with time := .unavailable })
  | fresh (hunsealed : s.store.sealed = false) (hrecord : s.store.record = none)
      (hmode : s.mode = .ready) (hrelay : s.relay = .empty) (hwell : WellFormed s)
  | synced (record : ProtectedAuthorityRecord) (h : Synced s record)
  | parted (record : ProtectedAuthorityRecord) (hrecord : s.store.record = some record)
      (hclosed : s.boot = .closed) (hopen : record.boot ≠ .closed)

/-! ## persisting -/

/-- The state may be handed to the store. -/
structure Presentable (e : AuthorityState) : Prop where
  wellFormed : WellFormed e
  accepted : e.store.sealed = false → ∀ previous, e.store.record = some previous →
    ∃ s, WellFormed s ∧ Follows previous s ∧ s.protectedRevision = e.protectedRevision ∧ Steps s e
  mode : e.store.sealed = false → e.mode ≠ .ready
  pendingTime : e.store.sealed = false → e.mode = .sealed → e.pendingTime = none
  conflicted : e.store.sealed = true → e.mode = .sealed

theorem Presentable.fine (h : Presentable e) {revision : UInt64}
    (hnext : checkedSucc e.protectedRevision = some revision) (stored : Bool) :
    Fine ⟨e.store.record, e.store.sealed, e.snapshot revision, stored⟩ := by
  refine ⟨(wellFormed_iff revision).mpr h.wellFormed, ?_⟩
  intro hopen previous hprevious
  obtain ⟨s, hwell, hfollows, hrevision, hsteps⟩ := h.accepted hopen previous hprevious
  rw [← hrevision] at hnext
  exact hsteps.accepted hwell hfollows hnext

theorem WellFormed.conflicted (h : WellFormed e) (store : ProtectedStore) :
    WellFormed { e.conflicted store with time := .unavailable } := by
  refine { h with boot := ?_, time := rfl }
  have hboot := h.unleased.boot
  simp only [bootInvariant, AuthorityState.snapshot, Bool.and_eq_true] at hboot
  simp [bootInvariant, AuthorityState.conflicted, modeBootValid, hboot.1.2]

open ProtectedStore

theorem conflicted_audit (hwell : WellFormed e) (hstore : StoreFine store)
    : StoreFine (e.conflicted store).store ∧
      (store.cut = false → Standing (e.conflicted store)) := by
  constructor
  · constructor
    · show ∀ o ∈ store.sealOnConflict.offers, Fine o
      rw [sealOnConflict_offers]
      exact hstore.offers
    · intro hsealed record hrecord
      change store.sealOnConflict.record = some record at hrecord
      rw [sealOnConflict_record] at hrecord
      refine hstore.record ?_ record hrecord
      by_contra hs
      rw [Bool.not_eq_false] at hs
      change store.sealOnConflict.sealed = false at hsealed
      rw [sealOnConflict_sealed hs] at hsealed
      contradiction
  · intro hcut
    refine .conflicted ?_ rfl (hwell.conflicted store)
    show store.sealOnConflict.sealed = true
    rw [sealOnConflict_of_cut hcut]

/-- **Persisting a presentable state**: the offer is fine, and the state is in the store, or the
two have fallen out, unless the power has failed. -/
theorem persist_audit (h : Presentable e) (hstore : StoreFine e.store) :
    StoreFine (ending (persist e)).store ∧
      (∀ s', persist e = .ok () s' → ∃ revision record, Synced s' record ∧
        s' = e.persisted revision (e.offered revision true)) ∧
      (e.store.cut = false → Standing (ending (persist e))) := by
  have hoffers : ∀ revision stored, checkedSucc e.protectedRevision = some revision →
      ∀ o ∈ (e.offered revision stored).offers, Fine o := by
    intro revision stored hnext o ho
    obtain rfl | ho := List.mem_cons.mp ho
    · exact h.fine hnext stored
    · exact hstore.offers o ho
  obtain ⟨revision, hnext, hopen, -, hrun⟩ | ⟨revision, hnext, hrun⟩ | hrun := persist_run e
  · have hkept : Kept (e.snapshot revision) :=
      ⟨(wellFormed_iff revision).mpr h.wellFormed, h.mode hopen, h.pendingTime hopen⟩
    have hsynced : Synced (e.persisted revision (e.offered revision true)) (e.snapshot revision) :=
      ⟨hopen, rfl, ⟨rfl, UInt64.le_refl _⟩, { h.wellFormed with }, h.mode hopen, h.pendingTime hopen⟩
    rw [hrun]
    refine ⟨⟨hoffers revision true hnext, ?_⟩, ?_, ?_⟩
    · intro _ record hrecord
      cases hrecord
      exact hkept
    · intro s' hs'
      cases hs'
      exact ⟨revision, _, hsynced, rfl⟩
    · intro _
      exact .synced _ hsynced
  · have hfine : StoreFine (e.offered revision false) :=
      ⟨hoffers revision false hnext, hstore.record⟩
    obtain ⟨hstore', hstanding⟩ := conflicted_audit h.wellFormed hfine
    rw [hrun]
    exact ⟨hstore', by simp, hstanding⟩
  · obtain ⟨hstore', hstanding⟩ := conflicted_audit h.wellFormed hstore
    rw [hrun]
    exact ⟨hstore', by simp, hstanding⟩

/-! ## what may be presented where -/

section

/-- The number of the request being served does not matter. -/
theorem WellFormed.sequenced (h : WellFormed s) (sequence : UInt64) :
    WellFormed (s.sequenced sequence) := { h with }

theorem Synced.sequenced {sequence : UInt64} (h : Synced s record)
    (hle : s.lastRequestSequence ≤ sequence) : Synced (s.sequenced sequence) record where
  unsealed := h.unsealed
  stored := h.stored
  follows := ⟨h.follows.record_eq, UInt64.le_trans h.follows.sequence_le hle⟩
  wellFormed := h.wellFormed.sequenced sequence
  mode := h.mode
  pendingTime := h.pendingTime

theorem Synced.presentable (h : Synced s record) (hsteps : Steps s e)
    (hstore : e.store = s.store) (hrevision : e.protectedRevision = s.protectedRevision)
    (hmode : e.mode ≠ .ready) (hpending : e.mode = .sealed → e.pendingTime = none) :
    Presentable e where
  wellFormed := hsteps.wellFormed
  accepted := by
    intro _ previous hprevious
    rw [hstore, h.stored, Option.some.injEq] at hprevious
    subst hprevious
    exact ⟨s, h.wellFormed, h.follows, hrevision.symm, hsteps⟩
  mode _ := hmode
  pendingTime _ := hpending
  conflicted := by
    intro hsealed
    rw [hstore, h.unsealed] at hsealed
    contradiction

theorem Synced.presentable_asSealed (h : Synced s record) : Presentable s.asSealed :=
  h.presentable (.asSealed h.wellFormed h.pendingTime) rfl rfl (by simp [AuthorityState.asSealed])
    fun _ => rfl

end

/-! ## the operations that are in order -/

/-- The operation is refused, or answered from the state as it is. -/
def writesNothing (s : AuthorityState) (op : Op) : Bool :=
  (s.mode == .sealed && op.asksContext) || answersAsIs s op

/-- The device has not restarted since the record was stored, unless the record has no boot
open or the operation writes nothing. -/
def sameBoot (s : AuthorityState) (op : Op) : Bool :=
  match s.store.record with
  | some record => s.boot == record.boot || writesNothing s op
  | none => true

/-- A boot is opened for a loader with a digest other than zero, and an enrollment begins beside
an active profile while there is a next generation. -/
def wellAsked (s : AuthorityState) : Op → Bool
  | .openBoot request _ => request.loaderDigest != Bytes.fill 32 0
  | .beginEnrollment _ _ =>
    match s.relay with
    | .active _ => (checkedSucc s.generationFloor).isSome
    | _ => true
  | _ => true

/-- The operation is in order.  The last part: once a write was refused while a time lease was
live, no intent or receipt moves the relay state on. -/
def orderly (s : AuthorityState) (op : Op) : Bool := sameBoot s op && wellAsked s op
    && (s.mode != .sealed || s.time == .unavailable || !movesRelay s op)

section

/-- An operation that moves the relay state on is not answered from the state as it is. -/
theorem writesNothing_of_movesRelay (h : movesRelay s op = true) : writesNothing s op = false := by
  unfold writesNothing
  rw [Bool.or_eq_false_iff]
  cases op with
  | recordProviderPromotion | finalizeCommit => exact ⟨by simp [Op.asksContext], rfl⟩
  | stageProfile =>
    refine ⟨by simp [Op.asksContext], ?_⟩
    simp only [movesRelay] at h
    simp only [answersAsIs]
    cases hr : s.relay <;> simp_all
  | acknowledgeProfileUpload =>
    refine ⟨by simp [Op.asksContext], ?_⟩
    simp only [movesRelay, AuthorityState.startsUpload, Bool.and_eq_true, beq_iff_eq] at h
    simp [answersAsIs, h.1]
  | acknowledgeProfileChunk =>
    refine ⟨by simp [Op.asksContext], ?_⟩
    simp only [movesRelay, Bool.and_eq_true, bne_iff_ne] at h
    simp [answersAsIs, h.1.1.2]
  | _ => contradiction

/-- A parted authority is not asked for anything that writes. -/
theorem not_parted_of_orderly (h : orderly s op = true) (hwrites : writesNothing s op = false)
    (hrecord : s.store.record = some record)
    (hclosed : s.boot = .closed) : ¬record.boot ≠ .closed := by
  unfold orderly sameBoot at h
  rw [hrecord] at h
  simp only [hwrites, Bool.or_false, Bool.and_eq_true, beq_iff_eq] at h
  simp [← h.1.1, hclosed]

end

attribute [simp] AuthorityState.asSealed AuthorityState.sequenced

/-! ## every course -/

section

/-- **Sealing is presentable** wherever the authority stands, except after a restart. -/
theorem Standing.presentable_asSealed (h : Standing s) (hedit : SealEdit s e)
    (horderly : orderly s op = true) (hwrites : writesNothing s op = false) :
    Presentable e.asSealed := by
  cases h with
  | conflicted hsealed hmode hwell =>
    cases hedit with
    | direct sequence =>
      exact {
        wellFormed := (hwell.sequenced sequence).asSealed
        accepted := by simp [hsealed]
        mode := by simp
        pendingTime := fun _ _ => rfl
        conflicted := fun _ => rfl }
    | booting _ _ hready =>
      rw [hmode] at hready
      contradiction
  | fresh _ hrecord hmode hrelay hwell =>
    have hnone : s.previousActive = none :=
      hwell.previousActive_of_not_inFlight (by rw [hrelay]; rfl)
    have hclosed := hwell.closed_of_ready hmode
    have hsealed : WellFormed e.asSealed := by
      cases hedit with
      | direct sequence => exact (hwell.unleased.sequenced sequence).asSealed
      | booting =>
        refine ⟨?_, rfl, ?_, ?_⟩
        · simp [bootInvariant, modeBootValid, hclosed]
        · simp [previousActiveInvariant, hnone]
        · simp [relayInvariant, hnone, hrelay]
    exact {
      wellFormed := hsealed
      accepted := by
        intro _ previous hprevious
        change e.store.record = some previous at hprevious
        rw [hedit.store_eq, hrecord] at hprevious
        contradiction
      mode := by simp
      pendingTime := fun _ _ => rfl
      conflicted := fun _ => rfl }
  | synced _ h =>
    cases hedit with
    | direct _ hle => exact (h.sequenced hle).presentable_asSealed
    | booting _ _ hready => exact absurd hready h.mode
  | parted _ hrecord hclosed hopen =>
    exact absurd hopen (not_parted_of_orderly horderly hwrites hrecord hclosed)

/-- A request that is authorised is served by an authority in step with its store. -/
theorem Standing.in_session (h : Standing s) (hsession : InSession s t)
    (hfine : StoreFine s.store) :
    StoreFine t.store ∧ ∃ record, Synced t record ∧ t.mode = .serving := by
  obtain ⟨hunsealed, ⟨_, hboot⟩, _, hle, rfl⟩ := hsession
  cases h with
  | conflicted _ hmode => exact absurd hmode hunsealed
  | fresh _ _ hmode _ hwell =>
    rw [hwell.closed_of_ready hmode] at hboot
    contradiction
  | synced record h =>
    exact ⟨hfine, record, h.sequenced hle, h.wellFormed.serving_of_opened hunsealed hboot⟩
  | parted _ _ hclosed =>
    rw [hclosed] at hboot
    contradiction

end

/-- What an audited operation leaves behind. -/
structure Audited (s s' : AuthorityState) : Prop where
  store : StoreFine s'.store
  standing : s.store.cut = false → Standing s'

theorem audited_of_presentable (h : Presentable e) (hfine : StoreFine s.store)
    (hstore : e.store = s.store) : Audited s (ending (persist e)) := by
  obtain ⟨hstore', -, hstanding⟩ := persist_audit h (by rw [hstore]; exact hfine)
  exact ⟨hstore', by rw [← hstore]; exact hstanding⟩

theorem Finish.audited (h : Finish op t r)
    (hsynced : Synced t record) (hmode : t.mode = .serving) (hfine : StoreFine t.store) :
    Audited t (ending r) := by
  cases h with
  | sealed =>
    rw [ending_sealWith]
    exact audited_of_presentable hsynced.presentable_asSealed hfine rfl
  | stored _ e hedit =>
    rw [ending_persistValue]
    have hserving : e.mode = .serving := by cases hedit <;> exact hmode
    have hrevision : e.protectedRevision = t.protectedRevision := by cases hedit <;> rfl
    refine audited_of_presentable (hsynced.presentable (hedit.steps hsynced.wellFormed hmode)
      hedit.store_eq hrevision ?_ ?_) hfine hedit.store_eq
    · simp [hserving]
    · simp [hserving]

/-- **Opening the first boot** is presentable when the loader has a digest. -/
theorem Standing.presentable_booted (h : Standing s)
    (hedit : BootEdit s loaderDigest e) (hdigest : loaderDigest ≠ Bytes.fill 32 0)
    (horderly : orderly s op = true) (hwrites : writesNothing s op = false) : Presentable e := by
  obtain ⟨_, _, _, hready, -⟩ := hedit
  cases h with
  | conflicted _ hmode =>
    rw [hmode] at hready
    contradiction
  | fresh hunsealed hrecord hmode hrelay hwell =>
    have hnone : s.previousActive = none :=
      hwell.previousActive_of_not_inFlight (by rw [hrelay]; rfl)
    have htime : s.time = .unavailable := hwell.time_of_not_serving (by simp [hmode])
    exact {
      wellFormed := by
        refine ⟨?_, ?_, ?_, ?_⟩
        · simp [bootInvariant, modeBootValid, hdigest, htime]
        · simp [timeInvariant, htime]
        · simp [previousActiveInvariant, hnone]
        · simp [relayInvariant, hnone, hrelay]
      accepted := by simp [hrecord]
      mode := by simp
      pendingTime := by simp
      conflicted := by simp [hunsealed] }
  | synced _ h => exact absurd hready h.mode
  | parted _ hrecord hclosed hopen =>
    exact absurd hopen (not_parted_of_orderly horderly hwrites hrecord hclosed)

theorem HeldEdit.relay_ne_empty (h : HeldEdit op s e) : s.relay ≠ .empty := by
  cases h with
  | promoted _ _ hrelay | finalized _ _ hrelay | staged _ _ hrelay | advanced _ _ hrelay =>
    simp [hrelay]
  | started _ hstart =>
    unfold AuthorityState.startsUpload at hstart
    simp only [Bool.and_eq_true, beq_iff_eq] at hstart
    simp [hstart.1]

/-- **What an intent or a receipt asks for** is presentable, unless a write was refused while
a time lease was live. -/
theorem Standing.presentable_held (h : Standing s) (hedit : HeldEdit op s e)
    (htime : s.mode = .sealed → s.time = .unavailable)
    (horderly : orderly s op = true) (hwrites : writesNothing s op = false) : Presentable e := by
  have hmode : e.mode = s.mode := by cases hedit <;> rfl
  have hpending : e.pendingTime = s.pendingTime := by cases hedit <;> rfl
  have hrevision : e.protectedRevision = s.protectedRevision := by cases hedit <;> rfl
  cases h with
  | conflicted hsealed hsealedMode hwell =>
    have hwell' : WellFormed s := by
      have hsame : ({ s with time := .unavailable } : AuthorityState) = s := by
        rw [← htime hsealedMode]
      rwa [hsame] at hwell
    have hstore : e.store.sealed = true := by rw [hedit.store_eq, hsealed]
    exact {
      wellFormed := (hedit.steps hwell').wellFormed
      accepted := by simp [hstore]
      mode := by simp [hstore]
      pendingTime := by simp [hstore]
      conflicted := fun _ => hmode.trans hsealedMode }
  | fresh _ _ _ hrelay => exact absurd hrelay hedit.relay_ne_empty
  | synced _ h =>
    exact h.presentable (hedit.steps h.wellFormed) hedit.store_eq hrevision
      (by rw [hmode]; exact h.mode) (by rw [hmode, hpending]; exact h.pendingTime)
  | parted _ hrecord hclosed hopen =>
    exact absurd hopen (not_parted_of_orderly horderly hwrites hrecord hclosed)

/-- A lease that is used up is presentable, and leaves the authority serving. -/
theorem Synced.lease (h : Synced t record) (hmode : t.mode = .serving)
    (htime : t.time ≠ .unavailable) (hfine : StoreFine t.store) :
    Audited t (ending (persist { t with time := .unavailable })) ∧
      ∀ t', persist { t with time := .unavailable } = .ok () t' → ∃ record', Synced t' record' ∧
        t'.mode = .serving ∧ t'.relay = t.relay ∧ t'.generationFloor = t.generationFloor := by
  have hpresentable : Presentable { t with time := .unavailable } :=
    h.presentable (.unleased h.wellFormed hmode htime) rfl rfl (by simp [hmode]) (by simp [hmode])
  refine ⟨audited_of_presentable hpresentable hfine rfl, ?_⟩
  intro t' hpersist
  obtain ⟨-, hok, -⟩ := persist_audit hpresentable hfine
  obtain ⟨_, record', hsynced, rfl⟩ := hok t' hpersist
  exact ⟨record', hsynced, hmode, rfl, rfl⟩

/-- What a request leaves behind, seen from the state in which it arrived. -/
theorem Audited.of_cut (h : Audited t s') (hcut : t.store.cut = s.store.cut) : Audited s s' :=
  ⟨h.store, by rw [← hcut]; exact h.standing⟩

/-- **Every orderly operation is audited.** -/
theorem Course.audited (h : Course s op r) (hfine : StoreFine s.store) (hstanding : Standing s)
    (horderly : orderly s op = true) : Audited s (ending r) := by
  cases h with
  | refused | answered => exact ⟨hfine, fun _ => hstanding⟩
  | sealed _ _ hedit has _ hmode =>
    have hwrites : writesNothing s op = false := by
      unfold writesNothing
      rw [has, Bool.or_false, Bool.and_eq_false_iff]
      cases hop : op.asksContext with
      | true => exact .inl (by simpa using hmode hop)
      | false => exact .inr rfl
    rw [ending_sealWith]
    exact audited_of_presentable (hstanding.presentable_asSealed hedit horderly hwrites) hfine
      hedit.store_eq
  | session t hsession hfinish =>
    obtain ⟨hfine', _, hsynced, hmode⟩ := hstanding.in_session hsession hfine
    have haudited := hfinish.audited hsynced hmode hfine'
    exact haudited.of_cut (by rw [hsession.store_eq])
  | booted _ request _ e hop hedit =>
    have hready : s.mode = .ready := by
      cases hedit
      assumption
    have hwrites : writesNothing s op = false := by
      subst hop
      simp [writesNothing, hready, answersAsIs]
    have hdigest : request.loaderDigest ≠ Bytes.fill 32 0 := by
      subst hop
      unfold orderly wellAsked at horderly
      simp only [Bool.and_eq_true, bne_iff_ne] at horderly
      exact horderly.1.2
    have hstore : e.store = s.store := by
      cases hedit
      rfl
    rw [ending_persistValue]
    exact audited_of_presentable (hstanding.presentable_booted hedit hdigest horderly
      hwrites) hfine hstore
  | held _ _ hmoves hedit =>
    have hwrites := writesNothing_of_movesRelay hmoves
    have htime : s.mode = .sealed → s.time = .unavailable := by
      intro hsealed
      unfold orderly at horderly
      simp only [hsealed, hmoves, Bool.and_eq_true] at horderly
      simpa using horderly.2
    rw [ending_persistValue]
    exact audited_of_presentable (hstanding.presentable_held hedit htime horderly
      hwrites) hfine hedit.store_eq
  | unleased _ _ _ hsession htime hpersist =>
    obtain ⟨hfine', _, hsynced, hmode⟩ := hstanding.in_session hsession hfine
    have haudited := (hsynced.lease hmode htime hfine').1
    rw [hpersist] at haudited
    exact haudited.of_cut (by rw [hsession.store_eq])
  | leased t t' hsession htime hpersist hfinish =>
    obtain ⟨hfine', _, hsynced, hmode⟩ := hstanding.in_session hsession hfine
    obtain ⟨haudited, hok⟩ := hsynced.lease hmode htime hfine'
    obtain ⟨_, hsynced', hmode', -⟩ := hok t' hpersist
    rw [hpersist] at haudited
    exact (hfinish.audited hsynced' hmode' haudited.store).of_cut
      ((persist_ok_cut hpersist).trans (congrArg cut hsession.store_eq))
  | exhausted _ t' active _ _ _ hop hsession htime hpersist hrelay hnext =>
    obtain ⟨hfine', _, hsynced, hmode⟩ := hstanding.in_session hsession hfine
    obtain ⟨haudited, hok⟩ := hsynced.lease hmode htime hfine'
    obtain ⟨_, hsynced', -, hrelay', hgeneration'⟩ := hok t' hpersist
    rw [hpersist] at haudited
    cases active with
    | some intent =>
      obtain ⟨_, -, rfl⟩ := hsession.sequenced
      have hactive : s.relay = .active intent := hrelay'.symm.trans hrelay
      have hlast : checkedSucc s.generationFloor = none := by
        rw [hgeneration'] at hnext
        exact hnext
      subst hop
      simp [orderly, wellAsked, hactive, hlast] at horderly
    | none =>
      have hnone : t'.previousActive = none :=
        hsynced'.wellFormed.previousActive_of_not_inFlight (by rw [hrelay]; rfl)
      have hsame : ({ t' with previousActive := none } : AuthorityState) = t' := by rw [← hnone]
      rw [hsame, ending_sealWith]
      exact (audited_of_presentable hsynced'.presentable_asSealed haudited.store rfl).of_cut
        ((persist_ok_cut hpersist).trans (congrArg cut hsession.store_eq))

/-! ## runs -/

/-- Only what is in order is asked of the authority. -/
def InOrder (s : AuthorityState) : Event → Prop
  | .serve _ op | .powerCut _ op _ _ => orderly s op = true
  | .restart _ _ => True

instance : ∀ (s : AuthorityState) (event : Event), Decidable (InOrder s event)
  | s, .serve _ op => inferInstanceAs (Decidable (orderly s op = true))
  | s, .powerCut _ op _ _ => inferInstanceAs (Decidable (orderly s op = true))
  | _, .restart _ _ => isTrue trivial

theorem Standing.facing (h : Standing s) (answers : List Bool) (cut : Bool) :
    Standing (s.facing answers cut) := by
  have hwell : WellFormed s → WellFormed (s.facing answers cut) := fun h => { h with }
  cases h with
  | conflicted hsealed hmode hwell =>
    exact .conflicted hsealed hmode { hwell with }
  | fresh hunsealed hrecord hmode hrelay h => exact .fresh hunsealed hrecord hmode hrelay (hwell h)
  | synced record h =>
    exact .synced record ⟨h.unsealed, h.stored, ⟨h.follows.record_eq, h.follows.sequence_le⟩,
      hwell h.wellFormed, h.mode, h.pendingTime⟩
  | parted record hrecord hclosed hopen => exact .parted record hrecord hclosed hopen

theorem Kept.of_closed (h : Kept record) (hboot : record.boot = .closed) :
    record.mode = .sealed ∧ record.time = .unavailable ∧ record.pendingTime = none := by
  have hvalid := h.valid
  unfold invariantsHold at hvalid
  simp only [Bool.and_eq_true] at hvalid
  obtain ⟨⟨⟨hb, ht⟩, -⟩, -⟩ := hvalid
  have hmode : record.mode = .sealed := by
    cases hm : record.mode with
    | ready => exact absurd hm h.mode
    | serving => simp [bootInvariant, modeBootValid, hm, hboot] at hb
    | sealed => rfl
  refine ⟨hmode, ?_, h.pendingTime hmode⟩
  unfold timeInvariant at ht
  split at ht
  · simp [hmode] at ht
  · assumption

/-- **A device that comes up** is new, in step with its store, or parted from it. -/
theorem startUp_standing (hfine : StoreFine store) (h : startUp store config verified = some s) :
    s.store = store ∧ Standing s := by
  obtain ⟨hopen, ⟨hnone, rfl⟩ | ⟨record, hrecord, rfl⟩⟩ := startUp_cases h
  · exact ⟨rfl, .fresh hopen hnone rfl rfl ⟨rfl, rfl, rfl, rfl⟩⟩
  refine ⟨rfl, ?_⟩
  have hkept := hfine.record hopen record hrecord
  by_cases hboot : record.boot = .closed
  · obtain ⟨hmode, htime, hpending⟩ := hkept.of_closed hboot
    have hsame : (AuthorityState.restore store record config.bootChallenge).snapshot
        record.revision = record := by
      cases record
      subst hmode hboot htime hpending
      rfl
    refine .synced record ⟨hopen, hrecord, ⟨hsame.symm, UInt64.le_refl _⟩, ?_, ?_, fun _ => rfl⟩
    · rw [← wellFormed_iff record.revision, hsame]
      exact hkept.valid
    · rw [restore_mode_sealed.mpr hmode]
      simp
  · exact .parted record hrecord rfl hboot

/-- **One step of an orderly run.** -/
theorem audited_step (hfine : StoreFine s.store)
    (hstanding : Standing s) (horder : InOrder s event) (hstep : step s event = some (r, s')) :
    StoreFine s'.store ∧ Standing s' := by
  cases event with
  | serve answers op =>
    have haudited := (perform_course op (s.facing answers false)).audited
      ⟨hfine.offers, hfine.record⟩ (hstanding.facing answers false) horder
    rw [step_serve_ending hstep] at haudited
    exact ⟨haudited.store, haudited.standing rfl⟩
  | restart =>
    obtain ⟨-, hstart⟩ := started_eq hstep
    obtain ⟨hstore, hstanding'⟩ := startUp_standing hfine hstart
    exact ⟨by rw [hstore]; exact hfine, hstanding'⟩
  | powerCut answers op =>
    obtain ⟨-, hstart⟩ := started_eq hstep
    have haudited := (perform_course op (s.facing answers true)).audited
      ⟨hfine.offers, hfine.record⟩ (hstanding.facing answers true) horder
    obtain ⟨hstore, hstanding'⟩ := startUp_standing haudited.store hstart
    exact ⟨by rw [hstore]; exact haudited.store, hstanding'⟩

/-- **The checker accepts what the authority writes in order**: in every run of a device from its
first start in which only orderly operations are asked for, every record handed to the store
satisfies the record invariants, and while its counter domain is open is accepted after the one
it holds. -/
theorem records_accepted {config : AuthorityStateConfig} {verified : Bool}
    {s₀ s : AuthorityState} {events : List Event} {rs : List Reply}
    (hstart : startUp .blank config verified = some s₀)
    (hrun : run step s₀ events = some (rs, s)) (horder : Guarded step InOrder s₀ events) :
    ∀ o ∈ s.store.offers, o.next.invariantsHold = true ∧
      (o.sealed = false → ∀ previous, o.previous = some previous →
        verifyProtectedSuccessor previous o.next = .ok ()) := by
  have hblank : StoreFine .blank := ⟨by simp [blank], by simp [blank]⟩
  obtain ⟨hstore, hstanding⟩ := startUp_standing hblank hstart
  have hfine : StoreFine s₀.store := by
    rw [hstore]
    exact hblank
  have hend := run_invariant_of_guarded (P := fun s => StoreFine s.store ∧ Standing s)
    (fun _ _ _ _ h hg hstep => audited_step h.1 h.2 hg hstep) hrun horder ⟨hfine, hstanding⟩
  exact hend.1.offers

/-- A boot, a time lease and an enrollment, and a restart: five records are accepted one after
another. -/
theorem records_accepted_enrolling : ∃ rs s,
    run step (.new .blank sampleConfig) (enrolling ++ [.restart sampleConfig true]) =
      some (rs, s) ∧ s.store.offers.length = 5 ∧
      ∀ o ∈ s.store.offers, o.next.invariantsHold = true ∧
        (o.sealed = false → ∀ previous, o.previous = some previous →
          verifyProtectedSuccessor previous o.next = .ok ()) := by
  have horder : Guarded step InOrder (.new .blank sampleConfig)
      (enrolling ++ [.restart sampleConfig true]) := by decide +kernel
  obtain ⟨rs, s, hrun, hcount⟩ : ∃ rs s, run step (.new .blank sampleConfig)
      (enrolling ++ [.restart sampleConfig true]) = some (rs, s) ∧
        s.store.offers.length = 5 := by decide +kernel
  have hstart : startUp .blank sampleConfig true = some (.new .blank sampleConfig) := rfl
  exact ⟨rs, s, hrun, hcount, records_accepted hstart hrun horder⟩

/-- The device opens a boot, restarts and opens the next one. -/
def reopened : List Event := [.serve [] (.openBoot ⟨sampleContext 0 1, .fill 32 7⟩ (.fill 32 7)),
    .restart sampleConfig true,
    .serve [] (.openBoot ⟨sampleContext 0 2, .fill 32 7⟩ (.fill 32 7))]

/-- The record of the second boot is stored, but the checker does not accept it after that of the
first. -/
theorem reopened_refused : ∃ rs s o previous,
    run step (.new .blank sampleConfig) reopened = some (rs, s) ∧
      rs = [.value (.epoch 1), .started, .value (.epoch 2)] ∧ o ∈ s.store.offers ∧
      o.stored = true ∧ o.sealed = false ∧ o.previous = some previous ∧
      verifyProtectedSuccessor previous o.next = .error .persistenceFailure := by
  obtain ⟨rs, s, hrun, hreplies, o, ho, hstored, hopen, previous, hprevious, hrefused⟩ :
      ∃ rs s, run step (.new .blank sampleConfig) reopened = some (rs, s) ∧
        rs = [.value (.epoch 1), .started, .value (.epoch 2)] ∧ ∃ o ∈ s.store.offers,
        o.stored = true ∧ o.sealed = false ∧ ∃ previous, o.previous = some previous ∧
        verifyProtectedSuccessor previous o.next = .error .persistenceFailure := by
    decide +kernel
  exact ⟨rs, s, o, previous, hrun, hreplies, ho, hstored, hopen, hprevious, hrefused⟩

end Cellos.Authority
