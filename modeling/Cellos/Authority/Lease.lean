import Cellos.Authority.Sealed

/-!
# Cellos.Authority.Lease

Trusted time is used once.

A device asks for a signed time, accepts it and spends it on one operation of the purpose it
asked for.  The floors, the open challenge and the accepted time are three pieces of state; only
the floors outlive a restart.  `TimeCourse` says what an operation does to them, and the history
of the device, one line for each event, then shows for every use the acceptance it spends.
-/

namespace Cellos.Authority

open Lib

variable {event : Event}

/-! ## lines -/

/-- One event of the device. -/
structure Line where
  before : AuthorityState
  event : Event
  after : AuthorityState

/-- The device, with a line for each event. -/
def logged (s : AuthorityState) (event : Event) : Option (Line × AuthorityState) :=
  (step s event).map fun out => (⟨s, event, out.2⟩, out.2)

/-- The operation, when it has succeeded. -/
def succeeded (op : Op) : EStateM.Result AuthorityFault AuthorityState Value → Option Op
  | .ok .. => some op
  | .error .. => none

namespace Line

/-- The operation that succeeds in the line.  The power may fail when it has. -/
def done (line : Line) : Option Op :=
  match line.event with
  | .serve answers op => succeeded op (perform op (line.before.facing answers false))
  | .powerCut answers op _ _ => succeeded op (perform op (line.before.facing answers true))
  | .restart .. => none

/-- The device is started anew in the line. -/
def restarts (line : Line) : Bool :=
  match line.event with
  | .serve .. => false
  | .restart .. | .powerCut .. => true

end Line

theorem logged_eq_some (h : logged s event = some (line, s')) :
    line = ⟨s, event, s'⟩ ∧ ∃ r, step s event = some (r, s') := by
  unfold logged at h
  rw [Option.map_eq_some_iff] at h
  obtain ⟨out, hstep, hout⟩ := h
  cases hout
  exact ⟨rfl, out.1, hstep⟩

/-! ## what comes of a write -/

/-- The states differ at most in what the store decides about. -/
def Alike (s s' : AuthorityState) : Prop :=
  s' = { s with mode := s'.mode, protectedRevision := s'.protectedRevision, store := s'.store }

/-- The store holds the state. -/
def Held (s : AuthorityState) : Prop := s.store.record = some (s.snapshot s.protectedRevision)

/-- **A write** is stored, or it is refused and leaves the authority sealed. -/
theorem persist_outcome (s : AuthorityState) :
    (∃ s', persist s = .ok () s' ∧ Alike s s' ∧ s'.mode = s.mode ∧ Held s') ∨
    (∃ fault s', persist s = .error fault s' ∧ Alike s s' ∧ s'.mode = .sealed ∧
      s'.store.record = s.store.record) := by
  obtain ⟨_, -, -, -, hrun⟩ | ⟨_, -, hrun⟩ | hrun := persist_run s
  · exact .inl ⟨_, hrun, rfl, rfl, rfl⟩
  · exact .inr ⟨_, _, hrun, rfl, rfl, ProtectedStore.sealOnConflict_record _⟩
  · exact .inr ⟨_, _, hrun, rfl, rfl, ProtectedStore.sealOnConflict_record _⟩

theorem persistValue_outcome (value : Value) (s : AuthorityState) :
    (∃ s', persistValue value s = .ok value s' ∧ Alike s s' ∧ s'.mode = s.mode ∧ Held s') ∨
    (∃ fault s', persistValue value s = .error fault s' ∧ Alike s s' ∧ s'.mode = .sealed ∧
      s'.store.record = s.store.record) := by
  have hrun : persistValue value s = EStateM.bind persist (fun _ => pure value) s := rfl
  unfold EStateM.bind at hrun
  obtain ⟨s', hpersist, h⟩ | ⟨fault, s', hpersist, h⟩ := persist_outcome s
  · rw [hpersist] at hrun
    exact .inl ⟨s', hrun, h⟩
  · rw [hpersist] at hrun
    exact .inr ⟨fault, s', hrun, h⟩

/-- Sealing fails, and leaves the authority sealed. -/
theorem sealWith_outcome (fault : AuthorityFault) (s : AuthorityState) :
    ∃ fault' s', (sealWith fault : Act Value) s = .error fault' s' ∧ Alike s.asSealed s' ∧
      s'.mode = .sealed ∧ (Held s' ∨ s'.store.record = s.store.record) := by
  rw [sealWith_run]
  obtain ⟨s', hpersist, hlike, hmode, hheld⟩ | ⟨_, s', hpersist, hlike, hmode, hrecord⟩ :=
    persist_outcome s.asSealed
  · rw [hpersist]
    exact ⟨fault, s', rfl, hlike, hmode, .inl hheld⟩
  · rw [hpersist]
    exact ⟨.persistenceFailure, s', rfl, hlike, hmode, .inr hrecord⟩

open Line

variable {op : Op} {s s' : AuthorityState}

/-! ## floors -/

/-- The floors stay or advance. -/
def Reaches (old new : ProtectedTimeFloors) : Prop :=
  new = old ∨ timeFloorsStrictlyAdvance old new = true

theorem Reaches.advance (h : Reaches a b)
    (h' : timeFloorsStrictlyAdvance b c = true) : timeFloorsStrictlyAdvance a c = true := by
  obtain rfl | h := h
  · exact h'
  · simp only [timeFloorsStrictlyAdvance, Bool.and_eq_true, Bool.or_eq_true, decide_eq_true_eq,
      beq_iff_eq] at h h' ⊢
    grind

theorem Reaches.trans (h : Reaches a b) (h' : Reaches b c) : Reaches a c := by
  obtain rfl | h' := h'
  · exact h
  · exact .inr (h.advance h')

/-- The floors do not fall back, neither in the authority nor in its record. -/
structure Onward (s s' : AuthorityState) : Prop where
  floors : Reaches s.timeFloors s'.timeFloors
  stored : s'.store.record = s.store.record ∨
    ∃ record, s'.store.record = some record ∧ Reaches s.timeFloors record.timeFloors

theorem Onward.of_record (h : s'.store.record = s.store.record)
    (hfloors : Reaches s.timeFloors s'.timeFloors) : Onward s s' := ⟨hfloors, .inl h⟩

theorem Onward.of_held (h : Held s') (hfloors : Reaches s.timeFloors s'.timeFloors) :
    Onward s s' := ⟨hfloors, .inr ⟨_, h, hfloors⟩⟩

theorem Onward.trans (h : Onward s s') (h' : Onward s' s'') : Onward s s'' := by
  refine ⟨h.floors.trans h'.floors, ?_⟩
  obtain hrecord | ⟨record, hrecord, hreach⟩ := h'.stored
  · rw [hrecord]
    exact h.stored
  · exact .inr ⟨record, hrecord, h.floors.trans hreach⟩

/-! ## the time of a state -/

/-- The time is as it was. -/
@[grind cases]
structure SameTime (s s' : AuthorityState) : Prop where
  time : s'.time = s.time
  pendingTime : s'.pendingTime = s.pendingTime
  timeFloors : s'.timeFloors = s.timeFloors

@[grind →] theorem Alike.sameTime (h : Alike s s') : SameTime s s' := by
  rw [h]
  exact ⟨rfl, rfl, rfl⟩

theorem SameTime.trans (h : SameTime s s') (h' : SameTime s' s'') : SameTime s s'' :=
  ⟨h'.time.trans h.time, h'.pendingTime.trans h.pendingTime, h'.timeFloors.trans h.timeFloors⟩

theorem InSession.sameTime (h : InSession s t) : SameTime s t ∧ t.mode = s.mode := by
  obtain ⟨_, -, rfl⟩ := h.sequenced
  exact ⟨⟨rfl, rfl, rfl⟩, rfl⟩

theorem RequestEdit.sameTime (h : RequestEdit op t e) (hop : op.timely = false) : SameTime t e := by
  cases h with
  | challenged _ _ _ _ _ hedit | timed _ _ _ _ _ _ _ _ hedit =>
    subst hedit
    contradiction
  | _ => exact ⟨rfl, rfl, rfl⟩

theorem RequestEdit.reaches (h : RequestEdit op t e) : Reaches t.timeFloors e.timeFloors := by
  cases h with
  | timed _ _ _ _ _ hfloors => exact .inr hfloors
  | _ => exact .inl rfl

theorem HeldEdit.untimed (h : HeldEdit op s e) :
    SameTime s e ∧ e.mode = s.mode ∧ op.timely = false ∧ op.lease = none := by
  cases h <;> (subst_vars; exact ⟨⟨rfl, rfl, rfl⟩, rfl, rfl, rfl⟩)

theorem Op.timely_of_lease {lease : TimePurpose × UInt64} (h : op.lease = some lease) :
    op.timely = false := by
  cases op <;> first | rfl | contradiction

/-! ## what an operation does to the time -/

/-- The floors that a signed time sets. -/
def AcceptSignedTimeRequest.floors (request : AcceptSignedTimeRequest) : ProtectedTimeFloors :=
  ⟨request.sourceEpoch, request.sourceSequence, request.unixSeconds.toUInt64⟩

/-- What an operation does to the time of the state `s`. -/
inductive TimeCourse (op : Op) (s : AuthorityState) :
    EStateM.Result AuthorityFault AuthorityState Value → Prop
  | failed (fault : AuthorityFault) (s' : AuthorityState) (hmode : s'.mode = .sealed) :
      TimeCourse op s (.error fault s')
  | kept (value : Value) (s' : AuthorityState) (hop : op.timely = false) (hlease : op.lease = none)
      (hmode : s.mode = .sealed → s'.mode = .sealed) (hsame : SameTime s s') :
      TimeCourse op s (.ok value s')
  | asked (value : Value) (s' : AuthorityState) (challenge : PendingTimeChallenge)
      (request : RequestSignedTimeRequest) (hmode : s.mode ≠ .sealed)
      (hop : op = .requestSignedTime request (.ok (challenge.timeRequestId, challenge.nonce)))
      (hpurpose : TimePurpose.tryFrom request.purpose = .ok challenge.purpose)
      (htime : s'.time = .unavailable) (hpending : s'.pendingTime = some challenge) :
      TimeCourse op s (.ok value s')
  | accepted (value : Value) (s' : AuthorityState) (purpose : TimePurpose)
      (request : AcceptSignedTimeRequest) (now : UInt64) (hmode : s.mode ≠ .sealed)
      (hop : op = .acceptTime request now)
      (hpurpose : TimePurpose.tryFrom request.purpose = .ok purpose)
      (hpending : s.pendingTime = some ⟨request.timeRequestId, purpose, request.nonce⟩)
      (hadvance : timeFloorsStrictlyAdvance s.timeFloors request.floors = true)
      (hfloors : s'.timeFloors = request.floors) (hnone : s'.pendingTime = none)
      (htime : s'.time = .valid request.sourceEpoch request.sourceSequence request.expiresAt
        request.timeRequestId purpose)
      (hheld : Held s') : TimeCourse op s (.ok value s')
  | used (value : Value) (s' : AuthorityState) (hmode : s.mode ≠ .sealed) (hlease : Leased op s)
      (htime : s'.time = .unavailable) (hpending : s'.pendingTime = s.pendingTime) :
      TimeCourse op s (.ok value s')

theorem persistValue_onward (value : Value) (hrecord : e.store.record = t.store.record)
    (hfloors : Reaches t.timeFloors e.timeFloors) :
    (∃ s', persistValue value e = .ok value s' ∧ Alike e s' ∧ s'.mode = e.mode ∧ Held s' ∧
      Onward t s') ∨
    (∃ fault s', persistValue value e = .error fault s' ∧ s'.mode = .sealed ∧ Onward t s') := by
  have hcases := persistValue_outcome value e
  grind [Onward.of_held, Onward.of_record]

theorem sealWith_onward (fault : AuthorityFault) (hrecord : e.store.record = t.store.record)
    (hfloors : e.timeFloors = t.timeFloors) :
    ∃ fault' s', (sealWith fault : Act Value) e = .error fault' s' ∧ s'.mode = .sealed ∧
      Onward t s' := by
  obtain ⟨fault', s', hrun, hlike, hmode, hstored⟩ := sealWith_outcome fault e
  have hreach : Reaches t.timeFloors s'.timeFloors := .inl (hlike.sameTime.timeFloors.trans hfloors)
  grind [Onward.of_held, Onward.of_record]

theorem persist_used (hsession : InSession s t) :
    (∃ t', persist { t with time := .unavailable } = .ok () t' ∧ t'.time = .unavailable ∧
      t'.pendingTime = s.pendingTime ∧ Onward s t') ∨
    (∃ fault t', persist { t with time := .unavailable } = .error fault t' ∧ t'.mode = .sealed ∧
      Onward s t') := by
  have hstore := hsession.store_eq
  obtain ⟨hsame, -⟩ := hsession.sameTime
  have hcases := persist_outcome { t with time := .unavailable }
  grind [Onward.of_held, Onward.of_record, Reaches]

theorem Finish.time (h : Finish op t r) :
    (∃ fault s', r = .error fault s' ∧ s'.mode = .sealed ∧ Onward t s') ∨
    (∃ value e s', r = .ok value s' ∧ RequestEdit op t e ∧ Alike e s' ∧ Held s' ∧ Onward t s') := by
  cases h with
  | sealed fault => exact .inl (sealWith_onward fault rfl rfl)
  | stored value e hedit =>
    have hcases := persistValue_onward value (by rw [hedit.store_eq]) hedit.reaches
    grind

/-- What a request about the time does. -/
theorem TimeCourse.of_timely (hmode : s.mode ≠ .sealed) (hop : op.timely = true)
    (hsame : SameTime s t) (hedit : RequestEdit op t e) (hlike : Alike e s') (hheld : Held s') :
    TimeCourse op s (.ok value s') := by
  obtain ⟨-, hpending, hfloors⟩ := hsame
  have hsame' := hlike.sameTime
  cases hedit with
  | same hop' =>
    rw [hop] at hop'
    contradiction
  | challenged challenge _ hfree request _ hedit hpurpose hgenerated =>
    subst hgenerated
    exact .asked value s' challenge request hmode hedit hpurpose (hsame'.time.trans hfree)
      hsame'.pendingTime
  | timed challenge floors expiresAt hwait _ hadvance request now hedit hpurpose hchallenge
      hrequest =>
    obtain ⟨rfl, rfl⟩ := hrequest
    obtain ⟨_, purpose, _⟩ := challenge
    obtain ⟨rfl, rfl⟩ := hchallenge
    exact .accepted value s' purpose request now hmode hedit hpurpose (hpending ▸ hwait)
      (hfloors ▸ hadvance) hsame'.timeFloors hsame'.pendingTime hsame'.time hheld
  | enrolled _ _ _ _ _ _ hedit | consumed _ _ _ hedit | prepared _ _ _ hedit
  | abandoned _ _ _ hedit =>
    subst hedit
    contradiction

/-- Storing an edit that is not about the time. -/
theorem TimeCourse.of_kept (value : Value) (hstore : e.store = s.store) (hsame : SameTime s e)
    (hmode : s.mode = .sealed → e.mode = .sealed) (hop : op.timely = false)
    (hlease : op.lease = none) :
    TimeCourse op s (persistValue value e) ∧ Onward s (ending (persistValue value e)) := by
  obtain ⟨s', hrun, hlike, hmode', -, hon⟩ | ⟨fault, s', hrun, hsealed, hon⟩ :=
    persistValue_onward value (congrArg ProtectedStore.record hstore) (.inl hsame.timeFloors)
  · rw [hrun]
    exact ⟨.kept value s' hop hlease (hmode' ▸ hmode) (hsame.trans hlike.sameTime), hon⟩
  · rw [hrun]
    exact ⟨.failed fault s' hsealed, hon⟩

/-- **What every operation does to the time.** -/
theorem Course.time (h : Course s op r) : TimeCourse op s r ∧ Onward s (ending r) := by
  cases h with
  | refused hmode => exact ⟨.failed _ _ hmode, .of_record rfl (.inl rfl)⟩
  | answered value =>
    have hop : op.timely = false ∧ op.lease = none := by
      cases op <;> first | exact ⟨rfl, rfl⟩ | contradiction
    exact ⟨.kept value s hop.1 hop.2 id ⟨rfl, rfl, rfl⟩, .of_record rfl (.inl rfl)⟩
  | sealed fault e hedit =>
    have hfloors : e.timeFloors = s.timeFloors := by cases hedit <;> rfl
    obtain ⟨fault', s', hrun, hsealed, hon⟩ :=
      sealWith_onward fault (congrArg ProtectedStore.record hedit.store_eq) hfloors
    rw [hrun]
    exact ⟨.failed _ _ hsealed, hon⟩
  | session t hsession hfinish hlease =>
    obtain ⟨hsame, hmode⟩ := hsession.sameTime
    have hst : Onward s t := .of_record (by rw [hsession.store_eq]) (.inl hsame.timeFloors)
    obtain ⟨fault, s', rfl, hsealed, hon⟩ | ⟨value, e, s', rfl, hedit, hlike, hheld, hon⟩ :=
      hfinish.time
    · exact ⟨.failed _ _ hsealed, hst.trans hon⟩
    refine ⟨?_, hst.trans hon⟩
    cases hop : op.timely with
    | true => exact .of_timely hsession.unsealed hop hsame hedit hlike hheld
    | false =>
      exact .kept value s' hop hlease (fun h => absurd h hsession.unsealed)
        (hsame.trans ((hedit.sameTime hop).trans hlike.sameTime))
  | booted value _ _ _ hop hedit =>
    subst hop
    cases hedit with
    | opened _ _ _ hmode =>
      refine TimeCourse.of_kept value ?_ ⟨?_, ?_, ?_⟩ (by simp [hmode]) rfl rfl <;> rfl
  | held value _ _ hedit =>
    obtain ⟨hsame, hmode, htimely, hlease⟩ := hedit.untimed
    exact TimeCourse.of_kept value hedit.store_eq hsame (by rw [hmode]; exact id) htimely hlease
  | unleased _ _ _ hsession =>
    have hcases := persist_used hsession
    grind [ending, TimeCourse.failed]
  | leased _ _ hsession _ hpersist hfinish hlease =>
    obtain ⟨_, hrun, hfree, hpending, hst⟩ | ⟨_, _, hrun, -⟩ := persist_used hsession
    · rw [hpersist] at hrun
      cases hrun
      obtain ⟨fault, s', rfl, hsealed, hon⟩ | ⟨value, e, s', rfl, hedit, hlike, -, hon⟩ :=
        hfinish.time
      · exact ⟨.failed fault s' hsealed, hst.trans hon⟩
      obtain ⟨purpose, now, epoch, sequence, expiresAt, id, hop, hvalid, hlive⟩ := hlease
      have hsame := (hedit.sameTime (Op.timely_of_lease hop)).trans hlike.sameTime
      rw [hsession.sameTime.1.time] at hvalid
      exact ⟨.used value s' hsession.unsealed ⟨_, _, _, _, _, _, hop, hvalid, hlive⟩
        (hsame.time.trans hfree) (hsame.pendingTime.trans hpending), hst.trans hon⟩
    · simp [hpersist] at hrun
  | exhausted t t' active fault _ _ _ hsession =>
    have hcases := persist_used hsession
    obtain ⟨fault', s', hseal, hsealed, hon⟩ :=
      sealWith_onward (e := { t' with previousActive := active }) (t := t') fault rfl rfl
    grind [ending, TimeCourse.failed, Onward.trans]

/-! ## the history -/

namespace Line

/-- The signed time that is accepted in the line. -/
def accepted (line : Line) : Option AcceptSignedTimeRequest :=
  match line.done with
  | some (.acceptTime request _) => some request
  | _ => none

/-- The line asks for a signed time under this challenge. -/
def Asks (challenge : PendingTimeChallenge) (line : Line) : Prop := ∃ request, line.done =
      some (.requestSignedTime request (.ok (challenge.timeRequestId, challenge.nonce))) ∧
    TimePurpose.tryFrom request.purpose = .ok challenge.purpose

/-- The line accepts a signed time for this purpose, and the device is not started anew. -/
def Accepts (purpose : TimePurpose) (expiresAt : UInt64) (line : Line) : Prop :=
  ∃ request, line.accepted = some request ∧ TimePurpose.tryFrom request.purpose = .ok purpose ∧
    request.expiresAt = expiresAt ∧ line.restarts = false

/-- The purpose and the clock of the operation that is authorised by an accepted time. -/
def used (line : Line) : Option (TimePurpose × UInt64) := line.done.bind Op.lease

/-- No signed time is accepted or used in the line, and the device is not started anew. -/
def Quiet (line : Line) : Prop := line.restarts = false ∧ line.accepted = none ∧ line.used = none

end Line

/-- An accepted time was asked for, and a use of time has an accepted one of its own. -/
structure Entitled (earlier : List Line) (line : Line) : Prop where
  accepted : ∀ request, line.accepted = some request → ∃ purpose,
    TimePurpose.tryFrom request.purpose = .ok purpose ∧
    Since (Asks ⟨request.timeRequestId, purpose, request.nonce⟩) (·.restarts = false) earlier
  used : ∀ purpose now, line.used = some (purpose, now) → ∃ expiresAt, now < expiresAt ∧
    Since (Accepts purpose expiresAt) Quiet earlier

/-- What the history says about the time of the device. -/
structure Past (lines : List Line) (s : AuthorityState) : Prop where
  ordered : (lines.filterMap accepted).Pairwise fun old new =>
    timeFloorsStrictlyAdvance old.floors new.floors = true
  reached : ∀ request ∈ lines.filterMap accepted, Reaches request.floors s.timeFloors
  stored : ∀ request ∈ lines.filterMap accepted, ∃ record, s.store.record = some record ∧
    Reaches request.floors record.timeFloors
  entitled : Justified Entitled lines

/-- What the open challenge and the accepted time of an unsealed device go back to. -/
structure Present (lines : List Line) (s : AuthorityState) : Prop where
  asked : s.mode ≠ .sealed → ∀ challenge, s.pendingTime = some challenge →
    Since (Asks challenge) (·.restarts = false) lines
  live : s.mode ≠ .sealed → ∀ epoch sequence expiresAt id purpose,
    s.time = .valid epoch sequence expiresAt id purpose →
      Since (Accepts purpose expiresAt) Quiet lines

variable {lines : List Line} {line : Line} {config : AuthorityStateConfig} {verified : Bool}
  {event : Event}

/-- A line in which no operation succeeds asks for no entitlement. -/
theorem Entitled.of_failed (h : line.done = none) : Entitled lines line := by
  constructor
  · intro request haccepted
    simp [Line.accepted, h] at haccepted
  · intro purpose now hused
    simp [Line.used, h] at hused

/-- The floors move on, and no signed time is accepted. -/
theorem Past.concat (h : Past lines s) (hon : Onward s s') (hnone : line.accepted = none)
    (hentitled : Entitled lines line) : Past (lines ++ [line]) s' := by
  have hsame : (lines ++ [line]).filterMap accepted = lines.filterMap accepted := by
    simp [hnone]
  constructor
  · rw [hsame]
    exact h.ordered
  · rw [hsame]
    intro request hmem
    exact (h.reached request hmem).trans hon.floors
  · rw [hsame]
    intro request hmem
    obtain hrecord | ⟨record, hrecord, hreach⟩ := hon.stored
    · rw [hrecord]
      exact h.stored request hmem
    · exact ⟨record, hrecord, (h.reached request hmem).trans hreach⟩
  · exact h.entitled.concat hentitled

/-- A signed time is accepted and stored. -/
theorem Past.accept (h : Past lines s) (haccepted : line.accepted = some request)
    (hadvance : timeFloorsStrictlyAdvance s.timeFloors request.floors = true)
    (hfloors : s'.timeFloors = request.floors) (hheld : Held s')
    (hentitled : Entitled lines line) : Past (lines ++ [line]) s' := by
  have hmore : (lines ++ [line]).filterMap accepted =
      lines.filterMap accepted ++ [request] := by simp [haccepted]
  have hreach : ∀ old ∈ lines.filterMap accepted ++ [request],
      Reaches old.floors s'.timeFloors := by
    rw [hfloors]
    exact forall_mem_concat (fun old hmem => .inr ((h.reached old hmem).advance hadvance)) (.inl rfl)
  constructor
  · rw [hmore]
    exact pairwise_concat h.ordered fun old hmem => (h.reached old hmem).advance hadvance
  · rw [hmore]
    exact hreach
  · rw [hmore]
    intro old hmem
    exact ⟨_, hheld, hreach old hmem⟩
  · exact h.entitled.concat hentitled

theorem Line.accepted_eq_none (h : line.done = succeeded op r) (hop : op.timely = false) :
    line.accepted = none := by
  unfold accepted
  rw [h]
  cases r <;> cases op <;> first | rfl | contradiction

/-- **One operation** keeps what the history says, whether the power fails after it or not. -/
theorem Past.perform (h : Past lines s) (hpresent : Present lines s) (hcourse : TimeCourse op s r)
    (hon : Onward s (ending r)) (hdone : line.done = succeeded op r) :
    Past (lines ++ [line]) (ending r) := by
  cases hcourse with
  | failed =>
    exact h.concat hon (by simp [accepted, hdone, succeeded]) (.of_failed hdone)
  | kept _ _ hop hlease =>
    have hnone := accepted_eq_none hdone hop
    exact h.concat hon hnone ⟨by simp [hnone], by simp [used, hdone, succeeded, hlease]⟩
  | asked _ _ _ _ _ hop =>
    subst hop
    refine h.concat hon ?_ ⟨?_, ?_⟩ <;> simp [accepted, used, hdone, succeeded, Op.lease]
  | accepted value s' purpose request now hmode hop hpurpose hpending hadvance hfloors hnone htime
      hheld =>
    subst hop
    have hsome : line.accepted = some request := by simp [accepted, hdone, succeeded]
    refine h.accept hsome hadvance hfloors hheld ⟨?_, by simp [used, hdone, succeeded, Op.lease]⟩
    grind [Present.asked]
  | used _ _ _ hlease =>
    obtain ⟨purpose, now, epoch, sequence, expiresAt, id, hop, hvalid, hlive⟩ := hlease
    have hnone := accepted_eq_none hdone (Op.timely_of_lease hop)
    have hused : line.used = some (purpose, now) := by simp [used, hdone, succeeded, hop]
    refine h.concat hon hnone ⟨by simp [hnone], ?_⟩
    grind [Present.live]

/-- **One operation** that is served keeps what the challenge and the time go back to. -/
theorem Present.perform (h : Present lines s) (hcourse : TimeCourse op s r)
    (hdone : line.done = succeeded op r) (hserved : line.restarts = false) :
    Present (lines ++ [line]) (ending r) := by
  cases hcourse with
  | failed _ _ hmode => exact ⟨absurd hmode, absurd hmode⟩
  | kept _ _ hop hlease =>
    have hnone := accepted_eq_none hdone hop
    have hused : line.used = none := by simp [used, hdone, succeeded, hlease]
    constructor
    · grind [Present.asked, Since.concat, SameTime, ending]
    · grind [Present.live, Since.concat, SameTime, ending, Quiet]
  | asked _ _ challenge request _ hop hpurpose =>
    subst hop
    have hasks : line.Asks challenge := ⟨request, hdone, hpurpose⟩
    constructor <;> grind [Since.now, ending]
  | accepted value s' purpose request now hmode hop hpurpose hpending hadvance hfloors hnone htime
      hheld =>
    subst hop
    have haccepts : line.Accepts purpose request.expiresAt :=
      ⟨request, by simp [accepted, hdone, succeeded], hpurpose, rfl, hserved⟩
    constructor <;> grind [Since.now, ending]
  | used =>
    constructor <;> grind [Present.asked, Since.concat, ending]

/-- No challenge and no accepted time survive a start. -/
theorem startUp_time (h : startUp store config verified = some s') :
    s'.pendingTime = none ∧ s'.time = .unavailable := by
  obtain ⟨-, ⟨-, rfl⟩ | ⟨_, -, rfl⟩⟩ := startUp_cases h
  · exact ⟨rfl, rfl⟩
  · exact ⟨rfl, rfl⟩

theorem Present.startUp (h : startUp store config verified = some s') : Present lines s' := by
  obtain ⟨hpending, htime⟩ := startUp_time h
  constructor
  · intro _ challenge hsome
    exact absurd (hpending.symm.trans hsome) (by simp)
  · intro _ epoch sequence expiresAt id purpose hvalid
    exact absurd (htime.symm.trans hvalid) (by simp)

/-- A device comes up with floors that the accepted times do not exceed. -/
theorem Past.startUp (h : Past lines s)
    (hstart : startUp s.store config verified = some s') : Past lines s' := by
  have hstore : s'.store = s.store := by
    obtain ⟨-, ⟨-, rfl⟩ | ⟨_, -, rfl⟩⟩ := startUp_cases hstart <;> rfl
  refine ⟨h.ordered, ?_, by rw [hstore]; exact h.stored, h.entitled⟩
  intro request hmem
  obtain ⟨_, hrecord, hreach⟩ := h.stored request hmem
  obtain ⟨-, ⟨hnone, -⟩ | ⟨_, hrecord', rfl⟩⟩ := startUp_cases hstart
  · rw [hrecord] at hnone
    contradiction
  · cases hrecord.symm.trans hrecord'
    exact hreach

/-- **One event** keeps what the history says about the time. -/
theorem timed_step (h : Past lines s ∧ Present lines s) (hstep : logged s event = some (line, s')) :
    Past (lines ++ [line]) s' ∧ Present (lines ++ [line]) s' := by
  obtain ⟨rfl, _, hstep⟩ := logged_eq_some hstep
  have hperform : ∀ answers cut op, let t := s.facing answers cut
      Past lines t ∧ Present lines t ∧ TimeCourse op t (perform op t) ∧
        Onward t (ending (perform op t)) := by
    intro answers cut op
    exact ⟨⟨h.1.ordered, h.1.reached, h.1.stored, h.1.entitled⟩, ⟨h.2.asked, h.2.live⟩,
      (perform_course op _).time⟩
  cases event with
  | serve answers op =>
    obtain ⟨hpast, hpresent, hcourse, hon⟩ := hperform answers false op
    have hend := step_serve_ending hstep
    rw [← hend]
    exact ⟨hpast.perform hpresent hcourse hon rfl, hpresent.perform hcourse rfl rfl⟩
  | restart =>
    obtain ⟨-, hstart⟩ := started_eq hstep
    exact ⟨(h.1.startUp hstart).concat (.of_record rfl (.inl rfl)) rfl (.of_failed rfl),
      .startUp hstart⟩
  | powerCut answers op =>
    obtain ⟨-, hstart⟩ := started_eq hstep
    obtain ⟨hpast, hpresent, hcourse, hon⟩ := hperform answers true op
    exact ⟨(hpast.perform hpresent hcourse hon rfl).startUp hstart, .startUp hstart⟩

/-- No accepted time is left when the device has been started. -/
theorem logged_fresh (h : logged s event = some (line, s'))
    (hrestarts : line.restarts = true) : line.after.time = .unavailable := by
  obtain ⟨rfl, _, hstep⟩ := logged_eq_some h
  cases event with
  | serve => contradiction
  | restart config verified | powerCut answers op config verified =>
    exact (startUp_time (started_eq hstep).2).2

/-- **Trusted time is used once**, in every run of a device from any store, with restarts and
power cuts anywhere: the accepted times strictly advance; each was asked for under its own
challenge and for its purpose since the device was last started; every operation that time
authorises has one that was accepted for its purpose and has not expired, and between the two no
other was authorised, nothing was accepted and the device was not started anew; and none is left
when it has been started. -/
theorem time_single_use {store : ProtectedStore} {config : AuthorityStateConfig} {verified : Bool}
    {s₀ : AuthorityState} {events : List Event} (hstart : startUp store config verified = some s₀)
    (hrun : run logged s₀ events = some (lines, s)) :
    (lines.filterMap accepted).Pairwise (fun old new => (old.sourceEpoch < new.sourceEpoch ∨
          old.sourceEpoch = new.sourceEpoch ∧ old.sourceSequence < new.sourceSequence) ∧
        old.unixSeconds.toUInt64 < new.unixSeconds.toUInt64) ∧
    Justified Entitled lines ∧
    (∀ line ∈ lines, line.restarts = true → line.after.time = .unavailable) := by
  have htimed : (Past lines s ∧ Present lines s) ∧
      ∀ line ∈ lines, line.restarts = true → line.after.time = .unavailable := by
    refine run_history (H := fun lines s => (Past lines s ∧ Present lines s) ∧
      ∀ line ∈ lines, line.restarts = true → line.after.time = .unavailable) ?_ hrun ?_
    · intro lines s event line s' h hstep
      exact ⟨timed_step h.1 hstep, forall_mem_concat h.2 (logged_fresh hstep)⟩
    · exact ⟨⟨⟨.nil, by simp, by simp, .nil⟩, .startUp hstart⟩, by simp⟩
  refine ⟨htimed.1.1.ordered.imp ?_, htimed.1.1.entitled, htimed.2⟩
  intro old new hadvance
  simp only [timeFloorsStrictlyAdvance, Bool.and_eq_true,
    Bool.or_eq_true, decide_eq_true_eq, beq_iff_eq] at hadvance
  exact ⟨hadvance.2.imp_right fun h => ⟨h.1.symm, h.2⟩, hadvance.1⟩

/-- The enrollment of the sample device spends the time that it has asked for. -/
theorem time_single_use_enrolling : ∃ lines s,
    run logged (.new .blank sampleConfig) enrolling = some (lines, s) ∧
      lines.map used = [none, none, none, some (.enrollment, 101)] ∧
      Justified Entitled lines := by
  obtain ⟨lines, s, hrun, hused⟩ : ∃ lines s,
      run logged (.new .blank sampleConfig) enrolling = some (lines, s) ∧
        lines.map used = [none, none, none, some (.enrollment, 101)] := by
    decide +kernel
  have hstart : startUp .blank sampleConfig true = some (.new .blank sampleConfig) := rfl
  exact ⟨lines, s, hrun, hused, (time_single_use hstart hrun).2.1⟩

end Cellos.Authority
