import Cellos.Authority.Course

/-!
# Cellos.Authority.Sealed

What a sealed authority still does.

The header of the state machine calls `Sealed` absorbing.  A request is refused by a sealed
authority before anything else happens, but the operations that present an intent or a receipt
handed out earlier never look at the mode: one that fits the relay state succeeds, or moves it
on.
-/

namespace Cellos.Authority

open Lib Option

variable {s s' : AuthorityState} {op : Op} {r : Reply}

/-! ## what sealing is meant to freeze -/

/-- The relay profile state, the generation floor and the time floors are the same. -/
structure Frozen (s s' : AuthorityState) : Prop where
  relay : s'.relay = s.relay
  generationFloor : s'.generationFloor = s.generationFloor
  timeFloors : s'.timeFloors = s.timeFloors

theorem Frozen.refl (s : AuthorityState) : Frozen s s := ⟨rfl, rfl, rfl⟩

theorem Frozen.trans (h : Frozen s s') (h' : Frozen s' s'') : Frozen s s'' where
  relay := h'.relay.trans h.relay
  generationFloor := h'.generationFloor.trans h.generationFloor
  timeFloors := h'.timeFloors.trans h.timeFloors

theorem Frozen.facing (s : AuthorityState) (answers : List Bool) (cut : Bool) :
    Frozen s (s.facing answers cut) := ⟨rfl, rfl, rfl⟩

/-- The record is a sealed one with the same frozen parts. -/
structure Recorded (s : AuthorityState) (record : ProtectedAuthorityRecord) : Prop where
  mode : record.mode = .sealed
  relay : record.relay = s.relay
  generationFloor : record.generationFloor = s.generationFloor
  timeFloors : record.timeFloors = s.timeFloors

/-- A restart would find the authority as it is: the counter domain is sealed, or the stored
record is sealed with the same frozen parts. -/
def Backed (s : AuthorityState) : Prop :=
  s.store.sealed = true ∨ ∃ record, s.store.record = some record ∧ Recorded s record

theorem Recorded.of_frozen (h : Recorded s record) (hf : Frozen s s') : Recorded s' record where
  mode := h.mode
  relay := h.relay.trans hf.relay.symm
  generationFloor := h.generationFloor.trans hf.generationFloor.symm
  timeFloors := h.timeFloors.trans hf.timeFloors.symm

theorem Saved.backed (h : Saved s) (hmode : s.mode = .sealed) : Backed s := by
  obtain hsealed | hrecord := h
  · exact .inl hsealed
  · exact .inr ⟨_, hrecord, hmode, rfl, rfl, rfl⟩

/-- What the environment will answer does not matter to what is stored. -/
theorem Backed.facing (h : Backed s) (answers : List Bool) (cut : Bool) :
    Backed (s.facing answers cut) := by
  obtain hsealed | ⟨record, hrecord, hrec⟩ := h
  · exact .inl hsealed
  · exact .inr ⟨record, hrecord, hrec.of_frozen (.facing s answers cut)⟩

/-! ## starting up -/

theorem restore_mode_sealed :
    (AuthorityState.restore store record challenge).mode = .sealed ↔ record.mode = .sealed := by
  show (if record.mode = .sealed then AuthorityMode.sealed else .ready) = .sealed ↔ _
  split <;> simp_all

variable {config : AuthorityStateConfig} {answers : List Bool}

theorem startUp_backed
    (h : startUp store config verified = some s) (hmode : s.mode = .sealed) : Backed s := by
  obtain ⟨-, ⟨-, rfl⟩ | ⟨record, hrecord, rfl⟩⟩ := startUp_cases h
  · contradiction
  · exact .inr ⟨record, hrecord, restore_mode_sealed.mp hmode, rfl, rfl, rfl⟩

theorem startUp_frozen
    (hback : store.sealed = true ∨ ∃ record, store.record = some record ∧ Recorded s record)
    (h : startUp store config verified = some s') : s'.mode = .sealed ∧ Frozen s s' := by
  obtain ⟨hopen, hstart⟩ := startUp_cases h
  obtain hsealed | ⟨_, hrecord, hrec⟩ := hback
  · rw [hopen] at hsealed
    contradiction
  obtain ⟨hnone, -⟩ | ⟨_, hrecord', rfl⟩ := hstart
  · rw [hrecord] at hnone
    contradiction
  · rw [hrecord, some.injEq] at hrecord'
    subst hrecord'
    exact ⟨restore_mode_sealed.mpr hrec.mode, hrec.relay, hrec.generationFloor, hrec.timeFloors⟩

/-! ## steps -/

theorem step_serve (h : step s (.serve answers op) = some (r, s')) :
    (∃ value, perform op (s.facing answers false) = .ok value s' ∧ r = .value value) ∨
    (∃ fault, perform op (s.facing answers false) = .error fault s' ∧ r = .fault fault) := by
  simp only [step] at h
  split at h
  · next value t hrun =>
    cases h
    exact .inl ⟨value, hrun, rfl⟩
  · next fault t hrun =>
    cases h
    exact .inr ⟨fault, hrun, rfl⟩

theorem step_serve_ending (h : step s (.serve answers op) = some (r, s')) :
    ending (perform op (s.facing answers false)) = s' := by
  obtain ⟨_, hrun, -⟩ | ⟨_, hrun, -⟩ := step_serve h
  · rw [hrun]
    rfl
  · rw [hrun]
    rfl

/-- An event that starts the device ends as the start does. -/
theorem started_eq (h : start.map (fun t => (Reply.started, t)) = some (r, s')) :
    r = .started ∧ start = some s' := by
  obtain ⟨_, rfl, heq⟩ := map_eq_some_iff.mp h
  cases heq
  exact ⟨rfl, rfl⟩

/-- **One step keeps a sealed authority backed**, whatever is presented. -/
theorem backed_step (h : s.mode = .sealed → Backed s)
    (hstep : step s event = some (r, s')) : s'.mode = .sealed → Backed s' := by
  cases event with
  | serve answers op =>
    intro hmode
    have hend := step_serve_ending hstep
    obtain hsame | hsaved := (perform_course op (s.facing answers false)).saved rfl
    · rw [hend] at hsame
      subst hsame
      exact (h hmode).facing answers false
    · rw [hend] at hsaved
      exact hsaved.backed hmode
  | restart | powerCut =>
    exact startUp_backed (started_eq hstep).2

/-! ## while sealed -/

/-- An intent or a receipt is presented that fits the relay state. -/
def heldFits (s : AuthorityState) (op : Op) : Bool := answersAsIs s op || movesRelay s op

/-- While the authority is sealed, no intent or receipt that fits is presented. -/
def Unheld (s : AuthorityState) : Event → Prop
  | .serve _ op | .powerCut _ op _ _ => s.mode = .sealed → heldFits s op = false
  | .restart _ _ => True

instance : ∀ (s : AuthorityState) (event : Event), Decidable (Unheld s event)
  | s, .serve _ op => inferInstanceAs (Decidable (s.mode = .sealed → heldFits s op = false))
  | s, .powerCut _ op _ _ => inferInstanceAs (Decidable (s.mode = .sealed → heldFits s op = false))
  | _, .restart _ _ => isTrue trivial

/-- What is left of the sealed courses: the refusal, and sealing again. -/
theorem Course.of_sealed {r : EStateM.Result AuthorityFault AuthorityState Value}
    (h : Course s op r) (hmode : s.mode = .sealed) (hheld : heldFits s op = false) :
    r = .error .sealed s ∨
      ∃ fault sequence, r = (sealWith fault : Act Value) (s.sequenced sequence) := by
  unfold heldFits at hheld
  rw [Bool.or_eq_false_iff] at hheld
  cases h with
  | refused => exact .inl rfl
  | answered _ has =>
    rw [hheld.1] at has
    contradiction
  | sealed fault e hedit =>
    cases hedit with
    | direct sequence => exact .inr ⟨fault, sequence, rfl⟩
    | booting _ _ hready =>
      rw [hmode] at hready
      contradiction
  | session t hsession | unleased _ _ _ hsession | leased _ _ hsession
  | exhausted _ _ _ _ _ _ _ hsession => exact absurd hmode hsession.unsealed
  | booted _ _ _ _ _ hedit => exact absurd hmode hedit.unsealed
  | held _ _ hmoves =>
    rw [hheld.2] at hmoves
    contradiction

theorem Backed.conflicted (h : Backed s) (hsealed : store.sealed = s.store.sealed)
    (hrecord : store.record = s.store.record) : Backed (s.conflicted store) := by
  obtain hs | ⟨record, hr, hrec⟩ := h
  · exact .inl (ProtectedStore.sealOnConflict_sealed (hsealed.trans hs))
  · refine .inr ⟨record, ?_, hrec.of_frozen ⟨rfl, rfl, rfl⟩⟩
    show store.sealOnConflict.record = _
    rw [ProtectedStore.sealOnConflict_record, hrecord, hr]

theorem persist_frozen (hmode : s.mode = .sealed) (hback : Backed s) :
    (ending (persist s)).mode = .sealed ∧ Frozen s (ending (persist s)) ∧
      Backed (ending (persist s)) := by
  obtain ⟨_, -, -, -, hrun⟩ | ⟨_, -, hrun⟩ | hrun := persist_run s
  · rw [hrun]
    exact ⟨hmode, ⟨rfl, rfl, rfl⟩, .inr ⟨_, rfl, hmode, rfl, rfl, rfl⟩⟩
  · rw [hrun]
    exact ⟨rfl, ⟨rfl, rfl, rfl⟩, hback.conflicted rfl rfl⟩
  · rw [hrun]
    exact ⟨rfl, ⟨rfl, rfl, rfl⟩, hback.conflicted rfl rfl⟩

/-- **A sealed authority to which nothing that fits is presented stays as it is.** -/
theorem perform_sealed (hmode : s.mode = .sealed) (hback : Backed s) (hheld : heldFits s op = false)
    : (∀ value s', perform op s ≠ .ok value s') ∧ (ending (perform op s)).mode = .sealed ∧
      Frozen s (ending (perform op s)) ∧ Backed (ending (perform op s)) := by
  obtain hrun | ⟨_, sequence, hrun⟩ := (perform_course op s).of_sealed hmode hheld
  · rw [hrun]
    exact ⟨by simp, hmode, .refl s, hback⟩
  have hsame : Frozen s (s.sequenced sequence).asSealed := ⟨rfl, rfl, rfl⟩
  have hstill : Backed (s.sequenced sequence).asSealed := by
    obtain hs | ⟨record, hr, hrec⟩ := hback
    · exact .inl hs
    · exact .inr ⟨record, hr, hrec.of_frozen hsame⟩
  obtain ⟨hmode', hfrozen, hback'⟩ := persist_frozen rfl hstill
  rw [hrun, ending_sealWith]
  refine ⟨?_, hmode', hsame.trans hfrozen, hback'⟩
  intro value s' h
  rw [sealWith_run] at h
  split at h <;> contradiction

/-- **One step of a sealed authority.** -/
theorem sealed_step (hmode : s.mode = .sealed) (hback : Backed s)
    (hheld : Unheld s event) (hstep : step s event = some (r, s')) :
    (∀ value, r ≠ .value value) ∧ s'.mode = .sealed ∧ Frozen s s' ∧ Backed s' := by
  cases event with
  | serve answers =>
    obtain ⟨hfails, hmode', hfrozen, hback'⟩ :=
      perform_sealed (s := s.facing answers false) hmode (hback.facing answers false) (hheld hmode)
    have hend := step_serve_ending hstep
    rw [hend] at hmode' hfrozen hback'
    refine ⟨?_, hmode', (Frozen.facing s answers false).trans hfrozen, hback'⟩
    obtain ⟨value, hrun, -⟩ | ⟨_, -, rfl⟩ := step_serve hstep
    · exact absurd hrun (hfails value s')
    · simp
  | restart =>
    obtain ⟨rfl, hstart⟩ := started_eq hstep
    obtain ⟨hmode', hfrozen⟩ := startUp_frozen hback hstart
    exact ⟨by simp, hmode', hfrozen, startUp_backed hstart hmode'⟩
  | powerCut answers =>
    obtain ⟨rfl, hstart⟩ := started_eq hstep
    obtain ⟨-, -, hfrozen, hback'⟩ :=
      perform_sealed (s := s.facing answers true) hmode (hback.facing answers true) (hheld hmode)
    obtain ⟨hmode', hfrozen'⟩ := startUp_frozen hback' hstart
    exact ⟨by simp, hmode', ((Frozen.facing s answers true).trans hfrozen).trans hfrozen',
      startUp_backed hstart hmode'⟩

/-! ## what is presented anyway -/

theorem persist_relay (s : AuthorityState) : (ending (persist s)).relay = s.relay := by
  obtain ⟨_, -, -, -, hrun⟩ | ⟨_, -, hrun⟩ | hrun := persist_run s <;>
  · rw [hrun]
    rfl

/-- A sealed authority obeys an intent or a receipt that fits. -/
theorem perform_held (hmode : s.mode = .sealed) (hheld : heldFits s op = true) :
    (∃ value s', perform op s = .ok value s') ∨ (ending (perform op s)).relay ≠ s.relay := by
  unfold heldFits at hheld
  generalize hr : perform op s = r
  have hcourse : Course s op r := hr ▸ perform_course op s
  cases hcourse with
  | refused _ hop =>
    obtain ⟨has, hmoves⟩ := Op.of_asksContext hop s
    rw [has, hmoves] at hheld
    simp at hheld
  | answered value => exact .inl ⟨value, s, rfl⟩
  | sealed _ _ _ has hmoves =>
    rw [has, hmoves] at hheld
    simp at hheld
  | session t hsession | unleased _ _ _ hsession | leased _ _ hsession
  | exhausted _ _ _ _ _ _ _ hsession => exact absurd hmode hsession.unsealed
  | booted _ _ _ _ _ hedit => exact absurd hmode hedit.unsealed
  | held _ _ _ hedit =>
    right
    rw [ending_persistValue, persist_relay]
    cases hedit with
    | promoted _ _ hrelay | finalized _ _ hrelay | staged _ _ hrelay => simp [hrelay]
    | started _ hstart =>
      unfold AuthorityState.startsUpload at hstart
      simp only [Bool.and_eq_true, beq_iff_eq] at hstart
      simp [hstart.1]
    | advanced upload _ hrelay hnext =>
      obtain ⟨index, hindex, -, rfl⟩ := ProfileUploadIntent.advanced_eq_some hnext
      have hlater := checkedSuccU8_eq_some hindex
      intro hsame
      simp only [hrelay, RelayProfileState.uploading.injEq] at hsame
      have hindex' : index = upload.nextIndex := congrArg ProfileUploadIntent.nextIndex hsame
      rw [hindex'] at hlater
      omega

/-! ## the result -/

/-- **Sealed is absorbing as long as nothing that fits is presented**: from any state a sealed
device can reach, through restarts and power cuts, every operation fails and the relay profile
state, the generation floor and the time floors stay as they are, until an intent or receipt
that fits the relay state is presented.  And one that fits, served to the sealed authority,
succeeds or moves the relay profile state. -/
theorem sealed_absorbing {verified : Bool}
    {s₀ s : AuthorityState} {before : List Event} {rs₀ : List Reply}
    (hstart : startUp .blank config verified = some s₀)
    (hbefore : run step s₀ before = some (rs₀, s)) (hsealed : s.mode = .sealed) :
    (∀ after rs s', run step s after = some (rs, s') → Guarded step Unheld s after →
      (∀ r ∈ rs, ∀ value, r ≠ .value value) ∧ s'.mode = .sealed ∧ s'.relay = s.relay ∧
        s'.generationFloor = s.generationFloor ∧ s'.timeFloors = s.timeFloors) ∧
    (∀ answers op r s', heldFits s op = true → step s (.serve answers op) = some (r, s') →
      (∃ value, r = .value value) ∨ s'.relay ≠ s.relay) := by
  have hback : Backed s := run_invariant (P := fun s => s.mode = .sealed → Backed s)
      (fun _ _ _ _ => backed_step) hbefore (startUp_backed hstart) hsealed
  constructor
  · intro after rs s' hrun hguard
    obtain ⟨hreplies, hmode', hfrozen, -⟩ := run_history_of_guarded
        (H := fun rs t => (∀ r ∈ rs, ∀ value, r ≠ .value value) ∧ t.mode = .sealed ∧
          Frozen s t ∧ Backed t)
        (fun rs t event r t' h hg hstep => by
          obtain ⟨hrs, hmode, hfrozen, hb⟩ := h
          obtain ⟨hr, hmode', hfrozen', hb'⟩ := sealed_step hmode hb hg hstep
          refine ⟨?_, hmode', hfrozen.trans hfrozen', hb'⟩
          intro r' hr' value
          rw [List.mem_append, List.mem_singleton] at hr'
          obtain hr' | rfl := hr'
          · exact hrs r' hr' value
          · exact hr value)
        hrun hguard ⟨by simp, hsealed, .refl s, hback⟩
    exact ⟨hreplies, hmode', hfrozen.relay, hfrozen.generationFloor, hfrozen.timeFloors⟩
  · intro answers op r s' hheld hstep
    have hheld' : heldFits (s.facing answers false) op = true := by
      rw [← hheld]
      rfl
    obtain ⟨_, _, hrun⟩ | hrelay := perform_held (s := s.facing answers false) hsealed hheld'
    · left
      obtain ⟨value', -, rfl⟩ | ⟨_, hrun', -⟩ := step_serve hstep
      · exact ⟨value', rfl⟩
      · rw [hrun] at hrun'
        contradiction
    · right
      rw [step_serve_ending hstep] at hrelay
      exact hrelay

/-! ## a device that is sealed while a profile is about to be uploaded -/

def sampleConfig : AuthorityStateConfig :=
  ⟨.fill 32 1, .fill 32 2, 1, 0, 0, 0, .fill 32 3, ⟨0, 0, 0⟩⟩

/-- The context of the request with the given number in the given boot. -/
def sampleContext (bootEpoch sequence : UInt64) : RequestContext :=
  ⟨.fill 32 1, .fill 32 2, bootEpoch, sequence, .fill 32 3, sequence⟩

/-- A boot is opened, time is granted and an enrollment begins. -/
def enrolling : List Event := [.serve [] (.openBoot ⟨sampleContext 0 1, .fill 32 7⟩ (.fill 32 7)),
    .serve [] (.requestSignedTime ⟨sampleContext 1 2, 1⟩ (.ok (.fill 16 4, .fill 32 4))),
    .serve [] (.acceptTime ⟨sampleContext 1 3, .fill 16 4, 1, 1, 1, 100, 200, .fill 32 4⟩ 101),
    .serve [] (.beginEnrollment ⟨sampleContext 1 4, ⟨[], by decide⟩⟩ 101)]

def sampleUpload : BeginRelayProfileUploadRequest :=
  ⟨sampleContext 1 5, 9, 1, 1, 0, .fill 32 7, .fill 32 8, .fill 32 6, 32⟩

/-- The intent that the upload request is answered with. -/
def sampleIntent : ProfileUploadIntent :=
  ⟨.fill 32 1, .fill 32 2, 1, 1, 1, 1, 1, 0, .fill 32 7, .fill 32 8, .fill 32 6, 9, 32, 0⟩

/-- The upload is authorised, and a replayed request seals the authority. -/
def sealedUpload : List Event := enrolling ++ [.serve [] (.authorizeProfileUpload sampleUpload),
    .serve [] (.authorizeCommittedState ⟨sampleContext 1 5⟩)]

/-- The sealed device restarts and refuses to open a boot. -/
theorem sealed_absorbing_restart : ∃ rs s rs' s',
    run step (.new .blank sampleConfig) sealedUpload = some (rs, s) ∧ s.mode = .sealed ∧
      run step s [.restart sampleConfig true,
        .serve [] (.openBoot ⟨sampleContext 0 6, .fill 32 7⟩ (.fill 32 7))] = some (rs', s') ∧
      s'.mode = .sealed ∧ s'.relay = s.relay := by
  obtain ⟨rs, s, hrun, hsealed, hsome, hguard⟩ : ∃ rs s,
      run step (.new .blank sampleConfig) sealedUpload = some (rs, s) ∧ s.mode = .sealed ∧
        (run step s [.restart sampleConfig true,
          .serve [] (.openBoot ⟨sampleContext 0 6, .fill 32 7⟩ (.fill 32 7))]).isSome ∧
        Guarded step Unheld s [.restart sampleConfig true,
          .serve [] (.openBoot ⟨sampleContext 0 6, .fill 32 7⟩ (.fill 32 7))] := by
    decide +kernel
  obtain ⟨⟨rs', s'⟩, hafter⟩ := isSome_iff_exists.mp hsome
  have hstart : startUp .blank sampleConfig true = some (.new .blank sampleConfig) := rfl
  have habsorbs := sealed_absorbing hstart hrun hsealed
  obtain ⟨-, hmode', hrelay, -⟩ := habsorbs.1 _ rs' s' hafter hguard
  exact ⟨rs, s, rs', s', hrun, hsealed, hafter, hmode', hrelay⟩

/-- The acknowledgement of the authorised upload is presented to the sealed authority: the relay
profile state moves from pending to uploading. -/
theorem sealed_upload_starts : ∃ rs s s',
    run step (.new .blank sampleConfig) sealedUpload = some (rs, s) ∧ s.mode = .sealed ∧
      step s (.serve [] (.acknowledgeProfileUpload sampleIntent)) =
        some (.value (.upload sampleIntent), s') ∧
      s.relay = .pending 1 1 0 ∧ s'.relay = .uploading sampleIntent := by
  obtain ⟨rs, s, hrun, hsealed, hrelay, _, s', hstep, rfl, hrelay'⟩ : ∃ rs s,
      run step (.new .blank sampleConfig) sealedUpload = some (rs, s) ∧ s.mode = .sealed ∧
        s.relay = .pending 1 1 0 ∧
        ∃ r s', step s (.serve [] (.acknowledgeProfileUpload sampleIntent)) = some (r, s') ∧
          r = .value (.upload sampleIntent) ∧ s'.relay = .uploading sampleIntent := by
    decide +kernel
  exact ⟨rs, s, s', hrun, hsealed, hstep, hrelay, hrelay'⟩

end Cellos.Authority
