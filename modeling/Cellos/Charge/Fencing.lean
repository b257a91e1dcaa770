import Cellos.Charge.Balance

/-!
# Cellos.Charge.Fencing

The gate passes from one writer to the next.

`prepareAdoption` closes the gate for the writer that calls it, `acceptAdoption` names the
next writer and its epoch, and `activate` opens the gate for it.  A call presents a writer
and an epoch and is refused unless they are the recorded ones, so a replaced writer is shut
out for as long as the recorded epoch only grows.  `acceptAdoption` takes any writer and any
epoch in any status; `HandOver` is what it would have to check.

`activate` refuses while an obligation is unknown, and only an open gate resolves one, so a gate
that is closed with an unknown obligation stays closed (`Stuck`).
-/

namespace Cellos.Charge

open Lib

variable {lines : List Line} {line : Line}

/-- An adoption is accepted on a fenced gate and for a later epoch. -/
def HandOver (gate : AuthorityGate) : Call → Prop
  | .acceptAdoption _ newEpoch => gate.gateStatus = .fenced ∧ gate.epoch < newEpoch
  | _ => True

instance (gate : AuthorityGate) (call : Call) : Decidable (HandOver gate call) := by
  cases call <;> unfold HandOver <;> infer_instance

/-- The line of a call the gate let through for a writer at an epoch. -/
def Line.Served (line : Line) (writer : Id32) (epoch : Nat) : Prop :=
  line.outcome = .done ∧ line.call.presents = some (writer, epoch)

instance (line : Line) (writer : Id32) (epoch : Nat) : Decidable (line.Served writer epoch) := by
  unfold Line.Served
  infer_instance

/-- The line on which a writer fenced the gate. -/
def Line.Fences (line : Line) (writer : Id32) (epoch : Nat) : Prop := line.outcome = .done ∧
    ∃ targetAuthority, line.call = .prepareAdoption targetAuthority writer epoch

/-! ## one call -/

section

variable (hmove : Move gate call gate')

include hmove

/-- Who is served is the recorded writer, at the recorded epoch. -/
theorem Move.presented (h : call.presents = some (writer, epoch)) : epoch = gate.epoch := by
  cases hmove with
  | reserved hgate | fenced hgate | activated hgate =>
    cases h
    exact hgate.2
  | rewritten hgate =>
    obtain ⟨-, rfl⟩ := by simpa [h] using hgate.symm
    rfl
  | adopted => contradiction

theorem Move.epoch_le (hguard : HandOver gate call) : gate.epoch ≤ gate'.epoch := by
  cases hmove with
  | reserved | rewritten | fenced | activated => exact le_rfl
  | adopted => exact hguard.2.le

/-- A gate is fenced by the writer it records, or was fenced before. -/
theorem Move.fenced_by (h : gate'.gateStatus = .fenced) :
    gate'.writer = gate.writer ∧ gate'.epoch = gate.epoch ∧ (gate.gateStatus = .fenced ∨
      ∃ targetAuthority, call = .prepareAdoption targetAuthority gate.writer gate.epoch) := by
  cases hmove with
  | reserved | rewritten => exact ⟨rfl, rfl, .inl h⟩
  | @fenced targetAuthority _ _ hgate =>
    obtain ⟨rfl, rfl⟩ := hgate
    exact ⟨rfl, rfl, .inr ⟨targetAuthority, rfl⟩⟩
  | adopted | activated => contradiction

end

/-! ## every run -/

/-- What is known along a run once the recorded epoch is at least `bound`. -/
structure Since (bound : Nat) (lines : List Line) (gate : AuthorityGate) : Prop where
  balanced : gate.Balanced
  reached : bound ≤ gate.epoch
  served : ∀ line ∈ lines, ∀ writer epoch, line.Served writer epoch → bound ≤ epoch

theorem since_step (hsince : Since bound lines gate) (hguard : HandOver gate call)
    (h : step gate call = some (line, gate')) : Since bound (lines ++ [line]) gate' := by
  obtain ⟨hcall, -, -, ⟨-, hmove⟩ | ⟨⟨_, hstopped⟩, rfl⟩⟩ := step_cases hsince.balanced h
  · refine ⟨hmove.balanced hsince.balanced, hsince.reached.trans (hmove.epoch_le hguard), ?_⟩
    refine forall_mem_concat hsince.served fun writer epoch hserved => ?_
    have hepoch : epoch = gate.epoch := hmove.presented (hcall ▸ hserved.2)
    exact hepoch ▸ hsince.reached
  · refine { hsince with served := forall_mem_concat hsince.served ?_ }
    simp [Line.Served, hstopped]

/-- What is known of a fenced gate: its recorded writer has fenced it. -/
structure FencedBy (lines : List Line) (gate : AuthorityGate) : Prop where
  balanced : gate.Balanced
  fenced : gate.gateStatus = .fenced → ∃ line ∈ lines, line.Fences gate.writer gate.epoch

theorem fencedBy_step (hfenced : FencedBy lines gate) (h : step gate call = some (line, gate')) :
    FencedBy (lines ++ [line]) gate' := by
  obtain ⟨hcall, -, -, ⟨hdone, hmove⟩ | ⟨-, rfl⟩⟩ := step_cases hfenced.balanced h
  · refine ⟨hmove.balanced hfenced.balanced, fun hstatus => ?_⟩
    obtain ⟨hwriter, hepoch, hbefore | ⟨targetAuthority, hnow⟩⟩ := hmove.fenced_by hstatus
    · obtain ⟨l, hl, hfences⟩ := hfenced.fenced hbefore
      exact ⟨l, List.mem_append_left _ hl, hwriter ▸ hepoch ▸ hfences⟩
    · refine ⟨line, by simp, hdone, targetAuthority, ?_⟩
      rw [hcall, hnow, hwriter, hepoch]
  · refine ⟨hfenced.balanced, fun hstatus => ?_⟩
    obtain ⟨l, hl, hfences⟩ := hfenced.fenced hstatus
    exact ⟨l, List.mem_append_left _ hl, hfences⟩

/-- **Fencing is permanent**: in every run whose adoptions are hand-overs, the recorded epoch
never decreases, and after an adoption the gate serves the writer that had fenced it no more,
neither at the epoch it had nor at an earlier one. -/
theorem fencing_permanent {ledgerId genesisId : Id32} {epoch : Nat} {writer : Id32}
    {limit : Amounts} {before after : List Call} {lines₁ lines₂ : List Line}
    {old gate : AuthorityGate}
    (hbefore : run step (.new ledgerId genesisId epoch writer limit) before = some (lines₁, old))
    (hafter : run step old after = some (lines₂, gate))
    (hguard : Guarded step HandOver (.new ledgerId genesisId epoch writer limit)
      (before ++ after)) :
    old.epoch ≤ gate.epoch ∧
    ∀ newWriter newEpoch rest, after = .acceptAdoption newWriter newEpoch :: rest →
      (old.gateStatus = .fenced ∧ ∃ line ∈ lines₁, line.Fences old.writer old.epoch) ∧
      ∀ line ∈ lines₂, ∀ epoch ≤ old.epoch, ¬ line.Served old.writer epoch := by
  have hnew := (new_account ledgerId genesisId epoch writer limit).balanced
  have hfenced : FencedBy lines₁ old :=
    run_history (fun _ _ _ _ _ => fencedBy_step) hbefore ⟨hnew, by simp [AuthorityGate.new]⟩
  obtain ⟨-, hguard₂⟩ := hguard.append hbefore
  have hsince : Since old.epoch lines₂ gate :=
    run_history_of_guarded (fun _ _ _ _ _ => since_step) hafter hguard₂
      ⟨hfenced.balanced, le_rfl, by simp⟩
  refine ⟨hsince.reached, ?_⟩
  rintro newWriter newEpoch rest rfl
  obtain ⟨hstatus, hlater⟩ : HandOver old (.acceptAdoption newWriter newEpoch) := hguard₂.1
  refine ⟨⟨hstatus, hfenced.fenced hstatus⟩, ?_⟩
  -- From the adoption on, the recorded epoch is later than the one replaced.
  obtain ⟨line, adopted, lines, hadopt, hrest, rfl⟩ := run_cons_eq_some.mp hafter
  obtain ⟨rfl, rfl⟩ := Prod.mk.inj (Option.some.inj hadopt)
  have hlast : Since newEpoch lines gate :=
    run_history_of_guarded (fun _ _ _ _ _ => since_step) hrest (hguard₂.2 _ _ hadopt)
      ⟨Move.adopted.balanced hfenced.balanced, le_rfl, by simp⟩
  intro l hl at_ hle hserved
  rcases List.mem_cons.mp hl with rfl | hl
  · simp [Line.Served, Call.presents] at hserved
  · have := hlast.served l hl old.writer at_ hserved
    omega

/-- Writer 7 fences the gate and writer 8 takes it over. -/
theorem fencing_permanent_handover : ∃ lines₁ old lines₂ gate,
    run step (.new 1 2 1 7 ![100, 100]) [.prepareAdoption 9 7 1] = some (lines₁, old) ∧
      run step old [.acceptAdoption 8 2, .activate 8 2] = some (lines₂, gate) ∧
      ∀ line ∈ lines₂, ∀ epoch ≤ old.epoch, ¬ line.Served old.writer epoch := by
  have hguard : Guarded step HandOver (.new 1 2 1 7 ![100, 100])
      ([.prepareAdoption 9 7 1] ++ [.acceptAdoption 8 2, .activate 8 2]) := by
    decide +kernel
  refine ⟨_, _, _, _, rfl, rfl, ?_⟩
  exact ((fencing_permanent rfl rfl hguard).2 8 2 [.activate 8 2] rfl).2

/-- Writer 7 fences the gate at epoch 1 and is replaced by writer 8 at epoch 2.  An adoption that
names writer 7 and epoch 1 again is accepted. -/
theorem replaced_writer_returns : ∃ lines₁ old lines₂ gate,
    run step (.new 1 2 1 7 ![100, 100]) [.prepareAdoption 9 7 1] = some (lines₁, old) ∧
      run step old [.acceptAdoption 8 2, .activate 8 2, .acceptAdoption 7 1, .activate 7 1,
        .reserve ⟨1, 1, 2, 3, 1, 4, ![10, 20]⟩ 7 1] = some (lines₂, gate) ∧
      ∃ line ∈ lines₂, line.Served old.writer old.epoch := by
  refine ⟨_, _, _, _, rfl, rfl, ?_⟩
  decide +kernel

/-! ## reopening -/

/-- No obligation waits for its creation to be resolved. -/
def AuthorityGate.Resolved (gate : AuthorityGate) : Prop :=
  ∀ i, (gate.obligations i).all fun ob => ob.status ≠ .unknown

instance (gate : AuthorityGate) : Decidable gate.Resolved := by
  unfold AuthorityGate.Resolved
  infer_instance

/-- Every call presents the writer and the epoch. -/
def CallsOf (writer : Id32) (epoch : Nat) (calls : List Call) : Prop :=
  ∀ call ∈ calls, call.presents = some (writer, epoch)

/-- Calls of the recorded writer at the recorded epoch open the gate, or an adoption and calls
of the writer it names. -/
def AuthorityGate.Reopens (gate : AuthorityGate) : Prop :=
  ∃ calls lines gate', run step gate calls = some (lines, gate') ∧ gate'.gateStatus = .open ∧
    (CallsOf gate.writer gate.epoch calls ∨ ∃ writer epoch rest,
      calls = .acceptAdoption writer epoch :: rest ∧ CallsOf writer epoch rest)

/-- The gate is closed, and an obligation that only an open gate resolves keeps it so. -/
structure AuthorityGate.Stuck (gate : AuthorityGate) : Prop where
  closed : gate.gateStatus ≠ .open
  unresolved : ¬gate.Resolved

section

variable {gate : AuthorityGate}

open Goes AuthorityGate

/-- A stuck gate refuses every call but an adoption, which leaves it stuck. -/
theorem AuthorityGate.Stuck.act (h : gate.Stuck) (call : Call) :
    Goes gate gate call.act fun _ t => t.Stuck := by
  cases call with
  | acceptAdoption => exact of_modify ⟨by simp, h.unresolved⟩
  | activate =>
    exact get_bind (ensure_bind fun _ => ensure_bind fun _ => ensure_bind fun hresolved =>
      absurd hresolved h.unresolved)
  | _ => exact checkGate_bind fun hopen => absurd hopen h.closed

theorem stuck_step (hstuck : gate.Stuck) (h : step gate call = some (line, gate')) :
    gate'.Stuck := by
  have hspec := hstuck.act call gate rfl
  unfold step at h
  split at h
  · next hact =>
    rw [hact] at hspec
    cases h
    exact hspec
  · next hact =>
    rw [hact] at hspec
    cases h
    exact hspec.1 ▸ hstuck

/-- No calls open a stuck gate. -/
theorem AuthorityGate.Stuck.not_reopens (h : gate.Stuck) : ¬gate.Reopens := by
  rintro ⟨calls, lines, gate', hrun, hopen, -⟩
  have hstuck : gate'.Stuck := run_invariant (fun _ _ _ _ => stuck_step) hrun h
  exact hstuck.closed hopen

theorem ensure_ok [Decidable c] (h : c) : ensure c error gate = .ok () gate := by
  simp [ensure, attempt, require, h]

/-- Once nothing is unresolved, the adopting writer opens the gate. -/
theorem activate_step (hstatus : gate.gateStatus = .reconciling) (h : gate.Resolved) :
    step gate (.activate gate.writer gate.epoch) =
      some (⟨.activate gate.writer gate.epoch, .done, gate.charged, gate.charged⟩,
        { gate with gateStatus := .open }) := by
  have hact : activate gate.writer gate.epoch gate = .ok () { gate with gateStatus := .open } := by
    refine Eq.trans (run_bind_ok rfl) ?_
    refine Eq.trans (run_bind_ok (ensure_ok hstatus)) ?_
    refine Eq.trans (run_bind_ok (ensure_ok ⟨rfl, rfl⟩)) ?_
    exact run_bind_ok (ensure_ok h)
  simp only [step, Call.act, hact]

/-- **What reopens a gate**: calls can open it again exactly when it is open, or none of its
obligations waits for its creation to be resolved. -/
theorem reopens_iff_resolved : gate.Reopens ↔ gate.gateStatus = .open ∨ gate.Resolved := by
  constructor
  · intro hreopens
    by_contra hno
    obtain ⟨hclosed, hunresolved⟩ := not_or.mp hno
    exact Stuck.not_reopens ⟨hclosed, hunresolved⟩ hreopens
  · rintro (hopen | hresolved)
    · exact ⟨[], [], gate, rfl, hopen, .inl (by simp [CallsOf])⟩
    · have hadopted : Resolved { gate with gateStatus := .reconciling } := hresolved
      have hrun := run_singleton.mpr ⟨_, activate_step rfl hadopted, rfl⟩
      exact ⟨.acceptAdoption gate.writer gate.epoch :: _, _, _,
        run_cons_eq_some.mpr ⟨_, _, _, rfl, hrun, rfl⟩, rfl,
        .inr ⟨_, _, _, rfl, by simp [CallsOf, Call.presents]⟩⟩

end

/-- Writer 7 reserves and fences the gate before the creation is resolved.  Whoever adopts it
finds it closed for good. -/
theorem unresolved_adoption_stuck : ∃ lines gate, run step (.new 1 2 1 7 ![100, 100])
    [.reserve ⟨1, 1, 2, 3, 1, 4, ![10, 20]⟩ 7 1, .prepareAdoption 9 7 1, .acceptAdoption 8 2] =
      some (lines, gate) ∧ ¬gate.Reopens := by
  refine ⟨_, _, rfl, AuthorityGate.Stuck.not_reopens ⟨?_, ?_⟩⟩
  · decide +kernel
  · decide +kernel

end Cellos.Charge
