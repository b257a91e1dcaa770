import Cellos.Task.CpuAccounting

/-!
# Cellos.Task.CpuEntries

What the entry points of the integrator do besides advancing.

An entry point advances the books and then works on harts, events and single rows, and that
changes neither the charges nor the time up to which they are known (`SameBooks`).  The
exceptions are opening the books, binding and burying a group, and closing the books.
`Maintained` lists what an invariant has to survive; every entry point then keeps it.
-/

namespace Cellos.CpuAccounting

open Lib Keeps Triple Function

namespace Accounting

variable {a : Accounting}

/-! ## what most steps leave alone -/

/-- The part of the header that says what was charged, and up to when. -/
structure SameSheet (h h' : Header) : Prop where
  state : h'.state = h.state
  error : h'.error = h.error
  control : h'.controlChargeNs = h.controlChargeNs
  epoch : h'.epochNs = h.epochNs
  last : h'.lastNs = h.lastNs
  mask : h'.admittedHartMask = h.admittedHartMask
  period : h'.periodNs = h.periodNs
  boundary : h'.nextBoundaryNs = h.nextBoundaryNs

theorem SameSheet.refl (h : Header) : SameSheet h h := ⟨rfl, rfl, rfl, rfl, rfl, rfl, rfl, rfl⟩

theorem SameSheet.trans (s : SameSheet h h') (s' : SameSheet h' h'') : SameSheet h h'' :=
  ⟨s'.state.trans s.state, s'.error.trans s.error, s'.control.trans s.control,
    s'.epoch.trans s.epoch, s'.last.trans s.last, s'.mask.trans s.mask, s'.period.trans s.period,
    s'.boundary.trans s.boundary⟩

/-- The two books agree in what was charged, and up to when. -/
structure SameBooks (a a' : Accounting) : Prop where
  header : SameSheet a.header a'.header
  lifetime : ∀ i, (a'.groups i).lifetimeChargeNs = (a.groups i).lifetimeChargeNs
  vacant : ∀ i, (a'.groups i).state = .empty → (a.groups i).state = .empty
  retired : a'.retired = a.retired

instance : Std.Refl SameBooks where
  refl _ := ⟨.refl _, fun _ => rfl, fun _ => id, rfl⟩

instance : IsTrans Accounting SameBooks where
  trans _ _ _ h h' := ⟨h.header.trans h'.header, fun i => (h'.lifetime i).trans (h.lifetime i),
    fun i hi => h.vacant i (h'.vacant i hi), h'.retired.trans h.retired⟩

/-- A change of events, of harts and of the rest of the header. -/
theorem SameBooks.of_groups (hheader : SameSheet a.header a'.header)
    (hgroups : a'.groups = a.groups) (hretired : a'.retired = a.retired) : SameBooks a a' :=
  ⟨hheader, fun i => by rw [hgroups], fun i hi => by rwa [hgroups] at hi, hretired⟩

theorem SameBooks.of_row (hlifetime : g.lifetimeChargeNs = (a.groups i).lifetimeChargeNs)
    (hvacant : g.state = .empty → (a.groups i).state = .empty) :
    SameBooks a { a with groups := update a.groups i g } := by
  refine ⟨.refl _, fun j => ?_, fun j hj => ?_, rfl⟩
  · dsimp only
    by_cases hji : j = i
    · subst hji
      rw [update_self]
      exact hlifetime
    · rw [update_of_ne hji]
  · dsimp only at hj
    by_cases hji : j = i
    · subst hji
      rw [update_self] at hj
      exact hvacant hj
    · rwa [update_of_ne hji] at hj

end Accounting

open Accounting

/-- What an entry point that fails leaves, before the books are sealed. -/
def Failed (_ : Error) (a : Accounting) : Prop := a.header.error ≠ none → a.header.state = .sealed

/-- A program keeps `I`, unless it fails. -/
abbrev Maintains (I : Accounting → Prop) (prog : Act α) : Prop := Triple I prog (fun _ => I) Failed

section

variable {a : Accounting}

open SameBooks

theorem emit_keeps (event : Event) : Keeps SameBooks a (emit event) := by
  refine get_bind (attempt_bind fun _ _ => modify ?_)
  exact of_groups (.refl _) rfl rfl

theorem emitIf_keeps (workload : Bool) (event : Event) :
    Keeps SameBooks a (emitIf workload event) :=
  ite (fun _ => emit_keeps event) fun _ => pure ()

theorem serviceSummary_keeps (hart : Fin maxHarts) (continuation incoming : Bool) :
    Keeps SameBooks a (serviceSummary hart continuation incoming) := by
  refine get_bind (ite (fun _ => pure ()) fun _ => ?_)
  refine attempt_bind fun gap _ => attempt_bind fun _ _ => ?_
  split
  · exact attempt_bind fun count _ => set (of_groups (.refl _) rfl rfl)
  · exact emit_keeps _

theorem served_keeps (hart : Fin maxHarts) : Keeps SameBooks a (served hart) :=
  modify (of_groups (.refl _) rfl rfl)

theorem stageSwitch_keeps (hart : Fin maxHarts) (tuple : Nat × Nat × Nat × Nat)
    (workload : Bool) : Keeps SameBooks a (stageSwitch hart tuple workload) := by
  have hsheet : SameSheet a.header { a.header with
      nextSwitchSerial := a.header.nextSwitchSerial + 1 } := ⟨rfl, rfl, rfl, rfl, rfl, rfl, rfl, rfl⟩
  cases workload <;> exact of_groups hsheet rfl rfl

theorem depart_keeps (h : Hart) : Keeps SameBooks a (depart h) := by
  refine get_bind (ite (fun _ => pure ()) fun _ => ?_)
  refine attempt_bind fun i _ => ite (fun _ => pure ()) fun _ => ?_
  exact set (of_row rfl id)

theorem retireGroup_keeps (owner : CellOwner) (i : Fin maxCells) :
    Keeps SameBooks a (retireGroup owner i) := by
  refine get_bind (ite (fun _ => pure ()) fun _ => ?_)
  refine bind (emit_keeps _) fun _ s _ => modify ?_
  exact of_row rfl nofun

end

variable (a : Accounting)

/-- `emit`, exactly. -/
theorem emit_spec (event : Event) :
    Triple (fun s => s = a) (emit event) (fun _ s => s = a.appendReserved event)
      (fun _ s => s = a) := by
  refine get_bind fun s hs => attempt_bind (fun _ _ => ?_) fun _ _ ht => ht ▸ hs
  exact fun t ht => by rw [ht, hs]; rfl

/-! ## the status of the books -/

/-- Whether the books are open or sealed is the same. -/
def SameStatus (a a' : Accounting) : Prop :=
  a'.header.state = a.header.state ∧ a'.header.error = a.header.error

instance : Std.Refl SameStatus where
  refl _ := ⟨rfl, rfl⟩

instance : IsTrans Accounting SameStatus where
  trans _ _ _ h h' := ⟨h'.1.trans h.1, h'.2.trans h.2⟩

theorem appendAll_frame (events : List Event) : (a.appendAll events).header = a.header ∧
    (a.appendAll events).harts = a.harts ∧ (a.appendAll events).groups = a.groups ∧
    (a.appendAll events).retired = a.retired := by
  induction events generalizing a with
  | nil => exact ⟨rfl, rfl, rfl, rfl⟩
  | cons event _ ih => exact ih (a.appendReserved event)

theorem segment_status (finish : Nat) : Keeps SameStatus a (segment finish) := by
  refine get_bind (attempt_bind fun dt _ => attempt_bind fun acc _ => ?_)
  refine attempt_bind fun total _ => attempt_bind fun _ _ => ?_
  refine attempt_bind fun rows _ => attempt_bind fun _ _ => set ?_
  unfold SameStatus
  rw [(appendAll_frame _ _).1]
  exact ⟨rfl, rfl⟩

theorem settle_status : Keeps SameStatus a settle := by
  refine get_bind (attempt_bind fun period _ => attempt_bind fun boundary _ => ?_)
  exact attempt_bind fun rows _ => attempt_bind fun _ _ => set ⟨rfl, rfl⟩

theorem skipEmptyPeriods_status (now : Nat) : Keeps SameStatus a (skipEmptyPeriods now) := by
  refine get_bind (attempt_bind fun q _ => attempt_bind fun skip _ => ?_)
  refine attempt_bind fun finish _ => attempt_bind fun period _ => ?_
  refine attempt_bind fun boundary _ => attempt_bind fun share _ => ?_
  refine attempt_bind fun control _ => attempt_bind fun rows _ => ?_
  exact attempt_bind fun _ _ => set ⟨rfl, rfl⟩

theorem advance_status (sample : Option CheckedSample) : Keeps SameStatus a (advance sample) := by
  refine get_bind (ite (fun _ => pure ()) fun _ =>
    ite (fun _ => throw _) fun _ => ?_)
  refine attempt_bind fun clock _ => attempt_bind fun now _ => ?_
  refine bind (set ⟨rfl, rfl⟩) fun _ s _ => ?_
  refine get_bind (ite (fun _ => ?_) fun _ => segment_status s now)
  refine bind ?_ fun _ s _ => segment_status s now
  refine bind (get_bind (bind (segment_status s _) fun _ s _ =>
    settle_status s)) fun _ s _ => ?_
  exact get_bind (ite (fun _ => skipEmptyPeriods_status s now) fun _ => pure ())

/-! ## entry points -/

/-- What an invariant of the books has to survive. -/
structure Maintained (I : Accounting → Prop) : Prop where
  same : ∀ a a', I a → SameBooks a a' → I a'
  sealed : ∀ a, I a → a.header.error ≠ none → a.header.state = .sealed
  advance : ∀ sample, Triple I (advance sample) (fun _ => I) Failed
  opened : ∀ a, I a → a.header.state = .off → ∀ bootSession onlineHarts now boundary clock harts,
    onlineHarts ≤ maxHarts → boundary = now + 100000000 →
    I { a with header := openHeader bootSession onlineHarts now boundary clock, harts := harts }
  /-- A group is bound to a row that is not in use. -/
  bound : ∀ a i owner, I a → (a.groups i).state = .empty →
    I { a with groups := Function.update a.groups i (boundRow owner a.header.lastNs) }
  /-- The row of a group moves to the retired ones. -/
  buried : ∀ a i owner, I a → I { a with
    retired := a.retired ++ [a.retiredRow owner (a.groups i)]
    groups := Function.update a.groups i {} }
  exported : ∀ a, I a → a.header.error = none →
    I { a with header := { a.header with state := .exported } }

namespace Maintained

variable {α : Type}

theorem failed (inv : Maintained I) {a : Accounting} (h : I a) (e : Error) :
    ∀ s, s = a → Failed e s := fun _ hs => hs ▸ inv.sealed a h

/-- A program that leaves the charges alone. -/
theorem keeps (inv : Maintained I) (h : ∀ a, Keeps SameBooks a prog) : Maintains I prog :=
  (triple (fun s _ => h s) inv.same).conseq (fun _ => id) (fun _ _ => id) fun _ => inv.sealed

/-- An entry point whose work after `advance` leaves the charges alone. -/
theorem after_advance (inv : Maintained I) {sample : Option CheckedSample}
    (h : ∀ a, Keeps SameBooks a (rest ())) :
    Maintains I (CpuAccounting.advance sample >>= rest) :=
  bind (inv.advance sample) fun _ => inv.keeps h

end Maintained

section

variable (inv : Maintained I)

include inv

variable (owner : CellOwner) (sample : Option CheckedSample)

theorem inheritGroup_maintained : Maintains I (inheritGroup owner sample) := by
  refine attempt_bind (fun slot _ => ?_) fun _ => inv.sealed
  refine get_ite (pure fun _ => id) (inv.after_advance fun a => ?_)
  exact get_bind (attempt_bind fun i _ => attempt _)

theorem service_maintained (hart : Nat) : Maintains I (service hart sample) := by
  refine inv.after_advance fun a => get_bind (ite (fun _ => ?_) fun _ => pure ())
  refine attempt_bind fun hart _ => attempt_bind fun _ _ => ?_
  exact bind (serviceSummary_keeps hart false false) fun _ s _ => served_keeps hart

theorem noSwitch_maintained (hart : Nat) (task : Option Task) :
    Maintains I (noSwitch hart task sample) := by
  refine inv.after_advance fun a => get_bind (ite (fun _ => pure ()) fun _ => ?_)
  refine attempt_bind fun expected _ => attempt_bind fun hart _ => ?_
  refine attempt_bind fun _ _ => ?_
  exact bind (serviceSummary_keeps hart _ false) fun _ s _ => served_keeps hart

open SameBooks

theorem complete_maintained (hart selected : Nat) :
    Maintains I (complete hart selected sample) := by
  refine inv.after_advance fun a => get_bind (ite (fun _ => pure ()) fun _ => ?_)
  refine attempt_bind fun hart _ => attempt_bind fun _ _ => ?_
  refine attempt_bind fun _ _ => attempt_bind fun _ _ => ?_
  refine bind (serviceSummary_keeps hart false _) fun _ s _ => ?_
  refine bind (emitIf_keeps _ _) fun _ s _ => ?_
  refine bind (modify ?_) fun _ s _ => depart_keeps _
  exact of_groups (.refl _) rfl rfl

theorem abortStagedSwitch_maintained (hart serial executing : Nat) :
    Maintains I (abortStagedSwitch hart serial executing sample) := by
  refine inv.after_advance fun a => get_bind (ite (fun _ => pure ()) fun _ => ?_)
  refine attempt_bind fun hart _ => attempt_bind fun _ _ => ?_
  refine bind (emitIf_keeps _ _) fun _ s _ => modify ?_
  exact of_groups (.refl _) rfl rfl

theorem beginRetirement_maintained : Maintains I (beginRetirement owner sample) := by
  refine attempt_bind (fun slot _ => ?_) fun _ => inv.sealed
  refine get_ite (pure fun _ => id) (inv.after_advance fun a => ?_)
  exact get_bind (attempt_bind fun i _ => retireGroup_keeps owner i)

theorem requestPolicy_maintained (revision entitlement burst : Nat) :
    Maintains I (requestPolicy owner revision entitlement burst sample) := by
  refine inv.after_advance fun a => get_bind (attempt_bind fun i _ => ?_)
  refine attempt_bind fun _ _ => attempt_bind fun _ _ => ?_
  refine attempt_bind fun _ _ => attempt_bind fun bound _ => ?_
  refine attempt_bind fun _ _ => attempt_bind fun _ _ => ?_
  refine bind (emit_keeps _) fun _ s _ => ?_
  refine bind (modify (of_row rfl id)) fun _ s _ => ?_
  exact attempt_bind fun apply _ => modify (of_row rfl id)

theorem enable_maintained (bootSession : Nat) (setting : BootSetting) :
    Triple (fun a => I a ∧ a.header.state = .off) (enable bootSession setting) (fun _ => I)
      Failed := by
  refine get_bind fun a ⟨h, hoff⟩ => ?_
  refine attempt_bind (fun _ _ => ?_) (inv.failed h)
  refine attempt_bind (fun clock _ => ?_) (inv.failed h)
  refine attempt_bind (fun now _ => ?_) (inv.failed h)
  refine attempt_bind (fun _ hharts => ?_) (inv.failed h)
  refine attempt_bind (fun _ _ => ?_) (inv.failed h)
  have hsum : ∀ boundary, add now 100000000 = .ok boundary → boundary = now + 100000000 := by
    intro boundary h
    unfold add at h
    grind
  generalize add now 100000000 = first at hsum ⊢
  refine attempt_bind (fun boundary hboundary => ?_) (inv.failed h)
  have hbound : setting.onlineHarts ≤ maxHarts := by
    unfold require at hharts
    grind
  refine bind (set fun s _ => ?_) fun _ => inv.keeps fun s => ?_
  · exact inv.opened a h hoff _ _ _ _ _ _ hbound (hsum boundary hboundary)
  · exact bind (emit_keeps _) fun _ s _ => emit_keeps _

theorem bindGroup_maintained (setting : BootSetting) :
    Maintains I (bindGroup owner setting sample) := by
  refine attempt_bind (fun i _ => ?_) fun _ => inv.sealed
  refine bind (R := fun _ => I) ?_ fun _ => ?_
  · refine get_bind fun a h => ite (fun hoff => ?_) fun _ =>
      pure fun s hs => hs ▸ h
    exact (enable_maintained inv owner.rootTid setting).conseq (fun s hs => hs ▸ ⟨h, hoff⟩)
      (fun _ _ => id) fun _ _ => id
  refine bind (inv.advance sample) fun _ => get_bind fun a h => ?_
  refine attempt_bind (fun _ _ => ?_) (inv.failed h)
  refine attempt_bind (fun _ hfree => ?_) (inv.failed h)
  have hempty : (a.groups i).state = .empty := by
    unfold require at hfree
    grind
  refine bind ((emit_spec a _).conseq (fun _ => id) (fun _ _ => id) (inv.failed h)) fun _ => ?_
  refine modify fun s hs => ?_
  have hsame : SameBooks a s := hs ▸ of_groups (.refl _) rfl rfl
  exact inv.bound s i owner (inv.same a s h hsame) (hs ▸ hempty)

theorem finishRetirement_maintained : Maintains I (finishRetirement owner sample) := by
  refine attempt_bind (fun slot _ => ?_) fun _ => inv.sealed
  refine get_ite (pure fun _ => id) (bind (inv.advance sample) fun _ => get_bind fun a h => ?_)
  refine attempt_bind (fun i _ => ?_) (inv.failed h)
  refine get_bind fun a' ha' => ?_
  subst ha'
  refine ite (fun _ => pure fun s hs => hs ▸ h) fun _ => ?_
  refine attempt_bind (fun _ _ => ?_) (inv.failed h)
  refine attempt_bind (fun _ _ => ?_) (inv.failed h)
  refine attempt_bind (fun _ _ => ?_) (inv.failed h)
  refine bind (set fun s _ => ?_) fun _ => pure fun s hs => hs
  exact inv.same _ _ (inv.buried a' i owner h) (of_groups (.refl _) rfl rfl)

theorem safePoint_maintained : Maintains I (safePoint sample) := by
  refine get_bind fun a h => ite (fun _ => pure fun s hs => hs ▸ h) fun hon => ?_
  have hrunning : a.header.state = .running := not_not.mp fun hoff => hon (.inl hoff)
  have hunsealed : a.header.error = none := by
    by_contra hsealed
    rw [inv.sealed a h hsealed] at hrunning
    contradiction
  have hadvance : Triple (fun s => s = a) (advance sample)
      (fun _ s => I s ∧ s.header.error = none) Failed := by
    intro s hs
    subst hs
    have hI := inv.advance sample s h
    have hstatus := advance_status s sample
    unfold Keeps at hstatus
    cases hrun : advance sample s with
    | ok =>
      rw [hrun] at hI hstatus
      exact ⟨hI, hstatus.2.trans hunsealed⟩
    | error =>
      rw [hrun] at hI
      exact hI
  refine bind hadvance fun _ => get_bind fun a ⟨h, hunsealed⟩ => ?_
  refine bind ((emit_spec a _).conseq (fun _ => id) (fun _ _ => id) (inv.failed h)) fun _ => ?_
  refine modify fun s hs => ?_
  have hsame : SameBooks a s := hs ▸ of_groups (.refl _) rfl rfl
  exact inv.exported s (inv.same a s h hsame) (hsame.header.error.trans hunsealed)

/-- **Entry points**: each of them keeps a maintained invariant, until it fails. -/
theorem perform_maintained (op : Op) (hentry : op.isEntry = true) : Maintains I op.perform := by
  have hdone {prog : Act Unit} (h : Maintains I prog) :
      Maintains I (prog >>= fun _ => pure true) :=
    bind h fun _ => pure fun _ => id
  cases op with
  | segment | settle => contradiction
  | bindGroup owner setting sample => exact hdone (bindGroup_maintained inv owner sample setting)
  | inheritGroup owner sample => exact hdone (inheritGroup_maintained inv owner sample)
  | observe _ outcome => exact hdone (inv.after_advance fun a => attempt outcome)
  | service hart sample => exact hdone (service_maintained inv sample hart)
  | noSwitch hart task sample => exact hdone (noSwitch_maintained inv sample hart task)
  | stage hart incoming executing sample =>
    refine inv.after_advance fun a => get_bind (ite (fun _ => pure true) fun _ => ?_)
    refine attempt_bind fun tuple _ => attempt_bind fun inv _ => ?_
    refine attempt_bind fun _ _ => attempt_bind fun refused _ => ?_
    refine ite (fun _ => pure false) fun _ => ?_
    refine attempt_bind fun _ _ => attempt_bind fun _ _ => ?_
    refine attempt_bind fun _ _ => attempt_bind fun _ _ => ?_
    refine bind (serviceSummary_keeps inv false _) fun _ s _ => ?_
    exact bind (stageSwitch_keeps inv tuple _) fun _ s _ => pure true
  | complete hart selected sample => exact hdone (complete_maintained inv sample hart selected)
  | abortStagedSwitch hart serial executing sample =>
    exact hdone (abortStagedSwitch_maintained inv sample hart serial executing)
  | beginRetirement owner sample => exact hdone (beginRetirement_maintained inv owner sample)
  | finishRetirement owner sample => exact finishRetirement_maintained inv owner sample
  | requestPolicy owner revision entitlement burst sample =>
    exact hdone (requestPolicy_maintained inv owner sample revision entitlement burst)
  | safePoint sample => exact hdone (safePoint_maintained inv sample)
  | confirmClock =>
    refine hdone (inv.keeps fun s => get_bind (attempt_bind fun clock _ => ?_))
    exact attempt_bind fun _ _ => attempt _

end

/-- The books of a failed operation are sealed. -/
theorem sealBooks_sealed {a : Accounting} (h : Failed e a) :
    (a.sealBooks e).header.error ≠ none ∧ (a.sealBooks e).header.state = .sealed := by
  unfold Accounting.sealBooks
  split
  · next hsealed => exact ⟨hsealed, h hsealed⟩
  dsimp only
  split
  · exact ⟨nofun, rfl⟩
  · exact ⟨nofun, rfl⟩

/-- A step is a performed operation, or one that failed and left the books sealed. -/
theorem step_cases {a : Accounting} (h : step a op = some (response, a'))
    (hperform : Triple I op.perform (fun _ => Q) Failed) (hI : I a) :
    Q a' ∨ (a'.header.error ≠ none ∧ a'.header.state = .sealed) := by
  have hend := hperform a hI
  unfold step at h
  split at h
  · next hrun =>
    simp only [Option.some.injEq, Prod.mk.injEq] at h
    rw [hrun] at hend
    exact .inl (h.2 ▸ hend)
  · next hrun =>
    simp only [Option.some.injEq, Prod.mk.injEq] at h
    rw [hrun] at hend
    exact .inr (h.2 ▸ sealBooks_sealed hend)

/-! ## sealed books -/

section

variable {a : Accounting} (hsealed : a.header.state = .sealed)

include hsealed

/-- Nothing that follows an `advance` of sealed books is reached. -/
theorem advance_sealed (sample : Option CheckedSample) (rest : Unit → Act α) :
    Keeps Eq a (advance sample >>= rest) := by
  unfold advance
  rw [bind_assoc]
  refine get_bind ?_
  rw [if_neg (by simp [hsealed]), if_pos (by simp [hsealed])]
  exact rfl

/-- **Every operation** leaves sealed books as they are. -/
theorem perform_sealed (op : Op) : Keeps Eq a op.perform := by
  have hdone {prog : Act Unit} (h : Keeps Eq a prog) :
      Keeps Eq a (prog >>= fun _ => Pure.pure true) := bind h fun _ _ _ => pure true
  cases op with
  | segment | settle =>
    refine get_bind (attempt_bind fun _ h => ?_)
    simp [require, hsealed] at h
  | bindGroup =>
    refine hdone (attempt_bind fun i _ => bind (get_bind (ite (fun hoff => ?_) fun _ => pure ()))
      fun _ _ hs => hs ▸ advance_sealed hsealed _ _)
    rw [hsealed] at hoff
    contradiction
  | observe | service | noSwitch | complete | abortStagedSwitch | requestPolicy =>
    exact hdone (advance_sealed hsealed _ _)
  | stage => exact advance_sealed hsealed _ _
  | inheritGroup | beginRetirement =>
    refine hdone (attempt_bind fun _ _ => get_bind (ite (fun _ => pure ()) fun _ => ?_))
    exact advance_sealed hsealed _ _
  | finishRetirement =>
    refine attempt_bind fun _ _ => get_bind (ite (fun _ => pure _) fun _ => ?_)
    exact advance_sealed hsealed _ _
  | safePoint => exact hdone (get_bind (ite (fun _ => pure ()) fun _ => advance_sealed hsealed _ _))
  | confirmClock =>
    exact hdone (get_bind (attempt_bind fun _ _ => attempt_bind fun _ _ => attempt _))

end

theorem step_sealed {a : Accounting} (hsealed : a.header.state = .sealed)
    (herror : a.header.error ≠ none) (op : Op) : ∃ response, step a op = some (response, a) := by
  have hkept := perform_sealed hsealed op
  unfold Keeps at hkept
  unfold step
  cases hperform : op.perform a with
  | ok response b =>
    rw [hperform] at hkept
    obtain rfl : a = b := hkept
    exact ⟨.ok response, rfl⟩
  | error e b =>
    rw [hperform] at hkept
    obtain rfl : a = b := hkept
    have hsame : a.sealBooks e = a := if_pos herror
    exact ⟨.error e, by simp only [hsame]⟩

end Cellos.CpuAccounting
