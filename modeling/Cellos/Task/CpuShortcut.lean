import Cellos.Task.CpuConservation

/-!
# Cellos.Task.CpuShortcut

The empty-period shortcut of `advance`.

A group that is not charged in a period keeps what it was entitled to: first its debt is
paid, then its bank grows up to the cap.  After `k` such periods both are given by
`debtAfter` and `bankAfter`, so settling the periods one after another and
`empty_period_row` end with the same row, and they overflow together, because the bank only
grows.

The shortcut is taken when two boundaries have passed since the last service, and then no
hart is occupied: the gap is longer than a period, which `advance` does not allow for an
occupied hart.
-/

namespace Cellos.CpuAccounting

open Lib Accounting Triple

namespace Group

variable (g : Group)

/-- The words of a row fit in 64 bits. -/
def Fits : Prop :=
  g.entitlementNs < 2 ^ 64 ∧ g.burstCapNs < 2 ^ 64 ∧ g.burstBankNs < 2 ^ 64 ∧ g.debtNs < 2 ^ 64

/-- The bank after `k` periods without a charge. -/
def bankAfter (k : Nat) : Nat := min (g.burstBankNs + k * g.entitlementNs - g.debtNs) g.burstCapNs

/-- The debt after `k` periods without a charge. -/
def debtAfter (k : Nat) : Nat := g.debtNs - (g.burstBankNs + k * g.entitlementNs)

/-- The row after `k` periods without a charge, but for its state. -/
def after (k : Nat) : Group :=
  { g with burstBankNs := g.bankAfter k, debtNs := g.debtAfter k }

/-- What the shortcut is about. -/
def standing : Nat × Nat × GroupState × Nat :=
  (g.burstBankNs, g.debtNs, g.state, g.lastPeriodAllowanceNs)

variable {g : Group}

theorem bankAfter_mono (h : k ≤ l) : g.bankAfter k ≤ g.bankAfter l := by
  have hmul := Nat.mul_le_mul_right g.entitlementNs h
  unfold bankAfter
  omega

theorem bankAfter_after (k : Nat) : (g.after 1).bankAfter k = g.bankAfter (k + 1) := by
  show min (min (g.burstBankNs + 1 * g.entitlementNs - g.debtNs) g.burstCapNs +
    k * g.entitlementNs - (g.debtNs - (g.burstBankNs + 1 * g.entitlementNs))) g.burstCapNs =
      min (g.burstBankNs + (k + 1) * g.entitlementNs - g.debtNs) g.burstCapNs
  rw [Nat.add_mul]
  omega

theorem debtAfter_after (k : Nat) : (g.after 1).debtAfter k = g.debtAfter (k + 1) := by
  show g.debtNs - (g.burstBankNs + 1 * g.entitlementNs) -
    (min (g.burstBankNs + 1 * g.entitlementNs - g.debtNs) g.burstCapNs + k * g.entitlementNs) =
      g.debtNs - (g.burstBankNs + (k + 1) * g.entitlementNs)
  rw [Nat.add_mul]
  omega

end Group

/-! ## one row -/

/-- The books one period later. -/
def Accounting.nextPeriod (a : Accounting) : Accounting :=
  { a with header := { a.header with
    periodIndex := a.header.periodIndex + 1
    nextBoundaryNs := a.header.nextBoundaryNs + a.header.periodNs } }

/-- The row after `q` periods without a charge, settled one after another. -/
def settlePeriods : Nat → Accounting → Group → Except Error Group
  | 0, _, g => .ok g
  | q + 1, a, g => do
    let row ← a.settledRow { g with periodChargeNs := 0 }
    settlePeriods q a.nextPeriod row.1

/-- The standing of a row after `q` periods without a charge, in closed form. -/
def standingAfter (q : Nat) (g : Group) : Except Error (Nat × Nat × GroupState × Nat) := do
  let lastCredit ← add g.entitlementNs (g.bankAfter (q - 1))
  let state ← replenished (g.after q)
  return (g.bankAfter q, g.debtAfter q, state, lastCredit - g.debtAfter (q - 1))

theorem narrow_eq_ok (h : v < 2 ^ 64) : narrow v = .ok v := if_pos h

variable {g : Group}

/-- `empty_period_row` is the closed form. -/
theorem emptyPeriodRow_standing (hfits : g.Fits) (q finish : Nat) :
    (emptyPeriodRow q finish g).map (·.1.standing) = standingAfter q g := by
  obtain ⟨-, hcap, -, hdebt⟩ := hfits
  have hlastBank : narrow (min (g.burstBankNs + (q - 1) * g.entitlementNs - g.debtNs)
      g.burstCapNs) = .ok (g.bankAfter (q - 1)) := narrow_eq_ok (by omega)
  have hlastDebt : narrow (g.debtNs - (g.burstBankNs + (q - 1) * g.entitlementNs)) =
      .ok (g.debtAfter (q - 1)) := narrow_eq_ok (by omega)
  have hbank : narrow (min (g.burstBankNs + q * g.entitlementNs - g.debtNs) g.burstCapNs) =
      .ok (g.bankAfter q) := narrow_eq_ok (by omega)
  have hdebt : narrow (g.debtNs - (g.burstBankNs + q * g.entitlementNs)) =
      .ok (g.debtAfter q) := narrow_eq_ok (by omega)
  unfold emptyPeriodRow standingAfter
  simp only [hlastBank, hlastDebt, hbank, hdebt, except_ok_bind]
  cases add g.entitlementNs (g.bankAfter (q - 1)) with
  | error => rfl
  | ok =>
    change Except.map _ (replenished (g.after q) >>= fun state => _) =
      (replenished (g.after q) >>= fun state => _)
    cases replenished (g.after q) <;> rfl

variable {a : Accounting} {e : Error} {now : Nat}

open CpuAccounting.Group

theorem settledRow_uncharged (hpending : g.pendingRevision = 0)
    (hfits : g.Fits) (hfull : a.entitlement g = .ok g.entitlementNs) :
    a.settledRow { g with periodChargeNs := 0 } = (do
      let credit ← add g.entitlementNs g.burstBankNs
      let state ← replenished (g.after 1)
      return ({ g.after 1 with
        state
        lastPeriodChargeNs := 0
        lastPeriodAllowanceNs := credit - g.debtNs
        periodChargeNs := 0 },
        { nowNs := a.header.nextBoundaryNs, kind := 6, cellId := g.cellId,
          generation := g.generation, value0 := 0, value1 := credit - g.debtNs })) := by
  have hdebit : add g.debtNs 0 = .ok g.debtNs := if_pos hfits.2.2.2
  have hentitlement : a.entitlement { g with periodChargeNs := 0 } = .ok g.entitlementNs := hfull
  unfold settledRow
  simp only [hentitlement, hdebit, except_ok_bind, ne_eq, not_true_eq_false, if_false]
  cases hcredit : add g.entitlementNs g.burstBankNs with
  | error => rfl
  | ok credit =>
    have hsum := add_eq_ok hcredit
    have hbank : min (credit - g.debtNs) g.burstCapNs = g.bankAfter 1 := by
      unfold bankAfter
      omega
    have hdebt : g.debtNs - credit = g.debtAfter 1 := by
      unfold debtAfter
      omega
    rw [except_ok_bind, except_ok_bind]
    dsimp only [applyPolicy]
    rw [if_pos hpending]
    simp only [except_ok_bind, hbank, hdebt]
    rfl

/-- The entitlement of a row that has it in full stays so. -/
theorem entitlement_nextPeriod
    (hfull : a.entitlement g = .ok g.entitlementNs) (hsame : g'.entitlementNs = g.entitlementNs)
    (hbirth : g'.birthNs = g.birthNs) : a.nextPeriod.entitlement g' = .ok g'.entitlementNs := by
  unfold entitlement at hfull ⊢
  dsimp only at hfull ⊢
  rw [hsame, hbirth]
  split at hfull
  · next hborn =>
    -- a share of the period is the whole entitlement only when that is nothing
    have hshare : g.entitlementNs * (a.header.nextBoundaryNs - g.birthNs) / a.header.periodNs =
        g.entitlementNs := by
      unfold narrow at hfull
      grind
    have hzero : g.entitlementNs = 0 := by
      by_contra hne
      have hlt : g.entitlementNs * (a.header.nextBoundaryNs - g.birthNs) <
          a.header.periodNs * g.entitlementNs := by
        rw [Nat.mul_comm]
        refine Nat.mul_lt_mul_of_pos_right ?_ (Nat.pos_of_ne_zero hne)
        rcases Nat.eq_zero_or_pos a.header.periodNs with hperiod | hperiod
        · rw [hperiod, Nat.div_zero] at hshare
          exact absurd hshare.symm hne
        · omega
      have := Nat.div_lt_of_lt_mul hlt
      omega
    rw [hzero]
    simp [narrow]
  · next hborn =>
    have hstart : ¬ a.nextPeriod.header.nextBoundaryNs - a.nextPeriod.header.periodNs <
        g.birthNs := by
      show ¬ a.header.nextBoundaryNs + a.header.periodNs - a.header.periodNs < g.birthNs
      omega
    rw [if_neg hstart]

theorem standingAfter_succ (hq : 0 < q)
    (hentitlement : g'.entitlementNs = g.entitlementNs) (hcap : g'.burstCapNs = g.burstCapNs)
    (hbank : g'.burstBankNs = g.bankAfter 1) (hdebt : g'.debtNs = g.debtAfter 1)
    (hstate : replenished (g.after 1) = .ok g'.state) :
    standingAfter q g' = standingAfter (q + 1) g := by
  have hbanks : ∀ k, g'.bankAfter k = g.bankAfter (k + 1) := by
    intro k
    rw [← bankAfter_after]
    unfold bankAfter
    rw [hbank, hdebt, hentitlement, hcap]
    rfl
  have hdebts : ∀ k, g'.debtAfter k = g.debtAfter (k + 1) := by
    intro k
    rw [← debtAfter_after]
    unfold debtAfter
    rw [hbank, hdebt, hentitlement]
    rfl
  have hlast : q - 1 + 1 = q := Nat.succ_pred_eq_of_pos hq
  have hstates : replenished (g'.after q) = replenished (g.after (q + 1)) := by
    have hnew : (g'.after q).burstBankNs = (g.after (q + 1)).burstBankNs := hbanks q
    have hleft : (g'.after q).debtNs = (g.after (q + 1)).debtNs := hdebts q
    have hrate : (g'.after q).entitlementNs = (g.after (q + 1)).entitlementNs := hentitlement
    unfold replenished at hstate ⊢
    rw [hnew, hleft, hrate]
    change (if g'.state = .throttled ∨ g'.state = .live then _ else Except.ok g'.state) =
      if g.state = .throttled ∨ g.state = .live then _ else Except.ok g.state
    change (if g.state = .throttled ∨ g.state = .live then _ else Except.ok g.state) = _ at hstate
    split at hstate
    · next hrunning =>
      simp only [bind_eq_ok] at hstate
      obtain ⟨_, -, heq⟩ := hstate
      have hkind : g'.state = .throttled ∨ g'.state = .live := by
        rw [← Except.ok.inj heq]
        split
        · exact .inr rfl
        · exact .inl rfl
      rw [if_pos hkind, if_pos hrunning]
    · next hother =>
      have hsame : g.state = g'.state := Except.ok.inj hstate
      rw [← hsame, if_neg hother]
  unfold standingAfter
  rw [hbanks, hbanks, hdebts, hdebts, hlast, hentitlement, hstates, Nat.add_sub_cancel]

theorem add_error_mono (h : add x y = .error e) (hle : y ≤ z) : add x z = .error e := by
  unfold add at h ⊢
  split at h
  · contradiction
  · rw [if_neg (by omega)]
    exact h

theorem replenished_error (h : replenished g = .error e) :
    add g.entitlementNs g.burstBankNs = .error e := by
  unfold replenished at h
  split at h
  · cases hcredit : add g.entitlementNs g.burstBankNs with
    | error =>
      rw [hcredit, except_error_bind] at h
      rw [Except.error.inj h]
    | ok =>
      rw [hcredit] at h
      contradiction
  · contradiction

/-- **The shortcut**: settling the periods one after another gives the closed form. -/
theorem settlePeriods_standing (hq : 0 < q) (hfits : g.Fits) (hcap : g.burstBankNs ≤ g.burstCapNs)
    (hone : g.burstBankNs = 0 ∨ g.debtNs = 0) (hpending : g.pendingRevision = 0)
    (hfull : a.entitlement g = .ok g.entitlementNs) :
    (settlePeriods q a g).map (·.standing) = standingAfter q g := by
  induction q generalizing a g with
  | zero => contradiction
  | succ q ih =>
    have hbank : g.bankAfter 0 = g.burstBankNs := by
      unfold bankAfter
      omega
    have hdebt : g.debtAfter 0 = g.debtNs := by
      unfold debtAfter
      omega
    unfold settlePeriods
    rw [settledRow_uncharged hpending hfits hfull]
    cases hcredit : add g.entitlementNs g.burstBankNs with
    | error e =>
      have hlater : add g.entitlementNs (g.bankAfter q) = .error e :=
        add_error_mono hcredit (hbank ▸ bankAfter_mono (Nat.zero_le q))
      simp only [standingAfter, Nat.add_sub_cancel, hlater, except_error_bind]
      rfl
    | ok credit =>
      cases hstate : replenished (g.after 1) with
      | error e =>
        rcases Nat.eq_zero_or_pos q with rfl | hpos
        · simp only [standingAfter, Nat.zero_add, Nat.sub_self, hbank, hcredit, hstate,
            except_ok_bind, except_error_bind]
          rfl
        have hover : add (g.after 1).entitlementNs (g.after 1).burstBankNs = .error e :=
          replenished_error hstate
        have hlater : add g.entitlementNs (g.bankAfter q) = .error e :=
          add_error_mono hover (bankAfter_mono hpos)
        simp only [standingAfter, Nat.add_sub_cancel, hlater, except_error_bind, except_ok_bind]
        rfl
      | ok state =>
        rcases Nat.eq_zero_or_pos q with rfl | hpos
        · simp only [standingAfter, Nat.zero_add, Nat.sub_self, hbank, hdebt, hcredit, hstate,
            except_ok_bind]
          rfl
        let row : Group := { g.after 1 with
          state
          lastPeriodChargeNs := 0
          lastPeriodAllowanceNs := credit - g.debtNs
          periodChargeNs := 0 }
        have hnext : row.Fits := by
          obtain ⟨hentitlement, hcap', -, hdebt'⟩ := hfits
          refine ⟨hentitlement, hcap', ?_, ?_⟩
          · exact (Nat.min_le_right _ _).trans_lt hcap'
          · exact (Nat.sub_le _ _).trans_lt hdebt'
        have hone' : g.bankAfter 1 = 0 ∨ g.debtAfter 1 = 0 := by
          unfold bankAfter debtAfter
          omega
        refine (ih hpos hnext (Nat.min_le_right _ _) hone' hpending
          (entitlement_nextPeriod hfull rfl rfl)).trans ?_
        exact standingAfter_succ hpos rfl rfl rfl rfl hstate

/-! ## where the shortcut is taken -/

theorem segment_header (a : Accounting) (finish : Nat) : Triple (fun s => s = a) (segment finish)
      (fun _ s => ∃ total, s.header = { a.header with controlChargeNs := total, lastNs := finish } ∧
        s.harts = a.harts) (fun _ s => s = a) := by
  refine get_bind fun s hs => ?_
  subst hs
  have hfail : ∀ (e : Error) t, t = s → t = s := fun _ _ => id
  refine attempt_bind (fun dt _ => ?_) hfail
  refine attempt_bind (fun acc _ => ?_) hfail
  refine attempt_bind (fun total _ => ?_) hfail
  refine attempt_bind (fun _ _ => ?_) hfail
  refine attempt_bind (fun rows _ => ?_) hfail
  refine attempt_bind (fun _ _ => set fun t _ => ?_) hfail
  exact ⟨total, (appendAll_frame _ _).1, (appendAll_frame _ _).2.1⟩

theorem settle_header (a : Accounting) : Triple (fun s => s = a) settle
      (fun _ s => ∃ period, s.header = { a.header with
          periodIndex := period
          nextBoundaryNs := a.header.nextBoundaryNs + a.header.periodNs } ∧ s.harts = a.harts)
      (fun _ s => s = a) := by
  refine get_bind fun s hs => ?_
  subst hs
  have hfail : ∀ (e : Error) t, t = s → t = s := fun _ _ => id
  refine attempt_bind (fun period _ => ?_) hfail
  refine attempt_bind (fun boundary hboundary => ?_) hfail
  refine attempt_bind (fun rows _ => ?_) hfail
  refine attempt_bind (fun _ _ => set fun t _ => ?_) hfail
  rw [← add_eq_ok hboundary]
  exact ⟨period, rfl, (appendAll_frame _ _).2.1⟩

/-- The books stand before the next boundary. -/
def Early (a : Accounting) : Prop :=
  a.header.lastNs < a.header.nextBoundaryNs ∧ 0 < a.header.periodNs

/-- The books stand at the beginning of a period. -/
def closed (a : Accounting) (boundary : Nat) (s : Accounting) : Prop :=
  s.header.lastNs = boundary ∧ s.header.nextBoundaryNs = boundary + a.header.periodNs ∧
    s.header.periodNs = a.header.periodNs ∧ s.harts = a.harts

/-- What `advance` does up to the next boundary. -/
theorem closePeriod_closed (a : Accounting) :
    Triple (fun s => s = a) closePeriod (fun _ => closed a a.header.nextBoundaryNs)
      (fun _ _ => True) := by
  refine get_bind fun s hs => ?_
  subst hs
  refine bind ((segment_header s _).conseq (fun _ => id) (fun _ _ => id) fun _ _ _ => trivial)
    fun _ t ht => ?_
  obtain ⟨_, hheader, hharts⟩ := ht
  refine (settle_header t).conseq (fun _ => id) (fun _ u hu => ?_) (fun _ _ _ => trivial) t rfl
  obtain ⟨_, hheader', hharts'⟩ := hu
  rw [hheader] at hheader'
  unfold closed
  rw [hheader']
  exact ⟨rfl, rfl, rfl, hharts'.trans hharts⟩

/-- The skipped periods end after the time that `advance` goes to. -/
theorem skipEmptyPeriods_early (now : Nat) :
    Triple (fun a => 0 < a.header.periodNs ∧ a.header.nextBoundaryNs ≤ now) (skipEmptyPeriods now)
      (fun _ a => now < a.header.nextBoundaryNs ∧ 0 < a.header.periodNs) (fun _ _ => True) := by
  refine get_bind fun a ⟨hpos, hle⟩ => ?_
  have hfail : ∀ (e : Error) t, t = a → True := fun _ _ _ => trivial
  refine attempt_bind (fun q hq => ?_) hfail
  refine attempt_bind (fun skip hskip => ?_) hfail
  refine attempt_bind (fun finish _ => ?_) hfail
  refine attempt_bind (fun period _ => ?_) hfail
  refine attempt_bind (fun boundary hboundary => ?_) hfail
  refine attempt_bind (fun share _ => ?_) hfail
  refine attempt_bind (fun control _ => ?_) hfail
  refine attempt_bind (fun rows _ => ?_) hfail
  refine attempt_bind (fun _ _ => set fun t _ => ⟨?_, hpos⟩) hfail
  show now < boundary
  have hdiv := Nat.lt_mul_div_succ (now - a.header.nextBoundaryNs) hpos
  rw [add_eq_ok hboundary, mul_eq_ok hskip, add_eq_ok hq, Nat.mul_comm]
  omega

/-- The time that `advance` goes to is before the boundary it finds last. -/
theorem segment_early (now : Nat) :
    Triple (fun a => now < a.header.nextBoundaryNs ∧ 0 < a.header.periodNs) (segment now)
      (fun _ => Early) (fun _ _ => True) := by
  intro a ⟨hlt, hpos⟩
  refine (segment_header a now).conseq (fun _ => id) (fun _ s hs => ?_) (fun _ _ _ => trivial) a rfl
  obtain ⟨_, hheader, -⟩ := hs
  unfold Early
  rw [hheader]
  exact ⟨hlt, hpos⟩

theorem advanceTo_early (now : Nat) :
    Triple (fun a => 0 < a.header.periodNs) (advanceTo now) (fun _ => Early) (fun _ _ => True) := by
  refine get_bind fun a hpos => ite (fun _ => ?_) fun hbefore => ?_
  · refine bind ?_ fun _ => segment_early now
    refine bind (closePeriod_closed a) fun _ => get_bind fun s hs => ?_
    obtain ⟨-, -, hperiod, -⟩ := hs
    refine ite (fun hle => ?_) fun hlt => pure fun t ht => ?_
    · exact (skipEmptyPeriods_early now).conseq (fun t ht => ht ▸ ⟨hperiod ▸ hpos, hle⟩)
        (fun _ _ => id) fun _ _ => id
    · exact ht ▸ ⟨Nat.lt_of_not_le hlt, hperiod ▸ hpos⟩
  · exact (segment_early now).conseq (fun t ht => ht ▸ ⟨Nat.lt_of_not_le hbefore, hpos⟩)
      (fun _ _ => id) fun _ _ => id

/-- Open books stand before the next boundary. -/
structure Timely (a : Accounting) : Prop where
  sealed : a.header.error ≠ none → a.header.state = .sealed
  early : a.header.state = .running → Early a

theorem advance_timely (sample : Option CheckedSample) : Maintains Timely (advance sample) := by
  intro a h
  have hstatus := advance_status a sample
  have hearly : Triple (fun s => s = a) (advance sample)
      (fun _ s => a.header.state = .running → Early s) (fun _ _ => True) := by
    refine get_bind fun s hs => ?_
    subst hs
    refine ite (fun _ => pure fun t ht => ht ▸ h.early) fun _ =>
      ite (fun _ => throw fun _ _ => trivial) fun hon => ?_
    have hpos := (h.early (not_not.mp hon)).2
    refine attempt_bind (fun clock _ => ?_) fun _ _ _ => trivial
    refine attempt_bind (fun now _ => ?_) fun _ _ _ => trivial
    refine bind (R := fun _ s => 0 < s.header.periodNs) (set fun t _ => hpos) fun _ => ?_
    exact (advanceTo_early now).conseq (fun _ => id) (fun _ _ h _ => h) fun _ _ => id
  have hend := hearly a rfl
  unfold Keeps at hstatus
  cases hrun : advance sample a with
  | ok =>
    rw [hrun] at hstatus hend
    refine ⟨fun hsealed => ?_, fun hon => hend (hstatus.1 ▸ hon)⟩
    rw [hstatus.1]
    exact h.sealed (hstatus.2 ▸ hsealed)
  | error =>
    rw [hrun] at hstatus
    intro hsealed
    rw [hstatus.1]
    exact h.sealed (hstatus.2 ▸ hsealed)

theorem timely_maintained : Maintained Timely where
  same a a' h hsame := by
    obtain ⟨hstate, herror, -, -, hlast, -, hperiod, hboundary⟩ := hsame.header
    refine ⟨fun hsealed => ?_, fun hon => ?_⟩
    · rw [hstate]
      exact h.sealed (herror ▸ hsealed)
    · unfold Early
      rw [hlast, hperiod, hboundary]
      exact h.early (hstate ▸ hon)
  sealed a h := h.sealed
  advance := advance_timely
  opened a _ _ bootSession onlineHarts now boundary clock harts _ hboundary := by
    refine ⟨nofun, fun _ => ⟨?_, ?_⟩⟩
    · show now < boundary
      omega
    · show 0 < 100000000
      decide
  bound a i owner h _ := ⟨h.sealed, h.early⟩
  buried a i owner h := ⟨h.sealed, h.early⟩
  exported a h hunsealed := ⟨fun hsealed => absurd hunsealed hsealed, nofun⟩

theorem timely_step
    (hentry : op.isEntry = true) (h : Timely a) (hstep : step a op = some (response, a')) :
    Timely a' := by
  rcases step_cases hstep (perform_maintained timely_maintained op hentry) h with
    hend | ⟨herror, hstate⟩
  · exact hend
  · refine ⟨fun _ => hstate, fun hon => ?_⟩
    rw [hstate] at hon
    contradiction

/-- `advance` goes to `now` and takes the shortcut, with the books `s`. -/
structure TakesShortcut (a : Accounting) (clock : CheckedSample) (now : Nat) (s : Accounting) :
    Prop where
  running : a.header.state = .running
  checked : a.checkAdvance clock = .ok now
  crosses : a.header.nextBoundaryNs ≤ now
  closes : closePeriod { a with header := { a.header with lastRawCounter := clock.rawCounter } } =
    .ok () s
  remains : s.header.nextBoundaryNs ≤ now

/-- The time that `advance` goes to and the books with which it takes the shortcut, if it
does. -/
def shortcutAt (a : Accounting) (clock : CheckedSample) : Option (Nat × Accounting) :=
  match a.checkAdvance clock with
  | .ok now =>
    if a.header.state = .running ∧ a.header.nextBoundaryNs ≤ now then
      match closePeriod { a with header := { a.header with
        lastRawCounter := clock.rawCounter } } with
      | .ok _ s => if s.header.nextBoundaryNs ≤ now then some (now, s) else none
      | .error _ _ => none
    else none
  | .error _ => none

theorem shortcutAt_eq_some
    (h : shortcutAt a clock = some (now, s)) : TakesShortcut a clock now s := by
  unfold shortcutAt at h
  split at h
  · next hchecked =>
    split at h
    · next hcross =>
      split at h
      · next hcloses =>
        split at h
        · next hremains =>
          cases h
          exact ⟨hcross.1, hchecked, hcross.2, hcloses, hremains⟩
        · contradiction
      · contradiction
    · contradiction
  · contradiction

/-- `advance` skips empty periods exactly when another boundary has passed by then. -/
theorem crossBoundaries_eq (now : Nat) (s : Accounting) :
    (do crossBoundaries now; segment now) s = match closePeriod s with
      | .ok _ t => if t.header.nextBoundaryNs ≤ now then (do skipEmptyPeriods now; segment now) t
        else segment now t
      | .error e t => .error e t := by
  unfold crossBoundaries
  rw [bind_assoc]
  show EStateM.bind closePeriod _ s = _
  unfold EStateM.bind
  cases closePeriod s with
  | error => rfl
  | ok _ t =>
    show ((if t.header.nextBoundaryNs ≤ now then skipEmptyPeriods now else Pure.pure ()) >>=
      fun _ => segment now) t = if _ then _ else _
    split <;> rfl

/-- **The shortcut**: `advance` skips empty periods from the books that `shortcutAt` gives, and
where it gives none it closes at most the period that ended. -/
theorem advance_eq_shortcutAt (hon : a.header.state = .running)
    (hchecked : a.checkAdvance clock = .ok now) :
    let s := { a with header := { a.header with lastRawCounter := clock.rawCounter } }
    advance (some clock) a = match shortcutAt a clock with
      | some (_, s) => (do skipEmptyPeriods now; segment now) s
      | none => if a.header.nextBoundaryNs ≤ now then (do closePeriod; segment now) s
        else segment now s := by
  intro s
  have hget : ∀ (t : Accounting) (f : Accounting → Act Unit), (get >>= f) t = f t t :=
    fun _ _ => rfl
  have hclock : attempt (sampled (some clock)) a = .ok clock a := rfl
  have hnow : attempt (a.checkAdvance clock) a = .ok now a := by rw [hchecked]; rfl
  have hshortcut : shortcutAt a clock = if a.header.nextBoundaryNs ≤ now then
      match closePeriod s with
      | .ok _ t => if t.header.nextBoundaryNs ≤ now then some (now, t) else none
      | .error _ _ => none
    else none := by
    unfold shortcutAt
    rw [hchecked]
    exact if_congr (and_iff_right hon) rfl rfl
  rw [advance, hget, if_neg (by simp [hon]), if_neg (by simp [hon]), run_bind_ok hclock,
    run_bind_ok hnow, hshortcut]
  show advanceTo now s = _
  rw [advanceTo, hget]
  by_cases hcross : a.header.nextBoundaryNs ≤ now
  · rw [if_pos hcross, if_pos hcross, if_pos hcross, crossBoundaries_eq]
    clear_value s
    cases hclose : closePeriod s with
    | error e t =>
      show _ = EStateM.bind closePeriod _ s
      unfold EStateM.bind
      rw [hclose]
    | ok _ t =>
      dsimp only
      split
      · rfl
      · show segment now t = (closePeriod >>= fun _ => segment now) s
        rw [run_bind_ok hclose]
  · rw [if_neg hcross, if_neg hcross, if_neg hcross]

/-- The checks of `advance` pass only if no hart is occupied, or the gap is a period. -/
theorem checkAdvance_eq_ok
    (h : a.checkAdvance clock = .ok now) (hgap : a.header.periodNs < now - a.header.lastNs)
    (hart : Fin maxHarts) : ¬ (a.harts hart).occupied := by
  simp only [checkAdvance, bind_eq_ok] at h
  obtain ⟨-, -, -, -, now', -, _, hgap', _, -, _, -, -, -, _, hidle, -, -, heq⟩ := h
  obtain rfl := Except.ok.inj heq
  obtain ⟨-, rfl⟩ := elapsed_eq_ok hgap'
  intro hoccupied
  have hboth : (∃ hart, (a.harts hart).occupied) ∧ a.header.periodNs < now' - a.header.lastNs :=
    ⟨⟨hart, hoccupied⟩, hgap⟩
  unfold require at hidle
  rw [if_neg (not_not.mpr hboth)] at hidle
  contradiction

/-- **Empty periods**: the shortcut gives every row the bank, debt, state and last allowance
that settling the periods one after another gives it; and it is taken only when no hart is
occupied. -/
theorem shortcut_matches_settling :
    (∀ (a : Accounting) (g : Group) (q finish : Nat), 0 < q → g.Fits →
      g.burstBankNs ≤ g.burstCapNs → (g.burstBankNs = 0 ∨ g.debtNs = 0) →
      g.pendingRevision = 0 → a.entitlement g = .ok g.entitlementNs →
      (emptyPeriodRow q finish g).map (·.1.standing) = (settlePeriods q a g).map (·.standing)) ∧
    (∀ (ops : List Op) (responses : List (Except Error Bool)) (a s : Accounting)
      (clock : CheckedSample) (now : Nat), (∀ op ∈ ops, op.isEntry = true) →
      run step boot ops = some (responses, a) → shortcutAt a clock = some (now, s) →
      ∀ hart, ¬ (s.harts hart).occupied) := by
  refine ⟨fun a g q finish hq hfits hcap hone hpending hfull => ?_,
    fun ops responses a s clock now hentries hrun hshortcut hart => ?_⟩
  · rw [emptyPeriodRow_standing hfits, settlePeriods_standing hq hfits hcap hone hpending hfull]
  have hguard : Guarded step (fun _ op => op.isEntry = true) boot ops :=
    guarded_of_forall fun op hop _ => hentries op hop
  have hboot : Timely boot := ⟨nofun, nofun⟩
  have htimely : Timely a := run_invariant_of_guarded
    (fun _ _ _ _ h hentry => timely_step hentry h) hrun hguard hboot
  have htakes := shortcutAt_eq_some hshortcut
  obtain ⟨hlast, -⟩ := htimely.early htakes.running
  obtain ⟨-, hboundary, -, hharts⟩ := (closePeriod_closed _).ok rfl htakes.closes
  have hgap : a.header.periodNs < now - a.header.lastNs := by
    have hremains := htakes.remains
    rw [hboundary] at hremains
    change a.header.nextBoundaryNs + a.header.periodNs ≤ now at hremains
    omega
  rw [hharts]
  exact checkAdvance_eq_ok htakes.checked hgap hart

/-- A cell is bound and never runs. -/
def idleRun : List Op :=
  [.bindGroup ⟨1, 7, 11⟩ ⟨some (tick 1000), 2, true, fun _ => 0⟩ (some (tick 1000))]

/-- Two and a half periods later the shortcut is taken, with no hart occupied; and a debt of 25
entitled to 10 is a bank of 15 after four empty periods. -/
theorem shortcut_matches_settling_idle :
    (∃ responses a now s, run step boot idleRun = some (responses, a) ∧
      shortcutAt a (tick 250001000) = some (now, s) ∧ ∀ hart, ¬ (s.harts hart).occupied) ∧
    (settlePeriods 4 boot { entitlementNs := 10, burstCapNs := 40, debtNs := 25 }).map
      (·.standing) = .ok (15, 0, .empty, 15) := by
  obtain ⟨hrows, htaken⟩ := shortcut_matches_settling
  constructor
  · obtain ⟨responses, a, hrun, hsome⟩ : ∃ responses a, run step boot idleRun = some (responses, a) ∧
        (shortcutAt a (tick 250001000)).isSome := by decide +kernel
    obtain ⟨⟨now, s⟩, hshortcut⟩ := Option.isSome_iff_exists.mp hsome
    exact ⟨responses, a, now, s, hrun, hshortcut,
      htaken idleRun responses a s _ _ (by decide) hrun hshortcut⟩
  · rw [← hrows boot { entitlementNs := 10, burstCapNs := 40, debtNs := 25 } 4 0 (by decide)
      (by unfold Fits; decide) (by decide) (by decide) rfl (by decide)]
    decide

/-! ## atomic steps -/

theorem rowsOf_congr {b : Accounting} (f : Group → Except Error (Group × Event))
    (h : ∀ i ∈ is, b.groups i = a.groups i) :
    b.rowsOf f is = a.rowsOf f is := by
  induction is with
  | nil => rfl
  | cons i is ih =>
    rw [rowsOf, rowsOf, h i List.mem_cons_self, ih fun j hj => h j (List.mem_cons_of_mem i hj)]

/-- **Second pass**: after a preflight of different rows, it computes the same rows again. -/
theorem commitRows_eq (hnodup : is.Nodup) (hrows : a.rowsOf a.settledRow is = .ok rows) :
    a.commitRows is = some (a.replaceRows rows) := by
  induction is generalizing a rows with
  | nil =>
    cases hrows
    rfl
  | cons i is ih =>
    obtain ⟨hi, hnodup⟩ := List.nodup_cons.mp hnodup
    rw [rowsOf] at hrows
    rw [commitRows]
    by_cases hempty : (a.groups i).state = .empty
    · rw [if_pos hempty] at hrows
      rw [if_pos (.inl hempty)]
      exact ih hnodup hrows
    rw [if_neg hempty] at hrows
    obtain ⟨⟨row, event⟩, hrow, hrows⟩ := bind_eq_ok.mp hrows
    obtain ⟨rest, hrest, hrows⟩ := bind_eq_ok.mp hrows
    cases hrows
    by_cases hzero : i.val = 0
    · rw [if_pos (.inr hzero), ih hnodup hrest]
      simp [replaceRows, hzero]
    -- neither the header nor a row that is still to come has changed
    rw [if_neg (by simp [hempty, hzero]), hrow]
    have hlater := rowsOf_congr
      (b := { a with groups := Function.update a.groups i row }.appendReserved event) a.settledRow
      fun j (hj : j ∈ is) => Function.update_of_ne (fun h : j = i => hi (h ▸ hj)) _ _
    refine (ih hnodup (hlater.trans hrest)).trans ?_
    simp [replaceRows, hzero, putRows, appendAll, appendReserved]

/-- **Accounting steps are atomic**: a segment or a settlement that fails leaves the books as they
were, and the second pass of a settlement does what its preflight computed. -/
theorem segment_settle_atomic (a : Accounting) (finish : Nat) :
    (∀ e a', segment finish a = .error e a' → a' = a) ∧
    (∀ e a', settle a = .error e a' → a' = a) ∧ settlePasses a = some (settle a) := by
  refine ⟨fun e a' hrun => ?_, fun e a' hrun => ?_, ?_⟩
  · have hsegment := segment_header a finish a rfl
    rwa [hrun] at hsegment
  · have hsettle := settle_header a a rfl
    rwa [hrun] at hsettle
  have hok {α β : Type} (x : α) (rest : α → Act β) : (attempt (.ok x) >>= rest) a = rest x a := rfl
  show _ = some ((attempt (add a.header.periodIndex 1) >>= _) a)
  unfold settlePasses
  cases add a.header.periodIndex 1 with
  | error => rfl
  | ok period =>
  rw [hok]
  cases add a.header.nextBoundaryNs a.header.periodNs with
  | error => rfl
  | ok boundary =>
  rw [hok]
  cases hrows : a.rowsOf a.settledRow (List.finRange maxCells) with
  | error => rfl
  | ok rows =>
  have hheader : (a.replaceRows rows).header = a.header := (appendAll_frame _ _).1
  rw [hok, commitRows_eq (List.nodup_finRange _) hrows]
  simp only [except_ok_bind, Option.map_some, hheader]
  cases a.reserveEvents rows.length with
  | error => rfl
  | ok => rfl

end Cellos.CpuAccounting
