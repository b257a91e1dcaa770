import Cellos.Task.CpuEntries

/-!
# Cellos.Task.CpuConservation

Every nanosecond of every admitted hart is charged once.

A segment charges its length for every admitted hart, either to control or to the group that
is active there, and the rows it writes add just that to the lifetimes.  Settling moves no
charge, and the periods that are skipped go to control.  With `Maintained` the balance then
holds after every entry point, and after segments and settlements by themselves.
-/

namespace Cellos.CpuAccounting

open Lib Triple List Function

variable {rows : List (Fin maxCells × Group × Option Event)}

/-! ## checked arithmetic -/

theorem add_eq_ok (h : add a b = .ok c) : c = a + b := by
  unfold add at h
  split at h
  · exact (Except.ok.inj h).symm
  · contradiction

theorem mul_eq_ok (h : mul a b = .ok c) : c = a * b := by
  unfold mul at h
  split at h
  · exact (Except.ok.inj h).symm
  · contradiction

theorem elapsed_eq_ok (h : elapsed start now = .ok c) : start ≤ now ∧ c = now - start := by
  unfold elapsed at h
  split at h
  · next hle => exact ⟨hle, (Except.ok.inj h).symm⟩
  · contradiction

namespace Accounting

variable {a : Accounting} {g : Group} {is : List (Fin maxCells)}
  {row : Group × Event}

/-! ## the rows of a segment -/

theorem chargeHart_eq_ok (h : a.chargeHart dt acc hart = .ok acc') :
    acc'.1 + tally id acc'.2 = acc.1 + tally id acc.2 + (a.admitted hart).toNat * dt ∧
      ∀ i, acc'.2 i ≠ acc.2 i → i.val ≠ 0 ∧ (a.groups i).state ≠ .empty := by
  unfold chargeHart at h
  cases hadmitted : a.admitted hart with
  | false => grind
  | true =>
    simp only [hadmitted, Bool.true_eq_false, if_false] at h
    split at h
    · obtain ⟨_, hcontrol, heq⟩ := bind_eq_ok.mp h
      cases heq
      have := add_eq_ok hcontrol
      exact ⟨by simp only [Bool.toNat_true]; omega, fun i hi => absurd rfl hi⟩
    obtain ⟨i, hi, hrest⟩ := bind_eq_ok.mp h
    obtain ⟨charge, hcharge, heq⟩ := bind_eq_ok.mp hrest
    cases heq
    have hsum := add_eq_ok hcharge
    have htally := tally_update id acc.2 i charge
    refine ⟨?_, fun j hj => ?_⟩
    · simp only [id, Bool.toNat_true] at htally ⊢
      omega
    · by_cases hji : j = i
      · unfold groupIndex at hi
        grind
      · exact absurd (update_of_ne hji _ _) hj

theorem foldlM_chargeHart {harts : List (Fin maxHarts)}
    {acc acc' : Nat × (Fin maxCells → Nat)} (h : harts.foldlM (a.chargeHart dt) acc = .ok acc') :
    acc'.1 + tally id acc'.2 =
        acc.1 + tally id acc.2 + harts.countP (fun hart : Fin maxHarts => a.admitted hart.val) * dt ∧
      ∀ i, acc'.2 i ≠ acc.2 i → i.val ≠ 0 ∧ (a.groups i).state ≠ .empty := by
  induction harts generalizing acc with
  | nil =>
    cases h
    exact ⟨by simp, fun i hi => absurd rfl hi⟩
  | cons hart _ ih =>
    obtain ⟨mid, hmid, hrest⟩ := bind_eq_ok.mp h
    obtain ⟨hsum, hkeep⟩ := chargeHart_eq_ok hmid
    obtain ⟨hsum', hkeep'⟩ := ih hrest
    refine ⟨?_, fun i hi => ?_⟩
    · rw [countP_cons, Nat.add_mul, hsum', hsum]
      cases a.admitted hart <;> simp; omega
    · by_cases hi' : acc'.2 i = mid.2 i
      · exact hkeep i (hi' ▸ hi)
      · exact hkeep' i hi'

theorem segmentRow_eq_ok {row : Group × Option Event} (h : a.segmentRow finish charge g = .ok row) :
    row.1.lifetimeChargeNs = g.lifetimeChargeNs + charge ∧
      (row.1.state = .empty → g.state = .empty) := by
  simp only [segmentRow, bind_eq_ok] at h
  obtain ⟨_, -, _, -, _, -, _, -, -, -, _, hlifetime, h⟩ := h
  have hsum := add_eq_ok hlifetime
  split at h
  · simp only [exhaust, bind_eq_ok] at h
    obtain ⟨_, -, _, -, _, -, -, -, h⟩ := h
    cases h
    exact ⟨hsum, by grind⟩
  · cases h
    exact ⟨hsum, id⟩

open CpuAccounting.Group

/-- The rows of a segment add the charges to the lifetimes of their groups. -/
theorem putRows_segmentRows {groups : Fin maxCells → Group}
    (hcharge : ∀ i, charge i ≠ 0 → i.val ≠ 0 ∧ (a.groups i).state ≠ .empty) (hnodup : is.Nodup)
    (hgroups : ∀ i ∈ is, groups i = a.groups i) (h : a.segmentRows finish charge is = .ok rows) :
    tally lifetimeChargeNs (putRows groups rows) =
        tally lifetimeChargeNs groups + (is.map charge).sum ∧
      ∀ i, (putRows groups rows i).state = .empty → putRows groups rows i = groups i := by
  induction is generalizing rows groups with
  | nil =>
    cases h
    exact ⟨by simp [putRows], fun i _ => rfl⟩
  | cons i rest ih =>
    obtain ⟨hnot, hrest⟩ := nodup_cons.mp hnodup
    rw [map_cons, sum_cons]
    unfold segmentRows at h
    split at h
    · next hskip =>
      have hzero : charge i = 0 := by
        by_contra hne
        exact hskip.elim (hcharge i hne).1 hne
      obtain ⟨hsum, hempty⟩ := ih hrest (fun j hj => hgroups j (mem_cons_of_mem _ hj)) h
      exact ⟨by omega, hempty⟩
    · next hskip =>
      simp only [bind_eq_ok] at h
      obtain ⟨row, hrow, others, hothers, heq⟩ := h
      cases heq
      obtain ⟨hlifetime, hstate⟩ := segmentRow_eq_ok hrow
      have hkeep : ∀ j ∈ rest, update groups i row.1 j = a.groups j := by
        intro j hj
        have hne : j ≠ i := fun heq => hnot (heq ▸ hj)
        rw [update_of_ne hne]
        exact hgroups j (mem_cons_of_mem _ hj)
      obtain ⟨hsum, hempty⟩ := ih hrest hkeep hothers
      have htally := tally_update lifetimeChargeNs groups i row.1
      rw [hgroups i mem_cons_self] at htally
      refine ⟨?_, fun j hj => ?_⟩
      · change tally _ (putRows (update groups i row.1) others) = _
        omega
      have hj' := hempty j hj
      change putRows (update groups i row.1) others j = _
      by_cases hji : j = i
      · subst hji
        change (putRows (update groups j row.1) others j).state = _ at hj
        rw [hj', update_self] at hj
        exact absurd (hstate hj) (hcharge j fun h => hskip (.inr h)).2
      · rw [hj', update_of_ne hji]

theorem sameBooks_appendAll (a : Accounting) (events : List Event) :
    SameBooks a (a.appendAll events) := by
  obtain ⟨hheader, -, hgroups, hretired⟩ := appendAll_frame a events
  exact SameBooks.of_groups (hheader ▸ .refl _) hgroups hretired

theorem SameBooks.putRows {β : Type} {rows : List (Fin maxCells × Group × β)}
    (h : ∀ row ∈ rows, row.2.1.lifetimeChargeNs = (a.groups row.1).lifetimeChargeNs ∧
      row.2.1.state ≠ .empty) :
    SameBooks a { a with groups := Accounting.putRows a.groups rows } := by
  induction rows generalizing a with
  | nil => exact refl_of SameBooks a
  | cons row _ ih =>
    obtain ⟨hlifetime, hstate⟩ := h row mem_cons_self
    have hfirst : SameBooks a { a with groups := update a.groups row.1 row.2.1 } :=
      SameBooks.of_row hlifetime fun hempty => absurd hempty hstate
    refine trans_of SameBooks hfirst (ih fun other hother => ?_)
    obtain ⟨hlifetime', hstate'⟩ := h other (mem_cons_of_mem _ hother)
    exact ⟨hlifetime'.trans (hfirst.lifetime other.1).symm, hstate'⟩

theorem sameBooks_replaceRows {rows : List (Fin maxCells × Group × Event)}
    (h : ∀ row ∈ rows, row.2.1.lifetimeChargeNs = (a.groups row.1).lifetimeChargeNs ∧
      row.2.1.state ≠ .empty) : SameBooks a (a.replaceRows rows) := by
  refine trans_of SameBooks (SameBooks.putRows fun row hrow => ?_) (sameBooks_appendAll _ _)
  exact h row (mem_of_mem_filter hrow)

theorem rowsOf_eq_ok {f : Group → Except Error (Group × Event)}
    (hf : ∀ g row, g.state ≠ .empty → f g = .ok row →
      row.1.lifetimeChargeNs = g.lifetimeChargeNs ∧ row.1.state ≠ .empty)
    {rows : List (Fin maxCells × Group × Event)} (h : a.rowsOf f is = .ok rows) :
    ∀ row ∈ rows, row.2.1.lifetimeChargeNs = (a.groups row.1).lifetimeChargeNs ∧
      row.2.1.state ≠ .empty := by
  induction is generalizing rows with
  | nil =>
    cases h
    intro row hrow
    contradiction
  | cons _ _ ih =>
    unfold rowsOf at h
    split at h
    · exact ih h
    next hstate =>
    simp only [bind_eq_ok] at h
    obtain ⟨_, hrow, _, hothers, heq⟩ := h
    cases heq
    intro other hother
    rcases mem_cons.mp hother with rfl | hmem
    · exact hf _ _ hstate hrow
    · exact ih hothers other hmem

theorem replenished_eq_ok {state : GroupState} (h : replenished g = .ok state)
    (hstate : g.state ≠ .empty) : state ≠ .empty := by
  unfold replenished at h
  split at h
  · simp only [bind_eq_ok] at h
    obtain ⟨_, -, heq⟩ := h
    cases heq
    split <;> nofun
  · exact Except.ok.inj h ▸ hstate

theorem applyPolicy_eq_ok (h : a.applyPolicy g = .ok g') :
    g'.lifetimeChargeNs = g.lifetimeChargeNs ∧ g'.state = g.state := by
  unfold applyPolicy at h
  split at h
  · cases h
    exact ⟨rfl, rfl⟩
  simp only [bind_eq_ok] at h
  obtain ⟨_, -, -, -, heq⟩ := h
  cases heq
  exact ⟨rfl, rfl⟩

theorem settledRow_eq_ok (hstate : g.state ≠ .empty) (h : a.settledRow g = .ok row) :
    row.1.lifetimeChargeNs = g.lifetimeChargeNs ∧ row.1.state ≠ .empty := by
  simp only [settledRow, bind_eq_ok] at h
  obtain ⟨_, -, _, -, _, -, _, -, _, hpolicy, _, hnew, heq⟩ := h
  cases heq
  obtain ⟨hlifetime, hsame⟩ := applyPolicy_eq_ok hpolicy
  refine ⟨hlifetime, replenished_eq_ok hnew ?_⟩
  rw [hsame]
  exact hstate

theorem emptyPeriodRow_eq_ok (hstate : g.state ≠ .empty) (h : emptyPeriodRow q finish g = .ok row) :
    row.1.lifetimeChargeNs = g.lifetimeChargeNs ∧ row.1.state ≠ .empty := by
  simp only [emptyPeriodRow, bind_eq_ok] at h
  obtain ⟨_, -, _, -, _, -, _, -, _, -, _, hnew, heq⟩ := h
  cases heq
  exact ⟨rfl, replenished_eq_ok hnew hstate⟩

/-! ## the balance -/

/-- All that is charged, to control and to the groups. -/
def charged (a : Accounting) : Nat := a.header.controlChargeNs + tally lifetimeChargeNs a.groups +
    (a.retired.map lifetimeChargeNs).sum

/-- What is charged is the time of the admitted harts since the epoch. -/
structure Balanced (a : Accounting) : Prop where
  balance : a.charged = countOnes a.header.admittedHartMask * (a.header.lastNs - a.header.epochNs)
  since : a.header.epochNs ≤ a.header.lastNs
  masked : a.header.admittedHartMask < 2 ^ maxHarts
  vacant : ∀ i, (a.groups i).state = .empty → (a.groups i).lifetimeChargeNs = 0
  off : a.header.state = .off → a.header.admittedHartMask = 0

theorem Balanced.same (b : Balanced a) (h : SameBooks a a') : Balanced a' := by
  obtain ⟨hstate, -, hcontrol, hepoch, hlast, hmask, -⟩ := h.header
  have hlifetimes : tally lifetimeChargeNs a'.groups = tally lifetimeChargeNs a.groups := by
    exact Finset.sum_congr rfl fun i _ => h.lifetime i
  refine ⟨?_, ?_, ?_, fun i hi => ?_, fun hoff => ?_⟩
  · rw [charged, hcontrol, hlifetimes, h.retired, hmask, hlast, hepoch]
    exact b.balance
  · rw [hepoch, hlast]
    exact b.since
  · rw [hmask]
    exact b.masked
  · rw [h.lifetime]
    exact b.vacant i (h.vacant i hi)
  · rw [hmask]
    exact b.off (hstate ▸ hoff)

/-- The books are open, and balanced. -/
structure Running (a : Accounting) : Prop where
  balanced : Balanced a
  running : a.header.state = .running
  unsealed : a.header.error = none

theorem Running.same (r : Running a) (h : SameBooks a a') : Running a' := by
  exact ⟨r.balanced.same h, h.header.state.trans r.running, h.header.error.trans r.unsealed⟩

theorem Running.failed (r : Running a) (e : Error) : ∀ s, s = a → Failed e s :=
  fun _ hs h => absurd (hs ▸ r.unsealed) h

theorem countOnes_eq (hmask : a.header.admittedHartMask < 2 ^ maxHarts) :
    countOnes a.header.admittedHartMask =
      (finRange maxHarts).countP fun hart : Fin maxHarts => a.admitted hart.val := by
  have hall : ∀ mask < 2 ^ maxHarts, countOnes mask =
      (finRange maxHarts).countP fun hart : Fin maxHarts => mask.testBit hart.val := by
    decide
  exact hall _ hmask

end Accounting

open Accounting

variable {a : Accounting}

open CpuAccounting.Group

/-- The books after a segment are balanced: what the harts were charged for went to control
and to the lifetimes of the groups. -/
theorem Accounting.Balanced.segment (b : Balanced a) (hon : a.header.state = .running)
    (hdt : elapsed a.header.lastNs finish = .ok dt)
    (hacc : (finRange maxHarts).foldlM (a.chargeHart dt) (0, fun _ => 0) = .ok acc)
    (htotal : add a.header.controlChargeNs acc.1 = .ok total)
    (hrows : a.segmentRows finish acc.2 (finRange maxCells) = .ok rows) : Balanced { a with
      groups := putRows a.groups rows
      header := { a.header with controlChargeNs := total, lastNs := finish } } := by
  obtain ⟨hle, hdt⟩ := elapsed_eq_ok hdt
  obtain ⟨hharts, hcharge⟩ := foldlM_chargeHart hacc
  obtain ⟨hlifetimes, hempty⟩ :=
    putRows_segmentRows hcharge (nodup_finRange _) (fun _ _ => rfl) hrows
  have hcontrol := add_eq_ok htotal
  have hbalance := b.balance
  have hsum : ((finRange maxCells).map acc.2).sum = tally id acc.2 := (Fin.sum_univ_def acc.2).symm
  have hzero : tally id (fun _ : Fin maxCells => 0) = 0 := tally_eq_zero fun _ => rfl
  dsimp only at hharts
  have htime : finish - a.header.epochNs = (a.header.lastNs - a.header.epochNs) + dt := by
    have := b.since
    omega
  refine ⟨?_, b.since.trans hle, b.masked, fun i hi => ?_, fun hoff => ?_⟩
  · show total + tally lifetimeChargeNs (putRows a.groups rows) +
      (a.retired.map lifetimeChargeNs).sum =
        countOnes a.header.admittedHartMask * (finish - a.header.epochNs)
    rw [htime, Nat.mul_add, ← hbalance, countOnes_eq b.masked, hlifetimes, hsum]
    unfold charged
    omega
  · show (putRows a.groups rows i).lifetimeChargeNs = 0
    rw [hempty i hi]
    exact b.vacant i (hempty i hi ▸ hi)
  · exact absurd (hon.symm.trans hoff) (by decide)

/-- A segment charges the time of every admitted hart. -/
theorem segment_running (finish : Nat) : Maintains Running (segment finish) := by
  refine get_bind fun a r => ?_
  refine attempt_bind (fun dt hdt => ?_) r.failed
  refine attempt_bind (fun acc hacc => ?_) r.failed
  refine attempt_bind (fun total htotal => ?_) r.failed
  refine attempt_bind (fun _ _ => ?_) r.failed
  refine attempt_bind (fun rows hrows => ?_) r.failed
  refine attempt_bind (fun _ _ => ?_) r.failed
  refine set fun s _ => ?_
  have hbalanced := r.balanced.segment r.running hdt hacc htotal hrows
  exact Running.same { r with balanced := hbalanced } (sameBooks_appendAll _ _)

/-- Settling a period moves no charge. -/
theorem settle_running : Maintains Running settle := by
  refine get_bind fun a r => ?_
  refine attempt_bind (fun period _ => ?_) r.failed
  refine attempt_bind (fun boundary _ => ?_) r.failed
  refine attempt_bind (fun rows hrows => ?_) r.failed
  refine attempt_bind (fun _ _ => ?_) r.failed
  refine set fun s _ => ?_
  have hsame := sameBooks_replaceRows (rowsOf_eq_ok (fun _ _ => settledRow_eq_ok) hrows)
  have b := r.balanced
  have hbalanced : Balanced { a with
      header := { a.header with periodIndex := period, nextBoundaryNs := boundary } } :=
    { b with }
  exact Running.same { r with balanced := hbalanced }
    { hsame with header := .refl _ }

/-- The empty periods are charged to control. -/
theorem skipEmptyPeriods_running (now : Nat) : Maintains Running (skipEmptyPeriods now) := by
  refine get_bind fun a r => ?_
  refine attempt_bind (fun q _ => ?_) r.failed
  refine attempt_bind (fun skip _ => ?_) r.failed
  refine attempt_bind (fun finish hfinish => ?_) r.failed
  refine attempt_bind (fun period _ => ?_) r.failed
  refine attempt_bind (fun boundary _ => ?_) r.failed
  refine attempt_bind (fun share hshare => ?_) r.failed
  refine attempt_bind (fun control hcontrol => ?_) r.failed
  refine attempt_bind (fun rows hrows => ?_) r.failed
  refine attempt_bind (fun _ _ => ?_) r.failed
  refine set fun s _ => ?_
  have hsame := sameBooks_replaceRows (rowsOf_eq_ok (fun _ _ => emptyPeriodRow_eq_ok) hrows)
  have b := r.balanced
  have hfinish := add_eq_ok hfinish
  have hshare := mul_eq_ok hshare
  have hcontrol := add_eq_ok hcontrol
  have htime : finish - a.header.epochNs = (a.header.lastNs - a.header.epochNs) + skip := by
    have := b.since
    omega
  -- the skipped time goes to control before the rows are replaced
  have hbalanced : Balanced { a with
      header := { a.header with
        controlChargeNs := control
        lastNs := finish
        periodIndex := period
        nextBoundaryNs := boundary } } := by
    refine ⟨?_, ?_, b.masked, b.vacant, b.off⟩
    · show control + tally lifetimeChargeNs a.groups + (a.retired.map lifetimeChargeNs).sum =
          countOnes a.header.admittedHartMask * (finish - a.header.epochNs)
      rw [htime, Nat.mul_add, ← b.balance, hcontrol, hshare, Nat.mul_comm skip]
      unfold charged
      omega
    · show a.header.epochNs ≤ finish
      have := b.since
      omega
  exact Running.same { r with balanced := hbalanced }
    { hsame with header := .refl _ }

theorem advanceTo_running (now : Nat) : Maintains Running (advanceTo now) := by
  refine get_bind fun a r => ite (fun _ => ?_) fun _ => ?_
  · refine bind ?_ fun _ => segment_running now
    refine bind (R := fun _ => Running) ?_ fun _ => ?_
    · refine get_bind fun s hs => ?_
      exact bind ((segment_running _).conseq (fun t ht => ht ▸ hs ▸ r) (fun _ _ => id)
        fun _ _ => id) fun _ => settle_running
    · refine get_bind fun s r => ite (fun _ => ?_) fun _ =>
        pure fun t ht => ht ▸ r
      exact (skipEmptyPeriods_running now).conseq (fun t ht => ht ▸ r) (fun _ _ => id) fun _ _ => id
  · exact (segment_running now).conseq (fun s hs => hs ▸ r) (fun _ _ => id) fun _ _ => id

/-- **Advancing**: open books stay open and balanced. -/
theorem advance_running (sample : Option CheckedSample) : Maintains Running (advance sample) := by
  refine get_bind fun a r => ?_
  refine ite (fun h => ?_) fun _ => ite (fun h => absurd r.running h) fun _ => ?_
  · rw [r.running] at h
    exact absurd h (by decide)
  refine attempt_bind (fun clock _ => ?_) r.failed
  refine attempt_bind (fun now _ => ?_) r.failed
  refine bind (set fun s _ => ?_) fun _ =>
    advanceTo_running now
  exact r.same (SameBooks.of_groups ⟨rfl, rfl, rfl, rfl, rfl, rfl, rfl, rfl⟩ rfl rfl)

/-! ## entry points -/

/-- A failure sealed the books; the others are balanced. -/
structure Honest (a : Accounting) : Prop where
  sealed : a.header.error ≠ none → a.header.state = .sealed
  balanced : a.header.error = none → Balanced a

theorem Accounting.Running.honest (r : Running a) : Honest a :=
  ⟨fun h => absurd r.unsealed h, fun _ => r.balanced⟩

variable (h : Honest a)

include h

theorem Honest.unsealed (hstate : a.header.state ≠ .sealed) : a.header.error = none := by
  by_contra hsealed
  exact hstate (h.sealed hsealed)

theorem Honest.running (hon : a.header.state = .running) : Running a := by
  have hunsealed := h.unsealed (by rw [hon]; decide)
  exact ⟨h.balanced hunsealed, hon, hunsealed⟩

theorem Honest.same (hsame : SameBooks a a') : Honest a' := by
  have hstate := hsame.header.state
  have herror := hsame.header.error
  refine ⟨fun hsealed => ?_, fun hopen => ?_⟩
  · rw [hstate]
    exact h.sealed (herror ▸ hsealed)
  · exact (h.balanced (herror ▸ hopen)).same hsame

omit h in
theorem advance_honest (sample : Option CheckedSample) : Maintains Honest (advance sample) := by
  refine fun a h => ?_
  by_cases hon : a.header.state = .running
  · exact (advance_running sample).conseq (fun _ => id) (fun _ _ => Accounting.Running.honest)
      (fun _ _ => id) a (h.running hon)
  have hidle : Triple (fun s => s = a) (advance sample) (fun _ => Honest) Failed :=
    get_bind fun s hs => ite (fun _ => pure fun t ht => ht ▸ hs ▸ h) fun _ =>
      ite (fun _ => throw fun t ht => ht ▸ hs ▸ h.sealed) fun hon' =>
        absurd (hs ▸ not_not.mp hon') hon
  exact hidle a rfl

/-- Opening the books: nothing is charged yet. -/
theorem Honest.opened (hoff : a.header.state = .off)
    (hbound : onlineHarts ≤ maxHarts) (bootSession now boundary : Nat)
    (clock : CheckedSample) (harts : Fin maxHarts → Hart) :
    Honest { a with header := openHeader bootSession onlineHarts now boundary clock, harts } := by
  have b := h.balanced (h.unsealed (by rw [hoff]; decide))
  have hcharged : a.charged = 0 := by
    rw [b.balance, b.off hoff]
    exact Nat.zero_mul _
  refine ⟨nofun, fun _ => ⟨?_, Nat.le_refl now, ?_, b.vacant, nofun⟩⟩
  · show 0 + tally lifetimeChargeNs a.groups +
      (a.retired.map lifetimeChargeNs).sum = _ * (now - now)
    rw [Nat.sub_self, Nat.mul_zero]
    unfold charged at hcharged
    omega
  · show 1 <<< onlineHarts - 1 < 2 ^ maxHarts
    have hpow := Nat.pow_le_pow_right (show 0 < 2 by decide) hbound
    have hpos := Nat.two_pow_pos onlineHarts
    omega

/-- A retired group takes its charge with it. -/
theorem Honest.buried (owner : CellOwner) : Honest { a with
      retired := a.retired ++ [a.retiredRow owner (a.groups i)]
      groups := update a.groups i {} } := by
  refine ⟨h.sealed, fun herror => ?_⟩
  have b := h.balanced herror
  have hmoved := tally_update lifetimeChargeNs a.groups i {}
  refine ⟨?_, b.since, b.masked, fun j hj => ?_, b.off⟩
  · show a.header.controlChargeNs + tally lifetimeChargeNs (update a.groups i {}) +
      ((a.retired ++ [a.retiredRow owner (a.groups i)]).map lifetimeChargeNs).sum =
        countOnes a.header.admittedHartMask * (a.header.lastNs - a.header.epochNs)
    have hrow : (a.retiredRow owner (a.groups i)).lifetimeChargeNs =
      (a.groups i).lifetimeChargeNs := rfl
    have hnew : ({} : Group).lifetimeChargeNs = 0 := rfl
    rw [← b.balance, map_append, sum_append, map_singleton, sum_singleton, hrow]
    unfold charged
    omega
  · dsimp only at hj ⊢
    by_cases hji : j = i
    · subst hji
      rw [update_self]
    · rw [update_of_ne hji] at hj ⊢
      exact b.vacant j hj

omit h

theorem honest_maintained : Maintained Honest where
  same _ _ h hsame := h.same hsame
  sealed _ h := h.sealed
  advance := advance_honest
  opened _ h hoff bootSession _ now boundary clock harts hbound _ :=
    h.opened hoff hbound bootSession now boundary clock harts
  bound _ i _ h hempty := by
    refine ⟨h.sealed, fun herror => ?_⟩
    have b := h.balanced herror
    exact b.same (SameBooks.of_row (b.vacant i hempty).symm nofun)
  buried _ _ owner h := h.buried owner
  exported a h hunsealed := by
    have b := h.balanced hunsealed
    exact ⟨fun hsealed => absurd hunsealed hsealed, fun _ => { b with off := nofun }⟩

theorem part_honest (h : Maintains Running prog) : Triple Honest (do
      let a ← get
      attempt (require (a.header.state = .running) .busy)
      prog
      pure true) (fun _ => Honest) Failed := by
  refine get_bind fun a ha => ?_
  refine attempt_bind (fun _ hon => ?_) fun _ s hs => hs ▸ ha.sealed
  have r : Running a := ha.running (by unfold require at hon; grind)
  refine bind (h.conseq (fun s hs => hs ▸ r) (fun _ _ => id) fun _ _ => id) fun _ => ?_
  exact pure fun _ => Accounting.Running.honest

theorem perform_honest (op : Op) : Maintains Honest op.perform := by
  cases hentry : op.isEntry with
  | true => exact perform_maintained honest_maintained op hentry
  | false =>
    cases op with
    | segment finish => exact part_honest (segment_running finish)
    | settle => exact part_honest settle_running
    | _ => contradiction

/-! ## runs -/

theorem honest_boot : Honest boot := by
  refine ⟨nofun, fun _ => ⟨?_, le_rfl, by decide, fun _ _ => rfl, fun _ => rfl⟩⟩
  have hgroups : tally lifetimeChargeNs boot.groups = 0 := tally_eq_zero fun _ => rfl
  show 0 + tally lifetimeChargeNs boot.groups + 0 = countOnes 0 * 0
  rw [hgroups, Nat.mul_zero]

theorem honest_step (h : Honest a) (hstep : step a op = some (response, a')) : Honest a' := by
  rcases step_cases hstep (perform_honest op) h with hend | ⟨herror, hstate⟩
  · exact hend
  · exact ⟨fun _ => hstate, fun hopen => absurd hopen herror⟩

/-- **Conservation**: in every unsealed state that is reached, what is charged to control and
to all live and retired groups is the time of the admitted harts since the epoch. -/
theorem charges_conserved {ops : List Op} {responses : List (Except Error Bool)} {a : Accounting}
    (hrun : run step boot ops = some (responses, a)) (hunsealed : a.header.error = none) :
    a.header.controlChargeNs + (∑ i, (a.groups i).lifetimeChargeNs) +
        (a.retired.map lifetimeChargeNs).sum =
      countOnes a.header.admittedHartMask * (a.header.lastNs - a.header.epochNs) := by
  have h : Honest a := run_invariant (fun _ _ _ _ => honest_step) hrun honest_boot
  exact (h.balanced hunsealed).balance

/-- A clock with a tick per nanosecond. -/
def tick (now : Nat) : CheckedSample := ⟨1, 2, 3, now, 1000000⟩

/-- A cell is bound on two harts and runs on the first one for 2000 ns. -/
def shortRun : List Op :=
  [.bindGroup ⟨1, 7, 11⟩ ⟨some (tick 1000), 2, true, fun _ => 0⟩ (some (tick 1000)),
    .stage 0 (some ⟨1, 7, 11, 11⟩) 0 (some (tick 2000)), .complete 0 11 (some (tick 3000)),
    .service 0 (some (tick 5000))]

/-- The row of the cell. -/
def shortRow : Fin maxCells := ⟨1, by decide⟩

/-- The cell is charged for the 2000 ns, and control for the rest of the two harts. -/
theorem charges_conserved_short : ∃ responses a,
    run step boot shortRun = some (responses, a) ∧ (a.groups shortRow).lifetimeChargeNs = 2000 ∧
      a.header.controlChargeNs + (∑ i, (a.groups i).lifetimeChargeNs) +
        (a.retired.map lifetimeChargeNs).sum = 8000 := by
  obtain ⟨responses, a, hrun, hunsealed, hcell, htime⟩ : ∃ responses a,
      run step boot shortRun = some (responses, a) ∧ a.header.error = none ∧
        (a.groups shortRow).lifetimeChargeNs = 2000 ∧
        countOnes a.header.admittedHartMask * (a.header.lastNs - a.header.epochNs) = 8000 := by
    decide +kernel
  exact ⟨responses, a, hrun, hcell, (charges_conserved hrun hunsealed).trans htime⟩

/-- **The first error is final**: once an operation has failed, no sequence of operations changes
anything in the books. -/
theorem sealed_final {ops : List Op} {responses : List (Except Error Bool)} {a : Accounting}
    (hrun : run step boot ops = some (responses, a)) (herror : a.header.error ≠ none)
    (more : List Op) : ∃ answers, run step a more = some (answers, a) := by
  have h : Honest a := run_invariant (fun _ _ _ _ => honest_step) hrun honest_boot
  induction more with
  | nil => exact ⟨[], rfl⟩
  | cons op _ ih =>
    obtain ⟨answer, hstep⟩ := step_sealed (h.sealed herror) herror op
    obtain ⟨answers, hmore⟩ := ih
    exact ⟨answer :: answers, run_cons_eq_some.mpr ⟨answer, a, answers, hstep, hmore, rfl⟩⟩

/-- A clock that runs backwards seals the books of `shortRun`, with what the cell was charged. -/
theorem sealed_final_regression : ∃ responses a,
    run step boot (shortRun ++ [.service 0 (some (tick 4000))]) = some (responses, a) ∧
      a.header.error = some .clockRegression ∧ (a.groups shortRow).lifetimeChargeNs = 2000 ∧
      ∀ more, ∃ answers, run step a more = some (answers, a) := by
  obtain ⟨responses, a, hrun, herror, hcell⟩ : ∃ responses a,
      run step boot (shortRun ++ [.service 0 (some (tick 4000))]) = some (responses, a) ∧
        a.header.error = some .clockRegression ∧
        (a.groups shortRow).lifetimeChargeNs = 2000 := by
    decide +kernel
  exact ⟨responses, a, hrun, herror, hcell, sealed_final hrun (by simp [herror])⟩

end Cellos.CpuAccounting
