import Cellos.Charge.Gate

/-!
# Cellos.Charge.Balance

The charges of a gate balance.

`Balanced` is the invariant: the charged total of each dimension is what the obligations
hold, their base plus what is pending, and each obligation is `Settled`, which says what
its amounts are to each other in each stage of its life.  `call_move` says once what a call
does to a balanced gate: it fails and changes nothing, or makes one `Move`.
-/

namespace Cellos.Charge

open Lib List
open Option hiding bind_assoc

variable {call : Call} {id : Id16} {ob : Obligation} {line : Line}

/-- Two words computed one by one are the two words of a vector. -/
theorem vec_add (a b : Amounts) : ![a 0 + b 0, a 1 + b 1] = a + b :=
  funext (Fin.forall_fin_two.mpr ⟨rfl, rfl⟩)

theorem vec_sub (a b : Amounts) : ![a 0 - b 0, a 1 - b 1] = a - b :=
  funext (Fin.forall_fin_two.mpr ⟨rfl, rfl⟩)

/-! ## what obligations hold -/

/-- What an obligation holds of a dimension's charge. -/
def Obligation.held (ob : Obligation) (d : Fin 2) : Nat := ob.baseVector d + ob.pendingPositive d

/-- What a slot holds. -/
def slotHeld (d : Fin 2) (slot : Option Obligation) : Nat := slot.elim 0 fun ob => ob.held d

def slotCount (slot : Option Obligation) : Nat := slot.elim 0 fun _ => 1

/-- What the obligation of that id holds; nothing when there is none. -/
def AuthorityGate.held (gate : AuthorityGate) (id : Id16) (d : Fin 2) : Nat :=
  slotHeld d (gate.findObligation id)

open AuthorityGate

/-- A resize in progress: the growth is pending, or it is in the base and the surplus is still to
be credited. -/
structure ResizeOp.Underway (op : ResizeOp) (ob : Obligation) : Prop where
  status : ob.status = .applied
  ahead : op.applied = false → ob.pendingPositive = op.globalDebit ∧
    (∀ d, op.targetVector d ≤ ob.baseVector d + op.globalDebit d) ∧ op.credited = 0
  behind : op.applied = true → ob.pendingPositive = 0 ∧ ob.effectiveVector = op.targetVector ∧
    ∀ d, op.targetVector d ≤ ob.baseVector d ∧ ob.baseVector d + op.credited d < 2 ^ 64
  steady : op.applied = false → ob.baseVector = ob.effectiveVector

/-- What the amounts of an obligation are to each other. -/
structure Obligation.Settled (ob : Obligation) : Prop where
  idle : ob.resize = none → ob.pendingPositive = 0
  level : ob.status = .applied → ob.resize = none → ob.baseVector = ob.effectiveVector
  underway : ∀ op, ob.resize = some op → op.Underway ob
  gone : ob.status = .released → ob.baseVector = 0

theorem Obligation.Settled.resize_eq_none (h : ob.Settled)
    (hstatus : ob.status ≠ .applied) : ob.resize = none := by
  cases hop : ob.resize with
  | none => rfl
  | some op => exact absurd (h.underway op hop).status hstatus

/-- The invariant of the gate. -/
structure AuthorityGate.Balanced (gate : AuthorityGate) : Prop where
  total : ∀ d, gate.charged d = tally (slotHeld d) gate.obligations
  within : ∀ d, gate.charged d ≤ gate.limit d
  word : ∀ d, gate.charged d < 2 ^ 64
  count : gate.obligationCount = tally slotCount gate.obligations
  unique : KeysApart Obligation.id gate.obligations
  settled : ∀ i ob, gate.obligations i = some ob → ob.Settled

namespace AuthorityGate

variable {gate : AuthorityGate}

theorem put_put (i : Fin maxObligations) (ob ob' : Obligation) :
    (gate.put i ob).put i ob' = gate.put i ob' := by
  simp [put]

theorem findObligationIndex_eq_some (h : gate.findObligationIndex id = some i) :
    ∃ ob, gate.obligations i = some ob ∧ ob.id = id := by
  have hany := List.find?_some h
  simpa [Option.any_eq_true] using hany

theorem findObligationIndex_eq_none :
    gate.findObligationIndex id = none ↔ ∀ i ob, gate.obligations i = some ob → ob.id ≠ id := by
  unfold findObligationIndex
  rw [List.find?_eq_none]
  constructor
  · intro h i ob hob
    simpa [hob] using h i (mem_finRange i)
  · intro h i _
    cases hob : gate.obligations i with
    | none => simp
    | some ob => simpa using h i ob hob

theorem findObligation_eq_none :
    gate.findObligation id = none ↔ ∀ i ob, gate.obligations i = some ob → ob.id ≠ id := by
  rw [← findObligationIndex_eq_none]
  unfold findObligation
  cases hi : gate.findObligationIndex id with
  | none => simp
  | some =>
    obtain ⟨_, hob, -⟩ := findObligationIndex_eq_some hi
    simp [hob]

theorem findObligation_some (h : gate.findObligation id = some ob) :
    ∃ i, gate.obligations i = some ob ∧ ob.id = id := by
  obtain ⟨i, hi, hob⟩ := bind_eq_some_iff.mp h
  obtain ⟨_, hob', hid⟩ := findObligationIndex_eq_some hi
  rw [hob, some.injEq] at hob'
  exact ⟨i, hob, hob' ▸ hid⟩

theorem findObligation_eq_some (hunique : KeysApart Obligation.id gate.obligations)
    (h : gate.obligations i = some ob) : gate.findObligation ob.id = some ob := by
  cases hfind : gate.findObligation ob.id with
  | none => exact absurd rfl (findObligation_eq_none.mp hfind i ob h)
  | some ob' =>
    obtain ⟨j, hj, hid⟩ := findObligation_some hfind
    have hij : i = j := hunique i j ob ob' h hj hid.symm
    rw [← hij, h] at hj
    exact hj.symm

theorem exists_freeSlot (hcount : tally slotCount gate.obligations < maxObligations) :
    ∃ i, gate.freeSlot = some i := by
  cases hfree : gate.freeSlot with
  | some i => exact ⟨i, rfl⟩
  | none =>
    exfalso
    have hall : ∀ i, slotCount (gate.obligations i) = 1 := by
      intro i
      have hi := List.find?_eq_none.mp hfree i (mem_finRange i)
      cases hob : gate.obligations i with
      | none => simp [hob] at hi
      | some => rfl
    have hfull : tally slotCount gate.obligations = maxObligations := by
      unfold tally
      rw [Finset.sum_congr rfl fun i _ => hall i]
      simp
    omega

end AuthorityGate

/-! ## what a call does -/

/-- The obligation a call names. -/
def Call.id? : Call → Option Id16
  | .reserve r _ _ => some r.id
  | .resolveCreation id _ _ _ | .resize id _ _ _ _ | .resizeApply id _ _ _
  | .shrinkCredit id _ _ _ _ | .cancelResize id _ _ _ | .closeIntent id _ _
  | .releaseOnce id _ _ => some id
  | .prepareAdoption .. | .acceptAdoption .. | .activate .. => none

/-- The writer and the epoch a call presents. -/
def Call.presents : Call → Option (Id32 × Nat)
  | .reserve _ writer epoch | .resolveCreation _ _ writer epoch | .resize _ _ _ writer epoch
  | .resizeApply _ _ writer epoch | .shrinkCredit _ _ _ writer epoch
  | .cancelResize _ _ writer epoch | .closeIntent _ writer epoch | .releaseOnce _ writer epoch
  | .prepareAdoption _ writer epoch | .activate writer epoch => some (writer, epoch)
  | .acceptAdoption .. => none

/-- Whether a call is a `releaseOnce` of the obligation. -/
def Call.releases (id : Id16) : Call → Bool
  | .releaseOnce id' _ _ => id' = id
  | _ => false

theorem Call.releases_of_ne (h : call.id? ≠ some id) : call.releases id = false := by
  cases call <;> simp_all [Call.releases, Call.id?]

/-- A call makes one obligation into another. -/
structure Rewrite (call : Call) (ob ob' : Obligation) : Prop where
  names : call.id? = some ob.id
  same_id : ob'.id = ob.id
  settled : ob'.Settled
  alive : ob.status ≠ .released
  released : ob'.status = .released ↔ call.releases ob.id = true

/-- What a call that succeeds does to a balanced gate. -/
inductive Move (gate : AuthorityGate) : Call → AuthorityGate → Prop where
  | reserved {r : Reservation} {writer : Id32} {epoch : Nat} {slot : Fin maxObligations}
      (hgate : writer = gate.writer ∧ epoch = gate.epoch)
      (hfree : gate.obligations slot = none)
      (hnew : ∀ i ob, gate.obligations i = some ob → ob.id ≠ r.id)
      (hwithin : ∀ d, gate.charged d + r.vector d ≤ gate.limit d)
      (hword : ∀ d, gate.charged d + r.vector d < 2 ^ 64) :
      Move gate (.reserve r writer epoch)
        { gate.put slot r.obligation with
          charged := gate.charged + r.vector, obligationCount := gate.obligationCount + 1 }
  | rewritten {call : Call} {i : Fin maxObligations} {ob ob' : Obligation} {charged : Amounts}
      (hgate : call.presents = some (gate.writer, gate.epoch))
      (hslot : gate.obligations i = some ob)
      (hrewrite : Rewrite call ob ob')
      (hbalance : ∀ d, charged d + ob.held d = gate.charged d + ob'.held d)
      (hwithin : ∀ d, charged d ≤ gate.limit d)
      (hword : ∀ d, charged d < 2 ^ 64) :
      Move gate call { gate.put i ob' with charged := charged }
  | fenced {targetAuthority writer : Id32} {epoch : Nat}
      (hgate : writer = gate.writer ∧ epoch = gate.epoch) :
      Move gate (.prepareAdoption targetAuthority writer epoch) { gate with gateStatus := .fenced }
  | adopted {newWriter : Id32} {newEpoch : Nat} : Move gate (.acceptAdoption newWriter newEpoch)
        { gate with writer := newWriter, epoch := newEpoch, gateStatus := .reconciling }
  | activated {writer : Id32} {epoch : Nat} (hgate : writer = gate.writer ∧ epoch = gate.epoch) :
      Move gate (.activate writer epoch) { gate with gateStatus := .open }

/-- How a call may fail: in the gate it was made on, and not at an unchecked operation. -/
def Unchanged (gate : AuthorityGate) (stop : Stop) (gate' : AuthorityGate) : Prop :=
  gate' = gate ∧ stop ≠ .wraps

/-- The rest of a call made on `gate`, which has reached the state `now`. -/
def Goes {α : Type} (gate now : AuthorityGate) (prog : Act α) (Q : α → AuthorityGate → Prop) :
    Prop :=
  Triple (· = now) prog Q (Unchanged gate)

namespace Goes

variable {α β : Type}

theorem get_bind (h : Goes gate now (rest now) Q) : Goes gate now (get >>= rest) Q :=
  Triple.get_bind fun _ hs => hs ▸ h

open Triple

theorem of_modify (h : Q .unit (f now)) : Goes gate now (modify f) Q := modify fun _ hs => hs ▸ h

theorem modify_bind (h : Goes gate (f now) (rest ()) Q) : Goes gate now (modify f >>= rest) Q :=
  Triple.modify_bind fun _ ⟨_, hs, ht⟩ => h _ (hs ▸ ht)

/-- A check may refuse as long as the call has not written anything. -/
theorem refuse_bind [Decidable c] (h : c → Goes gate gate (rest b) Q) :
    Goes gate gate (attempt (if c then .ok b else .error (.refused error)) >>= rest) Q := by
  by_cases hc : c
  · exact attempt_ok_bind (if_pos hc) (h hc)
  · exact attempt_error_bind (if_neg hc) fun s hs => ⟨hs, by simp⟩

theorem ensure_bind [Decidable c]
    (h : c → Goes gate gate (rest ()) Q) : Goes gate gate (ensure c error >>= rest) Q :=
  refuse_bind h

theorem checkedAdd_bind (h : a + b < 2 ^ 64 → Goes gate gate (rest (a + b)) Q) :
    Goes gate gate (checkedAdd a b >>= rest) Q :=
  refuse_bind h

theorem checkedSub_bind (h : b ≤ a → Goes gate gate (rest (a - b)) Q) :
    Goes gate gate (checkedSub a b >>= rest) Q :=
  refuse_bind h

theorem plus_bind (hfits : a + b < 2 ^ 64) (h : Goes gate now (rest (a + b)) Q) :
    Goes gate now (plus a b >>= rest) Q :=
  attempt_ok_bind (if_pos hfits) h

theorem minus_bind (hfits : b ≤ a) (h : Goes gate now (rest (a - b)) Q) :
    Goes gate now (minus a b >>= rest) Q :=
  attempt_ok_bind (if_pos hfits) h

theorem checkGate_bind {writer : Id32} {epoch : Nat}
    (h : gate.gateStatus = .open → writer = gate.writer ∧ epoch = gate.epoch →
      Goes gate gate (rest ()) Q) : Goes gate gate (checkGate writer epoch >>= rest) Q := by
  rw [checkGate, bind_assoc]
  refine get_bind ?_
  rw [bind_assoc]
  exact ensure_bind fun hopen => ensure_bind fun hgate => h hopen ⟨hgate.1.symm, hgate.2.symm⟩

theorem lookup_bind
    (h : ∀ i ob, gate.obligations i = some ob → ob.id = id → Goes gate gate (rest (i, ob)) Q) :
    Goes gate gate (lookup id >>= rest) Q := by
  rw [lookup, bind_assoc]
  refine get_bind ?_
  cases hi : gate.findObligationIndex id with
  | none => exact attempt_error_bind rfl fun s hs => ⟨hs, by simp⟩
  | some i =>
    obtain ⟨ob, hob, hid⟩ := findObligationIndex_eq_some hi
    exact attempt_ok_bind (by simp [hob, demand]) (h i ob hob hid)

theorem resizing_bind (h : ∀ op, ob.resize = some op → Goes gate gate (rest op) Q) :
    Goes gate gate (resizing ob >>= rest) Q := by
  unfold resizing
  cases hop : ob.resize with
  | none => exact attempt_error_bind rfl fun s hs => ⟨hs, by simp⟩
  | some op => exact attempt_ok_bind rfl (h op hop)

theorem grownCharge_bind (h : (∀ d, gate.charged d + growth d ≤ gate.limit d) →
      (∀ d, gate.charged d + growth d < 2 ^ 64) →
      Goes gate gate (rest (gate.charged + growth)) Q) :
    Goes gate gate (grownCharge growth >>= rest) Q := by
  simp only [grownCharge, bind_assoc, pure_bind]
  refine get_bind (checkedAdd_bind fun h0 => checkedAdd_bind fun h1 => ensure_bind fun hlimit => ?_)
  rw [vec_add]
  exact h (Fin.forall_fin_two.mpr hlimit) (Fin.forall_fin_two.mpr ⟨h0, h1⟩)

theorem uncharge_bind (hfits : ∀ d, credit d ≤ gate.charged d)
    (h : Goes gate { gate with charged := gate.charged - credit } (rest ()) Q) :
    Goes gate gate (uncharge credit >>= rest) Q := by
  simp only [uncharge, bind_assoc]
  refine get_bind (minus_bind (hfits 0) (modify_bind (minus_bind (hfits 1) (modify_bind ?_))))
  rw [vec_sub]
  exact h

end Goes

/-! ## the calls one by one -/

section

variable {gate : AuthorityGate} {writer : Id32} {epoch : Nat}
variable {ob : Obligation} {call : Call} {gate' : AuthorityGate}

/-- On `gate` a call fails and changes nothing, or makes one move. -/
abbrev AuthorityGate.Moves (gate : AuthorityGate) (call : Call) : Prop :=
  Goes gate gate call.act fun _ t => Move gate call t

theorem presents_eq (hgate : writer = gate.writer ∧ epoch = gate.epoch) :
    some (writer, epoch) = some (gate.writer, gate.epoch) := by
  rw [hgate.1, hgate.2]

variable (hbal : gate.Balanced)

include hbal

theorem AuthorityGate.Balanced.held_le (hslot : gate.obligations i = some ob)
    (d : Fin 2) : ob.held d ≤ gate.charged d := by
  have hle := weight_le_tally (slotHeld d) gate.obligations i
  rw [← hbal.total d, hslot] at hle
  exact hle

theorem Move.lowered
    (hgate : call.presents = some (gate.writer, gate.epoch)) (hslot : gate.obligations i = some ob)
    (hrewrite : Rewrite call ob ob')
    (hbalance : ∀ d, gate.charged d - credit d + ob.held d = gate.charged d + ob'.held d) :
    Move gate call { gate.put i ob' with charged := gate.charged - credit } :=
  .rewritten hgate hslot hrewrite hbalance (fun d => (Nat.sub_le _ _).trans (hbal.within d))
    fun d => lt_of_le_of_lt (Nat.sub_le _ _) (hbal.word d)

omit hbal in
theorem Reservation.settled (r : Reservation) : r.obligation.Settled where
  idle _ := rfl
  level h := by contradiction
  underway op h := by contradiction
  gone h := by contradiction

open Goes

theorem reserve_move (r : Reservation) : gate.Moves (.reserve r writer epoch) := by
  refine checkGate_bind fun _ hgate => get_bind (ensure_bind fun hnew =>
    ensure_bind fun hcount => grownCharge_bind fun hwithin hword =>
      modify_bind ?_)
  have hfew : tally slotCount gate.obligations < maxObligations := hbal.count ▸ hcount
  obtain ⟨_, hslot⟩ := gate.exists_freeSlot hfew
  refine Triple.attempt_ok_bind (demand_eq_ok.mpr hslot) (modify_bind (plus_bind ?_ ?_))
  · unfold maxObligations at hcount
    omega
  · exact of_modify (.reserved hgate (by simpa using List.find?_some hslot)
      (findObligation_eq_none.mp hnew) hwithin hword)

theorem resolveCreation_move (id : Id16) (vector : Amounts) :
    gate.Moves (.resolveCreation id vector writer epoch) := by
  refine checkGate_bind fun _ hgate => lookup_bind fun i ob hslot hid =>
    ensure_bind fun hcheck => of_modify ?_
  have hsettled := hbal.settled i ob hslot
  have hidle : ob.resize = none := hsettled.resize_eq_none fun h => by simp [h] at hcheck
  refine .rewritten (presents_eq hgate) hslot
    ⟨?_, rfl, ⟨?_, ?_, ?_, ?_⟩, ?_, ?_⟩ (fun d => rfl) hbal.within hbal.word
  · exact congrArg some hid.symm
  · exact hsettled.idle
  · exact fun _ _ => hcheck.2
  · intro op hop
    simp [hidle] at hop
  · simp
  · simp [hcheck.1]
  · simp [Call.releases]

theorem resize_move (id key : Id16) (target : Amounts) :
    gate.Moves (.resize id key target writer epoch) := by
  refine checkGate_bind fun _ hgate => lookup_bind fun i ob hslot hid =>
    ensure_bind fun hcheck => grownCharge_bind fun hwithin hword =>
      modify_bind (of_modify ?_)
  have hsettled := hbal.settled i ob hslot
  refine .rewritten (presents_eq hgate) hslot ⟨?_, rfl, ⟨?_, ?_, ?_, ?_⟩, ?_, ?_⟩ ?_ hwithin hword
  · exact congrArg some hid.symm
  · simp
  · simp
  · rintro op hop
    cases hop
    refine ⟨hcheck.1, fun _ => ⟨rfl, fun d => ?_, rfl⟩, by simp, fun _ => ?_⟩
    · simp only [Pi.sub_apply]
      omega
    · exact hsettled.level hcheck.1 hcheck.2
  · simp [hcheck.1]
  · simp [hcheck.1]
  · simp [hcheck.1, Call.releases]
  · intro d
    simp only [Obligation.held, hsettled.idle hcheck.2, Pi.add_apply, Pi.zero_apply]
    omega

omit hbal in
/-- What an applied resize leaves of an obligation is settled, whether or not the base has come
down to the target. -/
theorem settled_behind {op : ResizeOp} {base credited : Amounts} (hstatus : ob.status = .applied)
    (hpending : ob.pendingPositive = 0) (heffective : ob.effectiveVector = op.targetVector)
    (hbase : ∀ d, op.targetVector d ≤ base d ∧ base d + credited d < 2 ^ 64) :
    Obligation.Settled { ob with
      baseVector := base
      resize := if base = op.targetVector then none
        else some { op with credited := credited, applied := true } } where
  idle _ := hpending
  level _ hnone := by
    simp only [ite_eq_left_iff, reduceCtorEq, imp_false, not_not] at hnone
    exact hnone.trans heffective.symm
  underway op' hop := by
    split at hop
    · contradiction
    · cases hop
      exact ⟨hstatus, by simp, fun _ => ⟨hpending, heffective, hbase⟩, by simp⟩
  gone h := by simp [hstatus] at h

theorem resizeApply_move (id key : Id16) : gate.Moves (.resizeApply id key writer epoch) := by
  refine checkGate_bind fun _ hgate => lookup_bind fun i ob hslot hid =>
    resizing_bind fun op hop => ensure_bind fun hcheck => ?_
  have hunderway := (hbal.settled i ob hslot).underway op hop
  obtain ⟨hpending, htarget, hcredited⟩ := hunderway.ahead hcheck.2
  have hfits : ∀ d, ob.baseVector d + ob.pendingPositive d < 2 ^ 64 := fun d =>
    lt_of_le_of_lt (hbal.held_le hslot d) (hbal.word d)
  refine Triple.attempt_ok_bind (if_pos (hfits 0)) (modify_bind
    (Triple.attempt_ok_bind (if_pos (hfits 1)) (of_modify ?_)))
  rw [put_put, vec_add]
  have hbase : ∀ d, op.targetVector d ≤ (ob.baseVector + ob.pendingPositive) d ∧
      (ob.baseVector + ob.pendingPositive) d + op.credited d < 2 ^ 64 := by
    intro d
    rw [hcredited, Pi.add_apply, hpending]
    exact ⟨htarget d, by simpa [hpending] using hfits d⟩
  refine .rewritten (presents_eq hgate) hslot
    ⟨congrArg some hid.symm, rfl, ?_, ?_, ?_⟩ ?_ hbal.within hbal.word
  · exact @settled_behind { ob with pendingPositive := 0, effectiveVector := op.targetVector } op _
      op.credited hunderway.status rfl rfl hbase
  · simp [hunderway.status]
  · simp [hunderway.status, Call.releases]
  · intro d
    simp [Obligation.held]

theorem shrinkCredit_move (id key : Id16) (installment : Amounts) :
    gate.Moves (.shrinkCredit id key installment writer epoch) := by
  refine checkGate_bind fun _ hgate => lookup_bind fun i ob hslot hid =>
    resizing_bind fun op hop => ensure_bind fun hcheck =>
      ensure_bind fun hinstallment => ?_
  have hunderway := (hbal.settled i ob hslot).underway op hop
  obtain ⟨hpending, heffective, htarget⟩ := hunderway.behind hcheck.2
  have hsurplus : ∀ d, installment d + op.targetVector d ≤ ob.baseVector d := by
    have hle : ∀ d, installment d ≤ ob.baseVector d - op.targetVector d :=
      Fin.forall_fin_two.mpr ⟨hinstallment.1, hinstallment.2.1⟩
    intro d
    have := hle d
    have := (htarget d).1
    omega
  have hle : ∀ d, installment d ≤ ob.baseVector d := fun d => by
    have := hsurplus d
    omega
  have hcharged : ∀ d, ob.baseVector d ≤ gate.charged d := fun d => by
    have := hbal.held_le hslot d
    rw [Obligation.held] at this
    omega
  have hfits : ∀ d, op.credited d + installment d < 2 ^ 64 := fun d => by
    have := hle d
    have := (htarget d).2
    omega
  refine uncharge_bind (fun d => (hle d).trans (hcharged d)) (minus_bind (hle 0)
    (minus_bind (hle 1) (plus_bind (hfits 0) (plus_bind (hfits 1) (of_modify ?_)))))
  rw [vec_sub, vec_add]
  have hbase : ∀ d, op.targetVector d ≤ (ob.baseVector - installment) d ∧
      (ob.baseVector - installment) d + (op.credited + installment) d < 2 ^ 64 := by
    intro d
    have := hsurplus d
    have := (htarget d).2
    simp only [Pi.sub_apply, Pi.add_apply]
    omega
  refine .lowered hbal (presents_eq hgate) hslot ⟨congrArg some hid.symm, rfl, ?_, ?_, ?_⟩ ?_
  · have hsettled := settled_behind hunderway.status hpending heffective hbase
    rwa [← hcheck.2] at hsettled
  · simp [hunderway.status]
  · simp [hunderway.status, Call.releases]
  · intro d
    have := hle d
    have := hcharged d
    simp only [Obligation.held, Pi.sub_apply]
    omega

theorem cancelResize_move (id key : Id16) : gate.Moves (.cancelResize id key writer epoch) := by
  refine checkGate_bind fun _ hgate => lookup_bind fun i ob hslot hid =>
    resizing_bind fun op hop => ensure_bind fun hcheck => ?_
  have hunderway := (hbal.settled i ob hslot).underway op hop
  obtain ⟨hpending, -⟩ := hunderway.ahead hcheck.2
  have hheld : ∀ d, ob.baseVector d + op.globalDebit d ≤ gate.charged d := fun d => by
    rw [← hpending]
    exact hbal.held_le hslot d
  refine uncharge_bind (fun d => (Nat.le_add_left _ _).trans (hheld d)) (of_modify ?_)
  refine .lowered hbal (presents_eq hgate) hslot
    ⟨congrArg some hid.symm, rfl, ⟨?_, ?_, ?_, ?_⟩, ?_, ?_⟩ ?_
  · exact fun _ => rfl
  · exact fun _ _ => hunderway.steady hcheck.2
  · simp
  · simp [hunderway.status]
  · simp [hunderway.status]
  · simp [hunderway.status, Call.releases]
  · intro d
    have := hheld d
    simp only [Obligation.held, hpending, Pi.zero_apply]
    omega

theorem closeIntent_move (id : Id16) : gate.Moves (.closeIntent id writer epoch) := by
  refine checkGate_bind fun _ hgate => lookup_bind fun i ob hslot hid =>
    ensure_bind fun hcheck => of_modify ?_
  have hsettled := hbal.settled i ob hslot
  refine .rewritten (presents_eq hgate) hslot
    ⟨congrArg some hid.symm, rfl, ⟨?_, ?_, ?_, ?_⟩, ?_, ?_⟩ (fun d => rfl) hbal.within hbal.word
  · exact hsettled.idle
  · simp
  · simp [hcheck.2]
  · simp
  · simp [hcheck.1]
  · simp [Call.releases]

theorem releaseOnce_move (id : Id16) : gate.Moves (.releaseOnce id writer epoch) := by
  refine checkGate_bind fun _ hgate => lookup_bind fun i ob hslot hid =>
    ensure_bind fun hcheck => get_bind (checkedSub_bind fun h0 =>
      checkedSub_bind fun h1 => modify_bind (of_modify ?_))
  have hsettled := hbal.settled i ob hslot
  have hbase : ∀ d, ob.baseVector d ≤ gate.charged d := Fin.forall_fin_two.mpr ⟨h0, h1⟩
  rw [vec_sub]
  refine .lowered hbal (presents_eq hgate) hslot
    ⟨congrArg some hid.symm, rfl, ⟨?_, ?_, ?_, ?_⟩, ?_, ?_⟩ ?_
  · exact hsettled.idle
  · simp
  · simp [hcheck.2]
  · simp
  · simp [hcheck.1]
  · simp [Call.releases, hid]
  · intro d
    have := hbase d
    simp only [Obligation.held, hsettled.idle hcheck.2, Pi.zero_apply]
    omega

omit hbal in
theorem activate_move : gate.Moves (.activate writer epoch) :=
  get_bind (ensure_bind fun _ => ensure_bind fun hgate => ensure_bind fun _ =>
    of_modify (.activated ⟨hgate.1.symm, hgate.2.symm⟩))

/-- **A call makes one move** on a balanced gate, or it fails and changes nothing, without any
unchecked operation wrapping. -/
theorem call_move (call : Call) : gate.Moves call := by
  cases call with
  | reserve r => exact reserve_move hbal r
  | resolveCreation id vector => exact resolveCreation_move hbal id vector
  | resize id key target => exact resize_move hbal id key target
  | resizeApply id key => exact resizeApply_move hbal id key
  | shrinkCredit id key installment => exact shrinkCredit_move hbal id key installment
  | cancelResize id key => exact cancelResize_move hbal id key
  | closeIntent id => exact closeIntent_move hbal id
  | releaseOnce id => exact releaseOnce_move hbal id
  | prepareAdoption =>
    exact checkGate_bind fun _ hgate => of_modify (.fenced hgate)
  | acceptAdoption => exact of_modify .adopted
  | activate => exact activate_move

/-! ## what a move keeps -/

/-- A gate stays balanced when a slot is written and the total moves with what it holds. -/
theorem AuthorityGate.Balanced.put {charged : Amounts} {count : Nat}
    (hcharged : ∀ d, charged d + slotHeld d (gate.obligations i) = gate.charged d + ob.held d)
    (hcount : count + slotCount (gate.obligations i) = gate.obligationCount + 1)
    (hwithin : ∀ d, charged d ≤ gate.limit d) (hword : ∀ d, charged d < 2 ^ 64)
    (hother : ∀ j ob', j ≠ i → gate.obligations j = some ob' → ob'.id ≠ ob.id)
    (hsettled : ob.Settled) :
    Balanced { gate.put i ob with charged := charged, obligationCount := count } where
  total d := by
    have htally := tally_update (slotHeld d) gate.obligations i (some ob)
    have hmoved := hcharged d
    rw [hbal.total d] at hmoved
    exact Nat.add_right_cancel (hmoved.trans htally.symm)
  within := hwithin
  word := hword
  count := by
    have htally := tally_update slotCount gate.obligations i (some ob)
    rw [hbal.count] at hcount
    exact Nat.add_right_cancel (hcount.trans htally.symm)
  unique := KeysApart.update hbal.unique hother
  settled j ob' hj := by
    rcases update_eq_some hj with ⟨rfl, rfl⟩ | ⟨-, hj'⟩
    · exact hsettled
    · exact hbal.settled j ob' hj'

/-- **Step lemma**: a move keeps the gate balanced. -/
theorem Move.balanced (hmove : Move gate call gate') : gate'.Balanced := by
  cases hmove with
  | @reserved r _ _ _ _ hfree hnew hwithin hword =>
    refine hbal.put (fun d => ?_) ?_ hwithin hword (fun j ob' _ => hnew j ob') r.settled
    · rw [hfree]
      rfl
    · rw [hfree]
      rfl
  | @rewritten _ i ob _ _ _ hslot hrewrite hbalance hwithin hword =>
    refine hbal.put (fun d => ?_) ?_ hwithin hword (fun j other hne hj hid => ?_) hrewrite.settled
    · rw [hslot]
      exact hbalance d
    · rw [hslot]
      rfl
    · exact hne (hbal.unique j i other ob hj hslot (hid.trans hrewrite.same_id))
  | fenced | adopted | activated =>
    exact { hbal with }

/-! ## the account of one obligation -/

/-- Whether the obligation of that id is released. -/
def AuthorityGate.released (gate : AuthorityGate) (id : Id16) : Bool :=
  (gate.findObligation id).any fun ob => ob.status = .released

omit hbal in
/-- Writing a slot is seen under the id of what is written, and nowhere else. -/
theorem findObligation_put (hbal' : gate'.Balanced)
    (hput : gate'.obligations = (gate.put i ob).obligations)
    (hid : ∀ old, gate.obligations i = some old → old.id = ob.id) :
    gate'.findObligation ob.id = some ob ∧
      ∀ id, id ≠ ob.id → gate'.findObligation id = gate.findObligation id := by
  have hi : gate'.obligations i = some ob := by
    rw [hput]
    simp [put]
  refine ⟨findObligation_eq_some hbal'.unique hi, fun id hne => ?_⟩
  cases hfind : gate.findObligation id with
  | none =>
    rw [findObligation_eq_none] at hfind ⊢
    intro j other hj
    rw [hput] at hj
    rcases update_eq_some hj with ⟨rfl, rfl⟩ | ⟨-, hj'⟩
    · exact hne.symm
    · exact hfind j other hj'
  | some other =>
    obtain ⟨j, hj, rfl⟩ := findObligation_some hfind
    have hji : j ≠ i := by
      rintro rfl
      exact hne (hid other hj)
    have hj' : gate'.obligations j = some other := by
      rw [hput]
      simpa [put, hji] using hj
    exact findObligation_eq_some hbal'.unique hj'

/-- The total moves by as much as what the obligation holds, and it is released exactly by a
release. -/
structure Booked (gate : AuthorityGate) (call : Call) (gate' : AuthorityGate) (id : Id16) : Prop
    where
  moved : ∀ d, gate'.charged d + gate.held id d = gate.charged d + gate'.held id d
  alive : gate.released id = false
  releases : gate'.released id = call.releases id

omit hbal in
theorem Rewrite.id_eq (hrewrite : Rewrite call ob ob')
    (hslot : gate.obligations i = some ob) (old : Obligation) (hold : gate.obligations i = some old) :
    old.id = ob'.id := by
  rw [hslot, some.injEq] at hold
  rw [← hold, hrewrite.same_id]

theorem Move.booked (hmove : Move gate call gate')
    (hid : call.id? = some id) : Booked gate call gate' id := by
  have hbal' := hmove.balanced hbal
  cases hmove with
  | @reserved r _ _ slot _ hfree hnew =>
    cases hid
    have hold : gate.findObligation r.id = none := findObligation_eq_none.mpr hnew
    obtain ⟨hfind, -⟩ := findObligation_put hbal'
      (rfl : _ = (gate.put slot r.obligation).obligations) (by simp [hfree])
    change findObligation _ r.id = some r.obligation at hfind
    refine ⟨fun d => ?_, ?_, ?_⟩
    · unfold held
      rw [hold, hfind]
      rfl
    · simp [released, hold]
    · unfold released
      rw [hfind]
      rfl
  | @rewritten _ i ob ob' _ _ hslot hrewrite hbalance =>
    obtain rfl : ob.id = id := by simpa [hrewrite.names] using hid
    have hold : gate.findObligation ob.id = some ob := findObligation_eq_some hbal.unique hslot
    obtain ⟨hfind, -⟩ := findObligation_put hbal' (rfl : _ = (gate.put i ob').obligations)
      (hrewrite.id_eq hslot)
    rw [hrewrite.same_id] at hfind
    refine ⟨fun d => ?_, ?_, ?_⟩
    · unfold held
      rw [hold, hfind]
      exact hbalance d
    · simp [released, hold, hrewrite.alive]
    · unfold released
      rw [hfind, any_some, Bool.eq_iff_iff, decide_eq_true_eq]
      exact hrewrite.released
  | fenced | adopted | activated => contradiction

theorem Move.apart (hmove : Move gate call gate')
    (hid : call.id? ≠ some id) : gate'.findObligation id = gate.findObligation id := by
  have hbal' := hmove.balanced hbal
  cases hmove with
  | @reserved r _ _ slot _ hfree =>
    have hput := findObligation_put hbal' (rfl : _ = (gate.put slot r.obligation).obligations)
      (by simp [hfree])
    exact hput.2 id fun heq => hid (congrArg some heq.symm)
  | @rewritten _ i _ ob' _ _ hslot hrewrite =>
    have hput := findObligation_put hbal' (rfl : _ = (gate.put i ob').obligations)
      (hrewrite.id_eq hslot)
    refine hput.2 id fun heq => hid ?_
    rw [hrewrite.names, heq, hrewrite.same_id]
  | fenced | adopted | activated => rfl

omit hbal

theorem Move.limit_eq (hmove : Move gate call gate') : gate'.limit = gate.limit := by
  cases hmove <;> rfl

end

/-! ## every run -/

/-- What a line debits to an obligation. -/
def Line.debit (id : Id16) (d : Fin 2) (line : Line) : Nat :=
  if line.call.id? = some id then line.after d - line.before d else 0

/-- What a line credits to an obligation. -/
def Line.credit (id : Id16) (d : Fin 2) (line : Line) : Nat :=
  if line.call.id? = some id then line.before d - line.after d else 0

/-- A line on which the obligation was released. -/
def Line.releases (id : Id16) (line : Line) : Bool := line.call.releases id && line.outcome = .done

/-- What the lines of a transcript have to do with the gate they lead to. -/
structure Account (limit : Amounts) (lines : List Line) (gate : AuthorityGate) : Prop where
  balanced : gate.Balanced
  limit_eq : gate.limit = limit
  unwrapped : ∀ line ∈ lines, line.outcome ≠ .stopped .wraps
  booked : ∀ id d, (lines.map (Line.debit id d)).sum =
    (lines.map (Line.credit id d)).sum + gate.held id d
  once : ∀ id, lines.countP (Line.releases id) = if gate.released id then 1 else 0

theorem new_account (ledgerId genesisId : Id32) (epoch : Nat) (writer : Id32) (limit : Amounts) :
    Account limit [] (.new ledgerId genesisId epoch writer limit) := by
  have hfind : ∀ id, (new ledgerId genesisId epoch writer limit).findObligation id =
      none := fun id => findObligation_eq_none.mpr fun i ob hi => by
    simp [new] at hi
  refine ⟨⟨?_, fun d => Nat.zero_le _, fun d => by simp [new], ?_, .empty, ?_⟩, rfl, ?_, ?_, ?_⟩
  · exact fun d => (tally_eq_zero fun _ => rfl).symm
  · exact (tally_eq_zero fun _ => rfl).symm
  · intro i ob hi
    simp [new] at hi
  · simp
  · intro id d
    simp [held, hfind, slotHeld]
  · intro id
    simp [released, hfind]

theorem step_cases (hbal : gate.Balanced) (h : step gate call = some (line, gate')) :
    line.call = call ∧ line.before = gate.charged ∧ line.after = gate'.charged ∧
      ((line.outcome = .done ∧ Move gate call gate') ∨
        (∃ error, line.outcome = .stopped (.refused error)) ∧ gate' = gate) := by
  have hspec := call_move hbal call gate rfl
  unfold step at h
  split at h
  · next hact =>
    rw [hact] at hspec
    cases h
    exact ⟨rfl, rfl, rfl, .inl ⟨rfl, hspec⟩⟩
  · next stop t hact =>
    rw [hact] at hspec
    cases h
    obtain ⟨hsame, hstop⟩ := hspec
    cases stop with
    | refused error => exact ⟨rfl, rfl, rfl, .inr ⟨⟨error, rfl⟩, hsame⟩⟩
    | wraps => exact absurd rfl hstop

/-- **Step lemma**: the account is kept. -/
theorem account_step {limit : Amounts}
    (hacc : Account limit lines gate) (h : step gate call = some (line, gate')) :
    Account limit (lines ++ [line]) gate' := by
  obtain ⟨hcall, hbefore, hafter, ⟨hdone, hmove⟩ | ⟨⟨_, hstopped⟩, rfl⟩⟩ :=
    step_cases hacc.balanced h
  · have hbooked : ∀ id d, line.debit id d + gate.held id d =
        line.credit id d + gate'.held id d := by
      intro id d
      unfold Line.debit Line.credit
      rw [hcall, hbefore, hafter]
      split
      · next hid =>
        have := (hmove.booked hacc.balanced hid).moved d
        omega
      · next hid =>
        unfold held
        rw [hmove.apart hacc.balanced hid]
    refine ⟨hmove.balanced hacc.balanced, hmove.limit_eq.trans hacc.limit_eq, ?_, ?_, ?_⟩
    · exact forall_mem_concat hacc.unwrapped (by simp [hdone])
    · intro id d
      have := hacc.booked id d
      have := hbooked id d
      simp only [map_append, sum_append, map_cons, map_nil, sum_cons, sum_nil]
      omega
    · intro id
      have hreleases : line.releases id = call.releases id := by
        simp [Line.releases, hcall, hdone]
      rw [countP_append, hacc.once id, countP_singleton, hreleases]
      by_cases hid : call.id? = some id
      · have hbook := hmove.booked hacc.balanced hid
        rw [hbook.alive, hbook.releases]
        simp
      · unfold released
        rw [hmove.apart hacc.balanced hid, Call.releases_of_ne hid]
        simp
  · have hnothing : ∀ id d, line.debit id d = 0 ∧ line.credit id d = 0 := by
      intro id d
      simp [Line.debit, Line.credit, hbefore, hafter]
    refine ⟨hacc.balanced, hacc.limit_eq, ?_, ?_, ?_⟩
    · exact forall_mem_concat hacc.unwrapped (by simp [hstopped])
    · intro id d
      simpa [hnothing] using hacc.booked id d
    · intro id
      have hreleases : line.releases id = false := by simp [Line.releases, hstopped]
      rw [countP_append, hacc.once id, countP_singleton, hreleases]
      simp

/-- **Charges balance exactly**: in every state a run of calls reaches, both charged totals are
what the obligations hold and stay within the limit, no unchecked operation has wrapped, an
applied obligation with no resize in progress has its base effective, the credits and what is
still held make up the debits of each obligation, which is released at most once and then holds
nothing, and a call that fails changes nothing. -/
theorem charges_balance {ledgerId genesisId : Id32} {epoch : Nat} {writer : Id32} {limit : Amounts}
    {calls : List Call} {lines : List Line} {gate : AuthorityGate}
    (hrun : run step (.new ledgerId genesisId epoch writer limit) calls = some (lines, gate)) :
    (∀ d, gate.charged d = tally (slotHeld d) gate.obligations ∧ gate.charged d ≤ limit d) ∧
    (∀ line ∈ lines, line.outcome ≠ .stopped .wraps) ∧
    (∀ i ob, gate.obligations i = some ob → ob.status = .applied → ob.resize = none →
      ob.baseVector = ob.effectiveVector) ∧
    (∀ id, (∀ d, (lines.map (Line.debit id d)).sum =
        (lines.map (Line.credit id d)).sum + gate.held id d) ∧
      lines.countP (Line.releases id) = (if gate.released id then 1 else 0) ∧
      (gate.released id = true → ∀ d, gate.held id d = 0)) ∧
    (∀ call line gate', step gate call = some (line, gate') → line.outcome ≠ .done →
      gate' = gate) := by
  have hacc : Account limit lines gate := run_history (fun _ _ _ _ _ => account_step) hrun
      (new_account ledgerId genesisId epoch writer limit)
  have hbal := hacc.balanced
  refine ⟨fun d => ⟨hbal.total d, hacc.limit_eq ▸ hbal.within d⟩, hacc.unwrapped,
    fun i ob hi => (hbal.settled i ob hi).level, fun id => ⟨hacc.booked id, hacc.once id, ?_⟩, ?_⟩
  · intro hreleased d
    obtain ⟨ob, hfind, hstatus⟩ : ∃ ob, gate.findObligation id = some ob ∧
        ob.status = .released := by
      simpa [released, Option.any_eq_true] using hreleased
    obtain ⟨i, hi, -⟩ := findObligation_some hfind
    have hsettled := hbal.settled i ob hi
    have hidle : ob.resize = none := hsettled.resize_eq_none (by simp [hstatus])
    unfold held
    rw [hfind]
    show ob.baseVector d + ob.pendingPositive d = 0
    rw [hsettled.gone hstatus, hsettled.idle hidle]
    rfl
  · intro call line gate' hstep hfailed
    obtain ⟨-, -, -, ⟨hdone, -⟩ | ⟨-, hsame⟩⟩ := step_cases hbal hstep
    · exact absurd hdone hfailed
    · exact hsame

/-- An obligation that grows in one dimension and shrinks in the other, is credited, closed and
released. -/
def sampleCalls : List Call := [.reserve ⟨1, 1, 2, 3, 1, 4, ![10, 20]⟩ 7 1,
    .resolveCreation 1 ![10, 20] 7 1,
    .resize 1 5 ![15, 5] 7 1,
    .resizeApply 1 5 7 1,
    .shrinkCredit 1 5 ![0, 15] 7 1,
    .closeIntent 1 7 1,
    .releaseOnce 1 7 1,
    .releaseOnce 1 7 1]

theorem charges_balance_released : ∃ lines gate,
    run step (.new 1 2 1 7 ![100, 100]) sampleCalls = some (lines, gate) ∧
      gate.released 1 = true ∧ gate.charged 0 = tally (slotHeld 0) gate.obligations := by
  obtain ⟨lines, gate, hrun, hreleased⟩ : ∃ lines gate,
      run step (.new 1 2 1 7 ![100, 100]) sampleCalls = some (lines, gate) ∧
        gate.released 1 = true := by
    decide +kernel
  exact ⟨lines, gate, hrun, hreleased, ((charges_balance hrun).1 0).1⟩

end Cellos.Charge
