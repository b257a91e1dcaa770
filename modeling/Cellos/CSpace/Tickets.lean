import Cellos.CSpace.Runs

/-!
# Cellos.CSpace.Tickets

The life of a ticket over whole runs.

`Op.request` reads a call as an action on a ticket, whichever entry point it came
through.  A revoke request cuts exactly the target and the in-use slots below it, and
none of their tickets ever verifies or admits a derivation again; the tickets one
authority issues increase strictly; and a ticket that is no longer live stays refused,
whatever slot its index is given to.
-/

namespace Cellos.CSpace

open Lib CellAuthority List Option

/-- What a control request asks for. -/
inductive Action where
  | close | derive | revoke | query

/-- The action words of the wire format. -/
def Action.ofWord : Nat → Option Action
  | 0 => some .close
  | 1 => some .derive
  | 2 => some .revoke
  | 3 => some .query
  | _ => none

/-- The action and the ticket a call is about, if it is about one. -/
def Op.request : Op → Option (Action × Nat)
  | .publish _ => none
  | .allocate _ _ _ _ _ _ parentTicket => parentTicket.map fun ticket => (.derive, ticket)
  | .close _ ticket => some (.close, ticket)
  | .revoke _ ticket => some (.revoke, ticket)
  | .retire _ => none
  | .handleControl _ buf => match HandleControlRequest.decode buf with
    | .error _ => none
    | .ok req => (Action.ofWord req.action).map fun action => (action, req.ticket)
  | .cspaceControl _ buf => match CSpaceRequest.decode buf with
    | .error _ => none
    | .ok req => (Action.ofWord req.action).map fun action => (action, req.parentTicket)

/-- The word an action is sent as. -/
def Action.word : Action → Nat
  | .close => 0
  | .derive => 1
  | .revoke => 2
  | .query => 3

/-- The grant is refused as malformed before the ticket is looked at: CSpace authority with rights
outside the class bits, or a CSpace derivation with masks. -/
def Op.malformedGrant : Op → Prop
  | .allocate _ _ _ kind rights _ _ => kind = .cSpaceAuthority ∧ rights &&& ~~~0x1FF#32 ≠ 0#32
  | .cspaceControl _ buf => match CSpaceRequest.decode buf with
    | .error _ => False
    | .ok req => req.mmioMask ≠ 0 ∨ req.blockRegionMask ≠ 0
  | _ => False

/-- The forms of a request: an in-kernel call, or bytes that either entry point
dispatches, with what its derive arm has `derived`. -/
inductive Asks : Op → Action → Nat → Prop
  | derive : Asks (.allocate key holder issuer kind rights expiry (some ticket)) .derive ticket
  | close : Asks (.close key ticket) .close ticket
  | revoke : Asks (.revoke key ticket) .revoke ticket
  | control {op : Op} (derived : CellAuthority → ControlResultHeader × CellAuthority)
      (hdispatch : ∀ a, op.onAuthority a =
        (dispatchControl a action.word ticket (derived a)).map fun p => (.header p.1, p.2))
      (houtcome : ∀ a, WellFormed a → DeriveOutcome a ticket (derived a))
      (hstale : ∀ a, a.verifyTicket ticket = .error .stale → ∃ status,
        derived a = (.new status ticket 32 0, a) ∧
          (status = .stale ∨ op.malformedGrant ∧ status = .invalid)) : Asks op action ticket

variable {action : Action} {ticket : Nat} {op : Op} {a a' : CellAuthority} {r : Response}
  {t t' : AuthorityTable} {key : Key}

attribute [simp] Op.request Op.onAuthority

theorem ofWord_eq_some (h : Action.ofWord n = some action) : n = action.word := by
  unfold Action.ofWord at h
  split at h <;> simp at h <;> subst h <;> rfl

theorem asks_of_request (h : op.request = some (action, ticket)) : Asks op action ticket := by
  cases op with
  | allocate =>
    obtain ⟨_, rfl, heq⟩ := map_eq_some_iff.mp h
    cases heq
    exact .derive
  | close | revoke =>
    cases h
    constructor
  | handleControl key buf =>
    simp only [Op.request] at h
    split at h
    · contradiction
    next req hd =>
    obtain ⟨_, hact, heq⟩ := map_eq_some_iff.mp h
    cases heq
    refine .control (fun a => handleDerive a key.1 key.2 req) (fun a => ?_)
      (fun a ha => handleDerive_outcome ha key.1 key.2 req) fun a hv => ?_
    · simp only [Op.onAuthority, hd, ← ofWord_eq_some hact]
      rfl
    · exact ⟨.stale, by simp [handleDerive, hv], .inl rfl⟩
  | cspaceControl key buf =>
    simp only [Op.request] at h
    split at h
    · contradiction
    next req hd =>
    obtain ⟨_, hact, heq⟩ := map_eq_some_iff.mp h
    cases heq
    refine .control (fun a => cspaceDerive a key.1 key.2 req) (fun a => ?_)
      (fun a ha => cspaceDerive_outcome ha key.1 key.2 req) fun a hv => ?_
    · simp only [Op.onAuthority, hd, ← ofWord_eq_some hact]
      rfl
    · by_cases hmask : req.mmioMask ≠ 0 ∨ req.blockRegionMask ≠ 0
      · exact ⟨.invalid, if_pos hmask, .inr ⟨by simpa only [Op.malformedGrant, hd], rfl⟩⟩
      · exact ⟨.stale, by simp only [cspaceDerive, if_neg hmask, hv], .inl rfl⟩
  | publish | retire => simp at h

theorem ne_publish_of_request (h : op.request = some x) (key : Key) : op ≠ .publish key := by
  rintro rfl
  simp at h

/-! ## derivation requests -/

open Response

/-- A derivation request is refused and nothing changes, or it publishes below the
live, uncut slot of its ticket. -/
theorem derive_cases (ha : WellFormed a) (hreq : op.request = some (.derive, ticket))
    (he : op.onAuthority a = some (r, a')) : (r.issued = none ∧ a' = a) ∨
    ∃ idx slot p, a' = a.publishSlot idx slot ∧ r.issued = some a.nextTicketCounter ∧
      Fresh a idx slot ∧ slot.lineageParent = some p ∧ (slotAt a.slots p).ticket = ticket := by
  cases asks_of_request hreq with
  | @derive _ holder issuer kind rights expiry =>
    simp only [Op.onAuthority] at he
    rcases allocateSlot_cases ha holder issuer kind rights expiry (some ticket) with
      ⟨e, hal⟩ | ⟨idx, slot, hal, hfresh, -, hroot, hp⟩
    · rw [hal] at he
      cases he
      exact .inl ⟨rfl, rfl⟩
    rw [hal] at he
    cases he
    cases hpar : slot.lineageParent with
    | none => exact absurd (hroot.mp hpar) (by simp)
    | some p =>
      exact .inr ⟨idx, slot, p, rfl, rfl, hfresh, hpar, (some.inj (hp p hpar)).symm⟩
  | control _ hdispatch houtcome =>
    simp only [hdispatch, dispatchControl, Action.word] at he
    split_ifs at he
    · cases he
      exact .inl ⟨by simp [issued], rfl⟩
    cases he
    rcases houtcome a ha with ⟨_, hd⟩ | ⟨idx, slot, p, hd, hfresh, hp, ht, -⟩
    · rw [hd]
      exact .inl ⟨by simp [issued], rfl⟩
    · rw [hd]
      exact .inr ⟨idx, slot, p, rfl, by simp [issued], hfresh, hp, ht⟩

theorem derive_refused (ha : WellFormed a) (hreq : op.request = some (.derive, ticket))
    (hver : ∀ s, a.verifyTicket ticket ≠ .ok s) (he : op.onAuthority a = some (r, a')) :
    r.issued = none ∧ a' = a := by
  rcases derive_cases ha hreq he with h | ⟨_, _, p, -, -, hfresh, hp, ht⟩
  · exact h
  have hadm := hfresh.parent p hp
  have hlive := ha.liveSlotIndex_eq_ok.mpr (names_iff.mpr ⟨hadm.inUse, hadm.holderOpen, ht⟩)
  refine absurd ?_ (hver (slotAt a.slots p))
  simp [verifyTicket, hlive, hadm.notCut]

/-! ## revocation -/

/-- What a revocation of the slot `target` does to an authority. -/
structure Revokes (target : Nat) (a a' : CellAuthority) : Prop where
  cut : ∀ j, RevokedBy a.slots target j → slotAt a'.slots j = CellAuthority.cut (slotAt a.slots j)
  other : ∀ j, ¬RevokedBy a.slots target j → slotAt a'.slots j = slotAt a.slots j

/-- In a retired authority everything in use is cut already. -/
theorem revokes_of_revoking (ha : WellFormed a) (hrev : a.revoking = true)
    (hlive : a.liveSlotIndex ticket = .ok target) : Revokes target a a := by
  refine ⟨fun j hj => ?_, fun _ _ => rfl⟩
  have hu : (slotAt a.slots j).inUse = true := by
    rcases hj with rfl | ⟨hu, -⟩
    · exact (names_iff.mp (names_of_liveSlotIndex hlive)).1
    · exact hu
  exact (cut_of_admissionCut (ha.cut hrev j hu)).symm

/-- Every revoke request on a live ticket returns and revokes the ticket's slot. -/
theorem revoke_request (ha : WellFormed a)
    (hreq : op.request = some (.revoke, ticket)) (hlive : a.liveSlotIndex ticket = .ok target) :
    ∃ r a', op.onAuthority a = some (r, a') ∧ Revokes target a a' := by
  have hdirect : ∃ a', a.revokeTicket ticket = some (.ok ticket, a') ∧ Revokes target a a' := by
    rcases revokeTicket_cases ha ticket with ⟨_, hl, -⟩ | ⟨_, _, hl, he, -, hat⟩
    · rw [hlive] at hl
      contradiction
    · rw [hlive] at hl
      cases hl
      exact ⟨_, he, fun j => (hat j).1, fun j => (hat j).2⟩
  obtain ⟨a', he, hr⟩ := hdirect
  cases asks_of_request hreq with
  | revoke => exact ⟨.revoked (.ok ticket), a', by simp only [Op.onAuthority, he, map_some], hr⟩
  | control _ hdispatch =>
    simp only [hdispatch, dispatchControl, Action.word]
    by_cases hrev : a.revoking = true
    · exact ⟨.header (.new .admissionCut 0 32 0), a, by simp [hrev],
        revokes_of_revoking ha hrev hlive⟩
    · exact ⟨.header (.new .admissionCut ticket 32 0), a', by simp [hrev, controlRevoke, he], hr⟩

theorem liveSlotIndex_congr (ha' : WellFormed a')
    (h : ∀ j, names ticket (slotAt a'.slots j) = names ticket (slotAt a.slots j)) :
    a'.liveSlotIndex ticket = a.liveSlotIndex ticket := by
  rcases liveSlotIndex_cases a ticket with ⟨rfl, hl⟩ | ⟨-, i, hl, hi⟩ | ⟨h0, hl, hnone⟩
  · rfl
  · rw [hl, ha'.liveSlotIndex_eq_ok, h]
    exact hi
  rcases liveSlotIndex_cases a' ticket with ⟨h0', -⟩ | ⟨-, j, -, hj⟩ | ⟨-, hl', -⟩
  · exact absurd h0' h0
  · rw [h, hnone] at hj
    contradiction
  · rw [hl, hl']

namespace Revokes

variable (h : Revokes target a a')

include h

theorem liveSlotIndex_eq (ha' : WellFormed a') (ticket : Nat) :
    a'.liveSlotIndex ticket = a.liveSlotIndex ticket := by
  refine liveSlotIndex_congr ha' fun j => ?_
  by_cases hj : RevokedBy a.slots target j
  · rw [h.cut j hj]
    rfl
  · rw [h.other j hj]

theorem verifyTicket_other (ha' : WellFormed a')
    (hj : ∀ j, a.liveSlotIndex ticket = .ok j → ¬RevokedBy a.slots target j) :
    a'.verifyTicket ticket = a.verifyTicket ticket := by
  unfold verifyTicket
  rw [h.liveSlotIndex_eq ha']
  cases hl : a.liveSlotIndex ticket with
  | error => rfl
  | ok j => simp only [h.other j (hj j hl)]

end Revokes

theorem not_verify_of_cut (ha : WellFormed a) (hev : Evolves a a')
    (hu : (slotAt a.slots i).inUse = true) (hcut : (slotAt a.slots i).admissionCut = true)
    (s : SlotEntry) : a'.verifyTicket (slotAt a.slots i).ticket ≠ .ok s := by
  intro hv
  obtain ⟨j, rfl, hn, hnc⟩ := verifyTicket_eq_ok hv
  obtain ⟨hju, -, hjt⟩ := names_iff.mp hn
  have hlt : (slotAt a'.slots j).ticket < a.nextTicketCounter := by
    rw [hjt]
    exact (ha.ticket_bounds i hu).2
  obtain ⟨k, hk, hkt, hkc, -⟩ := hev.old j hju hlt
  obtain rfl : k = i := ha.ticket_inj k i hk hu (hkt.trans hjt)
  rw [hkc hcut] at hnc
  contradiction

theorem step_derive_refused (ht : TableInv t) (hget : t.get op.key = some a)
    (hreq : op.request = some (.derive, ticket)) (hver : ∀ s, a.verifyTicket ticket ≠ .ok s) :
    ∃ r t', step t op = some (r, t') ∧ r.issued = none ∧ t'.get op.key = some a := by
  have ha := ht _ _ hget
  obtain ⟨r, a', he, -⟩ := onAuthority_change ha op
  obtain ⟨hr, rfl⟩ := derive_refused ha hreq hver he
  refine ⟨r, t.set op.key a', ?_, hr, t.get_set_self hget a'⟩
  rw [step_of_get hget (ne_publish_of_request hreq), he, map_some]

/-- **Revocation is complete, precise and permanent**: in any table a run reaches, a revoke
request on a live ticket, made directly or through either control entry point, cuts exactly
the target and the in-use slots below it and touches nothing else; their tickets stop
verifying and all others verify as before.  In every later state no ticket of a cut slot
verifies, and a derivation below one is refused and leaves the authority as it is. -/
theorem revocation_complete_precise_permanent {ops : List Op} {rs : List Response}
    {t : AuthorityTable} (hrun : run step .empty ops = some (rs, t)) (op : Op) {a : CellAuthority}
    (hget : t.get op.key = some a) {ticket target : Nat}
    (hreq : op.request = some (.revoke, ticket)) (hlive : a.liveSlotIndex ticket = .ok target) :
    ∃ r t' a', step t op = some (r, t') ∧ t'.get op.key = some a' ∧
      (∀ key, key ≠ op.key → t'.get key = t.get key) ∧
      (∀ j, RevokedBy a.slots target j → slotAt a'.slots j = CellAuthority.cut (slotAt a.slots j)) ∧
      (∀ j, ¬RevokedBy a.slots target j → slotAt a'.slots j = slotAt a.slots j) ∧
      (∀ tk j, a.liveSlotIndex tk = .ok j → RevokedBy a.slots target j →
        a'.verifyTicket tk = .error .admissionCut) ∧
      (∀ tk, (∀ j, a.liveSlotIndex tk = .ok j → ¬RevokedBy a.slots target j) →
        a'.verifyTicket tk = a.verifyTicket tk) ∧
      ∀ ops' rs' t'', run step t' ops' = some (rs', t'') → ∃ a'', t''.get op.key = some a'' ∧
        ∀ j, RevokedBy a.slots target j →
          (∀ s, a''.verifyTicket (slotAt a.slots j).ticket ≠ .ok s) ∧
          ∀ op', op'.key = op.key → op'.request = some (.derive, (slotAt a.slots j).ticket) →
            ∃ r' t₃, step t'' op' = some (r', t₃) ∧ r'.issued = none ∧ t₃.get op.key = some a'' := by
  have ht := tableInv_of_run hrun
  have ha := ht _ _ hget
  obtain ⟨r, a', he, hr⟩ := revoke_request ha hreq hlive
  have hstep : step t op = some (r, t.set op.key a') := by
    rw [step_of_get hget (ne_publish_of_request hreq), he, map_some]
  have ht' := ht.step hstep
  have hget' : (t.set op.key a').get op.key = some a' := t.get_set_self hget a'
  have ha' := ht' _ _ hget'
  refine ⟨r, _, a', hstep, hget', fun key hk => t.get_set_of_ne hk a', hr.cut, hr.other,
    fun tk j hl hj => ?_, fun tk => hr.verifyTicket_other ha', fun ops' rs' t'' hrun' => ?_⟩
  · simp [verifyTicket, hr.liveSlotIndex_eq ha', hl, hr.cut j hj]
  obtain ⟨a'', hget'', hev⟩ := evolves_of_run ht' hrun' hget'
  have ht'' : TableInv t'' := run_invariant (fun _ _ _ _ h => h.step) hrun' ht'
  refine ⟨a'', hget'', fun j hj => ?_⟩
  have hcut := hr.cut j hj
  have hu : (slotAt a'.slots j).inUse = true := by
    rw [hcut, cut_inUse]
    rcases hj with rfl | ⟨hu, -⟩
    · exact (names_iff.mp (names_of_liveSlotIndex hlive)).1
    · exact hu
  have htick : (slotAt a.slots j).ticket = (slotAt a'.slots j).ticket := by
    rw [hcut, cut_ticket]
  have hver : ∀ s, a''.verifyTicket (slotAt a.slots j).ticket ≠ .ok s := by
    rw [htick]
    exact not_verify_of_cut ha' hev hu (by rw [hcut]; rfl)
  refine ⟨hver, fun op' hkey hreq' => ?_⟩
  rw [← hkey] at hget'' ⊢
  exact step_derive_refused ht'' hget'' hreq' hver

/-- A root, a child below it whose holder has closed it, and a grandchild. -/
def closedMiddle : List Op := [.publish (1, 1),
    .allocate (1, 1) .kernel .kernel .memoryGrant 7#32 none none,
    .allocate (1, 1) .kernel .kernel .memoryGrant 3#32 none (some 1),
    .allocate (1, 1) .kernel .kernel .memoryGrant 1#32 none (some 2),
    .close (1, 1) 2]

theorem revocation_complete_precise_permanent_closedMiddle :
    ∃ rs t a, run step .empty closedMiddle = some (rs, t) ∧ t.get (1, 1) = some a ∧
      a.liveSlotIndex 1 = .ok 0 ∧
      ∃ r t' a', step t (.revoke (1, 1) 1) = some (r, t') ∧ t'.get (1, 1) = some a' ∧
        a'.verifyTicket 3 = .error .admissionCut := by
  obtain ⟨rs, t, hrun, a, hget, hl1, hl3, h21, h10, hu⟩ : ∃ rs t,
      run step .empty closedMiddle = some (rs, t) ∧ ∃ a, t.get (1, 1) = some a ∧
        a.liveSlotIndex 1 = .ok 0 ∧ a.liveSlotIndex 3 = .ok 2 ∧ lineage a.slots 2 = some 1 ∧
        lineage a.slots 1 = some 0 ∧ (slotAt a.slots 2).inUse = true := by
    decide +kernel
  obtain ⟨r, t', a', hs, hget', -, -, -, hver, -⟩ := revocation_complete_precise_permanent hrun
    (.revoke (1, 1) 1) hget rfl hl1
  exact ⟨rs, t, a, hrun, hget, hl1, r, t', a', hs, hget',
    hver 3 2 hl3 (.inr ⟨hu, (Below.single h21).trans (Below.single h10)⟩)⟩

/-! ## freshness -/

/-- The tickets the authority of a key issued during a run, in order. -/
def issuedTickets (key : Key) : List Op → List Response → List Nat
  | op :: ops, r :: rs =>
    (if op.key = key then r.issued.toList else []) ++ issuedTickets key ops rs
  | _, _ => []

/-- The next ticket of a key; an authority that is not published yet will start at 1. -/
def nextTicket (t : AuthorityTable) (key : Key) : Nat :=
  match t.get key with
  | none => 1
  | some a => a.nextTicketCounter

/-- A change issues at most the counter, and then moves past it. -/
theorem Change.counter {inherits : Prop} {issued : Option Nat} (h : Change inherits a issued a') :
    (issued = none ∧ a'.nextTicketCounter = a.nextTicketCounter) ∨
    (issued = some a.nextTicketCounter ∧ a'.nextTicketCounter = a.nextTicketCounter + 1) := by
  cases h with
  | publish => exact .inr ⟨rfl, rfl⟩
  | _ => exact .inl ⟨rfl, rfl⟩

/-- One call issues nothing for a key, or the key's next ticket. -/
theorem nextTicket_step (ht : TableInv t) (h : step t op = some (r, t')) (key : Key) :
    ((if op.key = key then r.issued.toList else []) = [] ∧ nextTicket t' key = nextTicket t key) ∨
    ((if op.key = key then r.issued.toList else []) = [nextTicket t key] ∧
      nextTicket t' key = nextTicket t key + 1) := by
  have hrow := rowChange_of_step ht h key
  unfold nextTicket
  generalize t.get key = o, t'.get key = o' at hrow
  cases hrow with
  | other hkey => simp [hkey]
  | absent _ hr => simp [hr]
  | published _ hr => simp [hr, CellAuthority.new]
  | change hkey hc =>
    rcases hc.counter with ⟨hi, hn⟩ | ⟨hi, hn⟩
    · simp [hi, hn]
    · simp [hkey, hi, hn]

/-- The tickets of a run increase strictly and lie between the counters at its ends. -/
theorem issuedTickets_run (ht : TableInv t) (h : run step t ops = some (rs, t')) (key : Key) :
    (issuedTickets key ops rs).Pairwise (· < ·) ∧ nextTicket t key ≤ nextTicket t' key ∧
      ∀ x ∈ issuedTickets key ops rs, nextTicket t key ≤ x ∧ x < nextTicket t' key := by
  induction ops generalizing t rs with
  | nil =>
    cases h
    simp [issuedTickets]
  | cons _ _ ih =>
    obtain ⟨_, _, _, hs, hr, rfl⟩ := run_cons_eq_some.mp h
    obtain ⟨hpair, hle, hbound⟩ := ih (ht.step hs) hr
    rcases nextTicket_step ht hs key with ⟨hi, hn⟩ | ⟨hi, hn⟩
    · simp only [issuedTickets, hi, nil_append]
      rw [hn] at hle hbound
      exact ⟨hpair, hle, hbound⟩
    simp only [issuedTickets, hi, singleton_append, pairwise_cons, mem_cons]
    refine ⟨⟨fun x hx => ?_, hpair⟩, by omega, ?_⟩
    · have := (hbound x hx).1
      omega
    · rintro x (rfl | hx)
      · omega
      · have := hbound x hx
        omega

/-! ## closed tickets -/

/-- No slot that carries the ticket is open: its holder has closed it, or the slot
is gone. -/
def Closed (a : CellAuthority) (ticket : Nat) : Prop :=
  ∀ i, (slotAt a.slots i).inUse = true → (slotAt a.slots i).ticket = ticket →
    (slotAt a.slots i).holderOpen = false

/-- An issued ticket stays closed, wherever its slot index goes. -/
theorem Closed.evolves (h : Closed a ticket) (hlt : ticket < a.nextTicketCounter)
    (hev : Evolves a a') : Closed a' ticket := by
  intro j hj hjt
  obtain ⟨i, hi, hit, -, hio⟩ := hev.old j hj (hjt ▸ hlt)
  have hclosed := h i hi (hit.trans hjt)
  by_contra hopen
  rw [hio (by simpa using hopen)] at hclosed
  contradiction

theorem Closed.liveSlotIndex (h : Closed a ticket) (hpos : 0 < ticket) :
    a.liveSlotIndex ticket = .error .stale := by
  rcases liveSlotIndex_cases a ticket with ⟨h0, -⟩ | ⟨-, i, -, hi⟩ | ⟨-, hl, -⟩
  · omega
  · obtain ⟨hu, ho, ht⟩ := names_iff.mp hi
    rw [h i hu ht] at ho
    contradiction
  · exact hl

/-- The status a call answers with. -/
def Response.status : Response → ControlStatus
  | .done => .success
  | .noAuthority => .stale
  | .allocated (.ok _) => .success
  | .allocated (.error status) => status
  | .closed (.ok _) => .success
  | .closed (.error status) => status
  | .revoked (.ok _) => .success
  | .revoked (.error status) => status
  | .header h => h.status

/-- The ways a request on a dead ticket is refused: as stale, unless the cell is
retiring or the grant is malformed, which is noticed first. -/
def RefusedAs (a : CellAuthority) (op : Op) (action : Action) (status : ControlStatus) : Prop :=
  status = .stale ∨ (a.revoking = true ∧ action ≠ .close ∧ status = .admissionCut) ∨
    (action = .derive ∧ op.malformedGrant ∧ status = .invalid)

variable (hl : a.liveSlotIndex ticket = .error .stale)

include hl

theorem closeTicket_stale : a.closeTicket ticket = some (.error .stale, a) := by
  simp [closeTicket, hl]

theorem revokeTicket_stale : a.revokeTicket ticket = some (.error .stale, a) := by
  simp [revokeTicket, hl]

theorem verifyTicket_stale : a.verifyTicket ticket = .error .stale := by
  simp [verifyTicket, hl]

/-- A close, derive or revoke request on a ticket that is not live is refused, and
nothing changes. -/
theorem stale_request (hreq : op.request = some (action, ticket)) (hquery : action ≠ .query) :
    ∃ r, op.onAuthority a = some (r, a) ∧ r.issued = none ∧ RefusedAs a op action r.status := by
  cases asks_of_request hreq with
  | @derive _ _ _ kind rights =>
    by_cases hrev : a.revoking = true
    · refine ⟨.allocated (.error .admissionCut), ?_, rfl, .inr (.inl ⟨hrev, by simp, rfl⟩)⟩
      simp only [Op.onAuthority, allocateSlot, if_pos hrev]
    by_cases hbad : kind = .cSpaceAuthority ∧ rights &&& ~~~0x1FF#32 ≠ 0#32
    · refine ⟨.allocated (.error .invalid), ?_, rfl, .inr (.inr ⟨rfl, hbad, rfl⟩)⟩
      simp only [Op.onAuthority, allocateSlot, if_neg hrev, if_pos hbad]
    · refine ⟨.allocated (.error .stale), ?_, rfl, .inl rfl⟩
      simp only [Op.onAuthority, allocateSlot, if_neg hrev, if_neg hbad, lineageParentOf, hl]
  | close =>
    refine ⟨.closed (.error .stale), ?_, rfl, .inl rfl⟩
    simp only [Op.onAuthority, closeTicket_stale hl, map_some]
  | revoke =>
    refine ⟨.revoked (.error .stale), ?_, rfl, .inl rfl⟩
    simp only [Op.onAuthority, revokeTicket_stale hl, map_some]
  | control _ hdispatch _ hstale =>
    by_cases hguard : a.revoking = true ∧ action.word ≠ 0 ∧ action.word ≠ 3
    · refine ⟨.header (.new .admissionCut 0 32 0), ?_, by simp [issued],
        Or.inr (.inl ⟨hguard.1, ?_, rfl⟩)⟩
      · simp only [hdispatch, dispatchControl, if_pos hguard, map_some]
      · rintro rfl
        exact hguard.2.1 rfl
    simp only [hdispatch, dispatchControl, if_neg hguard]
    cases action with
    | close =>
      refine ⟨.header (.new .stale ticket 32 0), ?_, by simp [issued], .inl rfl⟩
      simp [Action.word, controlClose, closeTicket_stale hl]
    | derive =>
      obtain ⟨status, hd, hstatus⟩ := hstale a (verifyTicket_stale hl)
      refine ⟨.header (.new status ticket 32 0), by simp [Action.word, hd], by simp [issued], ?_⟩
      rcases hstatus with rfl | ⟨hbad, rfl⟩
      · exact .inl rfl
      · exact .inr (.inr ⟨rfl, hbad, rfl⟩)
    | revoke =>
      refine ⟨.header (.new .stale ticket 32 0), ?_, by simp [issued], .inl rfl⟩
      simp [Action.word, controlRevoke, revokeTicket_stale hl]
    | query => exact absurd rfl hquery

omit hl

/-- Through every entry point a close request is `closeTicket` and answers its result. -/
theorem close_request
    (hreq : op.request = some (.close, ticket)) (hc : a.closeTicket ticket = some (c, b)) :
    ∃ r, op.onAuthority a = some (r, b) ∧ r.status = match c with
        | .ok _ => .success
        | .error e => e := by
  cases asks_of_request hreq with
  | close =>
    refine ⟨.closed c, by simp only [Op.onAuthority, hc, map_some], ?_⟩
    cases c <;> rfl
  | control _ hdispatch =>
    simp only [hdispatch, dispatchControl, Action.word, controlClose, hc]
    cases c
    all_goals
      exact ⟨.header (.new _ ticket 32 0), by simp, rfl⟩

theorem closed_of_request (ha : WellFormed a) (hreq : op.request = some (.close, ticket))
    (he : op.onAuthority a = some (r, a')) (hr : r.status = .success) : Closed a' ticket := by
  rcases closeTicket_cases ha ticket with ⟨e, hl, hc⟩ | ⟨idx, slots, hl, hc, -, -, hrec⟩
  · -- an unresolved ticket is invalid or stale
    obtain ⟨r', he', hr'⟩ := close_request hreq hc
    rcases liveSlotIndex_cases a ticket with ⟨-, h⟩ | ⟨-, i, h, -⟩ | ⟨-, h, -⟩
    all_goals
      simp_all
  · obtain ⟨r', he', -⟩ := close_request hreq hc
    rw [he] at he'
    cases he'
    obtain ⟨hu, -, ht⟩ := names_iff.mp (names_of_liveSlotIndex hl)
    intro j hj hjt
    have hat := hrec.slotAt_of_close hu hj
    rw [hat] at hj hjt ⊢
    obtain rfl : j = idx := ha.ticket_inj j idx hj hu (hjt.trans ht.symm)
    exact if_pos rfl

/-- The calls that allocate a slot: direct allocations and derivation requests. -/
def Op.allocates (op : Op) : Prop :=
  (∃ key holder issuer kind rights expiry, op = .allocate key holder issuer kind rights expiry none) ∨
    ∃ ticket, op.request = some (.derive, ticket)

theorem allocates_refused (ha : WellFormed a) (hop : op.allocates)
    (he : op.onAuthority a = some (r, a')) (hr : r.issued = none) : a' = a := by
  rcases hop with ⟨_, holder, issuer, kind, rights, expiry, rfl⟩ | ⟨_, hreq⟩
  · simp only [Op.onAuthority] at he
    rcases allocateSlot_cases ha holder issuer kind rights expiry none with
      ⟨e, hal⟩ | ⟨idx, slot, hal, -⟩
    · rw [hal] at he
      exact (by simpa using he : _ ∧ a = a').2.symm
    rw [hal] at he
    cases he
    simp [issued] at hr
  · rcases derive_cases ha hreq he with ⟨-, h⟩ | ⟨_, _, _, -, hi, -⟩
    · exact h
    · rw [hr] at hi
      contradiction

/-- The row a call that returned leaves behind is the one `onAuthority` computed. -/
theorem onAuthority_of_step (hget : t.get op.key = some a) (hop : ∀ key, op ≠ .publish key)
    (hs : step t op = some (r, t')) (hget' : t'.get op.key = some a') :
    op.onAuthority a = some (r, a') := by
  rw [step_of_get hget hop] at hs
  obtain ⟨⟨r', b⟩, he, heq⟩ := map_eq_some_iff.mp hs
  obtain ⟨rfl, rfl⟩ := by simpa using heq
  rw [t.get_set_self hget] at hget'
  rw [he, some.inj hget']

theorem ne_publish_of_allocates (h : op.allocates) (key : Key) : op ≠ .publish key := by
  rintro rfl
  rcases h with ⟨_, _, _, _, _, _, h⟩ | ⟨_, h⟩
  · contradiction
  · simp at h

/-- **Tickets are never reissued**: over every run and for every key, the tickets issued increase
strictly; a close request that succeeds leaves its ticket closed; a ticket that is closed or
reclaimed verifies as stale in every later state, and every request on it is refused and changes
nothing, as stale unless the cell is retiring or the grant is malformed, which the code checks
first; and an allocation that fails leaves the whole authority as it was. -/
theorem tickets_never_reissued {ops : List Op} {rs : List Response} {t : AuthorityTable}
    (hrun : run step .empty ops = some (rs, t)) (key : Key) :
    (issuedTickets key ops rs).Pairwise (· < ·) ∧
    ∀ a, t.get key = some a →
      (∀ op ticket r t' a', op.key = key → op.request = some (.close, ticket) →
        step t op = some (r, t') → t'.get key = some a' → r.status = .success →
        Closed a' ticket) ∧
      (∀ ticket ∈ issuedTickets key ops rs, Closed a ticket →
        ∀ ops' rs' t', run step t ops' = some (rs', t') → ∃ a', t'.get key = some a' ∧
          a'.verifyTicket ticket = .error .stale ∧
          ∀ op action, op.key = key → op.request = some (action, ticket) → action ≠ .query →
            ∃ r t'', step t' op = some (r, t'') ∧ t''.get key = some a' ∧ r.issued = none ∧
              RefusedAs a' op action r.status) ∧
      (∀ op r t' a', op.key = key → op.allocates → step t op = some (r, t') →
        t'.get key = some a' → r.issued = none → a' = a) := by
  have ht := tableInv_of_run hrun
  obtain ⟨hpair, -, hbound⟩ := issuedTickets_run tableInv_empty hrun key
  refine ⟨hpair, fun a hget => ⟨?_, ?_, ?_⟩⟩
  · rintro op ticket r t' a' rfl hreq hs hget' hr
    exact closed_of_request (ht _ _ hget) hreq
      (onAuthority_of_step hget (ne_publish_of_request hreq) hs hget') hr
  · intro ticket hmem hclosed ops' rs' t' hrun'
    -- an issued ticket lies strictly between zero and the counter
    have hb := hbound ticket hmem
    have hlt : ticket < a.nextTicketCounter := by simpa [nextTicket, hget] using hb.2
    have hpos : 0 < ticket := by
      have h1 : nextTicket .empty key = 1 := rfl
      omega
    obtain ⟨a', hget', hev⟩ := evolves_of_run ht hrun' hget
    have hl := (hclosed.evolves hlt hev).liveSlotIndex hpos
    refine ⟨a', hget', verifyTicket_stale hl, ?_⟩
    rintro op action rfl hreq hquery
    obtain ⟨r, he, hi, hr⟩ := stale_request hl hreq hquery
    refine ⟨r, t'.set op.key a', ?_, t'.get_set_self hget' a', hi, hr⟩
    rw [step_of_get hget' (ne_publish_of_request hreq), he, map_some]
  · rintro op r t' a' rfl hop hs hget' hr
    exact allocates_refused (ht _ _ hget) hop
      (onAuthority_of_step hget (ne_publish_of_allocates hop) hs hget') hr

theorem tickets_never_reissued_closedMiddle :
    ∃ rs t a, run step .empty closedMiddle = some (rs, t) ∧ t.get (1, 1) = some a ∧
      issuedTickets (1, 1) closedMiddle rs = [1, 2, 3] ∧ Closed a 2 ∧
      ∃ a', t.get (1, 1) = some a' ∧ a'.verifyTicket 2 = .error .stale := by
  obtain ⟨rs, t, hrun, hissued, a, hget, hlength, hopen⟩ : ∃ rs t,
      run step .empty closedMiddle = some (rs, t) ∧
        issuedTickets (1, 1) closedMiddle rs = [1, 2, 3] ∧ ∃ a, t.get (1, 1) = some a ∧
        a.slots.length = maxSlotsPerCell ∧ ∀ i ∈ List.range maxSlotsPerCell,
          (slotAt a.slots i).ticket = 2 → (slotAt a.slots i).holderOpen = false := by
    decide +kernel
  have hclosed : Closed a 2 := by
    intro i hi hit
    exact hopen i (mem_range.mpr (hlength ▸ lt_length_of_inUse hi)) hit
  obtain ⟨a', hget', hver, -⟩ := ((tickets_never_reissued hrun (1, 1)).2 a hget).2.1 2
    (by rw [hissued]; decide) hclosed [] [] t rfl
  exact ⟨rs, t, a, hrun, hget, hissued, hclosed, a', hget', hver⟩

/-- Once the cell retires, a derivation below a closed ticket is answered
`admissionCut`, not `stale`. -/
theorem derive_after_retire_not_stale : (run step .empty [.publish (1, 1),
        .allocate (1, 1) .kernel .kernel .memoryGrant 7#32 none none,
        .close (1, 1) 1,
        .retire (1, 1),
        .allocate (1, 1) .kernel .kernel .memoryGrant 1#32 none (some 1)]).map Prod.fst =
      some [.done, .allocated (.ok 1), .closed (.ok ()), .done,
        .allocated (.error .admissionCut)] := by
  decide +kernel

end Cellos.CSpace
