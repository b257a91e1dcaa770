import Cellos.Session.Edits

/-!
# Cellos.Session.Acts

What a request or a maintenance pass can do, said once.

An `Act` is one change with the facts the code checked before it: a new record and the
operation it belongs to, a close, a cancellation, a commit, a removal and why it was
allowed.  Every handler, every maintenance pass and every retirement is a sequence of
acts, so a property is kept by all of them when it is kept by each act.
-/

namespace Cellos.Session

open Lib List Option World
open Pipes (Pipe PipeHandle duplicateEnd)
open Relation (ReflTransGen)

variable {rights : Rights} {caller : Nat} {request : Bytes}

/-- An operation that exists and is not cancelled. -/
def World.Active (w : World) (r : Ref) : Prop :=
  ∃ o ∈ w.operations, o.reference = r ∧ o.state = .active

/-! ## what a lookup says -/

namespace World

variable {w : World}

theorem operation_eq_ok (h : w.operation r = .ok o) : o ∈ w.operations ∧ o.reference = r := by
  unfold operation at h
  rw [demand_eq_ok] at h
  exact ⟨mem_of_find?_eq_some h, by simpa using find?_some h⟩

theorem opActive_eq_ok (h : w.opActive actor r = .ok o) :
    o ∈ w.operations ∧ o.reference = r ∧ o.state = .active := by
  simp only [opActive, opMember, bind_eq_ok, require_eq_ok, pure_eq_ok] at h
  obtain ⟨_, ⟨q, hq, _, _, rfl⟩, _, hstate, rfl⟩ := h
  obtain ⟨hmem, href⟩ := operation_eq_ok hq
  exact ⟨hmem, href, hstate⟩

theorem active_of_opActive (h : w.opActive actor r = .ok o) : w.Active r := ⟨o, opActive_eq_ok h⟩

theorem endpointOf_eq_ok (h : w.endpointOf r = .ok e) : w.EndpointAt r e := by
  unfold endpointOf at h
  rwa [demand_eq_ok] at h

theorem mem_of_find (h : w.EndpointAt r e) : e ∈ w.endpoints ∧ e.reference = r :=
  ⟨mem_of_find?_eq_some h, by simpa using find?_some h⟩

/-- An endpoint a handler may use. -/
structure Usable (w : World) (actor : Principal) (r : Ref) (rights : Rights) (e : Endpoint) :
    Prop where
  found : w.endpoints.find? (fun e => e.reference = r) = some e
  holder : e.holder = actor
  published : e.prepared = none
  opened : e.state = .opened
  active : w.Active e.operation
  rights : e.rights &&& rights = rights

theorem Usable.counted (h : Usable w actor r rights e) : e.counted := by
  simp [Endpoint.counted, h.opened, h.published]

theorem endpoint_eq_ok (h : w.endpoint actor r rights = .ok e) : Usable w actor r rights e := by
  simp only [endpoint, bind_eq_ok, require_eq_ok] at h
  obtain ⟨a, ha, _, hholder, _, ⟨hpublished, _⟩, h⟩ := h
  split at h
  · cases h
  next hopen =>
  simp only [bind_eq_ok, require_eq_ok] at h
  obtain ⟨o, ho, _, hstate, h⟩ := h
  split at h
  · split at h <;> cases h
  next hrights =>
  cases h
  obtain ⟨hmem, href⟩ := operation_eq_ok ho
  refine ⟨endpointOf_eq_ok ha, hholder, hpublished, ?_, ⟨o, hmem, href, hstate⟩,
    by simpa using hrights⟩
  cases hstate' : e.state <;> simp [hstate', closedStatus] at hopen ⊢

theorem preparation_eq_ok (h : w.preparation r = .ok p) :
    w.PreparedAt r p ∧ p ∈ w.prepared ∧ p.reference = r := by
  unfold preparation at h
  rw [demand_eq_ok] at h
  exact ⟨h, mem_of_find?_eq_some h, by simpa using find?_some h⟩

theorem preparing_eq_ok (h : w.preparing actor r = .ok p) :
    w.PreparedAt r p ∧ p.reference = r ∧ p.preparer = actor
      ∧ p.state = .staged := by
  simp only [preparing, bind_eq_ok, require_eq_ok, pure_eq_ok] at h
  obtain ⟨q, hq, _, hpreparer, _, hstaged, rfl⟩ := h
  obtain ⟨hfind, _, href⟩ := preparation_eq_ok hq
  exact ⟨hfind, href, hpreparer, hstaged⟩

theorem mint_eq_ok (h : w.mint = .ok (r, w')) :
    r = ⟨w.next, 1⟩ ∧ w' = { w with next := w.next + 1 } := by
  unfold mint at h
  split at h
  · cases h
    exact ⟨rfl, rfl⟩
  · cases h

end World

/-! ## acts -/

/-- Two outcomes with the same request and the same result. -/
structure Outcome.Same (a b : Outcome) : Prop where
  requestId : b.requestId = a.requestId
  request : b.request = a.request
  result : b.result = a.result
  complete : b.complete = a.complete

/-- A ledger in which outcomes were observed or acknowledged. -/
structure Ledger.Kept (a b : Ledger) : Prop where
  actor : b.actor = a.actor
  operation : b.operation = a.operation
  next : b.next = a.next
  acknowledged : a.acknowledged ≤ b.acknowledged
  origin : ∀ o' ∈ b.outcomes, ∃ o ∈ a.outcomes, o.Same o'
  retained : ∀ o ∈ a.outcomes, (∃ o' ∈ b.outcomes, o.Same o') ∨ o.requestId ≤ b.acknowledged

theorem Outcome.Same.refl (a : Outcome) : a.Same a := ⟨rfl, rfl, rfl, rfl⟩

theorem Ledger.Kept.refl (a : Ledger) : a.Kept a :=
  ⟨rfl, rfl, rfl, le_rfl, fun o h => ⟨o, h, .refl o⟩, fun o h => .inl ⟨o, h, .refl o⟩⟩

theorem kept_setOutcome {id : Nat} {f : Outcome → Outcome} {l : Ledger}
    (h : ∀ o : Outcome, o.Same (f o)) : l.Kept (setOutcome id f l) := by
  have hrows : Forall₂ Outcome.Same l.outcomes (setOutcome id f l).outcomes :=
    forall₂_updateFirst .refl fun o _ => h o
  exact ⟨rfl, rfl, rfl, le_rfl, fun o => exists_old hrows, fun o ho => .inl (exists_new hrows ho)⟩

namespace World

variable (w : World)

/-- `create_stream` once it cannot fail. -/
def addStream (actor : Principal) (operation : Ref) (capacity : Nat) : World :=
  { w.createRing capacity with
    next := w.next + 2
    endpoints := w.endpoints ++ [streamEnd actor operation ⟨w.next, 1⟩ w.nextRing .read,
      streamEnd actor operation ⟨w.next + 1, 1⟩ w.nextRing .write] }

/-- `DuplicateEndpoint` once it cannot fail. -/
def addDuplicate (e : Endpoint) (holder : Principal) (rights : Rights) : World :=
  { w with
    next := w.next + 1
    endpoints := w.endpoints ++ [derivedEnd e ⟨w.next, 1⟩ holder e.operation rights none]
    rings := (duplicateEnd w.rings e.handle).2 }

/-- `DelegateEndpoint` once it cannot fail. -/
def addStaged (e : Endpoint) (p : Prepared) (rights : Rights) : World :=
  { w with
    next := w.next + 1
    endpoints := w.endpoints ++
      [derivedEnd e ⟨w.next, 1⟩ p.child.principal p.operation rights (some p.child)] }

/-- `register_receipt` of a foreground receipt once it cannot fail. -/
def addForeground (p : Prepared) (issuer : Binding) (s t : Endpoint) (rr : Receipt) : World :=
  { w with
    next := w.next + 3
    endpoints := w.endpoints ++ [peer p issuer ⟨w.next + 1, 1⟩ s, peer p issuer ⟨w.next + 2, 1⟩ t]
    receipts := w.receipts ++ [rr] }

/-- The owner slot a publication reserves. -/
def nextOwner (cellId : Nat) : CellOwner := ⟨cellId, w.nextGeneration, w.nextTask⟩

/-- `prepare_child` once it cannot fail. -/
def addPrepared (cellId : Nat) (p : Prepared) : World :=
  { w with
    cells := w.cells ++ [{ owner := w.nextOwner cellId, slot := .reserved }]
    nextTask := w.nextTask + 1
    nextGeneration := w.nextGeneration + 1
    prepared := w.prepared ++ [p] }

end World

/-- A new child record of an active operation. -/
structure Fresh (w : World) (cellId : Nat) (p : Prepared) : Prop where
  child : p.child = CellOwner.child (w.nextOwner cellId)
  reference : p.reference = p.child.preparedRef
  publication : ∃ q, p.publication = some q ∧ q.owner = w.nextOwner cellId
  state : p.state = .staged
  intent : p.intent = none
  parsed : p.parsed = none
  operation : w.Active p.operation

/-- A new pending receipt of a staged child. -/
structure Pending (w : World) (p : Prepared) (rr : Receipt) : Prop where
  found : w.prepared.find? (fun q => q.reference = p.reference) = some p
  staged : p.state = .staged
  reference : rr.reference = ⟨w.next, 1⟩
  prepared : rr.prepared = p.reference
  operation : rr.operation = p.operation

/-- What the request at hand may do: the operations it closes and the children it commits,
in the world it finds them in. -/
structure License where
  closes : Ref → Prop
  commits : World → Prepared → Prop

/-- One change of a handler or a maintenance pass. -/
inductive Act (env : Env) (license : License) (w : World) : World → Prop where
  | touch {w' : World} (h : Touch w w') : Act env license w w'
  | closeReservation (r : Ref) : Act env license w (w.closeReservation r)
  | closeHolder (r : Ref) (state : EndpointState) (h : state ≠ .opened ∧ state ≠ .reserved) :
      Act env license w (w.closeHolder env r state)
  | cancel (r : Ref) (reason : Nat) : Act env license w (w.cancel env r reason)
  | operation (o : Operation) (href : o.reference = ⟨w.next, 1⟩)
      (hstate : o.state = .active ∧ o.cancelledBy = 0 ∧ o.pending = 0)
      (hparent : o.parent = Ref.zero ∨ w.Active o.parent) :
      Act env license w { w with next := w.next + 1, operations := w.operations ++ [o] }
  | stream (actor : Principal) (operation : Ref) (capacity : Nat) (h : w.Active operation) :
      Act env license w (w.addStream actor operation capacity)
  | duplicate (e : Endpoint) (holder : Principal) (rights : Rights) (he : e ∈ w.endpoints)
      (hcounted : e.counted) (hactive : w.Active e.operation)
      (hrights : rights &&& 3 = e.rights &&& 3) (hring : (duplicateEnd w.rings e.handle).1 = true) :
      Act env license w (w.addDuplicate e holder rights)
  | delegate (e : Endpoint) (p : Prepared) (rights : Rights) (he : e ∈ w.endpoints)
      (hp : p ∈ w.prepared) (hstaged : p.state = .staged) (hrights : rights &&& 3 = e.rights &&& 3) :
      Act env license w (w.addStaged e p rights)
  | receipt (p : Prepared) (rr : Receipt) (h : Pending w p rr)
      (hproducers : rr.producers = (Ref.zero, Ref.zero)) :
      Act env license w { w with next := w.next + 1, receipts := w.receipts ++ [rr] }
  | foreground (p : Prepared) (issuer : Binding) (i : Intent) (s t : Endpoint) (rr : Receipt)
      (h : Pending w p rr) (hintent : p.intent = some i) (hs : s ∈ w.endpoints)
      (ht : t ∈ w.endpoints) (href : s.reference = i.writers.1 ∧ t.reference = i.writers.2)
      (hproducers : rr.producers = (⟨w.next + 1, 1⟩, ⟨w.next + 2, 1⟩)) :
      Act env license w (w.addForeground p issuer s t rr)
  | stage (cellId : Nat) (p : Prepared) (h : Fresh w cellId p) :
      Act env license w (w.addPrepared cellId p)
  | bootstrap (b : Bootstrap) : Act env license w { w with bootstraps := w.bootstraps ++ [b] }
  | commit (p : Prepared) (plan : CommitPlan)
      (hp : w.prepared.find? (fun q => q.reference = p.reference) = some p)
      (hstaged : p.state = .staged) (hactive : w.Active p.operation)
      (hplan : w.checkCommit env p = .ok plan) (hlicense : license.commits w p) :
      Act env license w (w.applyCommit p plan)
  | removeOperation (o : Operation) (ho : o ∈ w.operations) (hdrained : w.drained o.reference = true)
      (hwhy : license.closes o.reference ∨ w.ownerLive o.owner = false) :
      Act env license w (w.removeOperation o.reference)
  | reclaim (r : Ref) : Act env license w (w.reclaim r)
  | dropReceipts (keep : Receipt → Bool) (h : ∀ rr ∈ w.receipts, keep rr = false →
      (w.binding (receiptService rr.kind)).toOption ≠ some rr.issuer) :
      Act env license w { w with receipts := w.receipts.filter keep }
  | dropPrepared (i : Nat) (p : Prepared) (hp : w.prepared[i]? = some p)
      (hfinished : p.state.finished = true) (hdead : w.ownerLive p.preparer = false)
      (hreceipts : (w.receipts.any fun rr => rr.prepared = p.reference) = false) :
      Act env license w { w with prepared := w.prepared.eraseIdx i }
  | dropBootstraps (keep : Bootstrap → Bool) (h : ∀ b ∈ w.bootstraps, keep b = false →
      b.state.standing = false ∧ (w.ownerLive b.controller = false ∨
        (w.binding serviceInput).toOption ≠ some b.issuer)) :
      Act env license w { w with bootstraps := w.bootstraps.filter keep }
  | ledgers (ledgers : List Ledger) (h : Forall₂ Ledger.Kept w.ledgers ledgers) :
      Act env license w { w with ledgers }

/-- A sequence of acts. -/
abbrev Acts (env : Env) (license : License) : World → World → Prop := ReflTransGen (Act env license)

namespace Acts

variable {env : Env} {license : License} {w : World}

theorem one (h : Act env license w w') : Acts env license w w' := .single h

theorem touch (h : Touch w w') : Acts env license w w' := .single (.touch h)

theorem foldl {α : Type} {step : World → α → World} {l : List α}
    (h : ∀ w, ∀ a ∈ l, Acts env license w (step w a)) : Acts env license w (l.foldl step w) :=
  foldl_related (fun _ => .refl) (fun _ _ _ => .trans) h w

end Acts

open Acts

theorem Acts.closing (env : Env) (license : License) : Closing env (Acts env license) where
  refl := fun _ => .refl
  trans := fun _ _ _ => .trans
  touch := fun _ _ => touch
  closeReservation := fun _ x => .one (.closeReservation x)
  closeHolder := fun _ x state h => .one (.closeHolder x state h)
  cancel := fun _ x reason => .one (.cancel x reason)

namespace World

variable {env : Env} {license : License} {w : World}
variable {actor : Principal} {w' : World}
  {p : Prepared} {platform : Platform}

/-! ## maintenance -/

theorem acts_retainReceipts (hinput : input = (w.binding serviceInput).toOption)
    (hvfs : vfs = (w.binding serviceVfs).toOption) :
    Acts env license w (w.retainReceipts input vfs) := by
  refine .one (.dropReceipts _ fun rr _ hkeep => ?_)
  have hne : currentIssuer input vfs rr ≠ some rr.issuer := by
    simp only [decide_eq_false_iff_not, not_or] at hkeep
    exact hkeep.1
  unfold currentIssuer at hne
  unfold receiptService at hne ⊢
  split at hne
  · next hkind =>
    split
    · rwa [hinput] at hne
    · next hk => simp [hk] at hkind
  · next hkind =>
    split
    · next hk => simp [hk] at hkind
    · rwa [hvfs] at hne

theorem acts_drainPrepared (visits budget i : Nat) :
    Acts env license w (drainPrepared visits budget i w) := by
  have hcursor (u : World) (i : Nat) : Acts env license u { u with drainPreparedCursor := i } :=
    touch { Touch.refl u with }
  induction visits generalizing budget i w with
  | zero => exact hcursor w i
  | succ _ ih =>
    unfold drainPrepared
    split
    · exact hcursor w i
    dsimp only
    split
    · exact hcursor w _
    next p hp =>
    split
    · next hdead =>
      split
      · exact ih _ _
      · next hnone =>
        exact ReflTransGen.head (.dropPrepared _ p hp hdead.1 hdead.2 (by simpa using hnone))
          (ih _ _)
    · exact ih _ _

theorem acts_retainBootstraps (hinput : input = (w.binding serviceInput).toOption) :
    Acts env license w (w.retainBootstraps input) := by
  refine .one (.dropBootstraps _ fun b _ hkeep => ?_)
  simp only [decide_eq_false_iff_not, not_or, not_and] at hkeep
  refine ⟨by simpa using hkeep.1, ?_⟩
  by_cases hlive : w.ownerLive b.controller = true
  · exact .inr (hinput ▸ hkeep.2 hlive)
  · exact .inl (by simpa using hlive)

theorem acts_drainOperations (visits budget i last : Nat) :
    Acts env license w (drainOperations visits budget i last w) := by
  have hcursor (u : World) (last : Nat) :
      Acts env license u { u with drainOperationCursor := last } :=
    touch { Touch.refl u with }
  induction visits generalizing budget i last w with
  | zero => exact hcursor w last
  | succ _ ih =>
    unfold drainOperations
    split
    · exact hcursor w last
    dsimp only
    split
    · exact hcursor w last
    next o ho =>
    split
    · exact ih _ _ _
    next hdead =>
    split
    · next hdrained =>
      have hmem : o ∈ w.operations := mem_of_getElem? ho
      exact ReflTransGen.head (.removeOperation o hmem hdrained
        (.inr (by simpa using hdead))) (ih _ _ _)
    · exact ih _ _ _

/-- The first loop of `drain_dead` touches nothing but the child records. -/
theorem drainPrepared_frame (w : World) (visits budget i : Nat) :
    ∃ prepared cursor, drainPrepared visits budget i w =
      { w with prepared, drainPreparedCursor := cursor } := by
  induction visits generalizing budget i w with
  | zero => exact ⟨_, _, rfl⟩
  | succ _ ih =>
    unfold drainPrepared
    split
    · exact ⟨_, _, rfl⟩
    dsimp only
    split
    · exact ⟨_, _, rfl⟩
    split
    · split
      · exact ih _ _ _
      · obtain ⟨prepared, cursor, he⟩ := ih { w with prepared := w.prepared.eraseIdx _ }
          (budget - 1) _
        exact ⟨prepared, cursor, he⟩
    · exact ih _ _ _

theorem acts_drainDead (hinput : input = (w.binding serviceInput).toOption) :
    Acts env license w (w.drainDead input) := by
  refine ReflTransGen.trans (acts_drainPrepared _ _ _) (ReflTransGen.trans
    (acts_retainBootstraps ?_) (acts_drainOperations _ _ _ _))
  obtain ⟨_, _, he⟩ := w.drainPrepared_frame w.prepared.length drainBudget w.drainPreparedCursor
  rw [he, hinput]
  exact congrArg _ ((Life.of_eq rfl rfl rfl).binding _).symm

/-- **Maintenance is a sequence of acts.** -/
theorem acts_maintenance : Acts env license w (w.maintenance env) := by
  have c := closing env license
  have e := Edits.closing env
  unfold maintenance
  extract_lets s input vfs receipts bootstraps
  -- the providers are looked up once; nothing before their use changes a lifetime
  have hlife : Life s.2 bootstraps :=
    (Edits.life (e.expireReceipts input vfs _ s)).trans (Edits.life (e.expireBootstraps input _ _))
  have hinput : input = (bootstraps.binding serviceInput).toOption := by rw [hlife.binding]
  have hvfs : vfs = (bootstraps.binding serviceVfs).toOption := by rw [hlife.binding]
  have hloops : Acts env license w bootstraps :=
    ReflTransGen.trans (ReflTransGen.trans (c.expirePrepared _ (abortBudget, w))
      (c.expireReceipts input vfs _ s)) (c.expireBootstraps input _ _)
  refine hloops.trans (ReflTransGen.trans (acts_retainReceipts hinput hvfs) (acts_drainDead ?_))
  rw [hinput]
  exact congrArg _ ((Life.of_eq rfl rfl rfl).binding _).symm

/-! ## handlers -/

theorem acts_createOperation (h : w.createOperation env actor body = .ok (payload, w')) :
    Acts env license w w' := by
  simp only [createOperation, bind_eq_ok, require_eq_ok, pure_eq_ok] at h
  obtain ⟨_, -, _, hdepth, -, -, ⟨_, _⟩, hmint, h⟩ := h
  obtain ⟨rfl, rfl⟩ := mint_eq_ok hmint
  obtain ⟨-, rfl⟩ := h
  refine .one (.operation _ rfl ⟨rfl, rfl, rfl⟩ ?_)
  unfold childDepth at hdepth
  split at hdepth
  · next hzero => exact .inl hzero
  · simp only [bind_eq_ok] at hdepth
    obtain ⟨o, ho, -⟩ := hdepth
    exact .inr (active_of_opActive ho)

theorem acts_createStream (attempt : Nat) (actor : Principal) (operation : Ref) (capacity : Nat) :
    Acts env license w (w.createStream env attempt actor operation capacity).2 := by
  unfold createStream
  split
  · exact .refl
  next hchecked =>
  simp only [checkStreamArgs, bind_eq_ok] at hchecked
  obtain ⟨o, ho, -⟩ := hchecked
  split
  · exact .refl
  next hreader =>
  split
  · exact touch (Touch.mint hreader)
  next hwriter =>
  obtain ⟨rfl, rfl⟩ := mint_eq_ok hreader
  obtain ⟨rfl, rfl⟩ := mint_eq_ok hwriter
  split
  · exact touch { Touch.refl w with next := Nat.le_add_right w.next 2 }
  · exact .one (.stream actor operation capacity (active_of_opActive ho))

theorem acts_createStreamRequest (actor : Principal) (body : Bytes) :
    Acts env license w (w.createStreamRequest env actor body).2 := by
  unfold createStreamRequest
  split
  · exact .refl
  next operation capacity _ =>
  have h : Acts env license w (w.createStream env 0 actor operation capacity).2 :=
    acts_createStream 0 actor operation capacity
  split
  all_goals
    next heq =>
    rw [heq] at h
    exact h

theorem acts_createStreams (actor : Principal) (operation : Ref) (capacity : Nat)
    (attempts : List Nat) (made : List (Ref × Ref)) :
    Acts env license w (createStreams env actor operation capacity attempts made w).2 := by
  induction attempts generalizing made w with
  | nil => exact .refl
  | cons attempt _ ih =>
    have h : Acts env license w (w.createStream env attempt actor operation capacity).2 :=
      acts_createStream attempt actor operation capacity
    unfold createStreams
    split
    · next heq =>
      rw [heq] at h
      exact h.trans (ih _)
    · next heq =>
      rw [heq] at h
      exact h.trans (foldl fun u x _ => .one (.closeReservation x))

theorem kept_bootstrapEnd (owner : Binding) (n : Nat) (e : Endpoint) :
    e.Kept (bootstrapEnd owner n e) := by
  have hrights : (bootstrapEnd owner n e).rights &&& 3 ≠ 3 := by
    unfold bootstrapEnd
    repeat' split
    all_goals
      dsimp only
      decide
  refine ⟨?_, ?_, ?_, ?_, ?_, ?_, fun _ => hrights⟩
  all_goals
    unfold bootstrapEnd
    dsimp only
    split <;> rfl

theorem acts_installBootstrap (actor : Principal) (operation : Ref) (owner : Binding)
    (capacity : Nat) :
    Acts env license w (w.installBootstrap env actor operation owner capacity).2 := by
  unfold installBootstrap
  split
  · exact .refl
  split
  · exact .refl
  next u hmint =>
  have hu : Acts env license w u := touch (Touch.mint hmint)
  split
  · exact hu
  have hstreams : Acts env license u
      (createStreams env actor operation capacity (range 4) [] u).2 :=
    acts_createStreams actor operation capacity _ _
  split
  · next heq =>
    rw [heq] at hstreams
    exact hu.trans hstreams
  · next streams v heq =>
    rw [heq] at hstreams
    have hends : Acts env license v ((bootstrapOrder streams).zipIdx.foldl
        (fun w s => w.setEndpoint s.1 (bootstrapEnd owner s.2)) v) :=
      foldl fun x s _ => touch (Touch.setEndpoint (kept_bootstrapEnd owner s.2))
    exact ((hu.trans hstreams).trans hends).tail (.bootstrap _)

theorem acts_bootstrapSession (actor : Principal) (body : Bytes) :
    Acts env license w (w.bootstrapSession env actor body).2 := by
  unfold bootstrapSession
  split
  · exact .refl
  next operation owner capacity _ =>
  have h : Acts env license w (w.installBootstrap env actor operation owner capacity).2 :=
    acts_installBootstrap actor operation owner capacity
  split
  all_goals
    next heq =>
    rw [heq] at h
    exact h

theorem checkDerive_eq_ok (h : w.checkDerive actor source rights needed = .ok e) :
    Usable w actor source needed e ∧ rights &&& 3 = e.rights &&& 3 := by
  simp only [checkDerive, bind_eq_ok, require_eq_ok, pure_eq_ok] at h
  obtain ⟨-, -, _, he, -, hrights, rfl⟩ := h
  exact ⟨endpoint_eq_ok he, hrights.2⟩

theorem acts_duplicateEndpoint (actor : Principal) (body : Bytes) :
    Acts env license w (w.duplicateEndpoint env actor body).2 := by
  unfold duplicateEndpoint
  split
  · exact .refl
  next hchecked =>
  simp only [checkDuplicate, bind_eq_ok, pure_eq_ok, Prod.mk.injEq] at hchecked
  obtain ⟨⟨_, rights'⟩, -, e', he, -, -, rfl, rfl⟩ := hchecked
  obtain ⟨husable, hrights⟩ := checkDerive_eq_ok he
  split
  · exact .refl
  next hmint =>
  obtain ⟨rfl, rfl⟩ := mint_eq_ok hmint
  split
  · exact touch (Touch.mint hmint)
  next rings heq =>
  have hrings : rings = (duplicateEnd w.rings e'.handle).2 := by rw [heq]
  subst hrings
  exact .one (.duplicate e' actor rights' (mem_of_find husable.found).1 husable.counted
    husable.active hrights (by rw [heq]))

theorem acts_delegateEndpoint (h : w.delegateEndpoint env actor body = .ok (payload, w')) :
    Acts env license w w' := by
  simp only [delegateEndpoint, bind_eq_ok, require_eq_ok, pure_eq_ok] at h
  obtain ⟨⟨_, _, rights⟩, -, e, he, p, hp, -, ⟨rfl, -⟩, -, -, ⟨_, _⟩, hmint, h⟩ := h
  obtain ⟨husable, hrights⟩ := checkDerive_eq_ok he
  obtain ⟨hfind, -, -, hstaged⟩ := preparing_eq_ok hp
  obtain ⟨rfl, rfl⟩ := mint_eq_ok hmint
  obtain ⟨-, rfl⟩ := h
  exact .one (.delegate e p rights (mem_of_find husable.found).1 (mem_of_find?_eq_some hfind)
    hstaged hrights)

theorem acts_closeEndpoint (h : w.closeEndpoint env actor body = .ok w') : Acts env license w w' := by
  simp only [closeEndpoint, bind_eq_ok, require_eq_ok, pure_eq_ok] at h
  obtain ⟨reference, -, -, -, -, -, -, -, rfl⟩ := h
  exact .one (.closeHolder reference _ (by simp))

theorem acts_cancelOperation (h : w.cancelOperation env actor body = .ok w') : Acts env license w w' := by
  simp only [cancelOperation, bind_eq_ok] at h
  obtain ⟨⟨operation, _⟩, -, _, -, h⟩ := h
  split at h
  · simp only [bind_eq_ok, pure_eq_ok] at h
    obtain ⟨-, -, -, -, rfl⟩ := h
    exact .one (.cancel operation _)
  · rw [pure_eq_ok] at h
    subst h
    exact .one (.cancel operation _)

theorem acts_closeOperation
    (hcloses : ∀ r, Reader.parse Reader.reference body = .ok r → license.closes r)
    (h : w.closeOperation actor body = .ok w') : Acts env license w w' := by
  simp only [closeOperation, bind_eq_ok, require_eq_ok, pure_eq_ok] at h
  obtain ⟨_, hparse, o, ho, -, -, -, hdrained, rfl⟩ := h
  obtain ⟨hmem, rfl⟩ := operation_eq_ok ho
  exact .one (.removeOperation o hmem hdrained (.inl (hcloses _ hparse)))

theorem checkWrite_eq_ok (h : w.checkWrite actor body = .ok (p, bytes)) :
    w.PreparedAt p.reference p ∧ p.state = .staged := by
  simp only [checkWrite, bind_eq_ok, require_eq_ok, pure_eq_ok, Prod.mk.injEq] at h
  obtain ⟨⟨_, _, _⟩, -, -, -, _, hq, -, -, rfl, -⟩ := h
  obtain ⟨hfind, rfl, -, hstaged⟩ := preparing_eq_ok hq
  exact ⟨hfind, hstaged⟩

theorem find?_setPrepared (h : w.PreparedAt r p) (hf : (f p).reference = r) :
    (w.setPrepared r f).PreparedAt r (f p) :=
  find?_updateFirst_self h (by simpa using hf)

theorem touch_installContext (hp : w.PreparedAt p.reference p)
    (h : w.installContext env platform p = .ok w') : Touch w w' := by
  simp only [installContext, bind_eq_ok, require_eq_ok, demand_eq_ok, pure_eq_ok] at h
  obtain ⟨_, hparsed, -, -, -, -, -, -, -, -, publication, hpublication, rfl⟩ := h
  refine Touch.setPrepared fun q hq => ?_
  cases hp.symm.trans hq
  refine ⟨rfl, rfl, rfl, rfl, fun r hr => ?_, .inr rfl, fun _ c hc => ?_, id, fun h => ⟨h, id⟩⟩
  · cases hr
    exact ⟨publication, hpublication, rfl⟩
  · cases hc
    exact validate_sound hparsed

theorem acts_writeContext (actor : Principal) (body : Bytes) :
    Acts env license w (w.writeContext env platform actor body).2 := by
  unfold writeContext
  split
  · exact .refl
  next p _ hchecked =>
  obtain ⟨hfind, -⟩ := checkWrite_eq_ok hchecked
  extract_lets p' u payload
  have hu : Acts env license w u := by
    refine touch (Touch.setPrepared fun q hq => ?_)
    cases hfind.symm.trans hq
    exact { Prepared.Moves.refl p with }
  split
  · split
    · exact hu.trans ((closing env license).abort p.reference false)
    · next hv =>
      exact hu.trans (touch (touch_installContext (find?_setPrepared hfind rfl) hv))
  · exact hu

theorem acts_bindReceipt (h : w.bindReceipt actor body = .ok w') : Acts env license w w' := by
  simp only [bindReceipt, bind_eq_ok, pure_eq_ok] at h
  obtain ⟨⟨reference, _, _, _, receipt⟩, -, p, -, rr, -, -, -, index, -, -, -, -, -, -, -, rfl⟩ := h
  have hprepared : Acts env license w (w.setPrepared reference fun p =>
      { p with receipts := p.receipts.set index receipt }) :=
    touch (Touch.setPrepared fun q _ => { Prepared.Moves.refl q with })
  exact hprepared.trans (touch (.setReceipt fun _ => ⟨rfl, rfl, rfl, rfl, rfl, rfl, id⟩))

theorem acts_authorizeBind (h : w.authorizeBind actor body = .ok (payload, w')) :
    Acts env license w w' := by
  simp only [authorizeBind, bind_eq_ok, require_eq_ok, pure_eq_ok] at h
  obtain ⟨⟨_, _, _, _⟩, -, _, hp, -, -, -, -, -, ⟨-, hnone, -⟩, _, -, -, -, _, -,
    -, -, -, -, ⟨intent, u⟩, hmint, h⟩ := h
  obtain ⟨-, rfl⟩ := h
  obtain ⟨hfind, -⟩ := preparing_eq_ok hp
  obtain ⟨rfl, rfl⟩ := mint_eq_ok hmint
  refine (touch (Touch.mint hmint)).trans (touch (Touch.setPrepared fun q hq => ?_))
  cases hfind.symm.trans hq
  exact { Prepared.Moves.refl _ with intent := .inl hnone }

theorem acts_commitChild (actor : Principal) (body : Bytes)
    (hcommits : ∀ p, Reader.parse Reader.reference body = .ok p.reference → license.commits w p) :
    Acts env license w (w.commitChild env actor body).2 := by
  unfold commitChild
  split
  · exact .refl
  next htarget =>
  simp only [commitTarget, bind_eq_ok, pure_eq_ok] at htarget
  obtain ⟨_, hparse, q, hq, _, ho, rfl⟩ := htarget
  obtain ⟨hfind, rfl, -, hstaged⟩ := preparing_eq_ok hq
  split
  · exact (closing env license).abort _ true
  split
  · exact .refl
  · next plan hplan =>
    exact .one (.commit q plan hfind hstaged (active_of_opActive ho) hplan (hcommits q hparse))

theorem acts_abortChild (h : w.abortChild env actor body = .ok w') : Acts env license w w' := by
  simp only [abortChild, bind_eq_ok, require_eq_ok, pure_eq_ok] at h
  obtain ⟨reference, -, -, -, -, -, -, -, rfl⟩ := h
  exact (closing env license).abort reference false

theorem peerSources_eq_ok (h : w.peerSources env p = .ok (s, t)) :
    ∃ i, p.intent = some i ∧ s ∈ w.endpoints ∧ t ∈ w.endpoints ∧ s.reference = i.writers.1
      ∧ t.reference = i.writers.2 := by
  simp only [peerSources, bind_eq_ok, demand_eq_ok, pure_eq_ok, Prod.mk.injEq] at h
  obtain ⟨-, -, i, hi, _, hs, _, ht, rfl, rfl⟩ := h
  obtain ⟨hs, hsref⟩ := mem_of_find (endpoint_eq_ok hs).found
  obtain ⟨ht, htref⟩ := mem_of_find (endpoint_eq_ok ht).found
  exact ⟨i, hi, hs, ht, hsref, htref⟩

theorem checkReceipt_eq_ok {q : ReceiptRequest} {issuer : Binding}
    (h : w.checkReceipt env platform actor q = .ok (p, issuer)) :
    w.PreparedAt p.reference p ∧ p.reference = q.reference
      ∧ p.state = .staged := by
  simp only [checkReceipt, bind_eq_ok, require_eq_ok, pure_eq_ok, Prod.mk.injEq] at h
  obtain ⟨_, hp, -, hstaged, -, -, -, -, -, -, -, -, -, -, -, -, -, -, rfl, -⟩ := h
  obtain ⟨hfind, -, href⟩ := preparation_eq_ok hp
  exact ⟨href ▸ hfind, href, hstaged⟩

/-- Reserving the peers of a receipt mints references, and adds both peers or none. -/
theorem reservePeers_cases (w : World) (env : Env) (p : Prepared) (issuer : Binding) :
    (∃ status, (w.reservePeers env p issuer).1 = .error status
        ∧ Touch w (w.reservePeers env p issuer).2) ∨
      ∃ i s t, p.intent = some i ∧ s ∈ w.endpoints ∧ t ∈ w.endpoints ∧ s.reference = i.writers.1
        ∧ t.reference = i.writers.2
        ∧ w.reservePeers env p issuer = (.ok (⟨w.next, 1⟩, ⟨w.next + 1, 1⟩), { w with
            next := w.next + 2
            endpoints := w.endpoints ++
              [peer p issuer ⟨w.next, 1⟩ s, peer p issuer ⟨w.next + 1, 1⟩ t] }) := by
  unfold reservePeers
  split
  · exact .inl ⟨_, rfl, .refl w⟩
  next s t hsources =>
  obtain ⟨i, hi, hs, ht, hsref, htref⟩ := peerSources_eq_ok hsources
  split
  · exact .inl ⟨_, rfl, .refl w⟩
  next hfirst =>
  split
  · exact .inl ⟨_, rfl, Touch.mint hfirst⟩
  next hsecond =>
  obtain ⟨rfl, rfl⟩ := mint_eq_ok hfirst
  obtain ⟨rfl, rfl⟩ := mint_eq_ok hsecond
  exact .inr ⟨i, s, t, hi, hs, ht, hsref, htref, rfl⟩

theorem acts_registerReceipt (actor : Principal) (body : Bytes) :
    Acts env license w (w.registerReceipt env platform actor body).2 := by
  unfold registerReceipt
  split
  · exact .refl
  next q _ =>
  split
  · exact .refl
  next p issuer hchecked =>
  obtain ⟨hfind, href, hstaged⟩ := checkReceipt_eq_ok hchecked
  split
  · exact .refl
  next receipt u hmint =>
  obtain ⟨rfl, rfl⟩ := mint_eq_ok hmint
  have hpending (producers : Ref × Ref) :
      Pending w p (newReceipt q p issuer ⟨w.next, 1⟩ producers) :=
    ⟨hfind, hstaged, rfl, href.symm, rfl⟩
  unfold receiptPeers
  by_cases hkind : q.kind = 1
  · rw [if_pos hkind]
    rcases reservePeers_cases { w with next := w.next + 1 } env p issuer with
      ⟨status, hstatus, htouch⟩ | ⟨i, s, t, hi, hs, ht, hsref, htref, heq⟩
    · have hmint : Acts env license w { w with next := w.next + 1 } := touch (Touch.mint hmint)
      split
      · next heq =>
        rw [heq] at htouch
        exact hmint.trans (touch htouch)
      · next heq =>
        rw [heq] at hstatus
        cases hstatus
    · rw [heq]
      exact .one (.foreground p issuer i s t _ (hpending _) hi hs ht ⟨hsref, htref⟩ rfl)
  · rw [if_neg hkind]
    exact .one (.receipt p _ (hpending _) rfl)

theorem acts_resolveReceipt (h : w.resolveReceipt env actor body = .ok (payload, w')) :
    Acts env license w w' := by
  simp only [resolveReceipt, bind_eq_ok] at h
  obtain ⟨⟨reference, _⟩, -, rr, -, -, -, -, -, -, -, u, hu, _, -, h⟩ := h
  have habort : Acts env license w u := by
    unfold abortPending at hu
    split at hu
    · simp only [bind_eq_ok, pure_eq_ok] at hu
      obtain ⟨p, -, rfl⟩ := hu
      exact (closing env license).abort _ false
    · rw [pure_eq_ok] at hu
      exact hu ▸ .refl
  obtain ⟨-, rfl⟩ := h
  split
  · have hmaterialized : Acts env license u
        (u.setReceipt reference fun rr => { rr with materialized := true }) :=
      touch (.setReceipt fun _ => ⟨rfl, rfl, rfl, rfl, rfl, rfl, id⟩)
    exact (habort.trans hmaterialized).tail (.reclaim _)
  · exact habort

theorem acts_bootstrapAction
    (h : w.bootstrapAction env b isIssuer action session = .ok w') : Acts env license w w' := by
  unfold bootstrapAction at h
  split at h
  · cases h
    exact .refl
  · simp only [bind_eq_ok] at h
    obtain ⟨-, -, h⟩ := h
    split at h
    · cases h
      exact touch (.setBootstrap fun _ => ⟨rfl, rfl, rfl, rfl, rfl⟩)
    · simp only [bind_eq_ok, pure_eq_ok] at h
      obtain ⟨-, -, rfl⟩ := h
      exact .refl
  · split at h
    · cases h
      exact (closing env license).closeBootstrap _ _
    · cases h
      exact .refl
  · simp only [bind_eq_ok, pure_eq_ok] at h
    obtain ⟨-, -, -, -, -, -, rfl⟩ := h
    have hactive : Acts env license w
        (w.setBootstrap b.reference fun b => { b with session, state := .active }) :=
      touch (.setBootstrap fun _ => ⟨rfl, rfl, rfl, rfl, rfl⟩)
    refine hactive.trans (foldl fun u r _ => ?_)
    exact touch (Touch.setEndpoint fun e => ⟨rfl, rfl, rfl, rfl, rfl, rfl, id⟩)

theorem acts_resolveBootstrap (h : w.resolveBootstrap env actor body = .ok (payload, w')) :
    Acts env license w w' := by
  simp only [resolveBootstrap, bind_eq_ok, pure_eq_ok, Prod.mk.injEq] at h
  obtain ⟨⟨_, _, _⟩, -, _, -, -, -, -, -, _, hu, _, -, -, rfl⟩ := h
  exact acts_bootstrapAction hu

theorem acts_releaseProducers {rr : Receipt} {controller : Principal} {stdin control : Ref}
    (h : w.releaseProducers env rr controller stdin control = .ok w') : Acts env license w w' := by
  have hclose (u : World) (r : Ref) : Acts env license u (u.closeHolder env r .closed) :=
    .one (.closeHolder r _ (by simp))
  have hflush (u : World) (handle : PipeHandle) : Acts env license u (u.sessionFlush handle) :=
    touch (Touch.sessionFlush handle)
  unfold releaseProducers at h
  split at h
  · cases h
    exact .refl
  simp only [bind_eq_ok, pure_eq_ok] at h
  obtain ⟨_, -, _, -, -, -, rfl⟩ := h
  have hrestored (u : World) : Acts env license u
      (u.setReceipt rr.reference fun rr => { rr with restored := true }) :=
    touch (.setReceipt fun _ => ⟨rfl, rfl, rfl, rfl, rfl, rfl, id⟩)
  exact ((((hclose _ _).trans (hclose _ _)).trans (hflush _ _)).trans (hflush _ _)).trans
    (hrestored _)

theorem acts_restore (h : w.restore env actor body = .ok (payload, w')) : Acts env license w w' := by
  simp only [restore, bind_eq_ok, pure_eq_ok, Prod.mk.injEq] at h
  obtain ⟨⟨_, _, _⟩, -, _, -, -, -, -, -, -, -, -, -, _, -, -, -, -, -, _, -, -, -,
    u, hu, -, rfl⟩ := h
  exact acts_releaseProducers hu

theorem acts_setLedger (actor : Principal) (operation : Ref)
    (h : ∀ l, w.ledgerOf actor operation = some l → l.Kept (f l)) :
    Acts env license w (w.setLedger actor operation f) :=
  .one (.ledgers _ (forall₂_updateFirst .refl h))

theorem acts_acknowledge (h : w.acknowledge actor body = .ok w') : Acts env license w w' := by
  simp only [acknowledge, bind_eq_ok, demand_eq_ok] at h
  obtain ⟨⟨operation, through⟩, -, l, hl, h⟩ := h
  split at h
  · cases h
    exact .refl
  next hthrough =>
  simp only [bind_eq_ok, pure_eq_ok] at h
  obtain ⟨-, -, rfl⟩ := h
  refine ReflTransGen.tail (acts_setLedger _ _ fun k hk => ?_) (.reclaim operation)
  cases hl.symm.trans hk
  refine ⟨rfl, rfl, rfl, Nat.le_of_not_le hthrough, fun o ho => ⟨o, (mem_filter.mp ho).1, .refl o⟩, ?_⟩
  intro o ho
  by_cases hid : through < o.requestId
  · exact .inl ⟨o, mem_filter.mpr ⟨ho, by simpa using hid⟩, .refl o⟩
  · exact .inr (by simpa using hid)

/-! ## requests -/

/-- What a request may do. -/
def licenseOf (w : World) (selector : Nat) (body : Bytes) : License where
  closes := fun r => selector = 20 ∧ Reader.parse Reader.reference body = .ok r
  commits := fun u p => u = w ∧ selector = 13 ∧ Reader.parse Reader.reference body = .ok p.reference

theorem acts_writes (h : ∀ payload w', x = .ok (payload, w') → Acts env license w w') :
    Acts env license w (writes w x).2 := by
  unfold writes
  split
  · exact .refl
  · exact h _ _ rfl

theorem acts_changes (h : ∀ w', x = .ok w' → Acts env license w w') :
    Acts env license w (changes w x).2 := by
  unfold changes
  split
  · exact .refl
  · exact h _ rfl

/-- **Execution is a sequence of acts.** -/
theorem acts_execute (actor : Principal) (selector : Nat) (body : Bytes) :
    Acts env (w.licenseOf selector body) w (w.execute env platform actor selector body).2 := by
  unfold execute
  split
  · exact acts_writes fun _ _ => acts_createOperation
  · exact acts_createStreamRequest actor body
  · exact acts_duplicateEndpoint actor body
  · exact acts_writes fun _ _ => acts_delegateEndpoint
  · exact acts_changes fun _ => acts_closeEndpoint
  · exact acts_changes fun _ => acts_cancelOperation
  · exact .refl
  · exact acts_writeContext actor body
  · exact acts_changes fun _ => acts_bindReceipt
  · exact acts_commitChild actor body fun p hp => ⟨rfl, rfl, hp⟩
  · exact acts_changes fun _ => acts_abortChild
  · exact acts_registerReceipt actor body
  · exact acts_writes fun _ _ => acts_resolveReceipt
  · exact .refl
  · exact .refl
  · exact .refl
  · exact acts_changes fun _ h => acts_closeOperation (fun r hr => ⟨rfl, hr⟩) h
  · exact acts_bootstrapSession actor body
  · exact acts_writes fun _ _ => acts_resolveBootstrap
  · exact .refl
  · exact .refl
  · exact acts_changes fun _ => acts_acknowledge
  · exact .refl
  · exact acts_writes fun _ _ => acts_authorizeBind
  · split
    · exact .refl
    · next h =>
        simp only [queryRequest, bind_eq_ok, pure_eq_ok, Prod.mk.injEq] at h
        obtain ⟨⟨_, _⟩, -, l, -, o, -, -, -, -, rfl⟩ := h
        exact acts_setLedger _ _ fun l _ => kept_setOutcome fun o => ⟨rfl, rfl, rfl, rfl⟩
  · exact acts_writes fun _ _ => acts_restore
  · exact .refl
  · exact .refl

/-- What `dispatch` settled before it executes. -/
theorem admitted_eq_ok (h : w.admitted caller request = .ok i) :
    RequestHeader.decode request = .ok i.header ∧ w.resolveActor caller = .ok i.actor ∧
      w.requestOperation i.actor i.header.selector (request.drop headerLen)
        (mutating i.header.selector (request.drop headerLen)) = .ok i.operation := by
  unfold admitted at h
  split at h
  · cases h
  next hheader =>
  dsimp only at h
  split at h
  · cases h
  next hresolved =>
  cases h
  simp only [bind_eq_ok, pure_eq_ok, Prod.mk.injEq] at hresolved
  obtain ⟨_, hactor, _, hoperation, rfl, rfl⟩ := hresolved
  exact ⟨hheader, hactor, hoperation⟩

/-! ## slow calls -/

theorem acts_stageChild
    (h : w.stageChild env platform call deadline = .ok (payload, w')) : Acts env license w w' := by
  simp only [stageChild, bind_eq_ok] at h
  obtain ⟨⟨_, _⟩, -, -, -, -, -, h⟩ := h
  split at h
  · cases h
  · simp only [bind_eq_ok, pure_eq_ok, Prod.mk.injEq] at h
    obtain ⟨-, -, _, -, -, -, _, ho, -, -, -, -, -, rfl⟩ := h
    exact .one (.stage env.cellId _ ⟨rfl, rfl, ⟨_, rfl, rfl⟩, rfl, rfl, rfl, active_of_opActive ho⟩)

theorem touch_sessionRead (h : w.sessionRead handle n = some (out, w')) : Touch w w' := by
  unfold sessionRead at h
  rw [map_eq_some_iff] at h
  obtain ⟨p, hp, h⟩ := h
  split at h
  · cases h
    exact Touch.ring hp rfl rfl
  split at h
  · cases h
    exact .refl w
  · cases h
    exact .refl w

theorem touch_sessionWrite (h : w.sessionWrite handle src = some (out, w')) : Touch w w' := by
  unfold sessionWrite at h
  rw [map_eq_some_iff] at h
  obtain ⟨p, hp, h⟩ := h
  split at h
  · cases h
    exact .refl w
  split at h
  · cases h
    exact .refl w
  · cases h
    exact Touch.ring hp rfl rfl

theorem touch_streamTurn (call : Call) : Touch w (w.streamTurn env call).2 := by
  unfold streamTurn
  split
  · exact .refl w
  extract_lets waiting
  split
  · split
    · exact .refl w
    all_goals
      next h => exact touch_sessionRead h
  · split
    · exact .refl w
    all_goals
      next h => exact touch_sessionWrite h

/-- **A section of a slow call is a sequence of acts.** -/
theorem acts_resume (call : Call) : Acts env license w (w.resume env platform call) := by
  have hcall (u : World) (phase : Phase) : Acts env license u (u.setCall call.caller phase) :=
    touch { Touch.refl u with }
  unfold resume
  split
  · split
    · exact hcall w _
    · exact hcall w _
  · split
    · exact hcall w _
    · next h => exact (acts_stageChild h).trans (hcall _ _)
  · have hturn : Acts env license w (w.streamTurn env call).2 := touch (touch_streamTurn call)
    split
    · next heq =>
      rw [heq] at hturn
      exact hturn
    · next heq =>
      rw [heq] at hturn
      exact hturn.trans (hcall _ _)
  · exact .refl

/-! ## steps -/

theorem beginRequest_frame (w : World) (env : Env) (actor : Principal) (operation : Ref) (id : Nat)
    (request : Bytes) :
    ∃ ledgers, (w.beginRequest env actor operation id request).2 = { w with ledgers } := by
  have hopen : ∀ l u, w.openLedger env actor operation = .ok (l, u) →
      ∃ ledgers, u = { w with ledgers } := by
    intro l u h
    unfold openLedger at h
    split at h
    · cases h
      exact ⟨_, rfl⟩
    · simp only [bind_eq_ok, pure_eq_ok, Prod.mk.injEq] at h
      obtain ⟨-, -, -, rfl⟩ := h
      exact ⟨_, rfl⟩
  unfold beginRequest
  split
  · exact ⟨_, rfl⟩
  next l u hu =>
  obtain ⟨_, rfl⟩ := hopen l u hu
  repeat' split
  all_goals exact ⟨_, rfl⟩

end World

/-- What a step can do: it changes calls, ledgers and the registry only, is a sequence of acts,
executes a request between two such changes, or a cell or task begins or ends. -/
inductive Course (platform : Platform) (op : Op) (w : World) : World → Prop
  | books (ledgers : List Ledger) (calls : List Call) (registry : Nat → Option Binding) :
      Course platform op w { w with ledgers, calls, registry }
  | acts (env : Env) (w' : World) (h : ∀ license, Acts env license w w') : Course platform op w w'
  | executed (env : Env) (caller : Nat) (request : Bytes) (header : RequestHeader)
      (actor : Principal) (before after : List Ledger) (calls : List Call) (u : World)
      (hop : op = .request env caller request) (hheader : RequestHeader.decode request = .ok header)
      (hu : u = (execute env platform { w with ledgers := before } actor header.selector
        (request.drop headerLen)).2) : Course platform op w { u with ledgers := after, calls }
  | killed (env : Env) : Course platform op w (w.deliverKill env)
  | exited (env : Env) (tid : Nat) (reason : Option Nat) :
      Course platform op w (w.exitTask env tid reason)
  | retired (principal : Principal) : Course platform op w (w.finishRetirement principal)
  | spawned (cellId : Nat) : Course platform op w (w.spawn cellId)
  | threaded (tid : Nat) : Course platform op w (w.thread tid)

section

variable {w : World}

theorem Course.same : Course platform op w w := .books w.ledgers w.calls w.registry

theorem course_dispatch (hop : op = .request env caller request) :
    Course platform op w (w.dispatch env platform caller request).2 := by
  unfold dispatch
  split
  · exact .same
  next i hi =>
  obtain ⟨hheader, -⟩ := admitted_eq_ok hi
  dsimp only
  split
  · exact .executed env caller request _ i.actor w.ledgers _ _ _ hop hheader rfl
  obtain ⟨ledgers, hbegin⟩ := w.beginRequest_frame env i.actor i.operation i.header.requestId
    request
  have hentered : Course platform op w { w with ledgers } := .books ledgers w.calls w.registry
  split
  · next heq =>
    rw [heq] at hbegin
    exact hbegin ▸ hentered
  · next heq =>
    rw [heq] at hbegin
    exact hbegin ▸ hentered
  · next heq =>
    rw [heq] at hbegin
    cases hbegin
    split
    · exact .books ledgers _ w.registry
    · exact .executed env caller request _ i.actor ledgers _ _ _ hop hheader rfl

theorem course_enterStdio (caller selector fd count : Nat) (bytes : Bytes) :
    Course platform op w (w.enterStdio caller selector fd count bytes) := by
  unfold enterStdio
  split
  · exact .same
  · exact .books w.ledgers _ w.registry

/-- **What every step does.** -/
theorem step_course (h : step platform w op = some (r, w')) : Course platform op w w' := by
  cases op with
  | request env caller request =>
    simp only [step] at h
    split at h
    · cases h
      exact .same
    · obtain rfl : w' = (w.dispatch env platform caller request).2 := by rw [some.inj h]
      exact course_dispatch rfl
  | resume env =>
    simp only [step] at h
    split at h
    · cases h
      exact .same
    · next call _ =>
      cases h
      exact .acts env _ fun _ => acts_resume call
  | finish caller =>
    obtain rfl : w' = (w.finish caller).2 := by rw [some.inj h]
    unfold finish
    repeat' split
    any_goals exact .same
    all_goals exact .books _ _ w.registry
  | delivered =>
    cases h
    unfold deliver
    repeat' split
    any_goals exact .same
    exact .books _ w.calls w.registry
  | stdioRead | stdioWrite =>
    simp only [step] at h
    split at h
    · cases h
      exact .same
    · cases h
      exact course_enterStdio ..
  | maintain env =>
    cases h
    exact .acts env _ fun _ => acts_maintenance
  | kill env =>
    cases h
    exact .killed env
  | exitTask env tid reason =>
    cases h
    exact .exited env tid reason
  | retired principal =>
    cases h
    exact .retired principal
  | spawn cellId =>
    cases h
    exact .spawned cellId
  | thread tid =>
    cases h
    exact .threaded tid
  | register =>
    cases h
    unfold register
    split
    · exact .same
    · exact .books w.ledgers w.calls _
  | unregister =>
    cases h
    exact .books w.ledgers w.calls _

end

end Cellos.Session
