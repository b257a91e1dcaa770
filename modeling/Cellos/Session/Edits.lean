import Cellos.Session.Dispatch

/-!
# Cellos.Session.Edits

What the session code can do to its tables, said once.

`Touch` is a change that keeps the identity of every row: which records there are, what
they name, which counts they own.  `Edit` adds what closing and cancelling do: mark
operations and close one holder.  Every function of `Cancel.lean` is a sequence of edits,
so an invariant that an edit keeps is kept by all of them.
-/

namespace Cellos.Session

open Lib List Function World
open Pipes (Pipe PipeHandle)
open Relation (ReflTransGen)

/-! ## rows -/

/-- The holder record that is found under a reference. -/
abbrev World.EndpointAt (w : World) (r : Ref) (e : Endpoint) : Prop :=
  w.endpoints.find? (fun e => e.reference = r) = some e

/-- The child record that is found under a reference. -/
abbrev World.PreparedAt (w : World) (r : Ref) (p : Prepared) : Prop :=
  w.prepared.find? (fun p => p.reference = r) = some p

/-- A state in which an endpoint has given its end back. -/
@[simp] abbrev EndpointState.Final (state : EndpointState) : Prop :=
  state ≠ .opened ∧ state ≠ .reserved

/-- What no function changes in an operation. -/
structure Operation.Kept (a b : Operation) : Prop where
  reference : b.reference = a.reference
  owner : b.owner = a.owner
  parent : b.parent = a.parent
  depth : b.depth = a.depth

/-- A holder record that keeps its place and its count. -/
structure Endpoint.Kept (a b : Endpoint) : Prop where
  reference : b.reference = a.reference
  operation : b.operation = a.operation
  parent : b.parent = a.parent
  handle : b.handle = a.handle
  state : b.state = a.state
  prepared : b.prepared = a.prepared
  rights : a.rights &&& 3 ≠ 3 → b.rights &&& 3 ≠ 3

/-- A child record on its way: it is never staged or live again, its intent is settled
once, and a live child keeps its kill flag. -/
structure Prepared.Moves (a b : Prepared) : Prop where
  reference : b.reference = a.reference
  child : b.child = a.child
  preparer : b.preparer = a.preparer
  operation : b.operation = a.operation
  publication : ∀ q, b.publication = some q → ∃ q', a.publication = some q' ∧ q'.owner = q.owner
  intent : a.intent = none ∨ b.intent = a.intent
  parsed : (∀ c, a.parsed = some c → c.Sound) → ∀ c, b.parsed = some c → c.Sound
  staged : b.state = .staged → a.state = .staged
  live : b.state = .live → a.state = .live ∧ (a.kill = true → b.kill = true)

/-- A receipt on its way: it is never pending again. -/
structure Receipt.Moves (a b : Receipt) : Prop where
  reference : b.reference = a.reference
  prepared : b.prepared = a.prepared
  operation : b.operation = a.operation
  issuer : b.issuer = a.issuer
  kind : b.kind = a.kind
  producers : b.producers = a.producers
  pending : b.state = .prepared → a.state = .prepared

/-- A bootstrap on its way. -/
structure Bootstrap.Moves (a b : Bootstrap) : Prop where
  reference : b.reference = a.reference
  controller : b.controller = a.controller
  operation : b.operation = a.operation
  issuer : b.issuer = a.issuer
  endpoints : b.endpoints = a.endpoints

theorem Operation.Kept.refl (a : Operation) : a.Kept a := ⟨rfl, rfl, rfl, rfl⟩

theorem Endpoint.Kept.refl (a : Endpoint) : a.Kept a := ⟨rfl, rfl, rfl, rfl, rfl, rfl, id⟩

theorem Endpoint.Kept.trans (a b c : Endpoint) (h : a.Kept b) (h' : b.Kept c) : a.Kept c := by
  constructor <;> grind [cases Endpoint.Kept]

theorem Prepared.Moves.refl (a : Prepared) : a.Moves a :=
  ⟨rfl, rfl, rfl, rfl, fun q h => ⟨q, h, rfl⟩, .inr rfl, id, id, fun h => ⟨h, id⟩⟩

theorem Prepared.Moves.trans (a b c : Prepared) (h : a.Moves b) (h' : b.Moves c) : a.Moves c := by
  constructor
  case publication =>
    intro q hq
    obtain ⟨q', hq', ho'⟩ := h'.publication q hq
    obtain ⟨q'', hq'', ho''⟩ := h.publication q' hq'
    exact ⟨q'', hq'', ho''.trans ho'⟩
  case parsed => exact h'.parsed ∘ h.parsed
  all_goals grind [cases Prepared.Moves]

theorem Receipt.Moves.refl (a : Receipt) : a.Moves a := ⟨rfl, rfl, rfl, rfl, rfl, rfl, id⟩

theorem Receipt.Moves.trans (a b c : Receipt) (h : a.Moves b) (h' : b.Moves c) : a.Moves c := by
  constructor <;> grind [cases Receipt.Moves]

theorem Bootstrap.Moves.refl (a : Bootstrap) : a.Moves a := ⟨rfl, rfl, rfl, rfl, rfl⟩

theorem Bootstrap.Moves.trans (a b c : Bootstrap) (h : a.Moves b) (h' : b.Moves c) : a.Moves c := by
  constructor <;> grind [cases Bootstrap.Moves]

/-! ## changes of the world -/

/-- A change that keeps every row, every count and every lifetime; a reserved owner slot
may be given back. -/
structure Touch (w w' : World) : Prop where
  next : w.next ≤ w'.next
  operations : w'.operations = w.operations
  endpoints : Forall₂ Endpoint.Kept w.endpoints w'.endpoints
  prepared : Forall₂ Prepared.Moves w.prepared w'.prepared
  receipts : Forall₂ Receipt.Moves w.receipts w'.receipts
  bootstraps : Forall₂ Bootstrap.Moves w.bootstraps w'.bootstraps
  ledgers : w'.ledgers = w.ledgers
  pass : w'.pass = w.pass
  pendingCancels : w'.pendingCancels = w.pendingCancels
  deadRings : w'.deadRings = w.deadRings
  deadOverflow : w'.deadOverflow = w.deadOverflow
  counts : w'.counts = w.counts
  nextRing : w'.nextRing = w.nextRing
  fault : w'.fault = w.fault
  cells : w'.cells.Sublist w.cells
  slots : (w'.cells.filter fun c => c.slot ≠ .reserved) = w.cells.filter fun c => c.slot ≠ .reserved
  tasks : w'.tasks = w.tasks
  registry : w'.registry = w.registry
  nextTask : w'.nextTask = w.nextTask
  nextGeneration : w'.nextGeneration = w.nextGeneration

/-- What the functions that close and cancel are made of. -/
inductive Edit (env : Env) (w : World) : World → Prop where
  | touch {w' : World} (h : Touch w w') : Edit env w w'
  | mark (operations : List Operation) (pass pendingCancels : Nat) (deadRings : List Nat)
      (deadOverflow : Bool) (h : Forall₂ Operation.Kept w.operations operations) :
      Edit env w { w with operations, pass, pendingCancels, deadRings, deadOverflow }
  | close (r : Ref) (state : EndpointState) (h : state ≠ .opened ∧ state ≠ .reserved) :
      Edit env w (w.closeOne env r state)
  | closeReservation (r : Ref) : Edit env w (w.closeReservation r)

/-- A sequence of edits. -/
abbrev Edits (env : Env) : World → World → Prop := ReflTransGen (Edit env)

namespace Touch

theorem refl (w : World) : Touch w w := by
  constructor
  case next => exact le_rfl
  case endpoints => exact forall₂_refl .refl
  case prepared => exact forall₂_refl .refl
  case receipts => exact forall₂_refl .refl
  case bootstraps => exact forall₂_refl .refl
  all_goals rfl

theorem trans (h : Touch w w') (h' : Touch w' w'') : Touch w w'' := by
  constructor
  case next => exact h.next.trans h'.next
  case endpoints => exact forall₂_trans .trans h.endpoints h'.endpoints
  case prepared => exact forall₂_trans .trans h.prepared h'.prepared
  case receipts => exact forall₂_trans .trans h.receipts h'.receipts
  case bootstraps => exact forall₂_trans .trans h.bootstraps h'.bootstraps
  case cells => exact h'.cells.trans h.cells
  all_goals grind [cases Touch]

theorem setPrepared (h : ∀ p, w.PreparedAt r p → p.Moves (f p)) : Touch w (w.setPrepared r f) :=
  { refl w with prepared := forall₂_updateFirst .refl h }

theorem kill (reason : Nat) : Touch w (w.setPrepared r fun p =>
    { p with reason := if p.reason = 0 then reason else p.reason, kill := true }) :=
  setPrepared fun p _ => { Prepared.Moves.refl p with live := fun h => ⟨h, fun _ => rfl⟩ }

theorem setReceipt (h : ∀ rr : Receipt, rr.Moves (f rr)) : Touch w (w.setReceipt r f) :=
  { refl w with receipts := forall₂_updateFirst .refl fun rr _ => h rr }

theorem setBootstrap (h : ∀ b : Bootstrap, b.Moves (f b)) : Touch w (w.setBootstrap r f) :=
  { refl w with bootstraps := forall₂_updateFirst .refl fun b _ => h b }

theorem setEndpoint (h : ∀ e : Endpoint, e.Kept (f e)) : Touch w (w.setEndpoint r f) :=
  { refl w with endpoints := forall₂_updateFirst .refl fun e _ => h e }

theorem mint (h : w.mint = .ok (r, w')) : Touch w w' := by
  unfold World.mint at h
  split at h
  · cases h
    exact { refl w with next := Nat.le_succ _ }
  · cases h

theorem terminalSequence : Touch w w.terminalSequence.2 := by
  unfold World.terminalSequence
  split
  · exact refl w
  · exact { refl w with }

theorem abortOwner (owner : CellOwner) : Touch w (w.abortOwner owner) :=
  { refl w with
    cells := filter_sublist
    slots := by
      rw [World.abortOwner, filter_filter]
      refine filter_congr fun c _ => ?_
      by_cases hslot : c.slot = .reserved <;> simp [hslot] }

theorem ring (hp : w.rings pipe = some p)
    (hreaders : q.readers = p.readers) (hwriters : q.writers = p.writers) :
    Touch w { w with rings := update w.rings pipe (some q) } :=
  { refl w with
    counts := by
      funext handle
      unfold World.counts
      dsimp only
      by_cases hpipe : handle.pipe = pipe
      · rw [hpipe, update_self, hp, Option.map_some, Option.map_some, hreaders, hwriters]
      · rw [update_of_ne hpipe] }

theorem sessionFlush (handle : PipeHandle) : Touch w (w.sessionFlush handle) := by
  unfold World.sessionFlush
  split
  · exact refl w
  · next hp => exact ring hp rfl rfl

end Touch

namespace Edits

variable {env : Env} {w : World}

theorem touch (h : Touch w w') : Edits env w w' := .single (.touch h)

theorem mark (operations : List Operation) (pass pendingCancels : Nat) (deadRings : List Nat)
    (deadOverflow : Bool) (h : Forall₂ Operation.Kept w.operations operations) :
    Edits env w { w with operations, pass, pendingCancels, deadRings, deadOverflow } :=
  .single (.mark operations pass pendingCancels deadRings deadOverflow h)

theorem close (r : Ref) (state : EndpointState) (h : state.Final) :
    Edits env w (w.closeOne env r state) := .single (.close r state h)

theorem foldl {α : Type} {step : World → α → World} {l : List α}
    (h : ∀ w, ∀ a ∈ l, Edits env w (step w a)) : Edits env w (l.foldl step w) :=
  foldl_related (fun _ => .refl) (fun _ _ _ => .trans) h w

end Edits

/-! ## lifetimes -/

/-- Nothing was born and nothing died. -/
structure Life (w w' : World) : Prop where
  liveOwner : w'.liveOwner = w.liveOwner
  tasks : w'.tasks = w.tasks
  registry : w'.registry = w.registry

namespace Life

theorem refl (w : World) : Life w w := ⟨rfl, rfl, rfl⟩

theorem trans (h : Life w w') (h' : Life w' w'') : Life w w'' :=
  ⟨h'.liveOwner.trans h.liveOwner, h'.tasks.trans h.tasks, h'.registry.trans h.registry⟩

theorem of_eq (hcells : w'.cells = w.cells) (htasks : w'.tasks = w.tasks)
    (hregistry : w'.registry = w.registry) : Life w w' := by
  refine ⟨funext fun p => ?_, htasks, hregistry⟩
  unfold World.liveOwner
  rw [hcells, htasks]

theorem ownerLive (h : Life w w') (p : Principal) : w'.ownerLive p = w.ownerLive p := by
  unfold World.ownerLive
  rw [h.liveOwner]

theorem binding (h : Life w w') (service : Nat) : w'.binding service = w.binding service := by
  unfold World.binding
  simp only [h.registry, h.tasks, h.ownerLive]

end Life

theorem Touch.life (h : Touch w w') : Life w w' := by
  refine ⟨funext fun p => ?_, h.tasks, h.registry⟩
  -- a live slot is not a reserved one, so the search only sees the slots that stay
  have hfind : ∀ cells : List Cell, cells.find? (fun c => c.owner.principal = p ∧ c.slot = .live) =
        (cells.filter fun c => c.slot ≠ .reserved).find?
          (fun c => c.owner.principal = p ∧ c.slot = .live) := by
    intro cells
    rw [find?_filter]
    refine congrArg (fun q => cells.find? q) (funext fun c => ?_)
    by_cases hslot : c.slot = .live <;> simp [hslot]
  unfold liveOwner
  rw [hfind w'.cells, hfind w.cells, h.slots, h.tasks]

/-! ## the functions of `Cancel.lean` -/

namespace World

variable {w : World}

theorem touch_releasePublication (p : Prepared) : Touch w (w.releasePublication p) := by
  unfold releasePublication
  split
  · exact Touch.abortOwner _
  · exact .refl w

theorem moves_dropped (expired : Bool) (sequence : Nat) (p : Prepared) :
    p.Moves (dropped expired sequence p) := by
  refine ⟨rfl, rfl, rfl, rfl, fun _ h => by simp [dropped] at h, .inr rfl,
    fun _ _ h => by simp [dropped] at h, ?_, ?_⟩
  all_goals cases expired <;> simp [dropped]

theorem moves_dropReceipt (expired : Bool) (prepared : Ref) (rr : Receipt) :
    rr.Moves (dropReceipt expired prepared rr) := by
  unfold dropReceipt
  split
  · refine ⟨rfl, rfl, rfl, rfl, rfl, rfl, ?_⟩
    cases expired <;> simp
  · exact .refl rr

/-- The record and the receipts of an aborted child. -/
theorem touch_dropPreparation (p : Prepared) (expired : Bool) :
    Touch w (w.dropPreparation p expired) := by
  have hrelease : Touch w (w.releasePublication p).terminalSequence.2 :=
    (touch_releasePublication p).trans Touch.terminalSequence
  have hrecord (u : World) (sequence : Nat) :
      Touch u (u.setPrepared p.reference (dropped expired sequence)) :=
    Touch.setPrepared fun q _ => moves_dropped _ _ q
  have hreceipts (u : World) :
      Touch u { u with receipts := u.receipts.map (dropReceipt expired p.reference) } :=
    { Touch.refl u with receipts := forall₂_map fun rr _ => moves_dropReceipt _ _ rr }
  exact (hrelease.trans (hrecord _ _)).trans (hreceipts _)

/-- An abort is a sequence of whatever relation its way to close belongs to. -/
theorem abortPrepared_related {r : World → World → Prop} (hrefl : ∀ u, r u u)
    (htrans : ∀ s t u, r s t → r t u → r s u) (htouch : ∀ s t, Touch s t → r s t)
    {close : World → Ref → World} (hclose : ∀ u x, r u (close u x)) (x : Ref) (expired : Bool) :
    r w (w.abortPrepared close x expired) := by
  unfold abortPrepared
  split
  · exact hrefl w
  next p _ =>
  split
  · exact hrefl w
  refine htrans _ _ _ (htouch _ _ (touch_dropPreparation p expired))
    (htrans _ _ _ (foldl_related hrefl htrans ?_ _) (foldl_related hrefl htrans ?_ _))
  · exact fun u rr _ => htrans _ _ _ (hclose _ _) (hclose _ _)
  intro u y _
  unfold closeStaged
  split
  · split
    · exact hclose u y
    · exact hrefl u
  · exact hrefl u

theorem touch_terminatePrepared (principal : Principal) (r : Ref) :
    Touch w (w.terminatePrepared principal r) := by
  unfold terminatePrepared
  split
  · exact .refl w
  split
  · have hrecord (u : World) (sequence : Nat) : Touch u (u.setPrepared r fun p =>
        { p with state := .terminal, terminalSequence := sequence }) :=
      Touch.setPrepared fun p _ =>
        { Prepared.Moves.refl p with staged := by simp, live := by simp }
    exact Touch.terminalSequence.trans (hrecord _ _)
  · exact .refl w

theorem touch_terminateAll (principal : Principal) :
    Touch w ((w.prepared.map (·.reference)).foldl (terminatePrepared principal) w) :=
  foldl_related Touch.refl (fun _ _ _ => Touch.trans)
    (fun _ r _ => touch_terminatePrepared principal r) w

open Edits

theorem edits_requestCancel (r : Ref) (reason : Nat) : Edits env w (w.requestCancel r reason) := by
  unfold requestCancel
  split
  · exact .refl
  split
  · exact mark _ w.pass _ w.deadRings w.deadOverflow
      (forall₂_updateFirst .refl fun o _ => ⟨rfl, rfl, rfl, rfl⟩)
  · exact .refl

theorem edits_closeProducer (overflow : Bool) (rings : List Nat) (r : Ref) :
    Edits env w (w.closeProducer env overflow rings r) := by
  have hclose : Edits env w (w.closeOne env r .revoked) := close r _ (by simp)
  unfold closeProducer
  split
  · exact .refl
  split
  · split
    · exact hclose
    · exact hclose.trans (edits_requestCancel _ _)
  · exact .refl

theorem edits_closeProducers : Edits env w (w.closeProducers env) := by
  unfold closeProducers
  split
  · exact .refl
  have hclear : Edits env w { w with deadRings := [], deadOverflow := false } :=
    mark w.operations w.pass w.pendingCancels [] false (forall₂_refl .refl)
  exact hclear.trans (foldl fun u r _ => edits_closeProducer _ _ r)

theorem kept_markBelow (pass : Nat) (known rest : List Operation) :
    Forall₂ Operation.Kept rest (markBelow pass known rest) := by
  induction rest generalizing known with
  | nil => exact .nil
  | cons o _ ih =>
    refine .cons ?_ (ih _)
    split
    · exact ⟨rfl, rfl, rfl, rfl⟩
    · exact .refl o

theorem kept_markSubtree (pass : Nat) (root : Ref) (operations : List Operation) :
    Forall₂ Operation.Kept operations (markSubtree pass root operations) := by
  induction operations with
  | nil => exact .nil
  | cons o rest ih =>
    unfold markSubtree
    split
    · exact .cons ⟨rfl, rfl, rfl, rfl⟩ (kept_markBelow pass _ rest)
    · exact .cons (.refl o) ih

theorem edits_closeMarked (r : Ref) : Edits env w (w.closeMarked env r) := by
  unfold closeMarked
  split
  · exact .refl
  · split
    · exact close r _ (by simp)
    · exact .refl

theorem edits_cancelChild (reason : Nat) (r : Ref) : Edits env w (w.cancelChild env reason r) := by
  unfold cancelChild
  split
  · exact .refl
  split
  · exact .refl
  split
  · exact abortPrepared_related (fun _ => .refl) (fun _ _ _ => .trans)
      (fun _ _ => touch) (fun u x => close x _ (by simp)) r false
  split
  · exact touch (Touch.kill reason)
  · exact .refl

theorem edits_cancelSubtree (root : Ref) (reason : Nat) :
    Edits env w (w.cancelSubtree env root reason) := by
  have hmark : Edits env w { w with
      pass := w.pass + 1
      operations := markSubtree (w.pass + 1) root w.operations } :=
    mark _ _ w.pendingCancels w.deadRings w.deadOverflow (kept_markSubtree _ _ _)
  exact (hmark.trans (foldl fun u r _ => edits_closeMarked r)).trans
    (foldl fun u r _ => edits_cancelChild reason r)

theorem edits_takePending (r : Ref) : Edits env w (w.takePending env r) := by
  unfold takePending
  split
  · exact .refl
  next o _ =>
  split
  · exact .refl
  have htake : Edits env w { w with
      operations := updateFirst (fun o => o.reference = r) (fun o => { o with pending := 0 })
        w.operations
      pendingCancels := w.pendingCancels - 1 } :=
    mark _ w.pass _ w.deadRings w.deadOverflow
      (forall₂_updateFirst .refl fun o _ => ⟨rfl, rfl, rfl, rfl⟩)
  split
  · exact htake.trans (edits_cancelSubtree r o.pending)
  · exact htake

theorem edits_cascadeLoop (fuel : Nat) : Edits env w (cascadeLoop env fuel w) := by
  induction fuel generalizing w with
  | zero => exact .refl
  | succ _ ih =>
    unfold cascadeLoop
    split
    · exact .refl
    · have hround : Edits env w (w.cascadeRound env) :=
        (foldl fun u r _ => edits_takePending r).trans edits_closeProducers
      exact hround.trans ih

theorem edits_closeHolder (r : Ref) (state : EndpointState)
    (h : state.Final) : Edits env w (w.closeHolder env r state) :=
  (close r state h).trans (edits_cascadeLoop _)

theorem edits_cancel (r : Ref) (reason : Nat) : Edits env w (w.cancel env r reason) :=
  (edits_requestCancel r reason).trans (edits_cascadeLoop _)

end World

/-! ## functions built from closes and cancellations -/

/-- A preorder that holds of every touch, every close and every cancellation. -/
structure Closing (env : Env) (r : World → World → Prop) : Prop where
  refl : ∀ w, r w w
  trans : ∀ w w' w'', r w w' → r w' w'' → r w w''
  touch : ∀ w w', Touch w w' → r w w'
  closeReservation : ∀ w x, r w (w.closeReservation x)
  closeHolder : ∀ w x state, state ≠ .opened ∧ state ≠ .reserved → r w (w.closeHolder env x state)
  cancel : ∀ w x reason, r w (w.cancel env x reason)

theorem Edits.closing (env : Env) : Closing env (Edits env) where
  refl := fun _ => .refl
  trans := fun _ _ _ => .trans
  touch := fun _ _ => Edits.touch
  closeReservation := fun _ x => .single (.closeReservation x)
  closeHolder := fun _ => edits_closeHolder
  cancel := fun _ => edits_cancel

namespace Closing

variable {r : World → World → Prop} {w : World}

variable (c : Closing env r)

include c

theorem foldl {α : Type} {step : World → α → World} {l : List α}
    (h : ∀ w, ∀ a ∈ l, r w (step w a)) (w : World) : r w (l.foldl step w) :=
  foldl_related c.refl c.trans h w

theorem abort (x : Ref) (expired : Bool) : r w (w.abort env x expired) :=
  abortPrepared_related c.refl c.trans c.touch (fun u y => c.closeHolder u y _ (by simp)) x expired

theorem closeBootstrap (x : Ref) (state : BootstrapState) : r w (w.closeBootstrap env x state) := by
  unfold World.closeBootstrap
  split
  · exact c.refl w
  next b _ =>
  have hstate : r w (w.setBootstrap x fun b => { b with state }) :=
    c.touch _ _ (.setBootstrap fun _ => ⟨rfl, rfl, rfl, rfl, rfl⟩)
  have hforeground (u : World) : r u (if b.session ≠ Ref.zero then
      (u.receipts.map (·.reference)).foldl (cancelForeground env b.session) u else u) := by
    split
    · refine c.foldl (fun v y _ => ?_) u
      unfold cancelForeground
      split
      · split
        · exact c.cancel _ _ _
        · exact c.refl v
      · exact c.refl v
    · exact c.refl u
  have hclose (u : World) : r u (b.endpoints.foldl World.closeReservation u) :=
    c.foldl (fun v y _ => c.closeReservation v y) u
  exact c.trans _ _ _ (c.trans _ _ _ hstate (hforeground _)) (hclose _)

theorem retireRecord (principal : Principal) (reason : Option Nat)
    (p : Prepared) : r w (w.retireRecord principal reason p) := by
  unfold World.retireRecord
  split
  · exact c.touch _ _ (Touch.setPrepared fun p _ => ⟨rfl, rfl, rfl, rfl,
      fun q h => ⟨q, h, rfl⟩, .inr rfl, id, fun h => by simp at h, fun h => by simp at h⟩)
  · exact c.refl w

theorem retirePrepared (principal : Principal) (reason : Option Nat) (x : Ref) :
    r w (w.retirePrepared env principal reason x) := by
  unfold World.retirePrepared
  split
  · exact c.refl w
  next p _ =>
  split
  · exact c.trans _ _ _ (c.retireRecord principal reason p) (c.abort x false)
  · exact c.retireRecord principal reason p

theorem retiring (principal : Principal) (reason : Option Nat) :
    r w (w.retiring env principal reason) := by
  have hchildren (l : List Ref) (u : World) :
      r u (l.foldl (World.retirePrepared env principal reason) u) :=
    c.foldl (fun v x _ => c.retirePrepared principal reason x) u
  have hoperations (u : World) : r u (u.retireOperations env principal) :=
    c.foldl (fun v o _ => c.cancel v o.reference 2) u
  have hendpoints (u : World) : r u (u.retireEndpoints env principal) :=
    c.foldl (fun v e _ => c.closeHolder v e.reference _ (by simp)) u
  exact c.trans _ _ _ (c.trans _ _ _ (hchildren _ w) (hoperations _)) (hendpoints _)

/-! ## the first loops of a maintenance pass -/

theorem expirePrepared (l : List Ref) (s : Nat × World) :
    r s.2 (l.foldl (expirePrepared env) s).2 := by
  refine foldl_related (r := fun s t => r s.2 t.2) (fun s => c.refl s.2)
    (fun _ _ _ => c.trans _ _ _) (fun s x _ => ?_) s
  unfold World.expirePrepared
  split
  · exact c.refl _
  · split
    · exact c.abort _ _
    · exact c.refl _

theorem expireReceipts (input vfs : Option Binding) (l : List Ref)
    (s : Nat × World) : r s.2 (l.foldl (expireReceipt env input vfs) s).2 := by
  refine foldl_related (r := fun s t => r s.2 t.2) (fun s => c.refl s.2)
    (fun _ _ _ => c.trans _ _ _) (fun s x _ => ?_) s
  unfold expireReceipt
  split
  · exact c.refl _
  split
  · split
    · exact c.refl _
    split
    · exact c.abort _ _
    · split
      · exact c.cancel _ _ _
      · exact c.refl _
  · exact c.refl _

theorem expireBootstraps (input : Option Binding) (l : List Ref) (w : World) :
    r w (l.foldl (expireBootstrap env input) w) := by
  refine c.foldl (fun u x _ => ?_) w
  unfold expireBootstrap
  split
  · exact c.refl u
  split
  · exact c.refl u
  split
  · exact c.closeBootstrap x _
  · split
    · exact c.closeBootstrap x _
    · exact c.refl u

omit c

end Closing

namespace World

/-! ## what closing leaves alone -/

/-- Closing a holder changes its row, its ring and the list of dead rings. -/
theorem closeOne_frame (w : World) (env : Env) (r : Ref) (state : EndpointState) :
    ∃ endpoints rings fault deadRings deadOverflow, w.closeOne env r state =
      { w with endpoints, rings, fault, deadRings, deadOverflow } := by
  unfold closeOne
  split
  · exact ⟨_, _, _, _, _, rfl⟩
  dsimp only
  split
  · exact ⟨_, _, _, _, _, rfl⟩
  split
  · exact ⟨_, _, _, _, _, rfl⟩
  split
  · exact ⟨_, _, _, _, _, rfl⟩
  unfold sessionClose noteDeadRing
  split
  all_goals
    repeat' split
    all_goals exact ⟨_, _, _, _, _, rfl⟩

theorem closeReservation_frame (w : World) (r : Ref) :
    ∃ endpoints rings fault, w.closeReservation r = { w with endpoints, rings, fault } := by
  unfold closeReservation
  split
  · exact ⟨_, _, _, rfl⟩
  dsimp only
  split
  · exact ⟨_, _, _, rfl⟩
  split
  · exact ⟨_, _, _, rfl⟩
  split
  · exact ⟨_, _, _, rfl⟩
  · unfold sessionClose
    split <;> exact ⟨_, _, _, rfl⟩

end World

theorem Edit.life (h : Edit env w w') : Life w w' := by
  cases h with
  | touch h => exact h.life
  | mark => exact .of_eq rfl rfl rfl
  | close r state =>
    obtain ⟨_, _, _, _, _, he⟩ := w.closeOne_frame env r state
    rw [he]
    exact .of_eq rfl rfl rfl
  | closeReservation r =>
    obtain ⟨_, _, _, he⟩ := w.closeReservation_frame r
    rw [he]
    exact .of_eq rfl rfl rfl

theorem Edits.life (h : Edits env w w') : Life w w' := by
  induction h with
  | refl => exact .refl w
  | tail _ he ih => exact ih.trans he.life

end Cellos.Session
