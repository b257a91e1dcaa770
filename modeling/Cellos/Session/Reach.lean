import Cellos.Session.Settled

/-!
# Cellos.Session.Reach

How far a cancellation reaches.

`Reached` says which operations a cancellation is for: the operation itself, the children of
a reached one, and an operation that holds the write end of a ring all of whose readers
belong to reached operations.  The worklist notes such a ring when its final reader closes.
When the note cannot be stored it gives up the list and checks every ring against its
counts, so then the producers of rings that had no reader to begin with are `Affected` too.

`Within` is the invariant of the worklist against the state it started from: whatever was
cancelled, queued or closed belongs to an affected operation.
-/

namespace Cellos.Session

open Lib List World Endpoint
open Pipes (Pipe PipeEnd PipeHandle)
open Relation (ReflTransGen)

/-- The record feeds a ring on behalf of its operation. -/
def Endpoint.produces (e : Endpoint) : Bool :=
  e.state = .opened ∧ e.handle.side = .write ∧ e.issuerHeld = false

/-- The readers of a ring: there were some, and all of them have the property. -/
def World.Lost (w : World) (A : Ref → Prop) (ring : Nat) : Prop :=
  (∃ x ∈ w.endpoints, x.owns ⟨ring, .read⟩) ∧
    ∀ x ∈ w.endpoints, x.owns ⟨ring, .read⟩ → A x.operation

open World

/-- The subtree of `root`, and what feeds only what is reached. -/
inductive Reached (w : World) (root : Ref) : Ref → Prop where
  | root : Reached w root root
  | child {o : Operation} (ho : o ∈ w.operations) (h : Reached w root o.parent) :
      Reached w root o.reference
  | producer {e x : Endpoint} (he : e ∈ w.endpoints) (hproduces : e.produces)
      (hx : x ∈ w.endpoints) (hreads : x.owns ⟨e.handle.pipe, .read⟩)
      (hlost : ∀ y ∈ w.endpoints, y.owns ⟨e.handle.pipe, .read⟩ → Reached w root y.operation) :
      Reached w root e.operation

/-- Every ring the cancellation takes the last reader of can be noted, or every other operation
feeds rings with a reader only. -/
def World.Noted (env : Env) (w : World) (root : Ref) : Prop :=
  (∀ ring, w.Lost (Reached w root) ring → env.grants .deadRing ring = true) ∨
    ∀ e ∈ w.endpoints, e.produces →
      Reached w root e.operation ∨ ∃ x ∈ w.endpoints, x.owns ⟨e.handle.pipe, .read⟩

/-- What a cancellation of `root` may touch. -/
inductive Affected (env : Env) (w : World) (root : Ref) : Ref → Prop where
  | root (h : w.Active root) : Affected env w root root
  | child {o : Operation} (ho : o ∈ w.operations) (h : Affected env w root o.parent) :
      Affected env w root o.reference
  | producer {e x : Endpoint} (he : e ∈ w.endpoints) (hproduces : e.produces)
      (hx : x ∈ w.endpoints) (hreads : x.owns ⟨e.handle.pipe, .read⟩)
      (hlost : ∀ y ∈ w.endpoints, y.owns ⟨e.handle.pipe, .read⟩ → Affected env w root y.operation) :
      Affected env w root e.operation
  | recheck {e x : Endpoint} {ring : Nat} (he : e ∈ w.endpoints) (hproduces : e.produces)
      (hfails : env.grants .deadRing ring = false) (hx : x ∈ w.endpoints)
      (hreads : x.owns ⟨ring, .read⟩)
      (hnoted : ∀ y ∈ w.endpoints, y.owns ⟨ring, .read⟩ → Affected env w root y.operation)
      (hlost : ∀ y ∈ w.endpoints, y.owns ⟨e.handle.pipe, .read⟩ → Affected env w root y.operation) :
      Affected env w root e.operation

/-- A property of operations that a cancellation does not leave. -/
structure Spreads (env : Env) (w : World) (A : Ref → Prop) : Prop where
  child : ∀ o ∈ w.operations, A o.parent → A o.reference
  producer : ∀ e ∈ w.endpoints, e.produces → w.Lost A e.handle.pipe → A e.operation
  recheck : ∀ e ∈ w.endpoints, e.produces →
    (∃ ring, env.grants .deadRing ring = false ∧ w.Lost A ring) →
    (∀ x ∈ w.endpoints, x.owns ⟨e.handle.pipe, .read⟩ → A x.operation) → A e.operation

theorem Affected.spreads (env : Env) (w : World) (root : Ref) :
    Spreads env w (Affected env w root) where
  child := fun _ ho h => .child ho h
  producer := by
    rintro e he hproduces ⟨⟨x, hx, hreads⟩, hlost⟩
    exact .producer he hproduces hx hreads hlost
  recheck := by
    rintro e he hproduces ⟨_, hfails, ⟨_, hx, hreads⟩, hnoted⟩ hlost
    exact .recheck he hproduces hfails hx hreads hnoted hlost

variable {r : Ref} {root : Ref} {A : Ref → Prop} {state : EndpointState}

theorem Reached.spreads (hnoted : w.Noted env root) : Spreads env w (Reached w root) where
  child := fun _ ho h => .child ho h
  producer := by
    rintro e he hproduces ⟨⟨x, hx, hreads⟩, hlost⟩
    exact .producer he hproduces hx hreads hlost
  recheck := by
    rintro e he hproduces ⟨ring, hfails, hring⟩ hlost
    rcases hnoted with hgrants | hreaders
    · rw [hgrants ring hring] at hfails
      cases hfails
    · rcases hreaders e he hproduces with h | ⟨x, hx, hreads⟩
      · exact h
      · exact .producer he hproduces hx hreads hlost

/-- Nothing else is affected. -/
theorem Affected.least
    (sp : Spreads env w A) (hroot : A root) (h : Affected env w root r) : A r := by
  induction h with
  | root => exact hroot
  | child ho _ ih => exact sp.child _ ho ih
  | producer he hproduces hx hreads _ ih =>
    exact sp.producer _ he hproduces ⟨⟨_, hx, hreads⟩, ih⟩
  | recheck he hproduces hfails hx hreads _ _ ih ih' =>
    exact sp.recheck _ he hproduces ⟨_, hfails, ⟨_, hx, hreads⟩, ih⟩ ih'

/-! ## the invariant -/

/-- An operation the cancellation left alone, unless it has the property. -/
structure Operation.Within (pass : Nat) (A : Ref → Prop) (a b : Operation) : Prop
    extends Operation.Kept a b where
  cancelled : b.state = .cancelled → a.state = .cancelled ∨ A a.reference
  pending : b.pending ≠ 0 → A a.reference
  marked : pass < b.cancelledBy → A a.reference

/-- A holder record the cancellation left alone, unless its operation has the property. -/
def Endpoint.Within (A : Ref → Prop) (a b : Endpoint) : Prop :=
  b = a ∨ A a.operation ∧ ∃ state, (state ≠ .opened ∧ state ≠ .reserved) ∧ b = { a with state }

/-- The worklist against the state `base` it started from. -/
structure Within (env : Env) (base : World) (A : Ref → Prop) (w : World) : Prop where
  covered : Covered w
  linked : Linked w
  pass : base.pass ≤ w.pass
  operations : Forall₂ (Operation.Within base.pass A) base.operations w.operations
  endpoints : Forall₂ (Endpoint.Within A) base.endpoints w.endpoints
  dead : ∀ ring ∈ w.deadRings, base.Lost A ring
  overflow : w.deadOverflow = true → ∃ ring, env.grants .deadRing ring = false ∧ base.Lost A ring

theorem Endpoint.Within.trans (a b c : Endpoint) (h : a.Within A b)
    (h' : b.Within A c) : a.Within A c := by
  rcases h with rfl | ⟨hA, state, hstate, rfl⟩
  · exact h'
  · rcases h' with rfl | ⟨-, state', hstate', rfl⟩
    · exact .inr ⟨hA, state, hstate, rfl⟩
    · exact .inr ⟨hA, state', hstate', rfl⟩

namespace World

variable {w : World}

theorem within_closeOne (hstate : state.Final)
    (hA : ∀ e, w.EndpointAt r e → e.held → A e.operation) :
    Forall₂ (Endpoint.Within A) w.endpoints (w.closeOne env r state).endpoints := by
  obtain ⟨_, _, heq⟩ := w.closeOne_eq_shut env r state
  rw [heq]
  rcases w.shut_cases r state with ⟨hsame, -⟩ | ⟨e, _, _, he, hheld, hshut⟩
  · rw [hsame]
    exact forall₂_same.mpr fun e _ => .inl rfl
  · rw [hshut]
    refine forall₂_updateFirst (fun a => .inl rfl) fun a ha => ?_
    cases he.symm.trans ha
    exact .inr ⟨hA e he hheld, state, hstate, rfl⟩

/-- `session_close` answers that no reader is left. -/
theorem ends_of_sessionClose {h : PipeHandle} (hside : h.side = .read)
    (hlast : (w.sessionClose h).1 = true) : (w.sessionClose h).2.ends h = 0 := by
  unfold sessionClose at hlast ⊢
  unfold ends
  cases hp : w.rings h.pipe with
  | none => simp [hp] at hlast
  | some =>
    simp only [hp, decide_eq_true_eq] at hlast
    dsimp only
    rw [Function.update_self, ends_unless_dead]
    obtain ⟨_, _⟩ := h
    cases hside
    exact hlast

/-- What closing one holder notes: a ring that has no reader left. -/
theorem closeOne_notes (env : Env) (w : World) (r : Ref) (state : EndpointState) :
    ((w.closeOne env r state).deadRings = w.deadRings ∧
      (w.closeOne env r state).deadOverflow = w.deadOverflow) ∨
    ∃ e, w.EndpointAt r e ∧ e.counted ∧
      e.handle.side = .read ∧ (w.closeOne env r state).ends e.handle = 0 ∧
      (∀ ring ∈ (w.closeOne env r state).deadRings, ring ∈ w.deadRings ∨ ring = e.handle.pipe) ∧
      ((w.closeOne env r state).deadOverflow = true → w.deadOverflow = true ∨
        env.grants .deadRing e.handle.pipe = false) := by
  unfold closeOne
  cases he : w.endpoints.find? (fun e => e.reference = r) with
  | none => exact .inl ⟨rfl, rfl⟩
  | some e =>
    dsimp only
    split
    · exact .inl ⟨rfl, rfl⟩
    split
    · exact .inl ⟨rfl, rfl⟩
    next hopened =>
    split
    · exact .inl ⟨rfl, rfl⟩
    next hpublished =>
    have hcounted : e.counted := by
      simp only [counted, decide_eq_true_eq]
      exact ⟨by simpa using hopened, by simpa using hpublished⟩
    obtain ⟨_, _, hframe⟩ := sessionClose_frame (w.setEndpoint r fun e => { e with state }) e.handle
    split
    · next hlast =>
      have hends := ends_of_sessionClose hlast.1 hlast.2
      refine .inr ⟨e, he, hcounted, hlast.1, ?_, ?_⟩
      · unfold noteDeadRing
        repeat' split
        all_goals exact hends
      unfold noteDeadRing
      rw [hframe]
      split
      · exact ⟨fun ring h => .inl h, .inl⟩
      split
      · refine ⟨fun ring h => ?_, .inl⟩
        simpa [setEndpoint] using h
      · next hfails => exact ⟨fun ring h => .inl h, fun _ => .inr (by simpa using hfails)⟩
    · rw [hframe]
      exact .inl ⟨rfl, rfl⟩

end World

namespace Within

variable {env : Env} {base w : World} {A : Ref → Prop}

theorem mem_base (h : Forall₂ (Endpoint.Within A) base.endpoints w.endpoints)
    (he : e ∈ w.endpoints) (hopened : e.state = .opened) : e ∈ base.endpoints := by
  obtain ⟨_, ha, rfl | ⟨-, _, hstate, rfl⟩⟩ := exists_old h he
  · exact ha
  · exact absurd hopened hstate.1

/-- A ring without readers lost those it had to the cancellation. -/
theorem lost_of_ends (h : Forall₂ (Endpoint.Within A) base.endpoints w.endpoints)
    (k : Covered w) {ring : Nat} (hends : w.ends ⟨ring, .read⟩ = 0) :
    ∀ x ∈ base.endpoints, x.owns ⟨ring, .read⟩ → A x.operation := by
  intro x hx howns
  obtain ⟨b, hb, rfl | ⟨hA, -⟩⟩ := exists_new h hx
  · -- the record is as it was, so its count would still be in the ring
    have hpos : 1 ≤ w.holders ⟨ring, .read⟩ := countP_pos_iff.mpr ⟨b, hb, howns⟩
    have hle : w.holders ⟨ring, .read⟩ ≤ w.ends ⟨ring, .read⟩ := k.le _
    omega
  · exact hA

/-! ## single closes -/

variable (h : Within env base A w)

include h

theorem closeOne (hstate : state.Final) (hA : ∀ e, w.EndpointAt r e → e.held → A e.operation) :
    Within env base A (w.closeOne env r state) := by
  have hedits : Edits env w (w.closeOne env r state) := Edits.close r state hstate
  have hends : Forall₂ (Endpoint.Within A) base.endpoints (w.closeOne env r state).endpoints :=
    forall₂_trans .trans h.endpoints (within_closeOne hstate hA)
  have hcovered : Covered (w.closeOne env r state) :=
    (Accounts.edits h.covered hedits).covered h.covered
  have hnotes := closeOne_notes env w r state
  have hlinked : Linked (w.closeOne env r state) := h.linked.drift hedits.drift
  have hlost (e : Endpoint) (he : w.EndpointAt r e)
      (hcounted : e.counted) (hside : e.handle.side = .read)
      (hzero : (w.closeOne env r state).ends e.handle = 0) : base.Lost A e.handle.pipe := by
    have hhandle : e.handle = ⟨e.handle.pipe, .read⟩ := by rw [← hside]
    refine ⟨⟨e, mem_base h.endpoints (mem_of_find he).1 ?_, ?_⟩,
      lost_of_ends hends hcovered (hhandle ▸ hzero)⟩
    · simp only [Endpoint.counted, decide_eq_true_eq] at hcounted
      exact hcounted.1
    · simp only [Endpoint.owns, decide_eq_true_eq]
      exact ⟨hhandle, hcounted⟩
  refine {
    covered := hcovered
    linked := hlinked
    pass := ?_
    operations := ?_
    endpoints := hends
    dead := ?_
    overflow := ?_ }
  · obtain ⟨_, _, _, _, _, heq⟩ := w.closeOne_frame env r state
    rw [heq]
    exact h.pass
  · rw [Mid.operations_closeOne]
    exact h.operations
  · intro ring hring
    rcases hnotes with ⟨hsame, -⟩ | ⟨e, he, hcounted, hside, hzero, hrings, -⟩
    · exact h.dead ring (hsame ▸ hring)
    · rcases hrings ring hring with hold | rfl
      · exact h.dead ring hold
      · exact hlost e he hcounted hside hzero
  · intro hoverflow
    rcases hnotes with ⟨-, hsame⟩ | ⟨e, he, hcounted, hside, hzero, -, hfails⟩
    · exact h.overflow (hsame ▸ hoverflow)
    · rcases hfails hoverflow with hold | hfail
      · exact h.overflow hold
      · exact ⟨e.handle.pipe, hfail, hlost e he hcounted hside hzero⟩

theorem touch (ht : Touch w w') (hends : w'.endpoints = w.endpoints) : Within env base A w' where
  covered := (Accounts.touch h.covered.toTracked ht).covered h.covered
  linked := h.linked.drift (.touch ht)
  pass := ht.pass ▸ h.pass
  operations := ht.operations ▸ h.operations
  endpoints := hends ▸ h.endpoints
  dead := ht.deadRings ▸ h.dead
  overflow := ht.deadOverflow ▸ h.overflow

theorem mark {operations : List Operation} {pass pendingCancels : Nat} (hpass : w.pass ≤ pass)
    (hrows : Forall₂ (Operation.Within base.pass A) base.operations operations) :
    Within env base A { w with operations, pass, pendingCancels } where
  covered := { h.covered with }
  linked := { h.linked with }
  pass := h.pass.trans hpass
  operations := hrows
  endpoints := h.endpoints
  dead := h.dead
  overflow := h.overflow

/-! ## unpublished children -/

omit h in
theorem endpoints_dropPreparation (w : World) (p : Prepared) (expired : Bool) :
    (w.dropPreparation p expired).endpoints = w.endpoints := by
  unfold dropPreparation releasePublication terminalSequence
  dsimp only
  repeat' split
  all_goals rfl

omit h in
/-- Closing a record that has the property, in a later state. -/
theorem closeNamed (h : Within env base A w') (hnames : Forall₂ Endpoint.Names w.endpoints
      w'.endpoints) (hA : ∀ e ∈ w.endpoints, e.reference = x → A e.operation) :
    Within env base A (w'.closeOne env x .revoked) ∧
      Forall₂ Names w.endpoints (w'.closeOne env x .revoked).endpoints := by
  refine ⟨h.closeOne (by simp) fun e he _ => ?_, forall₂_trans .trans hnames ?_⟩
  · obtain ⟨hmem, rfl⟩ := mem_of_find he
    obtain ⟨a, ha, hrow⟩ := exists_old hnames hmem
    rw [hrow.operation]
    exact hA a ha hrow.reference.symm
  · have hinner : Inner w' (w'.closeOne env x .revoked) := w'.inner_closeOne x (by simp)
    exact hinner.endpoints.imp fun _ _ h => h.toNames

theorem abortPrepared (hp : w.PreparedAt r p) (hA : A p.operation) :
    Within env base A (w.abortPrepared (fun w r => w.closeOne env r .revoked) r false) := by
  unfold World.abortPrepared
  simp only [hp]
  split
  · exact h
  next hstaged =>
  have hstaged : p.state = .staged := by simpa using hstaged
  have href : p.reference = r := by simpa using find?_some hp
  have hmem : p ∈ w.prepared := mem_of_find?_eq_some hp
  have htouch : Touch w (w.dropPreparation p false) := touch_dropPreparation p false
  have hdrop : Within env base A (w.dropPreparation p false) ∧
      Forall₂ Names w.endpoints (w.dropPreparation p false).endpoints := by
    rw [endpoints_dropPreparation]
    exact ⟨h.touch htouch (endpoints_dropPreparation w p false), forall₂_refl .refl⟩
  refine (foldlRecOn _ _ (motive := fun v => Within env base A v ∧
    Forall₂ Names w.endpoints v.endpoints) ?_ fun v hv x _ => ?_).1
  · refine foldlRecOn _ _ (motive := fun v => Within env base A v ∧
      Forall₂ Names w.endpoints v.endpoints) hdrop fun v hv rr hrr => ?_
    obtain ⟨hrr, hfor⟩ := mem_filter.mp hrr
    obtain ⟨rr', hrr', hmoves⟩ := exists_old htouch.receipts hrr
    have hfor : rr'.prepared = p.reference := by
      rw [← hmoves.prepared, href]
      simpa using hfor
    -- the peers of a receipt belong to the operation of its child
    have hproducers := h.linked.producers rr' hrr' p hmem hstaged hfor
    rw [← hmoves.producers] at hproducers
    obtain ⟨hfirst, hnames⟩ := hv.1.closeNamed hv.2 fun e he href =>
      hproducers e he (.inl href) ▸ hA
    exact hfirst.closeNamed hnames fun e he href => hproducers e he (.inr href) ▸ hA
  · unfold closeStaged
    split
    · next he =>
      split
      · next hfor =>
        obtain ⟨hmemE, rfl⟩ := mem_of_find he
        refine hv.1.closeNamed hv.2 fun a ha hax => ?_
        obtain ⟨a', ha', hrow⟩ := exists_old hv.2 hmemE
        obtain rfl : a' = a :=
          inj_on_of_nodup_map h.covered.nodup ha' ha (hrow.reference.symm.trans hax.symm)
        rw [h.linked.holders a' ha' p hmem (hrow.staged _ hfor)]
        exact hA
      · exact hv
    · exact hv

/-! ## one subtree -/

/-- What the current pass marked has the property. -/
theorem of_marked (hpass : base.pass < w.pass) (hmarked : w.marked r = true) : A r := by
  obtain ⟨b, hb, hby⟩ := (Option.any_eq_true _ _).mp hmarked
  have href : b.reference = r := by simpa using find?_some hb
  obtain ⟨a, -, hrow⟩ := exists_old h.operations (mem_of_find?_eq_some hb)
  have hby : b.cancelledBy = w.pass := of_decide_eq_true hby
  rw [← href, hrow.reference]
  exact hrow.marked (by omega)

theorem closeMarked (hpass : base.pass < w.pass) (r : Ref) :
    Within env base A (w.closeMarked env r) := by
  unfold World.closeMarked
  split
  · exact h
  next he =>
  split
  · next hclose =>
    refine h.closeOne (by simp) fun a ha _ => ?_
    cases he.symm.trans ha
    exact h.of_marked hpass hclose.2
  · exact h

theorem cancelChild (hpass : base.pass < w.pass) (reason : Nat)
    (r : Ref) : Within env base A (w.cancelChild env reason r) := by
  unfold World.cancelChild
  split
  · exact h
  next p hp =>
  split
  · exact h
  next hmarked =>
  have hA : A p.operation := h.of_marked hpass (by simpa using hmarked)
  split
  · exact h.abortPrepared hp hA
  split
  · exact h.touch (Touch.kill _) rfl
  · exact h

theorem cancelSubtree (m : Mid exempt w) (sp : Spreads env base A) (hroot : A root) (reason : Nat) :
    Within env base A (w.cancelSubtree env root reason) := by
  have hchild' : ∀ o ∈ w.operations, A o.parent → A o.reference := by
    intro o ho hparent
    obtain ⟨a, ha, hrow⟩ := exists_old h.operations ho
    rw [hrow.reference]
    exact sp.child a ha (hrow.parent ▸ hparent)
  have hmark : Within env base A (w.markPass root) := by
    refine h.mark (Nat.le_succ _) (forall₂_comp (fun a b c hab hbc => ?_) h.operations
      (m.marks hroot hchild'))
    rcases hbc with ⟨-, rfl⟩ | ⟨hb, rfl⟩
    · exact hab
    · have ha : A a.reference := hab.reference ▸ hb
      exact ⟨{ hab with }, fun _ => .inr ha, fun _ => ha, fun _ => ha⟩
  have hlt : base.pass < (w.markPass root).pass := Nat.lt_succ_of_le h.pass
  -- the loops leave the pass as it is
  have hfirst : Within env base A (((w.markPass root).endpoints.map (·.reference)).foldl
        (World.closeMarked env) (w.markPass root)) ∧
      base.pass < (((w.markPass root).endpoints.map (·.reference)).foldl
        (World.closeMarked env) (w.markPass root)).pass := by
    refine foldlRecOn _ _ (motive := fun v => Within env base A v ∧ base.pass < v.pass)
      ⟨hmark, hlt⟩ fun v hv r _ => ⟨hv.1.closeMarked hv.2 r, ?_⟩
    rw [(v.inner_closeMarked r).pass]
    exact hv.2
  refine (foldlRecOn _ _ (motive := fun v => Within env base A v ∧ base.pass < v.pass)
    hfirst fun v hv r _ => ⟨hv.1.cancelChild hv.2 reason r, ?_⟩).1
  rw [(v.inner_cancelChild reason r).pass]
  exact hv.2

/-! ## the worklist -/

theorem requestCancel (hA : w.Active r → A r) (reason : Nat) :
    Within env base A (w.requestCancel r reason) := by
  unfold World.requestCancel
  split
  · exact h
  next o ho =>
  split
  · next hidle =>
    have href : o.reference = r := by simpa using find?_some ho
    have hr : A r := hA ⟨o, mem_of_find?_eq_some ho, href, hidle.1⟩
    refine h.mark le_rfl (forall₂_comp (fun a b c hab hbc => ?_) h.operations
      (forall₂_updateFirst (R := fun b c : Operation => c = b ∨ b.reference = r ∧
        c = { b with pending := max reason 1 }) (fun _ => .inl rfl) fun b hb => ?_))
    · rcases hbc with rfl | ⟨hb, rfl⟩
      · exact hab
      have ha : A a.reference := by
        rw [← hab.reference, hb]
        exact hr
      exact ⟨{ hab with }, fun _ => .inr ha, fun _ => ha, fun _ => ha⟩
    · exact .inr ⟨by simpa using find?_some hb, rfl⟩
  · exact h

theorem takePending (m : Mid exempt w)
    (sp : Spreads env base A) (r : Ref) : Within env base A (w.takePending env r) := by
  unfold World.takePending
  split
  · exact h
  next o ho =>
  split
  · exact h
  next hpending =>
  have href : o.reference = r := by simpa using find?_some ho
  have hr : A r := by
    obtain ⟨a, -, hrow⟩ := exists_old h.operations (mem_of_find?_eq_some ho)
    rw [← href, hrow.reference]
    exact hrow.pending hpending
  extract_lets u
  have hu : Within env base A u := by
    refine h.mark le_rfl (forall₂_comp (fun a b c hab hbc => ?_) h.operations
      (forall₂_updateFirst (R := fun b c : Operation => c = b ∨ c = { b with pending := 0 })
        (fun _ => .inl rfl) fun _ _ => .inr rfl))
    rcases hbc with rfl | rfl
    · exact hab
    · exact ⟨{ hab with }, hab.cancelled, fun hno => absurd rfl hno, hab.marked⟩
  split
  · exact hu.cancelSubtree (m.dequeue ho hpending) sp hr o.pending
  · exact hu

omit h in
/-- A ring that fails the check against its counts has no reader. -/
theorem ends_of_counts {h : PipeHandle} (hcounts : (w.counts h).all (fun c => c.1 = 0) = true) :
    w.ends ⟨h.pipe, .read⟩ = 0 := by
  unfold counts at hcounts
  unfold ends
  cases hp : w.rings h.pipe with
  | none => rfl
  | some p =>
    rw [hp] at hcounts
    have hreaders : p.readers = 0 := by simpa using hcounts
    exact hreaders

theorem closeProducer (sp : Spreads env base A) {overflow : Bool}
    {rings : List Nat} (hrings : ∀ ring ∈ rings, base.Lost A ring)
    (hoverflow : overflow = true → ∃ ring, env.grants .deadRing ring = false ∧ base.Lost A ring)
    (r : Ref) : Within env base A (w.closeProducer env overflow rings r) := by
  unfold World.closeProducer
  split
  · exact h
  next e he =>
  split
  · next hdead =>
    obtain ⟨hopened, hside, hissuer, hring⟩ := of_decide_eq_true hdead
    have hmem : e ∈ base.endpoints := mem_base h.endpoints (mem_of_find he).1 hopened
    have hproduces : e.produces := by simp [produces, hopened, hside, hissuer]
    have hA : A e.operation := by
      split at hring
      · next hover =>
        exact sp.recheck e hmem hproduces (hoverflow hover)
          (lost_of_ends h.endpoints h.covered (ends_of_counts hring))
      · exact sp.producer e hmem hproduces (hrings _ (of_decide_eq_true hring))
    have hclosed : Within env base A (w.closeOne env r .revoked) := by
      refine h.closeOne (by simp) fun a ha _ => ?_
      cases he.symm.trans ha
      exact hA
    split
    · exact hclosed
    · exact hclosed.requestCancel (fun _ => hA) 3
  · exact h

theorem closeProducers (sp : Spreads env base A) : Within env base A (w.closeProducers env) := by
  unfold World.closeProducers
  split
  · exact h
  refine foldlRecOn _ _ ?_ fun v hv r _ => hv.closeProducer sp h.dead h.overflow r
  exact { h with
    covered := { h.covered with }
    linked := { h.linked with }
    dead := by simp
    overflow := by simp }

theorem cascadeRound (m : Mid exempt w)
    (sp : Spreads env base A) : Within env base A (w.cascadeRound env) := by
  refine closeProducers ?_ sp
  refine (foldlRecOn _ _ (motive := fun v => Mid exempt v ∧ Within env base A v) ⟨m, h⟩
    fun v hv r _ => ⟨(hv.1.takePending env r).1, hv.2.takePending hv.1 sp r⟩).2

theorem cascadeLoop (m : Mid exempt w)
    (sp : Spreads env base A) (fuel : Nat) : Within env base A (cascadeLoop env fuel w) := by
  induction fuel generalizing w with
  | zero => exact h
  | succ _ ih =>
    unfold cascadeLoop
    split
    · exact h
    · exact ih (h.cascadeRound m sp) (m.cascadeRound env).1

omit h

theorem start (s : Settled exempt base) (A : Ref → Prop) : Within env base A base where
  covered := s.covered
  linked := s.linked
  pass := le_rfl
  operations := by
    refine forall₂_same.mpr fun o ho => ⟨.refl o, .inl,
      fun h => absurd (s.mid.pending_of_idle s.idle o ho) h, fun h => ?_⟩
    exact absurd (s.mid.passes o ho) (by omega)
  endpoints := forall₂_same.mpr fun e _ => .inl rfl
  dead := by
    have hrings : base.deadRings = [] := (of_decide_eq_true s.idle).2.1
    simp [hrings]
  overflow := by
    have hoverflow : base.deadOverflow = false := (of_decide_eq_true s.idle).2.2
    simp [hoverflow]

end Within

/-! ## the whole cascade -/

section

variable {platform : Platform} {w : World}

/-- `r` is `root` or below it in the tree of operations. -/
inductive Descends (w : World) (root : Ref) : Ref → Prop where
  | root : Descends w root root
  | child {o : Operation} (ho : o ∈ w.operations) (h : Descends w root o.parent) :
      Descends w root o.reference

theorem Mid.cancelled_of_descends (m : Mid exempt w)
    (hroot : w.Cancelled root) (h : Descends w root r) : w.Cancelled r := by
  induction h with
  | root => exact hroot
  | child ho _ ih => exact ⟨_, ho, rfl, m.descend _ ho ih⟩

theorem Mid.worked_cascadeLoop (m : Mid exempt w) (env : Env)
    (fuel : Nat) : Forall₂ (fun a b : Operation => b.reference = a.reference ∧
      (a.state = .cancelled → b.state = .cancelled)) w.operations
        (World.cascadeLoop env fuel w).operations := by
  induction fuel generalizing w with
  | zero => exact forall₂_same.mpr fun o _ => ⟨rfl, id⟩
  | succ _ ih =>
    unfold World.cascadeLoop
    split
    · exact forall₂_same.mpr fun o _ => ⟨rfl, id⟩
    · obtain ⟨hmid, -, hrows⟩ := m.cascadeRound env
      refine forall₂_comp (fun a b c hab hbc => ?_) hrows (ih hmid)
      exact ⟨hbc.1.trans hab.reference, hbc.2 ∘ hab.cancelled⟩

/-- The operation a cancellation names is cancelled. -/
theorem Mid.cancelled_cancel (m : Mid exempt w) (env : Env)
    (hactive : w.Active r) (hidle : w.idle = true) (reason : Nat) :
    (w.cancel env r reason).Cancelled r := by
  obtain ⟨o, ho, rfl, hstate⟩ := hactive
  have hm := m.requestCancel o.reference reason
  -- the request is queued
  obtain ⟨b, hb, href, hpending⟩ : ∃ b ∈ (w.requestCancel o.reference reason).operations,
      b.reference = o.reference ∧ b.pending ≠ 0 := by
    have hfind : w.operations.find? (fun c => c.reference = o.reference) = some o :=
      find?_key_of_nodup (Mid.nodup_of_sorted m.sorted) ho
    unfold World.requestCancel
    simp only [hfind, hstate, m.pending_of_idle hidle o ho, and_self, if_true]
    exact ⟨_, apply_mem_updateFirst _ hfind, rfl, by simp⟩
  have hbusy : ¬(w.requestCancel o.reference reason).idle = true := by
    intro h
    exact hpending (hm.pending_of_idle h b hb)
  unfold World.cancel World.cascade World.cascadeLoop
  rw [if_neg hbusy]
  obtain ⟨hmid, -, hrows⟩ := hm.cascadeRound env
  obtain ⟨c, hc, hworked⟩ := exists_new hrows hb
  obtain ⟨d, hd, href', hcancelled⟩ := exists_new (hmid.worked_cascadeLoop env _) hc
  exact ⟨d, hd, href'.trans (hworked.reference.trans href), hcancelled (hworked.pending hpending)⟩

/-- **Cancellation closes the subtree**: from every reachable state the cascade ends with
nothing queued, whatever bound is put on its rounds; everything below a cancelled operation
is cancelled, holds no end, stages no child and has its live children flagged; and an active
operation stays active and keeps its holders if the cancellation does not affect it, or if it
is not reached and every emptied ring is noted. -/
theorem cancel_closes_subtree {ops : List Op} {responses : List Response}
    (hrun : run (step platform) boot ops = some (responses, w)) (env : Env) (r : Ref)
    (reason : Nat) : let w' := w.cancel env r reason
    (w'.idle = true ∧ (∀ o ∈ w'.operations, o.pending = 0) ∧
      ∀ fuel, w.operations.length + 1 ≤ fuel →
        cascadeLoop env fuel (w.requestCancel r reason) = w') ∧
    (w.Active r → w'.Cancelled r) ∧
    (∀ root below, w'.Cancelled root → Descends w' root below → w'.Cancelled below) ∧
    (∀ e ∈ w'.endpoints, w'.Cancelled e.operation → ¬e.held) ∧
    (∀ p ∈ w'.prepared, w'.Cancelled p.operation →
      p.state ≠ .staged ∧ (p.state = .live → p.kill = true)) ∧
    ∀ other, w.Active other → ¬Affected env w r other ∨ (w.Noted env r ∧ ¬Reached w r other) →
      w'.Active other ∧ ∀ e ∈ w.endpoints, e.operation = other → e ∈ w'.endpoints := by
  intro w'
  have hsettled := settled_of_run hrun
  have hm := hsettled.mid.requestCancel r reason
  obtain ⟨hmid, hidle⟩ := hm.cascade env
  have hstart : Within env w (Affected env w r) w := .start hsettled _
  have hwithin : Within env w (Affected env w r) w' :=
    (hstart.requestCancel .root reason).cascadeLoop hm (Affected.spreads env w r) _
  have hlength : (w.requestCancel r reason).operations.length = w.operations.length :=
    (Mid.requeued_requestCancel r reason).length_eq.symm
  refine ⟨⟨hidle, hmid.pending_of_idle hidle, fun fuel hfuel => ?_⟩,
    fun h => hsettled.mid.cancelled_cancel env h hsettled.idle reason,
    fun root below => hmid.cancelled_of_descends,
    fun e he hcancelled hheld => hmid.holders e he hheld hcancelled,
    fun p hp hcancelled => ⟨fun h => hmid.staged p hp h hcancelled, fun h => ?_⟩, ?_⟩
  · exact hm.cascadeLoop_eq (by omega)
  · exact (hmid.live p hp h hcancelled).resolve_left id
  · rintro other ⟨o, ho, rfl, hactive⟩ hspared
    have hother : ¬Affected env w r o.reference := by
      rcases hspared with h | ⟨hnoted, h⟩
      · exact h
      · exact fun haffected => h (haffected.least (Reached.spreads hnoted) .root)
    refine ⟨?_, fun e he hop => ?_⟩
    · obtain ⟨b, hb, hrow⟩ := exists_new hwithin.operations ho
      refine ⟨b, hb, hrow.reference, ?_⟩
      cases hstate : b.state with
      | active => rfl
      | cancelled =>
        rcases hrow.cancelled hstate with h | h
        · rw [hactive] at h
          cases h
        · exact absurd h hother
    · obtain ⟨b, hb, hrow⟩ := exists_new hwithin.endpoints he
      rcases hrow with rfl | ⟨hA, -⟩
      · exact hb
      · exact absurd (hop ▸ hA) hother

end

/-- A session is torn down while its controller keeps a duplicate of the stdout writer, whose ring
then has no reader.  The controller makes a second operation with a stream of its own. -/
def tornDown : List Op :=
  let operation : Ref := ⟨1, 1⟩
  let bootstrap : Ref := ⟨2, 1⟩
  let owner : Binding := ⟨2, 11, 2⟩
  let send (caller selector id : Nat) (body : Bytes) :=
    dispatched (calm 12) caller (encodeRequest selector id body)
  let resolve (caller id action : Nat) (session : Ref) :=
    send caller 22 id (bootstrap.toBytes ++ leBytes 4 action ++ leBytes 4 0 ++ session.toBytes)
  [.spawn 10, .spawn 11, .register 3 2] ++ send 1 1 1 Ref.zero.toBytes
    ++ send 1 21 1 (operation.toBytes ++ owner.toBytes ++ leBytes 4 64 ++ leBytes 4 0)
    ++ resolve 2 1 1 Ref.zero ++ resolve 2 2 3 ⟨77, 1⟩
    ++ send 1 3 2 (Ref.toBytes ⟨6, 1⟩ ++ leBytes 4 2 ++ leBytes 4 0)
    ++ resolve 1 3 2 Ref.zero
    ++ send 1 1 2 Ref.zero.toBytes
    ++ send 1 2 1 (Ref.toBytes ⟨12, 1⟩ ++ leBytes 4 64 ++ leBytes 4 0)

/-- A machine on which no ring can be noted. -/
def tight : Env := { calm 12 with grants := fun site _ => site ≠ .deadRing }

/-- The second operation of `tornDown` is alone: it has no child and no producer. -/
theorem tornDown_alone : ∃ responses w, run (step plain) boot tornDown = some (responses, w) ∧
    w.Active ⟨1, 1⟩ ∧ w.Active ⟨12, 1⟩ ∧ ¬Reached w ⟨12, 1⟩ ⟨1, 1⟩ ∧
    (w.cancel tight ⟨12, 1⟩ 1).Cancelled ⟨1, 1⟩ := by
  obtain ⟨responses, w, hrun, hold, hnew, hchildren, hreaders, hgone⟩ : ∃ responses w,
      run (step plain) boot tornDown = some (responses, w) ∧
      (∃ o ∈ w.operations, o.reference = ⟨1, 1⟩ ∧ o.state = .active) ∧
      (∃ o ∈ w.operations, o.reference = ⟨12, 1⟩ ∧ o.state = .active) ∧
      (∀ o ∈ w.operations, o.parent ≠ ⟨12, 1⟩) ∧
      (∀ e ∈ w.endpoints, e.produces ∧ e.operation ≠ ⟨12, 1⟩ →
        ∀ x ∈ w.endpoints, x.owns ⟨e.handle.pipe, .read⟩ = false) ∧
      ∃ o ∈ (w.cancel tight ⟨12, 1⟩ 1).operations, o.reference = ⟨1, 1⟩ ∧ o.state = .cancelled := by
    decide +kernel
  refine ⟨responses, w, hrun, hold, hnew, ?_, hgone⟩
  have halone : ∀ r, Reached w ⟨12, 1⟩ r → r = ⟨12, 1⟩ := by
    intro r h
    induction h with
    | root => rfl
    | child ho _ ih => exact absurd ih (hchildren _ ho)
    | producer he hproduces hx hreads =>
      by_contra hne
      have hnone := hreaders _ he ⟨hproduces, hne⟩ _ hx
      rw [hreads] at hnone
      cases hnone
  exact fun h => absurd (halone _ h) (by decide)

/-- Cancelling the second operation leaves the first one alone. -/
theorem cancel_closes_subtree_alone : ∃ responses w,
    run (step plain) boot tornDown = some (responses, w) ∧
      (w.cancel (calm 12) ⟨12, 1⟩ 1).Cancelled ⟨12, 1⟩ ∧
      (w.cancel (calm 12) ⟨12, 1⟩ 1).Active ⟨1, 1⟩ := by
  obtain ⟨responses, w, hrun, hold, hnew, halone, -⟩ := tornDown_alone
  obtain ⟨-, hroot, -, -, -, hother⟩ := cancel_closes_subtree hrun (calm 12) ⟨12, 1⟩ 1
  have hnoted : w.Noted (calm 12) ⟨12, 1⟩ := .inl fun _ _ => rfl
  exact ⟨responses, w, hrun, hroot hnew, (hother ⟨1, 1⟩ hold (.inr ⟨hnoted, halone⟩)).1⟩

/-- With nothing noted the first operation is cancelled too, which is not below the second one and
does not feed a ring that lost its readers to it. -/
theorem unnoted_ring_cancels_other : ∃ responses w,
    run (step plain) boot tornDown = some (responses, w) ∧ w.Active ⟨1, 1⟩ ∧
      ¬Reached w ⟨12, 1⟩ ⟨1, 1⟩ ∧ (w.cancel tight ⟨12, 1⟩ 1).Cancelled ⟨1, 1⟩ := by
  obtain ⟨responses, w, hrun, hold, -, halone, hgone⟩ := tornDown_alone
  exact ⟨responses, w, hrun, hold, halone, hgone⟩

end Cellos.Session
