import Cellos.Session.Commit

/-!
# Cellos.Session.Cascade

The cancellation worklist settles.

`Mid` is what holds between two turns of the worklist, whatever is queued: the parents of
operations come before them, cancellation is closed under the tree, a cancelled operation
holds nothing and has no unpublished child, and its live children are flagged.

A round of `cascade` that leaves something queued leaves an active operation queued, since
closing producers closes no reader; the next round cancels that operation.  So one round
for each operation and one more are enough.

The kill funnel takes the flag of a child before it retires it; `exempt` names the cell
whose flag was taken.
-/

namespace Cellos.Session

open Lib List Operation
open Pipes (PipeHandle)

variable {operations : List Operation} {e : Endpoint} {p : Prepared}

/-- The operation is there and was cancelled. -/
def World.Cancelled (w : World) (r : Ref) : Prop :=
  ∃ o ∈ w.operations, o.reference = r ∧ o.state = .cancelled

open World

/-- The number of operations that are not cancelled. -/
def World.actives (w : World) : Nat := w.operations.countP fun o => o.state = .active

/-- What holds between two turns of the worklist. -/
structure Mid (exempt : Principal → Prop) (w : World) : Prop where
  sorted : (w.operations.map (·.reference.id)).Pairwise (· < ·)
  older : ∀ o ∈ w.operations, o.parent.id < o.reference.id
  minted : ∀ o ∈ w.operations, o.reference.id < w.next
  ends : (w.endpoints.map (·.reference)).Nodup
  records : (w.prepared.map (·.reference)).Nodup
  passes : ∀ o ∈ w.operations, o.cancelledBy ≤ w.pass
  descend : ∀ o ∈ w.operations, w.Cancelled o.parent → o.state = .cancelled
  holders : ∀ e ∈ w.endpoints, e.held → ¬w.Cancelled e.operation
  staged : ∀ p ∈ w.prepared, p.state = .staged → ¬w.Cancelled p.operation
  live : ∀ p ∈ w.prepared, p.state = .live → w.Cancelled p.operation →
    exempt p.child.principal ∨ p.kill = true
  queued : w.pendingCancels = w.operations.countP fun o => o.pending ≠ 0

/-- What a round leaves: no ring is noted, and every queued operation is active. -/
structure Fed (w : World) : Prop where
  rings : w.deadRings = []
  overflow : w.deadOverflow = false
  active : ∀ o ∈ w.operations, o.pending ≠ 0 → o.state = .active

/-! ## turns that only release -/

/-- A holder record of the same operation, staged for no other child. -/
structure Endpoint.Names (a b : Endpoint) : Prop where
  reference : b.reference = a.reference
  operation : b.operation = a.operation
  staged : ∀ c, b.prepared = some c → a.prepared = some c

/-- A holder record that is held no longer than before. -/
structure Endpoint.Wanes (a b : Endpoint) : Prop extends Endpoint.Names a b where
  held : b.held → a.held

theorem Operation.Kept.trans (a b c : Operation) (h : a.Kept b) (h' : b.Kept c) : a.Kept c := by
  constructor <;> grind [cases Kept]

/-- A child record on its way, as far as cancellation goes: it is live because it was, or
because its operation is not cancelled. -/
structure Prepared.Heeds (w : World) (exempt : Principal → Prop) (a b : Prepared) : Prop where
  reference : b.reference = a.reference
  child : b.child = a.child
  operation : b.operation = a.operation
  staged : b.state = .staged → a.state = .staged
  live : b.state = .live → exempt b.child.principal ∨ ¬w.Cancelled b.operation ∨
    a.state = .live ∧ (a.kill = true → b.kill = true)

theorem Prepared.Heeds.refl (w : World) (a : Prepared) :
    a.Heeds w exempt a := ⟨rfl, rfl, rfl, id, fun h => .inr (.inr ⟨h, id⟩)⟩

/-- An operation whose place in the queue may have changed. -/
structure Operation.Requeued (a b : Operation) : Prop extends Kept a b where
  state : b.state = a.state
  cancelledBy : b.cancelledBy = a.cancelledBy

theorem Operation.Requeued.refl (a : Operation) : a.Requeued a := ⟨.refl a, rfl, rfl⟩

theorem Operation.Requeued.trans (a b c : Operation) (h : a.Requeued b) (h' : b.Requeued c) :
    a.Requeued c :=
  ⟨h.toKept.trans _ _ _ h'.toKept, h'.state.trans h.state, h'.cancelledBy.trans h.cancelledBy⟩

/-- An operation across rounds of the worklist: once cancelled it stays so, and a queued
one is cancelled. -/
structure Operation.Worked (a b : Operation) : Prop where
  reference : b.reference = a.reference
  cancelled : a.state = .cancelled → b.state = .cancelled
  pending : a.pending ≠ 0 → b.state = .cancelled

theorem Operation.Worked.active {a b : Operation} (h : a.Worked b)
    (hb : decide (b.state = .active) = true) : decide (a.state = .active) = true := by
  cases hstate : a.state with
  | active => rfl
  | cancelled =>
    rw [h.cancelled hstate] at hb
    cases hb

/-- An operation whose queued cancellation may have been taken. -/
structure Operation.Taken (a b : Operation) : Prop extends Kept a b where
  cancelled : a.state = .cancelled → b.state = .cancelled
  pending : b.pending = a.pending ∨ b.pending = 0 ∧ b.state = .cancelled

theorem Operation.Taken.refl (a : Operation) : a.Taken a := ⟨.refl a, id, .inl rfl⟩

theorem Operation.Taken.trans (a b c : Operation) (h : a.Taken b) (h' : b.Taken c) : a.Taken c :=
  ⟨h.toKept.trans _ _ _ h'.toKept, h'.cancelled ∘ h.cancelled, by grind [cases Taken]⟩

/-- Nothing but holder and child records changed, and those only forward. -/
structure Inner (w w' : World) : Prop where
  next : w.next ≤ w'.next
  operations : w'.operations = w.operations
  pass : w'.pass = w.pass
  pendingCancels : w'.pendingCancels = w.pendingCancels
  endpoints : Forall₂ Endpoint.Wanes w.endpoints w'.endpoints
  prepared : Forall₂ Prepared.Moves w.prepared w'.prepared

theorem Endpoint.Names.refl (a : Endpoint) : a.Names a := ⟨rfl, rfl, fun _ => id⟩

theorem Endpoint.Names.trans (a b c : Endpoint) (h : a.Names b) (h' : b.Names c) : a.Names c :=
  ⟨h'.reference.trans h.reference, h'.operation.trans h.operation,
    fun x => h.staged x ∘ h'.staged x⟩

theorem Endpoint.Wanes.refl (a : Endpoint) : a.Wanes a := ⟨.refl a, id⟩

theorem Endpoint.Wanes.trans (a b c : Endpoint) (h : a.Wanes b) (h' : b.Wanes c) : a.Wanes c :=
  ⟨h.toNames.trans _ _ _ h'.toNames, h.held ∘ h'.held⟩

theorem Endpoint.Kept.wanes (a b : Endpoint) (h : a.Kept b) : a.Wanes b :=
  ⟨{ h with staged := fun c hc => h.prepared ▸ hc }, by
    unfold Endpoint.held
    rw [h.state]
    exact id⟩

namespace Inner

variable {w : World}

theorem refl (w : World) : Inner w w where
  next := le_rfl
  operations := rfl
  pass := rfl
  pendingCancels := rfl
  endpoints := forall₂_refl .refl
  prepared := forall₂_refl .refl

theorem trans (h : Inner w w') (h' : Inner w' w'') : Inner w w'' where
  next := h.next.trans h'.next
  operations := h'.operations.trans h.operations
  pass := h'.pass.trans h.pass
  pendingCancels := h'.pendingCancels.trans h.pendingCancels
  endpoints := forall₂_trans .trans h.endpoints h'.endpoints
  prepared := forall₂_trans .trans h.prepared h'.prepared

theorem touch (h : Touch w w') : Inner w w' where
  next := h.next
  operations := h.operations
  pass := h.pass
  pendingCancels := h.pendingCancels
  endpoints := h.endpoints.imp Endpoint.Kept.wanes
  prepared := h.prepared

theorem foldl {α : Type} {step : World → α → World} {l : List α}
    (h : ∀ w, ∀ a ∈ l, Inner w (step w a)) (w : World) : Inner w (l.foldl step w) :=
  foldl_related refl (fun _ _ _ => trans) h w

/-- A loop that settles each reference once. -/
theorem foldl_settles {Q : World → Ref → Prop} {step : World → Ref → World}
    (hstep : ∀ s r, Inner s (step s r)) (hsettle : ∀ s r, Q (step s r) r)
    (hkeep : ∀ s s' r, Q s r → Inner s s' → Q s' r) (l : List Ref) (w : World) :
    Inner w (l.foldl step w) ∧ ∀ r ∈ l, Q (l.foldl step w) r :=
  foldl_established (refl w) (fun s r _ h => h.trans (hstep s r))
    (fun s r _ _ => hsettle s r) fun s r c _ _ _ h => hkeep s _ c h (hstep s r)

theorem cancelled (h : Inner w w') (r : Ref) : w'.Cancelled r ↔ w.Cancelled r := by
  unfold World.Cancelled
  rw [h.operations]

theorem marked (h : Inner w w') (r : Ref) : w'.marked r = w.marked r := by
  unfold World.marked
  rw [h.operations, h.pass]

end Inner

/-- What a pass does to one operation: it marks the root, and only operations with the
property. -/
def Operation.Marks (pass : Nat) (root : Ref) (A : Ref → Prop) (a b : Operation) : Prop :=
  a.reference ≠ root ∧ b = a ∨ A a.reference ∧ b = a.mark pass

/-- An operation that was marked by the pass has its children cancelled. -/
def Operation.Heeds (pass : Nat) (a b : Operation) : Prop :=
  a.cancelledBy = pass → b.parent = a.reference → b.parent ≠ Ref.zero → b.state = .cancelled

/-! ## closing a holder -/

namespace World

variable {env : Env} {w : World} {state : EndpointState} {r : Ref}

theorem inner_shut (r : Ref) (h : state.Final) : Inner w (w.shut r state) := by
  rcases w.shut_cases r state with ⟨hsame, -⟩ | ⟨_, _, _, -, -, hshut⟩
  · rw [hsame]
    exact .refl w
  · rw [hshut]
    exact { Inner.refl w with
      endpoints := forall₂_updateFirst .refl fun e _ =>
        ⟨⟨rfl, rfl, fun _ => id⟩, by simp [Endpoint.held, h.1, h.2]⟩ }

theorem inner_closeOne (r : Ref) (h : state.Final) : Inner w (w.closeOne env r state) := by
  obtain ⟨_, _, heq⟩ := w.closeOne_eq_shut env r state
  rw [heq]
  exact { w.inner_shut r h with }

theorem closeOne_releases (h : state.Final) (he : (w.closeOne env r state).EndpointAt r e) :
    e.held = false := by
  obtain ⟨_, _, heq⟩ := w.closeOne_eq_shut env r state
  rw [heq] at he
  rcases w.shut_cases r state with ⟨hsame, hnot⟩ | ⟨_, _, _, ha, -, hshut⟩
  · rw [hsame] at he
    exact hnot e he
  rw [hshut] at he
  have hset : (w.setEndpoint r fun e => { e with state }).endpoints.find?
      (fun e => e.reference = r) = some e := he
  rw [find?_setEndpoint_self ?_ ha] at hset
  · cases hset
    simp [Endpoint.held, h.1, h.2]
  · exact fun _ => rfl

/-! ## marking -/

variable {pass : Nat} {root : Ref}

/-- The pass marks descendants only. -/
theorem marks_markBelow (hroot : ∀ o ∈ rest, o.reference ≠ root)
    (hknown : ∀ k ∈ known, k.cancelledBy = pass → A k.reference)
    (hchild : ∀ o ∈ rest, A o.parent → A o.reference) (hpass : ∀ o ∈ rest, o.cancelledBy < pass) :
    Forall₂ (Marks pass root A) rest (markBelow pass known rest) := by
  induction rest generalizing known with
  | nil => exact .nil
  | cons o _ ih =>
    rw [forall_mem_cons] at hroot hchild hpass
    unfold markBelow
    split
    · next hmark =>
      obtain ⟨k, hk, hparent, hby⟩ : ∃ k ∈ known, k.reference = o.parent ∧ k.cancelledBy = pass := by
        simpa using hmark.2.2
      have ho : A o.reference := hchild.1 (hparent ▸ hknown k hk hby)
      exact .cons (.inr ⟨ho, rfl⟩) (ih hroot.2 (forall_mem_concat hknown fun _ => ho) hchild.2
        hpass.2)
    · refine .cons (.inl ⟨hroot.1, rfl⟩) (ih hroot.2 (forall_mem_concat hknown fun hby => ?_)
        hchild.2 hpass.2)
      exact absurd hpass.1 (by omega)

theorem marks_markSubtree (hnodup : (operations.map (·.reference)).Nodup) (hroot : A root)
    (hchild : ∀ o ∈ operations, A o.parent → A o.reference)
    (hpass : ∀ o ∈ operations, o.cancelledBy < pass) :
    Forall₂ (Marks pass root A) operations (markSubtree pass root operations) := by
  induction operations with
  | nil => exact .nil
  | cons o _ ih =>
    rw [forall_mem_cons] at hchild hpass
    rw [map_cons, nodup_cons] at hnodup
    unfold markSubtree
    split
    · next href =>
      refine .cons (.inr ⟨href ▸ hroot, rfl⟩) (marks_markBelow ?_ ?_ hchild.2 hpass.2)
      · intro q hq hq'
        exact hnodup.1 (mem_map.mpr ⟨q, hq, hq'.trans href.symm⟩)
      · intro q hq
        obtain rfl : q = o.mark pass := by simpa using hq
        exact fun _ => href ▸ hroot
    · next href => exact .cons (.inl ⟨href, rfl⟩) (ih hnodup.2 hchild.2 hpass.2)

/-- The pass leaves no active operation below a marked one. -/
theorem heeds_markBelow (pass : Nat) (known rest : List Operation) :
    (markBelow pass known rest).Pairwise (Heeds pass) ∧
      ∀ k ∈ known, ∀ o ∈ markBelow pass known rest, k.Heeds pass o := by
  induction rest generalizing known with
  | nil => exact ⟨.nil, fun _ _ _ h => absurd h not_mem_nil⟩
  | cons o _ ih =>
    unfold markBelow
    extract_lets o'
    obtain ⟨hpair, hknown⟩ := ih (known ++ [o'])
    have hhead : ∀ k ∈ known, k.Heeds pass o' := by
      intro k hk hby hparent hzero
      by_cases hcond : o.state = .active ∧ o.parent ≠ Ref.zero
          ∧ known.any fun k => k.reference = o.parent ∧ k.cancelledBy = pass
      · have ho' : o' = o.mark pass := if_pos hcond
        rw [ho']
        rfl
      have ho' : o' = o := if_neg hcond
      rw [ho'] at hparent hzero ⊢
      cases hstate : o.state with
      | cancelled => rfl
      | active =>
        exact absurd ⟨hstate, hzero, any_eq_true.mpr ⟨k, hk, by simp [hparent, hby]⟩⟩ hcond
    refine ⟨pairwise_cons.mpr ⟨fun q hq => ?_, hpair⟩, fun k hk q hq => ?_⟩
    · exact hknown o' (mem_append_right _ (mem_singleton_self o')) q hq
    · rcases mem_cons.mp hq with rfl | hq
      · exact hhead k hk
      · exact hknown k (mem_append_left _ hk) q hq

theorem heeds_markSubtree (hpass : ∀ o ∈ operations, o.cancelledBy < pass) :
    (markSubtree pass root operations).Pairwise (Heeds pass) := by
  induction operations with
  | nil => exact .nil
  | cons o rest ih =>
    rw [forall_mem_cons] at hpass
    unfold markSubtree
    split
    · obtain ⟨hpair, hknown⟩ := heeds_markBelow pass [o.mark pass] rest
      exact pairwise_cons.mpr ⟨hknown _ (mem_singleton_self _), hpair⟩
    · refine pairwise_cons.mpr ⟨fun q _ hby => ?_, ih hpass.2⟩
      exact absurd hpass.1 (by omega)

/-! ## one subtree -/

theorem inner_closeMarked (r : Ref) : Inner w (w.closeMarked env r) := by
  unfold closeMarked
  split
  · exact .refl w
  · split
    · exact inner_closeOne r (by simp)
    · exact .refl w

/-- The holders the first loop of a cancellation leaves. -/
def Released (w : World) (r : Ref) : Prop :=
  ∀ e, w.endpoints.find? (fun e => e.reference = r) = some e → e.held → w.marked e.operation = false

theorem released_closeMarked (r : Ref) : (w.closeMarked env r).Released r := by
  intro e he hheld
  unfold closeMarked at he ⊢
  split at he
  · next hnone =>
    rw [hnone] at he
    cases he
  · next ha =>
    split at he
    · rw [closeOne_releases (by simp) he] at hheld
      cases hheld
    next hkeep =>
    rw [ha] at he
    cases he
    rw [if_neg hkeep]
    simpa [hheld] using hkeep

theorem Released.inner (h : w.Released r) (hi : Inner w w') : w'.Released r := by
  intro e he hheld
  obtain ⟨a, ha, hwanes⟩ :=
    find?_old_of_forall₂ hi.endpoints (fun a b hab => by rw [hab.reference]) he
  rw [hi.marked, hwanes.operation]
  exact h a ha (hwanes.held hheld)

theorem inner_abortPrepared (r : Ref) :
    Inner w (w.abortPrepared (fun w r => w.closeOne env r .revoked) r false) :=
  abortPrepared_related Inner.refl (fun _ _ _ => Inner.trans) (fun _ _ => Inner.touch)
    (fun u x => u.inner_closeOne x (by simp)) r false

theorem inner_cancelChild (reason : Nat) (r : Ref) : Inner w (w.cancelChild env reason r) := by
  unfold cancelChild
  split
  · exact .refl w
  split
  · exact .refl w
  split
  · exact inner_abortPrepared r
  · split
    · exact .touch (Touch.kill reason)
    · exact .refl w

/-- The children the second loop of a cancellation leaves. -/
def Settles (w : World) (r : Ref) : Prop :=
  ∀ p, w.prepared.find? (fun p => p.reference = r) = some p → w.marked p.operation = true →
    p.state ≠ .staged ∧ (p.state = .live → p.kill = true)

theorem Settles.inner (h : w.Settles r) (hi : Inner w w') : w'.Settles r := by
  intro p hp hmarked
  obtain ⟨a, ha, hmoves⟩ :=
    find?_old_of_forall₂ hi.prepared (fun a b hab => by rw [hab.reference]) hp
  rw [hi.marked, hmoves.operation] at hmarked
  obtain ⟨hstaged, hlive⟩ := h a ha hmarked
  refine ⟨hstaged ∘ hmoves.staged, fun hb => ?_⟩
  obtain ⟨ha', hkill⟩ := hmoves.live hb
  exact hkill (hlive ha')

theorem prepared_dropPreparation (p : Prepared) (expired : Bool) :
    ∃ sequence, (w.dropPreparation p expired).prepared =
      (w.setPrepared p.reference (dropped expired sequence)).prepared := by
  have hrelease : ((w.releasePublication p).terminalSequence.2).prepared = w.prepared := by
    unfold releasePublication terminalSequence
    repeat' split
    all_goals rfl
  refine ⟨(w.releasePublication p).terminalSequence.1, ?_⟩
  unfold dropPreparation setPrepared
  dsimp only
  rw [hrelease]

/-- An aborted child is neither staged nor live. -/
theorem settles_abortPrepared (hp : w.PreparedAt r p) (hstaged : p.state = .staged) :
    (w.abortPrepared (fun w r => w.closeOne env r .revoked) r false).Settles r := by
  obtain rfl : p.reference = r := by simpa using find?_some hp
  have hdrop : (w.dropPreparation p false).Settles p.reference := by
    obtain ⟨_, hrows⟩ := prepared_dropPreparation p false
    intro q hq _
    rw [hrows, find?_setPrepared hp rfl] at hq
    cases hq
    simp [dropped]
  unfold abortPrepared
  simp only [hp, hstaged, ne_eq, not_true_eq_false, if_false]
  refine (hdrop.inner (.foldl (fun u rr _ => ?_) _)).inner (.foldl (fun u x _ => ?_) _)
  · exact (u.inner_closeOne _ (by simp)).trans (inner_closeOne _ (by simp))
  unfold closeStaged
  split
  · split
    · exact u.inner_closeOne x (by simp)
    · exact .refl u
  · exact .refl u

theorem settles_cancelChild (reason : Nat) (r : Ref) : (w.cancelChild env reason r).Settles r := by
  unfold cancelChild
  split
  · next hnone =>
    intro p hp
    rw [hnone] at hp
    cases hp
  · next hp =>
    split
    · next hunmarked =>
      intro q hq hmarked
      cases hp.symm.trans hq
      rw [hunmarked] at hmarked
      cases hmarked
    · split
      · next hstaged => exact settles_abortPrepared hp hstaged
      next hstaged =>
      split
      · intro q hq _
        rw [find?_setPrepared hp (by simpa using find?_some hp)] at hq
        cases hq
        exact ⟨hstaged, fun _ => rfl⟩
      · next hlive =>
        intro q hq _
        cases hp.symm.trans hq
        exact ⟨hstaged, fun h => absurd h hlive⟩

/-- `cancel_subtree` up to its two loops. -/
def markPass (w : World) (root : Ref) : World :=
  { w with pass := w.pass + 1, operations := markSubtree (w.pass + 1) root w.operations }

/-- The two loops of `cancel_subtree` release what belongs to a marked operation. -/
theorem cancelSubtree_releases (env : Env) (hends : (w.endpoints.map (·.reference)).Nodup)
    (hrecords : (w.prepared.map (·.reference)).Nodup) (root : Ref) (reason : Nat) :
    Inner (w.markPass root) (w.cancelSubtree env root reason) ∧
      (∀ e ∈ (w.cancelSubtree env root reason).endpoints, e.held →
        (w.markPass root).marked e.operation = false) ∧
      ∀ p ∈ (w.cancelSubtree env root reason).prepared,
        (w.markPass root).marked p.operation = true →
        p.state ≠ .staged ∧ (p.state = .live → p.kill = true) := by
  unfold cancelSubtree
  extract_lets u v
  obtain ⟨hfirst, hreleased⟩ : Inner u v ∧ ∀ r ∈ u.endpoints.map (·.reference), v.Released r :=
    Inner.foldl_settles (fun s => s.inner_closeMarked) (fun s => s.released_closeMarked)
      (fun _ _ _ h => h.inner) _ u
  obtain ⟨hsecond, hsettles⟩ :
      Inner v ((v.prepared.map (·.reference)).foldl (cancelChild env reason) v) ∧
        ∀ r ∈ v.prepared.map (·.reference),
          ((v.prepared.map (·.reference)).foldl (cancelChild env reason) v).Settles r :=
    Inner.foldl_settles (fun s => s.inner_cancelChild reason)
      (fun s => s.settles_cancelChild reason) (fun _ _ _ h => h.inner) _ v
  generalize (v.prepared.map (·.reference)).foldl (cancelChild env reason) v = out at *
  have hall : Inner (w.markPass root) out := hfirst.trans hsecond
  have hendRefs : out.endpoints.map (·.reference) = u.endpoints.map (·.reference) :=
    map_eq_of_forall₂ hall.endpoints fun _ _ h => h.reference
  have hrecordRefs : out.prepared.map (·.reference) = v.prepared.map (·.reference) :=
    map_eq_of_forall₂ hsecond.prepared fun _ _ h => h.reference
  refine ⟨hall, forall_mem_of_find hendRefs hends fun r hr e he hheld => ?_,
    forall_mem_of_find hrecordRefs ?_ fun r hr p hp hmarked => ?_⟩
  · rw [← hall.marked]
    exact ((hreleased r hr).inner hsecond) e he hheld
  · rw [map_eq_of_forall₂ hfirst.prepared fun _ _ h => h.reference]
    exact hrecords
  · rw [← hall.marked] at hmarked
    exact hsettles r hr p hp hmarked

end World

/-! ## a cancelled subtree -/

namespace Mid

variable {exempt : Principal → Prop} {w : World} {r : Ref} {o : Operation}

theorem nodup_of_sorted (h : (operations.map (·.reference.id)).Pairwise (· < ·)) :
    (operations.map (·.reference)).Nodup := by
  have hids : (operations.map (·.reference.id)).Nodup := h.imp Nat.ne_of_lt
  have hmap : operations.map (·.reference.id) = (operations.map (·.reference)).map (·.id) := by
    rw [map_map]
    rfl
  rw [hmap] at hids
  exact hids.of_map _

variable (m : Mid exempt w)

include m

theorem marks {root : Ref} (hroot : A root)
    (hchild : ∀ o ∈ w.operations, A o.parent → A o.reference) :
    Forall₂ (Marks (w.pass + 1) root A) w.operations (w.markPass root).operations :=
  marks_markSubtree (nodup_of_sorted m.sorted) hroot hchild fun o ho =>
    Nat.lt_succ_of_le (m.passes o ho)

variable (root : Ref)

theorem marksAll :
    Forall₂ (Marks (w.pass + 1) root fun _ => True) w.operations (w.markPass root).operations :=
  m.marks trivial fun _ _ _ => trivial

omit m in
theorem kept_markPass : Forall₂ Kept w.operations (w.markPass root).operations :=
  kept_markSubtree _ _ _

theorem sorted_markPass : ((w.markPass root).operations.map (·.reference.id)).Pairwise (· < ·) := by
  have hids : (w.markPass root).operations.map (·.reference.id) =
      w.operations.map (·.reference.id) :=
    map_eq_of_forall₂ (kept_markPass root) fun _ _ h => by rw [h.reference]
  rw [hids]
  exact m.sorted

theorem older_markPass : ∀ o ∈ (w.markPass root).operations, o.parent.id < o.reference.id := by
  intro o ho
  obtain ⟨a, ha, hkept⟩ := exists_old (kept_markPass root) ho
  rw [hkept.parent, hkept.reference]
  exact m.older a ha

theorem marked_of_cancelled {root : Ref}
    (h : (w.markPass root).Cancelled r) : w.Cancelled r ∨ (w.markPass root).marked r = true := by
  have hrows := m.marksAll root
  obtain ⟨b, hb, rfl, hstate⟩ := h
  obtain ⟨a, ha, ⟨-, rfl⟩ | ⟨-, rfl⟩⟩ := exists_old hrows hb
  · exact .inl ⟨b, ha, rfl, hstate⟩
  refine .inr ?_
  have hfind : (w.markPass root).operations.find?
      (fun o => o.reference = (a.mark (w.pass + 1)).reference) = some (a.mark (w.pass + 1)) :=
    find?_key_of_nodup (nodup_of_sorted (m.sorted_markPass root)) hb
  unfold marked
  rw [hfind]
  simp [mark, markPass]

/-- After a pass cancellation is closed under the tree again. -/
theorem descend_markPass {root : Ref}
    (ho : o ∈ (w.markPass root).operations) (h : (w.markPass root).Cancelled o.parent) :
    o.state = .cancelled := by
  have hrows := m.marksAll root
  rcases m.marked_of_cancelled h with hold | hmarked
  · obtain ⟨a, ha, ⟨-, rfl⟩ | ⟨-, rfl⟩⟩ := exists_old hrows ho
    · exact m.descend o ha hold
    · rfl
  obtain ⟨q, hq, hby⟩ := (Option.any_eq_true _ _).mp hmarked
  have href : q.reference = o.parent := by simpa using find?_some hq
  have hmem : q ∈ (w.markPass root).operations := mem_of_find?_eq_some hq
  have holder : o.parent.id < o.reference.id := m.older_markPass root o ho
  have hheeds : q.Heeds (w.pass + 1) o := by
    refine pairwise_of_key_lt (heeds_markSubtree fun a ha => ?_) (m.sorted_markPass root)
      hmem ho (href ▸ holder)
    exact Nat.lt_succ_of_le (m.passes a ha)
  -- the parent of an operation is older than it, so the reference of one is not zero
  have hpos : q.parent.id < q.reference.id := m.older_markPass root q hmem
  refine hheeds (of_decide_eq_true hby) href.symm fun hzero => ?_
  rw [href, hzero] at hpos
  exact absurd hpos (Nat.not_lt_zero _)

theorem cancelSubtree (reason : Nat) : Mid exempt (w.cancelSubtree env root reason) := by
  obtain ⟨hinner, hheld, hchildren⟩ := cancelSubtree_releases env m.ends m.records root reason
  have hrows := m.marksAll root
  generalize w.cancelSubtree env root reason = v at *
  have hops : v.operations = (w.markPass root).operations := hinner.operations
  have hcancelled {r : Ref} (h : v.Cancelled r) :
      w.Cancelled r ∨ (w.markPass root).marked r = true :=
    m.marked_of_cancelled ((hinner.cancelled r).mp h)
  exact {
    sorted := hops ▸ m.sorted_markPass root
    older := hops ▸ m.older_markPass root
    minted := by
      rw [hops]
      intro o ho
      obtain ⟨a, ha, hkept⟩ := exists_old (kept_markPass root) ho
      rw [hkept.reference]
      exact (m.minted a ha).trans_le hinner.next
    ends := by
      rw [map_eq_of_forall₂ hinner.endpoints fun _ _ h => h.reference]
      exact m.ends
    records := by
      rw [map_eq_of_forall₂ hinner.prepared fun _ _ h => h.reference]
      exact m.records
    passes := by
      rw [hops, hinner.pass]
      intro o ho
      obtain ⟨a, ha, ⟨-, rfl⟩ | ⟨-, rfl⟩⟩ := exists_old hrows ho
      · exact Nat.le_succ_of_le (m.passes o ha)
      · exact le_rfl
    descend := by
      intro o ho h
      rw [hops] at ho
      exact m.descend_markPass ho ((hinner.cancelled _).mp h)
    holders := by
      intro e he hhe h
      obtain ⟨a, ha, hwanes⟩ := exists_old hinner.endpoints he
      rcases hcancelled h with hold | hmarked
      · rw [hwanes.operation] at hold
        exact m.holders a ha (hwanes.held hhe) hold
      · rw [hheld e he hhe] at hmarked
        cases hmarked
    staged := by
      intro p hp hstaged h
      obtain ⟨a, ha, hmoves⟩ := exists_old hinner.prepared hp
      rcases hcancelled h with hold | hmarked
      · rw [hmoves.operation] at hold
        exact m.staged a ha (hmoves.staged hstaged) hold
      · exact (hchildren p hp hmarked).1 hstaged
    live := by
      intro p hp hlive h
      obtain ⟨a, ha, hmoves⟩ := exists_old hinner.prepared hp
      rcases hcancelled h with hold | hmarked
      · obtain ⟨halive, hkill⟩ := hmoves.live hlive
        rw [hmoves.operation] at hold
        rw [hmoves.child]
        exact (m.live a ha halive hold).imp_right hkill
      · exact .inr ((hchildren p hp hmarked).2 hlive)
    queued := by
      rw [hops, hinner.pendingCancels, countP_of_forall₂ hrows fun a b hab => ?_]
      · exact m.queued
      · rcases hab with ⟨-, rfl⟩ | ⟨-, rfl⟩ <;> rfl }

/-! ## the queue -/

attribute [grind cases] Kept Requeued Endpoint.Names Endpoint.Wanes Prepared.Heeds

/-- A change of rows: each one goes back to an old one, or belongs to no cancelled operation. -/
structure Goes (exempt : Principal → Prop) (w w' : World) : Prop where
  next : w.next ≤ w'.next
  pass : w'.pass = w.pass
  cancelled : ∀ r, w'.Cancelled r → w.Cancelled r
  operations : ∀ b ∈ w'.operations, (∃ a ∈ w.operations, a.Requeued b) ∨
    b.parent.id < b.reference.id ∧ b.reference.id < w'.next ∧ b.cancelledBy ≤ w'.pass ∧
      ¬w.Cancelled b.parent
  endpoints : ∀ b ∈ w'.endpoints, (∃ a ∈ w.endpoints, a.Wanes b) ∨ ¬w.Cancelled b.operation
  prepared : ∀ b ∈ w'.prepared, (∃ a ∈ w.prepared, Prepared.Heeds w exempt a b) ∨
    ¬w.Cancelled b.operation

/-- What the worklist needs, for rows that go back to old ones. -/
theorem of_goes (hexempt : ∀ x, exempt x → exempt' x) (h : Goes exempt' w w')
    (hsorted : (w'.operations.map (·.reference.id)).Pairwise (· < ·))
    (hends : (w'.endpoints.map (·.reference)).Nodup)
    (hrecords : (w'.prepared.map (·.reference)).Nodup)
    (hqueued : w'.pendingCancels = w'.operations.countP fun o => o.pending ≠ 0) :
    Mid exempt' w' := by
  obtain ⟨hnext, hpass, hcancelled, hops, hholders, hchildren⟩ := h
  refine ⟨hsorted, ?_, ?_, hends, hrecords, ?_, ?_, ?_, ?_, ?_, hqueued⟩
  · grind [m.older]
  · have hminted := m.minted
    grind
  · grind [m.passes]
  · grind [m.descend]
  · grind [m.holders]
  · grind [m.staged]
  · grind [m.live]

/-- Records went forward; a child that became live belongs to no cancelled operation. -/
theorem of_records (hexempt : ∀ x, exempt x → exempt' x) (hnext : w.next ≤ w'.next)
    (hops : w'.operations = w.operations) (hpass : w'.pass = w.pass)
    (hpending : w'.pendingCancels = w.pendingCancels)
    (hends : Forall₂ Endpoint.Wanes w.endpoints w'.endpoints)
    (hprepared : Forall₂ (Prepared.Heeds w exempt') w.prepared w'.prepared) :
    Mid exempt' w' := by
  refine m.of_goes hexempt ⟨hnext, hpass, ?_, ?_, fun b hb => .inl (exists_old hends hb),
    fun b hb => .inl (exists_old hprepared hb)⟩ (hops ▸ m.sorted) ?_ ?_ ?_
  · unfold World.Cancelled
    rw [hops]
    exact fun _ => id
  · rw [hops]
    exact fun b hb => .inl ⟨b, hb, .refl b⟩
  · rw [map_eq_of_forall₂ hends fun _ _ h => h.reference]
    exact m.ends
  · rw [map_eq_of_forall₂ hprepared fun _ _ h => h.reference]
    exact m.records
  · rw [hops, hpending]
    exact m.queued

theorem inner (h : Inner w w') : Mid exempt w' :=
  m.of_records (fun _ => id) h.next h.operations h.pass h.pendingCancels h.endpoints
    (h.prepared.imp fun _ _ hm =>
      { hm with live := fun hb => .inr (.inr (hm.live hb)) })

theorem requeue {pendingCancels : Nat} (hrows : Forall₂ Requeued w.operations operations)
    (hqueued : pendingCancels = operations.countP fun o => o.pending ≠ 0) :
    Mid exempt { w with operations, pendingCancels } := by
  refine m.of_goes (fun _ => id) ⟨le_rfl, rfl, ?_, fun b hb => .inl (exists_old hrows hb),
    fun b hb => .inl ⟨b, hb, .refl b⟩, fun b hb => .inl ⟨b, hb, .refl w b⟩⟩ ?_ m.ends m.records
    hqueued
  · rintro r ⟨b, hb, rfl, hstate⟩
    obtain ⟨a, ha, hab⟩ := exists_old hrows hb
    exact ⟨a, ha, hab.reference.symm, hab.state ▸ hstate⟩
  · rw [map_eq_of_forall₂ hrows fun _ _ h => by rw [h.reference]]
    exact m.sorted

theorem requestCancel (r : Ref) (reason : Nat) : Mid exempt (w.requestCancel r reason) := by
  unfold World.requestCancel
  split
  · exact m
  next o ho =>
  split
  · next hidle =>
    refine m.requeue (forall₂_updateFirst .refl fun o _ => ⟨⟨rfl, rfl, rfl, rfl⟩, rfl, rfl⟩) ?_
    have hcount := countP_updateFirst (q := fun o : Operation => o.pending ≠ 0)
      (fun o => { o with pending := max reason 1 }) ho
    have hpos : max reason 1 ≠ 0 := by omega
    simp only [hidle.2, hpos, ne_eq, not_true_eq_false, not_false_eq_true, decide_false,
      decide_true, Bool.false_eq_true, if_false, if_true, Nat.add_zero] at hcount
    rw [m.queued]
    exact hcount.symm
  · exact m

/-- The operations a cancellation leaves, row by row. -/
theorem marks_cancelSubtree (reason : Nat) :
    Forall₂ (Marks (w.pass + 1) root fun _ => True) w.operations
      (w.cancelSubtree env root reason).operations := by
  obtain ⟨hinner, -⟩ := cancelSubtree_releases env m.ends m.records root reason
  rw [hinner.operations]
  exact m.marksAll root

theorem dequeue
    (ho : w.operations.find? (fun o => o.reference = r) = some o) (hpending : o.pending ≠ 0) :
    Mid exempt { w with
      operations := updateFirst (fun o => o.reference = r) (fun o => { o with pending := 0 })
        w.operations
      pendingCancels := w.pendingCancels - 1 } := by
  have hcount : ((updateFirst (fun o => o.reference = r) (fun o => { o with pending := 0 })
      w.operations).countP fun o => o.pending ≠ 0) + 1 =
      w.operations.countP fun o => o.pending ≠ 0 := by
    simpa [hpending] using countP_updateFirst (q := fun o : Operation => o.pending ≠ 0)
      (fun o => { o with pending := 0 }) ho
  refine m.requeue (forall₂_updateFirst .refl fun o _ => ⟨⟨rfl, rfl, rfl, rfl⟩, rfl, rfl⟩) ?_
  rw [m.queued, ← hcount, Nat.add_sub_cancel]

theorem takePending (env : Env) (r : Ref) : Mid exempt (w.takePending env r) ∧
      Forall₂ Taken w.operations (w.takePending env r).operations ∧
      ∀ o, (w.takePending env r).operations.find? (fun o => o.reference = r) = some o →
        o.pending = 0 := by
  unfold World.takePending
  split
  · next hnone => exact ⟨m, forall₂_refl .refl, fun o ho => by rw [hnone] at ho; cases ho⟩
  next o ho =>
  split
  · next hzero => exact ⟨m, forall₂_refl .refl, fun q hq => by cases ho.symm.trans hq; exact hzero⟩
  next hpending =>
  have href : o.reference = r := by simpa using find?_some ho
  extract_lets u
  have hrows : Forall₂ (fun a b : Operation => a.Requeued b ∧
      (b.pending = a.pending ∨ b.pending = 0 ∧ a = o)) w.operations u.operations := by
    refine forall₂_updateFirst (fun a => ⟨.refl a, .inl rfl⟩) fun a ha => ?_
    cases ho.symm.trans ha
    exact ⟨⟨⟨rfl, rfl, rfl, rfl⟩, rfl, rfl⟩, .inr ⟨rfl, rfl⟩⟩
  have hfind : u.operations.find? (fun o => o.reference = r) = some { o with pending := 0 } :=
    find?_updateFirst_self ho (by simpa using href)
  have hu : Mid exempt u := m.dequeue ho hpending
  split
  · refine ⟨hu.cancelSubtree r o.pending, ?_, fun q hq => ?_⟩
    · refine forall₂_comp (fun a b c ⟨hkept, hpend⟩ hbc => ?_) hrows
        (hu.marks_cancelSubtree r o.pending)
      rcases hbc with ⟨hne, rfl⟩ | ⟨-, rfl⟩
      · refine ⟨hkept.toKept, hkept.state.trans, .inl ?_⟩
        rcases hpend with hpend | ⟨-, rfl⟩
        · exact hpend
        · exact absurd (hkept.reference.trans href) hne
      · refine ⟨{ hkept with }, fun _ => rfl, ?_⟩
        exact hpend.imp_right fun h => ⟨h.1, rfl⟩
    · obtain ⟨b, hb, hmarks⟩ := find?_old_of_forall₂ (hu.marks_cancelSubtree r o.pending)
        (fun a b hab => by rcases hab with ⟨-, rfl⟩ | ⟨-, rfl⟩ <;> rfl) hq
      cases hfind.symm.trans hb
      rcases hmarks with ⟨-, rfl⟩ | ⟨-, rfl⟩ <;> rfl
  · next hstate =>
    refine ⟨hu, hrows.imp ?_, fun q hq => ?_⟩
    · rintro a b ⟨hkept, hpend⟩
      refine ⟨hkept.toKept, hkept.state.trans, hpend.imp_right ?_⟩
      rintro ⟨hzero, rfl⟩
      refine ⟨hzero, hkept.state.trans ?_⟩
      cases hs : a.state with
      | active => exact absurd hs hstate
      | cancelled => rfl
    · cases hfind.symm.trans hq
      rfl

/-- The first loop of a round takes every queued cancellation. -/
theorem takeAll (env : Env) :
    Mid exempt ((w.operations.map (·.reference)).foldl (World.takePending env) w) ∧
      Forall₂ (fun a b : Operation => a.Taken b ∧ b.pending = 0) w.operations
        ((w.operations.map (·.reference)).foldl (World.takePending env) w).operations := by
  obtain ⟨⟨hmid, hrows⟩, htaken⟩ := foldl_established
    (P := fun s => Mid exempt s ∧ Forall₂ Taken w.operations s.operations)
    (Q := fun r s => ∀ o, s.operations.find? (fun o => o.reference = r) = some o → o.pending = 0)
    ⟨m, forall₂_refl .refl⟩
    (fun s r _ h => ⟨(h.1.takePending env r).1,
      forall₂_trans .trans h.2 (h.1.takePending env r).2.1⟩)
    (fun s r _ h => (h.1.takePending env r).2.2) (fun s r c _ _ h hc o ho => by
      obtain ⟨a, ha, hrow⟩ := find?_old_of_forall₂ (h.1.takePending env r).2.1
        (fun a b hab => by rw [hab.reference]) ho
      rcases hrow.pending with hsame | hzero
      · exact hsame.trans (hc a ha)
      · exact hzero.1)
  have hrefs := map_eq_of_forall₂ hrows fun _ _ h => h.reference
  exact ⟨hmid, forall₂_and_right hrows (forall_mem_of_find hrefs (nodup_of_sorted m.sorted) htaken)⟩

/-! ## producers -/

omit m in
/-- Only a reader's close is noted. -/
theorem dead_closeOne_write (env : Env) (state : EndpointState)
    (he : w.EndpointAt r e) (hside : e.handle.side = .write) :
    (w.closeOne env r state).deadRings = w.deadRings ∧
      (w.closeOne env r state).deadOverflow = w.deadOverflow := by
  obtain ⟨_, _, hframe⟩ := sessionClose_frame (w.setEndpoint r fun e => { e with state }) e.handle
  unfold closeOne
  simp only [he, hside, reduceCtorEq, false_and, if_false]
  rw [hframe]
  repeat' split
  all_goals exact ⟨rfl, rfl⟩

omit m in
theorem operations_closeOne (r : Ref) (state : EndpointState) :
    (w.closeOne env r state).operations = w.operations := by
  obtain ⟨_, _, _, _, _, he⟩ := w.closeOne_frame env r state
  rw [he]

omit m in
theorem requeued_requestCancel (r : Ref) (reason : Nat) :
    Forall₂ Requeued w.operations (w.requestCancel r reason).operations := by
  unfold World.requestCancel
  split
  · exact forall₂_refl .refl
  · split
    · exact forall₂_updateFirst .refl fun o _ => ⟨⟨rfl, rfl, rfl, rfl⟩, rfl, rfl⟩
    · exact forall₂_refl .refl

omit m in
/-- A request for cancellation queues active operations only. -/
theorem fed_requestCancel (h : Fed w) (r : Ref) (reason : Nat) : Fed (w.requestCancel r reason) := by
  unfold World.requestCancel
  split
  · exact h
  next ho =>
  split
  · next hactive =>
    refine { h with active := fun b hb hpending => ?_ }
    rcases mem_updateFirst hb with hold | ⟨a, ha, rfl⟩
    · exact h.active b hold hpending
    · cases ho.symm.trans ha
      exact hactive.1
  · exact h

theorem closeProducer (env : Env) (overflow : Bool) (rings : List Nat) (r : Ref) :
    Mid exempt (w.closeProducer env overflow rings r) ∧
      Forall₂ Requeued w.operations (w.closeProducer env overflow rings r).operations ∧
      (Fed w → Fed (w.closeProducer env overflow rings r)) := by
  unfold World.closeProducer
  split
  · exact ⟨m, forall₂_refl .refl, id⟩
  next e he =>
  split
  · next hdead =>
    have hside : e.handle.side = .write := by
      exact (of_decide_eq_true hdead).2.1
    have hops : (w.closeOne env r .revoked).operations = w.operations := operations_closeOne r _
    have hmid : Mid exempt (w.closeOne env r .revoked) := m.inner (w.inner_closeOne r (by simp))
    have hfed (h : Fed w) : Fed (w.closeOne env r .revoked) := by
      obtain ⟨hrings, hoverflow⟩ := dead_closeOne_write env .revoked he hside
      exact ⟨hrings.trans h.rings, hoverflow.trans h.overflow, hops ▸ h.active⟩
    split
    · exact ⟨hmid, hops ▸ forall₂_refl .refl, hfed⟩
    · exact ⟨hmid.requestCancel _ 3, hops ▸ requeued_requestCancel _ 3,
        fun h => fed_requestCancel (hfed h) _ 3⟩
  · exact ⟨m, forall₂_refl .refl, id⟩

/-- A pass over the producers leaves active operations queued and no ring noted. -/
theorem closeProducers (env : Env) (hpending : ∀ o ∈ w.operations, o.pending = 0) :
    Mid exempt (w.closeProducers env) ∧ Fed (w.closeProducers env) ∧
      Forall₂ Requeued w.operations (w.closeProducers env).operations := by
  have hactive : ∀ o ∈ w.operations, o.pending ≠ 0 → o.state = .active :=
    fun o ho h => absurd (hpending o ho) h
  unfold World.closeProducers
  split
  · next hnone => exact ⟨m, ⟨hnone.1, hnone.2, hactive⟩, forall₂_refl .refl⟩
  refine foldlRecOn _ _ (motive := fun s => Mid exempt s ∧ Fed s ∧
    Forall₂ Requeued w.operations s.operations) ?_ fun s ⟨hs, hfed, hrows⟩ r _ => ?_
  · exact ⟨m.inner { Inner.refl w with }, ⟨rfl, rfl, hactive⟩, forall₂_refl .refl⟩
  · obtain ⟨hmid, hrows', hfed'⟩ := hs.closeProducer env w.deadOverflow w.deadRings r
    exact ⟨hmid, hfed' hfed, forall₂_trans .trans hrows hrows'⟩

/-! ## rounds -/

/-- A round leaves active operations queued; one that was queued is cancelled. -/
theorem cascadeRound (env : Env) : Mid exempt (w.cascadeRound env) ∧ Fed (w.cascadeRound env) ∧
      Forall₂ Worked w.operations (w.cascadeRound env).operations := by
  obtain ⟨hmid, hrows⟩ := m.takeAll env
  obtain ⟨hmid', hfed, hrows'⟩ := hmid.closeProducers env fun o ho => by
    obtain ⟨a, -, -, hzero⟩ := exists_old hrows ho
    exact hzero
  refine ⟨hmid', hfed, forall₂_comp (fun a b c hab hbc => ?_) hrows hrows'⟩
  obtain ⟨htaken, hzero⟩ := hab
  refine ⟨hbc.reference.trans htaken.reference, hbc.state ▸ htaken.cancelled, fun h => ?_⟩
  rw [hbc.state]
  rcases htaken.pending with hsame | hcancelled
  · exact absurd (hsame.symm.trans hzero) h
  · exact hcancelled.2

theorem actives_cascadeRound : (w.cascadeRound env).actives ≤ w.actives := by
  obtain ⟨-, -, hrows⟩ := m.cascadeRound env
  exact countP_le_of_forall₂ hrows fun _ _ h => h.active

/-- A round on a fed queue cancels something. -/
theorem actives_lt (hfed : Fed w) (hbusy : w.idle = false) :
    (w.cascadeRound env).actives < w.actives := by
  obtain ⟨-, -, hrows⟩ := m.cascadeRound env
  have hqueued : 0 < w.operations.countP fun o => o.pending ≠ 0 := by
    rw [← m.queued]
    simp only [idle, hfed.rings, hfed.overflow, and_true, decide_eq_false_iff_not] at hbusy
    omega
  obtain ⟨o, ho, hpending⟩ := countP_pos_iff.mp hqueued
  have hpending : o.pending ≠ 0 := of_decide_eq_true hpending
  exact countP_lt_of_forall₂ hrows (fun _ _ h => h.active) ho
    (by simpa using hfed.active o ho hpending) fun b hab => by simp [hab.pending hpending]

theorem pending_of_idle (hidle : w.idle = true) : ∀ o ∈ w.operations, o.pending = 0 := by
  have hqueued : (w.operations.countP fun o => o.pending ≠ 0) = 0 := by
    rw [← m.queued]
    exact (of_decide_eq_true hidle).1
  simpa using hqueued

/-- One round for each active operation is enough. -/
theorem cascadeLoop (hfed : Fed w) (hfuel : w.actives ≤ fuel) :
    Mid exempt (cascadeLoop env fuel w) ∧ (cascadeLoop env fuel w).idle = true := by
  induction fuel generalizing w with
  | zero =>
    refine ⟨m, ?_⟩
    by_contra hbusy
    have hlt : (w.cascadeRound env).actives < w.actives :=
      m.actives_lt hfed (Bool.eq_false_iff.mpr hbusy)
    omega
  | succ _ ih =>
    unfold cascadeLoop
    split
    · next hidle => exact ⟨m, hidle⟩
    next hbusy =>
    have hlt : (w.cascadeRound env).actives < w.actives :=
      m.actives_lt hfed (Bool.eq_false_iff.mpr hbusy)
    obtain ⟨hmid, hfed', -⟩ := m.cascadeRound env
    exact ih hmid hfed' (by omega)

/-- **The worklist settles**: whatever is queued, the loop of `cascade` ends with nothing
queued. -/
theorem cascade (env : Env) : Mid exempt (w.cascade env) ∧ (w.cascade env).idle = true := by
  unfold World.cascade World.cascadeLoop
  split
  · next hidle => exact ⟨m, hidle⟩
  obtain ⟨hmid, hfed, -⟩ := m.cascadeRound env
  have hactives : (w.cascadeRound env).actives ≤ w.operations.length :=
    m.actives_cascadeRound.trans countP_le_length
  exact hmid.cascadeLoop hfed hactives

omit m in
theorem cascadeLoop_of_idle (h : w.idle = true) (fuel : Nat) : World.cascadeLoop env fuel w = w := by
  cases fuel with
  | zero => rfl
  | succ => exact if_pos h

omit m in
theorem cascadeLoop_add (n k : Nat) :
    World.cascadeLoop env (n + k) w = World.cascadeLoop env k (World.cascadeLoop env n w) := by
  induction n generalizing w with
  | zero => rw [Nat.zero_add]; rfl
  | succ n ih =>
    by_cases hidle : w.idle = true
    · rw [cascadeLoop_of_idle hidle, cascadeLoop_of_idle hidle, cascadeLoop_of_idle hidle]
    · rw [Nat.add_right_comm, World.cascadeLoop, World.cascadeLoop, if_neg hidle, if_neg hidle]
      exact ih

/-- **The worklist terminates**: no bound beyond that of `cascade` changes its result. -/
theorem cascadeLoop_eq (hfuel : w.operations.length + 1 ≤ fuel) :
    World.cascadeLoop env fuel w = w.cascade env := by
  obtain ⟨k, rfl⟩ := Nat.exists_eq_add_of_le hfuel
  rw [cascadeLoop_add]
  exact cascadeLoop_of_idle (m.cascade env).2 k

/-! ## other changes -/

theorem not_cancelled (h : w.Active r) : ¬w.Cancelled r := by
  rintro ⟨a, ha, rfl, hstate⟩
  obtain ⟨b, hb, href, hactive⟩ := h
  obtain rfl : b = a := inj_on_of_nodup_map (nodup_of_sorted m.sorted) hb ha href
  rw [hactive] at hstate
  cases hstate

theorem sublists (hidle : w.pendingCancels = 0)
    (hops : w'.operations.Sublist w.operations) (hends : w'.endpoints.Sublist w.endpoints)
    (hprepared : w'.prepared.Sublist w.prepared) (hnext : w'.next = w.next)
    (hpass : w'.pass = w.pass) (hpending : w'.pendingCancels = w.pendingCancels) :
    Mid exempt w' := by
  refine m.of_goes (fun _ => id) ⟨hnext.ge, hpass, ?_,
    fun b hb => .inl ⟨b, hops.subset hb, .refl b⟩, fun b hb => .inl ⟨b, hends.subset hb, .refl b⟩,
    fun b hb => .inl ⟨b, hprepared.subset hb, .refl w b⟩⟩ (m.sorted.sublist (hops.map _))
    (m.ends.sublist (hends.map _)) (m.records.sublist (hprepared.map _)) ?_
  · rintro r ⟨o, ho, href, hstate⟩
    exact ⟨o, hops.subset ho, href, hstate⟩
  · have hle : w'.operations.countP (fun o => o.pending ≠ 0) ≤
        w.operations.countP fun o => o.pending ≠ 0 := hops.countP_le
    have hzero := m.queued
    omega

theorem addOperation (hpos : 0 < w.next) (href : o.reference = ⟨w.next, 1⟩)
    (hstate : o.state = .active ∧ o.cancelledBy = 0 ∧ o.pending = 0)
    (hparent : o.parent = Ref.zero ∨ w.Active o.parent) :
    Mid exempt { w with next := w.next + 1, operations := w.operations ++ [o] } := by
  -- the parent is an older operation, or none; none has the zero reference
  have hparent' : o.parent.id < w.next ∧ ¬w.Cancelled o.parent := by
    rcases hparent with hzero | hactive
    · rw [hzero]
      refine ⟨hpos, ?_⟩
      rintro ⟨q, hq, hq', -⟩
      have holder : q.parent.id < q.reference.id := m.older q hq
      rw [hq'] at holder
      exact absurd holder (Nat.not_lt_zero _)
    · obtain ⟨q, hq, hq', -⟩ := id hactive
      exact ⟨hq' ▸ m.minted q hq, m.not_cancelled hactive⟩
  refine m.of_goes (fun _ => id) ⟨Nat.le_succ _, rfl, ?_, ?_, fun b hb => .inl ⟨b, hb, .refl b⟩,
    fun b hb => .inl ⟨b, hb, .refl w b⟩⟩ ?_ m.ends m.records ?_
  · rintro r ⟨a, ha, hr, hc⟩
    rcases mem_append.mp ha with ha | ha
    · exact ⟨a, ha, hr, hc⟩
    · rw [mem_singleton.mp ha, hstate.1] at hc
      cases hc
  · refine forall_mem_concat (fun b hb => .inl ⟨b, hb, .refl b⟩) ?_
    rw [href, hstate.2.1]
    exact .inr ⟨hparent'.1, Nat.lt_succ_self _, Nat.zero_le _, hparent'.2⟩
  · rw [map_append]
    refine pairwise_concat m.sorted (forall_mem_map.mpr fun a ha => ?_)
    simpa [href] using m.minted a ha
  · simp [hstate.2.2, m.queued]

/-- New holders belong to operations that are not cancelled. -/
theorem addEndpoints (hold : ∀ e ∈ w.endpoints, e.reference.id < w.next) (hnext : w.next ≤ w'.next)
    (hops : w'.operations = w.operations) (hends : w'.endpoints = w.endpoints ++ es)
    (hprepared : w'.prepared = w.prepared) (hpass : w'.pass = w.pass)
    (hpending : w'.pendingCancels = w.pendingCancels)
    (hnodup : (es.map (·.reference)).Nodup) (hfresh : ∀ e ∈ es, w.next ≤ e.reference.id)
    (hactive : ∀ e ∈ es, ¬w.Cancelled e.operation) : Mid exempt w' := by
  refine m.of_goes (fun _ => id) ⟨hnext, hpass, ?_, ?_, ?_, ?_⟩ (hops ▸ m.sorted) ?_
    (hprepared ▸ m.records) ?_
  · unfold World.Cancelled
    rw [hops]
    exact fun _ => id
  · rw [hops]
    exact fun b hb => .inl ⟨b, hb, .refl b⟩
  · intro b hb
    rw [hends] at hb
    rcases mem_append.mp hb with hb | hb
    · exact .inl ⟨b, hb, .refl b⟩
    · exact .inr (hactive b hb)
  · rw [hprepared]
    exact fun b hb => .inl ⟨b, hb, .refl w b⟩
  · rw [hends, map_append, nodup_append]
    refine ⟨m.ends, hnodup, ?_⟩
    simp only [mem_map]
    rintro _ ⟨a, ha, rfl⟩ _ ⟨b, hb, rfl⟩ heq
    have hlt : a.reference.id < w.next := hold a ha
    have hle : w.next ≤ b.reference.id := hfresh b hb
    rw [heq] at hlt
    omega
  · rw [hops, hpending]
    exact m.queued

theorem addPrepared (h : Fresh w cellId p)
    (hfresh : ∀ q ∈ w.prepared, q.reference ≠ p.reference) : Mid exempt (w.addPrepared cellId p) :=
  { m with
    records := nodup_map_concat m.records hfresh
    staged := forall_mem_concat m.staged fun _ => m.not_cancelled h.operation
    live := forall_mem_concat m.live (by simp [h.state]) }

omit m

end Mid

end Cellos.Session
