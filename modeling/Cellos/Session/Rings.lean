import Cellos.Session.Acts

/-!
# Cellos.Session.Rings

The counts of the session rings.

A ring keeps a reader count and a writer count; the holder records that own one of these
counts are the open ones that are neither staged nor reserved (`Endpoint.counted`).

`Tracked` is what every act keeps: references are unique and minted, a holder has the
handle of its parent, and the peers a pending receipt reserved name the writers whose
counts they will take.  Under it an act moves holders and counts alike, with one
exception: a commit whose context names one staged writer in two slots counts it twice.
-/

namespace Cellos.Session

open Lib List Function World
open Pipes (Pipe PipeEnd PipeHandle duplicateEnd)

/-- The record owns a count of the end. -/
def Endpoint.owns (h : PipeHandle) (e : Endpoint) : Bool := e.handle = h ∧ e.counted

open Endpoint

namespace World

/-- The number of holder records that own a count of an end. -/
def holders (w : World) (h : PipeHandle) : Nat := w.endpoints.countP (Endpoint.owns h)

/-- The count the ring keeps for an end. -/
def ends (w : World) (h : PipeHandle) : Nat :=
  match w.rings h.pipe with
  | none => 0
  | some p => p.ends h.side

end World

open World

/-- What the acts keep, apart from the counts. -/
structure Tracked (w : World) : Prop where
  next : 0 < w.next
  nodup : (w.endpoints.map (·.reference)).Nodup
  minted : ∀ e ∈ w.endpoints, 0 < e.reference.id ∧ e.reference.id < w.next
  parents : ∀ e ∈ w.endpoints, e.parent.id < w.next
  handles : ∀ e ∈ w.endpoints, ∀ s ∈ w.endpoints, e.parent = s.reference → e.handle = s.handle
  reserved : ∀ e ∈ w.endpoints, e.state = .reserved → e.prepared = none
  rights : ∀ e ∈ w.endpoints, e.rights &&& 3 ≠ 3
  made : ∀ e ∈ w.endpoints, e.handle.pipe < w.nextRing
  fresh : ∀ h : PipeHandle, w.nextRing ≤ h.pipe → w.counts h = none
  sound : ∀ p ∈ w.prepared, ∀ c, p.parsed = some c → c.Sound
  producers : ∀ rr ∈ w.receipts, rr.producers.1.id < w.next ∧ rr.producers.2.id < w.next
  intents : ∀ rr ∈ w.receipts, rr.state = .prepared → ∀ e ∈ w.endpoints,
    (e.reference = rr.producers.1 → ∃ p i, w.prepared.find? (fun q => q.reference = rr.prepared)
        = some p ∧ p.intent = some i ∧ e.parent = i.writers.1) ∧
      (e.reference = rr.producers.2 → ∃ p i, w.prepared.find? (fun q => q.reference = rr.prepared)
        = some p ∧ p.intent = some i ∧ e.parent = i.writers.2)

/-- A record that a receipt reserved names a writer of the child's intent: what `intents` says of
the two. -/
def World.Intends (w : World) (rr : Receipt) (e : Endpoint) : Prop :=
  (e.reference = rr.producers.1 → ∃ p i, w.prepared.find? (fun q => q.reference = rr.prepared)
      = some p ∧ p.intent = some i ∧ e.parent = i.writers.1) ∧
    (e.reference = rr.producers.2 → ∃ p i, w.prepared.find? (fun q => q.reference = rr.prepared)
      = some p ∧ p.intent = some i ∧ e.parent = i.writers.2)

/-- The two counts of an end went from `w` to `w'` by the same amount. -/
def Carries (w w' : World) : Prop := ∀ h, w'.holders h + w.ends h = w'.ends h + w.holders h

/-- No end gained more holders than its ring counts. -/
def Covers (w w' : World) : Prop := ∀ h, w'.holders h + w.ends h ≤ w'.ends h + w.holders h

/-- Every holder's count is in its ring, and no count was taken below zero. -/
structure Covered (w : World) : Prop extends Tracked w where
  le : ∀ h, w.holders h ≤ w.ends h
  fault : w.fault = false

variable {w' : World} {e : Endpoint} {rr : Receipt} {w : World}

theorem Carries.covers (h : Carries w w') : Covers w w' := fun x => (h x).le

/-- Both counts of every end moved together. -/
structure Accounts (w w' : World) : Prop where
  tracked : Tracked w'
  fault : w'.fault = w.fault
  carries : Carries w w'

theorem Accounts.covered (h : Accounts w w') (c : Covered w) : Covered w' where
  toTracked := h.tracked
  le := by
    intro x
    have hle : w.holders x ≤ w.ends x := c.le x
    have heq : w'.holders x + w.ends x = w'.ends x + w.holders x := h.carries x
    omega
  fault := h.fault.trans c.fault

/-! ## counts -/

namespace World

theorem ends_of_counts (hc : w'.counts h = w.counts h) : w'.ends h = w.ends h := by
  unfold counts at hc
  unfold ends
  cases hring : w.rings h.pipe with
  | none =>
    rw [hring, Option.map_none, Option.map_eq_none_iff] at hc
    rw [hc]
  | some =>
    rw [hring, Option.map_some, Option.map_eq_some_iff] at hc
    obtain ⟨q, hq, hends⟩ := hc
    rw [Prod.mk.injEq] at hends
    rw [hq]
    cases hside : h.side with
    | read => exact hends.1
    | write => exact hends.2

theorem holders_eq_of_kept (h : Forall₂ Endpoint.Kept w.endpoints w'.endpoints)
    (x : PipeHandle) : w'.holders x = w.holders x := by
  refine countP_of_forall₂ h fun a b hab => ?_
  unfold owns counted
  rw [hab.handle, hab.state, hab.prepared]

/-- Rewriting a record moves the count of holders by that record. -/
theorem holders_setEndpoint (f : Endpoint → Endpoint) (h : w.EndpointAt r e) (x : PipeHandle) :
    (w.setEndpoint r f).holders x + (if e.owns x then 1 else 0) =
      w.holders x + (if (f e).owns x then 1 else 0) :=
  countP_updateFirst f h

theorem one_le_holders (he : e ∈ w.endpoints) (hcounted : e.counted) : 1 ≤ w.holders e.handle :=
  countP_pos_iff.mpr ⟨e, he, by simpa [owns] using hcounted⟩

@[simp] theorem ends_setEndpoint (r : Ref) (f : Endpoint → Endpoint) (x : PipeHandle) :
    (w.setEndpoint r f).ends x = w.ends x := rfl

theorem sessionClose_frame (w : World) (h : PipeHandle) :
    ∃ rings fault, (w.sessionClose h).2 = { w with rings, fault } := by
  unfold sessionClose
  split <;> exact ⟨_, _, rfl⟩

theorem fault_sessionClose (hpos : 1 ≤ w.ends h) : (w.sessionClose h).2.fault = w.fault := by
  unfold ends at hpos
  unfold sessionClose
  cases hp : w.rings h.pipe with
  | none =>
    simp only [hp] at hpos
    omega
  | some p =>
    simp only [hp] at hpos
    have hne : ¬p.ends h.side = 0 := by omega
    simp [hne]

theorem counts_sessionClose (hpipe : x.pipe ≠ h.pipe) :
    (w.sessionClose h).2.counts x = w.counts x := by
  unfold sessionClose counts
  split
  · rfl
  · dsimp only
    rw [update_of_ne hpipe]

/-- A ring without ends is the same as no ring. -/
theorem ends_unless_dead (q : Pipe) (side : PipeEnd) : (match if q.dead then none else some q with
      | none => 0
      | some p => p.ends side) = q.ends side := by
  split
  · next hdead =>
    split at hdead
    · next hq =>
      unfold Pipe.dead at hq
      rw [Bool.and_eq_true, beq_iff_eq, beq_iff_eq] at hq
      cases side with
      | read => exact hq.1.symm
      | write => exact hq.2.symm
    · cases hdead
  · next hlive =>
    split at hlive
    · cases hlive
    · cases hlive
      rfl

/-- `session_close` takes one count of the end, which must be there. -/
theorem ends_sessionClose (hpos : 1 ≤ w.ends h) (x : PipeHandle) :
    (w.sessionClose h).2.ends x + (if h = x then 1 else 0) = w.ends x := by
  unfold ends at hpos ⊢
  unfold sessionClose
  cases hp : w.rings h.pipe with
  | none =>
    simp only [hp] at hpos
    omega
  | some =>
    simp only [hp] at hpos
    dsimp only
    by_cases hpipe : x.pipe = h.pipe
    · rw [hpipe, update_self, hp]
      rw [ends_unless_dead]
      obtain ⟨_, side⟩ := h
      obtain ⟨_, side'⟩ := x
      subst hpipe
      cases side <;> cases side' <;> simp [Pipe.ends, Pipe.setEnds] at hpos ⊢ <;> omega
    · have hne : h ≠ x := fun heq => hpipe (by rw [heq])
      rw [update_of_ne hpipe, if_neg hne, Nat.add_zero]

theorem ends_duplicateEnd (hring : (duplicateEnd w.rings h).1 = true) (x : PipeHandle) :
    ({ w with rings := (duplicateEnd w.rings h).2 } : World).ends x =
      w.ends x + (if h = x then 1 else 0) := by
  unfold duplicateEnd at hring ⊢
  unfold ends
  split at hring
  · cases hring
  next hp =>
  dsimp only
  by_cases hpipe : x.pipe = h.pipe
  · rw [hpipe, update_self, hp]
    obtain ⟨_, side⟩ := h
    obtain ⟨_, side'⟩ := x
    subst hpipe
    cases side <;> cases side' <;> simp [Pipe.ends, Pipe.setEnds]
  · have hne : h ≠ x := fun heq => hpipe (by rw [heq])
    rw [update_of_ne hpipe, if_neg hne, Nat.add_zero]

theorem counts_duplicateEnd (hpipe : x.pipe ≠ h.pipe) :
    ({ w with rings := (duplicateEnd w.rings h).2 } : World).counts x = w.counts x := by
  unfold duplicateEnd counts
  split
  · rfl
  · dsimp only
    rw [update_of_ne hpipe]

theorem ends_createRing (hfresh : ∀ h : PipeHandle, w.nextRing ≤ h.pipe → w.counts h = none)
    (capacity : Nat) (x : PipeHandle) :
    (w.createRing capacity).ends x = w.ends x + (if x.pipe = w.nextRing then 1 else 0) := by
  unfold ends createRing
  dsimp only
  by_cases hpipe : x.pipe = w.nextRing
  · have hnone : w.rings x.pipe = none := by
      have hcounts := hfresh x hpipe.ge
      rwa [counts, Option.map_eq_none_iff] at hcounts
    rw [if_pos hpipe, hnone, hpipe, update_self]
    cases x.side <;> rfl
  · rw [update_of_ne hpipe, if_neg hpipe, Nat.add_zero]

end World

/-! ## rows that stay -/

/-- A holder record that keeps its reference, its parent and its ring. -/
structure Endpoint.Stays (a b : Endpoint) : Prop where
  reference : b.reference = a.reference
  parent : b.parent = a.parent
  handle : b.handle = a.handle
  reserved : b.state = .reserved → a.state = .reserved ∧ b.prepared = a.prepared
  rights : a.rights &&& 3 ≠ 3 → b.rights &&& 3 ≠ 3

/-- A child record that keeps its reference and a settled intent. -/
structure Prepared.Named (a b : Prepared) : Prop where
  reference : b.reference = a.reference
  intent : a.intent = none ∨ b.intent = a.intent
  parsed : (∀ c, a.parsed = some c → c.Sound) → ∀ c, b.parsed = some c → c.Sound

theorem Endpoint.Stays.refl (a : Endpoint) : a.Stays a := ⟨rfl, rfl, rfl, fun h => ⟨h, rfl⟩, id⟩

theorem Endpoint.Kept.stays (a b : Endpoint) (h : a.Kept b) : a.Stays b where
  reference := h.reference
  parent := h.parent
  handle := h.handle
  reserved := fun hb => ⟨h.state ▸ hb, h.prepared⟩
  rights := h.rights

theorem Prepared.Named.refl (a : Prepared) : a.Named a := ⟨rfl, .inr rfl, id⟩

theorem Prepared.Named.same (l : List Prepared) : Forall₂ Prepared.Named l l := forall₂_refl .refl

theorem Prepared.Moves.named (a b : Prepared) (h : a.Moves b) : a.Named b :=
  { h with }

namespace Tracked

/-- The writers stay named while the child's record is found with its intent. -/
theorem intends (h : w.Intends rr e) (hfound : ∀ p i, w.PreparedAt rr.prepared p →
      p.intent = some i → ∃ p', w'.PreparedAt rr.prepared p' ∧
        p'.intent = some i) : w'.Intends rr e := by
  refine ⟨fun heq => ?_, fun heq => ?_⟩
  · obtain ⟨p, i, hp, hi, hparent⟩ := h.1 heq
    obtain ⟨p', hp', hi'⟩ := hfound p i hp hi
    exact ⟨p', i, hp', hi', hparent⟩
  · obtain ⟨p, i, hp, hi, hparent⟩ := h.2 heq
    obtain ⟨p', hp', hi'⟩ := hfound p i hp hi
    exact ⟨p', i, hp', hi', hparent⟩

variable (t : Tracked w)

include t

theorem of_rows (hends : Forall₂ Endpoint.Stays w.endpoints w'.endpoints)
    (hfresh : ∀ h : PipeHandle, w.nextRing ≤ h.pipe → w'.counts h = w.counts h)
    (hprepared : Forall₂ Prepared.Named w.prepared w'.prepared)
    (hreceipts : Forall₂ Receipt.Moves w.receipts w'.receipts) (hnext : w.next ≤ w'.next)
    (hring : w'.nextRing = w.nextRing) : Tracked w' where
  next := t.next.trans_le hnext
  nodup := by
    rw [map_eq_of_forall₂ hends fun a b h => h.reference]
    exact t.nodup
  minted := by
    intro e he
    obtain ⟨a, ha, h⟩ := exists_old hends he
    obtain ⟨hpos, hlt⟩ := t.minted a ha
    rw [h.reference]
    exact ⟨hpos, hlt.trans_le hnext⟩
  parents := by
    intro e he
    obtain ⟨a, ha, h⟩ := exists_old hends he
    rw [h.parent]
    exact (t.parents a ha).trans_le hnext
  handles := by
    intro e he s hs hparent
    obtain ⟨a, ha, h⟩ := exists_old hends he
    obtain ⟨b, hb, h'⟩ := exists_old hends hs
    rw [h.handle, h'.handle]
    exact t.handles a ha b hb (h.parent ▸ hparent.trans h'.reference)
  reserved := by
    intro e he hstate
    obtain ⟨a, ha, h⟩ := exists_old hends he
    obtain ⟨hold, hprep⟩ := h.reserved hstate
    rw [hprep]
    exact t.reserved a ha hold
  rights := by
    intro e he
    obtain ⟨a, ha, h⟩ := exists_old hends he
    exact h.rights (t.rights a ha)
  made := by
    intro e he
    obtain ⟨a, ha, h⟩ := exists_old hends he
    rw [h.handle, hring]
    exact t.made a ha
  fresh := by
    intro h hpipe
    rw [hring] at hpipe
    rw [hfresh h hpipe]
    exact t.fresh h hpipe
  sound := by
    intro p hp
    obtain ⟨a, ha, h⟩ := exists_old hprepared hp
    exact h.parsed (t.sound a ha)
  producers := by
    intro rr hrr
    obtain ⟨a, ha, h⟩ := exists_old hreceipts hrr
    obtain ⟨h1, h2⟩ := t.producers a ha
    rw [h.producers]
    exact ⟨h1.trans_le hnext, h2.trans_le hnext⟩
  intents := by
    intro rr hrr hpending e he
    obtain ⟨b, hb, hmoves⟩ := exists_old hreceipts hrr
    obtain ⟨a, ha, hstays⟩ := exists_old hends he
    rw [hmoves.producers, hmoves.prepared, hstays.reference, hstays.parent]
    refine intends (t.intents b hb (hmoves.pending hpending) a ha) fun p i hp hi => ?_
    obtain ⟨p', hp', hnamed⟩ := find?_of_forall₂ hprepared (fun a b h => by rw [h.reference]) hp
    rcases hnamed.intent with hnone | hsame
    · rw [hi] at hnone
      cases hnone
    · exact ⟨p', hp', hsame.trans hi⟩

/-- A new record whose parent, if it has one, is the holder it was derived from. -/
theorem addEndpoint (href : e.reference = ⟨w.next, 1⟩)
    (hparent : e.parent = Ref.zero ∨ ∃ s ∈ w.endpoints, e.parent = s.reference ∧ e.handle = s.handle)
    (hmade : e.handle.pipe < w.nextRing) (hreserved : e.state = .reserved → e.prepared = none)
    (hrights : e.rights &&& 3 ≠ 3) :
    Tracked { w with next := w.next + 1, endpoints := w.endpoints ++ [e] } := by
  have hid : e.reference.id = w.next := by rw [href]
  have hfresh : ∀ r : Ref, r.id < w.next → e.reference ≠ r := by
    intro r hr heq
    rw [← heq, hid] at hr
    exact Nat.lt_irrefl _ hr
  have hold : e.parent.id < w.next := by
    rcases hparent with hzero | ⟨s, hs, heq, -⟩
    · rw [hzero]
      exact t.next
    · rw [heq]
      exact (t.minted s hs).2
  have hrow : ∀ a ∈ w.endpoints ++ [e], a ∈ w.endpoints ∨ a = e := by
    simp
  exact {
    next := Nat.succ_pos _
    nodup := by
      exact nodup_map_concat t.nodup fun a ha heq => hfresh _ (t.minted a ha).2 heq.symm
    minted := by
      refine forall_mem_concat (fun a ha => ?_) ⟨hid ▸ t.next, hid ▸ Nat.lt_succ_self _⟩
      exact ⟨(t.minted a ha).1, Nat.lt_succ_of_lt (t.minted a ha).2⟩
    parents := forall_mem_concat (fun a ha => Nat.lt_succ_of_lt (t.parents a ha))
      (Nat.lt_succ_of_lt hold)
    handles := by
      intro a ha s hs heq
      rcases hrow s hs with hmem | hnew
      · rcases hrow a ha with hmem' | rfl
        · exact t.handles a hmem' s hmem heq
        rcases hparent with hzero | ⟨_, hs', heq', hhandle⟩
        · have hpos := (t.minted s hmem).1
          rw [← heq, hzero] at hpos
          exact absurd hpos (Nat.lt_irrefl 0)
        · rw [hhandle, inj_on_of_nodup_map t.nodup hs' hmem (heq'.symm.trans heq)]
      · rw [hnew] at heq
        rcases hrow a ha with hmem' | rfl
        · exact absurd heq.symm (hfresh _ (t.parents a hmem'))
        · exact absurd heq.symm (hfresh _ hold)
    reserved := forall_mem_concat t.reserved hreserved
    rights := forall_mem_concat t.rights hrights
    made := forall_mem_concat t.made hmade
    fresh := t.fresh
    sound := t.sound
    producers := fun rr hrr =>
      ⟨Nat.lt_succ_of_lt (t.producers rr hrr).1, Nat.lt_succ_of_lt (t.producers rr hrr).2⟩
    intents := by
      intro rr hrr hpending
      obtain ⟨h1, h2⟩ := t.producers rr hrr
      exact forall_mem_concat (t.intents rr hrr hpending)
        ⟨fun h => absurd h (hfresh _ h1), fun h => absurd h (hfresh _ h2)⟩ }

/-- A new receipt; the peers it reserved name the writers of its child's intent. -/
theorem addReceipt (hproducers : rr.producers.1.id < w.next ∧ rr.producers.2.id < w.next)
    (hintents : ∀ e ∈ w.endpoints, w.Intends rr e) :
    Tracked { w with receipts := w.receipts ++ [rr] } :=
  { t with
    producers := forall_mem_concat t.producers hproducers
    intents := forall_mem_concat t.intents fun _ => hintents }

theorem of_ends (hends : Forall₂ Endpoint.Stays w.endpoints w'.endpoints)
    (hfresh : ∀ h : PipeHandle, w.nextRing ≤ h.pipe → w'.counts h = w.counts h)
    (hsame : (w'.prepared, w'.receipts, w'.next, w'.nextRing) =
      (w.prepared, w.receipts, w.next, w.nextRing)) : Tracked w' := by
  simp only [Prod.mk.injEq] at hsame
  obtain ⟨hprepared, hreceipts, hnext, hring⟩ := hsame
  exact t.of_rows hends hfresh (hprepared ▸ forall₂_refl .refl) (hreceipts ▸ forall₂_refl .refl)
    hnext.ge hring

/-- Records go; a child record stays while a pending receipt names it. -/
theorem remove (hends : w'.endpoints.Sublist w.endpoints)
    (hprepared : w'.prepared.Sublist w.prepared) (hreceipts : w'.receipts.Sublist w.receipts)
    (hkept : ∀ rr ∈ w'.receipts, ∀ p, w.PreparedAt rr.prepared p →
      w'.PreparedAt rr.prepared p)
    (hnext : w'.next = w.next) (hring : w'.nextRing = w.nextRing) (hcounts : w'.counts = w.counts) :
    Tracked w' where
  next := hnext ▸ t.next
  nodup := t.nodup.sublist (hends.map _)
  minted := fun e he => hnext ▸ t.minted e (hends.subset he)
  parents := fun e he => hnext ▸ t.parents e (hends.subset he)
  handles := fun e he s hs => t.handles e (hends.subset he) s (hends.subset hs)
  reserved := fun e he => t.reserved e (hends.subset he)
  rights := fun e he => t.rights e (hends.subset he)
  made := fun e he => hring ▸ t.made e (hends.subset he)
  fresh := fun h hpipe => hcounts ▸ t.fresh h (hring ▸ hpipe)
  sound := fun p hp => t.sound p (hprepared.subset hp)
  producers := fun rr hrr => hnext ▸ t.producers rr (hreceipts.subset hrr)
  intents := by
    intro rr hrr hpending e he
    refine intends (t.intents rr (hreceipts.subset hrr) hpending e (hends.subset he)) ?_
    exact fun p i hp hi => ⟨p, hkept rr hrr p hp, hi⟩

end Tracked

/-! ## closing -/

namespace World

/-- Close a holder and give its count back. -/
def shut (w : World) (r : Ref) (state : EndpointState) : World :=
  match w.endpoints.find? fun e => e.reference = r with
  | none => w
  | some e =>
    let w' := w.setEndpoint r fun e => { e with state }
    if e.state = .reserved then w'
    else if e.state ≠ .opened then w
    else if e.prepared ≠ none then w'
    else (w'.sessionClose e.handle).2

/-- `close_one` also notes a ring that lost its readers. -/
theorem closeOne_eq_shut (w : World) (env : Env) (r : Ref) (state : EndpointState) :
    ∃ deadRings deadOverflow,
      w.closeOne env r state = { w.shut r state with deadRings, deadOverflow } := by
  unfold closeOne shut
  cases w.endpoints.find? (fun e => decide (e.reference = r)) with
  | none => exact ⟨_, _, rfl⟩
  | some e =>
    by_cases hreserved : e.state = .reserved
    · simp only [if_pos hreserved]
      exact ⟨_, _, rfl⟩
    by_cases hopen : e.state ≠ .opened
    · simp only [if_neg hreserved, if_pos hopen]
      exact ⟨_, _, rfl⟩
    by_cases hstaged : e.prepared ≠ none
    · simp only [if_neg hreserved, if_neg hopen, if_pos hstaged]
      exact ⟨_, _, rfl⟩
    simp only [if_neg hreserved, if_neg hopen, if_neg hstaged]
    unfold noteDeadRing
    repeat' split
    all_goals exact ⟨_, _, rfl⟩

/-- A record that is not held stays as it is; one that is held is closed. -/
theorem shut_cases (w : World) (r : Ref) (state : EndpointState) : (w.shut r state = w ∧
      ∀ e, w.EndpointAt r e → e.held = false) ∨
    ∃ e rings fault, w.EndpointAt r e ∧ e.held ∧
      w.shut r state = { w.setEndpoint r (fun e => { e with state }) with rings, fault } := by
  unfold shut EndpointAt
  cases w.endpoints.find? (fun e => decide (e.reference = r)) with
  | none => exact .inl ⟨rfl, nofun⟩
  | some e =>
    dsimp only
    split
    · next hreserved => exact .inr ⟨e, _, _, rfl, by simp [held, hreserved], rfl⟩
    next hreserved =>
    split
    · next hopened =>
      refine .inl ⟨rfl, ?_⟩
      rintro _ ⟨⟩
      simp [held, hreserved, hopened]
    next hopened =>
    have hheld : e.held := by simpa [held, hreserved] using hopened
    split
    · exact .inr ⟨e, _, _, rfl, hheld, rfl⟩
    obtain ⟨_, _, hframe⟩ := sessionClose_frame (w.setEndpoint r fun e => { e with state }) e.handle
    exact .inr ⟨e, _, _, rfl, hheld, hframe⟩

end World

namespace Accounts

variable {w : World} {r : Ref} {e : Endpoint} {p : Prepared}

theorem trans (h : Accounts w w') (h' : Accounts w' w'') : Accounts w w'' where
  tracked := h'.tracked
  fault := h'.fault.trans h.fault
  carries := by
    intro x
    have h1 := h.carries x
    have h2 := h'.carries x
    omega

theorem of_same (t : Tracked w') (hfault : w'.fault = w.fault)
    (hholders : ∀ x, w'.holders x = w.holders x) (hends : ∀ x, w'.ends x = w.ends x) :
    Accounts w w' :=
  ⟨t, hfault, fun x => by rw [hholders, hends, Nat.add_comm]⟩

theorem touch (t : Tracked w) (h : Touch w w') : Accounts w w' := by
  have hends : Forall₂ Endpoint.Stays w.endpoints w'.endpoints := h.endpoints.imp Endpoint.Kept.stays
  have hprepared : Forall₂ Prepared.Named w.prepared w'.prepared := h.prepared.imp Prepared.Moves.named
  refine of_same (t.of_rows hends (fun x _ => by rw [h.counts]) hprepared h.receipts h.next
    h.nextRing) h.fault (holders_eq_of_kept h.endpoints) fun x => ?_
  exact ends_of_counts (by rw [h.counts])

theorem frame (t : Tracked w')
    (hsame : (w'.rings, w'.fault, w'.endpoints) = (w.rings, w.fault, w.endpoints)) :
    Accounts w w' := by
  simp only [Prod.mk.injEq] at hsame
  obtain ⟨hrings, hfault, hends⟩ := hsame
  refine of_same t hfault (fun x => ?_) (fun x => ends_of_counts ?_)
  · unfold holders
    rw [hends]
  · unfold counts
    rw [hrings]

theorem setPrepared (t : Tracked w) {prepared : List Prepared}
    (hprepared : Forall₂ Prepared.Named w.prepared prepared) : Accounts w { w with prepared } :=
  frame (t.of_rows (forall₂_refl .refl) (fun _ _ => rfl) hprepared (forall₂_refl .refl)
    le_rfl rfl) rfl

theorem setEndpoint (t : Tracked w) (he : w.EndpointAt r e) (hstays : e.Stays (f e))
    (hold : e.counted = false) (hnew : (f e).counted = false) : Accounts w (w.setEndpoint r f) := by
  have hrows : Forall₂ Endpoint.Stays w.endpoints (w.setEndpoint r f).endpoints :=
    forall₂_updateFirst .refl fun a ha => by cases he.symm.trans ha; exact hstays
  refine of_same (t.of_ends hrows (fun _ _ => rfl) rfl) rfl (fun x => ?_) fun _ => rfl
  have hcount := holders_setEndpoint f he x
  simpa [owns, hold, hnew] using hcount

theorem release (t : Tracked w) (he : w.EndpointAt r e) (hcounted : e.counted)
    (hstays : e.Stays (f e)) (hclosed : (f e).counted = false) (hpos : 1 ≤ w.ends e.handle) :
    Accounts w ((w.setEndpoint r f).sessionClose e.handle).2 := by
  have hrows : Forall₂ Endpoint.Stays w.endpoints (w.setEndpoint r f).endpoints :=
    forall₂_updateFirst .refl fun a ha => by cases he.symm.trans ha; exact hstays
  have hends := ends_sessionClose (w := w.setEndpoint r f) hpos
  have hfault := fault_sessionClose (w := w.setEndpoint r f) hpos
  have hcounts (x : PipeHandle) (hx : x.pipe ≠ e.handle.pipe) :=
    counts_sessionClose (w := w.setEndpoint r f) hx
  obtain ⟨_, _, hframe⟩ := (w.setEndpoint r f).sessionClose_frame e.handle
  rw [hframe] at hends hfault hcounts ⊢
  refine ⟨t.of_ends hrows (fun x hx => hcounts x ?_) rfl, hfault, fun x => ?_⟩
  · have hmade := t.made e (mem_of_find he).1
    omega
  have hholders := holders_setEndpoint f he x
  have hends := hends x
  have howns : e.owns x = true ↔ e.handle = x := by simp [owns, hcounted]
  have hnot : (f e).owns x = false := by simp [owns, hclosed]
  simp only [howns, hnot, ends_setEndpoint, Bool.false_eq_true, if_false] at hholders hends
  change (w.setEndpoint r f).holders x + w.ends x = _ + w.holders x
  omega

theorem shut (c : Covered w) {state : EndpointState}
    (hstate : state.Final) : Accounts w (w.shut r state) := by
  have hrows (f : Endpoint) : f.Stays { f with state } :=
    ⟨rfl, rfl, rfl, fun h => absurd h hstate.2, id⟩
  have hclosed (f : Endpoint) : counted { f with state } = false := by
    simp [counted, hstate.1]
  unfold World.shut
  split
  · exact frame c.toTracked rfl
  next e he =>
  split
  · next hreserved =>
    exact setEndpoint c.toTracked he (hrows e) (by simp [counted, hreserved]) (hclosed e)
  split
  · exact frame c.toTracked rfl
  next hopen =>
  split
  · next hstaged =>
    exact setEndpoint c.toTracked he (hrows e) (by simp [counted, hstaged]) (hclosed e)
  next hpublished =>
  have hcounted : e.counted := by
    simp only [counted, decide_eq_true_eq]
    exact ⟨by simpa using hopen, by simpa using hpublished⟩
  have hpos : 1 ≤ w.ends e.handle := (one_le_holders (mem_of_find he).1 hcounted).trans (c.le _)
  exact release c.toTracked he hcounted (hrows e) (hclosed e) hpos

theorem edit (c : Covered w) (h : Edit env w w') : Accounts w w' := by
  cases h with
  | touch h => exact touch c.toTracked h
  | mark =>
    exact frame { c.toTracked with } rfl
  | close r state h =>
    obtain ⟨_, _, he⟩ := w.closeOne_eq_shut env r state
    have hshut : Accounts w (w.shut r state) := shut c h
    rw [he]
    exact { hshut with tracked := { hshut.tracked with } }
  | closeReservation => exact shut c (by simp)

theorem edits (c : Covered w) (h : Edits env w w') : Accounts w w' := by
  induction h with
  | refl => exact frame c.toTracked rfl
  | tail _ he ih => exact ih.trans (edit (ih.covered c) he)

/-! ## new records and removed ones -/

theorem addEndpoint (hcounted : e.counted = false)
    (t : Tracked { w with next := w.next + 1, endpoints := w.endpoints ++ [e] }) :
    Accounts w { w with next := w.next + 1, endpoints := w.endpoints ++ [e] } := by
  refine of_same t rfl (fun x => ?_) fun _ => rfl
  have hnot : e.owns x = false := by simp [owns, hcounted]
  unfold holders
  rw [countP_append, countP_singleton, hnot]
  rfl

theorem removed (t : Tracked w') (hfault : w'.fault = w.fault) (hcounts : w'.counts = w.counts)
    (hends : w'.endpoints = w.endpoints.filter keep)
    (hkeep : ∀ e ∈ w.endpoints, e.held → keep e) : Accounts w w' := by
  refine of_same t hfault (fun x => ?_) (fun x => ends_of_counts (by rw [hcounts]))
  unfold holders
  rw [hends, countP_filter]
  refine countP_congr fun e he => ?_
  rw [Bool.and_eq_true, and_iff_left_iff_imp]
  intro howns
  refine hkeep e he ?_
  simp only [owns, counted, decide_eq_true_eq] at howns
  simp [held, howns]

variable (t : Tracked w) {rights : Rights}

include t

theorem addStream (actor : Principal) (operation : Ref) (capacity : Nat) :
    Accounts w (w.addStream actor operation capacity) := by
  have tring : Tracked (w.createRing capacity) :=
    { t with
      made := fun e he => Nat.lt_succ_of_lt (t.made e he)
      fresh := by
        intro h hpipe
        have hlt : w.nextRing < h.pipe := hpipe
        unfold counts createRing
        dsimp only
        rw [update_of_ne hlt.ne']
        exact t.fresh h hlt.le }
  have hend (n : Nat) (side : PipeEnd) :
      (streamEnd actor operation ⟨n, 1⟩ w.nextRing side).rights &&& 3 ≠ 3 := by
    cases side
    all_goals
      simp only [streamEnd]
      decide
  have treader := tring.addEndpoint
    (e := streamEnd actor operation ⟨w.next, 1⟩ w.nextRing .read) rfl (.inl rfl)
    (Nat.lt_succ_self _) (fun _ => rfl) (hend _ _)
  have twriter := treader.addEndpoint
    (e := streamEnd actor operation ⟨w.next + 1, 1⟩ w.nextRing .write) rfl (.inl rfl)
    (Nat.lt_succ_self _) (fun _ => rfl) (hend _ _)
  rw [append_assoc] at twriter
  refine ⟨twriter, rfl, fun x => ?_⟩
  have hends : (w.addStream actor operation capacity).ends x =
      w.ends x + (if x.pipe = w.nextRing then 1 else 0) := ends_createRing t.fresh capacity x
  have hholders : (w.addStream actor operation capacity).holders x =
      w.holders x + (if x.pipe = w.nextRing then 1 else 0) := by
    unfold World.holders World.addStream
    obtain ⟨_, side⟩ := x
    cases side <;> simp [countP_cons, owns, counted, streamEnd, eq_comm]
  omega

theorem addDuplicate {holder : Principal}
    (he : e ∈ w.endpoints) (hrights : rights &&& 3 = e.rights &&& 3)
    (hring : (duplicateEnd w.rings e.handle).1 = true) :
    Accounts w (w.addDuplicate e holder rights) := by
  have tring : Tracked { w with rings := (duplicateEnd w.rings e.handle).2 } :=
    { t with
      fresh := by
        intro h hpipe
        have hmade := t.made e he
        have hge : w.nextRing ≤ h.pipe := hpipe
        rw [counts_duplicateEnd (by omega)]
        exact t.fresh h hge }
  refine ⟨tring.addEndpoint rfl (.inr ⟨e, he, rfl, rfl⟩) (t.made e he) (fun _ => rfl) ?_, rfl,
    fun x => ?_⟩
  · rw [show (derivedEnd e ⟨w.next, 1⟩ holder e.operation rights none).rights = rights from rfl,
      hrights]
    exact t.rights e he
  have hends : (w.addDuplicate e holder rights).ends x =
      w.ends x + (if e.handle = x then 1 else 0) := ends_duplicateEnd hring x
  have hholders : (w.addDuplicate e holder rights).holders x =
      w.holders x + (if e.handle = x then 1 else 0) := by
    unfold World.holders World.addDuplicate
    simp [owns, counted, derivedEnd]
  omega

theorem addForeground {issuer : Binding} {i : Intent}
    {a b : Endpoint} (h : Pending w p rr) (hintent : p.intent = some i)
    (ha : a ∈ w.endpoints) (hb : b ∈ w.endpoints)
    (href : a.reference = i.writers.1 ∧ b.reference = i.writers.2)
    (hproducers : rr.producers = (⟨w.next + 1, 1⟩, ⟨w.next + 2, 1⟩)) :
    Accounts w (w.addForeground p issuer a b rr) := by
  have hmint : Accounts w { w with next := w.next + 1 } :=
    touch t { Touch.refl w with next := Nat.le_succ _ }
  have hpeer (r : Ref) (e : Endpoint) : (peer p issuer r e).rights &&& 3 ≠ 3 := by
    simp only [peer]
    decide
  have hnot (r : Ref) (e : Endpoint) : (peer p issuer r e).counted = false := by
    simp [peer, counted]
  have hfirst := addEndpoint (hnot ⟨w.next + 1, 1⟩ a) (hmint.tracked.addEndpoint rfl
    (.inr ⟨a, ha, rfl, rfl⟩) (t.made a ha) (fun _ => rfl) (hpeer _ _))
  have hsecond := addEndpoint (hnot ⟨w.next + 2, 1⟩ b) (hfirst.tracked.addEndpoint rfl
    (.inr ⟨b, mem_append_left _ hb, rfl, rfl⟩) (t.made b hb) (fun _ => rfl) (hpeer _ _))
  rw [append_assoc] at hsecond
  have hall := (hmint.trans hfirst).trans hsecond
  refine { hall with tracked := hall.tracked.addReceipt ?_ fun e he => ?_ }
  · rw [hproducers]
    exact ⟨Nat.lt_succ_of_lt (Nat.lt_succ_self _), Nat.lt_succ_self _⟩
  -- the only records with the new references are the two peers
  · have hold : ∀ n, w.next ≤ n → e ∈ w.endpoints → e.reference ≠ ⟨n, 1⟩ := by
      intro n hn hmem heq
      have hlt := (t.minted e hmem).2
      rw [heq] at hlt
      exact absurd hlt (Nat.not_lt.mpr hn)
    have hfind : w.PreparedAt rr.prepared p := by
      rw [h.prepared]
      exact h.found
    rw [Intends, hproducers]
    rcases mem_append.mp he with hmem | hnew
    · exact ⟨fun heq => absurd heq (hold _ (by omega) hmem), fun heq => absurd heq (hold _ (by omega) hmem)⟩
    rcases mem_cons.mp hnew with rfl | hnew
    · refine ⟨fun _ => ⟨p, i, hfind, hintent, href.1⟩, fun heq => ?_⟩
      have hid := congrArg Ref.id heq
      simp [peer] at hid
    · rw [mem_singleton.mp hnew]
      refine ⟨fun heq => ?_, fun _ => ⟨p, i, hfind, hintent, href.2⟩⟩
      have hid := congrArg Ref.id heq
      simp [peer] at hid

theorem addReceipt (hproducers : rr.producers = (Ref.zero, Ref.zero)) :
    Accounts w { w with next := w.next + 1, receipts := w.receipts ++ [rr] } := by
  have hmint : Accounts w { w with next := w.next + 1 } :=
    touch t { Touch.refl w with next := Nat.le_succ _ }
  have hzero : ∀ e ∈ w.endpoints, e.reference ≠ Ref.zero := by
    intro e he heq
    have hpos := (t.minted e he).1
    rw [heq] at hpos
    exact absurd hpos (Nat.lt_irrefl 0)
  refine ⟨hmint.tracked.addReceipt ?_ fun e he => ?_, rfl, hmint.carries⟩
  · rw [hproducers]
    exact ⟨Nat.succ_pos _, Nat.succ_pos _⟩
  · rw [Intends, hproducers]
    exact ⟨fun heq => absurd heq (hzero e he), fun heq => absurd heq (hzero e he)⟩

theorem addPrepared (h : Fresh w cellId p) : Accounts w (w.addPrepared cellId p) := by
  have hfind {r : Ref} {q : Prepared} (hq : w.PreparedAt r q) :
      (w.addPrepared cellId p).PreparedAt r q := by
    simp [PreparedAt, World.addPrepared, List.find?_append, hq]
  refine frame { t with sound := ?_, intents := ?_ } rfl
  · exact forall_mem_concat t.sound (by simp [h.parsed])
  · intro rr hrr hpending e he
    exact Tracked.intends (t.intents rr hrr hpending e he) fun q i hq hi => ⟨q, hfind hq, hi⟩

theorem removeOperation (hdrained : w.drained r = true) : Accounts w (w.removeOperation r) := by
  simp only [drained, Bool.and_eq_true, Bool.not_eq_true', any_eq_false,
    decide_eq_true_eq, not_and] at hdrained
  obtain ⟨⟨⟨⟨-, hprepared⟩, -⟩, -⟩, hheld⟩ := hdrained
  refine removed (t.remove filter_sublist filter_sublist (.refl _) ?_ rfl rfl rfl) rfl rfl
    rfl fun e he hopen => ?_
  · intro rr hrr p hp
    -- a child record that a receipt names keeps its operation from being removed
    refine find?_filter_of_keep hp ?_
    have href : p.reference = rr.prepared := by simpa using List.find?_some hp
    by_contra hop
    have hretained := hprepared p (mem_of_find?_eq_some hp) (by simpa using hop)
    simp only [retainedTerminal, Bool.not_eq_false, Bool.and_eq_true, Bool.not_eq_true',
      any_eq_false, decide_eq_true_eq] at hretained
    exact hretained.2 rr hrr href.symm
  · simpa using fun hop => absurd hopen (hheld e he hop)

theorem reclaim (r : Ref) : Accounts w (w.reclaim r) := by
  refine removed (t.remove filter_sublist filter_sublist filter_sublist ?_ rfl rfl rfl)
    rfl rfl rfl fun e he hopen => ?_
  · intro rr hrr p hp
    have href : p.reference = rr.prepared := by simpa using List.find?_some hp
    refine find?_filter_of_keep hp ?_
    simp only [keepsPrepared, decide_eq_true_eq]
    refine .inr (.inr (.inl (any_eq_true.mpr ⟨rr, hrr, ?_⟩)))
    simpa using href.symm
  · simp [keepsEndpoint, hopen]

theorem addStaged (he : e ∈ w.endpoints) (hrights : rights &&& 3 = e.rights &&& 3) :
    Accounts w (w.addStaged e p rights) := by
  refine addEndpoint (by simp [derivedEnd, counted])
    (t.addEndpoint rfl (.inr ⟨e, he, rfl, rfl⟩) (t.made e he) (fun h => ?_) ?_)
  · cases h
  · rw [show (derivedEnd e ⟨w.next, 1⟩ p.child.principal p.operation rights
      (some p.child)).rights = rights from rfl, hrights]
    exact t.rights e he

theorem dropReceipts (keep : Receipt → Bool) :
    Accounts w { w with receipts := w.receipts.filter keep } :=
  frame (t.remove (.refl _) (.refl _) filter_sublist (fun _ _ _ hp => hp) rfl rfl rfl) rfl

theorem dropPrepared (hp : w.prepared[i]? = some p)
    (hreceipts : (w.receipts.any fun rr => rr.prepared = p.reference) = false) :
    Accounts w { w with prepared := w.prepared.eraseIdx i } := by
  refine frame (t.remove (.refl _) (eraseIdx_sublist _ _) (.refl _) ?_ rfl rfl rfl) rfl
  intro rr hrr q hq
  refine find?_eraseIdx_of_neg hq hp ?_
  rw [any_eq_false] at hreceipts
  simpa [eq_comm] using hreceipts rr hrr

omit t

end Accounts

end Cellos.Session
