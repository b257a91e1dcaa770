import Cellos.Session.Lives

/-!
# Cellos.Session.Settled

Every reachable state is settled.

Between two steps nothing is queued, cancellation is closed under the tree, and a
cancelled operation has no holder, no unpublished child and no live child that is not
flagged.  Each act keeps this (`Act.settled`), because what it adds belongs to an active
operation, and so does each step, since the kill funnel retires the child whose flag it
takes.
-/

namespace Cellos.Session

open Lib List World
open Pipes (PipeHandle)
open Relation (ReflTransGen)

/-- What holds between two acts. -/
structure Settled (exempt : Principal → Prop) (w : World) : Prop where
  covered : Covered w
  mid : Mid exempt w
  linked : Linked w
  lives : Lives exempt w
  idle : w.idle = true

variable {w : World} {w' : World}

theorem World.idle_congr (hpending : w'.pendingCancels = w.pendingCancels)
    (hrings : w'.deadRings = w.deadRings) (hoverflow : w'.deadOverflow = w.deadOverflow) :
    w'.idle = w.idle := by
  unfold idle
  rw [hpending, hrings, hoverflow]

open World

/-- Nothing is queued or taken from the queue, and no lifetime changes. -/
structure Still (w w' : World) : Prop where
  pass : w'.pass = w.pass
  pendingCancels : w'.pendingCancels = w.pendingCancels
  deadRings : w'.deadRings = w.deadRings
  deadOverflow : w'.deadOverflow = w.deadOverflow
  cells : w'.cells = w.cells
  tasks : w'.tasks = w.tasks
  nextTask : w'.nextTask = w.nextTask
  nextGeneration : w'.nextGeneration = w.nextGeneration

theorem Still.idle (h : Still w w') : w'.idle = w.idle :=
  idle_congr h.pendingCancels h.deadRings h.deadOverflow

theorem Still.lives (h : Still w w')
    (l : Lives exempt w) (hlive : ∀ p ∈ w'.prepared, p.state = .live →
      ∃ q ∈ w.prepared, q.state = .live ∧ q.child = p.child) : Lives exempt w' :=
  l.of_prepared h.cells h.tasks h.nextTask h.nextGeneration fun p hp hp' => .inl (hlive p hp hp')

namespace Settled

/-! ## closing and cancelling -/

theorem edits (s : Settled exempt w) (h : Edits env w w') (hmid : Mid exempt w')
    (hidle : w'.idle = true) : Settled exempt w' where
  covered := (Accounts.edits s.covered h).covered s.covered
  mid := hmid
  linked := s.linked.drift h.drift
  lives := s.lives.drift h.drift
  idle := hidle

/-- Closing, cancelling and aborting keep the state settled. -/
theorem closing (env : Env) (exempt : Principal → Prop) :
    Closing env fun w w' => Settled exempt w → Settled exempt w' where
  refl := fun _ => id
  trans := fun _ _ _ h h' => h' ∘ h
  touch := by
    intro w w' h s
    have hedits : Edits env w w' := Edits.touch h
    refine s.edits hedits (s.mid.inner (.touch h)) ?_
    rw [idle_congr h.pendingCancels h.deadRings h.deadOverflow]
    exact s.idle
  closeReservation := by
    intro w r s
    have hedits : Edits env w (w.closeReservation r) := .single (.closeReservation r)
    have hinner : Inner w (w.closeReservation r) := w.inner_shut r (by simp)
    obtain ⟨_, _, _, heq⟩ := w.closeReservation_frame r
    refine s.edits hedits (s.mid.inner hinner) ?_
    rw [heq]
    exact s.idle
  closeHolder := by
    intro w r state h s
    obtain ⟨hmid, hidle⟩ := (s.mid.inner (w.inner_closeOne r h)).cascade env
    exact s.edits (edits_closeHolder r state h) hmid hidle
  cancel := by
    intro w r reason s
    obtain ⟨hmid, hidle⟩ := (s.mid.requestCancel r reason).cascade env
    exact s.edits (edits_cancel r reason) hmid hidle

/-! ## acts -/

variable (s : Settled exempt w)

include s

/-- New holders, and receipts that name only them. -/
theorem addEndpoints (hcovered : Covered w') (hnext : w.next ≤ w'.next)
    (hends : w'.endpoints = w.endpoints ++ es) (hreceipts : w'.receipts = w.receipts ++ rs)
    (hnodup : (es.map (·.reference)).Nodup) (hfresh : ∀ e ∈ es, w.next ≤ e.reference.id)
    (hactive : ∀ e ∈ es, ¬w.Cancelled e.operation) (hstaged : ∀ e ∈ es, ∀ c, e.prepared = some c →
      ∃ p ∈ w.prepared, p.child = c ∧ e.operation = p.operation)
    (hpeers : ∀ rr ∈ rs, ∃ p ∈ w.prepared, rr.prepared = p.reference ∧
      ∀ e ∈ w.endpoints ++ es, e.reference = rr.producers.1 ∨ e.reference = rr.producers.2 →
        e.operation = p.operation)
    (hops : w'.operations = w.operations) (hprepared : w'.prepared = w.prepared)
    (hstill : Still w w') : Settled exempt w' where
  covered := hcovered
  mid := s.mid.addEndpoints (fun e he => (s.covered.minted e he).2) hnext hops hends hprepared
    hstill.pass hstill.pendingCancels hnodup hfresh hactive
  linked := by
    refine s.linked.extend s.mid.records hstill.nextGeneration hends hprepared hreceipts hstaged ?_
      hpeers
    -- the peers of a receipt were minted before the new holders
    intro rr hrr e he
    have hle : w.next ≤ e.reference.id := hfresh e he
    obtain ⟨h1, h2⟩ := s.covered.producers rr hrr
    refine ⟨fun heq => ?_, fun heq => ?_⟩
    · rw [heq] at hle
      omega
    · rw [heq] at hle
      omega
  lives := hstill.lives s.lives fun p hp hlive => ⟨p, hprepared ▸ hp, hlive, rfl⟩
  idle := hstill.idle.trans s.idle

theorem sublists (hcovered : Covered w')
    (hreceipts : w'.receipts.Sublist w.receipts) (hprepared : w'.prepared.Sublist w.prepared)
    (hends : w'.endpoints.Sublist w.endpoints) (hops : w'.operations.Sublist w.operations)
    (hnext : w'.next = w.next) (hstill : Still w w') : Settled exempt w' where
  covered := hcovered
  mid := by
    refine s.mid.sublists ?_ hops hends hprepared hnext hstill.pass hstill.pendingCancels
    exact (of_decide_eq_true s.idle).1
  linked := s.linked.sublists hstill.nextGeneration hends hprepared hreceipts
  lives := hstill.lives s.lives fun p hp hlive => ⟨p, hprepared.subset hp, hlive, rfl⟩
  idle := hstill.idle.trans s.idle

/-- A commit opens reserved peers and makes a child of an active operation live. -/
theorem commit (hcovered : Covered (w.applyCommit p plan)) (hp : w.PreparedAt p.reference p)
    (hactive : w.Active p.operation) (hplan : w.checkCommit env p = .ok plan) :
    Settled exempt (w.applyCommit p plan) := by
  obtain ⟨c, hc⟩ := checkCommit_eq_ok s.covered.toTracked hp hplan
  have hmem : p ∈ w.prepared := mem_of_find?_eq_some hp
  have hlives := s.lives.commit hp (s.linked.published p hmem) hplan
  have hhanded := w.handed_applyCommit p plan
  have hnames := w.names_applyCommit p plan
  have hwanes : Forall₂ Endpoint.Wanes w.endpoints (w.applyCommit p plan).endpoints := by
    refine ((forall₂_and_left _ _).mpr ⟨fun a ha => ha, hhanded⟩).imp ?_
    rintro a b ⟨ha, hab⟩
    refine ⟨hab.toNames, fun hb => ?_⟩
    rcases hab.held hb with hold | ⟨m, hm, href⟩
    · exact hold
    -- the peers of the moves were reserved
    obtain ⟨a', ha', hreserved, -⟩ := (hc.moves m hm).peer
    obtain ⟨hmem', href'⟩ := mem_of_find ha'
    obtain rfl : a' = a := inj_on_of_nodup_map s.mid.ends hmem' ha (href'.trans href.symm)
    simp [Endpoint.held, hreserved]
  obtain ⟨_, _, _, _, heq⟩ := w.applyCommit_frame p plan
  rw [heq] at hcovered hlives hhanded hnames hwanes ⊢
  have hrows : Forall₂ (fun a b => a.Goes b ∧ a.Heeds w exempt b) w.prepared
      (w.setPrepared p.reference fun p =>
        { p with publication := none, context := [], state := .live }).prepared := by
    refine forall₂_updateFirst (fun a => ⟨.refl a, rfl, rfl, rfl, id,
      fun h => .inr (.inr ⟨h, id⟩)⟩) fun a ha => ?_
    cases hp.symm.trans ha
    exact ⟨⟨rfl, rfl, rfl, by simp, by simp⟩, rfl, rfl, rfl, by simp,
      fun _ => .inr (.inl (s.mid.not_cancelled hactive))⟩
  exact {
    covered := hcovered
    mid := s.mid.of_records (fun _ => id) le_rfl rfl rfl rfl hwanes (hrows.imp fun _ _ h => h.2)
    linked := s.linked.of_rows le_rfl (hhanded.imp fun _ _ h => h.toNames)
      (hrows.imp fun _ _ h => h.1) hnames
    lives := hlives
    idle := s.idle }

end Settled

section

/-- **Every act keeps the state settled.** -/
theorem Act.settled (s : Settled exempt w) (h : Act env license w w') : Settled exempt w' := by
  have hcovered : Covered w' := by
    have hgrows : Grows False w w' := h.grows s.covered fun _ _ _ _ _ hno => hno.elim
    exact hgrows.covered s.covered
  have hclosing := Settled.closing env exempt
  cases h with
  | touch h => exact hclosing.touch _ _ h s
  | closeReservation r => exact hclosing.closeReservation _ r s
  | closeHolder r state h => exact hclosing.closeHolder _ r state h s
  | cancel r reason => exact hclosing.cancel _ r reason s
  | operation o href hstate hparent =>
    exact {
      covered := hcovered
      mid := s.mid.addOperation s.covered.next href hstate hparent
      linked := s.linked.sublists rfl (.refl _) (.refl _) (.refl _)
      lives := { s.lives with }
      idle := s.idle }
  | stream _ operation _ h =>
    have hactive : ¬w.Cancelled operation := s.mid.not_cancelled h
    refine s.addEndpoints hcovered (Nat.le_add_right _ 2) rfl (append_nil _).symm ?_ ?_ ?_ ?_
      (by simp) rfl rfl (by constructor <;> rfl)
    all_goals simp [streamEnd, hactive]
  | duplicate e _ _ _ _ hactive =>
    have hactive : ¬w.Cancelled e.operation := s.mid.not_cancelled hactive
    refine s.addEndpoints hcovered (Nat.le_succ _) rfl (append_nil _).symm ?_ ?_ ?_ ?_
      (by simp) rfl rfl (by constructor <;> rfl)
    all_goals simp [derivedEnd, hactive]
  | delegate _ p _ _ hp hstaged =>
    have hactive : ¬w.Cancelled p.operation := s.mid.staged p hp hstaged
    refine s.addEndpoints hcovered (Nat.le_succ _) rfl (append_nil _).symm ?_ ?_ ?_ ?_
      (by simp) rfl rfl (by constructor <;> rfl)
    · simp
    · simp [derivedEnd]
    · simp [derivedEnd, hactive]
    · intro a ha c hc
      obtain rfl := mem_singleton.mp ha
      cases hc
      exact ⟨p, hp, rfl, rfl⟩
  | receipt p _ h hproducers =>
    refine s.addEndpoints hcovered (Nat.le_succ _) (append_nil _).symm rfl (by simp) (by simp)
      (by simp) (by simp) ?_ rfl rfl (by constructor <;> rfl)
    intro x hx
    obtain rfl := mem_singleton.mp hx
    refine ⟨p, mem_of_find?_eq_some h.found, h.prepared, fun e he hpeer => ?_⟩
    -- a receipt without peers names no holder
    have hpos : 0 < e.reference.id := (s.covered.minted e (by simpa using he)).1
    rw [hproducers] at hpeer
    rcases hpeer with hzero | hzero
    all_goals
      rw [hzero] at hpos
      exact absurd hpos (Nat.lt_irrefl _)
  | foreground p _ _ _ _ _ h _ _ _ _ hproducers =>
    have hp : p ∈ w.prepared := mem_of_find?_eq_some h.found
    have hactive : ¬w.Cancelled p.operation := s.mid.staged p hp h.staged
    refine s.addEndpoints hcovered (Nat.le_add_right _ 3) rfl rfl ?_ ?_ ?_ ?_ ?_ rfl rfl
      (by constructor <;> rfl)
    · simp [peer]
    · simp [peer]
    · simp [peer, hactive]
    · simp [peer]
    · intro x hx
      obtain rfl := mem_singleton.mp hx
      refine ⟨p, hp, h.prepared, fun e he hpeer => ?_⟩
      rcases mem_append.mp he with he | he
      · -- the peers are new
        have hlt : e.reference.id < w.next := (s.covered.minted e he).2
        rw [hproducers] at hpeer
        rcases hpeer with hnew | hnew
        all_goals
          rw [hnew] at hlt
          dsimp only at hlt
          omega
      · simp only [mem_cons, not_mem_nil, or_false] at he
        rcases he with rfl | rfl <;> rfl
  | stage cellId p h =>
    have hfresh : ∀ q ∈ w.prepared, q.reference ≠ p.reference := by
      intro q hq heq
      have hlt : q.child.publicationGeneration < w.nextGeneration := s.linked.generations q hq
      rw [s.linked.references q hq, h.reference, h.child] at heq
      have hgeneration : q.child.publicationGeneration = w.nextGeneration :=
        congrArg Ref.generation heq
      omega
    have hcells := s.lives.addCell cellId .reserved
    exact {
      covered := hcovered
      mid := s.mid.addPrepared h hfresh
      linked := s.linked.addPrepared h
      lives := by
        refine hcells.of_prepared rfl rfl rfl rfl (forall_mem_concat ?_ (by simp [h.state]))
        exact fun q hq hlive => .inl ⟨q, hq, hlive, rfl⟩
      idle := s.idle }
  | bootstrap | dropBootstraps | ledgers =>
    exact s.sublists hcovered (.refl _) (.refl _) (.refl _) (.refl _) rfl (by constructor <;> rfl)
  | commit _ _ hp _ hactive hplan => exact s.commit hcovered hp hactive hplan
  | removeOperation =>
    exact s.sublists hcovered (.refl _) filter_sublist filter_sublist filter_sublist rfl
      (by constructor <;> rfl)
  | reclaim =>
    exact s.sublists hcovered filter_sublist filter_sublist filter_sublist (.refl _) rfl
      (by constructor <;> rfl)
  | dropReceipts =>
    exact s.sublists hcovered filter_sublist (.refl _) (.refl _) (.refl _) rfl
      (by constructor <;> rfl)
  | dropPrepared =>
    exact s.sublists hcovered (.refl _) (eraseIdx_sublist _ _) (.refl _) (.refl _) rfl
      (by constructor <;> rfl)

end

/-! ## retirement -/

/-- No cell is being retired. -/
def never : Principal → Prop := fun _ => False

namespace World

variable {w : World}

/-- No live child under the reference belongs to the principal. -/
def Retired (w : World) (principal : Principal) (r : Ref) : Prop :=
  ∀ p, w.prepared.find? (fun p => p.reference = r) = some p → p.state = .live →
    p.child.principal ≠ principal

theorem Retired.drift (h : w.Retired principal r) (hd : Drift w w') : w'.Retired principal r := by
  intro p hp hlive
  obtain ⟨a, ha, hmoves⟩ :=
    find?_old_of_forall₂ hd.prepared (fun a b hab => by rw [hab.reference]) hp
  rw [hmoves.child]
  exact h a ha (hmoves.live hlive).1

theorem retired_retirePrepared (principal : Principal) (reason : Option Nat) (r : Ref) :
    (w.retirePrepared env principal reason r).Retired principal r := by
  unfold retirePrepared
  split
  · next hnone =>
    intro p hp
    rw [hnone] at hp
    cases hp
  · next p hp =>
    split
    · next hstaged =>
      have hunchanged : w.retireRecord principal reason p = w := by
        simp [retireRecord, hstaged.2]
      rw [hunchanged]
      have habort : Drift w (w.abort env r false) := ((Edits.closing env).abort r false).drift
      refine Retired.drift (fun q hq hlive => ?_) habort
      cases hp.symm.trans hq
      rw [hstaged.2] at hlive
      cases hlive
    · unfold retireRecord
      split
      · intro q hq hlive
        have href : p.reference = r := by simpa using find?_some hp
        rw [href, find?_setPrepared hp href] at hq
        cases hq
        cases hlive
      · next hkeep =>
        intro q hq hlive
        cases hp.symm.trans hq
        exact fun hprincipal => hkeep ⟨hprincipal, hlive⟩

/-- After `retiring` the cell has no live child record. -/
theorem retiring_clears (hrecords : (w.prepared.map (·.reference)).Nodup) (principal : Principal)
    (reason : Option Nat) : ∀ p ∈ (w.retiring env principal reason).prepared, p.state = .live →
      p.child.principal ≠ principal := by
  have hedit (u : World) (r : Ref) : Edits env u (u.retirePrepared env principal reason r) :=
    (Edits.closing env).retirePrepared principal reason r
  obtain ⟨hfirst, hretired⟩ := foldl_established
    (P := fun u => Edits env w u) (Q := fun r u => u.Retired principal r) .refl
    (fun u r _ h => h.trans (hedit u r)) (fun u r _ _ => u.retired_retirePrepared principal reason r)
    fun u r c _ _ _ h => h.drift (hedit u r).drift
  have hrest : Edits env ((w.prepared.map (·.reference)).foldl
      (retirePrepared env principal reason) w) (w.retiring env principal reason) :=
    ((Edits.closing env).foldl (fun u o _ => edits_cancel o.reference 2) _).trans
      ((Edits.closing env).foldl (fun u e _ => edits_closeHolder e.reference _ (by simp)) _)
  have hall : Edits env w (w.retiring env principal reason) := hfirst.trans hrest
  have hrefs : (w.retiring env principal reason).prepared.map (·.reference) =
      w.prepared.map (·.reference) :=
    map_eq_of_forall₂ hall.drift.prepared fun _ _ h => h.reference
  exact forall_mem_of_find hrefs hrecords fun r hr => (hretired r hr).drift hrest.drift

end World

theorem World.liveOwner_eq_some (h : w.liveOwner p = some owner) :
    owner.principal = p ∧ ∃ c ∈ w.cells, c.owner = owner ∧ c.slot = .live := by
  unfold liveOwner at h
  split at h
  · cases h
  next c hc =>
  split at h
  · cases h
    have hfound : c.owner.principal = p ∧ c.slot = .live := by simpa using find?_some hc
    exact ⟨hfound.1, c, mem_of_find?_eq_some hc, rfl, hfound.2⟩
  · cases h

namespace Settled

theorem weaken (s : Settled exempt w)
    (h : ∀ p ∈ w.prepared, p.state = .live → ¬exempt p.child.principal) : Settled never w where
  covered := s.covered
  mid := { s.mid with
    live := fun p hp hlive hc =>
      Or.inr ((s.mid.live p hp hlive hc).resolve_left (h p hp hlive)) }
  linked := s.linked
  lives := { s.lives with
    live := fun p hp hlive => .inr ((s.lives.live p hp hlive).resolve_left (h p hp hlive)) }
  idle := s.idle

/-- A retiring cell loses its holders and its operations, and its record goes on. -/
theorem retire (s : Settled exempt w) (reason : Option Nat)
    (hexempt : ∀ x, exempt x → x = owner.principal) : Settled never (({ w with
      cells := updateFirst (fun c => c.owner = owner) (fun c => { c with slot := .retiring })
        w.cells } : World).retiring env owner.principal reason) := by
  set u : World := { w with
    cells := updateFirst (fun c => c.owner = owner) (fun c => { c with slot := .retiring }) w.cells }
  have hretired : Settled (fun x => x = owner.principal) u := {
    covered := { s.covered with }
    mid := s.mid.of_records hexempt le_rfl rfl rfl rfl (forall₂_refl .refl)
      (forall₂_same.mpr fun p _ => ⟨rfl, rfl, rfl, id, fun h => .inr (.inr ⟨h, id⟩)⟩)
    linked := s.linked.sublists rfl (.refl _) (.refl _) (.refl _)
    lives := s.lives.setSlot (by simp) hexempt (.inr rfl)
    idle := s.idle }
  have hclosed := (closing env fun x => x = owner.principal).retiring owner.principal reason hretired
  exact hclosed.weaken (retiring_clears (w := u) s.mid.records owner.principal reason)

/-- The exit of a live root retires its cell. -/
theorem exitRoot (s : Settled exempt w) (reason : Option Nat)
    (ht : w.tasks.find? (fun x => x.tid = t.tid) = some t) (hroot : t.rootTid = t.tid)
    (howner : w.liveOwner t.cell = some owner) (hexempt : ∀ x, exempt x → x = t.cell) :
    Settled never (w.exitTask env t.tid reason) := by
  obtain ⟨hprincipal, -⟩ := liveOwner_eq_some howner
  unfold exitTask
  simp only [ht, hroot, if_true, howner]
  rw [← hprincipal] at hexempt ⊢
  exact s.retire reason hexempt

theorem exitTask (s : Settled never w) (tid : Nat) (reason : Option Nat) :
    Settled never (w.exitTask env tid reason) := by
  cases ht : w.tasks.find? (fun t => t.tid = tid) with
  | none =>
    unfold World.exitTask
    simp only [ht]
    exact s
  | some t =>
    obtain rfl : t.tid = tid := by simpa using find?_some ht
    by_cases hroot : t.rootTid = t.tid
    · cases howner : w.liveOwner t.cell with
      | none =>
        unfold World.exitTask
        simp only [ht, hroot, if_true, howner]
        exact s
      | some => exact s.exitRoot reason ht hroot howner fun _ hno => hno.elim
    · unfold World.exitTask
      simp only [ht, hroot, if_false]
      exact {
        covered := { s.covered with }
        mid := { s.mid with }
        linked := { s.linked with }
        lives := by
          refine s.lives.sublists (.refl _) filter_sublist fun p _ _ =>
            ⟨fun c hc _ _ => hc, fun x hx htid hxroot _ => mem_filter.mpr ⟨hx, ?_⟩⟩
          -- the root task of a live child is its own root
          have hne : x.tid ≠ t.tid := by
            intro heq
            obtain rfl : x = t := inj_on_of_nodup_map s.lives.tids hx (mem_of_find?_eq_some ht) heq
            exact hroot (hxroot.trans htid.symm)
          simpa using hne
        idle := s.idle }

end Settled

/-! ## the kill funnel -/

namespace World

/-- What a turn of the kill funnel takes: the flag of one live child, if any has one. -/
theorem takeKill_spec (l : List Prepared) : ((takeKill l).1 = none ∧ Forall₂ (fun a b : Prepared =>
      (∃ kill, b = { a with kill }) ∧ (a.state = .live → b.kill = a.kill)) l (takeKill l).2) ∨
    ∃ p ∈ l, p.state = .live ∧ (takeKill l).1 = some p.child.rootTid ∧
      Forall₂ (fun a b : Prepared =>
        (∃ kill, b = { a with kill }) ∧ (a.state = .live → b.kill = a.kill ∨ a = p)) l
        (takeKill l).2 := by
  induction l with
  | nil => exact .inl ⟨rfl, .nil⟩
  | cons p l ih =>
    unfold takeKill
    split
    · next hkill =>
      refine .inr ⟨p, mem_cons_self, hkill.2, rfl, .cons ⟨⟨false, rfl⟩, fun _ => .inr rfl⟩
        (forall₂_same.mpr fun a _ => ⟨⟨a.kill, rfl⟩, fun _ => .inl rfl⟩)⟩
    · next hkeep =>
      have hhead (h : p.state = .live) : false = p.kill := by
        cases hk : p.kill with
        | false => rfl
        | true => exact absurd ⟨hk, h⟩ hkeep
      rcases ih with ⟨hnone, hrows⟩ | ⟨q, hq, hlive, hsome, hrows⟩
      · exact .inl ⟨hnone, .cons ⟨⟨false, rfl⟩, hhead⟩ hrows⟩
      · exact .inr ⟨q, mem_cons_of_mem _ hq, hlive, hsome,
          .cons ⟨⟨false, rfl⟩, fun h => .inl (hhead h)⟩ hrows⟩

end World

namespace Settled

variable {exempt : Principal → Prop} {w : World}

variable (s : Settled never w)

include s

theorem taken {prepared : List Prepared}
    (hrows : Forall₂ (fun a b : Prepared => (∃ kill, b = { a with kill }) ∧
      (a.state = .live → b.kill = a.kill ∨ exempt a.child.principal)) w.prepared prepared) :
    Settled exempt { w with prepared } where
  covered := by
    have hnamed : Forall₂ Prepared.Named w.prepared prepared := by
      refine hrows.imp ?_
      rintro a b ⟨⟨_, rfl⟩, -⟩
      exact ⟨rfl, .inr rfl, id⟩
    have haccounts : Accounts w { w with prepared } := .setPrepared s.covered.toTracked hnamed
    exact haccounts.covered s.covered
  mid := by
    refine s.mid.of_records (fun _ hno => hno.elim) le_rfl rfl rfl rfl
      (forall₂_refl .refl) (hrows.imp ?_)
    rintro a b ⟨⟨_, rfl⟩, hkill⟩
    refine ⟨rfl, rfl, rfl, id, fun hlive => ?_⟩
    rcases hkill hlive with hsame | hexempt
    · exact .inr (.inr ⟨hlive, hsame.trans⟩)
    · exact .inl hexempt
  linked := by
    refine s.linked.of_rows le_rfl (forall₂_refl .refl)
      (hrows.imp ?_) (forall₂_same.mpr fun rr _ => ⟨rfl, rfl⟩)
    rintro a b ⟨⟨_, rfl⟩, -⟩
    exact ⟨rfl, rfl, rfl, fun q h => ⟨q, h, rfl⟩, id⟩
  lives := { s.lives with
    live := by
      intro p hp hlive
      obtain ⟨a, ha, ⟨_, rfl⟩, -⟩ := exists_old hrows hp
      exact .inr ((s.lives.live a ha hlive).resolve_left id) }
  idle := s.idle

omit s in
/-- The root task of a lively child is found, and its slot is live. -/
theorem liveOwner_of_lively (l : Lives exempt w) (h : w.Lively child) :
    ∃ t owner, w.tasks.find? (fun t => t.tid = child.rootTid) = some t ∧ t.tid = child.rootTid ∧
      t.rootTid = t.tid ∧ t.cell = child.principal ∧ w.liveOwner t.cell = some owner := by
  obtain ⟨⟨c, hc, hslot, hchild⟩, t, ht, htid, hroot, hcell⟩ := h
  have hfind : w.tasks.find? (fun x => x.tid = t.tid) = some t := find?_key_of_nodup l.tids ht
  have hprincipal : c.owner.principal = t.cell := by
    rw [hcell, ← hchild]
    rfl
  have hrootTid : c.owner.rootTid = t.tid := by
    rw [htid, ← hchild]
    rfl
  obtain ⟨c', hc'⟩ : ∃ c', w.cells.find? (fun x => x.owner.principal = t.cell ∧ x.slot = .live) =
      some c' :=
    Option.isSome_iff_exists.mp (find?_isSome.mpr ⟨c, hc, by simp [hprincipal, hslot]⟩)
  have hfound : c'.owner.principal = t.cell ∧ c'.slot = .live := by simpa using find?_some hc'
  -- generations of slots are distinct, so the search finds the child's slot
  obtain rfl : c' = c := by
    refine inj_on_of_nodup_map l.generations (mem_of_find?_eq_some hc') hc ?_
    exact congrArg Principal.generation (hfound.1.trans hprincipal.symm)
  refine ⟨t, c'.owner, htid ▸ hfind, htid, hroot.trans htid.symm, hcell, ?_⟩
  unfold liveOwner
  simp only [hc']
  rw [if_pos (any_eq_true.mpr ⟨t, ht, by simp [hrootTid, hroot, htid]⟩)]

/-- **The kill funnel retires the child whose flag it takes.** -/
theorem deliverKill : Settled never (w.deliverKill env) := by
  unfold World.deliverKill
  rcases takeKill_spec w.prepared with ⟨hnone, hrows⟩ | ⟨p, hp, hlive, hsome, hrows⟩
  · rw [hnone]
    exact s.taken (hrows.imp fun a b h => ⟨h.1, fun hl => .inl (h.2 hl)⟩)
  rw [hsome]
  have htaken : Settled (fun x => x = p.child.principal)
      { w with prepared := (takeKill w.prepared).2 } :=
    s.taken (hrows.imp fun a b h => ⟨h.1, fun hl => (h.2 hl).imp_right (by rintro rfl; rfl)⟩)
  have hlively : w.Lively p.child := (s.lives.live p hp hlive).resolve_left id
  obtain ⟨_, _, ht, htid, hroot, hcell, howner⟩ := liveOwner_of_lively s.lives hlively
  rw [← htid] at ht ⊢
  exact htaken.exitRoot none ht hroot howner fun x hx => hx.trans hcell.symm

/-! ## births and ends -/

theorem finishRetirement (principal : Principal) :
    Settled never (w.finishRetirement principal) := by
  unfold World.finishRetirement
  split
  · next hretiring =>
    obtain ⟨r, hr, hrprincipal, hrslot⟩ : ∃ c ∈ w.cells, c.owner.principal = principal ∧
        c.slot = .retiring := by simpa using hretiring
    -- the slot of a live child is live, and no other slot has its principal
    have hlive {c : Cell} (hc : c ∈ w.cells) (hslot : c.slot = .live) :
        c.owner.principal ≠ principal := by
      intro heq
      obtain rfl : c = r := inj_on_of_nodup_map s.lives.generations hc hr
        (congrArg Principal.generation (heq.trans hrprincipal.symm))
      rw [hslot] at hrslot
      cases hrslot
    have hgone : Settled never { w with
        cells := w.cells.filter fun c => c.owner.principal ≠ principal
        tasks := w.tasks.filter fun t => t.cell ≠ principal } := {
      covered := { s.covered with }
      mid := { s.mid with }
      linked := { s.linked with }
      lives := by
        refine s.lives.sublists filter_sublist filter_sublist fun p hp hplive => ?_
        obtain ⟨⟨c, hc, hslot, hchild⟩, -⟩ := (s.lives.live p hp hplive).resolve_left id
        have hne : p.child.principal ≠ principal := by
          rw [← hchild]
          exact hlive hc hslot
        refine ⟨fun x hx hxslot _ => mem_filter.mpr ⟨hx, by simpa using hlive hx hxslot⟩,
          fun t ht _ _ hcell => mem_filter.mpr ⟨ht, ?_⟩⟩
        rw [hcell]
        simpa using hne
      idle := s.idle }
    have hterminated := (closing (calm 0) never).touch _ _ (touch_terminateAll principal) hgone
    exact hterminated.sublists { hterminated.covered with } (.refl _) (.refl _) (.refl _) (.refl _)
      rfl (by constructor <;> rfl)
  · exact s

theorem spawn (cellId : Nat) : Settled never (w.spawn cellId) := by
  unfold World.spawn
  split
  · exact s
  have hcell := s.lives.addCell cellId .live
  refine {
    covered := { s.covered with }
    mid := { s.mid with }
    linked := s.linked.of_rows (Nat.le_succ _) (forall₂_refl .refl)
      (forall₂_refl .refl) (forall₂_same.mpr fun rr _ => ⟨rfl, rfl⟩)
    lives := hcell.addTask le_rfl (Nat.lt_succ_self _) (fun t ht => ?_) fun c hc hslot => ?_
    idle := s.idle }
  · exact (s.lives.started t ht).ne
  · rcases mem_append.mp hc with hc | hc
    · exact (s.lives.born c hc).2.ne'
    · obtain rfl := mem_singleton.mp hc
      cases hslot

theorem thread (tid : Nat) : Settled never (w.thread tid) := by
  unfold World.thread
  split
  · exact s
  split
  · exact {
      covered := { s.covered with }
      mid := { s.mid with }
      linked := { s.linked with }
      lives := s.lives.addTask (Nat.le_succ _) (Nat.lt_succ_self _)
        (fun t ht => (s.lives.started t ht).ne)
        fun c hc _ => (s.lives.born c hc).2.ne'
      idle := s.idle }
  · exact s

end Settled

/-! ## steps -/

section

theorem Acts.settled (s : Settled never w) (h : Acts env license w w') : Settled never w' := by
  induction h with
  | refl => exact s
  | tail _ hact ih => exact hact.settled ih

/-- Requests on their way, ledgers and the registry do not matter to cancellation. -/
theorem Settled.books (s : Settled never w) (ledgers : List Ledger) (calls : List Call)
    (registry : Nat → Option Binding) : Settled never { w with ledgers, calls, registry } :=
  s.sublists { s.covered with } (.refl _) (.refl _) (.refl _) (.refl _) rfl (by constructor <;> rfl)

/-- **Every step keeps the state settled.** -/
theorem settled_step (s : Settled never w)
    (h : step platform w op = some (r, w')) : Settled never w' := by
  cases step_course h with
  | books ledgers calls registry => exact s.books ledgers calls registry
  | acts _ _ hacts => exact (hacts ⟨fun _ => False, fun _ _ => False⟩).settled s
  | executed _ _ _ _ actor before after calls u _ _ hu =>
    have hentered : Settled never { w with ledgers := before } := s.books before w.calls w.registry
    have hdone : Settled never u := by
      rw [hu]
      exact (acts_execute actor _ _).settled hentered
    exact hdone.books after calls u.registry
  | killed => exact s.deliverKill
  | exited _ tid reason => exact s.exitTask tid reason
  | retired principal => exact s.finishRetirement principal
  | spawned cellId => exact s.spawn cellId
  | threaded tid => exact s.thread tid

theorem settled_boot : Settled never boot where
  covered := covered_boot
  mid := by constructor <;> simp [boot]
  linked := by constructor <;> simp [boot]
  lives := by constructor <;> simp [boot]
  idle := rfl

/-- **Every reachable state is settled.** -/
theorem settled_of_run (h : run (step platform) boot ops = some (responses, w)) : Settled never w :=
  run_invariant (fun _ _ _ _ hs hstep => settled_step hs hstep) h settled_boot

end

/-- **Children live**: every run returns, and in the state it reaches a live child has its live
owner slot and its root task, no two slots share a generation or a root task, and no two tasks an
id. -/
theorem children_live (platform : Platform) (ops : List Op) : ∃ responses w,
    run (step platform) boot ops = some (responses, w) ∧
      (∀ p ∈ w.prepared, p.state = .live → w.Lively p.child) ∧
      (w.cells.map (·.owner.generation)).Nodup ∧ (w.cells.map (·.owner.rootTid)).Nodup ∧
      (w.tasks.map (·.tid)).Nodup := by
  have hreturns : ∀ w op, ∃ r w', step platform w op = some (r, w') := by
    intro w op
    cases op <;> simp only [step] <;> first | exact ⟨_, _, rfl⟩ | (split <;> exact ⟨_, _, rfl⟩)
  obtain ⟨responses, w, hrun, s⟩ : ∃ responses w,
      run (step platform) boot ops = some (responses, w) ∧ Settled never w := by
    refine run_total (fun op _ w s => ?_) settled_boot
    obtain ⟨r, w', hstep⟩ := hreturns w op
    exact ⟨r, w', hstep, settled_step s hstep⟩
  refine ⟨responses, w, hrun, fun p hp hlive => ?_, s.lives.generations, s.lives.roots,
    s.lives.tids⟩
  exact (s.lives.live p hp hlive).resolve_left id

end Cellos.Session
