import Cellos.Session.Cascade

/-!
# Cellos.Session.Lives

Which cell a child record belongs to.

`Lives` follows the owner slots and the tasks: generations and thread ids are never
used twice, and a live child has a live slot and a root task.  `Linked` follows what the
records name: a child is found under the reference of its slot, and a holder or a
reserved peer belongs to the operation of the child it waits for.

`Drift` is what closing and cancelling can do to either.
-/

namespace Cellos.Session

open Lib List World Endpoint
open Relation (ReflTransGen)

/-! ## closing and cancelling -/

/-- Records went forward, and reserved owner slots may have been given back. -/
structure Drift (w w' : World) : Prop where
  endpoints : Forall₂ Wanes w.endpoints w'.endpoints
  prepared : Forall₂ Prepared.Moves w.prepared w'.prepared
  receipts : Forall₂ Receipt.Moves w.receipts w'.receipts
  cells : w'.cells.Sublist w.cells
  slots : (w'.cells.filter fun c => c.slot ≠ .reserved) = w.cells.filter fun c => c.slot ≠ .reserved
  tasks : w'.tasks = w.tasks
  nextTask : w'.nextTask = w.nextTask
  nextGeneration : w'.nextGeneration = w.nextGeneration

namespace Drift

variable {w : World}

theorem refl (w : World) : Drift w w where
  endpoints := forall₂_refl .refl
  prepared := forall₂_refl .refl
  receipts := forall₂_refl .refl
  cells := Sublist.refl _
  slots := rfl
  tasks := rfl
  nextTask := rfl
  nextGeneration := rfl

theorem trans (h : Drift w w') (h' : Drift w' w'') : Drift w w'' where
  endpoints := forall₂_trans .trans h.endpoints h'.endpoints
  prepared := forall₂_trans .trans h.prepared h'.prepared
  receipts := forall₂_trans .trans h.receipts h'.receipts
  cells := h'.cells.trans h.cells
  slots := h'.slots.trans h.slots
  tasks := h'.tasks.trans h.tasks
  nextTask := h'.nextTask.trans h.nextTask
  nextGeneration := h'.nextGeneration.trans h.nextGeneration

theorem touch (h : Touch w w') : Drift w w' where
  endpoints := h.endpoints.imp Kept.wanes
  prepared := h.prepared
  receipts := h.receipts
  cells := h.cells
  slots := h.slots
  tasks := h.tasks
  nextTask := h.nextTask
  nextGeneration := h.nextGeneration

theorem shut (r : Ref) {state : EndpointState} (h : state.Final) : Drift w (w.shut r state) := by
  have hends : Forall₂ Wanes w.endpoints (w.shut r state).endpoints := (w.inner_shut r h).endpoints
  rcases w.shut_cases r state with ⟨hsame, -⟩ | ⟨_, _, _, -, -, hshut⟩
  · rw [hsame]
    exact refl w
  · rw [hshut] at hends ⊢
    exact { refl w with endpoints := hends }

end Drift

variable {p : Prepared} {plan : CommitPlan}

theorem Edit.drift (h : Edit env w w') : Drift w w' := by
  cases h with
  | touch h => exact .touch h
  | mark => exact { Drift.refl w with }
  | close r state h =>
    obtain ⟨_, _, heq⟩ := w.closeOne_eq_shut env r state
    rw [heq]
    have hshut : Drift w (w.shut r state) := .shut r h
    exact { hshut with }
  | closeReservation r =>
    exact .shut r (by simp)

theorem Edits.drift (h : Edits env w w') : Drift w w' := by
  induction h with
  | refl => exact .refl w
  | tail _ he ih => exact ih.trans he.drift

/-! ## lifetimes -/

/-- The child has a live owner slot and its root task. -/
def World.Lively (w : World) (child : Child) : Prop :=
  (∃ c ∈ w.cells, c.slot = .live ∧ CellOwner.child c.owner = child) ∧
    ∃ t ∈ w.tasks, t.tid = child.rootTid ∧ t.rootTid = child.rootTid ∧ t.cell = child.principal

/-- Owner slots, tasks and live children. -/
structure Lives (exempt : Principal → Prop) (w : World) : Prop where
  generations : (w.cells.map (·.owner.generation)).Nodup
  roots : (w.cells.map (·.owner.rootTid)).Nodup
  born : ∀ c ∈ w.cells, c.owner.generation < w.nextGeneration ∧ c.owner.rootTid < w.nextTask
  tids : (w.tasks.map (·.tid)).Nodup
  started : ∀ t ∈ w.tasks, t.tid < w.nextTask
  unborn : ∀ c ∈ w.cells, c.slot = .reserved → ∀ t ∈ w.tasks, t.tid ≠ c.owner.rootTid
  live : ∀ p ∈ w.prepared, p.state = .live → exempt p.child.principal ∨ w.Lively p.child

namespace Lives

variable {exempt : Principal → Prop} {w w' : World}

theorem mem_cells (h : Drift w w') (hc : c ∈ w.cells) (hslot : c.slot ≠ .reserved) :
    c ∈ w'.cells := by
  have hmem : c ∈ w.cells.filter fun c => c.slot ≠ .reserved :=
    mem_filter.mpr ⟨hc, by simpa using hslot⟩
  rw [← h.slots] at hmem
  exact (mem_filter.mp hmem).1

variable (l : Lives exempt w)

include l

theorem drift (h : Drift w w') : Lives exempt w' where
  generations := l.generations.sublist (h.cells.map _)
  roots := l.roots.sublist (h.cells.map _)
  born := by
    rw [h.nextGeneration, h.nextTask]
    exact fun c hc => l.born c (h.cells.subset hc)
  tids := h.tasks ▸ l.tids
  started := by
    rw [h.tasks, h.nextTask]
    exact l.started
  unborn := by
    rw [h.tasks]
    exact fun c hc => l.unborn c (h.cells.subset hc)
  live := by
    intro p hp hlive
    obtain ⟨a, ha, hmoves⟩ := exists_old h.prepared hp
    rw [hmoves.child]
    refine (l.live a ha (hmoves.live hlive).1).imp_right ?_
    rintro ⟨⟨c, hc, hslot, hchild⟩, htask⟩
    exact ⟨⟨c, mem_cells h hc (by simp [hslot]), hslot, hchild⟩, h.tasks ▸ htask⟩

omit l in
/-- Owner slots and tasks that a live child needs are still there. -/
theorem lively_mono
    (hcells : ∀ c ∈ w.cells, c.slot = .live → c.owner.principal = child.principal → c ∈ w'.cells)
    (htasks : ∀ t ∈ w.tasks, t.tid = child.rootTid → t.rootTid = child.rootTid →
      t.cell = child.principal → t ∈ w'.tasks) (h : w.Lively child) : w'.Lively child := by
  obtain ⟨⟨c, hc, hslot, hchild⟩, t, ht, htid, hroot, hcell⟩ := h
  exact ⟨⟨c, hcells c hc hslot (by rw [← hchild]; rfl), hslot, hchild⟩,
    t, htasks t ht htid hroot hcell, htid, hroot, hcell⟩

theorem addCell (cellId : Nat) (slot : Slot) : Lives exempt { w with
      cells := w.cells ++ [{ owner := w.nextOwner cellId, slot }]
      nextTask := w.nextTask + 1
      nextGeneration := w.nextGeneration + 1 } where
  generations := nodup_map_concat l.generations fun c hc => (l.born c hc).1.ne
  roots := nodup_map_concat l.roots fun c hc => (l.born c hc).2.ne
  born := forall_mem_concat
    (fun c hc => ⟨Nat.lt_succ_of_lt (l.born c hc).1, Nat.lt_succ_of_lt (l.born c hc).2⟩)
    ⟨Nat.lt_succ_self _, Nat.lt_succ_self _⟩
  tids := l.tids
  started := fun t ht => Nat.lt_succ_of_lt (l.started t ht)
  unborn := forall_mem_concat l.unborn fun _ t ht => (l.started t ht).ne
  live := fun p hp hlive => (l.live p hp hlive).imp_right
    (lively_mono (fun _ hc _ _ => mem_append_left _ hc) fun _ ht _ _ _ => ht)

theorem addTask {t : Task} {nextTask : Nat} (hnext : w.nextTask ≤ nextTask)
    (hlt : t.tid < nextTask) (hfresh : ∀ t' ∈ w.tasks, t'.tid ≠ t.tid)
    (hunborn : ∀ c ∈ w.cells, c.slot = .reserved → t.tid ≠ c.owner.rootTid) :
    Lives exempt { w with tasks := w.tasks ++ [t], nextTask } where
  generations := l.generations
  roots := l.roots
  born := fun c hc => ⟨(l.born c hc).1, (l.born c hc).2.trans_le hnext⟩
  tids := nodup_map_concat l.tids hfresh
  started := forall_mem_concat (fun t' ht' => (l.started t' ht').trans_le hnext) hlt
  unborn := fun c hc hslot => forall_mem_concat (l.unborn c hc hslot) (hunborn c hc hslot)
  live := fun p hp hlive => (l.live p hp hlive).imp_right
    (lively_mono (w := w) (fun _ hc _ _ => hc) fun _ ht _ _ _ => mem_append_left _ ht)

theorem setSlot (hslot : slot ≠ .reserved) (hexempt : ∀ x, exempt x → exempt' x)
    (hgone : slot = .live ∨ exempt' owner.principal) : Lives exempt' { w with
      cells := updateFirst (fun c => c.owner = owner) (fun c => { c with slot }) w.cells } where
  generations := by
    rw [map_updateFirst]
    · exact l.generations
    · exact fun _ _ => rfl
  roots := by
    rw [map_updateFirst]
    · exact l.roots
    · exact fun _ _ => rfl
  born := by
    intro c hc
    rcases mem_updateFirst hc with hc | ⟨a, ha, rfl⟩
    · exact l.born c hc
    · exact l.born a (mem_of_find?_eq_some ha)
  tids := l.tids
  started := l.started
  unborn := by
    intro c hc hreserved
    rcases mem_updateFirst hc with hc | ⟨_, -, rfl⟩
    · exact l.unborn c hc hreserved
    · exact absurd hreserved hslot
  live := by
    intro p hp hlive
    rcases l.live p hp hlive with hold | ⟨⟨c, hc, hlive', hchild⟩, htask⟩
    · exact .inl (hexempt _ hold)
    rcases mem_updateFirst_of_mem (fun c => { c with slot }) hc with hc | hfound
    · exact .inr ⟨⟨c, hc, hlive', hchild⟩, htask⟩
    have howner : c.owner = owner := by simpa using find?_some hfound
    rcases hgone with rfl | hgone
    · exact .inr ⟨⟨_, apply_mem_updateFirst _ hfound, rfl, hchild⟩, htask⟩
    · refine .inl ?_
      rw [← hchild, howner]
      exact hgone

theorem sublists {cells : List Cell} {tasks : List Task}
    (hcells : cells.Sublist w.cells) (htasks : tasks.Sublist w.tasks)
    (hkeep : ∀ p ∈ w.prepared, p.state = .live →
      (∀ c ∈ w.cells, c.slot = .live → c.owner.principal = p.child.principal → c ∈ cells) ∧
      ∀ t ∈ w.tasks, t.tid = p.child.rootTid → t.rootTid = p.child.rootTid →
        t.cell = p.child.principal → t ∈ tasks) :
    Lives exempt { w with cells, tasks } where
  generations := l.generations.sublist (hcells.map _)
  roots := l.roots.sublist (hcells.map _)
  born := fun c hc => l.born c (hcells.subset hc)
  tids := l.tids.sublist (htasks.map _)
  started := fun t ht => l.started t (htasks.subset ht)
  unborn := fun c hc hslot t ht => l.unborn c (hcells.subset hc) hslot t (htasks.subset ht)
  live := by
    intro p hp hlive
    obtain ⟨hcell, htask⟩ := hkeep p hp hlive
    exact (l.live p hp hlive).imp_right (lively_mono hcell htask)

theorem of_prepared (hcells : w'.cells = w.cells) (htasks : w'.tasks = w.tasks)
    (hnextTask : w'.nextTask = w.nextTask) (hnextGeneration : w'.nextGeneration = w.nextGeneration)
    (hlive : ∀ p ∈ w'.prepared, p.state = .live →
      (∃ q ∈ w.prepared, q.state = .live ∧ q.child = p.child) ∨ w.Lively p.child) :
    Lives exempt w' where
  generations := hcells ▸ l.generations
  roots := hcells ▸ l.roots
  born := by
    rw [hcells, hnextTask, hnextGeneration]
    exact l.born
  tids := htasks ▸ l.tids
  started := by
    rw [htasks, hnextTask]
    exact l.started
  unborn := by
    rw [hcells, htasks]
    exact l.unborn
  live := by
    intro p hp hp'
    have hmono : w.Lively p.child → w'.Lively p.child :=
      lively_mono (fun c hc _ _ => hcells ▸ hc) fun t ht _ _ _ => htasks ▸ ht
    rcases hlive p hp hp' with ⟨q, hq, hq', hchild⟩ | hlively
    · rw [← hchild]
      exact (l.live q hq hq').imp_right (hchild ▸ hmono)
    · exact .inr (hmono hlively)

omit l

end Lives

/-! ## commits -/

namespace World

variable {w : World}

/-- The owner slot of a commit was still reserved. -/
theorem checkCommit_reserved
    (h : w.checkCommit env p = .ok plan) : p.publication = some plan.publication ∧
      ∃ c ∈ w.cells, c.owner = plan.publication.owner ∧ c.slot = .reserved := by
  simp only [checkCommit, bind_eq_ok, require_eq_ok, demand_eq_ok, pure_eq_ok] at h
  obtain ⟨-, -, _, -, -, -, _, hpublication, _, hreserved, _, -, _, -, _, -,
    -, -, -, -, staged, -, -, -, -, -, moves, -, rfl⟩ := h
  refine ⟨hpublication, ?_⟩
  simpa [ownerReserved] using hreserved.1

/-- What every turn of the loops of a commit does to the world, the loops do. -/
theorem applyCommit_related {r : World → World → Prop} (p : Prepared) (plan : CommitPlan)
    (hrefl : ∀ u, r u u) (htrans : ∀ s t u, r s t → r t u → r s u)
    (hmove : ∀ u, ∀ m ∈ plan.moves, r u (u.moveWriter m)) (henter : ∀ u s, r u (u.admitStaged s))
    (hcommit : ∀ u x, r u (u.setReceipt x fun rr => { rr with state := .committed })) :
    ∃ v, r w v ∧ w.applyCommit p plan = (v.setPrepared p.reference fun p =>
      { p with publication := none, context := [], state := .live }).publish
        plan.publication p.context := by
  have hmoves := foldl_related hrefl htrans hmove w
  have hstaged := foldl_related hrefl htrans (fun u s (_ : s ∈ plan.staged) => henter u s)
  have hreceipts := foldl_related hrefl htrans (fun u x (_ : x ∈ plan.receipts) => hcommit u x)
  exact ⟨_, htrans _ _ _ (htrans _ _ _ hmoves (hstaged _)) (hreceipts _), rfl⟩

/-- A commit changes holders, receipts and rings, makes the child live and publishes it. -/
theorem applyCommit_frame (w : World) (p : Prepared) (plan : CommitPlan) :
    ∃ endpoints rings fault receipts, w.applyCommit p plan =
      ({ w with endpoints, rings, fault, receipts }.setPrepared p.reference fun p =>
        { p with publication := none, context := [], state := .live }).publish
          plan.publication p.context := by
  let r (u v : World) : Prop := ∃ endpoints rings fault receipts,
    v = { u with endpoints, rings, fault, receipts }
  have htrans : ∀ s t u, r s t → r t u → r s u := by
    rintro s t u ⟨_, _, _, _, rfl⟩ ⟨_, _, _, _, rfl⟩
    exact ⟨_, _, _, _, rfl⟩
  have henter (u : World) (s : Nat × Endpoint) : r u (u.admitStaged s) := by
    unfold admitStaged
    split <;> exact ⟨_, _, _, _, rfl⟩
  obtain ⟨_, ⟨_, _, _, _, rfl⟩, heq⟩ := applyCommit_related p plan
    (fun u => ⟨_, _, _, _, rfl⟩) htrans (fun u m _ => ⟨_, _, _, _, rfl⟩) henter
    (fun u x => ⟨_, _, _, _, rfl⟩)
  exact ⟨_, _, _, _, heq⟩

end World

namespace Lives

theorem publish (l : Lives exempt w) (context : Bytes)
    (h : ∃ c ∈ w.cells, c.owner = publication.owner ∧ c.slot = .reserved) :
    Lives exempt (w.publish publication context) ∧
      (w.publish publication context).Lively (CellOwner.child publication.owner) := by
  obtain ⟨c, hc, howner, hslot⟩ := h
  obtain ⟨a, ha⟩ : ∃ a, w.cells.find? (fun c => c.owner = publication.owner) = some a :=
    Option.isSome_iff_exists.mp (find?_isSome.mpr ⟨c, hc, by simpa using howner⟩)
  have haowner : a.owner = publication.owner := by simpa using find?_some ha
  have hset : Lives exempt { w with
      cells := updateFirst (fun c => c.owner = publication.owner) (fun c => { c with slot := .live })
        w.cells } :=
    l.setSlot (by simp) (fun _ => id) (.inl rfl)
  have hmem := apply_mem_updateFirst (fun c : Cell => { c with slot := .live }) ha
  refine ⟨hset.addTask (t := ⟨publication.owner.rootTid, publication.owner.principal,
    publication.owner.rootTid, some context, publication.childStdio⟩) le_rfl ?_ ?_ ?_, ?_⟩
  · exact howner ▸ (l.born c hc).2
  · exact howner ▸ l.unborn c hc hslot
  · -- thread ids of slots are distinct, and the slot of this one is live now
    intro c' hc' hreserved heq
    have hsame : c' = { a with slot := .live } :=
      inj_on_of_nodup_map hset.roots hc' hmem (heq.symm.trans (by rw [haowner]))
    rw [hsame] at hreserved
    cases hreserved
  · refine ⟨⟨_, hmem, rfl, by rw [haowner]⟩, _, mem_append_right _ (mem_singleton_self _),
      rfl, rfl, rfl⟩

/-- **A committed child is live**, with its slot and its root task. -/
theorem commit (l : Lives exempt w) (hp : w.PreparedAt p.reference p)
    (hpublished : ∀ q, p.publication = some q → p.child = CellOwner.child q.owner)
    (hplan : w.checkCommit env p = .ok plan) : Lives exempt (w.applyCommit p plan) := by
  obtain ⟨hpublication, hreserved⟩ := checkCommit_reserved hplan
  obtain ⟨hlives, hlively⟩ := l.publish p.context hreserved
  obtain ⟨_, _, _, _, heq⟩ := w.applyCommit_frame p plan
  rw [heq]
  refine hlives.of_prepared rfl rfl rfl rfl fun q hq hlive => ?_
  rcases mem_updateFirst hq with hold | ⟨a, ha, rfl⟩
  · exact .inl ⟨q, hold, hlive, rfl⟩
  cases hp.symm.trans ha
  refine .inr ?_
  rw [hpublished _ hpublication]
  exact hlively

end Lives

/-! ## what the records name -/

/-- The child records, holders and receipts that belong together. -/
structure Linked (w : World) : Prop where
  references : ∀ p ∈ w.prepared, p.reference = p.child.preparedRef
  generations : ∀ p ∈ w.prepared, p.child.publicationGeneration < w.nextGeneration
  published : ∀ p ∈ w.prepared, ∀ q, p.publication = some q → p.child = CellOwner.child q.owner
  stagedFor : ∀ e ∈ w.endpoints, ∀ c, e.prepared = some c →
    c.publicationGeneration < w.nextGeneration
  receiptsFor : ∀ rr ∈ w.receipts, rr.prepared.generation < w.nextGeneration
  holders : ∀ e ∈ w.endpoints, ∀ p ∈ w.prepared, e.prepared = some p.child →
    e.operation = p.operation
  producers : ∀ rr ∈ w.receipts, ∀ p ∈ w.prepared, p.state = .staged →
    rr.prepared = p.reference → ∀ e ∈ w.endpoints,
    e.reference = rr.producers.1 ∨ e.reference = rr.producers.2 → e.operation = p.operation

/-- A child record of the same child, which is not staged again. -/
structure Prepared.Goes (a b : Prepared) : Prop where
  reference : b.reference = a.reference
  child : b.child = a.child
  operation : b.operation = a.operation
  publication : ∀ q, b.publication = some q → ∃ q', a.publication = some q' ∧ q'.owner = q.owner
  staged : b.state = .staged → a.state = .staged

theorem Prepared.Moves.goes (a b : Prepared) (h : a.Moves b) : a.Goes b :=
  { h with }

theorem Prepared.Goes.refl (a : Prepared) : a.Goes a := (Prepared.Moves.refl a).goes

/-- A receipt for the same child with the same peers. -/
structure Receipt.Names (a b : Receipt) : Prop where
  prepared : b.prepared = a.prepared
  producers : b.producers = a.producers

namespace Linked

variable (l : Linked w)

include l

theorem of_rows (hgeneration : w.nextGeneration ≤ w'.nextGeneration)
    (hends : Forall₂ Names w.endpoints w'.endpoints)
    (hprepared : Forall₂ Prepared.Goes w.prepared w'.prepared)
    (hreceipts : Forall₂ Receipt.Names w.receipts w'.receipts) : Linked w' where
  references := by
    intro p hp
    obtain ⟨a, ha, hgoes⟩ := exists_old hprepared hp
    rw [hgoes.reference, hgoes.child]
    exact l.references a ha
  generations := by
    intro p hp
    obtain ⟨a, ha, hgoes⟩ := exists_old hprepared hp
    rw [hgoes.child]
    exact (l.generations a ha).trans_le hgeneration
  published := by
    intro p hp q hq
    obtain ⟨a, ha, hgoes⟩ := exists_old hprepared hp
    obtain ⟨q', hq', howner⟩ := hgoes.publication q hq
    rw [hgoes.child, ← howner]
    exact l.published a ha q' hq'
  stagedFor := by
    intro e he c hc
    obtain ⟨a, ha, hnames⟩ := exists_old hends he
    exact (l.stagedFor a ha c (hnames.staged c hc)).trans_le hgeneration
  receiptsFor := by
    intro rr hrr
    obtain ⟨a, ha, hnames⟩ := exists_old hreceipts hrr
    rw [hnames.prepared]
    exact (l.receiptsFor a ha).trans_le hgeneration
  holders := by
    intro e he p hp hstaged
    obtain ⟨a, ha, hnames⟩ := exists_old hends he
    obtain ⟨b, hb, hgoes⟩ := exists_old hprepared hp
    rw [hnames.operation, hgoes.operation]
    exact l.holders a ha b hb (hgoes.child ▸ hnames.staged _ hstaged)
  producers := by
    intro rr hrr p hp hstaged hfor e he href
    obtain ⟨a, ha, hnames⟩ := exists_old hends he
    obtain ⟨b, hb, hgoes⟩ := exists_old hprepared hp
    obtain ⟨c, hc, hrow⟩ := exists_old hreceipts hrr
    rw [hnames.reference, hrow.producers] at href
    rw [hrow.prepared, hgoes.reference] at hfor
    rw [hnames.operation, hgoes.operation]
    exact l.producers c hc b hb (hgoes.staged hstaged) hfor a ha href

theorem drift (h : Drift w w') : Linked w' :=
  l.of_rows h.nextGeneration.ge (h.endpoints.imp fun _ _ h => h.toNames)
    (h.prepared.imp Prepared.Moves.goes) (h.receipts.imp fun _ _ h => ⟨h.prepared, h.producers⟩)

theorem sublists (hgeneration : w'.nextGeneration = w.nextGeneration)
    (hends : w'.endpoints.Sublist w.endpoints) (hprepared : w'.prepared.Sublist w.prepared)
    (hreceipts : w'.receipts.Sublist w.receipts) : Linked w' where
  references := fun p hp => l.references p (hprepared.subset hp)
  generations := hgeneration ▸ fun p hp => l.generations p (hprepared.subset hp)
  published := fun p hp => l.published p (hprepared.subset hp)
  stagedFor := hgeneration ▸ fun e he => l.stagedFor e (hends.subset he)
  receiptsFor := hgeneration ▸ fun rr hrr => l.receiptsFor rr (hreceipts.subset hrr)
  holders := fun e he p hp => l.holders e (hends.subset he) p (hprepared.subset hp)
  producers := fun rr hrr p hp hstaged hfor e he =>
    l.producers rr (hreceipts.subset hrr) p (hprepared.subset hp) hstaged hfor e (hends.subset he)

theorem extend (hrecords : (w.prepared.map (·.reference)).Nodup)
    (hgeneration : w'.nextGeneration = w.nextGeneration)
    (hends : w'.endpoints = w.endpoints ++ es) (hprepared : w'.prepared = w.prepared)
    (hreceipts : w'.receipts = w.receipts ++ rs) (hstaged : ∀ e ∈ es, ∀ c, e.prepared = some c →
      ∃ p ∈ w.prepared, p.child = c ∧ e.operation = p.operation)
    (hpeers : ∀ rr ∈ w.receipts, ∀ e ∈ es,
      e.reference ≠ rr.producers.1 ∧ e.reference ≠ rr.producers.2)
    (hpending : ∀ rr ∈ rs, ∃ p ∈ w.prepared, rr.prepared = p.reference ∧
      ∀ e ∈ w.endpoints ++ es, e.reference = rr.producers.1 ∨ e.reference = rr.producers.2 →
        e.operation = p.operation) : Linked w' where
  references := hprepared ▸ l.references
  generations := by
    rw [hprepared, hgeneration]
    exact l.generations
  published := hprepared ▸ l.published
  stagedFor := by
    rw [hends, hgeneration]
    intro e he c hc
    rcases mem_append.mp he with he | he
    · exact l.stagedFor e he c hc
    · obtain ⟨p, hp, rfl, -⟩ := hstaged e he c hc
      exact l.generations p hp
  receiptsFor := by
    rw [hreceipts, hgeneration]
    intro rr hrr
    rcases mem_append.mp hrr with hrr | hrr
    · exact l.receiptsFor rr hrr
    · obtain ⟨p, hp, hfor, -⟩ := hpending rr hrr
      rw [hfor, l.references p hp]
      exact l.generations p hp
  holders := by
    rw [hends, hprepared]
    intro e he p hp hchild
    rcases mem_append.mp he with he | he
    · exact l.holders e he p hp hchild
    obtain ⟨q, hq, hsame, hoperation⟩ := hstaged e he _ hchild
    have heq : q = p := inj_on_of_nodup_map hrecords hq hp
      (by rw [l.references q hq, l.references p hp, hsame])
    rw [hoperation, heq]
  producers := by
    rw [hends, hprepared, hreceipts]
    intro rr hrr p hp hstate hfor e he href
    rcases mem_append.mp hrr with hrr | hrr
    · rcases mem_append.mp he with he | he
      · exact l.producers rr hrr p hp hstate hfor e he href
      · obtain ⟨h1, h2⟩ := hpeers rr hrr e he
        exact absurd href (by simp [h1, h2])
    · obtain ⟨q, hq, hfor', hoperation⟩ := hpending rr hrr
      have heq : q = p := inj_on_of_nodup_map hrecords hq hp (hfor'.symm.trans hfor)
      rw [← heq]
      exact hoperation e he href

theorem addPrepared (h : Fresh w cellId p) : Linked (w.addPrepared cellId p) := by
  have hfresh : p.child.publicationGeneration = w.nextGeneration := by
    rw [h.child]
    rfl
  have hreference : p.reference.generation = w.nextGeneration := by
    rw [h.reference]
    exact hfresh
  exact {
    references := forall_mem_concat l.references h.reference
    generations := forall_mem_concat (fun q hq => Nat.lt_succ_of_lt (l.generations q hq))
      (hfresh ▸ Nat.lt_succ_self _)
    published := by
      refine forall_mem_concat l.published fun x hx => ?_
      obtain ⟨publication, hpublication, howner⟩ := h.publication
      cases hpublication.symm.trans hx
      rw [howner, h.child]
    stagedFor := fun e he c hc => Nat.lt_succ_of_lt (l.stagedFor e he c hc)
    receiptsFor := fun rr hrr => Nat.lt_succ_of_lt (l.receiptsFor rr hrr)
    holders := fun e he => forall_mem_concat (l.holders e he) fun hchild =>
      absurd (l.stagedFor e he _ hchild) (by rw [hfresh]; exact Nat.lt_irrefl _)
    producers := by
      intro rr hrr
      refine forall_mem_concat (l.producers rr hrr) fun _ hfor => absurd (l.receiptsFor rr hrr) ?_
      rw [hfor, hreference]
      exact Nat.lt_irrefl _ }

end Linked

/-- What a commit does to a holder record: the peers of its moves are opened. -/
structure Endpoint.Handed (moves : List (Ref × Ref)) (a b : Endpoint) : Prop
    extends Names a b where
  held : b.held → a.held ∨ ∃ m ∈ moves, a.reference = m.1

namespace World

variable {w : World}

theorem handed_moveWriter (hm : m ∈ moves) :
    Forall₂ (Handed moves) w.endpoints (w.moveWriter m).endpoints := by
  have hopen : Forall₂ (Handed moves) w.endpoints
      (w.setEndpoint m.1 fun e => { e with state := .opened, enabled := true }).endpoints := by
    refine forall₂_updateFirst (fun a => ⟨.refl a, .inl⟩) fun a ha => ?_
    exact ⟨⟨rfl, rfl, fun _ => id⟩, fun _ => .inr ⟨m, hm, (mem_of_find ha).2⟩⟩
  have hclose (u : World) : Forall₂ Wanes u.endpoints
      (u.setEndpoint m.2 fun e => { e with state := .closed }).endpoints :=
    forall₂_updateFirst .refl fun a _ => ⟨⟨rfl, rfl, fun _ => id⟩, by simp [held]⟩
  exact forall₂_comp (fun a b c hab hbc =>
    ⟨hab.toNames.trans _ _ _ hbc.toNames, hab.held ∘ hbc.held⟩) hopen (hclose _)

theorem wanes_admitStaged (s : Nat × Endpoint) :
    Forall₂ Wanes w.endpoints (w.admitStaged s).endpoints := by
  have hadmitted (u : World) : Forall₂ Wanes u.endpoints
      (u.setEndpoint s.2.reference fun e => { e with prepared := none }).endpoints :=
    forall₂_updateFirst .refl fun a _ => ⟨⟨rfl, rfl, by simp⟩, id⟩
  have hclose : Forall₂ Wanes w.endpoints
      (w.setEndpoint s.2.parent fun e => { e with state := .closed }).endpoints :=
    forall₂_updateFirst .refl fun a _ => ⟨⟨rfl, rfl, fun _ => id⟩, by simp [held]⟩
  unfold admitStaged
  split
  · exact forall₂_trans .trans hclose (hadmitted _)
  · exact hadmitted { w with rings := _, fault := _ }

/-- The holders after a commit, row by row. -/
theorem handed_applyCommit (p : Prepared) (plan : CommitPlan) :
    Forall₂ (Handed plan.moves) w.endpoints (w.applyCommit p plan).endpoints := by
  have hcomp (a b c : Endpoint) (h : a.Handed plan.moves b) (h' : b.Handed plan.moves c) :
      a.Handed plan.moves c := by
    refine ⟨h.toNames.trans _ _ _ h'.toNames, fun hc => ?_⟩
    rcases h'.held hc with hb | hm
    · exact h.held hb
    · rw [h.reference] at hm
      exact .inr hm
  obtain ⟨v, hv, heq⟩ := applyCommit_related p plan
    (r := fun u v => Forall₂ (Handed plan.moves) u.endpoints v.endpoints)
    (fun u => forall₂_same.mpr fun a _ => ⟨.refl a, .inl⟩) (fun _ _ _ => forall₂_trans hcomp)
    (fun u m => handed_moveWriter)
    (fun u s => (wanes_admitStaged s).imp fun a b h => ⟨h.toNames, .inl ∘ h.held⟩)
    (fun u x => forall₂_same.mpr fun a _ => ⟨.refl a, .inl⟩)
  rw [heq]
  exact hv

theorem names_applyCommit (p : Prepared) (plan : CommitPlan) :
    Forall₂ Receipt.Names w.receipts (w.applyCommit p plan).receipts := by
  have hrefl (u : World) : Forall₂ Receipt.Names u.receipts u.receipts :=
    forall₂_same.mpr fun rr _ => ⟨rfl, rfl⟩
  have henter (u : World) (s : Nat × Endpoint) :
      Forall₂ Receipt.Names u.receipts (u.admitStaged s).receipts := by
    unfold admitStaged
    split <;> exact hrefl u
  obtain ⟨v, hv, heq⟩ := applyCommit_related p plan
    (r := fun u v => Forall₂ Receipt.Names u.receipts v.receipts) hrefl
    (fun _ _ _ => forall₂_trans fun _ _ _ h h' =>
      ⟨h'.prepared.trans h.prepared, h'.producers.trans h.producers⟩)
    (fun u _ _ => hrefl u) henter
    (fun u x => forall₂_updateFirst (fun _ => ⟨rfl, rfl⟩) fun _ _ => ⟨rfl, rfl⟩)
  rw [heq]
  exact hv

end World

end Cellos.Session
