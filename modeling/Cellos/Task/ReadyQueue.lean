import Cellos.Lib

/-!
# Cellos.Task.ReadyQueue

The ready queues of the harts (`hart_local/ready.rs`).

Each hart keeps one queue of task ids for each priority.  Room in a queue may be promised: to
a child that is prepared and not yet published, and to a task that a hart took out to run and
may still put back.  Ordinary pushes and steals grow the queue before they use promised room,
so a promise is kept without allocating.

A task that is put back must not lose its turn.  `rollbackAhead` counts the entries that stand
before its place, and every removal keeps the count.  `Held` is the queue that the task never
left; the code's queue and count are `Held` without the task.
-/

namespace Cellos.ReadyQueue

open Lib List Option

abbrev Hart := Fin 2

abbrev Priority := Fin 256

/-- The priorities below `RT_PRIO`, the highest first. -/
def belowRealTime : List Priority := [1, 0]

/-- A queue with the claims against its room (`VecDeque`, `BucketClaims`). -/
structure Bucket where
  /-- The hart's map has the key. -/
  present : Bool
  queue : List Nat
  capacity : Nat
  (publication rollback rollbackAhead : Nat)
  created : Bool
  /-- Publication reservations that were neither committed nor dropped. -/
  armed : Nat
  /-- The task of the selection that was neither restored nor dropped. -/
  selected : Option Nat

namespace Bucket

variable (b : Bucket)

def promised : Nat := b.publication + b.rollback

/-- `entry().or_default()`, and `reserve(wanted)` when the room is short: the heap gives `extra`
more than is asked for. -/
def grow (wanted extra : Nat) : Bucket :=
  { b with
    present := true
    capacity :=
      if b.capacity < b.queue.length + wanted then b.queue.length + wanted + extra else b.capacity }

/-- The same with `try_reserve(wanted)`, which the heap may refuse. -/
def room (wanted : Nat) (heap : Option Nat) : Option Bucket :=
  if b.capacity < b.queue.length + wanted then heap.map (b.grow wanted) else some (b.grow wanted 0)

def pushBack (tid : Nat) : Bucket := { b with queue := b.queue ++ [tid] }

def vacate (index : Nat) : Bucket :=
  { b with
    rollback := b.rollback + 1
    rollbackAhead := index
    queue := b.queue.eraseIdx index
    selected := b.queue[index]? }

/-- The assertion of `reinsert` may fail. -/
def reinsert (tid : Nat) : Option Bucket :=
  if b.rollback ≠ 0 ∧ b.queue.length < b.capacity then
    some { b with
      rollback := b.rollback - 1
      queue := b.queue.insertIdx (min b.rollbackAhead b.queue.length) tid
      selected := none }
  else none

def noteRemoved (index : Nat) : Bucket :=
  { b with
    rollbackAhead :=
      if b.rollback ≠ 0 ∧ index < b.rollbackAhead then b.rollbackAhead - 1 else b.rollbackAhead }

def removeTracked (index : Nat) : Bucket :=
  { b.noteRemoved index with queue := b.queue.eraseIdx index }

def forgetTracked (tid : Nat) : Bucket :=
  { b with
    queue := b.queue.filter (· ≠ tid)
    rollbackAhead :=
      if b.rollback ≠ 0 then b.rollbackAhead - (b.queue.take b.rollbackAhead).count tid
      else b.rollbackAhead }

def remove : Bucket := { b with present := false, queue := [], capacity := 0 }

def dropUnusedBucket : Bucket :=
  if b.publication = 0 ∧ b.rollback = 0 ∧ b.created ∧ b.present ∧ b.queue = [] then
    { b.remove with created := false }
  else b

def dropUnusedBucketIfNew (existed : Bool) : Bucket :=
  if existed = false ∧ b.promised = 0 ∧ b.present ∧ b.queue = [] then b.remove else b

/-- `PublicationReservation::reserve`. -/
def reserve (heap : Option Nat) : Bucket :=
  match b.room (b.promised + 1) heap with
  | none => { b with present := true }.dropUnusedBucketIfNew b.present
  | some u =>
    if b.publication = 2 ^ 32 - 1 then u.dropUnusedBucketIfNew b.present
    else { u with
      created := u.created || !b.present
      publication := b.publication + 1
      armed := b.armed + 1 }

/-- `PublicationReservation::commit`; its assertions may fail. -/
def commit (tid : Nat) : Option Bucket :=
  if b.present ∧ b.publication ≠ 0 ∧ b.queue.length < b.capacity then
    some { b.pushBack tid with
      publication := b.publication - 1
      created := false
      armed := b.armed - 1 }
  else none

/-- A `PublicationReservation` is dropped. -/
def release : Bucket :=
  { b with publication := b.publication - 1, armed := b.armed - 1 }.dropUnusedBucket

/-- A `SelectionReservation` is dropped: the selected task runs. -/
def settle : Bucket := { b with rollback := b.rollback - 1, selected := none }

/-- `restore_selection`; the bucket has to be there. -/
def restoreSelection (tid : Nat) : Option Bucket :=
  if b.present then b.reinsert tid else none

/-- `push_on_hart` -/
def push (tid extra : Nat) : Bucket := (b.grow (b.promised + 1) extra).pushBack tid

end Bucket

/-! ## all harts -/

abbrev World := Hart → Priority → Bucket

def boot : World := fun _ _ => ⟨false, [], 0, 0, 0, 0, false, 0, none⟩

/-- The task has its context on another hart: `running` lists what a hart runs, has selected,
executes or is still saving. -/
def ownedByAnotherHart (running : Hart → List Nat) (hart : Hart) (tid : Nat) : Bool :=
  tid ≠ 0 && (finRange 2).any fun other => other ≠ hart && (running other).contains tid

/-- A task the hart may take, by its owner and by the predicate of the caller. -/
def permits (running : Hart → List Nat) (eligible : Nat → Bool) (hart : Hart) (tid : Nat) : Bool :=
  !ownedByAnotherHart running hart tid && eligible tid

namespace World

variable (w : World) (permits : Nat → Bool) (heap : Nat → Option Nat)

def set (hart : Hart) (priority : Priority) (b : Bucket) : World := fun x p =>
  if x = hart ∧ p = priority then b else w x p

/-- `pick_local_eligible_with`: where the first eligible task of the highest priority stands. -/
def pick (hart : Hart) : Option (Priority × Nat) := (finRange 256).reverse.findSome? fun priority =>
    ((w hart priority).queue.findIdx? permits).map (priority, ·)

def removeFromAll (tid : Nat) : World := fun hart priority =>
  (w hart priority).forgetTracked tid

/-- At most `n` tasks move from one bucket to another: how many may still move, and both buckets.
After a refused growth none may. -/
def stealAt : Nat → Bucket → Bucket → Nat × Bucket × Bucket
  | 0, victim, thief => (0, victim, thief)
  | n + 1, victim, thief =>
    match victim.queue.findIdx? permits with
    | none => (n + 1, victim, thief)
    | some index =>
      match thief.room (thief.promised + 1) (heap n) with
      | none => (0, victim, { thief with present := true }.dropUnusedBucketIfNew thief.present)
      | some grown =>
        stealAt n (victim.removeTracked index) (grown.pushBack (victim.queue.getD index 0))

def stealLoop (victim thief : Hart) : List Priority → Nat → World → World
  | [], _, w => w
  | priority :: rest, n, w =>
    let (left, v, t) := stealAt permits heap n (w victim priority) (w thief priority)
    stealLoop victim thief rest left ((w.set victim priority v).set thief priority t)

/-- How many tasks of the hart may be stolen. -/
def stealable (victim : Hart) : Nat :=
  (belowRealTime.map fun priority => (w victim priority).queue.countP permits).sum

/-- `steal_from_busiest_with`; `heap n` answers the growth when `n` more tasks may follow. -/
def steal (thief : Hart) : World :=
  let victim : Hart := ⟨1 - thief, by omega⟩
  let stealable := w.stealable permits victim
  if stealable = 0 then w
  else stealLoop permits heap victim thief belowRealTime (max (stealable / 2) 1) w

end World

/-- What a waker, or the holder of a reservation, does to one bucket. -/
inductive Action where
  | reserve (heap : Option Nat)
  | commit (tid : Nat)
  | release
  | push (tid extra : Nat)
  | restore
  | settle

/-- A call needs the reservation it is about.  There is no next state when an assertion fails. -/
def Bucket.act (b : Bucket) : Action → Option Bucket
  | .reserve heap => some (b.reserve heap)
  | .commit tid => if b.armed = 0 then some b else b.commit tid
  | .release => some (if b.armed = 0 then b else b.release)
  | .push tid extra => some (b.push tid extra)
  | .restore =>
    match b.selected with
    | none => some b
    | some tid => b.restoreSelection tid
  | .settle => some (if b.selected = none then b else b.settle)

inductive Op where
  | act (hart : Hart) (priority : Priority) (action : Action)
  | pick (hart : Hart) (permits : Nat → Bool)
  | steal (thief : Hart) (permits : Nat → Bool) (heap : Nat → Option Nat)
  | removeFromAll (tid : Nat)

/-- A hart makes one selection at a time: `vacate` asserts that none is pending in the bucket. -/
def step (w : World) : Op → Option (Unit × World)
  | .act hart priority action =>
    ((w hart priority).act action).map fun b => ((), w.set hart priority b)
  | .pick hart permits =>
    match w.pick permits hart with
    | some (priority, index) =>
      let b := w hart priority
      some ((), if b.selected = none then w.set hart priority (b.vacate index) else w)
    | none => some ((), w)
  | .steal thief permits heap => some ((), w.steal permits heap thief)
  | .removeFromAll tid => some ((), w.removeFromAll tid)

/-! ## promises -/

/-- The room covers what is queued and promised, and a promise stands for a reservation. -/
@[grind cases]
structure Bucket.Honoured (b : Bucket) : Prop where
  covered : b.queue.length + b.promised ≤ b.capacity
  published : b.publication = b.armed
  vacated : b.rollback = b.selected.toList.length
  absent : b.present = false → b.capacity = 0

open Bucket

theorem Bucket.exists_grow {b : Bucket} {heap : Option Nat}
    (hroom : b.room wanted heap = some u) : ∃ extra, u = b.grow wanted extra := by
  unfold room at hroom
  split at hroom
  · obtain ⟨extra, -, rfl⟩ := map_eq_some_iff.mp hroom
    exact ⟨extra, rfl⟩
  · exact ⟨0, (some.inj hroom).symm⟩

namespace Bucket.Honoured

variable {b : Bucket} (h : b.Honoured)

include h

open Honoured

theorem grow (wanted extra : Nat) : (b.grow wanted extra).Honoured := by
  grind [grow, promised, mk]

theorem dropUnusedBucketIfNew (existed : Bool) : (b.dropUnusedBucketIfNew existed).Honoured := by
  grind [dropUnusedBucketIfNew, remove, promised, mk]

/-- A growth that was refused leaves no key behind. -/
theorem refused : ({ b with present := true }.dropUnusedBucketIfNew b.present).Honoured := by
  have hpresent : Honoured { b with present := true } :=
    { h with absent := nofun }
  exact hpresent.dropUnusedBucketIfNew b.present

theorem reserve (heap : Option Nat) : (b.reserve heap).Honoured := by
  unfold Bucket.reserve
  split
  · exact h.refused
  next hroom =>
  obtain ⟨extra, rfl⟩ := exists_grow hroom
  split
  · exact (h.grow _ extra).dropUnusedBucketIfNew _
  · grind [Bucket.grow, promised, mk]

theorem push (tid extra : Nat) : (b.push tid extra).Honoured := by
  grind [Bucket.push, Bucket.grow, Bucket.pushBack, promised, mk]

theorem fewer {queue : List Nat} {rollbackAhead : Nat} (hle : queue.length ≤ b.queue.length) :
    Honoured { b with queue, rollbackAhead } :=
  { h with covered := Nat.le_trans (Nat.add_le_add_right hle _) h.covered }

theorem removeTracked (index : Nat) : (b.removeTracked index).Honoured :=
  h.fewer (eraseIdx_sublist b.queue index).length_le

theorem forgetTracked (tid : Nat) : (b.forgetTracked tid).Honoured := h.fewer (length_filter_le _ _)

theorem vacate (hnone : b.selected = none) (hindex : index < b.queue.length) :
    (b.vacate index).Honoured := by
  grind [vacate, promised, mk]

theorem commit (tid : Nat) (harmed : b.armed ≠ 0) :
    ∃ u, b.commit tid = some u ∧ u.Honoured ∧ u.capacity = b.capacity := by
  grind [commit, pushBack, promised, mk]

/-- A selected task finds its room when it comes back. -/
theorem restoreSelection (hsome : b.selected = some tid) :
    ∃ u, b.restoreSelection tid = some u ∧ u.Honoured ∧ u.capacity = b.capacity := by
  grind [restoreSelection, reinsert, promised, mk]

/-- No assertion fails. -/
theorem act (action : Action) : ∃ u, b.act action = some u ∧ u.Honoured := by
  cases action with
  | reserve heap => exact ⟨_, rfl, h.reserve heap⟩
  | commit tid =>
    by_cases harmed : b.armed = 0
    · exact ⟨b, if_pos harmed, h⟩
    · obtain ⟨u, hu, hhonoured, -⟩ := h.commit tid harmed
      exact ⟨u, (if_neg harmed).trans hu, hhonoured⟩
  | release => grind [act, release, dropUnusedBucket, remove, promised, mk]
  | push tid extra => exact ⟨_, rfl, h.push tid extra⟩
  | restore => grind [act, restoreSelection]
  | settle => grind [act, settle, promised, mk]

end Bucket.Honoured

/-- Every bucket of every hart honours its promises. -/
def World.Honoured (w : World) : Prop := ∀ hart priority, (w hart priority).Honoured

namespace World.Honoured

variable {w : World} (h : w.Honoured) (permits : Nat → Bool) (heap : Nat → Option Nat)

include h

theorem set {b : Bucket} (hart : Hart) (priority : Priority) (hb : b.Honoured) :
    (w.set hart priority b).Honoured := by
  intro x p
  unfold World.set
  split
  · exact hb
  · exact h x p

omit h in
theorem stealAt (n : Nat) (hv : victim.Honoured) (ht : thief.Honoured) :
    (stealAt permits heap n victim thief).2.1.Honoured ∧
      (stealAt permits heap n victim thief).2.2.Honoured := by
  induction n generalizing victim thief with
  | zero => exact ⟨hv, ht⟩
  | succ _ ih =>
    unfold World.stealAt
    split
    · exact ⟨hv, ht⟩
    next index _ =>
    split
    · exact ⟨hv, ht.refused⟩
    next hroom =>
    obtain ⟨extra, rfl⟩ := exists_grow hroom
    exact ih (hv.removeTracked index) (ht.push _ extra)

theorem stealLoop (victim thief : Hart) (priorities : List Priority) (n : Nat) :
    (stealLoop permits heap victim thief priorities n w).Honoured := by
  induction priorities generalizing n w with
  | nil => exact h
  | cons priority _ ih =>
    obtain ⟨hv, ht⟩ := stealAt permits heap n (h victim priority) (h thief priority)
    exact ih ((h.set victim priority hv).set thief priority ht) _

theorem step (op : Op) : ∃ w', step w op = some ((), w') ∧ w'.Honoured := by
  cases op with
  | act hart priority action =>
    obtain ⟨b, hb, hhonoured⟩ := (h hart priority).act action
    simp only [ReadyQueue.step, hb]
    exact ⟨_, rfl, h.set _ _ hhonoured⟩
  | pick hart permits =>
    simp only [ReadyQueue.step]
    split
    · next priority index hpick =>
      refine ⟨_, rfl, ?_⟩
      obtain ⟨_, -, hfound⟩ := exists_of_findSome?_eq_some hpick
      obtain ⟨i, hi, heq⟩ := map_eq_some_iff.mp hfound
      cases heq
      obtain ⟨hindex, -⟩ := findIdx?_eq_some_iff_findIdx_eq.mp hi
      split
      · next hnone => exact h.set _ _ ((h hart priority).vacate hnone hindex)
      · exact h
    · exact ⟨w, rfl, h⟩
  | steal thief permits heap =>
    refine ⟨_, rfl, ?_⟩
    unfold World.steal
    dsimp only
    split
    · exact h
    · exact h.stealLoop permits heap _ _ _ _
  | removeFromAll tid => exact ⟨_, rfl, fun hart priority => (h hart priority).forgetTracked tid⟩

end World.Honoured

open World

/-- Every run goes through and honours its promises. -/
theorem exists_run (ops : List Op) : ∃ rs w, run step boot ops = some (rs, w) ∧ Honoured w := by
  have hboot : Honoured boot := fun _ _ => ⟨Nat.le_refl _, rfl, rfl, fun _ => rfl⟩
  exact run_total (fun op _ _ h => ⟨(), Honoured.step h op⟩) hboot

/-- **Promises are honoured**: no run fails an assertion, and each queue always has room for its
entries and for everything promised, so a commit or a restore uses room it has. -/
theorem promises_honoured (ops : List Op) :
    ∃ rs w, run step boot ops = some (rs, w) ∧ ∀ hart priority, let b := w hart priority
      b.queue.length + b.publication + b.rollback ≤ b.capacity ∧
      b.publication = b.armed ∧ b.rollback = b.selected.toList.length ∧
      (b.armed ≠ 0 → ∀ tid, ∃ u, b.commit tid = some u ∧ u.capacity = b.capacity) ∧
      ∀ tid ∈ b.selected, ∃ u, b.restoreSelection tid = some u ∧ u.capacity = b.capacity := by
  obtain ⟨rs, w, hrun, h⟩ := exists_run ops
  refine ⟨rs, w, hrun, fun hart priority => ?_⟩
  have hb := h hart priority
  refine ⟨?_, hb.published, hb.vacated, fun harmed tid => ?_, fun tid htid => ?_⟩
  · rw [Nat.add_assoc]
    exact hb.covered
  · obtain ⟨u, hu, -, hcapacity⟩ := hb.commit tid harmed
    exact ⟨u, hu, hcapacity⟩
  · obtain ⟨u, hu, -, hcapacity⟩ := hb.restoreSelection htid
    exact ⟨u, hu, hcapacity⟩

/-! ## places in the queue -/

/-- A queue around a task that was selected and is still in it. -/
structure Held where
  (front back : List Nat)

def Held.queue (q : Held) (tid : Nat) : List Nat := q.front ++ tid :: q.back

/-- What happens to a bucket while a selection is pending. -/
inductive Traffic where
  | reserve (heap : Option Nat)
  | commit (tid : Nat)
  | release
  | push (tid extra : Nat)
  | take (index : Nat)
  | forget (tid : Nat)

/-- A commit needs its promise. -/
def Bucket.traffic (b : Bucket) : Traffic → Option Bucket
  | .reserve heap => some (b.reserve heap)
  | .commit tid => b.commit tid
  | .release => some b.release
  | .push tid extra => some (b.push tid extra)
  | .take index => some (b.removeTracked index)
  | .forget tid => some (b.forgetTracked tid)

/-- The same on the queue that the selected task never left. -/
def Held.traffic (q : Held) : Traffic → Held
  | .reserve _ | .release => q
  | .commit tid | .push tid _ => ⟨q.front, q.back ++ [tid]⟩
  | .take index =>
    if index < q.front.length then ⟨q.front.eraseIdx index, q.back⟩
    else ⟨q.front, q.back.eraseIdx (index - q.front.length)⟩
  | .forget tid => ⟨q.front.filter (· ≠ tid), q.back.filter (· ≠ tid)⟩

/-- The bucket is the queue without its selected task. -/
structure Held.Reflects (q : Held) (b : Bucket) : Prop where
  queue : b.queue = q.front ++ q.back
  ahead : b.rollbackAhead = q.front.length
  pending : b.rollback ≠ 0

/-- A reservation touches neither the entries nor the selection. -/
theorem Bucket.reserve_frame (b : Bucket) (heap : Option Nat) : let u := b.reserve heap
    u.queue = b.queue ∧ u.rollback = b.rollback ∧ u.rollbackAhead = b.rollbackAhead ∧
      u.selected = b.selected := by
  unfold reserve
  split
  · grind [dropUnusedBucketIfNew, remove]
  next hroom =>
  obtain ⟨extra, rfl⟩ := exists_grow hroom
  grind [grow, dropUnusedBucketIfNew, remove]

/-- **Step lemma**: traffic keeps the place of the selected task. -/
theorem Held.Reflects.traffic {q : Held} {b : Bucket} (h : q.Reflects b)
    (ht : b.traffic t = some b') : (q.traffic t).Reflects b' := by
  obtain ⟨hqueue, hahead, hpending⟩ := h
  cases t with
  | forget tid =>
    obtain rfl := some.inj ht
    refine ⟨by simp [Bucket.forgetTracked, Held.traffic, hqueue], ?_, hpending⟩
    have hcount := length_eq_countP_add_countP (· == tid) (l := q.front)
    simp only [Bucket.forgetTracked, Held.traffic, if_pos hpending, hahead, hqueue,
      take_left, count, ← countP_eq_length_filter]
    simp at hcount ⊢
    omega
  | reserve heap =>
    obtain rfl := some.inj ht
    obtain ⟨hsame, hrollback, hplace, -⟩ := b.reserve_frame heap
    exact ⟨hsame.trans hqueue, hplace.trans hahead, hrollback ▸ hpending⟩
  | _ =>
    constructor <;> grind [Bucket.traffic, Held.traffic, commit, pushBack, release, grow,
      dropUnusedBucket, Bucket.push, removeTracked, noteRemoved]

/-- Traffic keeps the promises and the selection. -/
theorem Bucket.Honoured.traffic {b : Bucket} (h : b.Honoured) (ht : b.traffic t = some b') :
    b'.Honoured ∧ b'.selected = b.selected := by
  cases t with
  | reserve heap =>
    obtain rfl := some.inj ht
    exact ⟨h.reserve heap, (b.reserve_frame heap).2.2.2⟩
  | commit | release =>
    grind [Bucket.traffic, Bucket.commit, pushBack, release, dropUnusedBucket, remove, promised,
      Bucket.Honoured.mk]
  | push tid extra => exact some.inj ht ▸ ⟨h.push tid extra, rfl⟩
  | take index => exact some.inj ht ▸ ⟨h.removeTracked index, rfl⟩
  | forget tid => exact some.inj ht ▸ ⟨h.forgetTracked tid, rfl⟩

variable {traffic : List Traffic} {b b' : Bucket}

/-- **Run lemma**: so does any sequence of it. -/
theorem Bucket.Honoured.run (h : b.Honoured) (hrun : traffic.foldlM Bucket.traffic b = some b') :
    b'.Honoured ∧ b'.selected = b.selected := by
  induction traffic generalizing b with
  | nil =>
    cases hrun
    exact ⟨h, rfl⟩
  | cons t _ ih =>
    obtain ⟨c, ht, hrest⟩ := bind_eq_some_iff.mp hrun
    obtain ⟨hc, hsame⟩ := h.traffic ht
    exact hsame ▸ ih hc hrest

theorem Held.Reflects.run {q : Held} (h : q.Reflects b)
    (hrun : traffic.foldlM Bucket.traffic b = some b') :
    (traffic.foldl Held.traffic q).Reflects b' := by
  induction traffic generalizing q b with
  | nil =>
    cases hrun
    exact h
  | cons t _ ih =>
    obtain ⟨c, ht, hrest⟩ := bind_eq_some_iff.mp hrun
    exact ih (h.traffic ht) hrest

/-- **A restored task keeps its place**: in every state reached, whatever happens to a bucket after
its task was selected, the task that is put back stands where it would stand if it had never been
taken out. -/
theorem restore_keeps_place (ops : List Op) (hart : Hart) (priority : Priority)
    (traffic : List Traffic) : ∃ rs w, run step boot ops = some (rs, w) ∧ ∀ front tid back b,
      (w hart priority).queue = front ++ tid :: back → (w hart priority).selected = none →
      traffic.foldlM Bucket.traffic ((w hart priority).vacate front.length) = some b →
      ∃ u, b.restoreSelection tid = some u ∧
        u.queue = (traffic.foldl Held.traffic ⟨front, back⟩).queue tid := by
  obtain ⟨rs, w, hrun, h⟩ := exists_run ops
  refine ⟨rs, w, hrun, fun front tid back b' hqueue hnone htraffic => ?_⟩
  have hb := h hart priority
  generalize w hart priority = b at *
  have hindex : front.length < b.queue.length := by simp [hqueue]
  have hstart : (Held.mk front back).Reflects (b.vacate front.length) :=
    ⟨by simp [vacate, hqueue, eraseIdx_append_of_length_le], rfl, nofun⟩
  have htid : (b.vacate front.length).selected = some tid := by simp [vacate, hqueue]
  obtain ⟨hrest, hahead, -⟩ := hstart.run htraffic
  obtain ⟨hhonoured, hselected⟩ := (hb.vacate hnone hindex).run htraffic
  obtain ⟨u, hu, -⟩ := hhonoured.restoreSelection (hselected.trans htid)
  refine ⟨u, hu, ?_⟩
  have hinsert : ∀ l r : List Nat, (l ++ r).insertIdx l.length tid = l ++ tid :: r := by
    intro l r
    induction l <;> simp_all
  grind [restoreSelection, reinsert, Held.queue]

/-! ## steps are traffic -/

/-- Traffic leads from `b` to `b'`. -/
def Bucket.Passes (b b' : Bucket) : Prop :=
  ∃ traffic : List Traffic, traffic.foldlM Bucket.traffic b = some b'

namespace Bucket.Passes

theorem refl (b : Bucket) : b.Passes b := ⟨[], rfl⟩

theorem one (ht : b.traffic t = some b') : b.Passes b' := ⟨[t], by simp [ht]⟩

theorem trans (h : b.Passes b') (h' : b'.Passes b'') : b.Passes b'' := by
  obtain ⟨traffic, h⟩ := h
  obtain ⟨traffic', h'⟩ := h'
  exact ⟨traffic ++ traffic', by simp [foldlM_append, h, h']⟩

/-- So does an action that leaves the selection pending. -/
theorem act {action : Action} (hact : b.act action = some b') (hstays : b'.selected ≠ none) :
    b.Passes b' := by
  cases action with
  | reserve heap => exact .one (t := .reserve heap) hact
  | push tid extra => exact .one (t := .push tid extra) hact
  | commit tid =>
    by_cases harmed : b.armed = 0
    · rw [← some.inj ((if_pos harmed).symm.trans hact)]
      exact .refl b
    · exact .one (t := .commit tid) ((if_neg harmed).symm.trans hact)
  | release =>
    obtain rfl := some.inj hact
    split
    · exact .refl b
    · exact .one (t := .release) rfl
  | restore | settle =>
    refine absurd ?_ hstays
    grind [Bucket.act, restoreSelection, reinsert, settle]

theorem set {w : World} (h : hart = x ∧ priority = p → (w hart priority).Passes b) :
    (w hart priority).Passes (w.set x p b hart priority) := by
  unfold World.set
  split
  · next hsame => exact h hsame
  · exact .refl _

end Bucket.Passes

namespace World

variable {w : World}

/-- A steal takes entries from one bucket and pushes them to the other. -/
theorem stealAt_passes (permits : Nat → Bool) (heap : Nat → Option Nat) (n : Nat) (v t : Bucket) :
    v.Passes (stealAt permits heap n v t).2.1 ∧
      (t.Honoured → t.selected ≠ none → t.Passes (stealAt permits heap n v t).2.2) := by
  induction n generalizing v t with
  | zero => exact ⟨.refl v, fun _ _ => .refl t⟩
  | succ n ih =>
    unfold stealAt
    split
    · exact ⟨.refl v, fun _ _ => .refl t⟩
    next index _ =>
    split
    · refine ⟨.refl v, fun ht hpending => ?_⟩
      -- the bucket of a pending selection is there, and stays
      obtain ⟨_, hsome⟩ := ne_none_iff_exists'.mp hpending
      have hpresent : t.present = true := by grind [promised]
      have hsame : { t with present := true } = t := by rw [← hpresent]
      rw [hsame, hpresent]
      exact .refl t
    next hroom =>
    obtain ⟨extra, rfl⟩ := exists_grow hroom
    obtain ⟨hv, ht⟩ := ih (v.removeTracked index) (t.push (v.queue.getD index 0) extra)
    refine ⟨.trans (.one (t := .take index) rfl) hv, fun hhonoured hpending => ?_⟩
    exact .trans (.one (t := .push _ extra) rfl) (ht (hhonoured.push _ extra) hpending)

theorem stealLoop_passes (permits : Nat → Bool) (heap : Nat → Option Nat) (victim thief : Hart)
    (priorities : List Priority) (n : Nat) (h : w.Honoured)
    (hpending : (w hart priority).selected ≠ none) :
    (w hart priority).Passes
      (stealLoop permits heap victim thief priorities n w hart priority) := by
  induction priorities generalizing n w with
  | nil => exact .refl _
  | cons p rest ih =>
    obtain ⟨hv, ht⟩ := stealAt_passes permits heap n (w victim p) (w thief p)
    obtain ⟨hv', ht'⟩ := Honoured.stealAt permits heap n (h victim p) (h thief p)
    generalize hout : stealAt permits heap n (w victim p) (w thief p) = out at *
    have hhead : (w hart priority).Passes
        (((w.set victim p out.2.1).set thief p out.2.2) hart priority) := by
      unfold World.set
      split_ifs with hthief hvictim
      · obtain ⟨rfl, rfl⟩ := hthief
        exact ht (h _ _) hpending
      · obtain ⟨rfl, rfl⟩ := hvictim
        exact hv
      · exact .refl _
    simp only [stealLoop, hout]
    refine hhead.trans (ih _ ((h.set victim p hv').set thief p ht') ?_)
    obtain ⟨_, hrun⟩ := hhead
    rwa [((h hart priority).run hrun).2]

/-- **Every step is traffic** on a bucket whose selection it leaves pending. -/
theorem passes_of_step (h : w.Honoured) (hstep : step w op = some ((), w'))
    (hpending : (w hart priority).selected ≠ none)
    (hstays : (w' hart priority).selected ≠ none) :
    (w hart priority).Passes (w' hart priority) := by
  cases op with
  | act x p action =>
    obtain ⟨b, hact, heq⟩ := map_eq_some_iff.mp hstep
    cases heq
    refine .set ?_
    rintro ⟨rfl, rfl⟩
    rw [World.set, if_pos ⟨rfl, rfl⟩] at hstays
    exact .act hact hstays
  | pick x permits =>
    simp only [step] at hstep
    split at hstep
    · obtain rfl := (Prod.mk.inj (some.inj hstep)).2
      split
      · next hnone =>
        refine .set ?_
        rintro ⟨rfl, rfl⟩
        exact absurd hnone hpending
      · exact .refl _
    · obtain rfl := (Prod.mk.inj (some.inj hstep)).2
      exact .refl _
  | steal thief permits heap =>
    obtain rfl := (Prod.mk.inj (some.inj hstep)).2
    unfold World.steal
    split
    · exact .refl _
    · exact stealLoop_passes _ _ _ _ _ _ h hpending
  | removeFromAll tid =>
    obtain rfl := (Prod.mk.inj (some.inj hstep)).2
    exact .one (t := .forget tid) rfl

end World

/-! ## stealing -/

/-- What a hart took from another one: `moved p` joined its queue at priority `p`, in order. -/
structure World.Taken (permits : Nat → Bool) (victim thief : Hart) (moved : Priority → List Nat)
    (w w' : World) : Prop where
  joins : ∀ p, (w' thief p).queue = (w thief p).queue ++ moved p
  stays : ∀ p, (w' victim p).queue.Sublist (w victim p).queue
  perm : ∀ p, ((w' victim p).queue ++ moved p).Perm (w victim p).queue
  permitted : ∀ p, ∀ tid ∈ moved p, p ∈ belowRealTime ∧ permits tid

namespace World

variable (permits : Nat → Bool) (heap : Nat → Option Nat)

/-- What moves between two buckets. -/
theorem stealAt_moves (n : Nat) (v t : Bucket) :
    ∃ moved left v' t', stealAt permits heap n v t = (left, v', t') ∧ moved.length + left ≤ n ∧
      t'.queue = t.queue ++ moved ∧ v'.queue.Sublist v.queue ∧
      (v'.queue ++ moved).Perm v.queue ∧ (∀ tid ∈ moved, permits tid) ∧
      (heap (n - 1) ≠ none → moved = [] → v.queue.countP permits = 0 ∧ left = n ∨ n = 0) := by
  induction n generalizing v t with
  | zero => exact ⟨[], 0, v, t, rfl, by simp⟩
  | succ n ih =>
    unfold stealAt
    split
    · next hnone =>
      have hzero : v.queue.countP permits = 0 := by simpa [countP_eq_zero] using hnone
      exact ⟨[], n + 1, v, t, rfl, by simp [hzero]⟩
    next index hindex =>
    obtain ⟨hlt, hpermits, -⟩ := findIdx?_eq_some_iff_getElem.mp hindex
    split
    · next hroom =>
      refine ⟨[], 0, v, _, rfl, by simp, ?_, .refl _, by simp, by simp, fun hheap => ?_⟩
      · grind [dropUnusedBucketIfNew, remove]
      · unfold room at hroom
        split at hroom
        · exact absurd (map_eq_none_iff.mp hroom) hheap
        · contradiction
    next hroom =>
    obtain ⟨extra, rfl⟩ := exists_grow hroom
    obtain ⟨moved, left, v', t', hsteal, hcount, hjoins, hstays, hperm, hpermitted, -⟩ :=
      ih (v.removeTracked index) ((t.grow (t.promised + 1) extra).pushBack (v.queue.getD index 0))
    refine ⟨v.queue[index] :: moved, left, v', t', hsteal, ?_, ?_, ?_, ?_, ?_, nofun⟩
    · rw [length_cons]
      omega
    · simpa [pushBack, grow, hlt] using hjoins
    · exact hstays.trans (eraseIdx_sublist _ _)
    · exact perm_middle.trans ((hperm.cons _).trans (getElem_cons_eraseIdx_perm hlt))
    · exact forall_mem_cons.mpr ⟨hpermits, hpermitted⟩

/-- What moves over the priorities that are searched. -/
theorem stealLoop_taken (hne : victim ≠ thief)
    (hbelow : ∀ p ∈ priorities, p ∈ belowRealTime) (n : Nat) (w : World) : ∃ moved,
      Taken permits victim thief moved w (stealLoop permits heap victim thief priorities n w) ∧
      (moved 1).length + (moved 0).length ≤ n ∧
      (heap (n - 1) ≠ none → moved 1 = [] → moved 0 = [] →
        (∀ p ∈ priorities, (w victim p).queue.countP permits = 0) ∨ n = 0) := by
  induction priorities generalizing n w with
  | nil =>
    refine ⟨fun _ => [], ⟨?_, fun _ => .refl _, ?_, nofun⟩, by simp⟩ <;> simp [stealLoop]
  | cons priority rest ih =>
    obtain ⟨moved, left, v, t, hsteal, hcount, hjoins, hstays, hperm, hpermitted, hnone⟩ :=
      stealAt_moves permits heap n (w victim priority) (w thief priority)
    rw [forall_mem_cons] at hbelow
    obtain ⟨moved', h, hcount', hnone'⟩ :=
      ih hbelow.2 left ((w.set victim priority v).set thief priority t)
    have hpriority : priority = 1 ∨ priority = 0 := by simpa [belowRealTime] using hbelow.1
    have hloop : stealLoop permits heap victim thief (priority :: rest) n w = stealLoop permits heap
        victim thief rest left ((w.set victim priority v).set thief priority t) := by
      simp only [stealLoop, hsteal]
    rw [hloop]
    refine ⟨fun p => if p = priority then moved ++ moved' p else moved' p, ⟨?_, ?_, ?_, ?_⟩, ?_, ?_⟩
    · grind [h.joins, set]
    · intro p
      have hrest := h.stays p
      grind [set, Sublist.trans]
    · intro p
      have hrest := h.perm p
      grind [set, perm_append_comm, Perm.append_left, Perm.append_right, Perm.trans]
    · grind [h.permitted]
    · grind
    · grind [set]

/-- **Stealing moves tasks and loses none**: the tasks that leave the victim join the thief, none
of them is real-time or runs on another hart, and those that stay keep their order.  At most half
of what may be stolen moves, rounded up, and at least one task does unless the growth for the
first one is refused. -/
theorem steal_moves_tasks (w : World) (thief : Hart) (running : Hart → List Nat)
    (eligible : Nat → Bool) :
    let permits := ReadyQueue.permits running eligible thief
    let stealable := w.stealable permits (1 - thief)
    ∃ moved, Taken permits (1 - thief) thief moved w (w.steal permits heap thief) ∧
      (moved 1).length + (moved 0).length ≤ (stealable + 1) / 2 ∧
      (stealable ≠ 0 → heap (max (stealable / 2) 1 - 1) ≠ none → moved 1 ≠ [] ∨ moved 0 ≠ []) := by
  intro permits stealable
  have hne : 1 - thief ≠ thief := by
    revert thief
    decide
  have hvictim : (⟨1 - thief, by omega⟩ : Hart) = 1 - thief := by
    revert thief
    decide
  unfold steal
  rw [hvictim]
  dsimp only
  split
  · next hzero =>
    refine ⟨fun _ => [], ⟨by simp, fun _ => .refl _, by simp, nofun⟩, by simp, fun h => ?_⟩
    exact absurd hzero h
  next hsome =>
  obtain ⟨moved, htaken, hcount, hnone⟩ :=
    stealLoop_taken permits heap hne (fun p hp => hp) (max (stealable / 2) 1) w
  refine ⟨moved, htaken, ?_, fun _ hheap => ?_⟩
  · omega
  · by_contra! hnil
    rcases hnone hheap hnil.1 hnil.2 with h | h
    · exact hsome (by simp [World.stealable, belowRealTime, h 1 (by decide), h 0 (by decide)])
    · omega

/-- A thief whose queue cannot grow takes nothing, though a task waits. -/
theorem refused_growth_moves_none : let w := boot.set 1 1 ((boot 1 1).push 5 0)
    let permits := ReadyQueue.permits (fun _ => []) (fun _ => true) 0
    let w' := w.steal permits (fun _ => none) 0
    w.stealable permits 1 = 1 ∧ (w' 0 1).queue = [] ∧ (w' 1 1).queue = [5] := by
  decide

end World

end Cellos.ReadyQueue
