import Cellos.Task.Futex

/-!
# Cellos.Task.FutexQueues

What a wake finds: the queue of a key holds the tasks parked on it, in the order in which
they parked.

Every step but a park only takes tasks out of their waits (`Leaves`), and has to take the
same tasks out of the queues.  Freezing a parked task does not, and neither does the reaper
when it meets a task that parked after its cell had begun to retire; `tidy` excludes both.
-/

namespace Cellos.Futex

open Lib List Function World

namespace World

variable {w w' : World} {key : FutexKey} {tid : Nat} {task : Task}

/-- The number of the task's last park. -/
def ticketOf (w : World) (tid : Nat) : Nat := ((w.tasks tid).map (·.ticket)).getD 0

/-- The task's cell is live. -/
def living (w : World) (tid : Nat) : Bool :=
  (w.tasks tid).any fun task => w.slots task.owner.cellId = .live task.owner

theorem parkedOn_iff : w.parkedOn key tid = true ↔
    ∃ task deadline, w.tasks tid = some task ∧ task.state = .futexWait key deadline := by
  unfold parkedOn
  cases htask : w.tasks tid with
  | none => simp
  | some task => cases hstate : task.state <;> simp [hstate, eq_comm]

theorem parkedOn_unique (h : w.parkedOn key tid = true)
    (h' : w.parkedOn key' tid = true) : key = key' := by
  obtain ⟨task, deadline, htask, hstate⟩ := parkedOn_iff.mp h
  obtain ⟨task', deadline', htask', hstate'⟩ := parkedOn_iff.mp h'
  grind

theorem parkedOn_congr (h : w'.tasks tid = w.tasks tid) :
    w'.parkedOn key tid = w.parkedOn key tid := by
  unfold parkedOn
  rw [h]

/-- A task that has another state is parked no more. -/
theorem parkedOn_map (h : w'.tasks tid = (w.tasks tid).map f)
    (hf : ∀ task deadline, (f task).state ≠ .futexWait key deadline) :
    w'.parkedOn key tid = false := by
  rw [Bool.eq_false_iff, Ne, parkedOn_iff, h]
  rintro ⟨_, deadline, hmap, hstate⟩
  obtain ⟨task, -, rfl⟩ := Option.map_eq_some_iff.mp hmap
  exact hf task deadline hstate

theorem living_iff : w.living tid = true ↔
    ∃ task, w.tasks tid = some task ∧ w.slots task.owner.cellId = .live task.owner := by
  simp [living, Option.any_eq_true]

/-- The queues and the tasks agree. -/
structure Agrees (w : World) : Prop where
  /-- A queue holds the tasks parked on its key. -/
  queued : ∀ key tid, tid ∈ w.waiters key ↔ w.parkedOn key tid = true
  /-- A queue is in the order of the parks. -/
  ordered : ∀ key, (w.waiters key).Pairwise fun a b => w.ticketOf a < w.ticketOf b
  numbered : ∀ key tid, w.parkedOn key tid = true → w.ticketOf tid < w.parks
  /-- A parked task is in its call of `wait`. -/
  waiting : ∀ key tid, w.parkedOn key tid = true → w.calls tid = .parked key
  /-- The cell of a parked task is live. -/
  alive : ∀ key tid, w.parkedOn key tid = true → w.living tid = true

theorem agrees_boot : Agrees boot where
  queued key tid := by simp [boot, parkedOn]
  ordered key := List.Pairwise.nil
  numbered key tid h := by simp [boot, parkedOn] at h
  waiting key tid h := by simp [boot, parkedOn] at h
  alive key tid h := by simp [boot, parkedOn] at h

theorem Agrees.nodup (a : Agrees w) (key : FutexKey) : (w.waiters key).Nodup :=
  (a.ordered key).imp fun hlt heq => by subst heq; exact Nat.lt_irrefl _ hlt

/-- From `w` to `w'` the tasks of `gone` are taken out of their waits and out of the queues,
and nothing happens to the waits of the others. -/
structure Leaves (w w' : World) (gone : Nat → Prop) : Prop where
  sublist : ∀ key, (w'.waiters key).Sublist (w.waiters key)
  waiters : ∀ key tid, tid ∈ w'.waiters key ↔ tid ∈ w.waiters key ∧ ¬ gone tid
  goes : ∀ key tid, gone tid → w'.parkedOn key tid = false
  stays : ∀ tid, ¬ gone tid → w'.tasks tid = w.tasks tid
  calls : ∀ tid, ¬ gone tid → w'.calls tid = w.calls tid
  alive : ∀ key tid, ¬ gone tid → w.parkedOn key tid = true → w.living tid = true →
    w'.living tid = true
  parks : w'.parks = w.parks

/-- A task that is parked after such a step was so before, and nothing happened to it. -/
theorem Leaves.parkedOn (l : Leaves w w' gone) :
    w'.parkedOn key tid = true ↔ w.parkedOn key tid = true ∧ ¬ gone tid := by
  by_cases hgone : gone tid
  · simp [l.goes key tid hgone, hgone]
  · simp [parkedOn_congr (l.stays tid hgone), hgone]

theorem Leaves.ticketOf (l : Leaves w w' gone) (h : ¬ gone tid) :
    w'.ticketOf tid = w.ticketOf tid := by
  unfold World.ticketOf
  rw [l.stays tid h]

/-- **Leaving**: a step that only takes tasks out of their waits keeps the agreement. -/
theorem Agrees.leaves (a : Agrees w) (gone : Nat → Prop) (l : Leaves w w' gone) : Agrees w' where
  queued key tid := by rw [l.waiters, a.queued, l.parkedOn]
  ordered key := by
    refine ((a.ordered key).sublist (l.sublist key)).imp_of_mem fun {x y} hx hy hlt => ?_
    rwa [l.ticketOf ((l.waiters key x).mp hx).2, l.ticketOf ((l.waiters key y).mp hy).2]
  numbered key tid h := by
    obtain ⟨hparked, hstays⟩ := l.parkedOn.mp h
    rw [l.ticketOf hstays, l.parks]
    exact a.numbered key tid hparked
  waiting key tid h := by
    obtain ⟨hparked, hstays⟩ := l.parkedOn.mp h
    rw [l.calls tid hstays]
    exact a.waiting key tid hparked
  alive key tid h := by
    obtain ⟨hparked, hstays⟩ := l.parkedOn.mp h
    exact l.alive key tid hstays hparked (a.alive key tid hparked)

theorem living_of_slots (htask : w'.tasks tid = w.tasks tid)
    (hslots : ∀ cellId owner, w.slots cellId = .live owner → w'.slots cellId = .live owner)
    (h : w.living tid = true) : w'.living tid = true := by
  obtain ⟨task, hsome, hslot⟩ := living_iff.mp h
  exact living_iff.mpr ⟨task, htask.trans hsome, hslots _ _ hslot⟩

/-- A change of one task that is parked neither before nor after keeps the agreement. -/
theorem Agrees.touch (a : Agrees w) (tid : Nat) (hbefore : ∀ key, w.parkedOn key tid = false)
    (hafter : ∀ key, w'.parkedOn key tid = false)
    (hothers : ∀ t, t ≠ tid → w'.tasks t = w.tasks t ∧ w'.calls t = w.calls t)
    (hwaiters : w'.waiters = w.waiters) (hparks : w'.parks = w.parks)
    (hslots : ∀ cellId owner, w.slots cellId = .live owner → w'.slots cellId = .live owner) :
    Agrees w' := by
  refine a.leaves (fun t => t = tid) ⟨fun key => ?_, fun key t => ?_, fun key t ht => ?_,
    fun t ht => (hothers t ht).1, fun t ht => (hothers t ht).2,
    fun key t ht _ => living_of_slots (hothers t ht).1 hslots, hparks⟩
  · rw [hwaiters]
  · rw [hwaiters]
    have hout : t ∈ w.waiters key → t ≠ tid := by
      rintro hmem rfl
      rw [a.queued, hbefore key] at hmem
      contradiction
    exact (and_iff_left_of_imp hout).symm
  · rw [ht]
    exact hafter key

/-- A task is not parked when it is not where its call says. -/
theorem Agrees.idle (a : Agrees w) (tid : Nat)
    (h : ∀ key, w.calls tid = .parked key → w.parkedOn key tid = false) (key : FutexKey) :
    w.parkedOn key tid = false := by
  rw [Bool.eq_false_iff]
  intro hparked
  rw [h key (a.waiting key tid hparked)] at hparked
  contradiction

/-! ## the calls -/

/-- A park puts the caller at the end of the queue. -/
theorem Agrees.park (a : Agrees w)
    (htask : w.tasks caller = some task) (hcall : w.calls caller = .none)
    (hlive : w.slots task.owner.cellId = .live task.owner) (key : FutexKey)
    (deadline : Option Nat) : Agrees (w.park caller task key deadline) := by
  set w' := w.park caller task key deadline with hw'
  have hidle := a.idle caller (by simp [hcall])
  have hfresh : caller ∉ w.waiters key := by
    rw [a.queued, hidle key]
    decide
  have hwaiters : w'.waiters =
      update w.waiters key (w.waiters key ++ [caller]) := by
    simp [hw', World.park, enqueue, setTask, setCall, hfresh]
  have htasks : ∀ t, t ≠ caller → w'.tasks t = w.tasks t := by
    intro t ht
    simp [hw', World.park, enqueue, setTask, setCall, hfresh, ht]
  have hparked : ∀ k t, w'.parkedOn k t = true ↔
      (t = caller ∧ k = key) ∨ w.parkedOn k t = true := by
    intro k t
    by_cases ht : t = caller
    · subst ht
      rw [hidle k]
      simp [parkedOn, hw', World.park, setTask, eq_comm]
    · simp [parkedOn_congr (htasks t ht), ht]
  have hticket : ∀ t, w'.ticketOf t =
      if t = caller then w.parks else w.ticketOf t := by
    intro t
    by_cases ht : t = caller
    · subst ht
      simp [ticketOf, hw', World.park, setTask, setCall, enqueue, hfresh]
    · simp [ticketOf, htasks t ht, ht]
  have hne : ∀ k t, w.parkedOn k t = true → t ≠ caller := by
    intro k t h ht
    subst ht
    simp [hidle k] at h
  refine ⟨fun k t => ?_, fun k => ?_, fun k t h => ?_, fun k t h => ?_, fun k t h => ?_⟩
  · rw [hwaiters, hparked, ← a.queued k t]
    by_cases hk : k = key
    · subst hk
      simp [or_comm]
    · simp [hk]
  · rw [hwaiters]
    have hold : (w.waiters k).Pairwise fun x y => w'.ticketOf x <
        w'.ticketOf y := by
      refine (a.ordered k).imp_of_mem fun {x y} hx hy hlt => ?_
      rw [hticket, hticket, if_neg (hne k x ((a.queued k x).mp hx)),
        if_neg (hne k y ((a.queued k y).mp hy))]
      exact hlt
    by_cases hk : k = key
    · subst hk
      rw [update_self]
      refine pairwise_concat hold fun x hx => ?_
      rw [hticket, hticket, if_pos rfl, if_neg (hne k x ((a.queued k x).mp hx))]
      exact a.numbered k x ((a.queued k x).mp hx)
    · rw [update_of_ne hk]
      exact hold
  · have hparks : w'.parks = w.parks + 1 := by
      simp [hw', World.park, setTask, setCall, enqueue, hfresh]
    rw [hticket, hparks]
    split
    · exact Nat.lt_succ_self _
    next ht =>
    rcases (hparked k t).mp h with hcaller | hold
    · exact absurd hcaller.1 ht
    · exact Nat.lt_succ_of_lt (a.numbered k t hold)
  · rcases (hparked k t).mp h with ⟨rfl, rfl⟩ | hold
    · simp [hw', World.park, setTask, setCall, enqueue, hfresh]
    · have ht := hne k t hold
      rw [← a.waiting k t hold]
      simp [hw', World.park, setTask, setCall, enqueue, hfresh, ht]
  · have hslots : w'.slots = w.slots := by
      simp [hw', World.park, setTask, setCall, enqueue, hfresh]
    rcases (hparked k t).mp h with ⟨rfl, rfl⟩ | hold
    · rw [living_iff, hslots]
      exact ⟨_, update_self _ _ _, hlive⟩
    · exact living_of_slots (htasks t (hne k t hold)) (fun _ _ h => by rw [hslots]; exact h)
        (a.alive k t hold)

/-- The turns of the loop of `wake`, for candidates that are all parked on the key. -/
theorem foldl_wakeOne {candidates : List Nat} (hnodup : candidates.Nodup)
    (hparked : ∀ tid ∈ candidates, w.parkedOn key tid = true) (n : Nat) :
    candidates.foldl (wakeOne key) (n, w) = (n + candidates.length, { w with
      tasks := fun tid => if tid ∈ candidates then (w.tasks tid).map (readied .woken)
        else w.tasks tid }) := by
  induction candidates generalizing w n with
  | nil => simp
  | cons first rest ih =>
    obtain ⟨hfirst, hrest⟩ := nodup_cons.mp hnodup
    rw [foldl_cons, wakeOne, if_pos (hparked first mem_cons_self), ih hrest]
    · have htasks : (fun tid => if tid ∈ rest then
            ((w.setTask first ((w.tasks first).map (readied .woken))).tasks tid).map (readied .woken)
          else (w.setTask first ((w.tasks first).map (readied .woken))).tasks tid) =
          fun tid => if tid ∈ first :: rest then (w.tasks tid).map (readied .woken)
            else w.tasks tid := by
        funext tid
        by_cases htid : tid = first
        · subst htid
          simp [setTask, hfirst]
        · simp [setTask, htid]
      rw [htasks, length_cons]
      simp only [setTask, Prod.mk.injEq, and_true]
      omega
    · intro tid htid
      have hne : tid ≠ first := fun h => hfirst (h ▸ htid)
      rw [parkedOn_congr (update_of_ne hne _ _)]
      exact hparked tid (mem_cons_of_mem _ htid)

/-- How many of `parked` waiters a wake with this count takes. -/
def wakes (count parked : Nat) : Nat := if count = 0 then parked else min count parked

/-- A wake takes its tasks from the front of the queue. -/
theorem Agrees.wake_eq (a : Agrees w) (key : FutexKey) (count : Nat) :
    w.wake key count = (wakes count (w.waiters key).length, { w with
      waiters := update w.waiters key ((w.waiters key).drop (wakes count (w.waiters key).length))
      tasks := fun tid =>
        if tid ∈ (w.waiters key).take (wakes count (w.waiters key).length) then
          (w.tasks tid).map (readied .woken)
        else w.tasks tid }) := by
  have htake : w.takeWaiters key count =
      ((w.waiters key).take (wakes count (w.waiters key).length), { w with
        waiters := update w.waiters key
          ((w.waiters key).drop (wakes count (w.waiters key).length)) }) := by
    unfold takeWaiters wakes
    split
    · rfl
    · rw [← take_eq_take_min, ← drop_eq_drop_min]
  rw [wake, htake]
  dsimp only
  rw [foldl_wakeOne ((a.nodup key).sublist (take_sublist _ _)), Nat.zero_add, length_take]
  · have hle : wakes count (w.waiters key).length ≤ (w.waiters key).length := by
      unfold wakes
      split <;> omega
    rw [Nat.min_eq_left hle]
  · intro tid htid
    exact (a.queued key tid).mp (mem_of_mem_take htid)

theorem Agrees.wake (a : Agrees w) (key : FutexKey) (count : Nat) :
    Agrees (w.wake key count).2 := by
  rw [a.wake_eq]
  generalize wakes count (w.waiters key).length = n
  have hparked : ∀ tid ∈ (w.waiters key).take n, w.parkedOn key tid = true := by
    intro tid htid
    exact (a.queued key tid).mp (mem_of_mem_take htid)
  refine a.leaves (fun tid => tid ∈ (w.waiters key).take n) ⟨fun k => ?_, fun k tid => ?_,
    fun k tid hgone => ?_, fun tid hgone => if_neg hgone, fun tid _ => rfl,
    fun k tid hgone _ => living_of_slots (if_neg hgone) fun _ _ h => h, rfl⟩
  · dsimp only
    by_cases hk : k = key
    · subst hk
      rw [update_self]
      exact drop_sublist n _
    · rw [update_of_ne hk]
  · dsimp only
    by_cases hk : k = key
    · have hnodup := a.nodup k
      have hsplit := take_append_drop n (w.waiters k)
      grind
    · rw [update_of_ne hk]
      have hout : tid ∈ w.waiters k → tid ∉ (w.waiters key).take n := fun hmem h =>
        hk (parkedOn_unique ((a.queued k tid).mp hmem) (hparked tid h))
      exact (and_iff_left_of_imp hout).symm
  · exact parkedOn_map (if_pos hgone) fun _ _ => nofun

/-! ## other ways out of a wait -/

theorem expired_iff : w.expired now key tid = true ↔ ∃ task deadline,
    w.tasks tid = some task ∧ task.state = .futexWait key (some deadline) ∧ deadline ≤ now := by
  unfold expired
  cases htask : w.tasks tid with
  | none => simp
  | some task =>
    cases hstate : task.state with
    | futexWait k deadline => cases deadline <;> grind
    | _ => simp [hstate]

theorem Agrees.sweep (a : Agrees w) (now : Nat) : Agrees (w.sweep now) := by
  have hstays : ∀ tid, (¬ ∃ key, w.expired now key tid = true) →
      (w.sweep now).tasks tid = w.tasks tid := by
    intro tid hno
    simp only [World.sweep]
    cases htask : w.tasks tid with
    | none => rfl
    | some =>
      simp only [expired_iff, htask] at hno
      grind
  refine a.leaves (fun tid => ∃ key, w.expired now key tid = true) ⟨fun key =>
    filter_sublist, fun key tid => ?_, fun key tid hgone => ?_, hstays, fun tid _ => rfl,
    fun key tid hgone _ => living_of_slots (hstays tid hgone) fun _ _ h => h, rfl⟩
  · simp only [World.sweep, mem_filter, decide_eq_true_eq, a.queued]
    refine and_congr_right fun hparked => ?_
    constructor
    · rintro hno ⟨k, hexpired⟩
      obtain ⟨task, _, htask, hstate, -⟩ := expired_iff.mp hexpired
      have hk : key = k := parkedOn_unique hparked (parkedOn_iff.mpr ⟨task, _, htask, hstate⟩)
      rw [hk, hexpired] at hno
      contradiction
    · intro hno
      exact Bool.eq_false_iff.mpr fun h => hno ⟨key, h⟩
  · obtain ⟨k, hexpired⟩ := hgone
    obtain ⟨_, _, htask, hstate, hle⟩ := expired_iff.mp hexpired
    simp [World.parkedOn, World.sweep, htask, hstate, hle, readied]

theorem resolveLiveCellOwner_eq_some (h : w.resolveLiveCellOwner cellId generation = some owner) :
    w.slots cellId = .live owner ∧ owner.cellId = cellId := by
  unfold resolveLiveCellOwner at h
  grind

theorem tasks_retireParticipants (w : World) (owner : CellOwner) (trigger tid : Nat) :
    (w.retireParticipants owner trigger).tasks tid =
      if w.retires owner trigger tid then
        (w.tasks tid).map fun task => { task with state := .retiring }
      else w.tasks tid := by
  cases h : w.retires owner trigger tid <;> simp [retireParticipants, h]

/-- The tasks that a cell's retirement passes over are in the waits of other cells. -/
theorem living_retireParticipants
    (hslot : w.slots owner.cellId = .live owner) (hstays : w.retires owner trigger tid = false)
    (hne : tid ≠ trigger) (hparked : w.parkedOn key tid = true) (h : w.living tid = true) :
    (w.retireParticipants owner trigger).living tid = true := by
  obtain ⟨task, htask, hlive⟩ := living_iff.mp h
  obtain ⟨task', _, htask', hstate⟩ := parkedOn_iff.mp hparked
  obtain rfl : task' = task := Option.some.inj (htask'.symm.trans htask)
  have howner : task'.owner ≠ owner := by
    intro heq
    have hretires : w.retires owner trigger tid = true := by simp [retires, hne, htask, heq, hstate]
    rw [hretires] at hstays
    contradiction
  have hcell : task'.owner.cellId ≠ owner.cellId := by
    intro heq
    rw [heq, hslot] at hlive
    exact howner (CellOwnerSlot.live.inj hlive).symm
  refine living_iff.mpr ⟨task', ?_, ?_⟩
  · simp [retireParticipants, htask, hstays]
  · simp [retireParticipants, hcell, hlive]

theorem leaves_dropTask (w : World) (tid : Nat) (task : Task) :
    Leaves w ((w.onTaskLeavesWait tid).dropTask tid task) fun t => t = tid := by
  have hstays : ∀ t, ¬ t = tid →
      ((w.onTaskLeavesWait tid).dropTask tid task).tasks t = w.tasks t := by
    intro t ht
    exact update_of_ne ht _ _
  refine ⟨fun key => filter_sublist, fun key t => ?_, fun key t ht => ?_, hstays,
    fun t _ => rfl, fun key t ht _ => living_of_slots (hstays t ht) fun _ _ h => h, rfl⟩
  · simp [dropTask, setTask, onTaskLeavesWait]
  · subst ht
    unfold dropTask
    split <;> simp [parkedOn, setTask]

/-- A task that drops out together with the others of its live cell. -/
theorem leaves_retire (hslot : w.slots owner.cellId = .live owner) (tid : Nat) (task : Task) :
    Leaves w (((w.onTaskLeavesWait tid).retireParticipants owner tid).dropTask tid task)
      fun t => t = tid ∨ w.retires owner tid t = true := by
  set w' := ((w.onTaskLeavesWait tid).retireParticipants owner tid).dropTask tid task with hw'
  have htasks : ∀ t, t ≠ tid → w'.tasks t =
      if w.retires owner tid t then (w.tasks t).map fun task => { task with state := .retiring }
      else w.tasks t := fun t ht =>
    (update_of_ne ht _ _).trans (tasks_retireParticipants (w.onTaskLeavesWait tid) owner tid t)
  have hstays : ∀ t, ¬ (t = tid ∨ w.retires owner tid t = true) → w'.tasks t = w.tasks t := by
    intro t ht
    rw [not_or] at ht
    rw [htasks t ht.1, if_neg ht.2]
  refine ⟨fun key => (filter_sublist).trans filter_sublist, fun key t => ?_,
    fun key t ht => ?_, hstays, fun t _ => rfl, fun key t ht hparked hliving => ?_, rfl⟩
  · change t ∈ ((w.waiters key).filter (· ≠ tid)).filter
      (fun t => w.retires owner tid t = false) ↔ _
    grind
  · by_cases htid : t = tid
    · subst htid
      rw [hw', dropTask]
      split <;> simp [parkedOn, setTask]
    · have hretires : w.retires owner tid t = true := ht.resolve_left htid
      refine parkedOn_map (w := w) (f := fun task => { task with state := .retiring }) ?_
        fun _ _ => nofun
      rw [htasks t htid, if_pos hretires]
  · rw [not_or, Bool.not_eq_true] at ht
    have hretired := living_retireParticipants hslot ht.2 ht.1 hparked hliving
    exact living_of_slots (update_of_ne ht.1 _ _) (fun _ _ h => h) hretired

theorem Agrees.exitTask (a : Agrees w) (tid : Nat) : Agrees (w.exitTask tid) := by
  unfold World.exitTask
  cases htask : w.tasks tid with
  | none =>
    refine a.leaves (fun t => t = tid) ⟨fun key => filter_sublist, fun key t => ?_,
      fun key t ht => ?_, fun t _ => rfl, fun t _ => rfl, fun key t _ _ h => h, rfl⟩
    · simp [onTaskLeavesWait]
    · subst ht
      simp [parkedOn, onTaskLeavesWait, htask]
  | some task =>
    dsimp only
    split
    · exact a
    split
    · next owner _ =>
      have hresolve : (w.onTaskLeavesWait tid).resolveLiveCellOwner task.owner.cellId
          task.owner.generation = some owner := by grind
      obtain ⟨hslot, hcell⟩ := resolveLiveCellOwner_eq_some hresolve
      rw [← hcell] at hslot
      exact a.leaves _ (leaves_retire (w := w) hslot tid task)
    · exact a.leaves _ (leaves_dropTask w tid task)

theorem onTaskLeavesWait_retireParticipants (w : World) (owner : CellOwner) (tid : Nat) :
    (w.retireParticipants owner tid).onTaskLeavesWait tid =
      (w.onTaskLeavesWait tid).retireParticipants owner tid := by
  unfold onTaskLeavesWait retireParticipants
  simp only [filter_filter, Bool.and_comm]
  rfl

/-- The other tasks of a live cell drop out because of one that has done so already. -/
theorem leaves_retireParticipants
    (hslot : w.slots owner.cellId = .live owner) (htask : w.tasks tid = some task)
    (hstate : task.state = .retiring) :
    Leaves w (w.retireParticipants owner tid) fun t => w.retires owner tid t = true := by
  refine ⟨fun key => filter_sublist, fun key t => ?_, fun key t ht => ?_, fun t ht => ?_,
    fun t _ => rfl, fun key t ht hparked hliving => ?_, rfl⟩
  · simp [retireParticipants]
  · refine parkedOn_map (w := w) (f := fun task => { task with state := .retiring }) ?_
      fun _ _ => nofun
    rw [tasks_retireParticipants, if_pos ht]
  · rw [tasks_retireParticipants, if_neg ht]
  · have hne : t ≠ tid := by
      rintro rfl
      obtain ⟨task', deadline, htask', hstate'⟩ := parkedOn_iff.mp hparked
      grind
    exact living_retireParticipants hslot (Bool.eq_false_iff.mpr ht) hne hparked hliving

theorem Agrees.retireDeferredFault (a : Agrees w) (tid : Nat) :
    Agrees (w.retireDeferredFault tid) := by
  unfold World.retireDeferredFault
  cases htask : w.tasks tid with
  | none => exact a
  | some task =>
    dsimp only
    split
    · next owner howner =>
      obtain ⟨hslot, hcell⟩ := resolveLiveCellOwner_eq_some howner
      rw [← hcell] at hslot
      have hself : (w.retireParticipants owner tid).tasks tid = some task := by
        simp [retireParticipants, retires, htask]
      unfold World.exitTask
      simp only [hself]
      split
      · next hstate => exact a.leaves _ (leaves_retireParticipants hslot htask hstate)
      -- the cell's slot is retiring by now, so there is no live owner left to resolve
      have hresolve : ((w.retireParticipants owner tid).onTaskLeavesWait tid).resolveLiveCellOwner
          task.owner.cellId task.owner.generation = none := by
        simp [resolveLiveCellOwner, onTaskLeavesWait, retireParticipants, ← hcell]
      rw [hresolve, ite_self, onTaskLeavesWait_retireParticipants]
      exact a.leaves _ (leaves_retire hslot tid task)
    · exact a.exitTask tid

/-- The reaper meets no parked task, because the cell of a parked task is live. -/
theorem Agrees.reap (a : Agrees w) (owner : CellOwner) : Agrees (w.reap owner) := by
  unfold World.reap
  split
  · next hslot =>
    have hstays : ∀ t, (¬ ∃ task, w.tasks t = some task ∧ task.owner = owner) →
        (w.tasks t).filter (fun task => task.owner ≠ owner) = w.tasks t := by
      intro t ht
      cases htask : w.tasks t with
      | none => rfl
      | some task =>
        have hne : task.owner ≠ owner := fun h => ht ⟨task, htask, h⟩
        simp [hne]
    refine a.leaves (fun t => ∃ task, w.tasks t = some task ∧ task.owner = owner)
      ⟨fun key => .refl _, fun key t => ?_, fun key t ht => ?_, hstays, fun t _ => rfl,
        fun key t ht hparked hliving => ?_, rfl⟩
    · have hout : t ∈ w.waiters key → ¬ ∃ task, w.tasks t = some task ∧ task.owner = owner := by
        rintro hmem ⟨task, htask, rfl⟩
        obtain ⟨task', htask', hlive⟩ := living_iff.mp (a.alive key t ((a.queued key t).mp hmem))
        grind
      exact (and_iff_left_of_imp hout).symm
    · obtain ⟨task, htask, howner⟩ := ht
      simp [parkedOn, htask, howner]
    · obtain ⟨task, htask, hlive⟩ := living_iff.mp hliving
      have hcell : task.owner.cellId ≠ owner.cellId := by
        intro heq
        rw [heq, hslot] at hlive
        contradiction
      refine living_iff.mpr ⟨task, (hstays t ht).trans htask, ?_⟩
      simp [hcell, hlive]
  · exact a

theorem not_parkedOn_of_ordinary (htask : w.tasks tid = some task)
    (hordinary : task.state.ordinary = true) : w.parkedOn key tid = false := by
  rw [Bool.eq_false_iff, Ne, parkedOn_iff]
  rintro ⟨task', _, htask', hstate⟩
  obtain rfl : task' = task := Option.some.inj (htask'.symm.trans htask)
  rw [hstate] at hordinary
  contradiction

theorem Agrees.freezeTaskWithCeiling (a : Agrees w) (htidy : tidy w (.freeze tid swapId) = true) :
    Agrees (w.freezeTaskWithCeiling tid swapId).2 := by
  unfold World.freezeTaskWithCeiling
  split
  · exact a
  cases htask : w.tasks tid with
  | none => exact a
  | some =>
    dsimp only
    split
    · exact a
    refine a.touch tid (fun key => ?_) (fun key => by simp [parkedOn, setTask])
      (fun t ht => by simp [setTask, ht]) rfl rfl fun _ _ h => h
    rw [Bool.eq_false_iff, Ne, parkedOn_iff]
    rintro ⟨_, _, htask', hstate⟩
    simp [tidy, htask', hstate] at htidy

theorem Agrees.unfreezeTask (a : Agrees w) (tid : Nat) : Agrees (w.unfreezeTask tid) := by
  have hceiling : Agrees { w with ceilings := update w.ceilings tid false } :=
    { a with }
  unfold World.unfreezeTask
  cases htask : w.tasks tid with
  | none => simpa only [htask] using hceiling
  | some task =>
    simp only [htask]
    cases hstate : task.state with
    | frozen =>
      simp only [TaskState.isFrozen, if_true]
      refine hceiling.touch tid (fun key => ?_) (fun key => by simp [parkedOn, setTask])
        (fun t ht => by simp [setTask, ht]) rfl rfl fun _ _ h => h
      simp [parkedOn, htask, hstate]
    | _ => exact hceiling

/-! ## steps and runs -/

/-- **Agreement**: a tidy step keeps the queues and the tasks in agreement. -/
theorem agrees_step (a : Agrees w) (htidy : tidy w op = true)
    (h : step w op = some (response, w')) : Agrees w' := by
  cases op with
  | publish tid cellId =>
    simp only [step] at h
    split at h
    · next hfree =>
      cases h
      refine a.touch tid (fun key => by simp [parkedOn, hfree.1])
        (fun key => by simp [parkedOn, setTask, setCall])
        (fun t ht => by simp [setTask, setCall, ht]) rfl rfl fun cell owner hlive => ?_
      have hne : cell ≠ cellId := by
        rintro rfl
        rw [hfree.2] at hlive
        contradiction
      simp [hne, hlive]
    · contradiction
  | thread tid =>
    simp only [step] at h
    split at h
    · next hfree =>
      cases h
      exact a.touch tid (fun key => by simp [parkedOn, hfree.1])
        (fun key => by simp [parkedOn, setTask, setCall])
        (fun t ht => by simp [setTask, setCall, ht]) rfl rfl fun _ _ h => h
    · contradiction
  | schedule tid =>
    simp only [step] at h
    cases htask : w.tasks tid with
    | none => grind
    | some =>
      simp only [htask] at h
      split at h
      · next hordinary =>
        cases h
        exact a.touch tid (fun key => not_parkedOn_of_ordinary htask hordinary.1)
          (fun key => not_parkedOn_of_ordinary (update_self _ _ _) hordinary.2)
          (fun t ht => by simp [setTask, ht]) rfl rfl fun _ _ h => h
      · contradiction
  | wait caller key _ deadline =>
    simp only [step] at h
    split at h
    · contradiction
    next hcall =>
    split at h
    · grind
    cases htask : w.tasks caller with
    | none => grind
    | some =>
      simp only [htask, Option.some.injEq, Prod.mk.injEq] at h
      simp only [tidy, htask, Option.all_some, decide_eq_true_eq] at htidy
      rw [← h.2]
      exact a.park htask (not_not.mp hcall) htidy key deadline
  | resume caller =>
    simp only [step] at h
    split at h
    · next hcall =>
      split at h
      · contradiction
      next hawake =>
      simp only [Option.some.injEq, Prod.mk.injEq] at h
      have hidle := a.idle caller (by simpa [hcall] using hawake)
      rw [← h.2]
      exact a.touch caller hidle hidle (fun t ht => by simp [setCall, ht]) rfl rfl fun _ _ h => h
    · contradiction
  | leave caller =>
    simp only [step] at h
    split at h
    · next key _ hcall =>
      simp only [Option.some.injEq, Prod.mk.injEq] at h
      have hidle := a.idle caller (by simp [hcall])
      have hwaiters : (w.removeWaiter key caller).waiters = w.waiters := by
        have hout : ∀ tid ∈ w.waiters key, tid ≠ caller := by
          rintro tid hmem rfl
          rw [a.queued, hidle key] at hmem
          contradiction
        have hfilter : (w.waiters key).filter (· ≠ caller) = w.waiters key :=
          filter_eq_self.mpr fun tid hmem => decide_eq_true (hout tid hmem)
        rw [removeWaiter, hfilter, update_eq_self]
      rw [← h.2]
      exact a.touch caller hidle hidle (fun t ht => by simp [setCall, removeWaiter, ht]) hwaiters
        rfl fun _ _ h => h
    · contradiction
  | wake _ key count =>
    simp only [step] at h
    split at h
    · grind
    · cases h
      exact a.wake key count
  | sweep now =>
    cases h
    exact a.sweep now
  | exit tid =>
    cases h
    exact a.exitTask tid
  | fault tid =>
    cases h
    exact a.retireDeferredFault tid
  | reap owner =>
    cases h
    exact a.reap owner
  | freeze =>
    cases h
    exact a.freezeTaskWithCeiling htidy
  | unfreeze tid =>
    cases h
    exact a.unfreezeTask tid

end World

variable {w : World}

/-- **Wakes**: after any tidy run, a wake of a key wakes the tasks that parked on it first, as
many as it asks for or there are, and reports their number. -/
theorem wake_wakes_first_parked {ops : List Op} {responses : List Response}
    (hrun : run step boot ops = some (responses, w))
    (htidy : Guarded step (fun w op => tidy w op = true) boot ops) {caller : Nat}
    (hcaller : (w.tasks caller).isSome) (key : FutexKey) (count : Nat) :
    ∃ (parked : List Nat) (w' : World), (∀ tid, tid ∈ parked ↔ w.parkedOn key tid = true) ∧
      parked.Pairwise (fun a b => w.ticketOf a < w.ticketOf b) ∧
      step w (.wake caller key count) =
        some (.woken (if count = 0 then parked.length else min count parked.length), w') ∧
      ∀ tid, w'.tasks tid =
        if tid ∈ parked.take (if count = 0 then parked.length else min count parked.length) then
          (w.tasks tid).map (readied .woken)
        else w.tasks tid := by
  have a : w.Agrees := run_invariant_of_guarded (fun _ _ _ _ => agrees_step) hrun htidy agrees_boot
  obtain ⟨_, htask⟩ := Option.isSome_iff_exists.mp hcaller
  have hwake := a.wake_eq key count
  refine ⟨w.waiters key, (w.wake key count).2, a.queued key, a.ordered key, ?_, fun tid => ?_⟩
  · simp only [step, htask, hwake, wakes]
  · rw [hwake]
    rfl

/-- A word in the memory that all cells share. -/
def sharedWord : FutexKey := ⟨0, 0, 4096⟩

/-- The first two of three cells wait for the word. -/
def twoParked : List Op :=
  [.publish 1 1 1 false, .publish 2 2 1 false, .publish 3 3 1 false, .wait 1 sharedWord true none,
    .wait 2 sharedWord true none]

/-- A wake by the third cell wakes the one of the two that parked first. -/
theorem wake_wakes_first_of_two : ∃ responses w w', run step boot twoParked = some (responses, w) ∧
      step w (.wake 3 sharedWord 1) = some (.woken 1, w') := by
  have htidy : Guarded step (fun w op => tidy w op = true) boot twoParked := by decide +kernel
  obtain ⟨responses, w, hrun, hwaker, hfirst⟩ : ∃ responses w,
      run step boot twoParked = some (responses, w) ∧ (w.tasks 3).isSome ∧
        w.parkedOn sharedWord 1 = true := by decide +kernel
  obtain ⟨parked, w', hparked, -, hstep, -⟩ := wake_wakes_first_parked hrun htidy hwaker sharedWord 1
  have hpos : 0 < parked.length := length_pos_of_mem ((hparked 1).mpr hfirst)
  rw [if_neg Nat.one_ne_zero, Nat.min_eq_left hpos] at hstep
  exact ⟨responses, w, w', hrun, hstep⟩

/-- The first cell is frozen while it waits: the wake reports that it woke no task, although the
second cell is parked. -/
theorem frozen_waiter_spends_wake : ∃ responses w w',
    run step boot (twoParked ++ [.freeze 1 7]) = some (responses, w) ∧
      w.parkedOn sharedWord 2 = true ∧
      step w (.wake 3 sharedWord 1) = some (.woken 0, w') ∧ w'.parkedOn sharedWord 2 = true := by
  obtain ⟨responses, w, hrun, hparked, _, w', hstep, rfl, hparked'⟩ : ∃ responses w,
      run step boot (twoParked ++ [.freeze 1 7]) = some (responses, w) ∧
        w.parkedOn sharedWord 2 = true ∧ ∃ r w', step w (.wake 3 sharedWord 1) = some (r, w') ∧
          r = .woken 0 ∧ w'.parkedOn sharedWord 2 = true := by decide +kernel
  exact ⟨responses, w, w', hrun, hparked, hstep, hparked'⟩

end Cellos.Futex
