import Cellos.Pipes.Model

/-!
# Cellos.Pipes.Wakeup

When does a parked pipe reader or writer wait in vain?

Each end of each pipe is a wait queue in the sense of `Lib.WaitQueue`: readers wait
while the ring is empty and has a writer, writers while it is full and has a reader.  A
wakeup gets lost in two ways.  A task parks although the ring changed after it looked,
because nothing looks again between the attempt and the park; and `close_end`, unlike
`on_task_leaves`, drains no queue when it takes the last end of a kind.

`Attentive` is the condition on each section, in the state before it, that rules
both out.
-/

namespace Cellos.Pipes

open Lib List Function

variable {stays : Nat → Prop} {side : PipeEnd} {id : Nat} {r : Response}

/-! ## the wait queues of a pipe -/

/-- The task is parked at this end of this pipe, without a deadline. -/
def TaskState.waitsForever : TaskState → PipeEnd → Nat → Bool
  | .pipeRead handle none, .read, id => handle.pipe == id
  | .pipeWrite handle none, .write, id => handle.pipe == id
  | _, _, _ => false

/-- The ring has nothing for the callers at an end. -/
def Pipe.blocks (p : Pipe) : PipeEnd → Bool
  | .read => p.isEmpty
  | .write => p.isFull

/-- The condition on which callers wait at an end. -/
def Pipe.mustWait (p : Pipe) (side : PipeEnd) : Bool := p.blocks side && p.ends side.other != 0

namespace World

variable (w : World)

def Parks (side : PipeEnd) (id tid : Nat) : Prop :=
  ∃ task, w.tasks tid = some task ∧ task.state.waitsForever side id = true

/-- Some context has drained the task from a queue and has yet to wake it. -/
def Pending (tid : Nat) : Prop := ∃ u ws r, w.pcs u = .waking ws r ∧ tid ∈ ws

/-- One end of one pipe as a wait queue. -/
def monitor (side : PipeEnd) (id : Nat) : Monitor Nat where
  parked := { tid | w.Parks side id tid }
  queued := { tid | ∃ p, w.pipes id = some p ∧ tid ∈ p.waiters side }
  pending := { tid | w.Pending tid }
  mustWait := ∃ p, w.pipes id = some p ∧ p.mustWait side = true

/-- No wakeup has been lost. -/
def Attended : Prop := ∀ side id, (w.monitor side id).Covered

end World

open World

variable {w w' : World} {tid : Nat} {pipes pipes' : PipeMap}
  {count : Nat}

/-- Whoever waits with good reason in the old table, among the tasks that stay,
does so in the new one. -/
def Keeps (stays : Nat → Prop) (pipes pipes' : PipeMap) (side : PipeEnd) (id : Nat) : Prop :=
  ∀ p t, pipes id = some p → p.mustWait side = true → t ∈ p.waiters side → stays t →
    ∃ p', pipes' id = some p' ∧ p'.mustWait side = true ∧ t ∈ p'.waiters side

theorem Keeps.refl (stays : Nat → Prop) (pipes : PipeMap) (side : PipeEnd) (id : Nat) :
    Keeps stays pipes pipes side id := fun p _ hp hm ht _ => ⟨p, hp, hm, ht⟩

theorem Keeps.trans (h : Keeps stays pipes pipes' side id)
    (h' : Keeps stays pipes' pipes'' side id) : Keeps stays pipes pipes'' side id := by
  intro p t hp hm ht hs
  obtain ⟨p', hp', hm', ht'⟩ := h p t hp hm ht hs
  exact h' p' t hp' hm' ht' hs

/-- A change of one pipe keeps the other ones, and keeps this one if it keeps its
waiters and their reason. -/
theorem Keeps.update {p : Pipe} (hp : pipes k = some p)
    (hnew : p.mustWait side = true → ∀ t ∈ p.waiters side, stays t →
      ∃ p', new = some p' ∧ p'.mustWait side = true ∧ t ∈ p'.waiters side)
    : Keeps stays pipes (update pipes k new) side id := by
  intro q t hq hm ht hs
  by_cases hid : id = k
  · subst hid
    obtain rfl : p = q := by simpa [hp] using hq
    simpa using hnew hm t ht hs
  · exact ⟨q, by simpa [hid] using hq, hm, ht⟩

/-- Rule for a section that parks nobody at this end and keeps the pending wakes. -/
theorem covered_keep (h : (w.monitor side id).Covered)
    (hparked : ∀ t, w'.Parks side id t → w.Parks side id t)
    (hpending : ∀ t, w'.Parks side id t → w.Pending t → w'.Pending t)
    (hkeeps : Keeps (fun t => w'.Parks side id t ∧ ¬w'.Pending t) w.pipes w'.pipes side id) :
    (w'.monitor side id).Covered := by
  refine h.keep hparked hpending fun t ht hq hw => ?_
  obtain ⟨p, hp, hmem⟩ := hq
  obtain ⟨q, hq, hm⟩ := hw
  obtain rfl : p = q := by simpa [hp] using hq
  by_cases hpend : w'.Pending t
  · exact .inl hpend
  · obtain ⟨p', hp', hm', ht'⟩ := hkeeps p t hp hm hmem ⟨ht, hpend⟩
    exact .inr ⟨⟨p', hp', ht'⟩, p', hp', hm'⟩

/-! ## what the sections of `PIPES` keep -/

namespace Pipe

variable (p : Pipe) (side side' : PipeEnd)

@[simp] theorem waiters_setWaiters (l : List Nat) :
    (p.setWaiters l side).waiters side' = if side' = side then l else p.waiters side' := by
  cases side <;> cases side' <;> rfl

@[simp] theorem ends_setWaiters (l : List Nat) : (p.setWaiters l side).ends side' = p.ends side' := by
  cases side <;> cases side' <;> rfl

@[simp] theorem blocks_setWaiters (l : List Nat) :
    (p.setWaiters l side).blocks side' = p.blocks side' := by
  cases side <;> cases side' <;> rfl

@[simp] theorem waiters_setEnds (n : Nat) : (p.setEnds n side).waiters side' = p.waiters side' := by
  cases side <;> cases side' <;> rfl

@[simp] theorem ends_setEnds (n : Nat) :
    (p.setEnds n side).ends side' = if side' = side then n else p.ends side' := by
  cases side <;> cases side' <;> rfl

@[simp] theorem blocks_setEnds (n : Nat) : (p.setEnds n side).blocks side' = p.blocks side' := by
  cases side <;> cases side' <;> rfl

@[simp] theorem other_ne : side.other ≠ side := by
  cases side <;> simp [PipeEnd.other]

@[simp] theorem other_other : side.other.other = side := by
  cases side <;> rfl

theorem mustWait_iff : p.mustWait side = true ↔ p.blocks side = true ∧ p.ends side.other ≠ 0 := by
  simp [mustWait]

theorem mem_waiters_retain (ht : t ∈ p.waiters side') (hne : t ≠ tid) :
    t ∈ (p.retain side tid).waiters side' := by
  unfold retain
  by_cases hside : side' = side
  · subst hside
    simp [ht, hne]
  · simpa [hside] using ht

theorem ends_dropEnd (tid : Nat) :
    (p.dropEnd side tid).ends side' = if side' = side then p.ends side - 1 else p.ends side' := by
  simp [dropEnd, retain]

theorem blocks_dropEnd (tid : Nat) : (p.dropEnd side tid).blocks side' = p.blocks side' := by
  simp [dropEnd, retain]

theorem mem_waiters_dropEnd (ht : t ∈ p.waiters side') (hne : t ≠ tid) :
    t ∈ (p.dropEnd side tid).waiters side' :=
  mem_waiters_retain _ _ _ (by simpa using ht) hne

theorem dead_eq_false_of_mustWait {p : Pipe} {side : PipeEnd} (h : p.mustWait side = true) :
    p.dead = false := by
  have hends := ((mustWait_iff p side).mp h).2
  cases side with
  | read =>
    have hw : p.writers ≠ 0 := hends
    simp [dead, hw]
  | write =>
    have hr : p.readers ≠ 0 := hends
    simp [dead, hr]

end Pipe

section Keeps

variable {side : PipeEnd}

open Pipe

theorem keeps_retain {p : Pipe} (hp : pipes k = some p) (s : PipeEnd)
    (hs : ∀ t, stays t → t ≠ tid) :
    Keeps stays pipes (update pipes k (some (p.retain s tid))) side id := by
  refine Keeps.update hp fun hm t ht hst => ⟨p.retain s tid, rfl, ?_, ?_⟩
  · simpa [mustWait, retain] using hm
  · exact p.mem_waiters_retain s side ht (hs t hst)

theorem onDeadline_keeps (s : PipeEnd) (hs : ∀ t, stays t → t ≠ tid) :
    Keeps stays pipes (onDeadline pipes handle tid s) side id := by
  unfold onDeadline
  cases hp : pipes handle.pipe with
  | none => exact .refl _ _ _ _
  | some => exact keeps_retain hp s hs

theorem duplicateEnd_keeps (h : duplicateEnd pipes handle = (ok, pipes')) :
    Keeps stays pipes pipes' side id := by
  unfold duplicateEnd at h
  cases hp : pipes handle.pipe with
  | none =>
    simp only [hp, Prod.mk.injEq] at h
    rw [← h.2]
    exact .refl _ _ _ _
  | some p =>
    simp only [hp, Prod.mk.injEq] at h
    rw [← h.2]
    refine Keeps.update hp fun hm t ht _ => ⟨_, rfl, ?_, by simpa using ht⟩
    obtain ⟨hblocks, hends⟩ := (p.mustWait_iff side).mp hm
    rw [mustWait_iff]
    refine ⟨by simpa using hblocks, ?_⟩
    rw [ends_setEnds]
    split_ifs
    · simp
    · exact hends

theorem parkAt_keeps (s : PipeEnd) (handle : PipeHandle) (tid : Nat) (stays : Nat → Prop) :
    Keeps stays pipes (parkAt s pipes handle tid) side id := by
  unfold parkAt
  cases hp : pipes handle.pipe with
  | none => exact .refl _ _ _ _
  | some =>
    dsimp only
    split_ifs
    · exact .refl _ _ _ _
    refine Keeps.update hp fun hm t ht _ => ⟨_, rfl, by simpa [mustWait] using hm, ?_⟩
    rw [waiters_setWaiters]
    split_ifs with hside
    · rw [← hside]
      exact mem_append_left _ ht
    · exact ht

/-- The task that parks is queued, and its reason stands. -/
theorem parkAt_waits {p : Pipe} (tid : Nat) (hp : pipes handle.pipe = some p)
    (hm : p.mustWait s = true) :
    ∃ p', parkAt s pipes handle tid handle.pipe = some p' ∧ p'.mustWait s = true ∧
      tid ∈ p'.waiters s := by
  unfold parkAt
  simp only [hp]
  split_ifs with hin
  · exact ⟨p, hp, hm, by simpa using hin⟩
  · exact ⟨_, update_self _ _ _, by simpa [mustWait] using hm, by simp⟩

variable (hs : ∀ t, stays t → t ≠ tid)

include hs

/-- Closing an end keeps its own queue, and the other one unless it takes the last end, when only
tasks that do not stay may be in it. -/
theorem closeEnd_keeps
    (hlast : ∀ p, pipes handle.pipe = some p → p.ends handle.side = 1 → id = handle.pipe →
      side = handle.side.other → ∀ t ∈ p.waiters side, ¬stays t) :
    Keeps stays pipes (closeEnd pipes handle tid) side id := by
  unfold closeEnd
  cases hp : pipes handle.pipe with
  | none => exact .refl _ _ _ _
  | some p =>
    intro q t hq hm ht hst
    by_cases hid : id = handle.pipe
    · subst hid
      obtain rfl : p = q := by simpa [hp] using hq
      obtain ⟨hblocks, hends⟩ := (p.mustWait_iff side).mp hm
      have hmust : (p.dropEnd handle.side tid).mustWait side = true := by
        rw [mustWait_iff, blocks_dropEnd, ends_dropEnd]
        refine ⟨hblocks, ?_⟩
        split_ifs with hside
        · have hother : side = handle.side.other := by rw [← hside, other_other]
          have hnotlast : p.ends handle.side ≠ 1 := fun h1 => hlast p hp h1 rfl hother t ht hst
          rw [hside] at hends
          omega
        · exact hends
      refine ⟨p.dropEnd handle.side tid, ?_, hmust, p.mem_waiters_dropEnd _ _ ht (hs t hst)⟩
      simp [dead_eq_false_of_mustWait hmust]
    · exact ⟨q, by simpa [hid] using hq, hm, ht⟩

omit hs in
theorem PipeEnd.eq_other_of_ne {b : PipeEnd} (h : a ≠ b) : a = b.other := by
  cases a <;> cases b <;> simp_all [PipeEnd.other]

/-- A leaving task that drains nobody keeps every other waiter. -/
theorem leaveEnd_keeps (hnone : (leaveEnd acc tid handle).1 = []) :
    Keeps stays acc.2 (leaveEnd acc tid handle).2 side id := by
  unfold leaveEnd at hnone ⊢
  cases hp : acc.2 handle.pipe with
  | none => exact .refl _ _ _ _
  | some p =>
    simp only [hp] at hnone ⊢
    split_ifs at hnone ⊢ with hzero
    · obtain ⟨-, hempty⟩ := append_eq_nil_iff.mp hnone
      refine Keeps.update hp fun hm t ht hst => ?_
      have hmem := p.mem_waiters_dropEnd handle.side side ht (hs t hst)
      obtain ⟨hblocks, hends⟩ := (p.mustWait_iff side).mp hm
      -- the queue that was drained is empty, so the waiter is at the other end
      have hside : side ≠ handle.side.other := by
        intro heq
        rw [heq, hempty] at hmem
        simp at hmem
      refine ⟨_, rfl, ?_, by simpa [hside] using hmem⟩
      have hsame : side = handle.side := by
        by_contra hne
        exact hside (PipeEnd.eq_other_of_ne hne)
      subst hsame
      rw [mustWait_iff]
      simp [blocks_dropEnd, ends_dropEnd, hblocks, hends]
    · refine Keeps.update hp fun hm t ht hst =>
        ⟨_, rfl, ?_, p.mem_waiters_dropEnd _ _ ht (hs t hst)⟩
      obtain ⟨hblocks, hends⟩ := (p.mustWait_iff side).mp hm
      rw [mustWait_iff, blocks_dropEnd]
      refine ⟨hblocks, ?_⟩
      by_cases hside : side.other = handle.side
      · rw [hside]
        exact hzero
      · rw [ends_dropEnd, if_neg hside]
        exact hends

omit hs in
/-- The tasks to wake only grow. -/
theorem leaveEnd_fst (acc : List Nat × PipeMap) (tid : Nat) (handle : PipeHandle) :
    ∃ ws, (leaveEnd acc tid handle).1 = acc.1 ++ ws := by
  unfold leaveEnd
  cases acc.2 handle.pipe with
  | none => exact ⟨[], by simp⟩
  | some =>
    dsimp only
    split_ifs
    · exact ⟨_, rfl⟩
    · exact ⟨[], by simp⟩

theorem foldl_leaveEnd_keeps (owned : List PipeHandle)
    (hnone : (owned.foldl (fun acc handle => leaveEnd acc tid handle) acc).1 = []) : acc.1 = [] ∧
      Keeps stays acc.2 (owned.foldl (fun acc handle => leaveEnd acc tid handle) acc).2 side id := by
  induction owned generalizing acc with
  | nil => exact ⟨hnone, .refl _ _ _ _⟩
  | cons handle _ ih =>
    obtain ⟨hfirst, hrest⟩ := ih hnone
    obtain ⟨_, hws⟩ := leaveEnd_fst acc tid handle
    refine ⟨?_, (leaveEnd_keeps hs hfirst).trans hrest⟩
    rw [hws] at hfirst
    exact (append_eq_nil_iff.mp hfirst).1

theorem onTaskLeaves_keeps
    (h : onTaskLeaves pipes tid owned = ([], pipes')) : Keeps stays pipes pipes' side id := by
  unfold onTaskLeaves at h
  simp only [Prod.mk.injEq] at h
  obtain ⟨hnone, rfl⟩ := h
  refine (foldl_leaveEnd_keeps hs owned hnone).2.trans fun p t hp hm ht _ => ⟨p, ?_, hm, ht⟩
  -- a pipe with a waiter in its own right has an end left, so it is not released
  simp [hp, dead_eq_false_of_mustWait hm]

omit hs in
/-- An attempt that moves bytes keeps the waiters it does not drain: nobody had a reason to wait
at its own end. -/
theorem keeps_moved {p : Pipe} (hp : pipes k = some p)
    (hmoves : p.blocks s = false) (hdrained : ∀ t ∈ p.waiters s.other, ¬stays t) :
    Keeps stays pipes (update pipes k (some p')) side id := by
  refine Keeps.update hp fun hm t ht hst => ?_
  by_cases hside : side = s
  · rw [mustWait_iff, hside, hmoves] at hm
    exact absurd hm.1 Bool.false_ne_true
  · rw [PipeEnd.eq_other_of_ne hside] at ht
    exact absurd hst (hdrained t ht)

/-- A read attempt keeps the waiters it does not drain. -/
theorem tryRead_keeps (h : tryRead pipes handle n tid = some (out, pipes'))
    (hdrained : ∀ bytes ws, out = .read bytes ws → ∀ t ∈ ws, ¬stays t) :
    Keeps stays pipes pipes' side id := by
  unfold tryRead at h
  cases hp : pipes handle.pipe with
  | none => simp [hp] at h
  | some =>
    simp only [hp] at h
    split_ifs at h with hempty heof <;> cases h
    · exact keeps_moved (s := .read) hp (by simpa [blocks] using hempty) (hdrained _ _ rfl)
    · exact keeps_retain hp .read hs
    · exact .refl _ _ _ _

/-- A write attempt keeps the waiters it does not drain. -/
theorem tryWrite_keeps (h : tryWrite pipes handle src tid = some (out, pipes'))
    (hdrained : ∀ count ws, out = .wrote count ws → ∀ t ∈ ws, ¬stays t) :
    Keeps stays pipes pipes' side id := by
  unfold tryWrite at h
  cases hp : pipes handle.pipe with
  | none => simp [hp] at h
  | some =>
    simp only [hp] at h
    split_ifs at h with hreaders hfull <;> cases h
    · exact keeps_retain hp .write hs
    · exact .refl _ _ _ _
    · exact keeps_moved (s := .write) hp (by simpa [blocks] using hfull) (hdrained _ _ rfl)

end Keeps

/-! ## what the sections do to the world -/

section Sections

variable {side : PipeEnd} {id t : Nat} {pc : Pc} {task : Task}
variable {now : Nat} {ws : List Nat} {r : SyscallResult}

theorem not_parks_of_canRun (h : w.canRun tid = true) : ¬w.Parks side id tid := by
  intro hparks
  obtain ⟨task, htask, hwait⟩ := hparks
  have hstate : task.state.parked = false := by simpa [canRun, htask] using h
  cases hs : task.state with
  | ready | retiring => simp [hs, TaskState.waitsForever] at hwait
  | pipeRead | pipeWrite => simp [hs, TaskState.parked] at hstate

theorem parks_of_update {new : Option Task} (hnew : new.any (·.state.waitsForever side id) = false)
    (htasks : w'.tasks = update w.tasks tid new) (h : w'.Parks side id t) :
    t ≠ tid ∧ w.Parks side id t := by
  obtain ⟨task, htask, hwait⟩ := h
  rw [htasks] at htask
  by_cases ht : t = tid
  · subst ht
    rw [update_self] at htask
    simp [htask, hwait] at hnew
  · rw [update_of_ne ht] at htask
    exact ⟨ht, task, htask, hwait⟩

theorem parks_of_handles {handles : List PipeHandle} (htask : w.tasks tid = some task)
    (htasks : w'.tasks = update w.tasks tid (some { task with pipeHandles := handles }))
    (h : w'.Parks side id t) : w.Parks side id t := by
  obtain ⟨task', htask', hwait⟩ := h
  rw [htasks] at htask'
  by_cases ht : t = tid
  · subst ht
    rw [update_self, Option.some.injEq] at htask'
    rw [← htask'] at hwait
    exact ⟨task, htask, hwait⟩
  · rw [update_of_ne ht] at htask'
    exact ⟨task', htask', hwait⟩

/-- The context has no wakes to do. -/
def Pc.NotWaking (pc : Pc) : Prop := ∀ ws r, pc ≠ .waking ws r

/-- A context that has no wakes to do moves on: every pending wake stays pending. -/
theorem pending_of_pcs (hpc : (w.pcs tid).NotWaking) (hpcs : ∀ u, u ≠ tid → w'.pcs u = w.pcs u)
    (h : w.Pending t) : w'.Pending t := by
  obtain ⟨u, ws, r, hu, hmem⟩ := h
  have hne : u ≠ tid := by
    intro heq
    rw [heq] at hu
    exact hpc ws r hu
  exact ⟨u, ws, r, by rw [hpcs u hne, hu], hmem⟩

/-- Rule for a section of a context's own that parks nobody. -/
theorem World.Attended.of_section (h : w.Attended) (hrun : w.canRun tid = true)
    (hpc : (w.pcs tid).NotWaking) (hparked : ∀ side id t, w'.Parks side id t → w.Parks side id t)
    (hpcs : ∀ u, u ≠ tid → w'.pcs u = w.pcs u)
    (hkeeps : ∀ side id, Keeps (fun t => t ≠ tid ∧ w.Parks side id t ∧ ¬w'.Pending t)
      w.pipes w'.pipes side id) : w'.Attended := by
  intro side id
  refine covered_keep (h side id) (hparked side id) (fun t _ => pending_of_pcs hpc hpcs) ?_
  intro p t hp hm hwaits ht
  refine hkeeps side id p t hp hm hwaits ⟨?_, hparked side id t ht.1, ht.2⟩
  intro heq
  rw [heq] at ht
  exact not_parks_of_canRun hrun (hparked side id tid ht.1)

theorem pcs_finishWaking (w : World) (tid : Nat) (ws : List Nat) (r : SyscallResult)
    (h : u ≠ tid) : (w.finishWaking tid ws r).2.pcs u = w.pcs u := by
  cases ws <;> simp [finishWaking, finish, setPc, h]

/-- Nothing else in the world changes. -/
theorem finishWaking_frame (w : World) (tid : Nat) (ws : List Nat) (r : SyscallResult) :
    (w.finishWaking tid ws r).2.tasks = w.tasks ∧ (w.finishWaking tid ws r).2.pipes = w.pipes ∧
      (w.finishWaking tid ws r).2.stuck = w.stuck := by
  cases ws <;> exact ⟨rfl, rfl, rfl⟩

theorem pending_finishWaking (w : World) (tid : Nat) (r : SyscallResult)
    (h : t ∈ ws) : (w.finishWaking tid ws r).2.Pending t := by
  cases ws with
  | nil => simp at h
  | cons waiter ws =>
    exact ⟨tid, waiter :: ws, r, by simp [finishWaking, setPc], h⟩

section

variable (h : w.Attended) (hrun : w.canRun tid = true) (hpc : (w.pcs tid).NotWaking)

include h hrun hpc

/-- A section that changes the pipes, wakes the tasks it drained and moves on. -/
theorem finishWaking_attended
    (hkeeps : ∀ {side id} {stays : Nat → Prop}, (∀ t, stays t → t ≠ tid) → (∀ t ∈ ws, ¬stays t) →
      Keeps stays w.pipes pipes side id) :
    (({ w with pipes } : World).finishWaking tid ws r).2.Attended := by
  refine h.of_section hrun hpc (fun _ _ _ ht => ?_) (fun u => pcs_finishWaking _ _ _ _)
    fun side id => ?_
  · rw [World.Parks, (finishWaking_frame ..).1] at ht
    exact ht
  · rw [(finishWaking_frame ..).2.1]
    exact hkeeps (fun t ht => ht.1) fun t ht hst => hst.2.2 (pending_finishWaking _ _ _ ht)

theorem setPipes_attended (pc : Pc) (hkeeps : ∀ {side id} {stays : Nat → Prop},
    (∀ t, stays t → t ≠ tid) → Keeps stays w.pipes pipes side id) :
    (({ w with pipes } : World).setPc tid pc).Attended :=
  h.of_section hrun hpc (fun _ _ _ ht => ht) (fun u hu => by simp [setPc, hu])
    fun _ _ => hkeeps fun t ht => ht.1

theorem setPc_attended (pc : Pc) : (w.setPc tid pc).Attended :=
  setPipes_attended h hrun hpc pc fun _ => .refl _ _ _ _

theorem pipeRead_attended : (w.pipeRead tid raw len timeoutTicks now).2.Attended := by
  have hmove := setPc_attended h hrun hpc
  unfold pipeRead
  cases PipeHandle.fromRaw raw with
  | none => exact hmove .user
  | some =>
    dsimp only
    split_ifs
    · exact hmove .user
    · exact hmove .user
    · exact hmove _

theorem pipeWrite_attended : (w.pipeWrite tid raw src copyIn timeoutTicks now).2.Attended := by
  have hmove := setPc_attended h hrun hpc
  unfold pipeWrite
  cases PipeHandle.fromRaw raw with
  | none => exact hmove .user
  | some =>
    dsimp only
    split_ifs
    · exact hmove .user
    · exact hmove _
    · exact hmove .user
    · exact hmove _

theorem readAttempt_attended :
    (w.readAttempt tid handle count deadline copyOut).2.Attended := by
  unfold readAttempt
  cases hread : tryRead w.pipes handle count tid with
  | none => exact setPc_attended h hrun hpc .user
  | some res =>
    obtain ⟨out, _⟩ := res
    cases out with
    | eof | empty => exact setPipes_attended h hrun hpc _ fun hs => tryRead_keeps hs hread (by simp)
    | read =>
      refine finishWaking_attended h hrun hpc fun hs hws => tryRead_keeps hs hread ?_
      rintro _ _ ⟨⟩
      exact hws

theorem writeAttempt_attended : (w.writeAttempt tid handle src deadline).2.Attended := by
  unfold writeAttempt
  cases hwrite : tryWrite w.pipes handle src tid with
  | none => exact setPc_attended h hrun hpc .user
  | some res =>
    obtain ⟨out, _⟩ := res
    cases out with
    | noReader | full =>
      exact setPipes_attended h hrun hpc _ fun hs => tryWrite_keeps hs hwrite (by simp)
    | wrote =>
      refine finishWaking_attended h hrun hpc fun hs hws => tryWrite_keeps hs hwrite ?_
      rintro _ _ ⟨⟩
      exact hws

end

/-- Parking at an end: without a deadline, only when the ring still gives a reason. -/
theorem park_attended (h : w.Attended) (hpc : (w.pcs tid).NotWaking)
    (hstate : ∀ side' id, state.waitsForever side' id = true → side' = side ∧ id = handle.pipe ∧
      ∃ p, w.pipes handle.pipe = some p ∧ p.mustWait side = true)
    (task : Task) (pc : Pc) : (({ w with pipes := parkAt side w.pipes handle tid }.setTask tid
      { task with state }).setPc tid pc).Attended := by
  intro side' id
  have hpcs : ∀ u, u ≠ tid → (update w.pcs tid pc) u = w.pcs u := fun u hu => by simp [hu]
  by_cases hwaits : state.waitsForever side' id = true
  · obtain ⟨rfl, rfl, p, hp, hm⟩ := hstate side' id hwaits
    obtain ⟨p', hp', hm', hmem'⟩ := parkAt_waits tid hp hm
    refine (h side' handle.pipe).park (fun u hu => ?_)
      (fun u => pending_of_pcs hpc hpcs) (fun u hu => ?_) ⟨p', hp', hmem'⟩ ⟨p', hp', hm'⟩
    · by_cases heq : u = tid
      · exact .inr heq
      · obtain ⟨task', htask', hwait'⟩ := hu
        exact .inl ⟨task', by simpa [setTask, setPc, heq] using htask', hwait'⟩
    obtain ⟨q, hq, hqmem⟩ := hu
    obtain rfl : p = q := by simpa [hp] using hq
    obtain ⟨p', hp', -, hmem'⟩ :=
      parkAt_keeps side' handle tid (fun _ => True) p u hp hm hqmem trivial
    exact ⟨p', hp', hmem'⟩
  · refine covered_keep (h side' id) (fun u hu => ?_) (fun u _ => pending_of_pcs hpc hpcs)
      (parkAt_keeps side handle tid _)
    exact (parks_of_update (by simpa using hwaits) rfl hu).2

theorem removeHandle_spec (w : World) (tid : Nat) (handle : PipeHandle) :
    (w.removeHandle tid handle).2.pipes = w.pipes ∧ (w.removeHandle tid handle).2.pcs = w.pcs ∧
      (w.removeHandle tid handle).2.stuck = w.stuck ∧
      ∀ side id t, (w.removeHandle tid handle).2.Parks side id t → w.Parks side id t := by
  unfold removeHandle
  cases htask : w.tasks tid with
  | none => exact ⟨rfl, rfl, rfl, fun _ _ _ h => h⟩
  | some => exact ⟨rfl, rfl, rfl, fun _ _ _ => parks_of_handles htask rfl⟩

section

variable (h : w.Attended) (hrun : w.canRun tid = true) (hpc : (w.pcs tid).NotWaking)

include h hrun hpc

theorem removeHandle_attended (handle : PipeHandle) (pc : Pc) :
    ((w.removeHandle tid handle).2.setPc tid pc).Attended := by
  obtain ⟨hpipes, hpcs, -, hparks⟩ := removeHandle_spec w tid handle
  refine h.of_section hrun hpc hparks (fun u hu => ?_) fun side id => ?_
  · simp [setPc, hpcs, hu]
  · show Keeps _ w.pipes (w.removeHandle tid handle).2.pipes side id
    rw [hpipes]
    exact .refl _ _ _ _

theorem pipeClose_attended : (w.pipeClose tid raw).2.Attended := by
  unfold pipeClose
  cases PipeHandle.fromRaw raw with
  | none => exact setPc_attended h hrun hpc .user
  | some handle =>
    have hremove := removeHandle_attended h hrun hpc handle
    dsimp only
    split
    · next heq => simpa [heq, finish] using hremove .user
    · next heq => simpa [heq] using hremove (.closing handle)

/-- Closing an end: the last one, only when nobody waits forever at the other. -/
theorem closeStep_attended (hlast : ∀ p, w.pipes handle.pipe = some p → p.ends handle.side = 1 →
      ∀ t ∈ p.waiters handle.side.other, ¬w.Parks handle.side.other handle.pipe t) :
    (w.closeStep tid handle).2.Attended := by
  refine h.of_section hrun hpc (fun _ _ _ ht => ht)
    (fun u hu => by simp [closeStep, finish, setPc, hu]) fun side id => ?_
  refine closeEnd_keeps (fun t ht => ht.1) fun p hp hone hid hside t ht hst => ?_
  subst hid hside
  exact hlast p hp hone t ht hst.2.1

theorem pipeShare_attended : (w.pipeShare tid raw targetTid).2.Attended := by
  have hdone := setPc_attended h hrun hpc .user
  unfold pipeShare
  cases PipeHandle.fromRaw raw with
  | none => exact hdone
  | some handle =>
    dsimp only
    split_ifs
    · exact hdone
    cases htarget : w.tasks targetTid with
    | none => exact hdone
    | some =>
      dsimp only
      split_ifs
      · exact hdone
      cases hdup : duplicateEnd w.pipes handle with
      | mk ok =>
        cases ok with
        | false => exact hdone
        | true =>
          refine h.of_section hrun hpc (fun side id t ht => ?_) (fun u hu => ?_) fun side id => ?_
          · exact parks_of_handles htarget rfl ht
          · simp [finish, setPc, setTask, hu]
          · exact duplicateEnd_keeps hdup

end

theorem wake_attended (h : w.Attended) (hpc : w.pcs tid = .waking (waiter :: waiters) r) :
    ((w.wakeTask waiter).finishWaking tid waiters r).2.Attended := by
  have hwake : (w.wakeTask waiter).pcs = w.pcs ∧ (w.wakeTask waiter).pipes = w.pipes := by
    unfold wakeTask
    cases w.tasks waiter <;> exact ⟨rfl, rfl⟩
  have hparks : ∀ side id t, ((w.wakeTask waiter).finishWaking tid waiters r).2.Parks side id t →
      t ≠ waiter ∧ w.Parks side id t := by
    intro side id t ht
    rw [World.Parks, (finishWaking_frame ..).1] at ht
    unfold wakeTask at ht
    cases hwaiter : w.tasks waiter with
    | none =>
      rw [hwaiter] at ht
      refine ⟨?_, ht⟩
      intro heq
      obtain ⟨_, htask, -⟩ := ht
      rw [heq, hwaiter] at htask
      contradiction
    | some =>
      rw [hwaiter] at ht
      exact parks_of_update rfl rfl ht
  intro side id
  refine covered_keep (h side id) (fun t ht => (hparks side id t ht).2) (fun t ht hp => ?_) ?_
  · obtain ⟨u, ws, r', hu, hmem⟩ := hp
    by_cases heq : u = tid
    · rw [heq, hpc] at hu
      obtain ⟨rfl, rfl⟩ := Pc.waking.inj hu
      cases mem_cons.mp hmem with
      | inl hw => exact absurd hw (hparks side id t ht).1
      | inr hrest => exact pending_finishWaking _ _ _ hrest
    · exact ⟨u, ws, r', by rw [pcs_finishWaking _ _ _ _ heq, hwake.1, hu], hmem⟩
  · rw [(finishWaking_frame ..).2.1, hwake.2]
    exact .refl _ _ _ _

/-- A task that leaves, unless the hart gets stuck waking its waiters. -/
theorem exitTask_attended (h : w.Attended)
    (hfree : (w.exitTask tid member).2.stuck = false) : (w.exitTask tid member).2.Attended := by
  unfold exitTask at hfree ⊢
  cases htask : w.tasks tid with
  | none => simpa [htask] using h
  | some task =>
    simp only [htask] at hfree ⊢
    by_cases hretiring : task.state = .retiring
    · simpa only [if_pos hretiring] using h
    simp only [if_neg hretiring] at hfree ⊢
    cases hleaves : onTaskLeaves w.pipes tid task.pipeHandles with
    | mk toWake pipes =>
      cases toWake with
      | cons => simp [hleaves] at hfree
      | nil =>
        intro side id
        have hnew : (if member then some (Task.mk .retiring []) else none).any
            (·.state.waitsForever side id) = false := by cases member <;> rfl
        have hkeeps {stays : Nat → Prop} (hs : ∀ t, stays t → t ≠ tid) :
            Keeps stays w.pipes (if task.pipeHandles = [] then w.pipes else pipes) side id := by
          split_ifs
          · exact .refl _ _ _ _
          · exact onTaskLeaves_keeps hs hleaves
        exact covered_keep (h side id) (fun t ht => (parks_of_update hnew rfl ht).2)
          (fun t _ hp => hp) (hkeeps fun t ht => (parks_of_update hnew rfl ht.1).1)

theorem expire_attended (h : w.Attended) {r : Response}
    (hexp : w.expire tid now = some (r, w')) : w'.Attended := by
  have hready {handles : List PipeHandle} {handle : PipeHandle} {s : PipeEnd} :
      ({ w with pipes := onDeadline w.pipes handle tid s }.setTask tid ⟨.ready, handles⟩).Attended := by
    intro side id
    refine covered_keep (h side id) (fun t ht => (parks_of_update rfl rfl ht).2)
      (fun t _ hp => hp) ?_
    exact onDeadline_keeps s fun t ht => (parks_of_update rfl rfl ht.1).1
  unfold expire at hexp
  split at hexp
  · split_ifs at hexp
    cases hexp
    exact hready
  · split_ifs at hexp
    cases hexp
    exact hready
  · contradiction

end Sections

/-! ## attentive runs -/

/-- The ring still gives the callers at an end a reason to wait. -/
def World.ringWaits (w : World) (side : PipeEnd) (id : Nat) : Bool :=
  (w.pipes id).any fun p => p.mustWait side

/-- Nobody is queued at this end of the pipe and parked there without a deadline. -/
def World.nobodyWaits (w : World) (side : PipeEnd) (id : Nat) : Bool :=
  match w.pipes id with
  | none => true
  | some p => (p.waiters side).all fun t =>
    !(w.tasks t).any fun task => task.state.waitsForever side id

/-- A task that parks without a deadline finds the ring as it saw it; whoever closes the last end
of a kind leaves nobody waiting for it without a deadline. -/
def attentive (w : World) : Op → Bool
  | .parkRead tid _ =>
    match w.pcs tid with
    | .readEmpty handle _ none => w.ringWaits .read handle.pipe
    | _ => true
  | .parkWrite tid _ =>
    match w.pcs tid with
    | .writeFull handle _ none => w.ringWaits .write handle.pipe
    | _ => true
  | .closeEnd tid =>
    match w.pcs tid with
    | .closing handle =>
      !((w.pipes handle.pipe).any fun p => p.ends handle.side == 1) ||
        w.nobodyWaits handle.side.other handle.pipe
    | _ => true
  | _ => true

/-- Every section of the run is attentive. -/
abbrev Attentive (w : World) (op : Op) : Prop := attentive w op = true

theorem exists_of_ringWaits (h : w.ringWaits side id = true) :
    ∃ p, w.pipes id = some p ∧ p.mustWait side = true := by
  unfold ringWaits at h
  cases hp : w.pipes id with
  | none => simp [hp] at h
  | some p => exact ⟨p, rfl, by simpa [hp] using h⟩

section

/-- The park section of either end: without a deadline the task parks only if the ring
gives a reason. -/
theorem parkAt_attended (h : w.Attended) (hrun : w.canRun tid = true) (hpc : (w.pcs tid).NotWaking)
    (hstate : ∀ side' id, state.waitsForever side' id = true →
      side' = side ∧ handle.pipe = id ∧ deadline = none)
    (hring : deadline = none → w.ringWaits side handle.pipe = true) (pc : Pc) :
    (if elapsed deadline now then w.finish tid (.ok 0)
      else
        match w.tasks tid with
        | none => w.finish tid (.error .permissionDenied)
        | some task => (none, ({ w with pipes := parkAt side w.pipes handle tid }.setTask tid
            { task with state }).setPc tid pc)).2.Attended := by
  have hdone := setPc_attended h hrun hpc .user
  split_ifs
  · exact hdone
  cases w.tasks tid with
  | none => exact hdone
  | some task =>
    refine park_attended h hpc (fun side' id hwaits => ?_) task pc
    obtain ⟨hside, hid, hnone⟩ := hstate side' id hwaits
    exact ⟨hside, hid.symm, exists_of_ringWaits (hring hnone)⟩

theorem parkRead_attended (h : w.Attended) (hrun : w.canRun tid = true)
    (hpc : w.pcs tid = .readEmpty handle count deadline) (hatt : Attentive w (.parkRead tid now)) :
    (w.parkRead tid handle count deadline now).2.Attended := by
  refine parkAt_attended h hrun (by simp [Pc.NotWaking, hpc]) (fun side id hwaits => ?_) ?_ _
  · cases deadline <;> cases side <;> simp_all [TaskState.waitsForever]
  · rintro rfl
    simpa [Attentive, attentive, hpc] using hatt

theorem parkWrite_attended (h : w.Attended) (hrun : w.canRun tid = true)
    (hpc : w.pcs tid = .writeFull handle src deadline) (hatt : Attentive w (.parkWrite tid now)) :
    (w.parkWrite tid handle src deadline now).2.Attended := by
  refine parkAt_attended h hrun (by simp [Pc.NotWaking, hpc]) (fun side id hwaits => ?_) ?_ _
  · cases deadline <;> cases side <;> simp_all [TaskState.waitsForever]
  · rintro rfl
    simpa [Attentive, attentive, hpc] using hatt

end

/-- The state a section leaves is the one its function computes. -/
theorem attended_of_some (h : some out = some (r, w'))
    (hout : out.2.Attended) : w'.Attended := by
  rw [Option.some.inj h] at hout
  exact hout

/-- **One attentive section loses no wakeup.** -/
theorem act_attended (h : w.Attended)
    (hrun : ∀ tid, op.actor = some tid → w.canRun tid = true) (hatt : Attentive w op)
    (hact : w.act op = some (r, w')) (hfree : w'.stuck = false) : w'.Attended := by
  have hquiet {tid : Nat} {pc : Pc} (hpc : w.pcs tid = pc) (hpc' : pc.NotWaking) :
      (w.pcs tid).NotWaking := by
    rw [hpc]
    exact hpc'
  cases op <;> simp only [act] at hact
  case exit =>
    refine attended_of_some hact (exitTask_attended h ?_)
    rw [Option.some.inj hact]
    exact hfree
  case expire => exact expire_attended h hact
  -- every other section stands behind one program counter
  all_goals split at hact <;> try contradiction
  next hpc =>
    exact attended_of_some hact (pipeRead_attended h (hrun _ rfl) (hquiet hpc nofun))
  next hpc =>
    exact attended_of_some hact (readAttempt_attended h (hrun _ rfl) (hquiet hpc nofun))
  next hpc => exact attended_of_some hact (parkRead_attended h (hrun _ rfl) hpc hatt)
  next hpc =>
    exact attended_of_some hact (pipeWrite_attended h (hrun _ rfl) (hquiet hpc nofun))
  next hpc =>
    exact attended_of_some hact (writeAttempt_attended h (hrun _ rfl) (hquiet hpc nofun))
  next hpc => exact attended_of_some hact (parkWrite_attended h (hrun _ rfl) hpc hatt)
  next handle hpc =>
    exact attended_of_some hact (removeHandle_attended h (hrun _ rfl) (hquiet hpc nofun) handle _)
  next hpc =>
    exact attended_of_some hact (pipeClose_attended h (hrun _ rfl) (hquiet hpc nofun))
  next handle hpc =>
    refine attended_of_some hact (closeStep_attended h (hrun _ rfl) (hquiet hpc nofun) ?_)
    intro p hp hone t ht
    have hnobody : w.nobodyWaits handle.side.other handle.pipe = true := by
      simpa [Attentive, attentive, hpc, hp, hone] using hatt
    intro hparks
    obtain ⟨_, htask, hwait⟩ := hparks
    simp only [nobodyWaits, hp, all_eq_true] at hnobody
    have hno := hnobody t ht
    simp [htask, hwait] at hno
  next hpc =>
    exact attended_of_some hact (pipeShare_attended h (hrun _ rfl) (hquiet hpc nofun))
  next hpc => exact attended_of_some hact (wake_attended h hpc)
  all_goals
    next hpc =>
    split_ifs at hact
    exact attended_of_some hact (setPc_attended h (hrun _ rfl) (hquiet hpc nofun) .user)

theorem stuck_readAttempt (w : World) (tid : Nat) (handle : PipeHandle) (count : Nat)
    (deadline : Option Nat) (copyOut : Option SyscallError) :
    (w.readAttempt tid handle count deadline copyOut).2.stuck = w.stuck := by
  unfold readAttempt
  split
  · rfl
  · exact (finishWaking_frame ..).2.2
  · rfl
  · rfl

theorem stuck_writeAttempt (w : World) (tid : Nat) (handle : PipeHandle) (src : List UInt8)
    (deadline : Option Nat) : (w.writeAttempt tid handle src deadline).2.stuck = w.stuck := by
  unfold writeAttempt
  split
  · rfl
  · exact (finishWaking_frame ..).2.2
  · rfl
  · rfl

/-- Once a hart waits for the lock it holds, it does so forever. -/
theorem stuck_of_step (h : step w op = some (r, w')) (hstuck : w.stuck = true) :
    w'.stuck = true := by
  unfold step at h
  rw [hstuck] at h
  split_ifs at h with hsched hactor
  have hof {out : Response × World} (heq : some out = some (r, w')) (hout : out.2.stuck = w.stuck) :
      w'.stuck = true := by
    rw [Option.some.inj heq, hstuck] at hout
    exact hout
  cases op <;> simp only [Op.takesScheduler, Bool.and_true, not_true_eq_false] at hsched
  all_goals
    simp only [act] at h
    split at h <;> try contradiction
  · exact hof h (stuck_readAttempt ..)
  · exact hof h (stuck_writeAttempt ..)
  · exact hof h rfl
  all_goals
    split_ifs at h
    exact hof h rfl

/-- The invariant of attentive runs. -/
theorem step_attended (h : w.stuck = false → w.Attended) (hatt : Attentive w op)
    (hstep : step w op = some (r, w')) : w'.stuck = false → w'.Attended := by
  intro hfree
  cases hstuck : w.stuck with
  | true =>
    rw [stuck_of_step hstep hstuck] at hfree
    contradiction
  | false =>
    unfold step at hstep
    split_ifs at hstep with hsched hactor
    refine act_attended (h hstuck) (fun tid hop => ?_) hatt hstep hfree
    simpa [hop] using hactor

/-- At the start nobody is parked. -/
theorem World.Idle.attended (h : w.Idle) : w.Attended := by
  intro side id t ht
  obtain ⟨task, htask, hwait⟩ := ht
  have hcan : w.canRun t = true := by simp [canRun, htask, h.tasks t task htask]
  exact absurd ⟨task, htask, hwait⟩ (not_parks_of_canRun hcan)

/-- A task that is parked without a deadline waits with good reason: a reader for a
ring that is empty and has a writer, a writer for a ring that is full and has a
reader. -/
def World.Justified (w : World) : Prop := ∀ tid task, w.tasks tid = some task →
    (∀ handle, task.state = .pipeRead handle none →
      ∃ p, w.pipes handle.pipe = some p ∧ p.len = 0 ∧ 0 < p.writers) ∧
    (∀ handle, task.state = .pipeWrite handle none →
      ∃ p, w.pipes handle.pipe = some p ∧ p.len = p.capacity ∧ 0 < p.readers)

theorem World.Attended.justified (h : w.Attended) (hq : w.Quiescent) : w.Justified := by
  have hquiet : ∀ t, ¬w.Pending t := by
    intro t hp
    obtain ⟨u, _, _, hu, -⟩ := hp
    cases hq.2 u with
    | inl huser => simp [hu] at huser
    | inr hretry => simp [hu, Pc.atRetry] at hretry
  intro tid task htask
  have hreason (side : PipeEnd) (id : Nat) (hwait : task.state.waitsForever side id = true) :
      ∃ p, w.pipes id = some p ∧ p.blocks side = true ∧ 0 < p.ends side.other := by
    obtain ⟨p, hp, hm⟩ := (h side id).mustWait_of_quiet hquiet ⟨task, htask, hwait⟩
    obtain ⟨hblocks, hends⟩ := (p.mustWait_iff side).mp hm
    exact ⟨p, hp, hblocks, Nat.pos_of_ne_zero hends⟩
  constructor
  · intro handle hstate
    obtain ⟨p, hp, hblocks, hends⟩ := hreason .read handle.pipe
      (by simp [hstate, TaskState.waitsForever])
    exact ⟨p, hp, by simpa [Pipe.blocks, Pipe.isEmpty] using hblocks, hends⟩
  · intro handle hstate
    obtain ⟨p, hp, hblocks, hends⟩ := hreason .write handle.pipe
      (by simp [hstate, TaskState.waitsForever])
    exact ⟨p, hp, by simpa [Pipe.blocks, Pipe.isFull] using hblocks, hends⟩

/-- **No lost wakeup in attentive runs** from any pipes and handle tables with nobody waiting:
once no step is in progress, every task left parked without a deadline waits with good reason. -/
theorem parked_justified_of_attentive {w₀ w : World} {ops : List Op} {rs : List Response}
    (hidle : w₀.Idle) (hrun : run step w₀ ops = some (rs, w)) (hatt : Guarded step Attentive w₀ ops)
    (hq : w.Quiescent) : w.Justified := by
  have hinv := run_invariant_of_guarded (P := fun w => w.stuck = false → w.Attended)
    (fun s i r s' => step_attended) hrun hatt fun _ => hidle.attended
  exact (hinv hq.1).justified hq

/-! ## one pipe between two tasks -/

/-- A fresh pipe of the smallest capacity. -/
def freshPipe : Pipe where
  buffer := List.replicate 64 0
  head := 0
  len := 0
  readers := 1
  writers := 1
  readWaiters := []
  writeWaiters := []
  len_le := by decide
  capacity_pos := by decide

/-- Pipe 1, read by task 1 and written by task 2. -/
def onePipe : World where
  pipes id := if id = 1 then some freshPipe else none
  tasks tid :=
    if tid = 1 then some ⟨.ready, [⟨1, .read⟩]⟩
    else if tid = 2 then some ⟨.ready, [⟨1, .write⟩]⟩
    else none
  pcs _ := .user
  stuck := false

theorem onePipe_idle : onePipe.Idle where
  queues id p hp := by
    simp only [onePipe] at hp
    split_ifs at hp
    cases hp
    exact ⟨rfl, rfl⟩
  tasks tid task htask := by
    simp only [onePipe] at htask
    split_ifs at htask <;> obtain rfl := Option.some.inj htask <;> rfl
  pcs _ := rfl
  free := rfl

/-- The reader finds the ring empty and parks; the writer writes a byte and wakes
it; it reads the byte and parks again. -/
def handoff : List Op :=
  [.pipeRead 1 2 8 0 0, .tryRead 1 none, .parkRead 1 0, .pipeWrite 2 3 [7] true 0 0, .tryWrite 2,
    .wake 2, .tryRead 1 none, .pipeRead 1 2 8 0 0, .tryRead 1 none, .parkRead 1 0]

/-- After the handoff the reader is parked again, and rightly so. -/
theorem parked_justified_handoff :
    ∃ rs w, run step onePipe handoff = some (rs, w) ∧ Guarded step Attentive onePipe handoff ∧
      w.Quiescent ∧ w.Justified := by
  have hatt : Guarded step Attentive onePipe handoff := by decide +kernel
  obtain ⟨rs, w, hrun, hq⟩ : ∃ rs w, run step onePipe handoff = some (rs, w) ∧ w.Quiescent := by
    refine ⟨_, _, rfl, rfl, fun tid => ?_⟩
    match tid with
    | 0 => exact .inl rfl
    | 1 => exact .inr ⟨rfl, _, rfl, rfl⟩
    | 2 => exact .inl rfl
    | n + 3 => exact .inl rfl
  exact ⟨rs, w, hrun, hatt, hq, parked_justified_of_attentive onePipe_idle hrun hatt hq⟩

/-- The reader finds the ring empty and parks; the writer closes its end. -/
def closeWhileParked : List Op :=
  [.pipeRead 1 2 8 0 0, .tryRead 1 none, .parkRead 1 0, .pipeClose 2 3, .closeEnd 2]

/-- Closing the last writer end wakes nobody: task 1 stays parked reading, without a deadline, on
a pipe without writers. -/
theorem close_leaves_reader_parked :
    onePipe.Idle ∧ ∃ rs w, run step onePipe closeWhileParked = some (rs, w) ∧ w.Quiescent ∧
      ¬w.Justified := by
  refine ⟨onePipe_idle, ?_⟩
  refine ⟨_, _, rfl, ⟨rfl, fun tid => ?_⟩, fun hj => ?_⟩
  · match tid with
    | 0 => exact .inl rfl
    | 1 => exact .inr ⟨rfl, _, rfl, rfl⟩
    | 2 => exact .inl rfl
    | n + 3 => exact .inl rfl
  · obtain ⟨p, hp, -, hwriters⟩ := (hj 1 _ rfl).1 ⟨1, .read⟩ rfl
    cases hp
    exact Nat.lt_irrefl 0 hwriters

end Cellos.Pipes
