import Cellos.Lib

/-!
# Cellos.Task.Completion

The completion queue of a cell (`task/completion.rs`).

A slot is reserved when an operation is submitted, completed by the source of its result,
and drained by whoever waits.  `drainable` is a circular buffer of slot indices.  Each
operation holds the queue's lock throughout, so it is one step; an index outside of an array
is a panic, which `none` stands for.

`Consistent` ties the buffer and the slots together: the entries of the buffer are the slots
that hold a result, each once.
-/

namespace Cellos.Completions

open Lib List Option

/-- `QUEUE_CAPACITY`. -/
def queueCapacity : Nat := 32

inductive Slot where
  | free
  /-- A submission owns this index; its result has not arrived. -/
  | reserved
  /-- The result arrived and has not been drained. -/
  | done (source : UInt32) (result : Int64)
deriving DecidableEq

/-- A finished operation. -/
structure Completion where
  slot : Nat
  source : UInt32
  result : Int64

/-- The queue: its ring and the request to wake whoever waits. -/
structure CompletionQueue where
  slots : List Slot
  /-- Indices of slots that hold an undrained result. -/
  drainable : List Nat
  (head len : Nat)
  wakeRequested : Bool
  slots_length : slots.length = queueCapacity
  drainable_length : drainable.length = queueCapacity

/-- Why a completion is refused. -/
inductive Refusal where
  | free | alreadyDone | outOfRange
deriving DecidableEq

inductive Op where
  | reserve
  | complete (slot : Nat) (source : UInt32) (result : Int64)
  | release (slot : Nat)
  | drain

inductive Response where
  | reserved (slot : Nat)
  | full
  | completed (completion : Completion)
  | refused (slot : Nat) (why : Refusal)
  | released
  | kept
  | drained (completion : Completion)
  | empty
  /-- The drained slot holds no result. -/
  | inconsistent (slot : Nat)

namespace CompletionQueue

/-- `CompletionQueue::new`. -/
def new : CompletionQueue where
  slots := replicate queueCapacity .free
  drainable := replicate queueCapacity 0
  head := 0
  len := 0
  wakeRequested := false
  slots_length := length_replicate
  drainable_length := length_replicate

/-- Write one slot. -/
def setSlot (q : CompletionQueue) (i : Nat) (slot : Slot) : CompletionQueue :=
  { q with
    slots := q.slots.set i slot
    slots_length := by rw [length_set, q.slots_length] }

/-- `reserve`: the first free slot. -/
def reserve (q : CompletionQueue) : Response × CompletionQueue :=
  match q.slots.findIdx? (· = .free) with
  | none => (.full, q)
  | some i => (.reserved i, q.setSlot i .reserved)

/-- Append a slot to the drainable ones. -/
def push (q : CompletionQueue) (i : Nat) : CompletionQueue :=
  { q with
    drainable := q.drainable.set ((q.head + q.len) % queueCapacity) i
    len := q.len + 1
    wakeRequested := true
    drainable_length := by rw [length_set, q.drainable_length] }

/-- `complete_from`. -/
def completeFrom (q : CompletionQueue) (i : Nat) (source : UInt32) (result : Int64) :
    Response × CompletionQueue :=
  match q.slots[i]? with
  | some .reserved => (.completed ⟨i, source, result⟩, (q.setSlot i (.done source result)).push i)
  | some .free => (.refused i .free, q)
  | some (.done _ _) => (.refused i .alreadyDone, q)
  | none => (.refused i .outOfRange, q)

/-- `release`. -/
def release (q : CompletionQueue) (i : Nat) : Response × CompletionQueue :=
  match q.slots[i]? with
  | some .reserved => (.released, q.setSlot i .free)
  | _ => (.kept, q)

/-- Take the oldest entry off the drainable slots. -/
def pop (q : CompletionQueue) : CompletionQueue :=
  { q with
    head := (q.head + 1) % queueCapacity
    len := q.len - 1
    wakeRequested := if q.len - 1 = 0 then false else q.wakeRequested }

/-- `drain`. -/
def drain (q : CompletionQueue) : Option (Response × CompletionQueue) :=
  if q.len = 0 then some (.empty, q)
  else
    match q.drainable[q.head]? with
    | none => none
    | some i =>
      match q.slots[i]? with
      | none => none
      | some (.done source result) => some (.drained ⟨i, source, result⟩, q.pop.setSlot i .free)
      | some _ => some (.inconsistent i, q.pop)

end CompletionQueue

open CompletionQueue

def step (q : CompletionQueue) : Op → Option (Response × CompletionQueue)
  | .reserve => some q.reserve
  | .complete i source result => some (q.completeFrom i source result)
  | .release i => some (q.release i)
  | .drain => q.drain

/-! ## the ring and the slots agree -/

/-- The completion a slot holds. -/
def Slot.completion (i : Nat) : Slot → Option Completion
  | .done source result => some ⟨i, source, result⟩
  | _ => none

namespace CompletionQueue

variable {q : CompletionQueue} {i : Nat}

/-- The drainable slots, oldest first. -/
def window (q : CompletionQueue) : List Nat := Lib.window q.drainable q.head q.len

/-- The completion at an index. -/
def completion (q : CompletionQueue) (i : Nat) : Option Completion :=
  q.slots[i]?.bind (Slot.completion i)

/-- The completions that were not drained yet, oldest first. -/
def pending (q : CompletionQueue) : List Completion := q.window.filterMap q.completion

theorem completion_setSlot_self (h : i < queueCapacity) (slot : Slot) :
    (q.setSlot i slot).completion i = slot.completion i := by
  simp [completion, setSlot, q.slots_length, h]

theorem completion_setSlot_of_ne (h : j ≠ i) (slot : Slot) :
    (q.setSlot i slot).completion j = q.completion j := by
  simp [completion, setSlot, h.symm]

theorem completion_setSlot (h : q.completion i = none)
    (hslot : slot.completion i = none) : (q.setSlot i slot).completion = q.completion := by
  funext j
  by_cases hj : j = i
  · subst hj
    by_cases hlt : j < queueCapacity
    · rw [completion_setSlot_self hlt, h, hslot]
    · simp [completion, setSlot, q.slots_length, hlt]
  · exact completion_setSlot_of_ne hj slot

theorem lt_of_completion (h : (q.completion i).isSome) : i < queueCapacity := by
  rw [← q.slots_length]
  by_contra hge
  simp [completion, getElem?_eq_none (Nat.le_of_not_lt hge)] at h

/-- The drainable slots are the slots that hold a result, each once. -/
structure Consistent (q : CompletionQueue) : Prop where
  head : q.head < queueCapacity
  nodup : q.window.Nodup
  done : ∀ i, i ∈ q.window ↔ (q.completion i).isSome

namespace Consistent

variable (k : q.Consistent)

include k

/-- **The ring never overflows**: while a slot holds no result there is a place for it. -/
theorem len_lt (hi : i < queueCapacity) (h : q.completion i = none) : q.len < queueCapacity := by
  have hnot : i ∉ q.window := by simp [k.done, h]
  have hnodup : (i :: q.window).Nodup := nodup_cons.mpr ⟨hnot, k.nodup⟩
  have hsub : i :: q.window ⊆ range queueCapacity := by
    intro j hj
    rw [mem_range]
    rcases mem_cons.mp hj with rfl | hj
    · exact hi
    · exact lt_of_completion ((k.done j).mp hj)
  have hle := (subperm_of_subset hnodup hsub).length_le
  simp only [length_cons, length_range, window, length_window] at hle
  omega

theorem len_le : q.len ≤ queueCapacity := by
  have hsub : q.window ⊆ range queueCapacity := fun j hj =>
    mem_range.mpr (lt_of_completion ((k.done j).mp hj))
  have hle := (subperm_of_subset k.nodup hsub).length_le
  simpa only [length_range, window, length_window] using hle

/-- A step that touches neither the ring nor a result. -/
theorem setSlot (h : q.completion i = none) (hslot : slot.completion i = none) :
    (q.setSlot i slot).Consistent ∧ (q.setSlot i slot).pending = q.pending := by
  have hsame := completion_setSlot h hslot
  refine ⟨{ k with done := fun j => ?_ }, ?_⟩
  · rw [hsame]
    exact k.done j
  · unfold pending
    rw [hsame]
    rfl

theorem push (hslot : q.slots[i]? = some .reserved) (source : UInt32)
    (result : Int64) : ((q.setSlot i (.done source result)).push i).Consistent ∧
      ((q.setSlot i (.done source result)).push i).pending =
        q.pending ++ [⟨i, source, result⟩] := by
  have hi : i < queueCapacity := q.slots_length ▸ (List.getElem?_eq_some_iff.mp hslot).1
  have hnone : q.completion i = none := by simp [completion, hslot, Slot.completion]
  have hwindow : ((q.setSlot i (.done source result)).push i).window = q.window ++ [i] := by
    have hlen : q.len < q.drainable.length := q.drainable_length ▸ k.len_lt hi hnone
    have hpush : Lib.window (q.drainable.set ((q.head + q.len) % q.drainable.length) i) q.head
        (q.len + 1) = q.window ++ [i] := window_push hlen i
    rwa [q.drainable_length] at hpush
  have hnot : i ∉ q.window := by simp [k.done, hnone]
  have hself : ((q.setSlot i (.done source result)).push i).completion i =
      some ⟨i, source, result⟩ := completion_setSlot_self hi _
  have hothers : ∀ j ≠ i, ((q.setSlot i (.done source result)).push i).completion j =
      q.completion j := fun j hj => completion_setSlot_of_ne hj _
  refine ⟨⟨k.head, ?_, fun j => ?_⟩, ?_⟩
  · rw [hwindow]
    exact nodup_append.mpr ⟨k.nodup, nodup_singleton i, by
      rintro a ha b hb rfl
      exact hnot (mem_singleton.mp hb ▸ ha)⟩
  · rw [hwindow, mem_append, mem_singleton]
    by_cases hj : j = i
    · subst hj
      simp [hself]
    · simp [hj, hothers j hj, k.done]
  · unfold pending
    rw [hwindow, filterMap_append, filterMap_cons_some hself, filterMap_nil]
    congr 1
    refine filterMap_congr fun j hj => hothers j ?_
    rintro rfl
    exact hnot hj

theorem drain : q.pending = [] ∧ q.len = 0 ∧ q.drain = some (.empty, q) ∨
      ∃ c q', q.drain = some (.drained c, q') ∧ q'.Consistent ∧ q.pending = c :: q'.pending ∧
        q.len = q'.len + 1 := by
  cases hlen : q.len with
  | zero =>
    refine .inl ⟨?_, rfl, ?_⟩
    · simp [pending, window, Lib.window, hlen]
    · simp [CompletionQueue.drain, hlen]
  | succ n =>
    have hhead : q.head < q.drainable.length := q.drainable_length ▸ k.head
    obtain ⟨i, hi⟩ : ∃ i, q.drainable[q.head]? = some i := ⟨_, getElem?_eq_getElem hhead⟩
    have hwindow : q.window = i :: q.pop.window := by
      have hpop : Lib.window q.drainable q.head (n + 1) = q.drainable.getD q.head default ::
          Lib.window q.drainable ((q.head + 1) % q.drainable.length) n := window_pop hhead
      rw [q.drainable_length, getD_eq_getElem?_getD, hi, getD_some] at hpop
      simpa only [window, CompletionQueue.pop, hlen, Nat.add_sub_cancel] using hpop
    -- the oldest entry names a slot that holds a result
    obtain ⟨c, hc⟩ := isSome_iff_exists.mp ((k.done i).mp (hwindow ▸ mem_cons_self))
    obtain ⟨slot, hslot, hholds⟩ := bind_eq_some_iff.mp hc
    have hnodup := hwindow ▸ k.nodup
    obtain ⟨hnot, hrest⟩ := nodup_cons.mp hnodup
    have hlt : i < queueCapacity := lt_of_completion (by rw [hc]; rfl)
    have hself : (q.pop.setSlot i .free).completion i = none := completion_setSlot_self hlt _
    have hothers : ∀ j ≠ i, (q.pop.setSlot i .free).completion j = q.completion j :=
      fun j hj => completion_setSlot_of_ne hj _
    refine .inr ⟨c, q.pop.setSlot i .free, ?_, ⟨Nat.mod_lt _ (by decide), hrest, fun j => ?_⟩, ?_,
      ?_⟩
    · cases slot with
      | done =>
        cases hholds
        simp [CompletionQueue.drain, hlen, hi, hslot]
      | free | reserved => cases hholds
    · have hdone := k.done j
      rw [hwindow, mem_cons] at hdone
      show j ∈ q.pop.window ↔ _
      by_cases hj : j = i
      · subst hj
        simp [hself, hnot]
      · rw [hothers j hj, ← hdone]
        simp [hj]
    · unfold pending
      rw [hwindow, filterMap_cons_some hc]
      congr 1
      refine filterMap_congr fun j hj => (hothers j ?_).symm
      rintro rfl
      exact hnot hj
    · simp [CompletionQueue.setSlot, CompletionQueue.pop, hlen]

omit k

end Consistent

end CompletionQueue

variable {responses : List Response}

/-! ## runs -/

/-- The completion a response reports as stored. -/
def Response.stored : Response → Option Completion
  | .completed c => some c
  | _ => none

/-- The completion a response hands out. -/
def Response.taken : Response → Option Completion
  | .drained c => some c
  | _ => none

/-- The queue after some responses: what was stored is what was handed out, followed by what
is pending. -/
structure Faithful (responses : List Response) (q : CompletionQueue) : Prop where
  consistent : q.Consistent
  order : responses.filterMap Response.stored = responses.filterMap Response.taken ++ q.pending
  sound : ∀ i, .inconsistent i ∉ responses

theorem Faithful.quiet
    (f : Faithful responses q) (k : q'.Consistent) (hpending : q'.pending = q.pending)
    (hstored : r.stored = none) (htaken : r.taken = none) (hsound : ∀ i, r ≠ .inconsistent i) :
    Faithful (responses ++ [r]) q' := by
  refine ⟨k, ?_, fun i hi => ?_⟩
  · simp [filterMap_append, hstored, htaken, hpending, f.order]
  · rcases mem_append.mp hi with hold | hnew
    · exact f.sound i hold
    · exact hsound i (mem_singleton.mp hnew).symm

end Cellos.Completions
