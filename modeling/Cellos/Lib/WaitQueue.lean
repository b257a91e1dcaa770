import Mathlib

/-!
# Cellos.Lib.WaitQueue

Parking on a condition.

A caller that finds a condition true parks: it enters a queue and blocks until
somebody wakes it.  Whoever may have made the condition false drains the queue
and then wakes what it drained, one caller at a time.  A `Monitor` is what one
such queue looks like from outside.

`Covered` is the invariant of a monitor without lost wakeups: a parked caller is
about to be woken, or it is queued and the condition still holds.
-/

namespace Cellos.Lib

/-- One wait queue. -/
structure Monitor (τ : Type*) where
  /-- Callers that block until they are woken. -/
  parked : Set τ
  queued : Set τ
  /-- Callers that were drained from a queue and will be woken. -/
  pending : Set τ
  mustWait : Prop

namespace Monitor

variable {τ : Type*} {m m' : Monitor τ} {t : τ}

/-- Every parked caller is about to be woken, or waits with good reason. -/
def Covered (m : Monitor τ) : Prop := ∀ t ∈ m.parked, t ∈ m.pending ∨ (t ∈ m.queued ∧ m.mustWait)

/-- When no wake is on its way, a parked caller waits with good reason. -/
theorem Covered.mustWait_of_quiet (h : m.Covered) (hquiet : ∀ t, t ∉ m.pending)
    (ht : t ∈ m.parked) : m.mustWait := by
  cases h t ht with
  | inl hpending => exact absurd hpending (hquiet t)
  | inr hwait => exact hwait.2

/-- A step that parks nobody: pending wakes stay pending, and whoever waited with good reason
still does or gets a wake. -/
theorem Covered.keep (h : m.Covered) (hparked : m'.parked ⊆ m.parked)
    (hpending : ∀ t ∈ m'.parked, t ∈ m.pending → t ∈ m'.pending)
    (hwait : ∀ t ∈ m'.parked, t ∈ m.queued → m.mustWait →
      t ∈ m'.pending ∨ (t ∈ m'.queued ∧ m'.mustWait)) : m'.Covered := by
  intro t ht
  cases h t (hparked ht) with
  | inl hp => exact .inl (hpending t ht hp)
  | inr hw => exact hwait t ht hw.1 hw.2

/-- Rule for parking one caller while the condition holds. -/
theorem Covered.park (h : m.Covered) (hparked : ∀ u ∈ m'.parked, u ∈ m.parked ∨ u = t)
    (hpending : m.pending ⊆ m'.pending) (hqueued : m.queued ⊆ m'.queued)
    (ht : t ∈ m'.queued) (hwait : m'.mustWait) : m'.Covered := by
  intro u hu
  cases hparked u hu with
  | inl hold =>
    cases h u hold with
    | inl hp => exact .inl (hpending hp)
    | inr hw => exact .inr ⟨hqueued hw.1, hwait⟩
  | inr hnew =>
    rw [hnew]
    exact .inr ⟨ht, hwait⟩

end Monitor

end Cellos.Lib
