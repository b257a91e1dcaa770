import Mathlib

/-!
# Cellos.Lib.Checks

Straight-line checks that fail with a status.

A handler that validates its arguments is a chain of lookups and conditions, each
of which returns early with its own error: in `Except ε`, a `do` block over `require`.
`bind_eq_ok` and `require_eq_ok` read a chain that passed back as the conjunction of what
it checked, so a proof never unfolds the monad.
-/

namespace Cellos.Lib

variable {ε α β : Type} {e : ε}

/-- Go on when the condition holds, and fail with `e` otherwise. -/
def require (c : Prop) [Decidable c] (e : ε) : Except ε Unit :=
  if c then .ok () else .error e

/-- The value of an option, or the error `e`. -/
def demand (o : Option α) (e : ε) : Except ε α :=
  match o with
  | some a => .ok a
  | none => .error e

/-- A chain passes when its first part passes and the rest passes on its value. -/
theorem bind_eq_ok {x : Except ε α} {f : α → Except ε β} {b : β} :
    x >>= f = .ok b ↔ ∃ a, x = .ok a ∧ f a = .ok b := by
  cases x with
  | error | ok => simp [bind, Except.bind]

@[simp] theorem require_eq_ok {c : Prop} [Decidable c] {u : Unit} : require c e = .ok u ↔ c := by
  unfold require
  split <;> simp_all

@[simp] theorem demand_eq_ok {o : Option α} {a : α} : demand o e = .ok a ↔ o = some a := by
  cases o <;> simp [demand]

@[simp] theorem pure_eq_ok {a b : α} : (pure a : Except ε α) = .ok b ↔ a = b := by
  simp [pure, Except.pure]

/-- **Loop rule**: what holds of the part of the list a loop has gone through, and is kept by
every turn that passes, holds of the whole list. -/
theorem foldlM_invariant {f : β → α → Except ε β} {I : List α → β → Prop}
    (hstep : ∀ done x s s', I done s → f s x = .ok s' → I (done ++ [x]) s') {xs : List α}
    {s s' : β} (h : xs.foldlM f s = .ok s') (hs : I [] s) : I xs s' := by
  suffices hfrom : ∀ done s, I done s → xs.foldlM f s = .ok s' → I (done ++ xs) s' from
    hfrom [] s hs h
  clear h hs
  induction xs with
  | nil =>
    intro done s hdone h
    rw [List.foldlM_nil, pure_eq_ok] at h
    rwa [List.append_nil, ← h]
  | cons x _ ih =>
    intro done s hdone h
    obtain ⟨t, ht, hrest⟩ := bind_eq_ok.mp h
    have := ih (done ++ [x]) t (hstep done x s t hdone ht) hrest
    rwa [List.append_assoc, List.singleton_append] at this

end Cellos.Lib
