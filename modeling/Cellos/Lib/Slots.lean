import Mathlib

/-!
# Cellos.Lib.Slots

Tables with a fixed set of slots, each empty or occupied, whose occupants carry a key.

Keys stay apart when what is written to a slot shares its key with no other slot.
-/

namespace Cellos.Lib

variable {ι α κ : Type} {slots : ι → Option α} {key : α → κ} {i j : ι} {a b : α}

/-- No two slots hold the same key. -/
def KeysApart (key : α → κ) (slots : ι → Option α) : Prop :=
  ∀ i j a b, slots i = some a → slots j = some b → key a = key b → i = j

theorem KeysApart.empty : KeysApart key fun _ : ι => none := by
  intro i j a b hi
  contradiction

variable [DecidableEq ι]

theorem update_eq_some (h : Function.update slots i (some a) j = some b) :
    (j = i ∧ b = a) ∨ (j ≠ i ∧ slots j = some b) := by
  by_cases hji : j = i
  · subst hji
    left
    simpa [eq_comm] using h
  · right
    simpa [hji] using h

theorem KeysApart.update (h : KeysApart key slots)
    (hother : ∀ j b, j ≠ i → slots j = some b → key b ≠ key a) :
    KeysApart key (Function.update slots i (some a)) := by
  intro j k b c hj hk hkey
  rcases update_eq_some hj with ⟨rfl, rfl⟩ | ⟨hji, hj'⟩
  · rcases update_eq_some hk with ⟨rfl, rfl⟩ | ⟨hki, hk'⟩
    · rfl
    · exact absurd hkey.symm (hother k c hki hk')
  · rcases update_eq_some hk with ⟨rfl, rfl⟩ | ⟨-, hk'⟩
    · exact absurd hkey (hother j b hji hj')
    · exact h j k b c hj' hk' hkey

end Cellos.Lib
