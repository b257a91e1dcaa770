import Cellos.Lib.Rows

/-!
# Cellos.Lib.History

Looking back over a list of events that grows at its end: what stood before each event, and
what has happened since.
-/

namespace Cellos.Lib

variable {α : Type*} {P Q : α → Prop} {J : List α → α → Prop} {xs : List α} {x : α}

/-- Every event is justified by those before it. -/
def Justified (J : List α → α → Prop) (xs : List α) : Prop :=
  ∀ earlier x later, xs = earlier ++ x :: later → J earlier x

theorem Justified.nil : Justified J [] := by
  intro earlier x later h
  simp at h

theorem Justified.concat (h : Justified J xs) (hx : J xs x) : Justified J (xs ++ [x]) := by
  intro earlier y later heq
  obtain rfl | ⟨init, z, rfl⟩ := List.eq_nil_or_concat later
  · obtain ⟨rfl, hlast⟩ := List.append_inj' heq rfl
    cases hlast
    exact hx
  · have hinit : xs ++ [x] = (earlier ++ y :: init) ++ [z] := by simpa using heq
    exact h earlier y init (List.append_inj' hinit rfl).1

/-- An event with `P` has happened, and all events after it satisfy `Q`. -/
def Since (P Q : α → Prop) (xs : List α) : Prop :=
  ∃ earlier x later, xs = earlier ++ x :: later ∧ P x ∧ ∀ y ∈ later, Q y

theorem Since.now (hx : P x) : Since P Q (xs ++ [x]) := ⟨xs, x, [], rfl, hx, by simp⟩

theorem Since.concat (h : Since P Q xs) (hx : Q x) : Since P Q (xs ++ [x]) := by
  obtain ⟨earlier, y, later, rfl, hy, hlater⟩ := h
  exact ⟨earlier, y, later ++ [x], by simp, hy, forall_mem_concat hlater hx⟩

end Cellos.Lib
