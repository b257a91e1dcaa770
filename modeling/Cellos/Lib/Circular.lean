import Mathlib

/-!
# Cellos.Lib.Circular

A queue in a circular buffer.

The buffer is a list of fixed length; `head` is the position of the oldest entry and `len`
the number of entries.  `window` reads the entries oldest first.  Writing behind the last
entry appends to the window (`window_push`), and moving the head over the oldest entry
drops it (`window_pop`), so a program that does its own index arithmetic implements a
queue.
-/

namespace Cellos.Lib

open List

variable {α : Type*} [Inhabited α] {buf : List α} {head len : Nat}

/-- The entries of a circular buffer, oldest first. -/
def window (buf : List α) (head len : Nat) : List α :=
  (List.range len).map fun i => buf.getD ((head + i) % buf.length) default

@[simp] theorem length_window : (window buf head len).length = len := by
  simp [window]

/-- Different places of the buffer are different positions. -/
theorem mod_ne_of_lt {i j cap : Nat} (hij : i < j) (hj : j < cap) :
    (head + i) % cap ≠ (head + j) % cap := by
  intro h
  have hmod : i % cap = j % cap := Nat.ModEq.add_left_cancel' head h
  rw [Nat.mod_eq_of_lt (by omega), Nat.mod_eq_of_lt hj] at hmod
  omega

theorem window_push (h : len < buf.length) (x : α) :
    window (buf.set ((head + len) % buf.length) x) head (len + 1) = window buf head len ++ [x] := by
  have hpos : (head + len) % buf.length < buf.length := Nat.mod_lt _ (by omega)
  have hold : ∀ i ∈ List.range len,
      (buf.set ((head + len) % buf.length) x).getD ((head + i) % buf.length) default =
        buf.getD ((head + i) % buf.length) default := by
    intro i hi
    have hne : (head + i) % buf.length ≠ (head + len) % buf.length :=
      mod_ne_of_lt (mem_range.mp hi) h
    simp [getD_eq_getElem?_getD, hne.symm]
  simp only [window, length_set, range_succ, map_append, map_cons, map_nil]
  rw [map_congr_left hold]
  simp [getD_eq_getElem?_getD, hpos]

/-- Moving the head over the oldest entry drops it from the window. -/
theorem window_pop (hhead : head < buf.length) : window buf head (len + 1) =
      buf.getD head default :: window buf ((head + 1) % buf.length) len := by
  simp only [window, range_succ_eq_map, map_cons, map_map, Nat.add_zero,
    Nat.mod_eq_of_lt hhead, List.cons.injEq, true_and]
  refine map_congr_left fun i _ => ?_
  simp only [Function.comp_apply, Nat.mod_add_mod]
  rw [show head + i.succ = head + 1 + i by omega]

theorem window_add (m n : Nat) :
    window buf head (m + n) = window buf head m ++ window buf ((head + m) % buf.length) n := by
  simp only [window, range_add, map_append, map_map]
  congr 1
  refine map_congr_left fun i _ => ?_
  simp only [Function.comp_apply, Nat.mod_add_mod, Nat.add_assoc]

end Cellos.Lib
