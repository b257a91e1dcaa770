import Mathlib

/-!
# Cellos.Lib.Radix

Radix tables, as the walkers of page tables use them.

An entry has a level and an index.  Level 0 holds the leaves, and entry `i` of level
`l + 1` is the table of the entries `i * fanout, i * fanout + 1, …` of level `l`.
`map` walks down to a leaf and takes a frame for every table that is missing on the
way; when the frames run out it stops, and the tables linked so far stay.
-/

namespace Cellos.Lib

open Function

/-- Entries of one table. -/
def fanout : Nat := 512

/-- Entries by level and index. -/
abbrev Radix (ε : Type*) := Nat → Nat → Option ε

namespace Radix

variable {ε φ : Type*} {link : φ → ε} {top k l i : Nat} {e : Option ε} {t t' : Radix ε}
  {alloc taken : List φ} {leaf : ε} {ok : Bool} {d : ε}

/-- The entry of level `l` on the way to leaf `k`. -/
def path (k l : Nat) : Nat := k / fanout ^ l

def put (t : Radix ε) (l i : Nat) (e : Option ε) : Radix ε := update t l (update (t l) i e)

/-- Link the missing tables above leaf `k`, from level `l` down; yields whether the frames
sufficed and those taken. -/
def descend (link : φ → ε) (k : Nat) : Nat → List φ → Radix ε → Bool × List φ × Radix ε
  | 0, _, t => (true, [], t)
  | l + 1, alloc, t =>
    if (t (l + 1) (path k (l + 1))).isSome then descend link k l alloc t
    else match alloc with
      | [] => (false, [], t)
      | f :: alloc =>
        let (ok, taken, t) := descend link k l alloc (t.put (l + 1) (path k (l + 1)) (link f))
        (ok, f :: taken, t)

/-- Install a leaf; a leaf that is there is overwritten. -/
def map (link : φ → ε) (top k : Nat) (leaf : ε) (alloc : List φ) (t : Radix ε) :
    Bool × List φ × Radix ε :=
  let (ok, taken, t) := descend link k top alloc t
  (ok, taken, if ok then t.put 0 k leaf else t)

/-- Are all tables above leaf `k` linked? -/
def reaches (top k : Nat) (t : Radix ε) : Bool :=
  (List.range top).all fun l => (t (l + 1) (path k (l + 1))).isSome

/-- Remove a leaf, unless a table above it is missing. -/
def unmap (top k : Nat) (t : Radix ε) : Radix ε :=
  if reaches top k t then t.put 0 k none else t

/-- The leaf a walk finds. -/
def find (top k : Nat) (t : Radix ε) : Option ε :=
  if reaches top k t then t 0 k else none

/-! ## the leaves -/

@[simp] theorem put_zero : t.put 0 i e 0 = update (t 0) i e := by
  simp [put]

@[simp] theorem put_succ : t.put (l + 1) i e 0 = t 0 := by
  simp [put]

@[simp] theorem descend_zero : (descend link k l alloc t).2.2 0 = t 0 := by
  fun_induction descend link k l alloc t <;> simp_all

/-- A walk to a leaf changes no other leaf. -/
theorem map_leaf (h : map link top k leaf alloc t = (ok, taken, t')) :
    t' 0 i = if ok ∧ i = k then some leaf else t 0 i := by
  cases h
  cases (descend link k top alloc t).1 <;> simp [update_apply]

/-- A leaf can only go. -/
theorem unmap_leaf (h : unmap top k t 0 i = some d) : t 0 i = some d := by
  unfold unmap at h
  split at h
  · simp only [put_zero, update_apply] at h
    split at h
    · contradiction
    · exact h
  · exact h

theorem find_eq_some (h : find top k t = some d) : t 0 k = some d := by
  unfold find at h
  split at h
  · exact h
  · contradiction

end Radix

end Cellos.Lib
