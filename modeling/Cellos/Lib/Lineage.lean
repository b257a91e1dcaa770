import Mathlib

/-!
# Cellos.Lib.Lineage

Forests given by parent pointers.

`parent : ι → Option ι` names the parent of each node; `Below parent c p` says
that `p` is reached from `c` by following at least one parent pointer.  A
`Ranked` forest has a rank that drops by one along each pointer, which makes
every upward walk end.  `climb` is the executable walk, and with enough fuel it
decides `Below`.
-/

namespace Cellos.Lib

variable {ι : Type*} {parent : ι → Option ι} {rank : ι → Nat} {c : ι}

/-- `p` is a proper ancestor of `c`. -/
def Below (parent : ι → Option ι) : ι → ι → Prop := Relation.TransGen fun c p => parent c = some p

/-- The rank drops by exactly one along every parent pointer. -/
def Ranked (parent : ι → Option ι) (rank : ι → Nat) : Prop :=
  ∀ c p, parent c = some p → rank c = rank p + 1

namespace Below

variable {p : ι}

theorem single (h : parent c = some p) : Below parent c p := Relation.TransGen.single h

/-- The first pointer of an ancestry: either it ends there, or the ancestry goes on. -/
theorem head_iff : Below parent c p ↔ ∃ q, parent c = some q ∧ (q = p ∨ Below parent q p) := by
  constructor
  · intro h
    obtain ⟨q, hcq, hqp⟩ := Relation.TransGen.head'_iff.mp h
    obtain hpq | hqp := Relation.reflTransGen_iff_eq_or_transGen.mp hqp
    · exact ⟨q, hcq, .inl hpq.symm⟩
    · exact ⟨q, hcq, .inr hqp⟩
  · rintro ⟨q, hq, rfl | hqp⟩
    · exact single hq
    · exact Relation.TransGen.head hq hqp

theorem trans {a b : ι} (h₁ : Below parent a b) (h₂ : Below parent b c) : Below parent a c :=
  Relation.TransGen.trans h₁ h₂

theorem not_of_root (h : parent c = none) : ¬ Below parent c p := by
  rw [head_iff]
  rintro ⟨q, hq, -⟩
  rw [h] at hq
  contradiction

theorem rank_lt (hr : Ranked parent rank) (h : Below parent c p) : rank p < rank c := by
  induction h with
  | single h | tail _ h => have := hr _ _ h; omega

theorem irrefl (hr : Ranked parent rank) : ¬ Below parent c c :=
  fun h => Nat.lt_irrefl _ (rank_lt hr h)

/-- A transitive relation that holds along every pointer holds along every ancestry. -/
theorem lift {R : ι → ι → Prop} (htrans : ∀ a b c, R a b → R b c → R a c)
    (hedge : ∀ c p, parent c = some p → R c p) {c p : ι} (h : Below parent c p) : R c p := by
  induction h with
  | single h => exact hedge _ _ h
  | tail _ h ih => exact htrans _ _ _ ih (hedge _ _ h)

end Below

/-- Follow parent pointers from `cur` until `target` is met or a root is passed;
`none` when the fuel does not last. -/
def climb [DecidableEq ι] (parent : ι → Option ι) (target : ι) : Nat → Option ι → Option Bool
  | _, none => some false
  | 0, some _ => none
  | fuel + 1, some p => if p = target then some true else climb parent target fuel (parent p)

/-- **The walk decides ancestry**: a walk that starts at `c`'s parent and has more fuel than `c`'s
rank answers whether `c` hangs below the target. -/
theorem climb_eq_some [DecidableEq ι] (hr : Ranked parent rank) (target : ι) {fuel : Nat}
    (hfuel : rank c ≤ fuel) :
    ∃ b, climb parent target fuel (parent c) = some b ∧ (b = true ↔ Below parent c target) := by
  induction fuel generalizing c with
  | zero =>
    -- A node of rank zero has no parent: a pointer would push the rank up.
    cases hp : parent c with
    | none => exact ⟨false, rfl, by simp [Below.not_of_root hp]⟩
    | some p => have := hr c p hp; omega
  | succ _ ih =>
    cases hp : parent c with
    | none => exact ⟨false, rfl, by simp [Below.not_of_root hp]⟩
    | some p =>
      by_cases hpt : p = target
      · subst hpt
        exact ⟨true, by simp [climb], by simp [Below.single hp]⟩
      obtain ⟨b, hb, hiff⟩ := ih (c := p) (by have := hr c p hp; omega)
      refine ⟨b, by simp only [climb, if_neg hpt, hb], ?_⟩
      rw [hiff, Below.head_iff (c := c)]
      constructor
      · intro h
        exact ⟨p, hp, .inr h⟩
      · rintro ⟨q, hq, rfl | h⟩
        · rw [hp] at hq
          exact absurd (Option.some.inj hq) hpt
        · rw [hp] at hq
          exact (Option.some.inj hq) ▸ h

end Cellos.Lib
