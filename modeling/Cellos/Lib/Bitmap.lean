import Mathlib

/-!
# Cellos.Lib.Bitmap

Bitmaps stored as a list of 64-bit words.

`bit` reads the bitmap as a function from indices to flags.  Setting and clearing a
bit change that function at one index (`bit_setBit`, `bit_clearBit`), so a counter
kept beside the bitmap follows `countSet`.
-/

namespace Cellos.Lib

variable (words : List (BitVec 64)) (i : Nat)

/-- The flag at index `i`; past the last word it is clear. -/
def bit : Bool := (words.getD (i / 64) 0#64).getLsbD (i % 64)

/-- The word with only bit `i % 64` set. -/
def bitMask : BitVec 64 := 1#64 <<< (i % 64)

def setBit : List (BitVec 64) := words.modify (i / 64) fun word => word ||| bitMask i

def clearBit : List (BitVec 64) := words.modify (i / 64) fun word => word &&& ~~~bitMask i

@[simp] theorem length_setBit : (setBit words i).length = words.length := by
  simp [setBit]

@[simp] theorem length_clearBit : (clearBit words i).length = words.length := by
  simp [clearBit]

open BitVec

theorem getLsbD_bitMask (i j : Nat) : (bitMask i).getLsbD j = decide (j = i % 64) := by
  have hi : i % 64 < 64 := Nat.mod_lt i (by decide)
  rw [bitMask, ← twoPow_eq, getLsbD_twoPow]
  by_cases h : j = i % 64
  · simp [h, hi]
  · simp [h, Ne.symm h]

/-! ## reading words -/

variable {i : Nat} {word : BitVec 64}

/-- Masking a word with one bit tests that bit. -/
theorem and_bitMask_eq_zero : word &&& bitMask i = 0#64 ↔ word.getLsbD (i % 64) = false := by
  constructor
  · intro h
    have hbit := congrArg (fun v => v.getLsbD (i % 64)) h
    simpa [getLsbD_bitMask i _] using hbit
  · intro h
    apply eq_of_getLsbD_eq
    intro j hj
    rw [getLsbD_and, getLsbD_bitMask i j]
    by_cases hji : j = i % 64
    · simp [hji, h]
    · simp [hji]

/-- Shifting a bit to the bottom and masking tests that bit. -/
theorem shiftRight_and_one {k : Nat} : (word >>> k) &&& 1#64 = 0#64 ↔ word.getLsbD k = false := by
  constructor
  · intro h
    have hbit := congrArg (fun v => v.getLsbD 0) h
    simpa using hbit
  · intro h
    apply eq_of_getLsbD_eq
    intro j hj
    by_cases hj0 : j = 0
    · simp [hj0, h]
    · simp [hj0, getLsbD_one]

variable {words : List (BitVec 64)} {u : Nat}

theorem bit_ctz (h : words.getD u 0#64 ≠ 0#64) :
    bit words (u * 64 + (words.getD u 0#64).ctz.toNat) = true := by
  have hbit := getLsbD_true_ctz_of_ne_zero h
  have hlt : (words.getD u 0#64).ctz.toNat < 64 := lt_of_getLsbD hbit
  generalize (words.getD u 0#64).ctz.toNat = k at hbit hlt ⊢
  unfold bit
  rw [show (u * 64 + k) / 64 = u by omega, show (u * 64 + k) % 64 = k by omega]
  exact hbit

theorem bit_of_word_allOnes
    (h : words.getD u 0#64 = allOnes 64) (hi : i / 64 = u) : bit words i = true := by
  unfold bit
  rw [hi, h, getLsbD_allOnes]
  simp [Nat.mod_lt]

/-! ## updating words -/

theorem bit_modify (h : i / 64 < words.length) (f : BitVec 64 → BitVec 64) (j : Nat) :
    bit (words.modify (i / 64) f) j =
      if j / 64 = i / 64 then (f (words.getD (i / 64) 0#64)).getLsbD (j % 64) else bit words j := by
  unfold bit
  by_cases hji : j / 64 = i / 64
  · rw [if_pos hji, hji]
    simp [h]
  · simp [hji, Ne.symm hji]

theorem div_mod_eq {j : Nat} (hd : j / 64 = i / 64) (hm : j % 64 = i % 64) : j = i := by
  omega

theorem bit_setBit (h : i / 64 < words.length) (j : Nat) :
    bit (setBit words i) j = (decide (j = i) || bit words j) := by
  rw [setBit, bit_modify h]
  by_cases hd : j / 64 = i / 64
  · rw [if_pos hd, getLsbD_or, getLsbD_bitMask i _]
    by_cases hm : j % 64 = i % 64
    · simp [div_mod_eq hd hm]
    have hne : j ≠ i := by
      rintro rfl
      exact hm rfl
    simp [hm, hne, bit, hd]
  · have hne : j ≠ i := by
      rintro rfl
      exact hd rfl
    simp [hd, hne]

theorem bit_clearBit (h : i / 64 < words.length) (j : Nat) :
    bit (clearBit words i) j = (!decide (j = i) && bit words j) := by
  have hj : j % 64 < 64 := Nat.mod_lt j (by decide)
  rw [clearBit, bit_modify h]
  by_cases hd : j / 64 = i / 64
  · rw [if_pos hd, getLsbD_and, getLsbD_not, getLsbD_bitMask i _]
    by_cases hm : j % 64 = i % 64
    · simp [div_mod_eq hd hm]
    have hne : j ≠ i := by
      rintro rfl
      exact hm rfl
    simp [hm, hne, bit, hd, hj]
  · have hne : j ≠ i := by
      rintro rfl
      exact hd rfl
    simp [hd, hne]

/-! ## counting -/

open Finset

/-- The number of set flags below `n`. -/
def countSet (f : Nat → Bool) (n : Nat) : Nat := ((range n).filter fun i => f i = true).card

/-- Setting `len` clear flags in a row adds `len`. -/
theorem countSet_setRange {f g : Nat → Bool} {n start len : Nat} (hin : start + len ≤ n)
    (hf : ∀ j, start ≤ j → j < start + len → f j = false)
    (hg : ∀ j, g j = (decide (start ≤ j ∧ j < start + len) || f j)) :
    countSet g n = countSet f n + len := by
  unfold countSet
  have hunion : (range n).filter (fun j => g j = true) =
      (range n).filter (fun j => f j = true) ∪ Ico start (start + len) := by
    ext j
    simp only [mem_union, mem_filter, mem_range, mem_Ico, hg, Bool.or_eq_true, decide_eq_true_eq]
    constructor
    · rintro ⟨hj, hnew | hold⟩
      · exact .inr hnew
      · exact .inl ⟨hj, hold⟩
    · rintro (⟨hj, hold⟩ | hnew)
      · exact ⟨hj, .inr hold⟩
      · exact ⟨by omega, .inl hnew⟩
  have hdisj : Disjoint ((range n).filter fun j => f j = true) (Ico start (start + len)) := by
    rw [disjoint_left]
    intro j hj hnew
    have hclear := hf j (mem_Ico.mp hnew).1 (mem_Ico.mp hnew).2
    rw [(mem_filter.mp hj).2] at hclear
    contradiction
  rw [hunion, card_union_of_disjoint hdisj, Nat.card_Ico, Nat.add_sub_cancel_left]

theorem countSet_clear {f g : Nat → Bool} {n : Nat} (hi : i < n) (hf : f i = true)
    (hg : ∀ j, g j = (!decide (j = i) && f j)) : countSet g n + 1 = countSet f n := by
  refine (countSet_setRange (show i + 1 ≤ n from hi) (fun j hlo hhi => ?_) fun j => ?_).symm
  · obtain rfl : j = i := by omega
    simp [hg]
  by_cases hj : j = i
  · simp [hj, hf]
  · have hout : decide (i ≤ j ∧ j < i + 1) = false := decide_eq_false (by omega)
    rw [hout, hg]
    simp [hj]

end Cellos.Lib
