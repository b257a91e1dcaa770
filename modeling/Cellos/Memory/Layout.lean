import Mathlib

/-!
# Cellos.Memory.Layout

The managed physical memory of the frame allocator (`memory/frame.rs`).

Managed memory is a list of disjoint ranges.  The allocator numbers its frames by
concatenating them, so a frame has an index and an address, and adjacent indices
have adjacent addresses only inside one range.  A `Layout` is a list of ranges
with the facts the plan establishes at boot; a `ManagedPlan` also says which
range hosts the allocation bitmap, and that it has room for it.

Every range ends below `2 ^ 64` (`Layout.fits`), so no sum of the source leaves its word.
-/

namespace Cellos.Memory.Frame

def pageSize : Nat := 4096

/-- Largest number of disjoint usable ranges the allocator tracks. -/
def maxManagedRanges : Nat := 8

/-- One contiguous, page-aligned run of usable physical memory. -/
structure ManagedRange where
  /-- First frame address of the run. -/
  start : Nat
  frames : Nat
  /-- Global index of this run's first frame. -/
  indexBase : Nat
deriving DecidableEq

open ManagedRange List Option

namespace ManagedRange

variable (r : ManagedRange)

/-- The first address after the range. -/
def endAddr : Nat := r.start + r.frames * pageSize

/-- The first index after the range. -/
def endIndex : Nat := r.indexBase + r.frames

/-- The address lies in the range. -/
def Contains (addr : Nat) : Prop := r.start ≤ addr ∧ addr < r.endAddr

instance (r : ManagedRange) (addr : Nat) : Decidable (r.Contains addr) :=
  inferInstanceAs (Decidable (_ ∧ _))

/-- The index is one of the range's frames. -/
def HoldsIndex (idx : Nat) : Prop := r.indexBase ≤ idx ∧ idx < r.endIndex

instance (r : ManagedRange) (idx : Nat) : Decidable (r.HoldsIndex idx) :=
  inferInstanceAs (Decidable (_ ∧ _))

/-- Address of the frame with index `idx` of this range. -/
def addrOf (idx : Nat) : Nat := r.start + (idx - r.indexBase) * pageSize

/-- Index of the frame that contains `addr`, for an address of this range. -/
def indexOf (addr : Nat) : Nat := r.indexBase + (addr - r.start) / pageSize

variable {r : ManagedRange}

theorem contains_addrOf (h : r.HoldsIndex idx) : r.Contains (r.addrOf idx) := by
  unfold HoldsIndex endIndex at h
  unfold Contains addrOf endAddr pageSize
  omega

theorem indexOf_addrOf (h : r.HoldsIndex idx) : r.indexOf (r.addrOf idx) = idx := by
  unfold HoldsIndex at h
  unfold indexOf addrOf pageSize
  omega

theorem holdsIndex_indexOf (h : r.Contains addr) : r.HoldsIndex (r.indexOf addr) := by
  unfold Contains endAddr at h
  unfold HoldsIndex endIndex indexOf
  unfold pageSize at *
  omega

end ManagedRange

/-- The index bases are the prefix sums of the sizes, starting at `base`. -/
def Indexed : Nat → List ManagedRange → Prop
  | _, [] => True
  | base, r :: rs => r.indexBase = base ∧ Indexed (base + r.frames) rs

instance Indexed.decidable : ∀ base rs, Decidable (Indexed base rs)
  | _, [] => isTrue trivial
  | base, r :: rs =>
    have := Indexed.decidable (base + r.frames) rs
    inferInstanceAs (Decidable (_ ∧ _))

/-- Two ranges have no address in common. -/
def Apart (r r' : ManagedRange) : Prop := r.endAddr ≤ r'.start ∨ r'.endAddr ≤ r.start

instance (r r' : ManagedRange) : Decidable (Apart r r') := inferInstanceAs (Decidable (_ ∨ _))

instance : Std.Symm Apart := ⟨fun _ _ h => h.symm⟩

open ManagedRange

/-- Every usable frame the allocator manages. -/
structure Layout where
  ranges : List ManagedRange
  totalFrames : Nat
  aligned : ∀ r ∈ ranges, pageSize ∣ r.start
  nonempty : ∀ r ∈ ranges, 1 ≤ r.frames
  fits : ∀ r ∈ ranges, r.endAddr < 2 ^ 64
  disjoint : ranges.Pairwise Apart
  indexed : Indexed 0 ranges
  total : totalFrames = (ranges.map frames).sum

/-! ## the index space -/

section Indexed

variable {r : ManagedRange}

variable (h : Indexed base rs)

include h

theorem Indexed.le_indexBase (hr : r ∈ rs) : base ≤ r.indexBase := by
  induction rs generalizing base with
  | nil => simp at hr
  | cons _ _ ih =>
    cases mem_cons.mp hr with
    | inl heq =>
      rw [heq, h.1]
    | inr htail =>
      have := ih h.2 htail
      omega

theorem Indexed.endIndex_le (hr : r ∈ rs) : r.endIndex ≤ base + (rs.map frames).sum := by
  induction rs generalizing base with
  | nil => simp at hr
  | cons _ _ ih =>
    rw [map_cons, sum_cons]
    cases mem_cons.mp hr with
    | inl heq =>
      rw [heq, endIndex, h.1]
      omega
    | inr htail =>
      have := ih h.2 htail
      omega

theorem Indexed.exists_holdsIndex (hlo : base ≤ idx)
    (hhi : idx < base + (rs.map frames).sum) : ∃ r ∈ rs, r.HoldsIndex idx := by
  induction rs generalizing base with
  | nil =>
    simp at hhi
    omega
  | cons r _ ih =>
    rw [map_cons, sum_cons] at hhi
    by_cases hin : idx < base + r.frames
    · refine ⟨r, mem_cons_self, ?_, ?_⟩
      · rw [h.1]
        exact hlo
      · rw [endIndex, h.1]
        exact hin
    · obtain ⟨r', hr', hidx⟩ := ih h.2 (by omega) (by omega)
      exact ⟨r', mem_cons_of_mem r hr', hidx⟩

theorem Indexed.holdsIndex_unique (hr : r ∈ rs)
    (hr' : r' ∈ rs) (hidx : r.HoldsIndex idx) (hidx' : r'.HoldsIndex idx) : r = r' := by
  induction rs generalizing base with
  | nil => simp at hr
  | cons r₀ _ ih =>
    have hhead : r₀.endIndex = base + r₀.frames := by rw [endIndex, h.1]
    unfold HoldsIndex at hidx hidx'
    cases mem_cons.mp hr with
    | inl heq =>
      cases mem_cons.mp hr' with
      | inl heq' => rw [heq, heq']
      | inr htail' =>
        have := h.2.le_indexBase htail'
        rw [heq] at hidx
        omega
    | inr htail =>
      cases mem_cons.mp hr' with
      | inl heq' =>
        have := h.2.le_indexBase htail
        rw [heq'] at hidx'
        omega
      | inr htail' => exact ih h.2 htail htail'

omit h

end Indexed

namespace Layout

variable {l : Layout} {r r' : ManagedRange} {idx addr : Nat}

/-- Physical address of frame `idx`; `none` is the panic on an index outside the
managed ranges. -/
def frameIndexToAddr (l : Layout) (idx : Nat) : Option Nat :=
  (l.ranges.find? fun r => r.HoldsIndex idx).map fun r => r.addrOf idx

/-- Index of the managed frame at `addr`, or `none` when the address is not managed. -/
def indexOfAddr (l : Layout) (addr : Nat) : Option Nat :=
  (l.ranges.find? fun r => r.Contains addr).map fun r => r.indexOf addr

/-- The address lies in a managed range. -/
def Managed (l : Layout) (addr : Nat) : Prop := ∃ r ∈ l.ranges, r.Contains addr

theorem exists_holdsIndex (h : idx < l.totalFrames) : ∃ r ∈ l.ranges, r.HoldsIndex idx := by
  refine l.indexed.exists_holdsIndex (Nat.zero_le idx) ?_
  rw [Nat.zero_add, ← l.total]
  exact h

variable (hr : r ∈ l.ranges)

include hr

theorem holdsIndex_lt (h : r.HoldsIndex idx) : idx < l.totalFrames := by
  have hend := l.indexed.endIndex_le hr
  rw [Nat.zero_add, ← l.total] at hend
  exact lt_of_lt_of_le h.2 hend

theorem contains_unique (hr' : r' ∈ l.ranges)
    (h : r.Contains addr) (h' : r'.Contains addr) : r = r' := by
  by_contra hne
  have hapart := l.disjoint.forall hr hr' hne
  unfold Apart at hapart
  unfold Contains at h h'
  omega

theorem frameIndexToAddr_eq (h : r.HoldsIndex idx) :
    l.frameIndexToAddr idx = some (r.addrOf idx) := by
  unfold frameIndexToAddr
  cases hfind : l.ranges.find? fun r => r.HoldsIndex idx with
  | none =>
    have hnone := find?_eq_none.mp hfind r hr
    simp [h] at hnone
  | some r' =>
    have hr' : r'.HoldsIndex idx := by simpa using find?_some hfind
    rw [l.indexed.holdsIndex_unique hr (mem_of_find?_eq_some hfind) h hr']
    rfl

theorem indexOfAddr_eq (h : r.Contains addr) : l.indexOfAddr addr = some (r.indexOf addr) := by
  unfold indexOfAddr
  cases hfind : l.ranges.find? fun r => r.Contains addr with
  | none =>
    have hnone := find?_eq_none.mp hfind r hr
    simp [h] at hnone
  | some r' =>
    have hr' : r'.Contains addr := by simpa using find?_some hfind
    rw [contains_unique hr (mem_of_find?_eq_some hfind) h hr']
    rfl

omit hr

theorem frameIndexToAddr_eq_some (h : l.frameIndexToAddr idx = some addr) :
    ∃ r ∈ l.ranges, r.HoldsIndex idx ∧ addr = r.addrOf idx := by
  obtain ⟨r, hfind, hr⟩ := map_eq_some_iff.mp h
  have hidx : r.HoldsIndex idx := by simpa using find?_some hfind
  exact ⟨r, mem_of_find?_eq_some hfind, hidx, hr.symm⟩

theorem indexOfAddr_eq_some (h : l.indexOfAddr addr = some idx) :
    ∃ r ∈ l.ranges, r.Contains addr ∧ idx = r.indexOf addr := by
  obtain ⟨r, hfind, hr⟩ := map_eq_some_iff.mp h
  have haddr : r.Contains addr := by simpa using find?_some hfind
  exact ⟨r, mem_of_find?_eq_some hfind, haddr, hr.symm⟩

theorem indexOfAddr_lt (h : l.indexOfAddr addr = some idx) : idx < l.totalFrames := by
  obtain ⟨r, hr, haddr, rfl⟩ := indexOfAddr_eq_some h
  exact holdsIndex_lt hr (holdsIndex_indexOf haddr)

theorem frameIndexToAddr_isSome (h : idx < l.totalFrames) :
    ∃ addr, l.frameIndexToAddr idx = some addr := by
  obtain ⟨r, hr, hidx⟩ := exists_holdsIndex h
  exact ⟨r.addrOf idx, frameIndexToAddr_eq hr hidx⟩

variable (h : l.frameIndexToAddr idx = some addr)

include h

theorem pageSize_dvd_of_frameIndexToAddr : pageSize ∣ addr := by
  obtain ⟨r, hr, -, rfl⟩ := frameIndexToAddr_eq_some h
  exact Nat.dvd_add (l.aligned r hr) (Nat.dvd_mul_left pageSize _)

theorem managed_of_frameIndexToAddr : l.Managed addr := by
  obtain ⟨r, hr, hidx, rfl⟩ := frameIndexToAddr_eq_some h
  exact ⟨r, hr, contains_addrOf hidx⟩

/-- **Round trip**: the index of a frame's address is the frame. -/
theorem indexOfAddr_frameIndexToAddr : l.indexOfAddr addr = some idx := by
  obtain ⟨r, hr, hidx, rfl⟩ := frameIndexToAddr_eq_some h
  rw [indexOfAddr_eq hr (contains_addrOf hidx), indexOf_addrOf hidx]

omit h

theorem div_eq_of_indexOfAddr_eq (hx : l.indexOfAddr x = some idx)
    (hy : l.indexOfAddr y = some idx) : x / pageSize = y / pageSize := by
  obtain ⟨r, hr, hrx, hix⟩ := indexOfAddr_eq_some hx
  obtain ⟨r', hr', hry, hiy⟩ := indexOfAddr_eq_some hy
  have hidx : r.HoldsIndex idx := by
    rw [hix]
    exact holdsIndex_indexOf hrx
  have hidx' : r'.HoldsIndex idx := by
    rw [hiy]
    exact holdsIndex_indexOf hry
  obtain rfl := l.indexed.holdsIndex_unique hr hr' hidx hidx'
  have halign := l.aligned r hr
  unfold Contains at hrx hry
  unfold indexOf at hix hiy
  unfold pageSize at *
  omega

/-! ## holes -/

/-- Two ranges meet strictly inside the `n` indices from `s` on, and the second does not start
where the first one ends. -/
def CrossesHole (l : Layout) (s n : Nat) : Prop :=
  ∃ r ∈ l.ranges, ∃ r' ∈ l.ranges, r'.indexBase = r.endIndex ∧
    s < r'.indexBase ∧ r'.indexBase < s + n ∧ r'.start ≠ r.endAddr

instance (l : Layout) (s n : Nat) : Decidable (l.CrossesHole s n) :=
  inferInstanceAs (Decidable (∃ r ∈ l.ranges, ∃ r' ∈ l.ranges, _))

/-- The next index has the next address, unless a hole lies between the two. -/
theorem frameIndexToAddr_succ (hcross : ¬l.CrossesHole s n) (hs : s ≤ idx)
    (hn : idx + 1 < s + n) (hlt : idx + 1 < l.totalFrames)
    (h : l.frameIndexToAddr idx = some addr) :
    l.frameIndexToAddr (idx + 1) = some (addr + pageSize) := by
  obtain ⟨r, hr, hidx, rfl⟩ := frameIndexToAddr_eq_some h
  obtain ⟨r', hr', hidx'⟩ := exists_holdsIndex hlt
  rw [frameIndexToAddr_eq hr' hidx']
  by_cases hin : r.HoldsIndex (idx + 1)
  · obtain rfl := l.indexed.holdsIndex_unique hr hr' hin hidx'
    have hsub : idx + 1 - r.indexBase = idx - r.indexBase + 1 := by
      have := hidx.1
      omega
    rw [addrOf, addrOf, hsub, Nat.add_mul, Nat.one_mul, Nat.add_assoc]
  · -- the two indices lie in two ranges, which then meet at the second
    have hend : r.endIndex = idx + 1 := by
      unfold HoldsIndex at hidx hin
      omega
    have hbase : r'.indexBase = idx + 1 := by
      by_contra hne
      have hprev : r'.HoldsIndex idx := by
        unfold HoldsIndex at hidx' ⊢
        omega
      obtain rfl := l.indexed.holdsIndex_unique hr hr' hidx hprev
      exact hin hidx'
    have hstart : r'.start = r.endAddr := by
      by_contra hne
      exact hcross ⟨r, hr, r', hr', by omega, by omega, by omega, hne⟩
    have hlast : idx - r.indexBase + 1 = r.frames := by
      have := hidx.1
      unfold endIndex at hend
      omega
    rw [addrOf, addrOf, hbase, hstart, endAddr, ← hlast,
      Nat.sub_self, Nat.zero_mul, Nat.add_zero, Nat.add_mul, Nat.one_mul, Nat.add_assoc]

/-- **Physically consecutive frames**: the `n` indices from `s` on have consecutive
addresses exactly when they cross no hole. -/
theorem consecutive_iff_not_crossesHole (hn : s + n ≤ l.totalFrames)
    (h : l.frameIndexToAddr s = some addr) :
    (∀ i < n, l.frameIndexToAddr (s + i) = some (addr + i * pageSize)) ↔ ¬l.CrossesHole s n := by
  constructor
  · rintro hall ⟨r, hr, r', hr', hmeet, hlo, hhi, hne⟩
    have hpos := l.nonempty r hr
    have hpos' := l.nonempty r' hr'
    -- the last frame of `r` and the first of `r'`
    have hlast : r.HoldsIndex (r'.indexBase - 1) := by
      unfold HoldsIndex
      unfold endIndex at *
      omega
    have hfirst : r'.HoldsIndex r'.indexBase := by
      unfold HoldsIndex endIndex
      omega
    have haddr := hall (r'.indexBase - 1 - s) (by omega)
    have haddr' := hall (r'.indexBase - s) (by omega)
    rw [show s + (r'.indexBase - 1 - s) = r'.indexBase - 1 by omega,
      frameIndexToAddr_eq hr hlast, some.injEq] at haddr
    rw [show s + (r'.indexBase - s) = r'.indexBase by omega,
      frameIndexToAddr_eq hr' hfirst, some.injEq] at haddr'
    unfold addrOf at haddr haddr'
    unfold endAddr at hne
    unfold endIndex at hmeet
    unfold pageSize at *
    omega
  · intro hcross i hi
    induction i with
    | zero => simpa using h
    | succ i ih =>
      have hprev := ih (by omega)
      rw [← Nat.add_assoc, frameIndexToAddr_succ hcross (by omega) (by omega) (by omega) hprev,
        Nat.add_mul, Nat.one_mul, Nat.add_assoc]

end Layout

/-! ## the plan -/

/-- Words of the allocation bitmap. -/
def bitmapWords (totalFrames : Nat) : Nat := (totalFrames + 63) / 64

/-- Pages the bitmap occupies. -/
def bitmapPages (totalFrames : Nat) : Nat := (bitmapWords totalFrames * 8 + (pageSize - 1)) / pageSize

/-- A layout with the range that hosts the bitmap. -/
structure ManagedPlan extends Layout where
  bitmapRange : Nat
  present : bitmapRange < ranges.length
  room : bitmapPages totalFrames ≤ (ranges.get ⟨bitmapRange, present⟩).frames

namespace ManagedPlan

variable (plan : ManagedPlan)

/-- The range that hosts the bitmap. -/
def host : ManagedRange := plan.ranges.get ⟨plan.bitmapRange, plan.present⟩

/-- Physical address of the range that hosts the bitmap. -/
def bitmapStart : Nat := plan.host.start

theorem host_mem : plan.host ∈ plan.ranges := get_mem plan.ranges ⟨plan.bitmapRange, plan.present⟩

theorem indexOfAddr_bitmapStart : plan.indexOfAddr plan.bitmapStart = some plan.host.indexBase := by
  have hpos := plan.nonempty plan.host plan.host_mem
  have hcontains : plan.host.Contains plan.bitmapStart := by
    unfold Contains endAddr bitmapStart pageSize
    omega
  rw [Layout.indexOfAddr_eq plan.host_mem hcontains]
  simp [indexOf, bitmapStart]

end ManagedPlan

/-- Index of the range with the most frames, the last one of several: `best` is
the answer for the ranges before `idx`, and has `most` frames. -/
def largestFrom : List ManagedRange → Nat → Nat → Nat → Nat
  | [], _, best, _ => best
  | r :: rs, idx, best, most =>
    if most ≤ r.frames then largestFrom rs (idx + 1) idx r.frames
    else largestFrom rs (idx + 1) best most

/-- Index of the largest range (`bitmap_range` of the plan). -/
def largestRange (rs : List ManagedRange) : Nat := largestFrom rs 0 0 0

theorem largestFrom_spec (hbest : ∃ r, (pre ++ rs)[best]? = some r ∧ r.frames = most)
    (hmost : ∀ r ∈ pre, r.frames ≤ most) :
    ∃ r, (pre ++ rs)[largestFrom rs pre.length best most]? = some r ∧
      ∀ r' ∈ pre ++ rs, r'.frames ≤ r.frames := by
  induction rs generalizing pre best most with
  | nil =>
    obtain ⟨r, hr, rfl⟩ := hbest
    exact ⟨r, hr, by simpa using hmost⟩
  | cons r rs ih =>
    have hsplit : pre ++ r :: rs = (pre ++ [r]) ++ rs := by simp
    have hlen : (pre ++ [r]).length = pre.length + 1 := by simp
    rw [hsplit] at hbest ⊢
    unfold largestFrom
    rw [← hlen]
    split_ifs with hle
    · refine ih ⟨r, by simp, rfl⟩ fun r' hr' => ?_
      cases mem_append.mp hr' with
      | inl hpre => exact le_trans (hmost r' hpre) hle
      | inr hlast => rw [mem_singleton.mp hlast]
    refine ih hbest fun r' hr' => ?_
    cases mem_append.mp hr' with
    | inl hpre => exact hmost r' hpre
    | inr hlast =>
      rw [mem_singleton.mp hlast]
      omega

theorem largestRange_spec (h : rs ≠ []) :
    ∃ r, rs[largestRange rs]? = some r ∧ ∀ r' ∈ rs, r'.frames ≤ r.frames := by
  cases rs with
  | nil => contradiction
  | cons r rs =>
    show ∃ r', ([r] ++ rs)[largestFrom rs [r].length 0 r.frames]? = some r' ∧ _
    exact largestFrom_spec ⟨r, rfl, rfl⟩ (by simp)

/-- The largest of at most eight ranges has room for the bitmap. -/
theorem Layout.bitmapPages_le (l : Layout) (hcount : l.ranges.length ≤ maxManagedRanges)
    {r : ManagedRange} (hmost : ∀ r' ∈ l.ranges, r'.frames ≤ r.frames) :
    bitmapPages l.totalFrames ≤ r.frames := by
  have hsum : (l.ranges.map frames).sum ≤ l.ranges.length * r.frames := by
    have := sum_le_card_nsmul (l.ranges.map frames) r.frames (by simpa using hmost)
    simpa using this
  have htotal : l.totalFrames ≤ 8 * r.frames := by
    rw [l.total]
    exact le_trans hsum (Nat.mul_le_mul_right r.frames hcount)
  unfold bitmapPages bitmapWords pageSize
  omega

/-- **The boot plan**: the bitmap is placed in the largest range. -/
def Layout.plan (l : Layout) (hsome : l.ranges ≠ []) (hcount : l.ranges.length ≤ maxManagedRanges) :
    ManagedPlan where
  toLayout := l
  bitmapRange := largestRange l.ranges
  present := by
    obtain ⟨r, hr, -⟩ := largestRange_spec hsome
    exact (List.getElem?_eq_some_iff.mp hr).1
  room := by
    obtain ⟨r, hr, hmost⟩ := largestRange_spec hsome
    obtain ⟨hlt, hget⟩ := List.getElem?_eq_some_iff.mp hr
    have hroom := l.bitmapPages_le hcount hmost
    rw [← hget] at hroom
    exact hroom

end Cellos.Memory.Frame
