import Cellos.Memory.Layout
import Cellos.Lib

/-!
# Cellos.Memory.Frame

The bitmap frame allocator (`memory/frame.rs`).

`FrameAllocator` is the state of the source: the managed layout, the counter of
used frames, the bitmap and the next-fit cursor.  The bitmap is a slice whose
length is fixed at boot, so its length is a field of the structure.  A function
that can panic (a bitmap index past the slice, a frame index outside the managed
ranges) returns `none` for the panic.
-/

namespace Cellos.Memory.Frame

open Lib List

/-- The allocator. -/
structure FrameAllocator where
  layout : Layout
  /-- Frames whose bitmap bit is currently set. -/
  usedFrames : Nat
  bitmap : List (BitVec 64)
  /-- Index after the last frame `allocateFrame` handed out. -/
  lastAllocIndex : Nat
  words : bitmap.length = bitmapWords layout.totalFrames

namespace FrameAllocator

variable {a a' : FrameAllocator} {idx start n : Nat} {r : ManagedRange} {accept : Nat → Option Bool}
  {starts : List Nat} {l : Layout} {ranges : List ManagedRange}

theorem word_lt (a : FrameAllocator) (h : idx < a.layout.totalFrames) :
    idx / 64 < a.bitmap.length := by
  rw [a.words, bitmapWords]
  omega

/-! ## single bits -/

/-- Whether frame `idx` is currently allocated. -/
def isFrameAllocated (a : FrameAllocator) (idx : Nat) : Bool :=
  if h : idx < a.layout.totalFrames then
    (a.bitmap.get ⟨idx / 64, a.word_lt h⟩ >>> (idx % 64)) &&& 1#64 != 0#64
  else false

theorem isFrameAllocated_eq (h : idx < a.layout.totalFrames) :
    a.isFrameAllocated idx = bit a.bitmap idx := by
  have hword : a.bitmap.get ⟨idx / 64, a.word_lt h⟩ = a.bitmap.getD (idx / 64) 0#64 := by
    simp [getElem?_eq_getElem (a.word_lt h)]
  rw [isFrameAllocated, dif_pos h, hword, bit]
  cases hbit : (a.bitmap.getD (idx / 64) 0#64).getLsbD (idx % 64) with
  | false => rw [bne_eq_false_iff_eq, shiftRight_and_one.mpr hbit]
  | true =>
    rw [bne_iff_ne]
    intro hzero
    rw [shiftRight_and_one.mp hzero] at hbit
    contradiction

/-- Set the bit of frame `idx`; `false` when it was set already. -/
def markUsed (a : FrameAllocator) (idx : Nat) : Option (Bool × FrameAllocator) :=
  match a.bitmap[idx / 64]? with
  | none => none
  | some word =>
    if word &&& bitMask idx ≠ 0#64 then some (false, a)
    else some (true, { a with
      bitmap := setBit a.bitmap idx
      usedFrames := a.usedFrames + 1
      words := by rw [length_setBit, a.words] })

/-- Clear the bit of frame `idx`; `false` when it was clear already. -/
def markFree (a : FrameAllocator) (idx : Nat) : Option (Bool × FrameAllocator) :=
  match a.bitmap[idx / 64]? with
  | none => none
  | some word =>
    if word &&& bitMask idx = 0#64 then some (false, a)
    else some (true, { a with
      bitmap := clearBit a.bitmap idx
      usedFrames := a.usedFrames - 1
      words := by rw [length_clearBit, a.words] })

/-- The word of a frame, and what masking it says. -/
theorem exists_word (a : FrameAllocator) (h : idx < a.layout.totalFrames) :
    ∃ word, a.bitmap[idx / 64]? = some word ∧
      (word &&& bitMask idx = 0#64 ↔ bit a.bitmap idx = false) := by
  refine ⟨_, getElem?_eq_getElem (a.word_lt h), ?_⟩
  rw [and_bitMask_eq_zero, bit, getD_eq_getElem _ _ (a.word_lt h)]

/-- What an allocation does: the `n` frames from `start` on are managed and were
free, and they are the frames it marks. -/
structure Claims (a a' : FrameAllocator) (start n : Nat) : Prop where
  layout : a'.layout = a.layout
  inside : start + n ≤ a.layout.totalFrames
  free : Window (bit a.bitmap) start n
  bits : ∀ j, bit a'.bitmap j = (decide (start ≤ j ∧ j < start + n) || bit a.bitmap j)
  used : a'.usedFrames = a.usedFrames + n

theorem markUsed_spec (h : idx < a.layout.totalFrames) (hfree : bit a.bitmap idx = false) :
    ∃ a', a.markUsed idx = some (true, a') ∧ Claims a a' idx 1 ∧
      a'.lastAllocIndex = a.lastAllocIndex := by
  obtain ⟨_, hword, hmask⟩ := a.exists_word h
  have hzero := hmask.mpr hfree
  simp only [markUsed, hword, hzero, ne_eq, not_true_eq_false, if_false]
  refine ⟨_, rfl, ⟨rfl, h, ?_, fun j => ?_, rfl⟩, rfl⟩
  · intro i hi
    rw [Nat.lt_one_iff.mp hi]
    exact hfree
  · rw [bit_setBit (a.word_lt h)]
    congr 1
    exact decide_eq_decide.mpr (by omega)

/-- Mark `n` consecutive frames starting at `start` as allocated. -/
def markRangeUsed (a : FrameAllocator) (start : Nat) : Nat → Option FrameAllocator
  | 0 => some a
  | i + 1 =>
    match markRangeUsed a start i with
    | none => none
    | some a' => (a'.markUsed (start + i)).map Prod.snd

theorem markRangeUsed_spec (hin : start + n ≤ a.layout.totalFrames)
    (hfree : Window (bit a.bitmap) start n) :
    ∃ a', a.markRangeUsed start n = some a' ∧ Claims a a' start n ∧
      a'.lastAllocIndex = a.lastAllocIndex := by
  induction n with
  | zero => exact ⟨a, rfl, ⟨rfl, hin, hfree, fun j => by simp, rfl⟩, rfl⟩
  | succ n ih =>
    obtain ⟨b, hb, hclaims, hlast⟩ := ih (by omega) fun i hi => hfree i (by omega)
    have hnext : bit b.bitmap (start + n) = false := by
      rw [hclaims.bits, hfree n (by omega)]
      simp
    obtain ⟨c, hc, hclaims', hlast'⟩ := markUsed_spec (by rw [hclaims.layout]; omega) hnext
    refine ⟨c, by simp [markRangeUsed, hb, hc], ⟨?_, hin, hfree, fun j => ?_, ?_⟩, ?_⟩
    · rw [hclaims'.layout, hclaims.layout]
    · rw [hclaims'.bits, hclaims.bits, ← Bool.or_assoc, ← Bool.decide_or]
      congr 1
      exact decide_eq_decide.mpr (by omega)
    · rw [hclaims'.used, hclaims.used, Nat.add_assoc]
    · rw [hlast', hlast]

/-! ## single frames -/

/-- The loop of `findFree` at `bitIdx`; the second argument bounds its iterations. -/
def findFreeFrom (bitmap : List (BitVec 64)) (endIdx : Nat) : Nat → Nat → Option (Option Nat)
  | bitIdx, fuel =>
    if endIdx ≤ bitIdx then some none
    else match fuel with
    | 0 => none
    | fuel + 1 =>
      match bitmap[bitIdx / 64]? with
      | none => none
      | some block =>
        if block = BitVec.allOnes 64 then findFreeFrom bitmap endIdx ((bitIdx / 64 + 1) * 64) fuel
        else if block &&& bitMask bitIdx = 0#64 then some (some bitIdx)
        else findFreeFrom bitmap endIdx (bitIdx + 1) fuel
termination_by structural _ fuel => fuel

/-- First free frame between the two indices, skipping full words. -/
def findFree (a : FrameAllocator) (startIdx endIdx : Nat) : Option (Option Nat) :=
  findFreeFrom a.bitmap endIdx startIdx (endIdx - startIdx)

/-- The search returns, and finds the first free frame between the two indices. -/
theorem findFreeFrom_spec {bitmap : List (BitVec 64)}
    (hlen : endIdx ≤ bitmap.length * 64) (bitIdx : Nat)
    (hfuel : endIdx ≤ bitIdx + fuel) : (findFreeFrom bitmap endIdx bitIdx fuel = some none ∧
      ∀ i, bitIdx ≤ i → i < endIdx → bit bitmap i = true) ∨
    ∃ idx, findFreeFrom bitmap endIdx bitIdx fuel = some (some idx) ∧ idx < endIdx ∧
      bit bitmap idx = false := by
  induction fuel generalizing bitIdx with
  | zero =>
    rw [findFreeFrom, if_pos (by omega)]
    exact .inl ⟨rfl, by omega⟩
  | succ _ ih =>
    rw [findFreeFrom]
    by_cases hend : endIdx ≤ bitIdx
    · rw [if_pos hend]
      exact .inl ⟨rfl, by omega⟩
    have hword : bitIdx / 64 < bitmap.length := by omega
    have hget : bitmap.getD (bitIdx / 64) 0#64 = bitmap[bitIdx / 64] := getD_eq_getElem _ _ hword
    simp only [if_neg hend, getElem?_eq_getElem hword]
    split_ifs with hones hclear
    · -- a full word: every index up to the next word is taken
      rcases ih ((bitIdx / 64 + 1) * 64) (by omega) with ⟨hnone, hall⟩ | hsome
      · refine .inl ⟨hnone, fun i hlo hhi => ?_⟩
        by_cases hsame : i / 64 = bitIdx / 64
        · exact bit_of_word_allOnes (hget.trans hones) hsame
        · exact hall i (by omega) hhi
      · exact .inr hsome
    · refine .inr ⟨bitIdx, rfl, by omega, ?_⟩
      rw [bit, hget]
      exact and_bitMask_eq_zero.mp hclear
    · have hset : bit bitmap bitIdx = true := by
        rw [and_bitMask_eq_zero, Bool.not_eq_false] at hclear
        rw [bit, hget]
        exact hclear
      rcases ih (bitIdx + 1) (by omega) with ⟨hnone, hall⟩ | hsome
      · refine .inl ⟨hnone, fun i hlo hhi => ?_⟩
        by_cases hi : i = bitIdx
        · rw [hi]
          exact hset
        · exact hall i (by omega) hhi
      · exact .inr hsome

theorem findFree_spec (a : FrameAllocator) (startIdx : Nat)
    (hend : endIdx ≤ a.layout.totalFrames) : (a.findFree startIdx endIdx = some none ∧
      ∀ i, startIdx ≤ i → i < endIdx → bit a.bitmap i = true) ∨
    ∃ idx, a.findFree startIdx endIdx = some (some idx) ∧ idx < endIdx ∧
      bit a.bitmap idx = false := by
  have hwords := a.words
  unfold bitmapWords at hwords
  exact findFreeFrom_spec (by omega) startIdx (by omega)

/-- Take the frame a search found: mark it and move the cursor behind it. -/
def takeFrame (a : FrameAllocator) (idx : Nat) : Option (Option Nat × FrameAllocator) :=
  match a.markUsed idx with
  | none => none
  | some (_, a') =>
    match a'.layout.frameIndexToAddr idx with
    | none => none
    | some addr => some (some addr, { a' with lastAllocIndex := idx + 1 })

/-- Allocate a physical frame: next fit from the cursor, then from the start. -/
def allocateFrame (a : FrameAllocator) : Option (Option Nat × FrameAllocator) :=
  match a.findFree a.lastAllocIndex a.layout.totalFrames with
  | none => none
  | some (some idx) => a.takeFrame idx
  | some none =>
    match a.findFree 0 a.lastAllocIndex with
    | none => none
    | some (some idx) => a.takeFrame idx
    | some none => some (none, a)

theorem takeFrame_spec (h : idx < a.layout.totalFrames) (hfree : bit a.bitmap idx = false) :
    ∃ addr a', a.takeFrame idx = some (some addr, a') ∧ Claims a a' idx 1 ∧
      a.layout.frameIndexToAddr idx = some addr ∧ a'.lastAllocIndex = idx + 1 := by
  obtain ⟨b, hb, hclaims, -⟩ := markUsed_spec h hfree
  obtain ⟨addr, haddr⟩ := Layout.frameIndexToAddr_isSome h
  refine ⟨addr, { b with lastAllocIndex := idx + 1 }, ?_, ?_, haddr, rfl⟩
  · simp only [takeFrame, hb, hclaims.layout, haddr]
  · exact { hclaims with }

/-- Allocating a frame takes one free frame, and fails only when there is none. -/
theorem allocateFrame_spec (hlast : a.lastAllocIndex ≤ a.layout.totalFrames) :
    (a.allocateFrame = some (none, a) ∧ ∀ i < a.layout.totalFrames, bit a.bitmap i = true) ∨
    ∃ idx addr a', a.allocateFrame = some (some addr, a') ∧ Claims a a' idx 1 ∧
      a.layout.frameIndexToAddr idx = some addr ∧ a'.lastAllocIndex = idx + 1 := by
  unfold allocateFrame
  rcases a.findFree_spec a.lastAllocIndex le_rfl with
    ⟨hnone, hupper⟩ | ⟨idx, hsome, hlt, hfree⟩
  · rcases a.findFree_spec 0 hlast with ⟨hnone', hlower⟩ | ⟨idx, hsome, hlt, hfree⟩
    · refine .inl ⟨by simp only [hnone, hnone'], fun i hi => ?_⟩
      by_cases hsplit : i < a.lastAllocIndex
      · exact hlower i (Nat.zero_le i) hsplit
      · exact hupper i (by omega) hi
    · obtain ⟨addr, a', htake, hspec⟩ := takeFrame_spec (by omega) hfree
      exact .inr ⟨idx, addr, a', by simp only [hnone, hsome, htake], hspec⟩
  · obtain ⟨addr, a', htake, hspec⟩ := takeFrame_spec hlt hfree
    exact .inr ⟨idx, addr, a', by simp only [hsome, htake], hspec⟩

/-- What a release logs instead of freeing. -/
inductive FreeWarning
  | unusedFrame (frame : Nat)
  | invalidFrame (frame : Nat)
deriving DecidableEq

/-- Deallocate the frame that contains the address. -/
def deallocateFrame (a : FrameAllocator) (frame : Nat) :
    Option (Option FreeWarning × FrameAllocator) :=
  match a.layout.indexOfAddr frame with
  | none => some (some (.invalidFrame frame), a)
  | some idx =>
    match a.markFree idx with
    | none => none
    | some (true, a') => some (none, a')
    | some (false, a') => some (some (.unusedFrame frame), a')

/-- What a release does: at most one bit, the one of the address, is cleared. -/
structure Frees (a a' : FrameAllocator) (frame : Nat) : Prop where
  layout : a'.layout = a.layout
  last : a'.lastAllocIndex = a.lastAllocIndex
  change : a' = a ∨ ∃ idx, a.layout.indexOfAddr frame = some idx ∧ bit a.bitmap idx = true ∧
    (∀ j, bit a'.bitmap j = (!decide (j = idx) && bit a.bitmap j)) ∧
    a'.usedFrames = a.usedFrames - 1

theorem deallocateFrame_spec (a : FrameAllocator) (frame : Nat) :
    ∃ w a', a.deallocateFrame frame = some (w, a') ∧ Frees a a' frame := by
  unfold deallocateFrame
  cases hidx : a.layout.indexOfAddr frame with
  | none => exact ⟨_, a, rfl, rfl, rfl, .inl rfl⟩
  | some idx =>
    obtain ⟨word, hword, hmask⟩ := a.exists_word (Layout.indexOfAddr_lt hidx)
    by_cases hclear : word &&& bitMask idx = 0#64
    · simp only [markFree, hword, hclear, if_true]
      exact ⟨_, a, rfl, rfl, rfl, .inl rfl⟩
    simp only [markFree, hword, hclear, if_false]
    refine ⟨_, _, rfl, rfl, rfl, .inr ⟨idx, hidx, ?_, fun j => ?_, rfl⟩⟩
    · rw [hmask, Bool.not_eq_false] at hclear
      exact hclear
    · exact bit_clearBit (a.word_lt (Layout.indexOfAddr_lt hidx)) j

/-! ## contiguous frames -/

/-- The first of the candidate starts that is accepted and followed by `n` free
frames. -/
def findStart (a : FrameAllocator) (n : Nat) (accept : Nat → Option Bool) :
    List Nat → Option (Option Nat)
  | [] => some none
  | start :: starts =>
    match accept start with
    | none => none
    | some false => findStart a n accept starts
    | some true =>
      if (range n).any fun i => a.isFrameAllocated (start + i) then
        findStart a n accept starts
      else some (some start)

/-- Mark the `n` frames from `start` on, and answer the address of the first. -/
def takeRange (a : FrameAllocator) (start n : Nat) : Option (Option Nat × FrameAllocator) :=
  match a.markRangeUsed start n with
  | none => none
  | some a' =>
    match a'.layout.frameIndexToAddr start with
    | none => none
    | some addr => some (some addr, a')

/-- The loop over the managed ranges that the contiguous allocations share. -/
def allocateWithin (a : FrameAllocator) (n : Nat) (accept : Nat → Option Bool) :
    List ManagedRange → Option (Option Nat × FrameAllocator)
  | [] => some (none, a)
  | range :: ranges =>
    if range.frames < n then allocateWithin a n accept ranges
    else
      match a.findStart n accept (range' range.indexBase (range.frames - n + 1)) with
      | none => none
      | some none => allocateWithin a n accept ranges
      | some (some start) => a.takeRange start n

/-- Find `n` consecutive free frames inside one managed range and mark them all
allocated. -/
def allocateContiguous (a : FrameAllocator) (n : Nat) : Option (Option Nat × FrameAllocator) :=
  if n = 1 then a.allocateFrame
  else a.allocateWithin n (fun _ => some true) a.layout.ranges

/-- Allocate `n` contiguous frames whose base address is `align`-aligned. -/
def allocateContiguousAligned (a : FrameAllocator) (n align : Nat) :
    Option (Option Nat × FrameAllocator) :=
  a.allocateWithin n
    (fun start => (a.layout.frameIndexToAddr start).map fun addr => addr % align == 0)
    a.layout.ranges

/-- The frames `start, …, start + n - 1` lie in the range. -/
def Fits (r : ManagedRange) (start n : Nat) : Prop := r.indexBase ≤ start ∧ start + n ≤ r.endIndex

theorem Fits.le_totalFrames (hr : r ∈ l.ranges)
    (h : Fits r start n) : start + n ≤ l.totalFrames := by
  have hend := l.indexed.endIndex_le hr
  rw [Nat.zero_add, ← l.total] at hend
  exact le_trans h.2 hend

theorem takeRange_spec (hin : start + n ≤ a.layout.totalFrames)
    (hfree : Window (bit a.bitmap) start n) :
    ∃ a', Claims a a' start n ∧ a'.lastAllocIndex = a.lastAllocIndex ∧
      a.takeRange start n = (a.layout.frameIndexToAddr start).map fun addr => (some addr, a') := by
  obtain ⟨a', hmark, hclaims, hlast⟩ := markRangeUsed_spec hin hfree
  refine ⟨a', hclaims, hlast, ?_⟩
  simp only [takeRange, hmark, hclaims.layout]
  cases a.layout.frameIndexToAddr start with
  | none => rfl
  | some => rfl

theorem findStart_some (h : a.findStart n accept starts = some (some start)) :
    start ∈ starts ∧ accept start = some true ∧ Window a.isFrameAllocated start n := by
  induction starts with
  | nil => simp [findStart] at h
  | cons s _ ih =>
    unfold findStart at h
    split at h
    · contradiction
    · exact (ih h).imp_left (mem_cons_of_mem s)
    next haccept =>
    split at h
    · exact (ih h).imp_left (mem_cons_of_mem s)
    · next hany =>
      cases h
      exact ⟨mem_cons_self, haccept, by simpa [Window] using hany⟩

theorem findStart_none (h : a.findStart n accept starts = some none) :
    ∀ s ∈ starts, accept s = some true → ¬Window a.isFrameAllocated s n := by
  induction starts with
  | nil => simp
  | cons s _ ih =>
    unfold findStart at h
    split at h
    · contradiction
    · next hreject => exact forall_mem_cons.mpr ⟨fun haccept => by simp [hreject] at haccept, ih h⟩
    split at h
    · next hany =>
      refine forall_mem_cons.mpr ⟨fun _ hfree => ?_, ih h⟩
      obtain ⟨i, hi, hused⟩ := any_eq_true.mp hany
      rw [hfree i (mem_range.mp hi)] at hused
      contradiction
    · cases h

/-- The search for a start returns when no acceptance test panics. -/
theorem findStart_returns
    (h : ∀ s ∈ starts, ∃ b, accept s = some b) : ∃ r, a.findStart n accept starts = some r := by
  induction starts with
  | nil => exact ⟨none, rfl⟩
  | cons s _ ih =>
    obtain ⟨r, hr⟩ := ih fun s' hs' => h s' (mem_cons_of_mem s hs')
    obtain ⟨b, hb⟩ := h s mem_cons_self
    unfold findStart
    rw [hb]
    cases b with
    | false => exact ⟨r, hr⟩
    | true =>
      split_ifs
      · exact ⟨r, hr⟩
      · exact ⟨_, rfl⟩

theorem mem_range'_iff_fits (hn : ¬r.frames < n) :
    start ∈ range' r.indexBase (r.frames - n + 1) ↔ Fits r start n := by
  rw [mem_range'_1]
  unfold Fits ManagedRange.endIndex
  omega

theorem window_iff (hin : start + n ≤ a.layout.totalFrames) :
    Window a.isFrameAllocated start n ↔ Window (bit a.bitmap) start n := by
  refine forall₂_congr fun i hi => ?_
  rw [isFrameAllocated_eq (by omega)]

theorem findStart_window (hr : r ∈ a.layout.ranges) (hn : ¬r.frames < n)
    (h : a.findStart n accept (range' r.indexBase (r.frames - n + 1)) = some (some start)) :
    Fits r start n ∧ start + n ≤ a.layout.totalFrames ∧ Window (bit a.bitmap) start n := by
  obtain ⟨hmem, -, hfree⟩ := findStart_some h
  have hfits := (mem_range'_iff_fits hn).mp hmem
  have hin := hfits.le_totalFrames hr
  exact ⟨hfits, hin, (window_iff hin).mp hfree⟩

/-- A contiguous allocation that returns takes free frames of one range at an accepted
start, or changes nothing because there are none. -/
theorem allocateWithin_cases (hsub : ∀ r ∈ ranges, r ∈ a.layout.ranges)
    (h : a.allocateWithin n accept ranges = some (out, a')) :
    (out = none ∧ a' = a ∧ ∀ r ∈ ranges, ∀ s, Fits r s n → accept s = some true →
      ¬Window (bit a.bitmap) s n) ∨
    ∃ r ∈ a.layout.ranges, ∃ start addr, Fits r start n ∧ accept start = some true ∧
      out = some addr ∧ Claims a a' start n ∧ a.layout.frameIndexToAddr start = some addr ∧
      a'.lastAllocIndex = a.lastAllocIndex := by
  induction ranges with
  | nil =>
    cases h
    exact .inl ⟨rfl, rfl, fun _ hr => absurd hr not_mem_nil⟩
  | cons r _ ih =>
    have hr := hsub r mem_cons_self
    -- a range without a run leaves the search to the others
    have htail (hnone : ∀ s, Fits r s n → accept s = some true → ¬Window (bit a.bitmap) s n) h :=
      (ih (fun r' hr' => hsub r' (mem_cons_of_mem r hr')) h).imp_left
        (And.imp_right (And.imp_right fun hrest => forall_mem_cons.mpr ⟨hnone, hrest⟩))
    unfold allocateWithin at h
    split at h
    · next hshort =>
      refine htail (fun s hs => ?_) h
      unfold Fits ManagedRange.endIndex at hs
      omega
    next hn =>
    split at h
    · contradiction
    · next hnone =>
      refine htail (fun s hs haccept hw => ?_) h
      exact findStart_none hnone s ((mem_range'_iff_fits hn).mpr hs) haccept
        ((window_iff (hs.le_totalFrames hr)).mpr hw)
    next start hstart =>
    obtain ⟨hfits, hin, hwindow⟩ := findStart_window hr hn hstart
    obtain ⟨b, hclaims, hlast, htake⟩ := takeRange_spec hin hwindow
    rw [htake] at h
    obtain ⟨addr, haddr, heq⟩ := Option.map_eq_some_iff.mp h
    cases heq
    exact .inr ⟨r, hr, start, addr, hfits, (findStart_some hstart).2.1, rfl, hclaims, haddr, hlast⟩

/-- A contiguous allocation returns when no acceptance test of a start in a range
panics and every start it may take has an address. -/
theorem allocateWithin_returns (hsub : ∀ r ∈ ranges, r ∈ a.layout.ranges)
    (haccept : ∀ r ∈ ranges, ∀ s, Fits r s n → ∃ b, accept s = some b)
    (haddr : ∀ r ∈ ranges, ∀ s, Fits r s n →
      a.findStart n accept (range' r.indexBase (r.frames - n + 1)) = some (some s) →
      ∃ addr, a.layout.frameIndexToAddr s = some addr) :
    ∃ out, a.allocateWithin n accept ranges = some out := by
  induction ranges with
  | nil => exact ⟨_, rfl⟩
  | cons r _ ih =>
    have htail := ih (fun r' hr' => hsub r' (mem_cons_of_mem r hr'))
      (fun r' hr' => haccept r' (mem_cons_of_mem r hr'))
      fun r' hr' => haddr r' (mem_cons_of_mem r hr')
    unfold allocateWithin
    split_ifs with hn
    · exact htail
    obtain ⟨found, hfound⟩ := findStart_returns fun s hs =>
      haccept r mem_cons_self s ((mem_range'_iff_fits hn).mp hs)
    rw [hfound]
    cases found with
    | none => exact htail
    | some start =>
      obtain ⟨hfits, hin, hwindow⟩ := findStart_window (hsub r mem_cons_self) hn hfound
      obtain ⟨b, -, -, htake⟩ := takeRange_spec hin hwindow
      obtain ⟨addr, haddr⟩ := haddr r mem_cons_self start hfits hfound
      exact ⟨(some addr, b), by simp only [htake, haddr, Option.map_some]⟩

/-- A run of at least one frame has an address. -/
theorem Fits.exists_addr (hn : n ≠ 0) (hr : r ∈ l.ranges) (h : Fits r start n) :
    ∃ addr, l.frameIndexToAddr start = some addr := by
  have hin := h.le_totalFrames hr
  exact Layout.frameIndexToAddr_isSome (by omega)

/-! ## guest memory -/

/-- Index of the first run of `n` free frames, scanning the whole index space. -/
def findFreeRun (a : FrameAllocator) (n : Nat) : Option Nat :=
  if n = 0 ∨ n > a.layout.totalFrames then none
  else scanRun a.isFrameAllocated n a.layout.totalFrames 0 0 0

/-- Allocate `n` contiguous physical frames for guest memory. -/
def allocateGuestRam (a : FrameAllocator) (n : Nat) : Option (Option Nat × FrameAllocator) :=
  match a.findFreeRun n with
  | none => some (none, a)
  | some start => a.takeRange start n

theorem findFreeRun_some (h : a.findFreeRun n = some start) :
    0 < n ∧ start + n ≤ a.layout.totalFrames ∧ Window (bit a.bitmap) start n ∧
      ∀ s < start, ¬Window (bit a.bitmap) s n := by
  unfold findFreeRun at h
  split at h
  · contradiction
  next hn =>
  have hspec := scanRun_zero_spec a.isFrameAllocated (n := n) (by omega) a.layout.totalFrames
  rw [h] at hspec
  obtain ⟨hwindow, hin, hfirst⟩ := hspec
  refine ⟨by omega, hin, (window_iff hin).mp hwindow, fun s hs hw => hfirst s hs ?_⟩
  exact (window_iff (by omega)).mpr hw

theorem findFreeRun_none (h : a.findFreeRun n = none) (hn : n ≠ 0)
    (hin : start + n ≤ a.layout.totalFrames) : ¬Window (bit a.bitmap) start n := by
  rw [findFreeRun, if_neg (by omega)] at h
  have hspec := scanRun_zero_spec a.isFrameAllocated hn a.layout.totalFrames
  rw [h] at hspec
  exact fun hw => hspec start hin ((window_iff hin).mpr hw)

/-- A guest allocation takes the first run of `n` free indices, or changes nothing. -/
theorem allocateGuestRam_spec (a : FrameAllocator) (n : Nat) :
    (a.allocateGuestRam n = some (none, a) ∧ a.findFreeRun n = none) ∨
    ∃ start addr a', a.allocateGuestRam n = some (some addr, a') ∧ Claims a a' start n ∧
      a.findFreeRun n = some start ∧ a.layout.frameIndexToAddr start = some addr ∧
      a'.lastAllocIndex = a.lastAllocIndex := by
  unfold allocateGuestRam
  cases hrun : a.findFreeRun n with
  | none => exact .inl ⟨rfl, rfl⟩
  | some start =>
    obtain ⟨hpos, hin, hfree, -⟩ := findFreeRun_some hrun
    obtain ⟨a', hclaims, hlast, htake⟩ := takeRange_spec hin hfree
    have hlt : start < a.layout.totalFrames := by omega
    obtain ⟨addr, haddr⟩ := Layout.frameIndexToAddr_isSome hlt
    exact .inr ⟨start, addr, a', by simp only [htake, haddr, Option.map_some], hclaims, rfl, haddr,
      hlast⟩

/-! ## boot -/

variable (plan : ManagedPlan)

/-- The allocator over a plan, before the bitmap's own frames are reserved. -/
def zeroed : FrameAllocator where
  layout := plan.toLayout
  usedFrames := 0
  bitmap := replicate (bitmapWords plan.totalFrames) 0#64
  lastAllocIndex := 0
  words := by simp

/-- Initialise the allocator: the frames that hold the bitmap are marked used. -/
def newFromMap : Option FrameAllocator :=
  let allocator := zeroed plan
  match allocator.layout.indexOfAddr plan.bitmapStart with
  | none => some allocator
  | some index => allocator.markRangeUsed index (bitmapPages plan.totalFrames)

theorem bit_zeroed (i : Nat) : bit (zeroed plan).bitmap i = false := by
  have hword : (zeroed plan).bitmap.getD (i / 64) 0#64 = 0#64 := by
    simp only [zeroed, getD_eq_getElem?_getD, getElem?_replicate]
    split_ifs <;> rfl
  rw [bit, hword, BitVec.getLsbD_zero]

/-- Boot returns, and takes the frames of the bitmap. -/
theorem newFromMap_spec : ∃ a, newFromMap plan = some a ∧
      Claims (zeroed plan) a plan.host.indexBase (bitmapPages plan.totalFrames) ∧
      a.lastAllocIndex = 0 := by
  unfold newFromMap
  have hindex : (zeroed plan).layout.indexOfAddr plan.bitmapStart = some plan.host.indexBase :=
    plan.indexOfAddr_bitmapStart
  simp only [hindex]
  have hfits : Fits plan.host plan.host.indexBase (bitmapPages plan.totalFrames) :=
    ⟨le_rfl, Nat.add_le_add_left plan.room _⟩
  exact markRangeUsed_spec (hfits.le_totalFrames plan.host_mem) fun i _ => bit_zeroed plan _

end FrameAllocator

/-! ## transactions -/

/-- One call of the allocator, under its lock. -/
inductive Op
  | allocateFrame
  | allocateContiguous (n : Nat)
  | allocateContiguousAligned (n align : Nat)
  | deallocateFrame (frame : Nat)
  | allocateGuestRam (n : Nat)

inductive Response
  | address (base : Option Nat)
  | freed (warning : Option FrameAllocator.FreeWarning)
deriving DecidableEq

/-- Serve one call; `none` is a panic. -/
def step (a : FrameAllocator) : Op → Option (Response × FrameAllocator)
  | .allocateFrame => a.allocateFrame.map (Prod.map .address id)
  | .allocateContiguous n => (a.allocateContiguous n).map (Prod.map .address id)
  | .allocateContiguousAligned n align =>
    (a.allocateContiguousAligned n align).map (Prod.map .address id)
  | .deallocateFrame frame => (a.deallocateFrame frame).map (Prod.map .freed id)
  | .allocateGuestRam n => (a.allocateGuestRam n).map (Prod.map .address id)

end Cellos.Memory.Frame
