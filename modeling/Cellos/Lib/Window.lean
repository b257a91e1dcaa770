import Mathlib

/-!
# Cellos.Lib.Window

Searching a row of flags for `n` clear ones in a row.

`Window busy s n` says that the `n` indices from `s` on are clear.  `scanRun` is
the one-pass search that counts the current run of clear flags and answers its
start as soon as it is `n` long; `scanRun_spec` says that it finds the first
window, and answers `none` only when there is none.
-/

namespace Cellos.Lib

variable {busy : Nat → Bool} {n runStart runLen : Nat} {idx : Nat}

/-- The `n` indices from `s` on are clear. -/
def Window (busy : Nat → Bool) (s n : Nat) : Prop := ∀ i < n, busy (s + i) = false

theorem Window.not_busy {s j : Nat} (h : Window busy s n) (hs : s ≤ j) (hj : j < s + n) :
    busy j = false := by
  have := h (j - s) (by omega)
  rwa [Nat.add_sub_cancel' hs] at this

/-- Scan `rem` flags from `idx` on; `runLen` clear flags end at `idx`, and
`runStart` is where they start. -/
def scanRun (busy : Nat → Bool) (n : Nat) : Nat → Nat → Nat → Nat → Option Nat
  | 0, _, _, _ => none
  | rem + 1, idx, runStart, runLen =>
    if busy idx then scanRun busy n rem (idx + 1) runStart 0
    else
      let runStart := if runLen = 0 then idx else runStart
      if runLen + 1 = n then some runStart
      else scanRun busy n rem (idx + 1) runStart (runLen + 1)

/-- What the scan knows when it reaches `idx`: the current run is clear and too
short, and no window starts before it. -/
structure ScanInv (busy : Nat → Bool) (n idx runStart runLen : Nat) : Prop where
  lt : runLen < n
  start : runLen ≠ 0 → runStart + runLen = idx
  le : runLen ≤ idx
  clear : ∀ j, idx - runLen ≤ j → j < idx → busy j = false
  earlier : ∀ s, s < idx - runLen → ¬Window busy s n

/-- A busy flag ends the run, and no window contains it. -/
theorem ScanInv.busy_succ (h : ScanInv busy n idx runStart runLen)
    (hb : busy idx = true) : ScanInv busy n (idx + 1) runStart 0 := by
  refine ⟨by have := h.lt; omega, by simp, by omega, by omega, fun s hs hw => ?_⟩
  by_cases hlt : s < idx - runLen
  · exact h.earlier s hlt hw
  have hlen := h.lt
  have hclear := hw.not_busy (j := idx) (by omega) (by omega)
  rw [hb] at hclear
  contradiction

theorem ScanInv.clear_succ (h : ScanInv busy n idx runStart runLen)
    (hc : busy idx = false) (hn : runLen + 1 ≠ n) :
    ScanInv busy n (idx + 1) (if runLen = 0 then idx else runStart) (runLen + 1) := by
  have hlen := h.lt
  have hle := h.le
  refine ⟨by omega, fun _ => ?_, by omega, fun j hj hlt => ?_, fun s hs => h.earlier s (by omega)⟩
  · split_ifs with h0
    · omega
    · have := h.start h0
      omega
  · by_cases hji : j = idx
    · rw [hji]
      exact hc
    · exact h.clear j (by omega) (by omega)

/-- **The scan finds the first window**, and `none` means that there is none below
`total`. -/
theorem scanRun_spec {total rem : Nat} (hrem : idx + rem = total)
    (h : ScanInv busy n idx runStart runLen) : match scanRun busy n rem idx runStart runLen with
    | some s => Window busy s n ∧ s + n ≤ total ∧ ∀ s' < s, ¬Window busy s' n
    | none => ∀ s, s + n ≤ total → ¬Window busy s n := by
  induction rem generalizing idx runStart runLen with
  | zero =>
    intro s hs hw
    have hlen := h.lt
    exact h.earlier s (by omega) hw
  | succ _ ih =>
    unfold scanRun
    cases hb : busy idx with
    | true => exact ih (by omega) (h.busy_succ hb)
    | false =>
      by_cases hn : runLen + 1 = n
      · have hs : (if runLen = 0 then idx else runStart) + runLen = idx := by
          split_ifs with h0
          · omega
          · exact h.start h0
        simp only [if_pos hn, Bool.false_eq_true, if_false]
        refine ⟨fun i hi => ?_, by omega, fun s hlt => h.earlier s (by omega)⟩
        by_cases hlast : i = runLen
        · rw [hlast, hs]
          exact hb
        · exact h.clear _ (by omega) (by omega)
      · simp only [if_neg hn, Bool.false_eq_true, if_false]
        exact ih (by omega) (h.clear_succ hb hn)

theorem scanRun_zero_spec (busy : Nat → Bool) {n : Nat} (hn : n ≠ 0) (total : Nat) :
    match scanRun busy n total 0 0 0 with
    | some s => Window busy s n ∧ s + n ≤ total ∧ ∀ s' < s, ¬Window busy s' n
    | none => ∀ s, s + n ≤ total → ¬Window busy s n :=
  scanRun_spec (Nat.zero_add total) ⟨Nat.pos_of_ne_zero hn, by simp, by omega, by omega, by omega⟩

end Cellos.Lib
