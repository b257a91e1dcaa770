import Mathlib

/-!
# Cellos.Lib.Custody

Custody of shared units of a resource (frames, blocks, buffers).

A ledger records *holders*, each using a set of units under a release key, and
*withheld* sets of units, each waiting for one key.  When a key is released its
holders are dropped and the sets waiting for it are handed back.

A withheld set records only one key, so handing it back is safe when every holder
that uses part of it carries that key: `Ledger.Sound`.  Keys that are never
released (`permanent`) are exempt.
-/

namespace Cellos.Lib

variable {φ κ : Type*}

/-- Holders and withheld sets, each a set of units with a key. -/
structure Ledger (φ κ : Type*) where
  (holders withheld : Set (Set φ × κ))

namespace Ledger

/-- Every holder that shares a unit with a releasable withheld set carries its key. -/
def Sound (permanent : κ → Prop) (L : Ledger φ κ) : Prop :=
  ∀ w ∈ L.withheld, ¬permanent w.2 → ∀ h ∈ L.holders, (h.1 ∩ w.1).Nonempty → h.2 = w.2

variable {permanent : κ → Prop} {L L' : Ledger φ κ}

variable (hL : L.Sound permanent) {w : Set φ × κ}

include hL

/-- Dropping holders and withheld sets keeps soundness. -/
theorem Sound.mono (hh : L'.holders ⊆ L.holders)
    (hw : L'.withheld ⊆ L.withheld) : L'.Sound permanent :=
  fun w hwm hp h hhm hn => hL w (hw hwm) hp h (hh hhm) hn

/-- A new holder must carry the key of every releasable withheld set it shares units with. -/
theorem Sound.hold {h : Set φ × κ}
    (hh : L'.holders ⊆ insert h L.holders) (hw : L'.withheld ⊆ L.withheld)
    (hnew : ∀ w ∈ L.withheld, ¬permanent w.2 → (h.1 ∩ w.1).Nonempty → h.2 = w.2) :
    L'.Sound permanent := by
  intro w hwm hp g hg hn
  rcases hh hg with rfl | hg
  · exact hnew w (hw hwm) hp hn
  · exact hL w (hw hwm) hp g hg hn

/-- A newly withheld set must wait for the key of every holder it shares units with. -/
theorem Sound.withhold (hh : L'.holders ⊆ L.holders) (hw : L'.withheld ⊆ insert w L.withheld)
    (hnew : ¬permanent w.2 → ∀ h ∈ L.holders, (h.1 ∩ w.1).Nonempty → h.2 = w.2) :
    L'.Sound permanent := by
  intro v hv hp h hhm hn
  rcases hw hv with rfl | hv
  · exact hnew hp h (hh hhm) hn
  · exact hL v hv hp h (hh hhm) hn

/-- **Release rule**: once the holders of its key are dropped, nothing uses a
withheld set of a sound ledger. -/
theorem Sound.disjoint_of_released (hw : w ∈ L.withheld)
    (hp : ¬permanent w.2) (hdrop : ∀ h ∈ L'.holders, h ∈ L.holders ∧ h.2 ≠ w.2) :
    ∀ h ∈ L'.holders, Disjoint h.1 w.1 := by
  intro h hh
  rw [Set.disjoint_iff_inter_eq_empty]
  by_contra hne
  obtain ⟨hmem, hkey⟩ := hdrop h hh
  exact hkey (hL w hw hp h hmem (Set.nonempty_iff_ne_empty.mpr hne))

end Ledger

end Cellos.Lib
